import RowTypes.FileFilter

/-! What can be wrong with a configuration. -/

namespace RowTypes

inductive ConfigError where
  | invalidConnectionString
  | invalidGlob (e : InvalidGlob)
  | invalidParameter (name value : String)
  | unknownTypeParser (name : String)
  /-- The file or the variables of the environment do not hold settings. -/
  | unreadable
deriving DecidableEq, Repr

def ConfigError.message : ConfigError → String
  | invalidConnectionString => "Connection string should not contain spaces or quotes"
  | invalidGlob e => "Invalid glob pattern " ++ e.pattern
  | invalidParameter name value => "Invalid value " ++ value ++ " for parameter " ++ name
  | unknownTypeParser name => "Unknown type parser " ++ name
  | unreadable => "The configuration could not be read"

end RowTypes
