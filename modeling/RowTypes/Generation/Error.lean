import RowTypes.ConfigError
import RowTypes.Database.Server
import RowTypes.FileWrite
import RowTypes.Git
import RowTypes.Inference
import RowTypes.Source.Load

/-! What can go wrong in a run. Most of it ends the run, but what is wrong with one
query or one file only leaves that out. -/

namespace RowTypes

inductive RunError where
  | cancelled
  | catalog (e : CatalogError)
  | config (e : ConfigError)
  | connectionTimeout
  | connection (database : String)
  | describe (e : DescribeError)
  | extract (e : ExtractError)
  | git (e : GitError)
  | infer (e : InferenceError)
  | write (e : WriteError)
deriving DecidableEq, Repr

namespace RunError

def message : RunError → String
  | cancelled => "Generation was cancelled"
  | catalog e => e.message
  | config e => e.message
  | connectionTimeout => "Database connection timed out"
  | connection database => "Could not connect to database " ++ database
  | describe e => e.message
  | extract e => e.message
  | git e => e.message
  | infer e => e.message
  | write e => e.message

def isFatal : RunError → Bool
  | describe _ | extract _ | infer _ | write _ => false
  | _ => true

end RunError
end RowTypes
