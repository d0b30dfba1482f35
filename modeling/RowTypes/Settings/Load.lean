import RowTypes.ConfigError
import RowTypes.Settings.Environment
import RowTypes.Settings.File
import RowTypes.Settings.Merge
import RowTypes.Settings.Read

/-! What a user has set in a file and in the environment, which counts where both have
something to say. -/

namespace RowTypes.Settings

def defaultPath : String := "typegen.toml"

def load (t : FileTree) (environment : Environment.Variables) (path : String) :
    Except ConfigError Settings :=
  match SettingsFile.entries? t path with
  | none => .error .unreadable
  | some entries =>
    let v := ((Value.table []).overlay entries).overlay (Environment.settings environment)
    match ofValue? .loose v with
    | some s => .ok s
    | none => .error .unreadable

end RowTypes.Settings
