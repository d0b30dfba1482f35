import RowTypes.FileTree.Operations
import RowTypes.Json.Read
import RowTypes.Settings.Value
import RowTypes.Text.Utf8
import RowTypes.Toml.Read

/-! Settings in a file, whose format its extension tells. Where there is no such file,
one with a further extension is looked for. -/

namespace RowTypes.SettingsFile

inductive Format where
  | toml
  | json
deriving DecidableEq, Repr

namespace Format

def extension : Format → String
  | toml => "toml"
  | json => "json"

def all : List Format := [toml, json]

def ofExtension? (e : String) : Option Format := all.find? fun f => f.extension == e

end Format

def content? (t : FileTree) (path : String) : Option Content :=
  match t.lookup path with
  | .ok (_, .file c _) => some c
  | _ => none

def extended (path name : String) (f : Format) : String :=
  Path.join ((Path.parent? path).getD "") (name ++ "." ++ f.extension)

/-- What the file holds, and its format. A file of no known format counts as missing. -/
def find? (t : FileTree) (path : String) : Option (Content × Format) :=
  match content? t path with
  | some c => do
    let f ← Format.ofExtension? (← Path.extension? path)
    return (c, f)
  | none => do
    let name ← Path.fileName? path
    Format.all.findSome? fun f => (content? t (extended path name f)).map fun c => (c, f)

def text : Content → String
  | .text s => if s.toList.head? = some '\ufeff' then String.ofList (s.toList.drop 1) else s
  | .binary bytes =>
    Text.decodeLossy (if bytes.take 3 = [0xef, 0xbb, 0xbf] then bytes.drop 3 else bytes)

def parse? (f : Format) (s : String) : Option (List (String × Value)) :=
  match f with
  | .toml => Toml.ofText? s
  | .json => do (Value.ofJson (← Json.ofText? s)).entries?

def entries? (t : FileTree) (path : String) : Option (List (String × Value)) :=
  match find? t path with
  | none => some []
  | some (c, f) => parse? f (text c)

end RowTypes.SettingsFile
