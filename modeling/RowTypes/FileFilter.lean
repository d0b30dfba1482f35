import RowTypes.Glob.Parse
import RowTypes.Path

/-! Which files of a tree are wanted. Patterns are matched against the path from the
root of the tree. An excluded pattern that ends in `/**` leaves out whole directories,
so these need not be entered. -/

namespace RowTypes

structure InvalidGlob where
  pattern : String
  cause : Glob.SyntaxError
deriving DecidableEq, Repr

structure FileFilter where
  included : List Glob
  excluded : List Glob
  /-- The directories whose files are all excluded. -/
  pruned : List Glob
deriving DecidableEq, Repr

namespace FileFilter

def globs : List String → Except InvalidGlob (List Glob)
  | [] => .ok []
  | pattern :: patterns =>
    match Glob.parse pattern with
    | .error cause => .error ⟨pattern, cause⟩
    | .ok g => (globs patterns).map (g :: ·)

def directory? (pattern : String) : Option String :=
  let cs := pattern.toList
  if "/**".toList.isSuffixOf cs then some (String.ofList (cs.take (cs.length - 3))) else none

def ofPatterns (included excluded : List String) : Except InvalidGlob FileFilter := do
  let includedGlobs ← globs included
  let excludedGlobs ← globs excluded
  return ⟨includedGlobs, excludedGlobs, ← globs (excluded.filterMap directory?)⟩

def anyMatch (gs : List Glob) (path : String) : Bool :=
  let bytes := Glob.bytes path
  gs.any (·.accepts bytes)

def isMatch (f : FileFilter) (path : String) : Bool :=
  anyMatch f.included path && !anyMatch f.excluded path

def isExcludedDirectory (f : FileFilter) (path : String) : Bool :=
  Path.fileName? path = some ".git" || anyMatch f.pruned path

end FileFilter
end RowTypes
