import RowTypes.FileFilter
import RowTypes.FileTree.Resolve

/-! The files below a directory that a filter selects. Directories that are excluded
are not entered, links are not followed, and the names of a directory are visited in
the order of their bytes. -/

namespace RowTypes

def FileTree.absolute (t : FileTree) (path : String) : String :=
  "/" ++ String.intercalate "/"
    ((t.origin path) ++ (Path.components path).filter fun s => s ≠ "/" ∧ s ≠ ".")

namespace Discovery

abbrev Relative := List String

def Relative.text (names : Relative) : String := String.intercalate "/" names

/-- The files in the directory `here` down to a depth, except those below an excluded
directory. -/
def files (t : FileTree) (filter : FileFilter) : Nat → Location → Relative → List Relative
  | 0, _, _ => []
  | depth + 1, here, relative =>
    (t.names here).flatMap fun name =>
      let path := relative ++ [name]
      match t.get? (here ++ [name]) with
      | some (.file _ _) => [path]
      | some (.directory _) =>
        if filter.isExcludedDirectory (Relative.text path) then []
        else files t filter depth (here ++ [name]) path
      | _ => []

/-- The files below the root, or the root itself if it is a file. A dash stands for
the standard input, which has none. -/
def relativeFiles (t : FileTree) (root : String) (filter : FileFilter) : List Relative :=
  if Path.components root = ["-"] then []
  else
    match t.lookup root with
    | .ok (_, .file _ _) => [[]]
    | .ok (l, .directory _) => files t filter t.depth l []
    | _ => []

def isAmong (t : FileTree) (only : Option (List String)) (path : String) : Bool :=
  match only with
  | none => true
  | some paths =>
    let components := Path.components (t.absolute path)
    paths.any fun p => Path.components p = components

/-- The paths below `root` that `filter` selects, and that are among `only`. -/
def discover (t : FileTree) (root : String) (filter : FileFilter)
    (only : Option (List String)) : List String :=
  (relativeFiles t root filter).filterMap fun relative =>
    let path := relative.foldl Path.join root
    if filter.isMatch (Relative.text relative) && isAmong t only path then some path else none

end Discovery
end RowTypes
