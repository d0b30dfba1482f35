import RowTypes.FileTree.Basic
import RowTypes.Path

/-! Where a path leads in a tree of files: links are followed, a step upwards goes
to the directory that contains the one reached so far, and whatever is passed on
the way has to be a directory. -/

namespace RowTypes.FileTree

inductive Found where
  | entry (location : Location) (e : Entry)
  /-- Nothing has the name, but its directory is there. -/
  | free (location : Location)
deriving DecidableEq, Repr

def isDirectoryAt (t : FileTree) (l : Location) : Bool :=
  match t.get? l with
  | some (.directory _) => true
  | _ => false

/-- The names that a path steps through. A slash at the end steps to the directory
itself. -/
def steps (path : String) : List String :=
  if path.endsWith "/" then Path.segments path ++ ["."] else Path.segments path

def origin (t : FileTree) (path : String) : Location :=
  if Path.isAbsolute path then [] else t.workingDirectory

/-- Follows names from the directory `here`. Where a link is met, `goOn` has the directory from
which to go on and the names. The last name is followed as a link only if `follow` holds. -/
def walkNames (t : FileTree) (follow : Bool)
    (goOn : Location → List String → Except FileError Found) (here : Location) :
    List String → Except FileError Found
  | [] =>
    match t.get? here with
    | some e => .ok (.entry here e)
    | none => .error .notFound
  | name :: rest =>
    if !t.isDirectoryAt here then .error .notADirectory
    else if name = "." then walkNames t follow goOn here rest
    else if name = ".." then walkNames t follow goOn here.dropLast rest
    else
      let place := here ++ [name]
      match t.get? place with
      | none => if rest = [] then .ok (.free place) else .error .notFound
      | some (.link target) =>
        if rest = [] ∧ follow = false then .ok (.entry place (.link target))
        else goOn (if Path.isAbsolute target then [] else here) (steps target ++ rest)
      | some _ => walkNames t follow goOn place rest

def walk (t : FileTree) (follow : Bool) : Nat → Location → List String → Except FileError Found
  | 0 => walkNames t follow fun _ _ => .error .filesystemLoop
  | links + 1 => walkNames t follow (walk t follow links)

def maxLinks : Nat := 40

def resolve (t : FileTree) (follow : Bool) (path : String) : Except FileError Found :=
  if path = "" then .error .notFound
  else walk t follow maxLinks (t.origin path) (steps path)

def lookup (t : FileTree) (path : String) : Except FileError (Location × Entry) :=
  match t.resolve true path with
  | .ok (.entry l e) => .ok (l, e)
  | .ok (.free _) => .error .notFound
  | .error e => .error e

/-- The place of the last name of a path, whether it is taken or not. -/
def place (t : FileTree) (path : String) : Except FileError Location :=
  match (Path.segments path).reverse with
  | [] => .error .notFound
  | last :: before =>
    match walk t true maxLinks (t.origin path) before.reverse with
    | .error e => .error e
    | .ok (.free _) => .error .notFound
    | .ok (.entry here (.directory _)) =>
      if last = "." ∨ last = ".." then .error .busy
      else if path.endsWith "/" then .error .notADirectory
      else .ok (here ++ [last])
    | .ok (.entry _ _) => .error .notADirectory

end RowTypes.FileTree
