import RowTypes.FileTree.Resolve

/-! Reading and changing a tree of files through paths. -/

namespace RowTypes.FileTree

def read (t : FileTree) (path : String) : Except FileError String := do
  match ← t.lookup path with
  | (_, .file (.text s) _) => return s
  | (_, .file (.binary _) _) => throw .invalidData
  | (_, .directory _) => throw .isADirectory
  | (_, .link _) => throw .filesystemLoop

def readIfExists (t : FileTree) (path : String) : Except FileError (Option String) :=
  match t.read path with
  | .ok s => .ok (some s)
  | .error .notFound => .ok none
  | .error e => .error e

def mode (t : FileTree) (path : String) : Except FileError Nat := do
  match ← t.lookup path with
  | (_, .file _ mode) => return mode
  | (_, .directory mode) => return mode
  | (_, .link _) => throw .filesystemLoop

def isDirectory (t : FileTree) (path : String) : Bool :=
  match t.lookup path with
  | .ok (_, .directory _) => true
  | _ => false

def newFileMode (t : FileTree) : Nat := 0o666 - (0o666 &&& t.umask)

def newDirectoryMode (t : FileTree) : Nat := 0o777 - (0o777 &&& t.umask)

def makeDirectory (t : FileTree) (path : String) : Except FileError FileTree :=
  match t.resolve false path with
  | .ok (.free l) => .ok (t.set l (.directory t.newDirectoryMode))
  | .ok (.entry _ _) => .error .alreadyExists
  | .error e => .error e

def lineage (path : String) : List String :=
  let parts := Path.components path
  ((List.range parts.length).map fun n => Path.ofComponents (parts.take (n + 1))).reverse

def makeDirectories (t : FileTree) (path : String) : FileTree :=
  (lineage path).reverse.foldl (fun t p => (t.makeDirectory p).toOption.getD t) t

/-- Writes a text or bytes to a file, which keeps its mode if it is there. -/
def put (t : FileTree) (path : String) (content : Content) : Except FileError FileTree :=
  match t.resolve true path with
  | .ok (.free l) => .ok (t.set l (.file content t.newFileMode))
  | .ok (.entry l (.file _ mode)) => .ok (t.set l (.file content mode))
  | .ok (.entry _ _) => .error .isADirectory
  | .error e => .error e

/-- Removes what has the path, a link itself and not its target. -/
def remove (t : FileTree) (path : String) : Except FileError FileTree :=
  match t.resolve false path with
  | .ok (.entry l _) => .ok (t.eraseBelow l)
  | .ok (.free _) => .error .notFound
  | .error e => .error e

def makeLink (t : FileTree) (path target : String) : Except FileError FileTree :=
  match t.resolve false path with
  | .ok (.free l) => .ok (t.set l (.link target))
  | .ok (.entry _ _) => .error .alreadyExists
  | .error e => .error e

def setMode (t : FileTree) (path : String) (mode : Nat) : Except FileError FileTree := do
  match ← t.lookup path with
  | (l, .file content _) => return t.set l (.file content mode)
  | (l, .directory _) => return t.set l (.directory mode)
  | (_, .link _) => throw .filesystemLoop

/-- Puts a file where anything but a directory may be; a link is not followed. -/
def replace (t : FileTree) (l : Location) (content : Content) (mode : Nat) :
    Except FileError FileTree :=
  if t.isDirectoryAt l then .error .isADirectory else .ok (t.set l (.file content mode))

end RowTypes.FileTree
