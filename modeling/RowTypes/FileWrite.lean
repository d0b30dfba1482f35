import RowTypes.Companion
import RowTypes.FileTree.Operations
import RowTypes.Source.Typed

/-! The new text of a file and how it gets there. A write goes ahead only if the file
is as it was read. The text is written to a temporary file in the same directory,
which then takes the place of the target, so a write that fails on the way leaves
the target as it was. Any call of the file system may fail; `Faults` says which. -/

namespace RowTypes

structure FileWrite where
  path : String
  /-- The text that the file still has to have; none if there was no file. -/
  expected : Option String
  content : String
deriving DecidableEq, Repr

inductive WriteError where
  | conflict (path : String)
  | persist (path : String) (cause : FileError)
  | io (cause : FileError)
deriving DecidableEq, Repr

def WriteError.message : WriteError → String
  | conflict path => "File " ++ path ++ " changed on disk during generation"
  | persist path cause => "Could not persist " ++ path ++ ": " ++ cause.message
  | io cause => cause.message

inductive WriteOutcome where
  | written
  | unchanged
deriving DecidableEq, Repr

namespace FileWrite

inductive Call where
  | read
  | canonicalize
  /-- Making the directory of the target with all above it, as one call. -/
  | createDirectories
  | createDirectory (path : String)
  /-- The same again, once those above it are there. -/
  | retryDirectory (path : String)
  | stat
  | createTemporary
  | setPermissions
  | write
  | persist
deriving DecidableEq, Repr

/-- The calls that fail, though the tree gives no cause. -/
abbrev Faults := Call → Option FileError

def noFaults : Faults := fun _ => none

abbrev Action := ExceptT FileError (StateM FileTree)

def change (faults : Faults) (c : Call) (f : FileTree → Except FileError FileTree) :
    Action Unit := fun t =>
  match faults c with
  | some e => (.error e, t)
  | none =>
    match f t with
    | .ok t' => (.ok (), t')
    | .error e => (.error e, t)

def ask {α : Type} (faults : Faults) (c : Call) (f : FileTree → Except FileError α) :
    Action α := fun t =>
  match faults c with
  | some e => (.error e, t)
  | none => (f t, t)

def noneIfNotFound {α : Type} (a : Action α) : Action (Option α) := fun t =>
  match a t with
  | (.ok x, t) => (.ok (some x), t)
  | (.error .notFound, t) => (.ok none, t)
  | (.error e, t) => (.error e, t)

def makeDirectory (faults : Faults) (c : Call) (path : String) : Action Unit :=
  change faults c fun t => t.makeDirectory path

def unlessDirectory (path : String) (e : FileError) : Action Unit := fun t =>
  if t.isDirectory path then (.ok (), t) else (.error e, t)

/-- Makes the first path a directory. The paths that follow are those above it, which
are made where they are missing. -/
def makeDirectories (faults : Faults) : List String → Action Unit
  | [] => return
  | path :: above =>
    tryCatch (makeDirectory faults (.createDirectory path) path) fun e =>
      if e = .notFound then do
        makeDirectories faults above
        tryCatch (makeDirectory faults (.retryDirectory path) path) (unlessDirectory path)
      else unlessDirectory path e

inductive Target where
  | existing (location : Location)
  | new (path : String)
deriving DecidableEq, Repr

namespace Target

def of (path : String) : Option (Location × Entry) → Target
  | some (l, _) => existing l
  | none => new path

def directoryPath (path : String) : String :=
  match Path.parent? path with
  | none | some "" => "."
  | some dir => dir

def makeDirectories (faults : Faults) (target : Target) : Action Unit := do
  ask faults .createDirectories fun _ => .ok ()
  match target with
  | existing _ => return
  | new path => FileWrite.makeDirectories faults (FileTree.lineage (directoryPath path))

def temporary (t : FileTree) : Target → Except FileError Location
  | existing l => .ok (l.dropLast ++ [t.unusedName])
  | new path => do
    match ← t.lookup (directoryPath path) with
    | (l, .directory _) => return l ++ [t.unusedName]
    | _ => throw .notADirectory

def mode (t : FileTree) : Target → Except FileError Nat
  | existing l =>
    match t.get? l with
    | some (.file _ mode) => .ok mode
    | some (.directory mode) => .ok mode
    | _ => .error .notFound
  | new path => t.mode path

def mode? (faults : Faults) (target : Target) : Action (Option Nat) :=
  noneIfNotFound <| ask faults .stat target.mode

def place (t : FileTree) : Target → Except FileError Location
  | existing l => .ok l
  | new path => t.place path

end Target

def moveTo (temporary : Location) (target : Target) (t : FileTree) :
    Except FileError FileTree := do
  let l ← target.place t
  match t.get? temporary with
  | some (.file content mode) => (t.erase temporary).replace l content mode
  | _ => throw .notFound

def io {α : Type} (a : Action α) : ExceptT WriteError (StateM FileTree) α := fun t =>
  match a t with
  | (.ok x, t) => (.ok x, t)
  | (.error e, t) => (.error (.io e), t)

def writeAndMove (faults : Faults) (w : FileWrite) (target : Target) (mode : Nat)
    (temporary : Location) : ExceptT WriteError (StateM FileTree) Unit := do
  io <| change faults .write fun t => .ok (t.set temporary (.file (.text w.content) mode))
  tryCatch (io <| change faults .persist (moveTo temporary target)) fun
    | .io e => throw (.persist w.path e)
    | e => throw e

/-- Fills the temporary file and moves it. A file that is there keeps its mode. -/
def fill (faults : Faults) (w : FileWrite) (target : Target) (mode? : Option Nat)
    (temporary : Location) : ExceptT WriteError (StateM FileTree) Unit := do
  let mode := mode?.getD (← get).newFileMode
  if mode?.isSome then
    io <| change faults .setPermissions fun t => .ok (t.set temporary (.file (.text "") mode))
  writeAndMove faults w target mode temporary

def install (faults : Faults) (w : FileWrite) (target : Target) :
    ExceptT WriteError (StateM FileTree) Unit := do
  let mode? ← io (target.mode? faults)
  let temporary ← io <| ask faults .createTemporary target.temporary
  modify fun t => t.set temporary (.file (.text "") t.newFileMode)
  tryCatch (fill faults w target mode? temporary) fun e => do
    modify fun t => t.erase temporary
    throw e

def perform (faults : Faults) (w : FileWrite) : ExceptT WriteError (StateM FileTree) WriteOutcome := do
  let current ← io <| noneIfNotFound <| ask faults .read fun t => t.read w.path
  if current ≠ w.expected then throw (.conflict w.path)
  else if current = some w.content then return .unchanged
  else
    let found ← io <| noneIfNotFound <| ask faults .canonicalize fun t => t.lookup w.path
    let target := Target.of w.path found
    io (target.makeDirectories faults)
    install faults w target
    return .written

/-- The write that brings a file in line with the declarations of its queries. Queries
that have failed are left as they are. A `.sql` file is never written, its companion
is. -/
def plan (t : FileTree) (file : SourceFile) (ds : List Declaration) (failed : List QueryRecord)
    (defaultType : String) : Except FileError (Option FileWrite) := do
  if file.isSqlFile then
    match ds.head?, Companion.path? file.path with
    | some d, some path =>
      return some ⟨path, ← t.readIfExists path, Companion.render d file.path defaultType⟩
    | _, _ => return none
  else
    let content := file.content.toList
    if ds = [] ∧ (Block.find? content).isNone then return none
    else
      return some ⟨file.path, some file.content,
        String.ofList (TypedSource.render content ds failed defaultType)⟩

end FileWrite
end RowTypes
