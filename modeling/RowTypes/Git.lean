import RowTypes.Discovery
import RowTypes.Settings.Basic

/-! The two questions to git: whether the working tree is clean, and which files have
changed since a revision. Each command has its replies ready, of which the last one is
given again and again. -/

namespace RowTypes

namespace Git

structure Reply where
  output : String
  errorOutput : String
  code : Int
deriving DecidableEq, Repr

def Reply.silent : Reply := ⟨"", "", 0⟩

end Git

/-- The replies to come, by the words of the command. -/
abbrev Git := List (String × List Git.Reply)

inductive GitError where
  | dirty (point status : String)
  | failed (command errorOutput : String)
  | io (cause : FileError)
deriving DecidableEq, Repr

def GitError.message : GitError → String
  | dirty point status => "Working tree is not clean " ++ point ++ ":\n" ++ status
  | failed command errorOutput => "git " ++ command ++ " failed: " ++ errorOutput
  | io cause => cause.message

namespace Git

def next (command : String) : Git → Reply × Git
  | [] => (.silent, [])
  | (c, replies) :: rest =>
    if c = command then
      match replies with
      | [] => (.silent, (c, []) :: rest)
      | [r] => (r, (c, [r]) :: rest)
      | r :: replies => (r, (c, replies) :: rest)
    else
      let (r, rest) := next command rest
      (r, (c, replies) :: rest)

def start (t : FileTree) (dir : String) : Except FileError Unit := do
  match ← t.lookup dir with
  | (_, .directory _) => return ()
  | _ => throw .notADirectory

def trimText (s : String) : String := String.ofList (Text.trim s.toList)

def call (t : FileTree) (dir command : String) (g : Git) : Except GitError String × Git :=
  match start t dir with
  | .error e => (.error (.io e), g)
  | .ok () =>
    let (r, g) := next command g
    (if r.code = 0 then .ok r.output else .error (.failed command (trimText r.errorOutput)), g)

def checkClean (t : FileTree) (dir : String) (p : CleanPoint) (g : Git) :
    Except GitError Unit × Git :=
  match call t dir "status --porcelain" g with
  | (.error e, g) => (.error e, g)
  | (.ok status, g) =>
    (if status.toList.all Text.isBlank then .ok () else .error (.dirty p.name status), g)

def lines (output : String) : List String :=
  ((output.toList.splitOn '\n').map fun line => String.ofList (Text.trim line)).filter (· ≠ "")

def changedSince (t : FileTree) (dir revision : String) (g : Git) :
    Except GitError (List String) × Git :=
  match call t dir ("diff --name-only --relative " ++ revision) g with
  | (.error e, g) => (.error e, g)
  | (.ok changed, g) =>
    match call t dir "ls-files --others --exclude-standard" g with
    | (.error e, g) => (.error e, g)
    | (.ok untracked, g) =>
      (.ok ((lines changed ++ lines untracked).map (Path.join (t.absolute dir))), g)

end Git
end RowTypes
