import RowTypes.Settings.Load

/-! What a command line asks for. -/

namespace RowTypes.CommandLine

inductive UsageError where
  | help
  | version
  | unknownArgument (text : String)
  | unknownCommand (text : String)
  | invalidValue (text : String)
  /-- A flag that takes no value has one. -/
  | extraValue (text : String)
  /-- A flag stands twice. -/
  | repeated (text : String)
deriving DecidableEq, Repr

namespace UsageError

def message : UsageError → String
  | help => "Usage: pgtypegen [OPTIONS] [COMMAND]"
  | version => "pgtypegen 0.3.0"
  | unknownArgument text => "error: unexpected argument '" ++ text ++ "' found"
  | unknownCommand text => "error: unrecognized subcommand '" ++ text ++ "'"
  | invalidValue text => "error: invalid value for '" ++ text ++ "'"
  | extraValue text => "error: unexpected value for '" ++ text ++ "' found; no more were expected"
  | repeated text => "error: the argument '" ++ text ++ "' cannot be used multiple times"

def isInformation : UsageError → Bool
  | help | version => true
  | _ => false

end UsageError

inductive Flag where
  | configPath
  | connectionString
  | rootDirectory
  | included
  | excluded
  | since
  | cleanPoint
  | lazy
  | logLevel
  | logFormat
  | help
  | version
deriving DecidableEq, Repr

namespace Flag

def all : List Flag :=
  [configPath, connectionString, rootDirectory, included, excluded, since, cleanPoint, lazy,
    logLevel, logFormat, help, version]

def long : Flag → String
  | configPath => "config-file-path"
  | connectionString => "connection-string"
  | rootDirectory => "root-dir"
  | included => "include"
  | excluded => "exclude"
  | since => "since"
  | cleanPoint => "check-clean"
  | lazy => "lazy"
  | logLevel => "log-level"
  | logFormat => "log-format"
  | help => "help"
  | version => "version"

def short? : Flag → Option Char
  | configPath => some 'p'
  | connectionString => some 'c'
  | rootDirectory => some 'r'
  | included => some 'i'
  | excluded => some 'e'
  | since => some 's'
  | cleanPoint => none
  | lazy => none
  | logLevel => some 'l'
  | logFormat => some 'f'
  | help => some 'h'
  | version => some 'V'

def takesValue : Flag → Bool
  | lazy | help | version => false
  | _ => true

theorem long_injective {f g : Flag} (h : f.long = g.long) : f = g := by
  have find (f : Flag) : all.find? (·.long == f.long) = some f := by
    cases f <;> simp [all, long]
  rw [← Option.some_inj, ← find f, h, find g]

/-- The version is not asked for behind a command. -/
def known (behindCommand : Bool) : List Flag :=
  all.filter fun f => !(behindCommand && f = version)

def ofLong? (behindCommand : Bool) (name : String) : Option Flag :=
  (known behindCommand).find? fun f => f.long == name

def ofShort? (behindCommand : Bool) (c : Char) : Option Flag :=
  (known behindCommand).find? fun f => f.short? == some c

end Flag

structure Given where
  configPath : Option String
  connectionString : Option String
  rootDirectory : Option String
  included : List String
  excluded : List String
  since : Option String
  cleanPoints : List CleanPoint
  lazy : Bool
  logLevel : Option Log.Level
  logFormat : Option Log.Format
deriving DecidableEq, Repr

namespace Given

def empty : Given := ⟨none, none, none, [], [], none, [], false, none, none⟩

def level? : String → Option Log.Level := named? Log.Level.name Log.Level.all

def format? : String → Option Log.Format := named? Log.Format.name Log.Format.all

def point? : String → Option CleanPoint := named? CleanPoint.name CleanPoint.all

def once {α : Type} (f : Flag) (old : Option α) : Except UsageError Unit :=
  match old with
  | none => .ok ()
  | some _ => .error (.repeated f.long)

def valid {α : Type} (f : Flag) (read : String → Option α) (text : String) : Except UsageError α :=
  match read text with
  | some a => .ok a
  | none => .error (.invalidValue f.long)

def path? (text : String) : Option String := if text = "" then none else some text

/-- Takes in a flag. The value of one that has none is not looked at. -/
def set (g : Given) (f : Flag) (text : String) : Except UsageError Given :=
  match f with
  | .configPath => do once f g.configPath; return { g with configPath := some text }
  | .connectionString => do
    once f g.connectionString
    return { g with connectionString := some text }
  | .rootDirectory => do
    once f g.rootDirectory
    return { g with rootDirectory := some (← valid f path? text) }
  | .included => return { g with included := g.included ++ [text] }
  | .excluded => return { g with excluded := g.excluded ++ [text] }
  | .since => do once f g.since; return { g with since := some text }
  | .cleanPoint => return { g with cleanPoints := g.cleanPoints ++ [← valid f point? text] }
  | .lazy => do
    once f (if g.lazy then some () else none)
    return { g with lazy := true }
  | .logLevel => do once f g.logLevel; return { g with logLevel := some (← valid f level? text) }
  | .logFormat => do once f g.logFormat; return { g with logFormat := some (← valid f format? text) }
  | .help => throw .help
  | .version => throw .version

def orList {α : Type} (a b : List α) : List α := if a.isEmpty then b else a

def orElse (g h : Given) : Given where
  configPath := g.configPath.or h.configPath
  connectionString := g.connectionString.or h.connectionString
  rootDirectory := g.rootDirectory.or h.rootDirectory
  included := orList g.included h.included
  excluded := orList g.excluded h.excluded
  since := g.since.or h.since
  cleanPoints := orList g.cleanPoints h.cleanPoints
  lazy := g.lazy || h.lazy
  logLevel := g.logLevel.or h.logLevel
  logFormat := g.logFormat.or h.logFormat

def nonEmpty? {α : Type} (xs : List α) : Option (List α) := if xs.isEmpty then none else some xs

def settings (g : Given) : Settings :=
  { Settings.empty with
    connectionString := g.connectionString
    rootDirectory := g.rootDirectory
    included := nonEmpty? g.included
    excluded := nonEmpty? g.excluded
    since := g.since
    cleanPoints := nonEmpty? g.cleanPoints
    lazy := if g.lazy then some true else none }

def applyToLog (g : Given) (c : Log.Config) : Log.Config :=
  let c := match g.logLevel with
    | some level => { c with level := level, levelOf := fun _ => level }
    | none => c
  match g.logFormat with
  | some format => { c with format }
  | none => c

end Given

structure Arguments where
  given : Given
  /-- Whether the one command that there is was named. -/
  hasCommand : Bool
deriving DecidableEq, Repr

def Arguments.configPath (a : Arguments) : String := a.given.configPath.getD Settings.defaultPath

end RowTypes.CommandLine
