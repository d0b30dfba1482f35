import RowTypes.CommandLine.Arguments

/-! Reading a command line. A flag may have its value behind a sign of equality, a short
one right behind its letter, and otherwise the next argument is the value. A value is
looked at when the next flag or the end comes, so that what cannot be read at all is
found first. -/

namespace RowTypes.CommandLine

structure State where
  given : Given
  /-- The flag whose value has not been looked at, and the value unless it is still to
  come. -/
  pending : Option (Flag × Option String)
  behindCommand : Bool
deriving DecidableEq, Repr

namespace State

def start (behindCommand : Bool) : State := ⟨.empty, none, behindCommand⟩

def isAwaiting (s : State) : Bool :=
  match s.pending with
  | some (_, none) => true
  | _ => false

def settle (s : State) : Except UsageError State :=
  match s.pending with
  | none => .ok s
  | some (f, none) => .error (.invalidValue f.long)
  | some (f, some text) => do return { s with given := ← s.given.set f text, pending := none }

def take (s : State) (f : Flag) (text : String) : Except UsageError State := do
  let s ← s.settle
  return { s with given := ← s.given.set f text }

def takeOption (s : State) (f : Flag) (text : Option String) : Except UsageError State :=
  match text with
  | some text => s.take f text
  | none => do return { ← s.settle with pending := some (f, none) }

def takeLong (s : State) (name : String) (text : Option String) : Except UsageError State :=
  match Flag.ofLong? s.behindCommand name with
  | none => .error (.unknownArgument ("--" ++ name))
  | some f =>
    if f.takesValue then s.takeOption f text
    else
      match text with
      | some _ => .error (.extraValue f.long)
      | none => s.take f ""

def attached? : List Char → Option String
  | [] => none
  | '=' :: cs => some (String.ofList cs)
  | cs => some (String.ofList cs)

def takeShort (s : State) : List Char → Except UsageError State
  | [] => .ok s
  | c :: cs =>
    match Flag.ofShort? s.behindCommand c with
    | none => .error (.unknownArgument (String.ofList ['-', c]))
    | some f =>
      if f.takesValue then s.takeOption f (attached? cs)
      else do takeShort (← s.take f "") cs

end State

def commandName : String := "generate"

def helpName : String := "help"

def helpOn : List String → UsageError
  | [] => .help
  | [name] => if name = commandName ∨ name = helpName then .help else .unknownCommand name
  | name :: next :: _ =>
    if name = commandName ∨ name = helpName then .unknownCommand next else .unknownCommand name

/-- Nothing may stand behind two dashes. -/
def readTrailing (s : State) : List String → Except UsageError State
  | [] => .ok s
  | arg :: _ =>
    if s.behindCommand ∨ arg = commandName ∨ arg = helpName then .error (.unknownArgument arg)
    else .error (.unknownCommand arg)

def readArguments (s : State) : List String → Except UsageError (State × Option (List String))
  | [] => .ok (s, none)
  | arg :: args =>
    if !s.isAwaiting ∧ !s.behindCommand ∧ arg = commandName then .ok (s, some args)
    else if !s.isAwaiting ∧ !s.behindCommand ∧ arg = helpName then .error (helpOn args)
    else
      match arg.toList with
      | ['-', '-'] => do return (← readTrailing s args, none)
      | '-' :: '-' :: cs => do
        let name := String.ofList (cs.takeWhile (· ≠ '='))
        let text := match cs.dropWhile (· ≠ '=') with
          | [] => none
          | _ :: text => some (String.ofList text)
        readArguments (← s.takeLong name text) args
      | '-' :: c :: cs => do readArguments (← s.takeShort (c :: cs)) args
      | _ =>
        match s.pending with
        | some (f, none) => readArguments { s with pending := some (f, some arg) } args
        | _ => .error (if s.behindCommand then .unknownArgument arg else .unknownCommand arg)

def levelVariable : String := "TYPEGEN_LOG__LEVEL"

def formatVariable : String := "TYPEGEN_LOG__FORMAT"

def fromEnvironment {α : Type} (environment : Environment.Variables) (f : Flag) (name : String)
    (read : String → Option α) (old : Option α) : Except UsageError (Option α) :=
  match old, environment.lookup name with
  | some a, _ => .ok (some a)
  | none, none => .ok none
  | none, some text => (Given.valid f read text).map some

def onLog (environment : Environment.Variables) (g : Given) : Except UsageError Given := do
  let logLevel ← fromEnvironment environment .logLevel levelVariable Given.level? g.logLevel
  let logFormat ← fromEnvironment environment .logFormat formatVariable Given.format? g.logFormat
  return { g with logLevel, logFormat }

/-- Flags may stand before the command and behind it, where they count. The environment
is asked at both places. -/
def Arguments.ofList (args : List String) (environment : Environment.Variables) :
    Except UsageError Arguments := do
  let (front, rest) ← readArguments (.start false) args
  match rest with
  | none =>
    let g := (← front.settle).given
    return ⟨← onLog environment g, false⟩
  | some rest =>
    let (back, _) ← readArguments (.start true) rest
    let behind := (← back.settle).given
    let _ ← onLog environment behind
    let before := (← front.settle).given
    let _ ← onLog environment before
    return ⟨← onLog environment (behind.orElse before), true⟩

end RowTypes.CommandLine
