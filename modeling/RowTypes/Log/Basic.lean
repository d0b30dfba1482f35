/-! What is logged. An event has a target, which names a part of a run, and a level.
Each target has a level of its own up to which its events are logged, and all other
events share one. -/

namespace RowTypes.Log

inductive Level where
  | error
  | warn
  | info
  | debug
  | trace
deriving DecidableEq, Repr

namespace Level

def all : List Level := [error, warn, info, debug, trace]

def name : Level → String
  | error => "error"
  | warn => "warn"
  | info => "info"
  | debug => "debug"
  | trace => "trace"

def detail : Level → Nat
  | error => 0
  | warn => 1
  | info => 2
  | debug => 3
  | trace => 4

instance : LE Level := ⟨fun a b => a.detail ≤ b.detail⟩

instance (a b : Level) : Decidable (a ≤ b) := inferInstanceAs (Decidable (a.detail ≤ b.detail))

theorem le_trans {a b c : Level} (h : a ≤ b) (h' : b ≤ c) : a ≤ c := Nat.le_trans h h'

end Level

inductive Format where
  | pretty
  | structured
  | text
deriving DecidableEq, Repr

def Format.name : Format → String
  | .pretty => "pretty"
  | .structured => "structured"
  | .text => "text"

def Format.all : List Format := [.pretty, .structured, .text]

inductive Output where
  | stdout
  | stderr
deriving DecidableEq, Repr

def Output.name : Output → String
  | .stdout => "stdout"
  | .stderr => "stderr"

def Output.all : List Output := [.stdout, .stderr]

inductive Target where
  | config
  | extract
  | catalog
  | describe
  | infer
  | write
  | git
deriving DecidableEq, Repr

namespace Target

def all : List Target := [config, extract, catalog, describe, infer, write, git]

def name : Target → String
  | config => "config"
  | extract => "extract"
  | catalog => "catalog"
  | describe => "describe"
  | infer => "infer"
  | write => "write"
  | git => "git"

end Target

structure Config where
  ansiEnabled : Bool
  format : Format
  output : Output
  /-- Of events that have no known target. -/
  level : Level
  levelOf : Target → Level

namespace Config

def atLevel (level : Level) : Config where
  ansiEnabled := false
  format := .text
  output := .stderr
  level := level
  levelOf _ := level

def default : Config := atLevel .warn

def setLevel (c : Config) (target : Target) (level : Level) : Config :=
  { c with levelOf := fun t => if t = target then level else c.levelOf t }

/-- The level for the events of a target. What comes behind the name of a known target
does not count. -/
def limit (c : Config) (target : String) : Level :=
  match Target.all.find? fun t => t.name.toList.isPrefixOf target.toList with
  | some t => c.levelOf t
  | none => c.level

def logs (c : Config) (target : String) (level : Level) : Bool := decide (level ≤ c.limit target)

theorem logs_of_le {c : Config} {target : String} {a b : Level} (h : a ≤ b)
    (logged : c.logs target b = true) : c.logs target a = true := by
  simp only [logs, decide_eq_true_eq] at *
  exact Level.le_trans h logged

def showsPlaces (c : Config) : Bool :=
  decide (Level.debug ≤ c.level) || Target.all.any fun t => decide (Level.debug ≤ c.levelOf t)

def lineKeys (c : Config) : List String :=
  if c.showsPlaces then
    ["fields", "filename", "level", "line_number", "target", "threadId", "timestamp"]
  else ["fields", "level", "target", "timestamp"]

end Config
end RowTypes.Log
