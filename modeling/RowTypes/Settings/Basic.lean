import RowTypes.Decode.SampleTypes
import RowTypes.Log.Basic
import RowTypes.Settings.Value

/-! What a user has set. Nothing has to be, and what is set later counts. -/

namespace RowTypes

inductive CleanPoint where
  /-- Before anything is read. -/
  | before
  /-- When all files are written. -/
  | after
  | never
deriving DecidableEq, Repr

namespace CleanPoint

def all : List CleanPoint := [before, after, never]

def name : CleanPoint → String
  | before => "before-migrate"
  | after => "after"
  | never => "none"

theorem name_injective {p q : CleanPoint} (h : p.name = q.name) : p = q := by
  cases p <;> cases q <;> first | rfl | exact absurd h (by decide)

end CleanPoint

structure DatabaseSettings where
  connectionTimeout : Option Nat
  statementTimeout : Option Nat
  describeConcurrency : Option Nat
deriving DecidableEq, Repr

structure Settings where
  connectionString : Option String
  database : Option DatabaseSettings
  rootDirectory : Option String
  included : Option (List String)
  excluded : Option (List String)
  since : Option String
  cleanPoints : Option (List CleanPoint)
  lazy : Option Bool
  defaultType : Option String
  typeOverrides : Option (List (String × String))
  typeParsers : Option (List (String × Decoder))
  samples : Option (List (String × String))
  log : Option Log.Config
  /-- What is no setting, by its name. -/
  unknown : List (String × Value)

namespace Settings

def empty : Settings :=
  ⟨none, none, none, none, none, none, none, none, none, none, none, none, none, []⟩

/-- The entries without those whose key comes again, in the order of the keys. -/
def sorted {α : Type} (entries : List (String × α)) : List (String × α) :=
  let last := entries.reverse.eraseDupsBy fun a b => a.1 == b.1
  last.mergeSort fun a b => decide (a.1 ≤ b.1)

def overlay (s later : Settings) : Settings where
  connectionString := later.connectionString.or s.connectionString
  database := later.database.or s.database
  rootDirectory := later.rootDirectory.or s.rootDirectory
  included := later.included.or s.included
  excluded := later.excluded.or s.excluded
  since := later.since.or s.since
  cleanPoints := later.cleanPoints.or s.cleanPoints
  lazy := later.lazy.or s.lazy
  defaultType := later.defaultType.or s.defaultType
  typeOverrides := later.typeOverrides.or s.typeOverrides
  typeParsers := later.typeParsers.or s.typeParsers
  samples := later.samples.or s.samples
  log := later.log.or s.log
  unknown := sorted (s.unknown ++ later.unknown)

end Settings
end RowTypes
