import RowTypes.Settings.Basic

/-! Settings from a value. A setting that is null is not set. -/

namespace RowTypes

open Value

def named? {α : Type} (name : α → String) (all : List α) (s : String) : Option α :=
  all.find? fun a => name a == s

def spellings (name : String) : List String :=
  let cs := name.toList
  [name, String.ofList ((cs.take 1).map Char.toUpper ++ cs.drop 1),
    String.ofList (cs.map Char.toUpper)]

def spelled? {α : Type} (name : α → String) (all : List α) (s : String) : Option α :=
  all.find? fun a => decide (s ∈ spellings (name a))

namespace Log.Config

def levelKey (target : Target) : String := target.name ++ "_level"

def fieldNames : List String :=
  ["ansi_enabled", "format", "output", "level"] ++ Target.all.map levelKey

def fieldOr {α : Type} (d : α) (read : Value → Option α) : Option Value → Option α
  | none => some d
  | some v => read v

def readLevels (r : Reading) (c : Config) : List (Target × Option Value) → Option Config
  | [] => some c
  | (target, field) :: rest => do
    let level ← fieldOr default.level (choice? r (spelled? Level.name Level.all)) field
    readLevels r (c.setLevel target level) rest

def ofValue? (r : Reading) (v : Value) : Option Config := do
  match ← fields? r fieldNames v with
  | ansi :: format :: output :: level :: targets =>
    let c : Config := {
      ansiEnabled := ← fieldOr default.ansiEnabled (bool? r) ansi
      format := ← fieldOr default.format (choice? r (spelled? Format.name Format.all)) format
      output := ← fieldOr default.output (choice? r (spelled? Output.name Output.all)) output
      level := ← fieldOr default.level (choice? r (spelled? Level.name Level.all)) level
      levelOf := default.levelOf }
    readLevels r c (Target.all.zip targets)
  | _ => none

end Log.Config

def optional {α : Type} (read : Value → Option α) : Option Value → Option (Option α)
  | none => some none
  | some null => some none
  | some v => (read v).map some

namespace DatabaseSettings

def fieldNames : List String := ["connection_timeout", "statement_timeout", "describe_concurrency"]

def isShortList : Value → Bool
  | list items => items.length < fieldNames.length
  | _ => false

/-- In a list no field may be missing. -/
def ofValue? (r : Reading) (v : Value) : Option DatabaseSettings := do
  if isShortList v then none
  else
    match ← fields? r fieldNames v with
    | [connection, statement, concurrency] =>
      return ⟨← optional (natural? r) connection, ← optional (natural? r) statement,
        ← optional (natural? r) concurrency⟩
    | _ => none

end DatabaseSettings

namespace Settings

def fieldNames : List String :=
  ["connection_string", "database", "root_dir", "include", "exclude", "since", "check_clean",
    "lazy", "default_type", "type_overrides", "type_parsers", "sample_values", "log"]

def listOf? {α : Type} (read : Value → Option α) (v : Value) : Option (List α) := do
  (← items? v).mapM read

def tableOf? {α : Type} (read : Value → Option α) (v : Value) : Option (List (String × α)) := do
  return sorted (← (← entries? v).mapM fun (key, v) => do return (key, ← read v))

def ofValue? (r : Reading) (v : Value) : Option Settings := do
  let entries ← entries? v
  let field {α : Type} (key : String) (read : Value → Option α) : Option (Option α) :=
    optional read (entries.lookup key)
  let cleanPoint := choice? r (named? CleanPoint.name CleanPoint.all)
  return {
    connectionString := ← field "connection_string" (text? r)
    database := ← field "database" (DatabaseSettings.ofValue? r)
    rootDirectory := ← field "root_dir" (text? r)
    included := ← field "include" (listOf? (text? r))
    excluded := ← field "exclude" (listOf? (text? r))
    since := ← field "since" (text? r)
    cleanPoints := ← field "check_clean" (listOf? cleanPoint)
    lazy := ← field "lazy" (bool? r)
    defaultType := ← field "default_type" (text? r)
    typeOverrides := ← field "type_overrides" (tableOf? (text? r))
    typeParsers := ← field "type_parsers" (tableOf? (choice? r Decoder.ofName?))
    samples := ← field "sample_values" (tableOf? (text? r))
    log := ← field "log" (Log.Config.ofValue? r)
    unknown := sorted (entries.filter fun e => !fieldNames.contains e.1) }

end Settings
end RowTypes
