import RowTypes.Settings.Value

/-! Settings in variables of the environment. Behind `TYPEGEN_` comes the name of the
setting, in which two underscores lead into a table. The text is read as a truth value
or a number where it spells one, and cut at commas where a list is expected. -/

namespace RowTypes.Environment

abbrev Variables := List (String × String)

def prefixText : List Char := "typegen_".toList

def lower (s : String) : List Char := s.toList.map Char.toLower

def pointed : List Char → List Char
  | [] => []
  | '_' :: '_' :: cs => '.' :: pointed cs
  | c :: cs => c :: pointed cs

def key? (name : String) : Option String :=
  let cs := lower name
  if prefixText.isPrefixOf cs then some (String.ofList (pointed (cs.drop prefixText.length)))
  else none

def listKeys : List String := ["include", "exclude", "check_clean"]

def value (key text : String) : Value :=
  let cs := text.toList
  let word := String.ofList (lower text)
  if word = "true" then .boolean true
  else if word = "false" then .boolean false
  else
    match Text.signed? 64 cs, Decimal.double? cs with
    | some n, _ => .integer n
    | none, some x => .number x
    | none, none =>
      if key ∈ listKeys then .list ((cs.splitOn ',').map fun item => .text (String.ofList item))
      else .text text

def settings (environment : Variables) : List (String × Value) :=
  environment.filterMap fun (name, text) => (key? name).map fun key => (key, value key text)

end RowTypes.Environment
