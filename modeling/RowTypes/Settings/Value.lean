import RowTypes.Decimal.Double
import RowTypes.Json.Basic

/-! The values that settings are read from, and which of them stand for a truth value,
a number, a text or a choice. A loose reading also takes a text for the value that it
spells, as variables of the environment have nothing else. -/

namespace RowTypes

attribute [local instance (high)] instPowNat

inductive Value where
  | null
  | boolean (b : Bool)
  | integer (n : Int)
  | number (x : Float)
  | text (s : String)
  | list (items : List Value)
  | table (entries : List (String × Value))
deriving Inhabited

inductive Reading where
  | exact
  | loose
deriving DecidableEq, Repr

namespace Value

mutual

/-- A number that is not an integer of 64 bits becomes a double. -/
def ofJson : Json → Value
  | .null => null
  | .boolean b => boolean b
  | .number n =>
    let value : Int := if n.negative then -(n.coefficient : Int) else n.coefficient
    if n.isInteger ∧ -(2 ^ (63 : Nat)) ≤ value ∧ value < 2 ^ (63 : Nat) then integer value
    else number (Decimal.scaledDouble n.negative n.coefficient n.exponent)
  | .string s => text s
  | .array items => list (ofItems items)
  | .object members => table (ofMembers members)

def ofItems : List Json → List Value
  | [] => []
  | item :: items => ofJson item :: ofItems items

def ofMembers : List (String × Json) → List (String × Value)
  | [] => []
  | (key, value) :: members => (key, ofJson value) :: ofMembers members

end

def isTrueWord (word : String) : Bool := word ∈ ["true", "on", "yes"]

def isFalseWord (word : String) : Bool := word ∈ ["false", "off", "no"]

def lowerCase (s : String) : String := String.ofList (s.toList.map Char.toLower)

def bool? (r : Reading) (v : Value) : Option Bool :=
  match r, v with
  | _, boolean b => some b
  | .loose, integer n => some (n != 0)
  | .loose, number x => some (x != 0)
  | .loose, text s =>
    let word := lowerCase s
    if word = "1" ∨ isTrueWord word then some true
    else if word = "0" ∨ isFalseWord word then some false
    else none
  | _, _ => none

def natural? (r : Reading) (v : Value) : Option Nat :=
  match r, v with
  | _, integer n => if 0 ≤ n ∧ n < 2 ^ (64 : Nat) then some n.toNat else none
  | .loose, boolean b => some b.toNat
  | .loose, number x => some x.round.toUInt64.toNat
  | .loose, text s =>
    let word := lowerCase s
    if isTrueWord word then some 1
    else if isFalseWord word then some 0
    else Text.unsigned? 64 s.toList
  | _, _ => none

def text? (r : Reading) (v : Value) : Option String :=
  match r, v with
  | _, text s => some s
  | .loose, boolean b => some (if b then "true" else "false")
  | .loose, integer n => some (toString n)
  | .loose, number x => some (Decimal.render x)
  | _, _ => none

/-- The choice that a text names, or the key of a table that has only one. -/
def choice? {α : Type} (r : Reading) (named : String → Option α) (v : Value) : Option α :=
  match r, v with
  | _, text s => named s
  | _, table [(key, null)] => named key
  | .loose, table [(key, _)] => named key
  | _, _ => none

def items? : Value → Option (List Value)
  | list items => some items
  | _ => none

def entries? : Value → Option (List (String × Value))
  | table entries => some entries
  | _ => none

/-- The values of named fields in their order, which a list gives without the names. -/
def fields? (r : Reading) (names : List String) (v : Value) : Option (List (Option Value)) :=
  match v with
  | table entries => some (names.map fun name => entries.lookup name)
  | list items =>
    if r = .exact ∧ names.length < items.length then none
    else some ((List.range names.length).map fun n => items[n]?)
  | _ => none

end Value
end RowTypes
