import RowTypes.Decimal.Nearest
import RowTypes.Text.Blank
import RowTypes.Text.Letter

/-! A span of time in seconds: amounts of units, wherever they stand in a text, and
one time of day. A month has thirty days and a year 365 and a quarter. -/

namespace RowTypes.Interval

attribute [local instance (high)] instPowNat

def digitsValue (cs : List Char) : Nat := cs.foldl (fun n c => 10 * n + (c.toNat - '0'.toNat)) 0

/-- The double nearest to digits with or without places. Digits of other scripts have
no value. -/
def valueOf? (negative : Bool) (whole places : List Char) : Option Float :=
  if (whole ++ places).all Char.isDigit then
    some (Decimal.double negative (digitsValue (whole ++ places)) (10 ^ places.length))
  else none

def places (cs : List Char) : List Char :=
  match cs with
  | '.' :: cs => cs.takeWhile Text.isDecimal
  | _ => []

def placesLength (ds : List Char) : Nat := if ds = [] then 0 else ds.length + 1

def units : List (String × Float) :=
  [("years", 31557600), ("year", 31557600), ("mons", 2592000), ("mon", 2592000),
    ("weeks", 604800), ("week", 604800), ("days", 86400), ("day", 86400), ("hours", 3600),
    ("hour", 3600), ("mins", 60), ("min", 60), ("secs", 1), ("sec", 1)]

structure Amount where
  negative : Bool
  whole : List Char
  places : List Char
  factor : Float

def amountAt? (cs : List Char) : Option (Amount × Nat) := do
  let negative := cs.head? = some '-'
  let body := if negative then cs.drop 1 else cs
  let whole := body.takeWhile Text.isDecimal
  if whole = [] then none
  else
    let ds := places (body.drop whole.length)
    let rest := body.drop (whole.length + placesLength ds)
    let unit := rest.dropWhile Text.isBlank
    let (name, factor) ← units.find? fun (name, _) => name.toList.isPrefixOf unit
    some (⟨negative, whole, ds, factor⟩, cs.length - unit.length + name.length)

/-- The amounts of a text from left to right, behind its first `skip` characters. -/
def amounts (skip : Nat) : List Char → List Amount
  | [] => []
  | c :: cs =>
    match skip with
    | skip + 1 => amounts skip cs
    | 0 =>
      match amountAt? (c :: cs) with
      | some (amount, length) => amount :: amounts (length - 1) cs
      | none => amounts 0 cs

structure Clock where
  negative : Bool
  hours : List Char
  minutes : List Char
  seconds : List Char
  places : List Char

def twoDigits? : List Char → Option (List Char × List Char)
  | a :: b :: cs => if Text.isDecimal a ∧ Text.isDecimal b then some ([a, b], cs) else none
  | _ => none

def clockAt? (cs : List Char) : Option Clock := do
  let negative := cs.head? = some '-'
  let body := if negative then cs.drop 1 else cs
  let hours := body.takeWhile Text.isDecimal
  match hours, body.drop hours.length with
  | _ :: _, ':' :: rest =>
    let (minutes, rest) ← twoDigits? rest
    match rest with
    | ':' :: rest =>
      let (seconds, rest) ← twoDigits? rest
      some ⟨negative, hours, minutes, seconds, places rest⟩
    | _ => none
  | _, _ => none

def clock? : List Char → Option Clock
  | [] => none
  | c :: cs => (clockAt? (c :: cs)).or (clock? cs)

def Clock.toSeconds (c : Clock) : Float :=
  let value (whole places : List Char) : Float := (valueOf? false whole places).getD 0
  let sign : Float := if c.negative then -1 else 1
  sign * (value c.hours [] * 3600 + value c.minutes [] * 60 + value c.seconds c.places)

inductive Outcome where
  | seconds (s : Float)
  /-- Neither an amount nor a time of day. -/
  | nothing
  /-- An amount in digits that have no value. -/
  | unreadable

def addAll (total : Float) : List Amount → Option Float
  | [] => some total
  | a :: rest =>
    match valueOf? a.negative a.whole a.places with
    | some x => addAll (total + x * a.factor) rest
    | none => none

def ofText (text : String) : Outcome :=
  let cs := text.toList
  let found := amounts 0 cs
  match addAll 0 found, clock? cs with
  | none, _ => .unreadable
  | some total, some c => .seconds (total + c.toSeconds)
  | some total, none => if found.isEmpty then .nothing else .seconds total

end RowTypes.Interval
