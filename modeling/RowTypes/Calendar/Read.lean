import RowTypes.Calendar.Basic
import RowTypes.Text.Blank
import RowTypes.Text.Numeral

/-! Reading a moment: a date, a time of day behind it, and a distance from Greenwich
behind that. A number may follow blanks. -/

namespace RowTypes.Calendar

attribute [local instance (high)] instPowNat

abbrev Reader (α : Type) := List Char → Option (α × List Char)

def digits (limit : Option Nat) : Reader (Nat × Nat) := fun cs =>
  let run := cs.takeWhile Char.isDigit
  let taken := match limit with
    | some n => run.take n
    | none => run
  if taken = [] then none else some ((Text.digitsValue taken, taken.length), cs.drop taken.length)

def number (limit : Nat) : Reader Nat := fun cs => do
  let ((n, _), rest) ← digits (some limit) (Text.trimStart cs)
  return (n, rest)

def year : Reader Int := fun cs =>
  match Text.trimStart cs with
  | '-' :: cs => (digits none cs).map fun ((n, _), rest) => (-(n : Int), rest)
  | '+' :: cs => (digits none cs).map fun ((n, _), rest) => ((n : Int), rest)
  | cs => (digits (some 4) cs).map fun ((n, _), rest) => ((n : Int), rest)

def mark (c : Char) (cs : List Char) : Option (List Char) :=
  match cs with
  | d :: rest => if d = c then some rest else none
  | [] => none

def date : Reader Date := fun cs => do
  let (y, cs) ← year cs
  let (m, cs) ← number 2 (← mark '-' cs)
  let (d, cs) ← number 2 (← mark '-' cs)
  let found : Date := ⟨y, m, d⟩
  if found.isValid then return (found, cs) else none

/-- The digits behind a point; those beyond the ninth do not count. -/
def fraction : Reader Nat := fun cs =>
  match cs with
  | '.' :: cs => do
    let ((n, count), rest) ← digits (some 9) cs
    return (n * 10 ^ (9 - count), rest.dropWhile Char.isDigit)
  | cs => some (0, cs)

def time : Reader Time := fun cs => do
  let (h, cs) ← number 2 cs
  let (m, cs) ← number 2 (← mark ':' cs)
  let (s, cs) ← number 2 (← mark ':' cs)
  let (n, cs) ← fraction cs
  let found : Time := ⟨h, m, s, n⟩
  if found.isValid then return (found, cs) else none

def twoDigits? : List Char → Option Nat
  | a :: b :: _ => if a.isDigit ∧ b.isDigit then some (Text.digitsValue [a, b]) else none
  | _ => none

def offsetMinutes : Reader Nat := fun cs =>
  match cs with
  | [] => some (0, [])
  | cs => do
    let m ← twoDigits? cs
    if m < 60 then return (m, cs.drop 2) else none

def offset : Reader Int := fun cs =>
  let signed (negative : Bool) (cs : List Char) : Option (Int × List Char) := do
    let hours ← twoDigits? cs
    let (minutes, rest) ←
      offsetMinutes ((cs.drop 2).dropWhile fun c => c = ':' || Text.isBlank c)
    let total := hours * 60 + minutes
    if total < 1440 then return (if negative then -(total : Int) else total, rest) else none
  match Text.trimStart cs with
  | 'Z' :: rest | 'z' :: rest => some (0, rest)
  | '+' :: cs => signed false cs
  | '-' :: cs => signed true cs
  | '\u2212' :: cs => signed true cs
  | _ => none

def finished (rest : List Char) : Option Unit := if rest = [] then some () else none

def zonedMoment? (cs : List Char) : Option Moment := do
  let (d, cs) ← date cs
  let (t, cs) ← time (Text.trimStart cs)
  let (minutes, cs) ← offset cs
  finished cs
  let m := Moment.toGreenwich ⟨d, t⟩ minutes
  if m.date.isValid then return m else none

def localMoment? (cs : List Char) : Option Moment := do
  let (d, cs) ← date cs
  let (t, cs) ← time (Text.trimStart cs)
  finished cs
  return ⟨d, t⟩

def midnight? (cs : List Char) : Option Moment := do
  let (d, cs) ← date cs
  finished cs
  return ⟨d, ⟨0, 0, 0, 0⟩⟩

def moment? (cs : List Char) : Option Moment :=
  (zonedMoment? cs).or ((localMoment? cs).or (midnight? cs))

end RowTypes.Calendar
