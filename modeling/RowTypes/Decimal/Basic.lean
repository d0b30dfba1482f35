import RowTypes.Decimal.Nearest
import RowTypes.Text.Blank

/-! Decimal numbers with a coefficient of 96 bits and at most 28 places, and how they
are read. A place beyond the last one rounds it, and then the rest of the text does
not matter. -/

namespace RowTypes

attribute [local instance (high)] instPowNat

structure Decimal where
  negative : Bool
  coefficient : Nat
  scale : Nat
deriving DecidableEq, Repr

namespace Decimal

def coefficientBound : Nat := 2 ^ (96 : Nat)

def maxScale : Nat := 28

/-- Zero has no sign. -/
def ofParts (negative : Bool) (coefficient scale : Nat) : Decimal :=
  ⟨negative && coefficient ≠ 0, coefficient, scale⟩

def digit? (c : Char) : Option Nat := if c.isDigit then some (c.toNat - '0'.toNat) else none

/-- The number with its last place rounded by the digit behind it. A coefficient that
grows too large gives up a place. -/
def rounded? (negative : Bool) (coefficient scale : Nat) (next : Char) : Option Decimal := do
  let up ←
    match digit? next with
    | some d => some (if 5 ≤ d then 1 else 0)
    | none => if next = '_' ∨ next = '.' then some 0 else none
  let coefficient := coefficient + up
  if coefficient < coefficientBound then some (ofParts negative coefficient scale)
  else if scale = 0 then none
  else some (ofParts negative ((coefficient + 4) / 10) (scale - 1))

def readDigits (negative point started : Bool) (coefficient scale : Nat) :
    List Char → Option Decimal
  | [] => if started then some (ofParts negative coefficient scale) else none
  | c :: cs =>
    if point ∧ scale ≥ maxScale then
      match c, cs with
      | '_', d :: _ => rounded? negative coefficient scale d
      | '_', [] => some (ofParts negative coefficient scale)
      | c, _ => rounded? negative coefficient scale c
    else
      match digit? c with
      | some d =>
        let next := 10 * coefficient + d
        if next < coefficientBound then
          readDigits negative point true next (if point then scale + 1 else 0) cs
        else if point then rounded? negative coefficient scale c
        else none
      | none =>
        if c = '.' ∧ !point then readDigits negative true started coefficient scale cs
        else if c = '_' ∧ started then readDigits negative point started coefficient scale cs
        else none

def ofPositional? (cs : List Char) : Option Decimal :=
  match cs with
  | [] => none
  | '-' :: cs => readDigits true false false 0 0 cs
  | '+' :: cs => readDigits false false false 0 0 cs
  | cs => readDigits false false false 0 0 cs

def exponent? (cs : List Char) : Option Nat := do
  let ds := match cs with
    | '+' :: ds => ds
    | ds => ds
  if ds = [] then none
  else
    let n ← ds.foldl (fun n c => do return 10 * (← n) + (← digit? c)) (some 0)
    if n < 2 ^ (32 : Nat) then some n else none

def shiftLeft? (d : Decimal) (n : Nat) : Option Decimal :=
  if n ≤ d.scale then some { d with scale := d.scale - n }
  else if d.coefficient = 0 then some { d with scale := 0 }
  else if n - d.scale > maxScale then none
  else
    let coefficient := d.coefficient * 10 ^ (n - d.scale)
    if coefficient < coefficientBound then some { d with coefficient, scale := 0 } else none

def shiftRight? (d : Decimal) (n : Nat) : Option Decimal :=
  if n ≤ maxScale ∧ d.scale + n ≤ maxScale then some { d with scale := d.scale + n } else none

def isExponentMark (c : Char) : Bool := c = 'e' || c = 'E'

def ofScientific? (cs : List Char) : Option Decimal := do
  match cs.dropWhile (!isExponentMark ·) with
  | [] => none
  | _ :: exponent =>
    let d ← ofPositional? (cs.takeWhile (!isExponentMark ·))
    match exponent with
    | '-' :: exponent => d.shiftRight? (← exponent? exponent)
    | exponent => d.shiftLeft? (← exponent? exponent)

def ofText? (cs : List Char) : Option Decimal := (ofPositional? cs).or (ofScientific? cs)

def toDouble (d : Decimal) : Float := double d.negative d.coefficient (10 ^ d.scale)

end Decimal
end RowTypes
