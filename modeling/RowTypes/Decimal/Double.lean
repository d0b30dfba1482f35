import RowTypes.Decimal.Nearest
import RowTypes.Text.Numeral

/-! Doubles as text: reading one in positional or scientific notation, and writing the
fewest digits that read back as the same double. -/

namespace RowTypes.Decimal

attribute [local instance (high)] instPowNat

/-- The double nearest to `± coefficient * 10 ^ exponent`. Where the power of ten alone
takes it out of range, the power is not computed. -/
def scaledDouble (negative : Bool) (coefficient : Nat) (exponent : Int) : Float :=
  let magnitude := exponent + coefficient.log2 / 3
  if coefficient = 0 ∨ magnitude < -400 then double negative 0 1
  else if 400 < exponent then double negative (2 ^ (1024 : Nat)) 1
  else double negative (coefficient * 10 ^ exponent.toNat) (10 ^ (-exponent).toNat)

def isPoint (c : Char) : Bool := c = '.'

def isMark (c : Char) : Bool := c = 'e' || c = 'E'

def power? (cs : List Char) : Option Int :=
  match cs with
  | '-' :: ds => (Text.natural? ds).map fun n => -(n : Int)
  | '+' :: ds => (Text.natural? ds).map Int.ofNat
  | ds => (Text.natural? ds).map Int.ofNat

def unsignedDouble? (negative : Bool) (cs : List Char) : Option Float := do
  let mantissa := cs.takeWhile (!isMark ·)
  let whole := mantissa.takeWhile (!isPoint ·)
  let fraction := (mantissa.dropWhile (!isPoint ·)).drop 1
  let coefficient ← Text.natural? (whole ++ fraction)
  let power ← match cs.dropWhile (!isMark ·) with
    | [] => some 0
    | _ :: ds => power? ds
  return scaledDouble negative coefficient (power - fraction.length)

def infinite (negative : Bool) : Float := double negative (2 ^ (1024 : Nat)) 1

def notANumber : Float := Float.ofBits 0x7ff8000000000000

def double? (cs : List Char) : Option Float :=
  let read (negative : Bool) (cs : List Char) : Option Float :=
    match String.ofList (cs.map Char.toLower) with
    | "inf" | "infinity" => some (infinite negative)
    | "nan" => some notANumber
    | _ => unsignedDouble? negative cs
  match cs with
  | '-' :: cs => read true cs
  | '+' :: cs => read false cs
  | cs => read false cs

def binaryParts (bits : Nat) : Nat × Int :=
  let exponent : Nat := bits / 2 ^ (52 : Nat) % 2 ^ (11 : Nat)
  let fraction : Nat := bits % 2 ^ (52 : Nat)
  if exponent = 0 then (fraction, -1074) else (2 ^ (52 : Nat) + fraction, (exponent : Int) - 1075)

def logTen (num den : Nat) : Int :=
  let guess : Int := ((Nat.toDigits 10 num).length : Int) - (Nat.toDigits 10 den).length
  if den * 10 ^ guess.toNat ≤ num * 10 ^ (-guess).toNat then guess else guess - 1

/-- Of the two multiples of `10 ^ place` next to the quotient, the nearer one that reads
back as `bits`. -/
def onGrid? (bits num den : Nat) (place : Int) : Option Nat :=
  let scaled := num * 10 ^ (-place).toNat
  let unit := den * 10 ^ place.toNat
  let below := scaled / unit
  let readsBack (k : Nat) : Bool :=
    doubleBits (k * 10 ^ place.toNat) (10 ^ (-place).toNat) = bits
  let nearer := if 2 * (scaled % unit) ≤ unit then [below, below + 1] else [below + 1, below]
  nearer.find? readsBack

/-- The fewest digits that read back as the double with these bits, which is neither
zero nor infinite, and the place of the last digit. -/
def shortest (bits : Nat) : Nat × Int :=
  let (m, q) := binaryParts bits
  let num := m * 2 ^ q.toNat
  let den := 2 ^ (-q).toNat
  let first := logTen num den
  (((List.range 18).findSome? fun n : Nat =>
    let place := first + 1 - (n : Nat)
    (onGrid? bits num den place).map fun k => (k, place))).getD (0, 0)

def positional (coefficient : Nat) (place : Int) : String :=
  let ds := Nat.toDigits 10 coefficient
  if 0 ≤ place then String.ofList (ds ++ List.replicate place.toNat '0')
  else
    let places := (-place).toNat
    let ds := List.replicate (places + 1 - ds.length) '0' ++ ds
    String.ofList (ds.take (ds.length - places) ++ '.' :: ds.drop (ds.length - places))

def render (x : Float) : String :=
  let bits := x.toBits.toNat
  let magnitude := bits % 2 ^ (63 : Nat)
  if infinity < magnitude then "NaN"
  else
    let sign := if bits = magnitude then "" else "-"
    if magnitude = infinity then sign ++ "inf"
    else if magnitude = 0 then sign ++ "0"
    else
      let (coefficient, place) := shortest magnitude
      sign ++ positional coefficient place

end RowTypes.Decimal
