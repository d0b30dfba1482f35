import RowTypes.Calendar.Read
import RowTypes.Settings.Value
import RowTypes.Toml.Text

/-! Numbers, truth values, dates and times of a TOML document. Dates and times become
texts. -/

namespace RowTypes.Toml

attribute [local instance (high)] instPowNat

def isTokenPart (c : Char) : Bool :=
  c.isAlphanum || c = '_' || c = '-' || c = '+' || c = '.' || c = ':'

def joined? (isDigit : Char → Bool) : List Char → Option (List Char)
  | [] => none
  | [d] => if isDigit d then some [d] else none
  | d :: '_' :: cs => if isDigit d then (joined? isDigit cs).map (d :: ·) else none
  | d :: cs => if isDigit d then (joined? isDigit cs).map (d :: ·) else none

def splitSign : List Char → Option Char × List Char
  | '+' :: cs => (some '+', cs)
  | '-' :: cs => (some '-', cs)
  | cs => (none, cs)

def wholePart? (cs : List Char) : Option (List Char) := do
  let ds ← joined? Char.isDigit cs
  if ds.head? = some '0' ∧ ds.length ≠ 1 then none else some ds

def baseValue? (base : Nat) (cs : List Char) : Option Nat := do
  let isDigit (c : Char) : Bool := ((Text.hexDigit? c).filter (· < base)).isSome
  let ds ← joined? isDigit cs
  return ds.foldl (fun n d => base * n + (Text.hexDigit? d).getD 0) 0

def integer? (cs : List Char) : Option Int := do
  let n : Int ← match cs with
    | '0' :: 'x' :: ds => (baseValue? 16 ds).map Int.ofNat
    | '0' :: 'o' :: ds => (baseValue? 8 ds).map Int.ofNat
    | '0' :: 'b' :: ds => (baseValue? 2 ds).map Int.ofNat
    | cs =>
      let (sign, ds) := splitSign cs
      (wholePart? ds).map fun ds =>
        let n : Int := Text.digitsValue ds
        if sign = some '-' then -n else n
  if -(2 ^ (63 : Nat)) ≤ n ∧ n < 2 ^ (63 : Nat) then some n else none

/-- A whole part and a fraction, of which only one has to be there if there is a power. -/
def mantissa? (hasPower : Bool) (cs : List Char) : Option (List Char) := do
  let whole ← wholePart? (cs.takeWhile (· ≠ '.'))
  match cs.dropWhile (· ≠ '.') with
  | [] => if hasPower then some whole else none
  | _ :: ds => return whole ++ '.' :: (← joined? Char.isDigit ds)

def powerPart? : List Char → Option (List Char)
  | [] => some []
  | mark :: cs => do
    let (sign, ds) := splitSign cs
    return mark :: sign.toList ++ (← joined? Char.isDigit ds)

def float? (cs : List Char) : Option Float := do
  let (sign, ds) := splitSign cs
  if ds = "inf".toList ∨ ds = "nan".toList then Decimal.double? cs
  else
    let power := ds.dropWhile (!Decimal.isMark ·)
    let mantissa ← mantissa? (power ≠ []) (ds.takeWhile (!Decimal.isMark ·))
    let x ← Decimal.double? (sign.toList ++ mantissa ++ (← powerPart? power))
    if x.toBits.toNat = Decimal.infinity then none else some x

/-! Dates and times -/

def readDigits (count : Nat) : Reader Nat := fun cs =>
  let ds := cs.take count
  (Text.natural? (if ds.length = count then ds else [])).map fun n => (n, cs.drop count)

def readDate : Reader String := fun cs => do
  let (year, cs) ← readDigits 4 cs
  let (month, cs) ← readDigits 2 (← Calendar.mark '-' cs)
  let (day, rest) ← readDigits 2 (← Calendar.mark '-' cs)
  let d : Calendar.Date := ⟨year, month, day⟩
  if d.isValid then
    return (Calendar.padded 4 year ++ "-" ++ Calendar.padded 2 month ++ "-" ++
      Calendar.padded 2 day, rest)
  else none

def fractionText (nanosecond : Nat) : String :=
  if nanosecond = 0 then ""
  else
    let ds := (Calendar.padded 9 nanosecond).toList
    String.ofList ('.' :: (ds.reverse.dropWhile (· = '0')).reverse)

def readTime : Reader String := fun cs => do
  let (hour, cs) ← readDigits 2 cs
  let (minute, cs) ← readDigits 2 (← Calendar.mark ':' cs)
  let (second, cs) ← readDigits 2 (← Calendar.mark ':' cs)
  let (nanosecond, rest) ← Calendar.fraction cs
  let t : Calendar.Time := ⟨hour, minute, second, nanosecond⟩
  if t.isValid then
    return (Calendar.padded 2 hour ++ ":" ++ Calendar.padded 2 minute ++ ":" ++
      Calendar.padded 2 second ++ fractionText nanosecond, rest)
  else none

def offset? : List Char → Option String
  | [] => some ""
  | ['Z'] | ['z'] => some "Z"
  | cs => do
    let (sign, cs) := splitSign cs
    let (hour, cs) ← readDigits 2 cs
    let (minute, cs) ← readDigits 2 (← Calendar.mark ':' cs)
    if sign.isNone ∨ 24 ≤ hour ∨ 60 ≤ minute ∨ cs ≠ [] then none
    else
      let isWest := sign = some '-' ∧ hour + minute ≠ 0
      return (if isWest then "-" else "+") ++ Calendar.padded 2 hour ++ ":" ++
        Calendar.padded 2 minute

def timeOfDay? (cs : List Char) : Option String := do
  let (time, cs) ← readTime cs
  return time ++ (← offset? cs)

def moment? (cs : List Char) : Option String :=
  match readTime cs with
  | some (time, []) => some time
  | some _ => none
  | none => do
    let (date, cs) ← readDate cs
    match cs with
    | [] => some date
    | 'T' :: cs | 't' :: cs => return date ++ "T" ++ (← timeOfDay? cs)
    | _ => none

def scalar? (token : List Char) : Option Value :=
  if token = "true".toList then some (.boolean true)
  else if token = "false".toList then some (.boolean false)
  else ((integer? token).map Value.integer).or
    (((float? token).map Value.number).or ((moment? token).map Value.text))

def startsTime : List Char → Bool
  | a :: b :: ':' :: _ => a.isDigit && b.isDigit
  | _ => false

/-- A scalar. Behind a date the time may also follow a space. -/
def readScalar : Reader Value := fun cs =>
  let token := cs.takeWhile isTokenPart
  match readDate token, cs.dropWhile isTokenPart with
  | some (date, []), ' ' :: rest =>
    if startsTime rest then
      (timeOfDay? (rest.takeWhile isTokenPart)).map fun time =>
        (.text (date ++ "T" ++ time), rest.dropWhile isTokenPart)
    else some (.text date, ' ' :: rest)
  | _, rest => (scalar? token).map fun v => (v, rest)

end RowTypes.Toml
