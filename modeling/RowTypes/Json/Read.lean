import RowTypes.Json.Basic
import RowTypes.Keyed
import RowTypes.Text.Numeral

/-! Reading JSON as strictly as its grammar says: no comments, no comma behind the
last item, no half of a surrogate pair on its own, no number that no double is near
to, and no more than 127 levels. -/

namespace RowTypes.Json

abbrev Reader (α : Type) := List Char → Option (α × List Char)

def isSpace (c : Char) : Bool := c = ' ' || c = '\n' || c = '\t' || c = '\r'

def skipSpace (cs : List Char) : List Char := cs.dropWhile isSpace

def unit? : List Char → Option Nat
  | a :: b :: c :: d :: _ => do
    return ((← Text.hexDigit? a) * 16 + (← Text.hexDigit? b)) * 256 + (← Text.hexDigit? c) * 16 + (← Text.hexDigit? d)
  | _ => none

def isHighSurrogate (n : Nat) : Bool := 0xd800 ≤ n && n < 0xdc00

def isLowSurrogate (n : Nat) : Bool := 0xdc00 ≤ n && n < 0xe000

def escaped? : Char → Option Char
  | '"' => some '"'
  | '\\' => some '\\'
  | '/' => some '/'
  | 'b' => some '\x08'
  | 'f' => some '\x0c'
  | 'n' => some '\n'
  | 'r' => some '\r'
  | 't' => some '\t'
  | _ => none

def readString (read : List Char) : Reader String
  | [] => none
  | '"' :: cs => some (String.ofList read.reverse, cs)
  | '\\' :: 'u' :: a :: b :: c :: d :: cs => do
    let high ← unit? [a, b, c, d]
    if isHighSurrogate high then
      match cs with
      | '\\' :: 'u' :: a :: b :: c :: d :: cs => do
        let low ← unit? [a, b, c, d]
        if isLowSurrogate low then
          readString (Char.ofNat (0x10000 + (high - 0xd800) * 0x400 + (low - 0xdc00)) :: read) cs
        else none
      | _ => none
    else if isLowSurrogate high then none
    else readString (Char.ofNat high :: read) cs
  | '\\' :: c :: cs =>
    match escaped? c with
    | some e => readString (e :: read) cs
    | none => none
  | c :: cs => if c.toNat < 0x20 ∨ c = '\\' then none else readString (c :: read) cs

def span (cs : List Char) : List Char × List Char :=
  (cs.takeWhile Char.isDigit, cs.dropWhile Char.isDigit)

def readFraction : Reader (List Char)
  | '.' :: cs =>
    match span cs with
    | ([], _) => none
    | (ds, rest) => some (ds, rest)
  | cs => some ([], cs)

def readExponent (cs : List Char) : Option (Option Int × List Char) :=
  let signed (negative : Bool) (cs : List Char) : Option (Option Int × List Char) :=
    match span cs with
    | ([], _) => none
    | (ds, rest) =>
      let n : Int := Text.digitsValue ds
      some (some (if negative then -n else n), rest)
  match cs with
  | 'e' :: '-' :: cs | 'E' :: '-' :: cs => signed true cs
  | 'e' :: '+' :: cs | 'E' :: '+' :: cs => signed false cs
  | 'e' :: cs | 'E' :: cs => signed false cs
  | cs => some (none, cs)

def readMagnitude (negative : Bool) (cs : List Char) : Option (Number × List Char) := do
  let (whole, rest) := span cs
  if whole = [] ∨ (whole.head? = some '0' ∧ whole.length ≠ 1) then none
  else
    let (places, rest) ← readFraction rest
    let (exponent, rest) ← readExponent rest
    let n : Number := {
      negative
      coefficient := Text.digitsValue (whole ++ places)
      exponent := exponent.getD 0 - places.length
      isInteger := places = [] ∧ exponent.isNone }
    if n.isFinite then some (n, rest) else none

def readNumber : Reader Number
  | '-' :: cs => readMagnitude true cs
  | cs => readMagnitude false cs

def readItems (value : Reader Json) : Nat → List Json → Reader (List Json)
  | 0, _, _ => none
  | fuel + 1, read, cs => do
    let (item, rest) ← value (skipSpace cs)
    match skipSpace rest with
    | ',' :: rest => readItems value fuel (item :: read) rest
    | ']' :: rest => some ((item :: read).reverse, rest)
    | _ => none

def readMembers (value : Reader Json) : Nat → List (String × Json) →
    Reader (List (String × Json))
  | 0, _, _ => none
  | fuel + 1, read, cs =>
    match skipSpace cs with
    | '"' :: cs => do
      let (name, rest) ← readString [] cs
      match skipSpace rest with
      | ':' :: rest =>
        let (item, rest) ← value (skipSpace rest)
        let read := Keyed.put name item read
        match skipSpace rest with
        | ',' :: rest => readMembers value fuel read rest
        | '\x7d' :: rest => some (read, rest)
        | _ => none
      | _ => none
    | _ => none

def readScalar : Reader Json
  | 'n' :: 'u' :: 'l' :: 'l' :: cs => some (null, cs)
  | 't' :: 'r' :: 'u' :: 'e' :: cs => some (boolean true, cs)
  | 'f' :: 'a' :: 'l' :: 's' :: 'e' :: cs => some (boolean false, cs)
  | '"' :: cs => (readString [] cs).map fun (s, rest) => (string s, rest)
  | cs => (readNumber cs).map fun (n, rest) => (number n, rest)

/-- A value that starts at the first character and has fewer than `levels` levels. -/
def readValue (levels : Nat) : Reader Json := fun cs =>
  match levels, cs with
  | level + 2, '[' :: cs =>
    match skipSpace cs with
    | ']' :: rest => some (array [], rest)
    | cs =>
      (readItems (readValue (level + 1)) (cs.length + 1) [] cs).map fun (items, rest) =>
        (array items, rest)
  | level + 2, '\x7b' :: cs =>
    match skipSpace cs with
    | '\x7d' :: rest => some (object [], rest)
    | cs =>
      (readMembers (readValue (level + 1)) (cs.length + 1) [] cs).map fun (members, rest) =>
        (object members, rest)
  | _, cs => readScalar cs

def maxLevels : Nat := 128

def ofText? (s : String) : Option Json := do
  let (value, rest) ← readValue maxLevels (skipSpace s.toList)
  if skipSpace rest = [] then some value else none

def get? (name : String) : Json → Option Json
  | object members => members.lookup name
  | _ => none

end RowTypes.Json
