/-! Numbers as runs of decimal digits, with a sign where one is allowed. -/

namespace RowTypes.Text

attribute [local instance (high)] instPowNat

def digitValue (c : Char) : Nat := c.toNat - '0'.toNat

def digitsValue (ds : List Char) : Nat := ds.foldl (fun n c => 10 * n + digitValue c) 0

def natural? (cs : List Char) : Option Nat :=
  if cs ≠ [] ∧ cs.all Char.isDigit then some (digitsValue cs) else none

def unsigned? (bits : Nat) (cs : List Char) : Option Nat := do
  let n ← match cs with
    | '+' :: ds => natural? ds
    | ds => natural? ds
  if n < 2 ^ bits then some n else none

def signed? (bits : Nat) (cs : List Char) : Option Int := do
  let n : Int ← match cs with
    | '-' :: ds => (natural? ds).map fun n => -(n : Int)
    | '+' :: ds => (natural? ds).map Int.ofNat
    | ds => (natural? ds).map Int.ofNat
  if -(2 ^ (bits - 1)) ≤ n ∧ n < 2 ^ (bits - 1) then some n else none

def hexDigit? (c : Char) : Option Nat :=
  let n := c.toNat
  if '0' ≤ c ∧ c ≤ '9' then some (n - '0'.toNat)
  else if 'a' ≤ c ∧ c ≤ 'f' then some (n - 'a'.toNat + 10)
  else if 'A' ≤ c ∧ c ≤ 'F' then some (n - 'A'.toNat + 10)
  else none

def hexValue? (ds : List Char) : Option Nat :=
  ds.foldlM (fun n d => (hexDigit? d).map fun v => 16 * n + v) 0

end RowTypes.Text
