/-! Structured values as they are written in JSON. A number keeps its exact value. -/

namespace RowTypes

attribute [local instance (high)] instPowNat

structure Number where
  negative : Bool
  coefficient : Nat
  exponent : Int
  /-- Written with neither a point nor an exponent. -/
  isInteger : Bool
deriving DecidableEq, Repr

namespace Number

/-- What lies beyond is nearer to infinity than to a double. -/
def finiteBound : Nat := 2 ^ (1024 : Nat) - 2 ^ (970 : Nat)

def isFinite (n : Number) : Bool :=
  if n.coefficient = 0 ∨ n.exponent + Nat.log2 n.coefficient < 0 then true
  else if 400 < n.exponent then false
  else n.coefficient * 10 ^ n.exponent.toNat < finiteBound * 10 ^ (-n.exponent).toNat

end Number

inductive Json where
  | null
  | boolean (b : Bool)
  | number (n : Number)
  | string (s : String)
  | array (items : List Json)
  | object (members : List (String × Json))
deriving Repr, Inhabited

end RowTypes
