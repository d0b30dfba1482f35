/-! The double that is nearest to a quotient of natural numbers, found by exact
integer arithmetic. -/

namespace RowTypes.Decimal

attribute [local instance (high)] instPowNat

/-- The quotient rounded to a natural number. Of two that are equally near, the even
one is taken. -/
def roundDiv (num den : Nat) : Nat :=
  let q := num / den
  let r := num % den
  if 2 * r < den then q
  else if den < 2 * r then q + 1
  else if q % 2 = 0 then q else q + 1

theorem roundDiv_near (num : Nat) {den : Nat} (pos : 0 < den) :
    2 * num ≤ 2 * (roundDiv num den * den) + den ∧
      2 * (roundDiv num den * den) ≤ 2 * num + den := by
  have split := Nat.div_add_mod num den
  have small := Nat.mod_lt num pos
  have comm : den * (num / den) = num / den * den := Nat.mul_comm ..
  simp only [roundDiv]
  split
  · omega
  · split
    · rw [Nat.add_mul]
      omega
    · split
      · omega
      · rw [Nat.add_mul]
        omega

def logDiv (num den : Nat) : Int :=
  let guess : Int := (num.log2 : Int) - den.log2
  if den * 2 ^ guess.toNat ≤ num * 2 ^ (-guess).toNat then guess else guess - 1

def infinity : Nat := 0x7ff * 2 ^ (52 : Nat)

/-- The bits of the double that is nearest to `num / den`. Its last place has the
weight `2 ^ e`, and no double has a place below `2 ^ -1074`. -/
def doubleBits (num den : Nat) : Nat :=
  if num = 0 then 0
  else
    let e := max (logDiv num den - 52) (-1074)
    let q := roundDiv (num * 2 ^ (-e).toNat) (den * 2 ^ e.toNat)
    min ((e + 1074).toNat * 2 ^ (52 : Nat) + q) infinity

def double (negative : Bool) (num den : Nat) : Float :=
  let bits := doubleBits num den
  Float.ofBits (UInt64.ofNat (if negative then bits + 2 ^ (63 : Nat) else bits))

end RowTypes.Decimal
