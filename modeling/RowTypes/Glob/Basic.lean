/-! Patterns over the bytes of a path, each one a set of byte lists. `Matches` says
which bytes a pattern has, `accepts` decides it by handing what is left of the bytes
on to what follows. -/

namespace RowTypes

inductive Glob where
  | empty
  /-- One byte that lies in one of the ranges, or in none of them. -/
  | byte (negated : Bool) (ranges : List (UInt8 × UInt8))
  | anything
  | seq (a b : Glob)
  | either (a b : Glob)
deriving DecidableEq, Repr

namespace Glob

def inRanges (negated : Bool) (ranges : List (UInt8 × UInt8)) (b : UInt8) : Bool :=
  ranges.any (fun (low, high) => low ≤ b && b ≤ high) != negated

def Matches : Glob → List UInt8 → Prop
  | empty, s => s = []
  | byte negated ranges, s => ∃ b, s = [b] ∧ inRanges negated ranges b = true
  | anything, _ => True
  | seq a b, s => ∃ s₁ s₂, s = s₁ ++ s₂ ∧ a.Matches s₁ ∧ b.Matches s₂
  | either a b, s => a.Matches s ∨ b.Matches s

def someEnd (k : List UInt8 → Bool) : List UInt8 → Bool
  | [] => k []
  | b :: s => k (b :: s) || someEnd k s

/-- Whether the bytes begin with a match behind which `k` accepts the rest. -/
def acceptsThen : Glob → (List UInt8 → Bool) → List UInt8 → Bool
  | empty, k, s => k s
  | byte _ _, _, [] => false
  | byte negated ranges, k, b :: s => inRanges negated ranges b && k s
  | anything, k, s => someEnd k s
  | seq a b, k, s => a.acceptsThen (b.acceptsThen k) s
  | either a b, k, s => a.acceptsThen k s || b.acceptsThen k s

def accepts (g : Glob) (s : List UInt8) : Bool := g.acceptsThen (fun rest => rest = []) s

theorem someEnd_iff (k : List UInt8 → Bool) (s : List UInt8) :
    someEnd k s = true ↔ ∃ s₁ s₂, s = s₁ ++ s₂ ∧ k s₂ = true := by
  induction s with
  | nil =>
    constructor
    · exact fun h => ⟨[], [], rfl, h⟩
    · rintro ⟨s₁, s₂, h, hk⟩
      obtain ⟨rfl, rfl⟩ := List.append_eq_nil_iff.mp h.symm
      exact hk
  | cons b s ih =>
    simp only [someEnd, Bool.or_eq_true, ih]
    constructor
    · rintro (h | ⟨s₁, s₂, rfl, h⟩)
      · exact ⟨[], b :: s, rfl, h⟩
      · exact ⟨b :: s₁, s₂, rfl, h⟩
    · rintro ⟨s₁, s₂, h, hk⟩
      cases s₁ with
      | nil => exact Or.inl (by rw [show b :: s = s₂ from h]; exact hk)
      | cons c s₁ =>
        obtain ⟨rfl, rfl⟩ := List.cons_eq_cons.mp h
        exact Or.inr ⟨s₁, s₂, rfl, hk⟩

theorem acceptsThen_iff (g : Glob) (k : List UInt8 → Bool) (s : List UInt8) :
    g.acceptsThen k s = true ↔ ∃ s₁ s₂, s = s₁ ++ s₂ ∧ g.Matches s₁ ∧ k s₂ = true := by
  induction g generalizing k s with
  | empty =>
    constructor
    · exact fun h => ⟨[], s, rfl, rfl, h⟩
    · rintro ⟨s₁, s₂, rfl, rfl, h⟩
      exact h
  | byte negated ranges =>
    cases s with
    | nil =>
      constructor
      · intro h
        cases h
      · rintro ⟨s₁, s₂, h, ⟨b, rfl, _⟩, _⟩
        simp at h
    | cons b s =>
      simp only [acceptsThen, Bool.and_eq_true]
      constructor
      · exact fun ⟨hb, h⟩ => ⟨[b], s, rfl, ⟨b, rfl, hb⟩, h⟩
      · rintro ⟨s₁, s₂, h, ⟨c, rfl, hc⟩, hk⟩
        obtain ⟨rfl, rfl⟩ := List.cons_eq_cons.mp h
        exact ⟨hc, hk⟩
  | anything =>
    simp only [acceptsThen, someEnd_iff, Matches, true_and]
  | seq a b iha ihb =>
    simp only [acceptsThen, iha, ihb, Matches]
    constructor
    · rintro ⟨s₁, _, rfl, ha, s₂, s₃, rfl, hb, hk⟩
      exact ⟨s₁ ++ s₂, s₃, by simp, ⟨s₁, s₂, rfl, ha, hb⟩, hk⟩
    · rintro ⟨_, s₃, rfl, ⟨s₁, s₂, rfl, ha, hb⟩, hk⟩
      exact ⟨s₁, s₂ ++ s₃, by simp, ha, s₂, s₃, rfl, hb, hk⟩
  | either a b iha ihb =>
    simp only [acceptsThen, Bool.or_eq_true, iha, ihb, Matches]
    constructor
    · rintro (⟨s₁, s₂, h, ha, hk⟩ | ⟨s₁, s₂, h, hb, hk⟩)
      · exact ⟨s₁, s₂, h, Or.inl ha, hk⟩
      · exact ⟨s₁, s₂, h, Or.inr hb, hk⟩
    · rintro ⟨s₁, s₂, h, ha | hb, hk⟩
      · exact Or.inl ⟨s₁, s₂, h, ha, hk⟩
      · exact Or.inr ⟨s₁, s₂, h, hb, hk⟩

theorem accepts_iff (g : Glob) (s : List UInt8) : g.accepts s = true ↔ g.Matches s := by
  rw [accepts, acceptsThen_iff]
  constructor
  · rintro ⟨s₁, s₂, rfl, h, hs⟩
    rw [of_decide_eq_true hs, List.append_nil]
    exact h
  · exact fun h => ⟨s, [], by simp, h, rfl⟩

end Glob
end RowTypes
