import Mathlib.Tactic.ByContra
import RowTypes.Sql.Analysis

/-! What an expression says of nulls, whatever the values are. The parts of an expression that
are not looked into may be anything, so an expression may have one of many values in a row. The
columns that a condition keeps from being null are those that are not null in any row for which
the condition may be true, and the constants are the expressions that cannot be null. -/

namespace RowTypes.Sql

inductive Truth where
  | no
  | unknown
  | yes
deriving DecidableEq, Repr

namespace Truth

def and : Truth → Truth → Truth
  | no, _ | _, no => no
  | yes, yes => yes
  | _, _ => unknown

def or : Truth → Truth → Truth
  | yes, _ | _, yes => yes
  | no, no => no
  | _, _ => unknown

def ofBool : Bool → Truth
  | true => yes
  | false => no

theorem and_eq_yes {a b : Truth} : a.and b = yes ↔ a = yes ∧ b = yes := by
  cases a <;> cases b <;> decide

theorem or_eq_yes {a b : Truth} : a.or b = yes ↔ a = yes ∨ b = yes := by
  cases a <;> cases b <;> decide

theorem ofBool_eq_yes {b : Bool} : ofBool b = yes ↔ b = true := by
  cases b <;> decide

end Truth

namespace Expr

section Conditions

variable {V : Type}

/-- The values that an operand may have in a row, where `none` is null. Those of a column are in
the row under its name, anything else may be any value. -/
def MayYield (row : String → Option V) : Expr → Option V → Prop
  | .nested e, v => e.MayYield row v
  | .column path, v => ∀ name ∈ path.getLast?, v = row name.folded
  | _, _ => True

/-- What a condition may be of a row. A comparison with null is unknown, and what is no condition
of the kinds that are looked into may be anything. -/
def MayBe (row : String → Option V) : Expr → Truth → Prop
  | .nested e, t => e.MayBe row t
  | .isNotNull e, t => ∃ v, e.MayYield row v ∧ t = .ofBool v.isSome
  | .and l r, t => ∃ a b, l.MayBe row a ∧ r.MayBe row b ∧ t = a.and b
  | .or l r, t => ∃ a b, l.MayBe row a ∧ r.MayBe row b ∧ t = a.or b
  | .compare _ l r, t =>
    ∃ v w, l.MayYield row v ∧ r.MayYield row w ∧ (v = none ∨ w = none → t = .unknown)
  | _, _ => True

variable {row : String → Option V} {e : Expr}

theorem eq_of_mayYield {name : String} {v : Option V} (hname : e.columnName? = some name)
    (hv : e.MayYield row v) : v = row name := by
  induction e with
  | nested e ih => exact ih hname hv
  | column path =>
    obtain ⟨last, hlast, rfl⟩ := Option.map_eq_some_iff.1 hname
    exact hv last hlast
  | _ => exact nomatch hname

theorem exists_mayYield (v : V) (h : ∀ name ∈ e.columnName?, row name ≠ none) :
    ∃ w, e.MayYield row (some w) := by
  induction e with
  | nested e ih => exact ih h
  | column path =>
    cases hlast : path.getLast? with
    | none => exact ⟨v, by simp [MayYield, hlast]⟩
    | some last =>
      have hrow := h last.folded (by simp [columnName?, hlast])
      obtain ⟨w, hw⟩ := Option.ne_none_iff_exists'.1 hrow
      exact ⟨w, by simp [MayYield, hlast, hw]⟩
  | _ => exact ⟨v, trivial⟩

theorem exists_mayYield_any (row : String → Option V) (e : Expr) : ∃ v, e.MayYield row v := by
  induction e with
  | nested e ih => exact ih
  | column path =>
    cases hlast : path.getLast? with
    | none => exact ⟨none, by simp [MayYield, hlast]⟩
    | some last => exact ⟨row last.folded, by simp [MayYield, hlast]⟩
  | _ => exact ⟨none, trivial⟩

theorem exists_mayBe (row : String → Option V) (e : Expr) : ∃ t, e.MayBe row t := by
  induction e with
  | nested e ih => exact ih
  | isNotNull e =>
    obtain ⟨v, hv⟩ := exists_mayYield_any row e
    exact ⟨_, v, hv, rfl⟩
  | and l r ihl ihr =>
    obtain ⟨a, ha⟩ := ihl
    obtain ⟨b, hb⟩ := ihr
    exact ⟨_, a, b, ha, hb, rfl⟩
  | or l r ihl ihr =>
    obtain ⟨a, ha⟩ := ihl
    obtain ⟨b, hb⟩ := ihr
    exact ⟨_, a, b, ha, hb, rfl⟩
  | compare op l r =>
    obtain ⟨v, hv⟩ := exists_mayYield_any row l
    obtain ⟨w, hw⟩ := exists_mayYield_any row r
    exact ⟨.unknown, v, w, hv, hw, fun _ => rfl⟩
  | _ => exact ⟨.unknown, trivial⟩

theorem ne_none_of_mayBe (h : e.MayBe row .yes) : ∀ name ∈ e.constrained, row name ≠ none := by
  induction e with
  | nested e ih => exact ih h
  | isNotNull e =>
    obtain ⟨v, hv, hsome⟩ := h
    intro name hname
    rw [← eq_of_mayYield (Option.mem_toList.1 hname) hv]
    exact Option.isSome_iff_ne_none.1 (Truth.ofBool_eq_yes.1 hsome.symm)
  | and l r ihl ihr =>
    obtain ⟨a, b, ha, hb, hand⟩ := h
    obtain ⟨rfl, rfl⟩ := Truth.and_eq_yes.1 hand.symm
    intro name hname
    exact (NameSet.mem_union.1 hname).elim (ihl ha name) (ihr hb name)
  | or l r ihl ihr =>
    obtain ⟨a, b, ha, hb, hor⟩ := h
    intro name hname
    obtain ⟨hl, hr⟩ := NameSet.mem_inter.1 hname
    rcases Truth.or_eq_yes.1 hor.symm with rfl | rfl
    · exact ihl ha name hl
    · exact ihr hb name hr
  | compare op l r =>
    obtain ⟨v, w, hv, hw, hnull⟩ := h
    have hboth : ¬(v = none ∨ w = none) := fun h => nomatch hnull h
    intro name hname
    rcases NameSet.mem_union.1 hname with hl | hr
    · rw [← eq_of_mayYield (Option.mem_toList.1 hl) hv]
      exact fun h => hboth (.inl h)
    · rw [← eq_of_mayYield (Option.mem_toList.1 hr) hw]
      exact fun h => hboth (.inr h)
  | _ => exact nofun

theorem mayBe_yes (v : V) {free : String} (hrow : ∀ name, name ≠ free → row name ≠ none)
    (hfree : free ∉ e.constrained) : e.MayBe row .yes := by
  have hoperand {side : Expr} (hside : free ∉ side.columnName?.toList) :
      ∃ w, side.MayYield row (some w) :=
    exists_mayYield v fun name hname => hrow name fun h => hside (Option.mem_toList.2 (h ▸ hname))
  induction e with
  | nested e ih => exact ih hfree
  | isNotNull e =>
    obtain ⟨w, hw⟩ := hoperand hfree
    exact ⟨some w, hw, rfl⟩
  | and l r ihl ihr =>
    have hl := ihl fun h => hfree (NameSet.mem_union.2 (.inl h))
    have hr := ihr fun h => hfree (NameSet.mem_union.2 (.inr h))
    exact ⟨.yes, .yes, hl, hr, rfl⟩
  | or l r ihl ihr =>
    -- the side that does not constrain the column may be true, whatever the other one is
    by_cases hl : free ∈ l.constrained
    · have hr := ihr fun h => hfree (NameSet.mem_inter.2 ⟨hl, h⟩)
      obtain ⟨a, ha⟩ := exists_mayBe row l
      exact ⟨a, .yes, ha, hr, (Truth.or_eq_yes.2 (.inr rfl)).symm⟩
    · obtain ⟨b, hb⟩ := exists_mayBe row r
      exact ⟨.yes, b, ihl hl, hb, (Truth.or_eq_yes.2 (.inl rfl)).symm⟩
  | compare op l r =>
    obtain ⟨w, hw⟩ := hoperand fun h => hfree (NameSet.mem_union.2 (.inl h))
    obtain ⟨w', hw'⟩ := hoperand fun h => hfree (NameSet.mem_union.2 (.inr h))
    exact ⟨some w, some w', hw, hw', by simp⟩
  | _ => trivial

/-- The columns that a condition constrains are those that are not null in any row for which it
may be true. -/
theorem mem_constrained_iff [Inhabited V] (e : Expr) (name : String) :
    name ∈ e.constrained ↔ ∀ row : String → Option V, e.MayBe row .yes → row name ≠ none := by
  constructor
  · exact fun hname row h => ne_none_of_mayBe h name hname
  · intro h
    by_contra hname
    let row : String → Option V := fun other => if other = name then none else some default
    have hothers : ∀ other, other ≠ name → row other ≠ none := fun other hne => by simp [row, hne]
    exact h row (mayBe_yes default hothers hname) (by simp [row])

end Conditions

section Constants

variable {V : Type} {e : Expr}

/-- The values that an expression may have, where `none` is null. Constants are not null, and
casts, other operators on one operand and comparisons make no null of values that are none.
Parameters, columns and all else may be anything. -/
def MayHave : Expr → Option V → Prop
  | .constant, v | .typedString, v => v ≠ none
  | .nested e, v => e.MayHave v
  | .cast e, v | .unary e, v => ∃ u, e.MayHave u ∧ (u ≠ none → v ≠ none)
  | .compare _ l r, v => ∃ u w, l.MayHave u ∧ r.MayHave w ∧ (u ≠ none → w ≠ none → v ≠ none)
  | _, _ => True

theorem exists_mayHave [Inhabited V] (e : Expr) : ∃ v : V, e.MayHave (some v) := by
  induction e with
  | constant | typedString => exact ⟨default, by simp [MayHave]⟩
  | nested e ih => exact ih
  | cast e ih | unary e ih =>
    obtain ⟨v, hv⟩ := ih
    exact ⟨default, some v, hv, fun _ => by simp⟩
  | compare op l r ihl ihr =>
    obtain ⟨v, hv⟩ := ihl
    obtain ⟨w, hw⟩ := ihr
    exact ⟨default, some v, some w, hv, hw, fun _ _ => by simp⟩
  | _ => exact ⟨default, trivial⟩

theorem ne_none_of_isConstant (h : e.isConstant = true) :
    ∀ v : Option V, e.MayHave v → v ≠ none := by
  induction e with
  | constant | typedString => exact fun v hv => hv
  | nested e ih => exact ih h
  | cast e ih | unary e ih =>
    rintro v ⟨u, hu, hnull⟩
    exact hnull (ih h u hu)
  | compare op l r ihl ihr =>
    rw [isConstant, Bool.and_eq_true] at h
    rintro v ⟨u, w, hu, hw, hnull⟩
    exact hnull (ihl h.1 u hu) (ihr h.2 w hw)
  | _ => exact nomatch h

theorem mayHave_none [Inhabited V] (h : e.isConstant = false) :
    e.MayHave (none : Option V) := by
  induction e with
  | constant | typedString => exact nomatch h
  | nested e ih => exact ih h
  | cast e ih | unary e ih => exact ⟨none, ih h, fun h => absurd rfl h⟩
  | compare op l r ihl ihr =>
    rw [isConstant, Bool.and_eq_false_iff] at h
    obtain ⟨v, hv⟩ := exists_mayHave (V := V) l
    obtain ⟨w, hw⟩ := exists_mayHave (V := V) r
    rcases h with h | h
    · exact ⟨none, some w, ihl h, hw, fun h => absurd rfl h⟩
    · exact ⟨some v, none, hv, ihr h, fun _ h => absurd rfl h⟩
  | _ => trivial

/-- The constants are the expressions that cannot be null. -/
theorem isConstant_iff [Inhabited V] (e : Expr) :
    e.isConstant = true ↔ ∀ v : Option V, e.MayHave v → v ≠ none := by
  constructor
  · exact fun h => ne_none_of_isConstant h
  · intro h
    by_contra hc
    exact h none (mayHave_none (Bool.not_eq_true _ ▸ hc)) rfl

end Constants

/-- The rules for expressions claim that a value is not null just where it cannot be null. -/
theorem not_null_rules_iff {V : Type} [Inhabited V] (e : Expr) :
    (∀ name, name ∈ e.constrained ↔
      ∀ row : String → Option V, e.MayBe row .yes → row name ≠ none) ∧
    (e.isConstant = true ↔ ∀ v : Option V, e.MayHave v → v ≠ none) :=
  ⟨fun name => mem_constrained_iff e name, isConstant_iff e⟩

end Expr
end RowTypes.Sql
