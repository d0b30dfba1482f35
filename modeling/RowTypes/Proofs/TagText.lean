import Mathlib.Tactic.SplitIfs
import RowTypes.Proofs.Closing

/-! A tag in its parts: the word `sql`, blanks, type arguments or none, and a template
literal. The text of a tag is read back as this tag wherever it stands. -/

namespace RowTypes

theorem takeWhile_append_stop {p : Char → Bool} {w f : List Char} (hw : ∀ c ∈ w, p c = true)
    (hf : f.head?.all (!p ·) = true) : (w ++ f).takeWhile p = w := by
  rw [List.takeWhile_append_of_pos hw]
  cases f with
  | nil => simp
  | cons c f =>
    have hc : p c = false := by simpa using hf
    simp [hc]

theorem dropWhile_append_stop {p : Char → Bool} {w f : List Char} (hw : ∀ c ∈ w, p c = true)
    (hf : f.head?.all (!p ·) = true) : (w ++ f).dropWhile p = f := by
  rw [List.dropWhile_append_of_pos hw]
  cases f with
  | nil => rfl
  | cons c f =>
    have hc : p c = false := by simpa using hf
    simp [hc]

theorem of_mem_takeWhile {p : Char → Bool} {cs : List Char} :
    ∀ c ∈ cs.takeWhile p, p c = true := by
  intro c hc
  exact List.all_eq_true.1 List.all_takeWhile c hc

theorem head?_dropWhile_all {p : Char → Bool} (cs : List Char) :
    (cs.dropWhile p).head?.all (!p ·) = true := by
  induction cs with
  | nil => rfl
  | cons c cs ih =>
    by_cases hc : p c
    · simpa [hc] using ih
    · simp [hc]

namespace Tag

/-- Type arguments with their brackets, and the blanks behind them. -/
structure Arguments where
  text : List Char
  gap : List Char

structure Arguments.Valid (a : Arguments) : Prop where
  closed : typeArguments? a.text = some (a.text, [])
  blank : ∀ c ∈ a.gap, Code.isBlank c = true

structure HeadingText where
  gap : List Char
  args : Option Arguments

namespace HeadingText

def text : HeadingText → List Char
  | ⟨gap, none⟩ => gap
  | ⟨gap, some a⟩ => gap ++ (a.text ++ a.gap)

structure Valid (h : HeadingText) : Prop where
  blank : ∀ c ∈ h.gap, Code.isBlank c = true
  args : ∀ a ∈ h.args, a.Valid

def span (p : Place) (h : HeadingText) : Option Span :=
  h.args.map fun a => ⟨(p.after h.gap).offset, ((p.after h.gap).after a.text).offset⟩

end HeadingText

theorem skipBlanks_append (p : Place) {w f : List Char} (hw : ∀ c ∈ w, Code.isBlank c = true)
    (hf : f.head?.all (!Code.isBlank ·) = true) : skipBlanks p (w ++ f) = ⟨p.after w, f⟩ := by
  rw [skipBlanks, takeWhile_append_stop hw hf, dropWhile_append_stop hw hf]

theorem typeArguments?_head {cs args rest : List Char} (h : typeArguments? cs = some (args, rest)) :
    ∃ args', args = '<' :: args' := by
  unfold typeArguments? at h
  split at h
  · obtain ⟨args', -, rfl⟩ := map_fst_eq_some.1 h
    exact ⟨args', rfl⟩
  · cases h

theorem heading?_text {h : HeadingText} (hv : h.Valid) (p : Place) (f : List Char) :
    heading? p (h.text ++ '\x60' :: f) = some ⟨h.span p, ⟨p.after h.text, '\x60' :: f⟩⟩ := by
  obtain ⟨gap, args⟩ := h
  cases args with
  | none =>
    have hgap : skipBlanks p (gap ++ '\x60' :: f) = ⟨p.after gap, '\x60' :: f⟩ :=
      skipBlanks_append p hv.blank rfl
    simp [heading?, HeadingText.text, HeadingText.span, hgap]
  | some a =>
    have ha := hv.args a rfl
    obtain ⟨args', ha'⟩ := typeArguments?_head ha.closed
    have hclosed := typeArguments?_closed ha.closed (a.gap ++ '\x60' :: f)
    have hgap : skipBlanks p (gap ++ (a.text ++ (a.gap ++ '\x60' :: f))) =
        ⟨p.after gap, a.text ++ (a.gap ++ '\x60' :: f)⟩ :=
      skipBlanks_append p hv.blank (by rw [ha']; rfl)
    have hgap' : skipBlanks ((p.after gap).after a.text) (a.gap ++ '\x60' :: f) =
        ⟨((p.after gap).after a.text).after a.gap, '\x60' :: f⟩ :=
      skipBlanks_append _ ha.blank rfl
    have hhead : (a.text ++ (a.gap ++ '\x60' :: f)).head? = some '<' := by rw [ha']; rfl
    simp only [heading?, HeadingText.text, HeadingText.span, List.append_assoc, hgap, hhead,
      hclosed, hgap', List.head?_cons, if_true, Place.after_append, Option.map_some]

theorem heading?_eq_some {p : Place} {cs : List Char} {k : Heading} (h : heading? p cs = some k) :
    ∃ (t : HeadingText) (f : List Char), t.Valid ∧ cs = t.text ++ '\x60' :: f ∧
      k = ⟨t.span p, ⟨p.after t.text, '\x60' :: f⟩⟩ := by
  have hcs : cs.takeWhile Code.isBlank ++ (skipBlanks p cs).rest = cs :=
    List.takeWhile_append_dropWhile
  simp only [heading?] at h
  split_ifs at h with ha hb
  · split at h
    · cases h
    · rename_i args rest hargs
      have hrest : rest.takeWhile Code.isBlank ++ (skipBlanks ((skipBlanks p cs).place.after args)
          rest).rest = rest := List.takeWhile_append_dropWhile
      split_ifs at h with hb
      cases h
      obtain ⟨f, hf⟩ := List.head?_eq_some_iff.1 hb
      have hclosed := typeArguments?_closed hargs []
      rw [List.append_nil] at hclosed
      refine ⟨⟨cs.takeWhile Code.isBlank, some ⟨args, rest.takeWhile Code.isBlank⟩⟩, f,
        ⟨of_mem_takeWhile, ?_⟩, ?_, ?_⟩
      · rintro a ⟨rfl⟩
        exact ⟨hclosed, of_mem_takeWhile⟩
      · rw [HeadingText.text, List.append_assoc, List.append_assoc, ← hf, hrest,
          typeArguments?_append hargs, hcs]
      · rw [HeadingText.text, Place.after_append, Place.after_append, ← hf]
        rfl
  · cases h
    obtain ⟨f, hf⟩ := List.head?_eq_some_iff.1 hb
    refine ⟨⟨cs.takeWhile Code.isBlank, none⟩, f, ⟨of_mem_takeWhile, by simp⟩, ?_, ?_⟩
    · rw [HeadingText.text, ← hf, hcs]
    · rw [HeadingText.text, ← hf]
      rfl

structure TagText extends HeadingText where
  /-- The template literal behind its opening backtick. -/
  body : List Char
  sql : List Char
  params : Nat

namespace TagText

structure Valid (t : TagText) : Prop where
  heading : t.toHeadingText.Valid
  cooked : Template.Cooks 0 t.body t.sql t.params

def heading (t : TagText) : List Char := t.toHeadingText.text

def text (t : TagText) : List Char := word ++ (t.heading ++ '\x60' :: t.body)

def tag (p : Place) (t : TagText) : Tag where
  tagEnd := (p.after word).offset
  typeArguments := t.toHeadingText.span (p.after word)
  template := ⟨((p.after word).after t.heading).offset, (p.after t.text).offset⟩
  line := p.line
  sql := String.ofList t.sql
  paramCount := t.params

end TagText

end Tag
end RowTypes
