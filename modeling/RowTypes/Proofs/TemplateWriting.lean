import RowTypes.Proofs.Literals

/-! Template literals that are written from texts and expressions. A text is written with a
backslash before each character that would mean something else, an expression between braces.
Reading the literal gives the texts back, with numbered placeholders between them. -/

namespace RowTypes

def Template.escapeText (cs : List Char) : List Char :=
  cs.flatMap fun c => if isCookedEscape c then ['\\', c] else [c]

structure Interpolation where
  code : ExpressionText
  text : List Char

namespace Interpolation

/-- The expression is read to its brace. That is so for all code without slashes, and for comments,
regular expressions and divisions in their places. -/
def Valid (i : Interpolation) : Prop := i.code.Valid .operator

def written (i : Interpolation) : List Char :=
  '$' :: '\x7b' :: (i.code.text ++ Template.escapeText i.text)

def cooked (n : Nat) : List Interpolation → List Char
  | [] => []
  | i :: is => Template.placeholder (n + 1) ++ (i.text ++ cooked (n + 1) is)

end Interpolation

def Template.written (text : List Char) (is : List Interpolation) : List Char :=
  escapeText text ++ (is.flatMap Interpolation.written ++ ['\x60'])

namespace TemplateText
open Template

def literally (cs : List Char) (t : TemplateText) : TemplateText :=
  cs.foldr (fun c t => if isCookedEscape c then .escape c t else .char c t) t

def ofParts (text : List Char) : List Interpolation → TemplateText
  | [] => literally text .close
  | i :: is => literally text (.interpolation i.code (ofParts i.text is))

section Literally

variable (cs : List Char) (t : TemplateText)

theorem text_literally : (literally cs t).text = escapeText cs ++ t.text := by
  induction cs with
  | nil => rfl
  | cons c cs ih =>
    rw [literally, List.foldr_cons, ← literally, Template.escapeText, List.flatMap_cons,
      ← Template.escapeText]
    split <;> simp [text, ih]

theorem valid_literally {t : TemplateText} (h : t.Valid) : (literally cs t).Valid := by
  induction cs with
  | nil => exact h
  | cons c cs ih =>
    rw [literally, List.foldr_cons, ← literally]
    split
    · exact ih
    · rename_i hc
      simp only [isCookedEscape, Bool.or_eq_true, decide_eq_true_eq, not_or] at hc
      exact ⟨hc.1.1, hc.2, fun hd => hc.1.2 hd.1, ih⟩

theorem cooked_literally (n : Nat) : (literally cs t).cooked n = cs ++ t.cooked n := by
  induction cs with
  | nil => rfl
  | cons c cs ih =>
    rw [literally, List.foldr_cons, ← literally]
    split
    · rename_i hc
      simp [cooked, hc, ih]
    · simp [cooked, ih]

theorem interpolations_literally : (literally cs t).interpolations = t.interpolations := by
  induction cs with
  | nil => rfl
  | cons c cs ih =>
    rw [literally, List.foldr_cons, ← literally]
    split <;> exact ih

end Literally

theorem text_ofParts (text : List Char) (is : List Interpolation) :
    (ofParts text is).text = written text is := by
  induction is generalizing text with
  | nil => simp [ofParts, text_literally, TemplateText.text, written]
  | cons i is ih =>
    simp [ofParts, text_literally, TemplateText.text, ih, written, Interpolation.written]

theorem valid_ofParts (text : List Char) {is : List Interpolation} (h : ∀ i ∈ is, i.Valid) :
    (ofParts text is).Valid := by
  induction is generalizing text with
  | nil => exact valid_literally text trivial
  | cons i is ih =>
    obtain ⟨hi, his⟩ := List.forall_mem_cons.1 h
    exact valid_literally text ⟨hi, ih i.text his⟩

theorem cooked_ofParts (text : List Char) (is : List Interpolation) (n : Nat) :
    (ofParts text is).cooked n = text ++ Interpolation.cooked n is := by
  induction is generalizing text n with
  | nil => rw [ofParts, cooked_literally, cooked, Interpolation.cooked]
  | cons i is ih => rw [ofParts, cooked_literally, cooked, ih, Interpolation.cooked]

theorem interpolations_ofParts (text : List Char) (is : List Interpolation) :
    (ofParts text is).interpolations = is.length := by
  induction is generalizing text with
  | nil => rw [ofParts, interpolations_literally]; rfl
  | cons i is ih => rw [ofParts, interpolations_literally, interpolations, ih, List.length_cons]

end TemplateText

/-- Reading a template literal gives the texts that it was written from, with a numbered
placeholder for each expression between them, and ends behind its backtick. -/
theorem cook_written (text : List Char) {is : List Interpolation} (h : ∀ i ∈ is, i.Valid)
    (line : Nat) (p : Place) (following : List Char) :
    Template.cook line 0 p (Template.written text is ++ following) =
      .ok ⟨text ++ Interpolation.cooked 0 is, is.length, p.after (Template.written text is),
        following⟩ := by
  have hcooks := (TemplateText.ofParts text is).cooks (TemplateText.valid_ofParts text h) 0
  rw [TemplateText.text_ofParts, TemplateText.cooked_ofParts, TemplateText.interpolations_ofParts,
    Nat.zero_add] at hcooks
  exact hcooks line p following

def nestedInterpolation : Interpolation where
  code := .braces (.char 'x' (.quoted
      ⟨'\'', [.plain '\x7d', .escaped '\''], QuotedText.isQuote_apostrophe, by decide⟩ .close))
    (.template (.interpolation (.quoted ⟨'"', [.plain '\x60'], by decide, by decide⟩ .close)
      (.char 'é' .close)) .close)
  text := " b\\".toList

def nestedText : List Char :=
  "a\\\x60\\$$\x7b\x7bx'\x7d\\''\x7d\x60$\x7b\"\x60\"\x7dé\x60\x7d b\\\\\x60".toList

theorem cook_written_nested :
    (∀ i ∈ [nestedInterpolation], i.Valid) ∧
      Template.cook 1 0 .start (nestedText ++ [';']) =
        .ok ⟨"a\x60$$1 b\\".toList, 1, ⟨31, 1⟩, [';']⟩ := by
  have hvalid : ∀ i ∈ [nestedInterpolation], i.Valid := by
    intro i hi
    rw [List.mem_singleton.1 hi]
    simp only [Interpolation.Valid, nestedInterpolation, ExpressionText.Valid, TemplateText.Valid,
      and_true, true_and]
    decide
  have htext : Template.written "a\x60$".toList [nestedInterpolation] = nestedText := by decide
  have hstop : Place.start.after nestedText = ⟨31, 1⟩ := by decide
  have h := cook_written "a\x60$".toList hvalid 1 .start [';']
  rw [htext, hstop] at h
  exact ⟨hvalid, h⟩

end RowTypes
