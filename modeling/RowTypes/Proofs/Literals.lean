import RowTypes.Proofs.QuietText

/-! The literals of a source text as trees: strings, regular expressions and template literals
with the expressions in them. Each is read back from its text, to its end and no further, wherever
it stands. -/

namespace RowTypes
open Code

inductive Letter where
  | plain (c : Char)
  | escaped (c : Char)
deriving DecidableEq, Repr

namespace Letter

def text : Letter → List Char
  | plain c => [c]
  | escaped c => ['\\', c]

def isAmong (p : Char → Bool) : Letter → Bool
  | plain c => p c && c != '\\' && c != '\n'
  | escaped _ => true

end Letter

def spell (ls : List Letter) : List Char := ls.flatMap Letter.text

@[simp] theorem spell_nil : spell [] = [] := rfl

@[simp] theorem spell_cons (l : Letter) (ls : List Letter) : spell (l :: ls) = l.text ++ spell ls :=
  rfl

theorem skim_spell {e : Enclosure} {outer : List Enclosure} {q : Char → Bool}
    (hplain : ∀ c line d, q c = true → c ≠ '\\' → c ≠ '\n' →
      step e outer line c d = .one (e :: outer))
    (hescape : ∀ line d, step e outer line '\\' d = .two (e :: outer)) {ls : List Letter}
    (hls : ls.all (Letter.isAmong q) = true) (p : Place) (f : List Char) :
    skim (e :: outer) p (spell ls ++ f) = skim (e :: outer) (p.after (spell ls)) f := by
  induction ls generalizing p with
  | nil => rfl
  | cons l ls ih =>
    rw [List.all_cons, Bool.and_eq_true] at hls
    cases l with
    | plain c =>
      have hc : (q c = true ∧ c ≠ '\\') ∧ c ≠ '\n' := by simpa [Letter.isAmong] using hls.1
      simp only [spell_cons, Letter.text, List.cons_append, List.nil_append, skim,
        hplain c _ _ hc.1.1 hc.1.2 hc.2]
      exact ih hls.2 _
    | escaped c =>
      simp only [spell_cons, Letter.text, List.cons_append, List.nil_append, skim, hescape]
      exact ih hls.2 _

/-! Strings -/

structure QuotedText where
  quote : Char
  letters : List Letter
  isQuote : quote = '\'' ∨ quote = '"' := by decide
  within : letters.all (Letter.isAmong (· != quote)) = true := by decide

namespace QuotedText

theorem isQuote_apostrophe : '\'' = '\'' ∨ '\'' = '"' := .inl rfl

def body (s : QuotedText) : List Char := spell s.letters ++ [s.quote]

def text (s : QuotedText) : List Char := s.quote :: s.body

theorem skim_body (s : QuotedText) (l : Nat) (outer : List Enclosure) (p : Place)
    (f : List Char) :
    skim (.quoted l s.quote :: outer) p (s.body ++ f) = skim outer (p.after s.body) f := by
  have hquote : s.quote ≠ '\\' ∧ s.quote ≠ '\n' := by
    rcases s.isQuote with h | h <;> rw [h] <;> decide
  rw [body, List.append_assoc, skim_spell _ _ s.within]
  · simp [skim, step, hquote]
  · intro c line d hc hb hn
    simp only [bne_iff_ne] at hc
    simp [step, hc, hb, hn]
  · intro line d
    rfl

end QuotedText

/-! Regular expressions -/

inductive PatternPart where
  | letter (l : Letter)
  | oneOf (ls : List Letter)
deriving DecidableEq, Repr

namespace PatternPart

def text : PatternPart → List Char
  | letter l => l.text
  | oneOf ls => '[' :: (spell ls ++ [']'])

def isValid : PatternPart → Bool
  | letter l => l.isAmong fun c => c != '/' && c != '['
  | oneOf ls => ls.all (Letter.isAmong (· != ']'))

theorem skim_text {q : PatternPart} (hq : q.isValid = true) (l : Nat) (outer : List Enclosure)
    (p : Place) (f : List Char) :
    skim (.regex l false :: outer) p (q.text ++ f) =
      skim (.regex l false :: outer) (p.after q.text) f := by
  cases q with
  | letter m =>
    have hm : [m].all (Letter.isAmong fun c => c != '/' && c != '[') = true := by
      simpa [isValid] using hq
    have h : skim (.regex l false :: outer) p (spell [m] ++ f) = _ := skim_spell ?_ ?_ hm p f
    · simpa [text] using h
    · intro c line d hc hb hn
      simp only [Bool.and_eq_true, bne_iff_ne] at hc
      by_cases hclose : c = ']' <;> simp [step, hc.1, hc.2, hb, hn, hclose]
    · intro line d
      rfl
  | oneOf ls =>
    have hopen : skim (.regex l false :: outer) p ('[' :: (spell ls ++ ([']'] ++ f))) =
        skim (.regex l true :: outer) (p.next '[') (spell ls ++ ([']'] ++ f)) := rfl
    rw [text, List.cons_append, List.append_assoc, hopen, skim_spell _ _ hq]
    · simp [skim, step]
    · intro c line d hc hb hn
      simp only [bne_iff_ne] at hc
      by_cases hinner : c = '[' <;> simp [step, hc, hb, hn, hinner]
    · intro line d
      rfl

end PatternPart

structure RegexText where
  parts : List PatternPart
  flags : List Char
  valid : parts.all PatternPart.isValid = true := by decide
  areFlags : flags.all continuesWord = true := by decide
  /-- The text does not begin with a comment. -/
  noComment : ((parts.flatMap PatternPart.text ++ ['/']).head?.all fun c =>
    c != '/' && c != '*') = true := by decide

namespace RegexText

def body (r : RegexText) : List Char := r.parts.flatMap PatternPart.text ++ ['/']

def text (r : RegexText) : List Char := '/' :: (r.body ++ r.flags)

theorem body_ne_nil (r : RegexText) : r.body ≠ [] := by
  simp [body]

theorem skim_parts {ps : List PatternPart} (hps : ps.all PatternPart.isValid = true) (l : Nat)
    (outer : List Enclosure) (p : Place) (f : List Char) :
    skim (.regex l false :: outer) p (ps.flatMap PatternPart.text ++ f) =
      skim (.regex l false :: outer) (p.after (ps.flatMap PatternPart.text)) f := by
  induction ps generalizing p with
  | nil => rfl
  | cons q ps ih =>
    rw [List.all_cons, Bool.and_eq_true] at hps
    rw [List.flatMap_cons, List.append_assoc, PatternPart.skim_text hps.1, ih hps.2,
      Place.after_append]

theorem skim_body (r : RegexText) (l : Nat) (outer : List Enclosure) (p : Place)
    (f : List Char) :
    skim (.regex l false :: outer) p (r.body ++ f) = skim outer (p.after r.body) f := by
  rw [body, List.append_assoc, skim_parts r.valid]
  simp [skim, step]

end RegexText

/-! Template literals -/

mutual

inductive TemplateText where
  | close
  | char (c : Char) (rest : TemplateText)
  | escape (c : Char) (rest : TemplateText)
  | interpolation (e : ExpressionText) (rest : TemplateText)

inductive ExpressionText where
  | close
  | char (c : Char) (rest : ExpressionText)
  | quoted (s : QuotedText) (rest : ExpressionText)
  | template (t : TemplateText) (rest : ExpressionText)
  | braces (inner : ExpressionText) (rest : ExpressionText)
  | lineComment (body : List Char) (rest : ExpressionText)
  | blockComment (body : List Char) (rest : ExpressionText)
  | regex (r : RegexText) (rest : ExpressionText)
  | slash (rest : ExpressionText)

end

mutual

def TemplateText.text : TemplateText → List Char
  | .close => ['\x60']
  | .char c t => c :: t.text
  | .escape c t => '\\' :: c :: t.text
  | .interpolation e t => '$' :: '\x7b' :: (e.text ++ t.text)

def ExpressionText.text : ExpressionText → List Char
  | .close => ['\x7d']
  | .char c e => c :: e.text
  | .quoted s e => s.text ++ e.text
  | .template t e => '\x60' :: (t.text ++ e.text)
  | .braces inner e => '\x7b' :: (inner.text ++ e.text)
  | .lineComment body e => '/' :: '/' :: (body ++ '\n' :: e.text)
  | .blockComment body e => '/' :: '*' :: (body ++ (['*', '/'] ++ e.text))
  | .regex r e => r.text ++ e.text
  | .slash e => '/' :: e.text

end

def isPlainCode (c : Char) : Bool :=
  !(c = '/' || c = '\'' || c = '"' || c = '\x60' || c = '\x7b' || c = '\x7d')

mutual

/-- No character of the template is more than itself: no dollar sign stands before a brace. -/
def TemplateText.Valid : TemplateText → Prop
  | .close => True
  | .char c t =>
    c ≠ '\x60' ∧ c ≠ '\\' ∧ ¬(c = '$' ∧ t.text.head? = some '\x7b') ∧ t.Valid
  | .escape _ t => t.Valid
  | .interpolation e t => e.Valid .operator ∧ t.Valid

/-- A slash is a division behind an operand, and begins a regular expression elsewhere. -/
def ExpressionText.Valid (before : Before) : ExpressionText → Prop
  | .close => True
  | .char c e => isPlainCode c = true ∧ e.Valid (before.read c)
  | .quoted _ e => e.Valid .operand
  | .template t e => t.Valid ∧ e.Valid .operand
  | .braces inner e => inner.Valid .operator ∧ e.Valid .operand
  | .lineComment body e => '\n' ∉ body ∧ e.Valid before.pass
  | .blockComment body e => ¬['*', '/'] <:+: body ∧ e.Valid before.pass
  | .regex _ e => before ≠ .operand ∧ e.Valid .flags
  | .slash e =>
    before = .operand ∧ e.text.head? ≠ some '/' ∧ e.text.head? ≠ some '*' ∧ e.Valid .operator

end

theorem TemplateText.text_ne_nil (t : TemplateText) : t.text ≠ [] := by
  cases t <;> simp [text]

def closedBrace (line : Nat) (outer : List Enclosure) : Nat → List Enclosure
  | 0 => outer
  | depth + 1 => .expression line depth .operand :: outer

theorem skim_template_char {c : Char} {w : List Char} (hw : w ≠ []) (ht : c ≠ '\x60')
    (hb : c ≠ '\\') (hd : ¬(c = '$' ∧ w.head? = some '\x7b')) (l : Nat) (outer : List Enclosure)
    (p : Place) (f : List Char) :
    skim (.template l :: outer) p (c :: (w ++ f)) =
      skim (.template l :: outer) (p.next c) (w ++ f) := by
  obtain ⟨d, w, rfl⟩ := List.exists_cons_of_ne_nil hw
  simp only [List.head?_cons] at hd
  simp only [List.cons_append, skim, List.head?_cons, step, hb, ht, hd, if_false]

theorem isPlainCode_of_continuesWord {c : Char} (hc : continuesWord c = true) :
    isPlainCode c = true := by
  rw [isPlainCode, Bool.not_eq_true', ← Bool.not_eq_true]
  intro h
  simp only [Bool.or_eq_true, decide_eq_true_eq] at h
  rcases h with ((((rfl | rfl) | rfl) | rfl) | rfl) | rfl <;> exact absurd hc (by decide)

theorem skim_expression_char {c : Char} (hc : isPlainCode c = true) (l depth : Nat)
    (before : Before) (outer : List Enclosure) (p : Place) (f : List Char) :
    skim (.expression l depth before :: outer) p (c :: f) =
      skim (.expression l depth (before.read c) :: outer) (p.next c) f := by
  simp only [isPlainCode, Bool.not_eq_true', Bool.or_eq_false_iff, decide_eq_false_iff_not] at hc
  obtain ⟨⟨⟨⟨⟨hslash, hsingle⟩, hdouble⟩, hbacktick⟩, hopen⟩, hclose⟩ := hc
  simp only [skim, step, hslash, hsingle, hdouble, hbacktick, hopen, hclose, false_and, or_self,
    if_false]

theorem skim_lineComment {body : List Char} (hb : '\n' ∉ body) (outer : List Enclosure)
    (p : Place) (f : List Char) :
    skim (.lineComment :: outer) p (body ++ '\n' :: f) =
      skim outer ((p.after body).next '\n') f := by
  induction body generalizing p with
  | nil => rfl
  | cons c body ih =>
    have hc : c ≠ '\n' := fun h => hb (by simp [h])
    simp only [List.cons_append, skim, step, hc, if_false, Place.after_cons]
    exact ih (fun h => hb (List.mem_cons_of_mem _ h)) _

theorem skim_flags {w : List Char} (hw : w.all continuesWord = true) (l depth : Nat)
    (outer : List Enclosure) (p : Place) (f : List Char) :
    skim (.expression l depth .flags :: outer) p (w ++ f) =
      skim (.expression l depth .flags :: outer) (p.after w) f := by
  induction w generalizing p with
  | nil => rfl
  | cons c w ih =>
    rw [List.all_cons, Bool.and_eq_true] at hw
    have hread : Before.flags.read c = .flags := by simp [Before.read, hw.1]
    rw [List.cons_append, skim_expression_char (isPlainCode_of_continuesWord hw.1), hread, ih hw.2,
      Place.after_cons]

theorem skim_slash {f : List Char} (hline : f.head? ≠ some '/') (hblock : f.head? ≠ some '*')
    (l depth : Nat) (before : Before) (outer : List Enclosure) (p : Place) :
    skim (.expression l depth before :: outer) p ('/' :: f) =
      if before = .operand then skim (.expression l depth .operator :: outer) (p.next '/') f
      else skim (.regex p.line false :: .expression l depth .flags :: outer) (p.next '/') f := by
  by_cases hb : before = .operand
  · subst hb
    simp only [skim, step, hline, hblock]
    rfl
  · rw [if_neg hb]
    simp [skim, step, hline, hblock, hb]

theorem ExpressionText.text_ne_nil (e : ExpressionText) : e.text ≠ [] := by
  cases e <;> simp [text, QuotedText.text, RegexText.text]

mutual

theorem TemplateText.skim_text (t : TemplateText) (h : t.Valid) (l : Nat)
    (outer : List Enclosure) (p : Place) (f : List Char) :
    skim (.template l :: outer) p (t.text ++ f) = skim outer (p.after t.text) f := by
  match t with
  | .close => rfl
  | .char c t =>
    obtain ⟨ht, hb, hd, hrest⟩ := h
    rw [TemplateText.text, List.cons_append, skim_template_char t.text_ne_nil ht hb hd,
      t.skim_text hrest, Place.after_cons]
  | .escape c t =>
    have hstep : skim (.template l :: outer) p ('\\' :: c :: (t.text ++ f)) =
        skim (.template l :: outer) ((p.next '\\').next c) (t.text ++ f) := rfl
    rw [TemplateText.text, List.cons_append, List.cons_append, hstep, t.skim_text h]
    rfl
  | .interpolation e t =>
    have hstep : skim (.template l :: outer) p ('$' :: '\x7b' :: (e.text ++ (t.text ++ f))) =
        skim (.expression p.line 0 .operator :: .template l :: outer)
          ((p.next '$').next '\x7b') (e.text ++ (t.text ++ f)) := rfl
    rw [TemplateText.text, List.cons_append, List.cons_append, List.append_assoc, hstep,
      e.skim_text h.1, closedBrace, t.skim_text h.2, ← Place.after_append]
    rfl

theorem ExpressionText.skim_text (e : ExpressionText) {before : Before} (h : e.Valid before)
    (l depth : Nat) (outer : List Enclosure) (p : Place) (f : List Char) :
    skim (.expression l depth before :: outer) p (e.text ++ f) =
      skim (closedBrace l outer depth) (p.after e.text) f := by
  match e with
  | .close => cases depth <;> rfl
  | .char c e =>
    rw [ExpressionText.text, List.cons_append, skim_expression_char h.1, e.skim_text h.2,
      Place.after_cons]
  | .quoted s e =>
    have hstep : skim (.expression l depth before :: outer) p
        (s.quote :: (s.body ++ (e.text ++ f))) =
        skim (.quoted p.line s.quote :: .expression l depth .operand :: outer) (p.next s.quote)
          (s.body ++ (e.text ++ f)) := by
      rcases s.isQuote with hq | hq <;> rw [hq] <;> rfl
    rw [ExpressionText.text, QuotedText.text, List.cons_append, List.cons_append,
      List.append_assoc, hstep, s.skim_body, e.skim_text h, ← Place.after_append]
    rfl
  | .template t e =>
    have hstep : skim (.expression l depth before :: outer) p
        ('\x60' :: (t.text ++ (e.text ++ f))) =
        skim (.template p.line :: .expression l depth .operand :: outer) (p.next '\x60')
          (t.text ++ (e.text ++ f)) := rfl
    rw [ExpressionText.text, List.cons_append, List.append_assoc, hstep, t.skim_text h.1,
      e.skim_text h.2, ← Place.after_append]
    rfl
  | .braces inner e =>
    have hstep : skim (.expression l depth before :: outer) p
        ('\x7b' :: (inner.text ++ (e.text ++ f))) =
          skim (.expression l (depth + 1) .operator :: outer) (p.next '\x7b')
            (inner.text ++ (e.text ++ f)) := rfl
    rw [ExpressionText.text, List.cons_append, List.append_assoc, hstep, inner.skim_text h.1,
      closedBrace, e.skim_text h.2, ← Place.after_append]
    rfl
  | .lineComment body e =>
    have hstep : skim (.expression l depth before :: outer) p
        ('/' :: '/' :: (body ++ '\n' :: (e.text ++ f))) =
          skim (.lineComment :: .expression l depth before.pass :: outer)
            ((p.next '/').next '/') (body ++ '\n' :: (e.text ++ f)) := rfl
    rw [ExpressionText.text, List.cons_append, List.cons_append, List.append_assoc,
      List.cons_append, hstep, skim_lineComment h.1, e.skim_text h.2]
    simp
  | .blockComment body e =>
    have hstep : skim (.expression l depth before :: outer) p
        ('/' :: '*' :: (body ++ (['*', '/'] ++ (e.text ++ f)))) =
          skim (.blockComment p.line :: .expression l depth before.pass :: outer)
            ((p.next '/').next '*') (body ++ (['*', '/'] ++ (e.text ++ f))) := rfl
    rw [ExpressionText.text, List.cons_append, List.cons_append, List.append_assoc,
      List.append_assoc, hstep, skim_comment h.1, e.skim_text h.2]
    simp
  | .regex r e =>
    obtain ⟨c, w, hbody⟩ := List.exists_cons_of_ne_nil r.body_ne_nil
    have hfirst := r.noComment
    rw [← RegexText.body, hbody] at hfirst
    have hc : c ≠ '/' ∧ c ≠ '*' := by simpa using hfirst
    have hstep := skim_slash (f := r.body ++ (r.flags ++ (e.text ++ f))) (by simp [hbody, hc])
      (by simp [hbody, hc]) l depth before outer p
    rw [if_neg h.1] at hstep
    rw [ExpressionText.text, RegexText.text, List.cons_append, List.cons_append,
      List.append_assoc, List.append_assoc, hstep, r.skim_body, skim_flags r.areFlags,
      e.skim_text h.2, ← Place.after_append, ← Place.after_append]
    simp
  | .slash e =>
    obtain ⟨hb, hline, hblock, hrest⟩ := h
    obtain ⟨c, w, htext⟩ := List.exists_cons_of_ne_nil e.text_ne_nil
    have hstep := skim_slash (f := e.text ++ f) (by simpa [htext] using hline)
      (by simpa [htext] using hblock) l depth before outer p
    rw [if_pos hb] at hstep
    rw [ExpressionText.text, List.cons_append, hstep, e.skim_text hrest, Place.after_cons]

end

namespace TemplateText

def cooked (n : Nat) : TemplateText → List Char
  | .close => []
  | .char c t => c :: t.cooked n
  | .escape c t => (if Template.isCookedEscape c then [c] else ['\\', c]) ++ t.cooked n
  | .interpolation _ t => Template.placeholder (n + 1) ++ t.cooked (n + 1)

def interpolations : TemplateText → Nat
  | .close => 0
  | .char _ t => t.interpolations
  | .escape _ t => t.interpolations
  | .interpolation _ t => t.interpolations + 1

theorem cooks (t : TemplateText) (h : t.Valid) (n : Nat) :
    Template.Cooks n t.text (t.cooked n) (n + t.interpolations) := by
  intro line p f
  match t with
  | .close => exact Template.cook_backtick ..
  | .char c t =>
    obtain ⟨ht, hb, hd, hrest⟩ := h
    have hd' : ¬(c = '$' ∧ (t.text ++ f).head? = some '\x7b') := by
      obtain ⟨d, w, hw⟩ := List.exists_cons_of_ne_nil t.text_ne_nil
      simpa [hw] using hd
    rw [text, List.cons_append, Template.cook_other ht hb hd', t.cooks hrest n]
    rfl
  | .escape c t =>
    rw [text, List.cons_append, List.cons_append, Template.cook_backslash, t.cooks h n]
    rfl
  | .interpolation e t =>
    have hskim := e.skim_text h.1 p.line 0 [] (p.after ['$', '\x7b']) (t.text ++ f)
    rw [closedBrace, skim.eq_1] at hskim
    rw [text, List.cons_append, List.cons_append, List.append_assoc,
      Template.cook_expression hskim, t.cooks h.2 (n + 1), ← Place.after_append]
    simp [Except.map, Template.Cooked.prepend, cooked, interpolations]
    omega

end TemplateText

end RowTypes
