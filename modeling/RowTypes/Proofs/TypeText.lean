import RowTypes.Proofs.Annotating
import RowTypes.Proofs.Literals

/-! Type arguments as trees of brackets. The search for the closing angle bracket counts angle
brackets only, so it comes to the right one, unless a semicolon stands between the members of an
object type: then it gives up, and the tag is lost. -/

namespace RowTypes.Tag

inductive Bracket where
  | round
  | square
  | curly
deriving DecidableEq, Repr

def Bracket.opening : Bracket → Char
  | round => '('
  | square => '['
  | curly => '\x7b'

def Bracket.closing : Bracket → Char
  | round => ')'
  | square => ']'
  | curly => '\x7d'

inductive TypeText where
  | nil
  | char (c : Char) (rest : TypeText)
  | semicolon (rest : TypeText)
  | arrow (rest : TypeText)
  | quoted (s : QuotedText) (rest : TypeText)
  | group (b : Bracket) (inner rest : TypeText)
  | generic (inner rest : TypeText)

def isPlainType (c : Char) : Bool := !"<>()[]\x7b\x7d'\"\x60;=".toList.contains c

namespace TypeText

def text : TypeText → List Char
  | nil => []
  | char c a => c :: a.text
  | semicolon a => ';' :: a.text
  | arrow a => '=' :: '>' :: a.text
  | quoted s a => s.text ++ a.text
  | group b inner a => b.opening :: (inner.text ++ b.closing :: a.text)
  | generic inner a => '<' :: (inner.text ++ '>' :: a.text)

def isValid : TypeText → Bool
  | nil => true
  | char c a => isPlainType c && a.isValid
  | semicolon a => a.isValid
  | arrow a => a.isValid
  | quoted _ a => a.isValid
  | group _ inner a => inner.isValid && a.isValid
  | generic inner a => inner.isValid && a.isValid

def hasSemicolon : TypeText → Bool
  | nil => false
  | char _ a => a.hasSemicolon
  | semicolon _ => true
  | arrow a => a.hasSemicolon
  | quoted _ a => a.hasSemicolon
  | group _ inner a => inner.hasSemicolon || a.hasSemicolon
  | generic inner a => inner.hasSemicolon || a.hasSemicolon

def plain (cs : List Char) (a : TypeText) : TypeText := cs.foldr char a

end TypeText

def Skips (depth : Nat) (w : List Char) : Prop :=
  ∀ g, closeAngle none depth false (w ++ g) =
    (closeAngle none depth false g).map (.map (w ++ ·) id)

def GivesUp (depth : Nat) (w : List Char) : Prop := ∀ g, closeAngle none depth false (w ++ g) = none

theorem Skips.nil (depth : Nat) : Skips depth [] := by
  intro g
  rw [List.nil_append]
  cases closeAngle none depth false g <;> rfl

theorem Skips.append {depth : Nat} {v w : List Char} (hv : Skips depth v) (hw : Skips depth w) :
    Skips depth (v ++ w) := by
  intro g
  rw [List.append_assoc, hv, hw]
  cases closeAngle none depth false g <;> simp [Prod.map]

theorem Skips.givesUp {depth : Nat} {v w : List Char} (hv : Skips depth v) (hw : GivesUp depth w) :
    GivesUp depth (v ++ w) := by
  intro g
  rw [List.append_assoc, hv, hw]
  rfl

theorem GivesUp.append {depth : Nat} {v : List Char} (hv : GivesUp depth v) (w : List Char) :
    GivesUp depth (v ++ w) := by
  intro g
  rw [List.append_assoc, hv]

theorem skips_char {c : Char} (hangle : c ≠ '<' ∧ c ≠ '>') (hquote : ¬(c = '\'' ∨ c = '"'))
    (hstop : ¬(c = ';' ∨ c = '\x60')) (hequals : c ≠ '=') (depth : Nat) : Skips depth [c] := by
  intro g
  rw [List.singleton_append, closeAngle.eq_def]
  simp only [hangle, hquote, hstop, hequals, false_and, if_false, decide_false]
  rfl

theorem givesUp_semicolon (depth : Nat) : GivesUp depth [';'] := by
  intro g
  rw [List.singleton_append, closeAngle.eq_def]
  simp

theorem skips_arrow (depth : Nat) : Skips depth ['=', '>'] := by
  intro g
  have hequals : closeAngle none depth false ('=' :: '>' :: g) =
      (closeAngle none depth true ('>' :: g)).map (.map ('=' :: ·) id) := by
    rw [closeAngle.eq_def]
    simp
  have hclose : closeAngle none depth true ('>' :: g) =
      (closeAngle none depth false g).map (.map ('>' :: ·) id) := by
    rw [closeAngle.eq_def]
    simp
  rw [List.cons_append, List.singleton_append, hequals, hclose]
  cases closeAngle none depth false g <;> rfl

theorem closeAngle_spell {q : Char} (hq : q = '\'' ∨ q = '"') {ls : List Letter}
    (hls : ls.all (Letter.isAmong (· != q)) = true) (depth : Nat) (g : List Char) :
    closeAngle (some q) depth false (spell ls ++ q :: g) =
      (closeAngle none depth false g).map (.map (spell ls ++ q :: ·) id) := by
  induction ls with
  | nil => exact closeAngle_quoted_end g (.inl rfl)
  | cons l ls ih =>
    rw [List.all_cons, Bool.and_eq_true] at hls
    have ih := ih hls.2
    cases l with
    | plain c =>
      have hc : (c ≠ q ∧ c ≠ '\\') ∧ c ≠ '\n' := by simpa [Letter.isAmong] using hls.1
      have hother : closeAngle (some q) depth false (c :: (spell ls ++ q :: g)) = _ :=
        closeAngle_quoted_other _ (by simp [hc]) hc.1.2
      rw [ih] at hother
      refine hother.trans ?_
      cases closeAngle none depth false g <;> rfl
    | escaped c =>
      have hbackslash : ¬('\\' = q ∨ '\\' = '\n') := by rcases hq with rfl | rfl <;> decide
      have hescape : closeAngle (some q) depth false ('\\' :: c :: (spell ls ++ q :: g)) = _ :=
        closeAngle_quoted_escape c _ hbackslash
      rw [ih] at hescape
      refine hescape.trans ?_
      cases closeAngle none depth false g <;> rfl

theorem skips_quotedText (s : QuotedText) (depth : Nat) : Skips depth s.text := by
  intro g
  have hopen : closeAngle none depth false (s.quote :: (s.body ++ g)) =
      (closeAngle (some s.quote) depth false (s.body ++ g)).map (.map (s.quote :: ·) id) := by
    rw [closeAngle.eq_def]
    rcases s.isQuote with h | h <;> rw [h] <;> rfl
  rw [QuotedText.text, List.cons_append, hopen, QuotedText.body, List.append_assoc,
    List.singleton_append, closeAngle_spell s.isQuote s.within]
  cases closeAngle none depth false g with
  | none => rfl
  | some r => simp [Prod.map]

theorem closeAngle_opening (depth : Nat) (g : List Char) :
    closeAngle none depth false ('<' :: g) =
      (closeAngle none (depth + 1) false g).map (.map ('<' :: ·) id) := by
  rw [closeAngle.eq_def]
  simp

theorem skips_generic {depth : Nat} (hd : 1 ≤ depth) {v : List Char} (hv : Skips (depth + 1) v) :
    Skips depth ('<' :: (v ++ ['>'])) := by
  intro g
  have hclose : closeAngle none (depth + 1) false ('>' :: g) =
      (closeAngle none depth false g).map (.map ('>' :: ·) id) := by
    have hdepth : ¬depth + 1 ≤ 1 := by omega
    rw [closeAngle.eq_def]
    simp [hdepth]
  rw [List.cons_append, closeAngle_opening, List.append_assoc, hv, List.singleton_append, hclose]
  cases closeAngle none depth false g <;> simp [Prod.map]

theorem GivesUp.generic {depth : Nat} {v : List Char} (hv : GivesUp (depth + 1) v) :
    GivesUp depth ('<' :: v) := by
  intro g
  rw [List.cons_append, closeAngle_opening, hv]
  rfl

theorem skips_plainType {c : Char} (hc : isPlainType c = true) (depth : Nat) : Skips depth [c] := by
  simp [isPlainType] at hc
  exact skips_char (by simp [hc]) (by simp [hc]) (by simp [hc]) (by simp [hc]) depth

theorem skips_bracket (b : Bracket) (depth : Nat) :
    Skips depth [b.opening] ∧ Skips depth [b.closing] := by
  cases b <;>
    exact ⟨skips_char (by decide) (by decide) (by decide) (by decide) depth,
      skips_char (by decide) (by decide) (by decide) (by decide) depth⟩

theorem skips_typeText {a : TypeText} (h : a.isValid = true) {depth : Nat} (hd : 1 ≤ depth) :
    (a.hasSemicolon = false → Skips depth a.text) ∧
      (a.hasSemicolon = true → GivesUp depth a.text) := by
  induction a generalizing depth with
  | nil => exact ⟨fun _ => .nil depth, fun hs => (Bool.false_ne_true hs).elim⟩
  | char c a ih =>
    rw [TypeText.isValid, Bool.and_eq_true] at h
    have hc := skips_plainType h.1 depth
    exact ⟨fun hs => hc.append ((ih h.2 hd).1 hs), fun hs => hc.givesUp ((ih h.2 hd).2 hs)⟩
  | semicolon a =>
    exact ⟨fun hs => (Bool.false_ne_true hs.symm).elim,
      fun _ => (givesUp_semicolon depth).append a.text⟩
  | arrow a ih =>
    have ha := skips_arrow depth
    exact ⟨fun hs => ha.append ((ih h hd).1 hs), fun hs => ha.givesUp ((ih h hd).2 hs)⟩
  | quoted s a ih =>
    have hq := skips_quotedText s depth
    exact ⟨fun hs => hq.append ((ih h hd).1 hs), fun hs => hq.givesUp ((ih h hd).2 hs)⟩
  | group b inner a ihinner ih =>
    rw [TypeText.isValid, Bool.and_eq_true] at h
    obtain ⟨hopen, hclose⟩ := skips_bracket b depth
    obtain ⟨hin, hin'⟩ := ihinner h.1 hd
    obtain ⟨ha, ha'⟩ := ih h.2 hd
    have htext : (TypeText.group b inner a).text =
        [b.opening] ++ (inner.text ++ ([b.closing] ++ a.text)) := rfl
    rw [htext, TypeText.hasSemicolon, Bool.or_eq_false_iff, Bool.or_eq_true]
    constructor
    · rintro ⟨hs, hs'⟩
      exact hopen.append ((hin hs).append (hclose.append (ha hs')))
    · intro hs
      by_cases hinner : inner.hasSemicolon = true
      · exact hopen.givesUp ((hin' hinner).append _)
      · have hskip := hin (Bool.not_eq_true _ ▸ hinner)
        exact hopen.givesUp (hskip.givesUp (hclose.givesUp (ha' (hs.resolve_left hinner))))
  | generic inner a ihinner ih =>
    rw [TypeText.isValid, Bool.and_eq_true] at h
    obtain ⟨hin, hin'⟩ := ihinner h.1 (Nat.le_succ_of_le hd)
    obtain ⟨ha, ha'⟩ := ih h.2 hd
    have htext : (TypeText.generic inner a).text = '<' :: (inner.text ++ ['>']) ++ a.text := by
      simp [TypeText.text]
    rw [htext, TypeText.hasSemicolon, Bool.or_eq_false_iff, Bool.or_eq_true]
    constructor
    · rintro ⟨hs, hs'⟩
      exact (skips_generic hd (hin hs)).append (ha hs')
    · intro hs
      by_cases hinner : inner.hasSemicolon = true
      · exact ((hin' hinner).append ['>']).generic.append a.text
      · have hskip := skips_generic hd (hin (Bool.not_eq_true _ ▸ hinner))
        exact hskip.givesUp (ha' (hs.resolve_left hinner))

def argumentsText (a : TypeText) : List Char := '<' :: (a.text ++ ['>'])

theorem typeArguments?_argumentsText {a : TypeText} (h : a.isValid = true) (f : List Char) :
    typeArguments? (argumentsText a ++ f) =
      if a.hasSemicolon then none else some (argumentsText a, f) := by
  obtain ⟨hskip, hstop⟩ := skips_typeText h (Nat.le_refl 1)
  have hclose : closeAngle none 1 false ('>' :: f) = some (['>'], f) := by
    rw [closeAngle.eq_def]
    simp
  rw [argumentsText, List.cons_append, typeArguments?, List.append_assoc]
  split
  · rename_i hs
    rw [hstop hs]
    rfl
  · rename_i hs
    rw [hskip (Bool.not_eq_true _ ▸ hs), List.singleton_append, hclose]
    rfl

def annotatedText (a : TypeText) (gap : List Char) (t : TemplateText) : List Char :=
  word ++ (argumentsText a ++ (gap ++ '\x60' :: t.text))

def annotatedTag (a : TypeText) (gap : List Char) (t : TemplateText) : Tag :=
  let stop := 3 + Text.size (argumentsText a)
  let start := stop + Text.size gap
  ⟨3, some ⟨3, stop⟩, ⟨start, start + Text.size ('\x60' :: t.text)⟩, 1,
    String.ofList (t.cooked 0), t.interpolations⟩

theorem heading?_argumentsText {a : TypeText} (h : a.isValid = true)
    (hs : a.hasSemicolon = true) (p : Place) (f : List Char) :
    heading? p (argumentsText a ++ f) = none := by
  have hgap : skipBlanks p (argumentsText a ++ f) = ⟨p, argumentsText a ++ f⟩ :=
    skipBlanks_append p (w := []) (by simp) rfl
  have hopen : (argumentsText a ++ f).head? = some '<' := rfl
  simp only [heading?, hgap, hopen, if_true, typeArguments?_argumentsText h, hs]

theorem tagEnd_ne_of_semicolon {a : TypeText} (h : a.isValid = true)
    (hs : a.hasSemicolon = true) (f : List Char) {ts : List Tag}
    (hscan : scanFrom .operator .start (word ++ (argumentsText a ++ f)) = .ok ts) :
    ∀ t ∈ ts, t.tagEnd ≠ 3 := by
  have hnext : next .operator .start 's' (['q', 'l'] ++ (argumentsText a ++ f)) = _ :=
    next_word (by decide) (List.all_eq_true.1 (by decide)) rfl
      (fun _ => heading?_argumentsText h hs .start f) .start
  obtain ⟨r, ts', hr, hrest, rfl⟩ := scanFrom_eq_ok hscan
  obtain rfl : _ = r := Except.ok.inj (hnext.symm.trans hr)
  obtain ⟨ps, -, htags⟩ := exists_tags hrest
  subst htags
  intro t ht hend
  have hge := tagEnd_ge t ht
  have hplace : (Place.start.after ['s', 'q', 'l']).offset = 3 := rfl
  simp only [hplace, hend] at hge
  omega

/-- A tag with type arguments at the beginning of a text is found, as the only one, if and only if
no semicolon stands in them. -/
theorem scan_annotatedText_iff {a : TypeText} (ha : a.isValid = true) {gap : List Char}
    (hgap : gap.all Code.isBlank = true) {t : TemplateText} (ht : t.Valid) :
    scan (String.ofList (annotatedText a gap t)) = .ok [annotatedTag a gap t] ↔
      a.hasSemicolon = false := by
  rw [scan, String.toList_ofList]
  constructor
  · intro hscan
    by_contra hs
    exact tagEnd_ne_of_semicolon ha (Bool.not_eq_false _ ▸ hs) _ hscan (annotatedTag a gap t)
      (by simp) rfl
  · intro hs
    have hclosed : typeArguments? (argumentsText a) = some (argumentsText a, []) := by
      have := typeArguments?_argumentsText ha []
      rwa [hs, List.append_nil] at this
    have htag : TagText.Valid ⟨⟨[], some ⟨argumentsText a, gap⟩⟩, t.text, t.cooked 0,
        0 + t.interpolations⟩ := by
      refine ⟨⟨by simp, ?_⟩, t.cooks ht 0⟩
      rintro b ⟨rfl⟩
      exact ⟨hclosed, List.all_eq_true.1 hgap⟩
    have hscan := scanFrom_tag htag .operator .start []
    rw [List.append_nil, scanFrom.eq_1] at hscan
    refine (congrArg _ ?_).trans (hscan.trans ?_)
    · simp [annotatedText, TagText.text, TagText.heading, HeadingText.text]
    · simp only [annotatedTag, TagText.tag, TagText.text, TagText.heading, HeadingText.text,
        HeadingText.span, Except.map, Place.after_append, Place.after_offset, Place.after_nil,
        Option.map_some, Nat.zero_add, List.nil_append]
      rfl

def objectArguments : TypeText :=
  .group .curly
    (.plain "a: ".toList (.quoted
        ⟨'\'', [.plain ';', .plain '>'], QuotedText.isQuote_apostrophe, by decide⟩
      (.plain ", b: ".toList (.group .round (.plain "c: B".toList (.generic (.plain ['d'] .nil) .nil))
        (.plain [' '] (.arrow (.plain " e".toList (.group .square .nil .nil)))))))) .nil

theorem scan_objectArguments :
    scan "sql<\x7ba: ';>', b: (c: B<d>) => e[]\x7d> \x60f\x60" =
      .ok [⟨3, some ⟨3, 35⟩, ⟨36, 39⟩, 1, "f", 0⟩] := by
  have htext : String.ofList (annotatedText objectArguments [' '] (.char 'f' .close)) =
      "sql<\x7ba: ';>', b: (c: B<d>) => e[]\x7d> \x60f\x60" := by decide
  have htag : annotatedTag objectArguments [' '] (.char 'f' .close) =
      ⟨3, some ⟨3, 35⟩, ⟨36, 39⟩, 1, "f", 0⟩ := by decide
  rw [← htext, ← htag]
  exact (scan_annotatedText_iff (by decide) (by decide)
    (by simp [TemplateText.Valid, TemplateText.text])).2 (by decide)

theorem scan_members_behind_semicolon :
    scan "sql<\x7ba: string; b: number\x7d>\x60select 1\x60" = .ok [] ∧
      scan "sql<\x7ba: string, b: number\x7d>\x60select 1\x60" =
        .ok [⟨3, some ⟨3, 27⟩, ⟨27, 37⟩, 1, "select 1", 0⟩] :=
  ⟨by decide +kernel, by decide +kernel⟩

end RowTypes.Tag
