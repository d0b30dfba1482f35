import RowTypes.Proofs.Merging
import RowTypes.Proofs.TypeText

/-! The members of an intersection. All but the first are kept when type arguments are merged, as
long as the search for separators reads each string to its end. It takes a quote behind a backslash
for a part of the string, also where the backslash is itself behind one, so a string that ends in an
escaped backslash goes on for it and hides the separators that follow. -/

namespace RowTypes

/-- No backslash stands in front of the closing quote. -/
def QuotedText.isSettled (s : QuotedText) : Bool := (spell s.letters).getLast? != some '\\'

theorem QuotedText.ne_backslash (s : QuotedText) : s.quote ≠ '\\' := by
  rcases s.isQuote with h | h <;> rw [h] <;> decide

namespace Tag.TypeText

def strings : TypeText → List QuotedText
  | nil => []
  | char _ a => a.strings
  | semicolon a => a.strings
  | arrow a => a.strings
  | quoted s a => s :: a.strings
  | group _ inner a => inner.strings ++ a.strings
  | generic inner a => inner.strings ++ a.strings

def isSettled (a : TypeText) : Bool := a.strings.all QuotedText.isSettled

def isUndivided : TypeText → Bool
  | nil => true
  | char c a => c != '&' && c != '|' && a.isUndivided
  | semicolon a => a.isUndivided
  | arrow a => a.isUndivided
  | quoted _ a => a.isUndivided
  | group _ _ a => a.isUndivided
  | generic _ a => a.isUndivided

theorem of_isUndivided_char {separator c : Char} {a : TypeText} {depth : Int}
    (hs : separator = '&' ∨ separator = '|') (h : depth = 0 → (char c a).isUndivided = true)
    (hzero : depth = 0) : c ≠ separator ∧ a.isUndivided = true := by
  have h : (c ≠ '&' ∧ c ≠ '|') ∧ a.isUndivided = true := by simpa [isUndivided] using h hzero
  rcases hs with rfl | rfl
  · exact ⟨h.1.1, h.2⟩
  · exact ⟨h.1.2, h.2⟩

theorem quote_not_mem {a : TypeText} (h : a.isValid = true) (hs : a.strings = []) :
    ∀ c ∈ a.text, c ≠ '\'' ∧ c ≠ '"' := by
  induction a with
  | nil => simp [text]
  | char c a ih =>
    rw [isValid, Bool.and_eq_true] at h
    have hc : c ≠ '\'' ∧ c ≠ '"' := by
      have := h.1
      simp [isPlainType] at this
      simp [this]
    exact List.forall_mem_cons.2 ⟨hc, ih h.2 hs⟩
  | semicolon a ih => exact List.forall_mem_cons.2 ⟨by decide, ih h hs⟩
  | arrow a ih =>
    exact List.forall_mem_cons.2 ⟨by decide, List.forall_mem_cons.2 ⟨by decide, ih h hs⟩⟩
  | quoted s a => cases hs
  | group b inner a ihinner ih =>
    rw [isValid, Bool.and_eq_true] at h
    obtain ⟨hin, ha⟩ := List.append_eq_nil_iff.1 hs
    have hbrackets : (b.opening ≠ '\'' ∧ b.opening ≠ '"') ∧ b.closing ≠ '\'' ∧ b.closing ≠ '"' := by
      cases b <;> decide
    rw [text, List.forall_mem_cons, List.forall_mem_append, List.forall_mem_cons]
    exact ⟨hbrackets.1, ihinner h.1 hin, hbrackets.2, ih h.2 ha⟩
  | generic inner a ihinner ih =>
    rw [isValid, Bool.and_eq_true] at h
    obtain ⟨hin, ha⟩ := List.append_eq_nil_iff.1 hs
    rw [text, List.forall_mem_cons, List.forall_mem_append, List.forall_mem_cons]
    exact ⟨by decide, ihinner h.1 hin, by decide, ih h.2 ha⟩

/-- A type of which the last string, and no other, is unsettled. -/
def LastUnsettled (a : TypeText) : Prop :=
  a.strings.dropLast.all QuotedText.isSettled = true ∧ a.isSettled = false

theorem LastUnsettled.of_append_nil {a inner : TypeText} {ts : List QuotedText}
    (h : LastUnsettled a) (hstrings : a.strings = inner.strings ++ ts) (hts : ts = []) :
    LastUnsettled inner := by
  rw [hts, List.append_nil] at hstrings
  rwa [LastUnsettled, isSettled, hstrings] at h

theorem LastUnsettled.of_append {a : TypeText} {ss ts : List QuotedText} (h : LastUnsettled a)
    (hstrings : a.strings = ss ++ ts) (hts : ts ≠ []) :
    ss.all QuotedText.isSettled = true ∧
      ts.dropLast.all QuotedText.isSettled = true ∧ ts.all QuotedText.isSettled = false := by
  obtain ⟨hothers, hlast⟩ := h
  rw [hstrings, List.dropLast_append_of_ne_nil hts, List.all_append, Bool.and_eq_true] at hothers
  rw [isSettled, hstrings, List.all_append, hothers.1, Bool.true_and] at hlast
  exact ⟨hothers.1, hothers.2, hlast⟩

end Tag.TypeText

namespace Reference
open Tag

/-! What the search for a separator reads -/

def Crosses (separator : Char) (depth : Int) (w : List Char) : Prop :=
  ∀ b, b ≠ some '=' → ∀ g, cut separator none depth b (w ++ g) =
    (cut separator none depth none g).map (.map (w ++ ·) id)

def Quotes (separator : Char) (depth : Int) (w : List Char) : Prop :=
  ∃ q, (q = '\'' ∨ q = '"') ∧ ∃ depth' b', ∀ b, b ≠ some '=' → ∀ g,
    cut separator none depth b (w ++ g) =
      (cut separator (some q) depth' b' g).map (.map (w ++ ·) id)

theorem map_prepend_append (v w : List Char) (found : Option (List Char × List Char)) :
    (found.map (Prod.map (w ++ ·) id)).map (Prod.map (v ++ ·) id) =
      found.map (Prod.map (v ++ w ++ ·) id) := by
  cases found <;> simp [Prod.map]

theorem Crosses.nil (separator : Char) (depth : Int) : Crosses separator depth [] := by
  intro b hb g
  rw [List.nil_append, cut_before hb (e := none) (by simp)]
  cases cut separator none depth none g <;> rfl

theorem Crosses.append {separator : Char} {depth : Int} {v w : List Char}
    (hv : Crosses separator depth v) (hw : Crosses separator depth w) :
    Crosses separator depth (v ++ w) := by
  intro b hb g
  rw [List.append_assoc, hv b hb, hw none (by simp)]
  exact map_prepend_append v w _

theorem Crosses.quotes {separator : Char} {depth : Int} {v w : List Char}
    (hv : Crosses separator depth v) (hw : Quotes separator depth w) :
    Quotes separator depth (v ++ w) := by
  obtain ⟨q, hq, depth', b', hread⟩ := hw
  refine ⟨q, hq, depth', b', fun b hb g => ?_⟩
  rw [List.append_assoc, hv b hb, hread none (by simp)]
  exact map_prepend_append v w _

theorem cut_quoted {separator q c : Char} {depth : Int} {b : Option Char}
    (hc : c = q → b = some '\\') (cs : List Char) :
    cut separator (some q) depth b (c :: cs) =
      (cut separator (some q) depth (some c) cs).map (.map (c :: ·) id) := by
  have hturn : turn separator (some q) depth b c = some (some q, depth) := by
    rw [turn, if_neg (fun h => h.2 (hc h.1))]
  rw [cut_cons, hturn]

theorem Quotes.append {separator : Char} {depth : Int} {w : List Char}
    (hw : Quotes separator depth w) {u : List Char} (hu : ∀ c ∈ u, c ≠ '\'' ∧ c ≠ '"') :
    Quotes separator depth (w ++ u) := by
  induction u generalizing w with
  | nil => rwa [List.append_nil]
  | cons c u ih =>
    rw [List.forall_mem_cons] at hu
    rw [List.append_cons]
    refine ih ?_ hu.2
    obtain ⟨q, hq, depth', b', hread⟩ := hw
    refine ⟨q, hq, depth', some c, fun b hb g => ?_⟩
    have hc : c ≠ q := by rcases hq with rfl | rfl <;> simp [hu.1]
    rw [List.append_assoc, hread b hb, List.singleton_append, cut_quoted (absurd · hc)]
    exact map_prepend_append w [c] _

theorem crosses_of_turn {separator c : Char} {depth : Int} (hc : c ≠ '=')
    (h : ∀ b, b ≠ some '=' → turn separator none depth b c = some (none, depth)) :
    Crosses separator depth [c] := by
  intro b hb g
  rw [List.singleton_append, cut_cons, h b hb]
  simp only
  rw [cut_before (e := none) (by simpa using hc) (by simp)]
  rfl

theorem crosses_plain {separator c : Char} {depth : Int} (hc : isPlainType c = true)
    (hs : depth = 0 → c ≠ separator) : Crosses separator depth [c] := by
  simp [isPlainType] at hc
  refine crosses_of_turn (by simp [hc]) fun b _ => ?_
  have hcut : ¬(c = separator ∧ depth = 0) := fun h => hs h.2 h.1
  simp [turn, opens, closes, hc, hcut]

theorem crosses_arrow (separator : Char) (hs : separator = '&' ∨ separator = '|') (depth : Int) :
    Crosses separator depth ['=', '>'] := by
  intro b hb g
  have hne : '=' ≠ separator := by rcases hs with rfl | rfl <;> decide
  have hequals : turn separator none depth b '=' = some (none, depth) := by
    simp [turn, opens, closes, hne]
  have harrow : turn separator none depth (some '=') '>' = some (none, depth) := by
    simp [turn, opens]
  rw [List.cons_append, List.singleton_append, cut_cons, hequals]
  simp only
  rw [cut_cons, harrow]
  simp only
  rw [cut_before (e := none) (by decide) (by simp)]
  cases cut separator none depth none g <;> rfl

/-! Strings -/

theorem cut_opening_quote {separator q : Char} (hq : q = '\'' ∨ q = '"') (depth : Int)
    (b : Option Char) (cs : List Char) :
    cut separator none depth b (q :: cs) =
      (cut separator (some q) depth (some q) cs).map (.map (q :: ·) id) := by
  have hturn : turn separator none depth b q = some (some q, depth) := by
    rcases hq with rfl | rfl <;> rfl
  rw [cut_cons, hturn]

theorem cut_spell {separator q : Char} (hq : q ≠ '\\') {ls : List Letter}
    (hls : ls.all (Letter.isAmong (· != q)) = true) (depth : Int) (b : Option Char)
    (cs : List Char) :
    cut separator (some q) depth b (spell ls ++ cs) =
      (cut separator (some q) depth ((spell ls).getLast?.or b) cs).map
        (.map (spell ls ++ ·) id) := by
  induction ls generalizing b with
  | nil =>
    simp only [spell_nil, List.nil_append, List.getLast?_nil, Option.none_or]
    cases cut separator (some q) depth b cs <;> rfl
  | cons l ls ih =>
    rw [List.all_cons, Bool.and_eq_true] at hls
    cases l with
    | plain c =>
      have hc : (c ≠ q ∧ c ≠ '\\') ∧ c ≠ '\n' := by simpa [Letter.isAmong] using hls.1
      have hlast : (spell ls).getLast?.or (some c) = (c :: spell ls).getLast?.or b := by
        cases h : (spell ls).getLast? <;> simp [List.getLast?_cons, h]
      rw [spell_cons, Letter.text, List.singleton_append, List.cons_append,
        cut_quoted (absurd · hc.1.1), ih hls.2, Option.map_map, hlast]
      rfl
    | escaped c =>
      have hlast : (spell ls).getLast?.or (some c) = ('\\' :: c :: spell ls).getLast?.or b := by
        cases h : (spell ls).getLast? <;> simp [List.getLast?_cons, h]
      rw [spell_cons, Letter.text, List.cons_append, List.singleton_append, List.cons_append,
        List.cons_append, cut_quoted (absurd · hq.symm), cut_quoted (fun _ => rfl), ih hls.2,
        Option.map_map, Option.map_map, hlast]
      rfl

theorem cut_quotedText (s : QuotedText) (separator : Char) (depth : Int) (b : Option Char)
    (cs : List Char) :
    cut separator none depth b (s.text ++ cs) =
      (cut separator (some s.quote) depth ((spell s.letters).getLast?.or (some s.quote))
        (s.quote :: cs)).map (.map (s.quote :: spell s.letters ++ ·) id) := by
  rw [QuotedText.text, QuotedText.body, List.cons_append, List.append_assoc, List.singleton_append,
    cut_opening_quote s.isQuote, cut_spell s.ne_backslash s.within, Option.map_map]
  rfl

theorem crosses_quotedText {s : QuotedText} (hs : s.isSettled = true) (separator : Char)
    (depth : Int) : Crosses separator depth s.text := by
  intro b _ g
  have hlast : (spell s.letters).getLast?.or (some s.quote) ≠ some '\\' := by
    have := s.ne_backslash
    rw [QuotedText.isSettled, bne_iff_ne] at hs
    cases h : (spell s.letters).getLast? <;> simp_all
  have hclose (b : Option Char) (hb : b ≠ some '\\') :
      cut separator (some s.quote) depth b (s.quote :: g) =
        (cut separator none depth none g).map (.map (s.quote :: ·) id) := by
    have hturn : turn separator (some s.quote) depth b s.quote = some (none, depth) :=
      if_pos ⟨rfl, hb⟩
    have hne : some s.quote ≠ some '=' := by rcases s.isQuote with h | h <;> rw [h] <;> decide
    rw [cut_cons, hturn]
    simp only
    rw [cut_before hne (e := none) (by simp)]
  rw [cut_quotedText, hclose _ hlast]
  exact map_prepend_append (s.quote :: spell s.letters) [s.quote] _

theorem quotes_quotedText {s : QuotedText} (hs : s.isSettled = false) (separator : Char)
    (depth : Int) : Quotes separator depth s.text := by
  refine ⟨s.quote, s.isQuote, depth, some s.quote, fun b _ g => ?_⟩
  have hlast : (spell s.letters).getLast?.or (some s.quote) = some '\\' := by
    rw [QuotedText.isSettled, bne_eq_false_iff_eq] at hs
    rw [hs, Option.some_or]
  rw [cut_quotedText, hlast, cut_quoted (fun _ => rfl)]
  exact map_prepend_append (s.quote :: spell s.letters) [s.quote] _

/-! Brackets -/

theorem cut_opening {o : Char} (ho : opens o = true) (separator : Char) (depth : Int)
    (b : Option Char) (cs : List Char) :
    cut separator none depth b (o :: cs) =
      (cut separator none (depth + 1) none cs).map (.map (o :: ·) id) := by
  simp only [opens, Bool.or_eq_true, decide_eq_true_eq] at ho
  have hturn : turn separator none depth b o = some (none, depth + 1) := by
    rcases ho with ((rfl | rfl) | rfl) | rfl <;> rfl
  have hne : some o ≠ some '=' := by rcases ho with ((rfl | rfl) | rfl) | rfl <;> decide
  rw [cut_cons, hturn]
  simp only
  rw [cut_before hne (e := none) (by simp)]

theorem cut_closing {c : Char} (hc : closes c = true) (separator : Char) (depth : Int)
    (cs : List Char) :
    cut separator none (depth + 1) none (c :: cs) =
      (cut separator none depth none cs).map (.map (c :: ·) id) := by
  simp only [closes, Bool.or_eq_true, decide_eq_true_eq] at hc
  have hturn : turn separator none (depth + 1) none c = some (none, depth) := by
    rcases hc with ((rfl | rfl) | rfl) | rfl <;> simp [turn, opens, closes]
  have hne : some c ≠ some '=' := by rcases hc with ((rfl | rfl) | rfl) | rfl <;> decide
  rw [cut_cons, hturn]
  simp only
  rw [cut_before hne (e := none) (by simp)]

theorem Crosses.enclosed {separator o c : Char} {depth : Int} {v : List Char}
    (hv : Crosses separator (depth + 1) v) (ho : opens o = true) (hc : closes c = true) :
    Crosses separator depth (o :: (v ++ [c])) := by
  intro b _ g
  rw [List.cons_append, cut_opening ho, List.append_assoc, hv none (by simp),
    List.singleton_append, cut_closing hc]
  cases cut separator none depth none g <;> simp [Prod.map]

theorem Quotes.opened {separator o : Char} {depth : Int} {v : List Char}
    (hv : Quotes separator (depth + 1) v) (ho : opens o = true) :
    Quotes separator depth (o :: v) := by
  obtain ⟨q, hq, depth', b', hread⟩ := hv
  refine ⟨q, hq, depth', b', fun b _ g => ?_⟩
  rw [List.cons_append, cut_opening ho, hread none (by simp), Option.map_map]
  rfl

theorem Quotes.enclosed {separator o c : Char} {depth : Int} {v : List Char}
    (hv : Quotes separator (depth + 1) v) (ho : opens o = true) (hc : closes c = true)
    {w : List Char} (hw : ∀ d ∈ w, d ≠ '\'' ∧ d ≠ '"') :
    Quotes separator depth (o :: (v ++ c :: w)) := by
  have hclose : c ≠ '\'' ∧ c ≠ '"' := by constructor <;> rintro rfl <;> cases hc
  exact (hv.opened ho).append (List.forall_mem_cons.2 ⟨hclose, hw⟩)

theorem enclosed_append (o c : Char) (v w : List Char) :
    o :: (v ++ c :: w) = (o :: (v ++ [c])) ++ w := by simp

theorem opens_opening (b : Bracket) : opens b.opening = true := by cases b <;> rfl

theorem closes_closing (b : Bracket) : closes b.closing = true := by cases b <;> rfl

theorem crosses_semicolon {separator : Char} (hs : separator = '&' ∨ separator = '|')
    (depth : Int) : Crosses separator depth [';'] := by
  have hne : ';' ≠ separator := by rcases hs with rfl | rfl <;> decide
  exact crosses_of_turn (by decide) fun b _ => by simp [turn, opens, closes, hne]

section TypeTexts

variable {separator : Char} (hs : separator = '&' ∨ separator = '|')
include hs

theorem crosses_typeText {a : TypeText} (ha : a.isValid = true) (hsettled : a.isSettled = true)
    {depth : Int} (hd : 0 ≤ depth) (hu : depth = 0 → a.isUndivided = true) :
    Crosses separator depth a.text := by
  induction a generalizing depth with
  | nil => exact .nil separator depth
  | char c a ih =>
    rw [TypeText.isValid, Bool.and_eq_true] at ha
    have hu' := TypeText.of_isUndivided_char hs hu
    exact (crosses_plain ha.1 fun hzero => (hu' hzero).1).append
      (ih ha.2 hsettled hd fun hzero => (hu' hzero).2)
  | semicolon a ih => exact (crosses_semicolon hs depth).append (ih ha hsettled hd hu)
  | arrow a ih => exact (crosses_arrow separator hs depth).append (ih ha hsettled hd hu)
  | quoted s a ih =>
    rw [TypeText.isSettled, TypeText.strings, List.all_cons, Bool.and_eq_true] at hsettled
    exact (crosses_quotedText hsettled.1 separator depth).append (ih ha hsettled.2 hd hu)
  | group b inner a ihinner ih =>
    rw [TypeText.isValid, Bool.and_eq_true] at ha
    rw [TypeText.isSettled, TypeText.strings, List.all_append, Bool.and_eq_true] at hsettled
    have hinner : Crosses separator (depth + 1) inner.text :=
      ihinner ha.1 hsettled.1 (by omega) (by omega)
    rw [TypeText.text, enclosed_append]
    exact (hinner.enclosed (opens_opening b) (closes_closing b)).append (ih ha.2 hsettled.2 hd hu)
  | generic inner a ihinner ih =>
    rw [TypeText.isValid, Bool.and_eq_true] at ha
    rw [TypeText.isSettled, TypeText.strings, List.all_append, Bool.and_eq_true] at hsettled
    have hinner : Crosses separator (depth + 1) inner.text :=
      ihinner ha.1 hsettled.1 (by omega) (by omega)
    rw [TypeText.text, enclosed_append]
    exact (hinner.enclosed rfl rfl).append (ih ha.2 hsettled.2 hd hu)

theorem quotes_bracketed {o c : Char} {whole inner a : TypeText} (hinner : inner.isValid = true)
    (ha : a.isValid = true) (ho : opens o = true) (hc : closes c = true)
    (htext : whole.text = o :: (inner.text ++ c :: a.text))
    (hstrings : whole.strings = inner.strings ++ a.strings) (hlast : whole.LastUnsettled)
    {depth : Int} (hd : 0 ≤ depth)
    (hinside : inner.LastUnsettled → Quotes separator (depth + 1) inner.text)
    (hbehind : a.LastUnsettled → Quotes separator depth a.text) :
    Quotes separator depth whole.text := by
  rw [htext]
  by_cases hnone : a.strings = []
  · have hquotes := hinside (hlast.of_append_nil hstrings hnone)
    exact hquotes.enclosed ho hc (TypeText.quote_not_mem ha hnone)
  · obtain ⟨hsettled, hlast⟩ := hlast.of_append hstrings hnone
    have hcrosses : Crosses separator (depth + 1) inner.text :=
      crosses_typeText hs hinner hsettled (by omega) (by omega)
    rw [enclosed_append]
    exact (hcrosses.enclosed ho hc).quotes (hbehind hlast)

theorem quotes_typeText {a : TypeText} (ha : a.isValid = true) (hlast : a.LastUnsettled)
    {depth : Int} (hd : 0 ≤ depth) (hu : depth = 0 → a.isUndivided = true) :
    Quotes separator depth a.text := by
  induction a generalizing depth with
  | nil => cases hlast.2
  | char c a ih =>
    rw [TypeText.isValid, Bool.and_eq_true] at ha
    have hu' := TypeText.of_isUndivided_char hs hu
    exact (crosses_plain ha.1 fun hzero => (hu' hzero).1).quotes
      (ih ha.2 hlast hd fun hzero => (hu' hzero).2)
  | semicolon a ih => exact (crosses_semicolon hs depth).quotes (ih ha hlast hd hu)
  | arrow a ih => exact (crosses_arrow separator hs depth).quotes (ih ha hlast hd hu)
  | quoted s a ih =>
    by_cases hnone : a.strings = []
    · have hs : s.isSettled = false := by
        have := hlast.2
        rwa [TypeText.isSettled, TypeText.strings, hnone, List.all_cons, List.all_nil,
          Bool.and_true] at this
      exact (quotes_quotedText hs separator depth).append (TypeText.quote_not_mem ha hnone)
    · have hstrings : (TypeText.quoted s a).strings = [s] ++ a.strings := rfl
      obtain ⟨hsettled, hlast⟩ := hlast.of_append hstrings hnone
      rw [List.all_cons, List.all_nil, Bool.and_true] at hsettled
      exact (crosses_quotedText hsettled separator depth).quotes (ih ha hlast hd hu)
  | group b inner a ihinner ih =>
    rw [TypeText.isValid, Bool.and_eq_true] at ha
    exact quotes_bracketed hs ha.1 ha.2 (opens_opening b) (closes_closing b) rfl rfl hlast hd
      (fun hin => ihinner ha.1 hin (by omega) (by omega)) fun hlast => ih ha.2 hlast hd hu
  | generic inner a ihinner ih =>
    rw [TypeText.isValid, Bool.and_eq_true] at ha
    exact quotes_bracketed hs ha.1 ha.2 rfl rfl rfl rfl hlast hd
      (fun hin => ihinner ha.1 hin (by omega) (by omega)) fun hlast => ih ha.2 hlast hd hu

end TypeTexts

/-! Members -/

/-- A type that is one member of an intersection or a union, without blanks at its ends. -/
structure Member where
  type : TypeText
  valid : type.isValid = true := by decide
  undivided : type.isUndivided = true := by decide
  begins : type.text.head?.any (!Text.isBlank ·) = true := by decide
  ends : type.text.getLast?.any (!Text.isBlank ·) = true := by decide

def Member.text (m : Member) : List Char := m.type.text

inductive Junction where
  | and
  | or
deriving DecidableEq, Repr

def Junction.sign : Junction → Char
  | and => '&'
  | or => '|'

def joined (first : Member) : List (Junction × Member) → List Char
  | [] => first.text
  | (j, m) :: more => first.text ++ ' ' :: j.sign :: ' ' :: joined m more

theorem joined_append (first : Member) (more : List (Junction × Member)) :
    ∃ w, joined first more = first.text ++ w := by
  cases more with
  | nil => exact ⟨[], (List.append_nil _).symm⟩
  | cons x more => exact ⟨_, rfl⟩

theorem joined_begins (first : Member) (more : List (Junction × Member)) :
    (joined first more).head?.any (!Text.isBlank ·) = true := by
  obtain ⟨w, hw⟩ := joined_append first more
  obtain ⟨c, hc, hblank⟩ := (Option.any_eq_true _ _).1 first.begins
  rw [hw, Member.text, List.head?_append, hc]
  simpa using hblank

theorem joined_ends (first : Member) (more : List (Junction × Member)) :
    (joined first more).getLast?.any (!Text.isBlank ·) = true := by
  induction more generalizing first with
  | nil => exact first.ends
  | cons x more ih =>
    obtain ⟨c, hc, hblank⟩ := (Option.any_eq_true _ _).1 (ih x.2)
    simp only [joined, List.getLast?_append, List.getLast?_cons, hc]
    simpa using hblank

theorem all_of_any {p : Char → Bool} {c : Option Char} (h : c.any p = true) : c.all p = true := by
  cases c <;> simp_all

theorem joined_trimmed (first : Member) (more : List (Junction × Member)) :
    Text.Trimmed (joined first more) :=
  ⟨all_of_any (joined_begins first more), all_of_any (joined_ends first more)⟩

theorem crosses_member {separator : Char} (hs : separator = '&' ∨ separator = '|') {m : Member}
    (hm : m.type.isSettled = true) : Crosses separator 0 m.text :=
  crosses_typeText hs m.valid hm (Int.le_refl 0) fun _ => m.undivided

theorem crosses_blank {separator : Char} (hs : separator = '&' ∨ separator = '|') :
    Crosses separator 0 [' '] :=
  crosses_plain (by decide) fun _ => by rcases hs with rfl | rfl <;> decide

theorem cut_joined_eq_none_iff {first : Member} (hfirst : first.type.isSettled = true)
    {more : List (Junction × Member)} (hmore : ∀ m ∈ more, m.2.type.isSettled = true) :
    cut '|' none 0 none (joined first more) = none ↔ ∀ m ∈ more, m.1 = .and := by
  induction more generalizing first with
  | nil =>
    have hread := crosses_member (.inr rfl) hfirst none (by simp) []
    rw [List.append_nil] at hread
    simp [joined, hread, cut]
  | cons x more ih =>
    obtain ⟨j, m⟩ := x
    rw [List.forall_mem_cons] at hmore
    have hblank : Crosses '|' 0 [' '] := crosses_blank (.inr rfl)
    rw [List.forall_mem_cons, joined]
    cases j with
    | or =>
      have hcut : cut '|' none 0 none (first.text ++ ' ' :: '|' :: ' ' :: joined m more) ≠ none := by
        rw [List.append_cons, (crosses_member (.inr rfl) hfirst).append hblank none (by simp)]
        simp [cut, opens, closes]
      exact ⟨fun h => absurd h hcut, fun h => Junction.noConfusion h.1⟩
    | and =>
      have hsign : Crosses '|' 0 ['&'] := crosses_plain (by decide) fun _ => by decide
      have hgap := hblank.append (hsign.append hblank)
      have hread := (crosses_member (.inr rfl) hfirst).append hgap none (by simp) (joined m more)
      rw [List.append_assoc] at hread
      rw [show first.text ++ ' ' :: Junction.and.sign :: ' ' :: joined m more =
        first.text ++ ([' '] ++ (['&'] ++ [' ']) ++ joined m more) from rfl, hread,
        Option.map_eq_none_iff, ih hmore.1 hmore.2]
      simp

theorem cut_joined_and {first second : Member} (hfirst : first.type.isSettled = true)
    (more : List (Junction × Member)) :
    cut '&' none 0 none (joined first ((.and, second) :: more)) =
      some (first.text ++ [' '], ' ' :: joined second more) := by
  have hread := (crosses_member (.inl rfl) hfirst).append (crosses_blank (.inl rfl)) none (by simp)
    ('&' :: ' ' :: joined second more)
  rw [← List.append_cons] at hread
  refine hread.trans ?_
  simp [cut, opens, closes]

theorem kept_joined {first : Member} {junction : Junction} {second : Member}
    {more : List (Junction × Member)} (hfirst : first.type.isSettled = true)
    (hsecond : second.type.isSettled = true)
    (hmore : ∀ m ∈ more, m.2.type.isSettled = true) :
    kept (some (String.ofList (joined first ((junction, second) :: more)))) =
      if junction = .and ∧ ∀ m ∈ more, m.1 = .and then joined second more else [] := by
  have hall : ∀ m ∈ (junction, second) :: more, m.2.type.isSettled = true :=
    List.forall_mem_cons.2 ⟨hsecond, hmore⟩
  have hbar := cut_joined_eq_none_iff hfirst hall
  rw [List.forall_mem_cons] at hbar
  rw [kept, String.toList_ofList, cutTop, cutTop]
  split_ifs with hand
  · obtain ⟨rfl, -⟩ := id hand
    rw [hbar.2 hand, cut_joined_and hfirst]
    change Text.trim ([' '] ++ joined second more) = joined second more
    rw [Text.trim_append_right (List.all_eq_true.1 (by decide)), (joined_trimmed second more).trim]
  · obtain ⟨found, hfound⟩ := Option.ne_none_iff_exists'.1 (mt hbar.1 hand)
    rw [hfound]

theorem length_kept_lt {first second : Member} (hfirst : first.type.LastUnsettled)
    (more : List (Junction × Member)) :
    (kept (some (String.ofList (joined first ((.and, second) :: more))))).length <
      (joined second more).length := by
  have hpos : 0 < (joined second more).length := by
    have := joined_begins second more
    cases h : joined second more with
    | nil => rw [h] at this; cases this
    | cons c cs => simp
  obtain ⟨q, hq, depth, b, hread⟩ := quotes_typeText (.inl rfl) first.valid hfirst (Int.le_refl 0)
    fun _ => first.undivided
  have hblank : ' ' ≠ q := by rcases hq with rfl | rfl <;> decide
  have hsign : '&' ≠ q := by rcases hq with rfl | rfl <;> decide
  -- the ampersand behind the first member is a part of the string
  have hcut : cut '&' none 0 none (joined first ((.and, second) :: more)) =
      (cut '&' (some q) depth (some ' ') (joined second more)).map
        (.map (first.text ++ ' ' :: '&' :: ' ' :: ·) id) := by
    refine (hread none (by simp) _).trans ?_
    rw [Junction.sign, cut_quoted (absurd · hblank), cut_quoted (absurd · hsign),
      cut_quoted (absurd · hblank), Option.map_map, Option.map_map, Option.map_map]
    rfl
  rw [kept, String.toList_ofList, cutTop, cutTop, hcut]
  cases cut '|' none 0 none (joined first ((.and, second) :: more)) with
  | some found => exact hpos
  | none =>
    cases hfound : cut '&' (some q) depth (some ' ') (joined second more) with
    | none => exact hpos
    | some found =>
      have htext := congrArg List.length (cut_text hfound)
      rw [List.length_append, List.length_cons] at htext
      have htrim := (Text.trim_infix found.2).length_le
      change (Text.trim found.2).length < _
      omega

theorem withMembers_inj {name : String} {members others : List Char} :
    withMembers name members = withMembers name others ↔ members = others := by
  refine ⟨fun h => ?_, fun h => by rw [h]⟩
  have hlist := congrArg String.toList h
  by_cases hm : members = [] <;> by_cases ho : others = []
  · rw [hm, ho]
  · have := congrArg List.length hlist
    rw [withMembers_toList name ho, withMembers, if_pos hm] at this
    simp at this
  · have := congrArg List.length hlist
    rw [withMembers_toList name hm, withMembers, if_pos ho] at this
    simp at this
  · rw [withMembers_toList name hm, withMembers_toList name ho] at hlist
    simpa using hlist

theorem withMembers_joined (name : String) (first : Member) (more : List (Junction × Member)) :
    withMembers name (joined first more) =
      ofName name ++ " & " ++ String.ofList (joined first more) := by
  have hne : joined first more ≠ [] := by
    intro h
    have := joined_begins first more
    rw [h] at this
    cases this
  rw [withMembers, if_neg hne]

/-- Let all strings be settled, but for the last one in the first member. The other members of an
intersection are kept as they are if and only if that one is settled as well, and if it is, nothing
is kept where a bar separates members. -/
theorem members_kept {first second : Member} {junction : Junction}
    {more : List (Junction × Member)}
    (hothers : first.type.strings.dropLast.all QuotedText.isSettled = true)
    (hsecond : second.type.isSettled = true)
    (hmore : ∀ m ∈ more, m.2.type.isSettled = true) (name : String) :
    ((junction = .and ∧ ∀ m ∈ more, m.1 = .and) →
      (merge (some (String.ofList (joined first ((junction, second) :: more)))) name =
          ofName name ++ " & " ++ String.ofList (joined second more) ↔
        first.type.isSettled = true)) ∧
    (first.type.isSettled = true → ¬(junction = .and ∧ ∀ m ∈ more, m.1 = .and) →
      merge (some (String.ofList (joined first ((junction, second) :: more)))) name =
        ofName name) := by
  constructor
  · rintro ⟨rfl, hall⟩
    rw [merge_eq, ← withMembers_joined, withMembers_inj]
    constructor
    · intro hkept
      by_contra hfirst
      have hlast : first.type.LastUnsettled := ⟨hothers, Bool.not_eq_true _ ▸ hfirst⟩
      exact absurd (congrArg List.length hkept) (length_kept_lt hlast more).ne
    · intro hfirst
      rw [kept_joined hfirst hsecond hmore, if_pos ⟨rfl, hall⟩]
  · intro hfirst hbar
    rw [merge_eq, kept_joined hfirst hsecond hmore, if_neg hbar, withMembers, if_pos rfl]

def stringProperty (letters : List Letter)
    (h : letters.all (Letter.isAmong (· != '\'')) = true := by decide) : TypeText :=
  .group .curly (.plain "s: ".toList (.quoted ⟨'\'', letters, QuotedText.isQuote_apostrophe, h⟩ .nil))
    .nil

def escapedMember : Member where
  type := stringProperty [.escaped '\'', .plain ' ', .plain '&', .plain ' ', .escaped '\\', .plain '|']

def genericMember : Member where
  type := .plain ['B'] (.generic (.plain "c | d".toList .nil) .nil)

def arrowMember : Member where
  type := .group .round (.plain "e: F & G".toList .nil)
    (.plain [' '] (.arrow (.plain " h".toList (.group .square .nil .nil))))

theorem members_kept_escaped :
    escapedMember.type.strings.dropLast.all QuotedText.isSettled = true ∧
      genericMember.type.isSettled = true ∧ arrowMember.type.isSettled = true ∧
      escapedMember.type.isSettled = true ∧
      merge (some "\x7bs: '\\' & \\\\|'\x7d & B<c | d> & (e: F & G) => h[]") "N" =
        "queries.N & B<c | d> & (e: F & G) => h[]" ∧
      merge (some "\x7bs: '\\' & \\\\|'\x7d & B<c | d> | (e: F & G) => h[]") "N" = "queries.N" := by
  have hothers : escapedMember.type.strings.dropLast.all QuotedText.isSettled = true := by decide
  have hgeneric : genericMember.type.isSettled = true := by decide
  have harrow : arrowMember.type.isSettled = true := by decide
  have hescaped : escapedMember.type.isSettled = true := by decide
  have hmore (j : Junction) : ∀ m ∈ [(j, arrowMember)], m.2.type.isSettled = true :=
    List.forall_mem_singleton.2 harrow
  have hand : Junction.and = .and ∧ ∀ m ∈ [(Junction.and, arrowMember)], m.1 = .and := by decide
  have hor : ¬(Junction.and = .and ∧ ∀ m ∈ [(Junction.or, arrowMember)], m.1 = .and) := by decide
  have hkept := ((members_kept hothers hgeneric (hmore .and) "N").1 hand).2 hescaped
  have hdropped := (members_kept hothers hgeneric (hmore .or) "N").2 hescaped hor
  have hintersection : String.ofList (joined escapedMember
      [(.and, genericMember), (.and, arrowMember)]) =
        "\x7bs: '\\' & \\\\|'\x7d & B<c | d> & (e: F & G) => h[]" := by decide +kernel
  have hunion : String.ofList (joined escapedMember
      [(.and, genericMember), (.or, arrowMember)]) =
        "\x7bs: '\\' & \\\\|'\x7d & B<c | d> | (e: F & G) => h[]" := by decide +kernel
  have hresult : ofName "N" ++ " & " ++ String.ofList (joined genericMember [(.and, arrowMember)]) =
      "queries.N & B<c | d> & (e: F & G) => h[]" := by decide +kernel
  rw [hintersection, hresult] at hkept
  rw [hunion] at hdropped
  exact ⟨hothers, hgeneric, harrow, hescaped, hkept, hdropped.trans (by decide +kernel)⟩

def backslashMember : Member where
  type := stringProperty [.escaped '\\']

def namedMember : Member where
  type := .plain "Other".toList .nil

theorem members_lost_behind_backslash :
    String.ofList (joined backslashMember [(.and, namedMember)]) = "\x7bs: '\\\\'\x7d & Other" ∧
      merge (some "\x7bs: '\\\\'\x7d & Other") "N" = "queries.N" ∧
      ofName "N" ++ " & " ++ String.ofList (joined namedMember []) = "queries.N & Other" := by
  decide +kernel

/-! Merging again -/

/-- Merging again under another name is merging once under that name, whatever was merged, and the
name can be read back. -/
theorem merge_absorbs (existing : Option String) {name : String} (hn : isIdentifier name = true)
    (later : String) :
    merge (some (merge existing name)) later = merge existing later ∧
      name? (merge existing name) = some name :=
  ⟨merge_merge existing hn later, name?_merge existing hn⟩

theorem merge_absorbs_unbalanced :
    isIdentifier "Old" = true ∧
      merge (some (merge (some "a> & \u00a0=> (b & 'c\\") "Old")) "New" =
        merge (some "a> & \u00a0=> (b & 'c\\") "New" ∧
      name? (merge (some "a> & \u00a0=> (b & 'c\\") "Old") = some "Old" := by
  have hn : isIdentifier "Old" = true := by decide
  exact ⟨hn, merge_absorbs _ hn "New"⟩

end Reference
end RowTypes
