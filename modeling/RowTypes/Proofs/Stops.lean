import Mathlib.Tactic.SplitIfs
import RowTypes.Proofs.TagText

/-! The scan for tags, one step at a time. A step reads a comment, a string, a regular
expression, a template literal, a word, a tag or a single character. -/

namespace RowTypes.Tag

structure Reading where
  tag : Option Tag
  before : Code.Before
  place : Place
  rest : List Char

def next (before : Code.Before) (p : Place) (c : Char) (cs : List Char) :
    Except Unterminated Reading :=
  if c = '/' ∧ cs.head? = some '/' then
    .ok ⟨none, before, p.after ((c :: cs).takeWhile (· ≠ '\n')), (c :: cs).dropWhile (· ≠ '\n')⟩
  else if c = '/' ∧ cs.head? = some '*' then
    (Code.skim [.blockComment p.line] (p.after ['/', '*']) cs.tail).map fun k =>
      ⟨none, before, k.place, k.rest⟩
  else if c = '/' ∧ before ≠ .operand then
    (Code.skim [.regex p.line false] (p.next c) cs).map fun k =>
      ⟨none, .operator, k.place.after (k.rest.takeWhile Code.continuesWord),
        k.rest.dropWhile Code.continuesWord⟩
  else if c = '\'' ∨ c = '"' then
    (Code.skim [.quoted p.line c] (p.next c) cs).map fun k => ⟨none, .operand, k.place, k.rest⟩
  else if c = '\x60' then
    (Template.cook p.line 0 (p.next c) cs).map fun t => ⟨none, .operand, t.stop, t.rest⟩
  else if Code.startsWord c then
    let name := c :: cs.takeWhile Code.continuesWord
    let behind := p.after name
    let rest := cs.dropWhile Code.continuesWord
    match if name = word then heading? behind rest else none with
    | none => .ok ⟨none, .operand, behind, rest⟩
    | some k =>
      (Template.cook k.template.place.line 0 (k.template.place.next '\x60')
          k.template.rest.tail).map fun t =>
        ⟨some ⟨behind.offset, k.typeArguments, ⟨k.template.place.offset, t.stop.offset⟩, p.line,
          String.ofList t.text, t.params⟩, .operand, t.stop, t.rest⟩
  else .ok ⟨none, before.read c, p.next c, cs⟩

def Reading.scan (r : Reading) : Except Unterminated (List Tag) :=
  (scanFrom r.before r.place r.rest).map (r.tag.toList ++ ·)

@[simp] theorem Reading.scan_none (before : Code.Before) (p : Place) (cs : List Char) :
    Reading.scan ⟨none, before, p, cs⟩ = scanFrom before p cs := by
  unfold Reading.scan
  cases scanFrom before p cs <;> rfl

theorem Reading.scan_some (t : Tag) (before : Code.Before) (p : Place) (cs : List Char) :
    Reading.scan ⟨some t, before, p, cs⟩ = (scanFrom before p cs).map (t :: ·) := rfl

theorem scanFrom_cons (before : Code.Before) (p : Place) (c : Char) (cs : List Char) :
    scanFrom before p (c :: cs) = (next before p c cs).bind Reading.scan := by
  rw [scanFrom.eq_def, next]
  simp only [apply_ite (Except.bind · Reading.scan)]
  refine ite_congr rfl (fun _ => ?line) fun _ => ite_congr rfl (fun _ => ?comment) fun _ =>
    ite_congr rfl (fun _ => ?regex) fun _ => ite_congr rfl (fun _ => ?string) fun _ =>
    ite_congr rfl (fun _ => ?template) fun _ => ite_congr rfl (fun _ => ?word) fun _ => ?other
  case line | other => exact (Reading.scan_none ..).symm
  case comment | regex | string | template =>
    split
    next h => rw [h]; rfl
    next h => rw [h]; exact (Reading.scan_none ..).symm
  case word =>
    split_ifs
    case pos =>
      split
      next h => rw [h]; exact (Reading.scan_none ..).symm
      next h =>
        rw [h]
        split
        next h' => simp only [h']; rfl
        next h' => simp only [h']; rfl
    case neg => exact (Reading.scan_none ..).symm

theorem scanFrom_eq_ok {before : Code.Before} {p : Place} {c : Char} {cs : List Char}
    {tags : List Tag} (h : scanFrom before p (c :: cs) = .ok tags) :
    ∃ r tags', next before p c cs = .ok r ∧ scanFrom r.before r.place r.rest = .ok tags' ∧
      tags = r.tag.toList ++ tags' := by
  rw [scanFrom_cons] at h
  cases hr : next before p c cs with
  | error e => rw [hr] at h; cases h
  | ok r =>
    rw [hr] at h
    change (scanFrom r.before r.place r.rest).map (r.tag.toList ++ ·) = .ok tags at h
    cases hs : scanFrom r.before r.place r.rest with
    | error e => rw [hs] at h; cases h
    | ok tags' => rw [hs] at h; cases h; exact ⟨r, tags', rfl, hs, rfl⟩

/-! What a step looks at beyond the text that it reads -/

structure Look where
  endsLine : Bool
  continuesWord : Bool
  makesComment : Bool
  opensTag : Bool

def look (cs : List Char) : Look where
  endsLine := cs.head?.all (· = '\n')
  continuesWord := cs.head?.any Code.continuesWord
  makesComment := cs.head?.any fun c => c = '/' || c = '*'
  opensTag := (cs.dropWhile Code.isBlank).head?.any fun c => c = '<' || c = '\x60'

theorem look_append (w : List Char) {f g : List Char} (h : look f = look g) :
    look (w ++ f) = look (w ++ g) := by
  cases w with
  | nil => exact h
  | cons c w =>
    have hopen : (look ((c :: w) ++ f)).opensTag = (look ((c :: w) ++ g)).opensTag := by
      simp only [look, List.dropWhile_append]
      split
      · exact congrArg Look.opensTag h
      · rename_i hne
        rw [List.isEmpty_iff] at hne
        obtain ⟨d, w', hd⟩ := List.exists_cons_of_ne_nil hne
        simp [hd]
    simp only [look, Look.mk.injEq] at hopen ⊢
    exact ⟨rfl, rfl, rfl, hopen⟩

theorem head?_ne_of_look {f : List Char} (h : (look f).makesComment = false) :
    f.head? ≠ some '/' ∧ f.head? ≠ some '*' := by
  constructor <;> intro he <;> simp [look, he] at h

theorem look_of_head?_ne {f : List Char} (hs : f.head? ≠ some '/') (ht : f.head? ≠ some '*') :
    (look f).makesComment = false := by
  cases f <;> simp_all [look]

theorem look_of_all {f : List Char} (h : f.head?.all (!Code.continuesWord ·) = true) :
    (look f).continuesWord = false := by
  cases f <;> simp_all [look]

theorem all_of_look {f : List Char} (h : (look f).continuesWord = false) :
    f.head?.all (!Code.continuesWord ·) = true := by
  cases f <;> simp_all [look]

theorem dropWhile_heading {t : HeadingText} (ht : t.Valid) (f : List Char) :
    (look (t.text ++ '\x60' :: f)).opensTag = true := by
  obtain ⟨gap, args⟩ := t
  cases args with
  | none =>
    have := dropWhile_append_stop (f := '\x60' :: f) ht.blank rfl
    simp [look, HeadingText.text, this]
  | some a =>
    obtain ⟨args', ha⟩ := typeArguments?_head (ht.args a rfl).closed
    have := dropWhile_append_stop (f := '<' :: (args' ++ (a.gap ++ '\x60' :: f))) ht.blank rfl
    simp [look, HeadingText.text, ha, this]

theorem heading?_eq_none (p : Place) {f : List Char} (h : (look f).opensTag = false) :
    heading? p f = none := by
  cases hk : heading? p f with
  | none => rfl
  | some k =>
    obtain ⟨t, g, ht, rfl, -⟩ := heading?_eq_some hk
    rw [dropWhile_heading ht] at h
    cases h

theorem heading?_place {p p' : Place} {f : List Char} (h : heading? p f = none) :
    heading? p' f = none := by
  cases hk : heading? p' f with
  | none => rfl
  | some k =>
    obtain ⟨t, g, ht, rfl, -⟩ := heading?_eq_some hk
    rw [heading?_text ht] at h
    cases h

/-- Whether the word `sql` comes next, in front of an angle bracket though no tag begins. -/
def opensWord (cs : List Char) : Bool :=
  let rest := cs.dropWhile Code.continuesWord
  cs.takeWhile Code.continuesWord = word && (heading? .start rest).isNone &&
    (rest.dropWhile Code.isBlank).head? = some '<'

/-! The pieces that a step reads, each in front of any text that lets it end there -/

section Pieces

variable {before : Code.Before} {f : List Char}

theorem next_lineComment {w : List Char} (hw : '\n' ∉ w) (hf : (look f).endsLine = true)
    (p : Place) :
    next before p '/' ('/' :: w ++ f) = .ok ⟨none, before, p.after ('/' :: '/' :: w), f⟩ := by
  have hw' : ∀ c ∈ '/' :: '/' :: w, (!decide (c = '\n')) = true := by
    intro c hc
    simp only [List.mem_cons] at hc
    rcases hc with rfl | rfl | hc
    · rfl
    · rfl
    · have : c ≠ '\n' := fun h => hw (h ▸ hc)
      simp [this]
  have hf' : f.head?.all (fun c => !(!decide (c = '\n'))) = true := by simpa [look] using hf
  have htake := takeWhile_append_stop hw' hf'
  have hdrop := dropWhile_append_stop hw' hf'
  simp only [List.cons_append] at htake hdrop
  simp only [next, List.cons_append, List.head?_cons, and_self, if_true, decide_not, htake, hdrop]

theorem next_blockComment {body : List Char} (hbody : Code.Closes [.blockComment 0] body)
    (p : Place) :
    next before p '/' ('*' :: body ++ f) = .ok ⟨none, before, p.after ('/' :: '*' :: body), f⟩ := by
  have h := hbody [.blockComment p.line] (p.after ['/', '*']) f rfl
  simp [next, Except.map] at h ⊢
  rw [h]

theorem next_regex {body flags : List Char} (hb : before ≠ .operand)
    (hbody : Code.Closes [.regex 0 false] body)
    (hc : (look (body ++ flags ++ f)).makesComment = false)
    (hflags : ∀ c ∈ flags, Code.continuesWord c = true) (hf : (look f).continuesWord = false)
    (p : Place) :
    next before p '/' (body ++ flags ++ f) =
      .ok ⟨none, .operator, p.after ('/' :: (body ++ flags)), f⟩ := by
  have h := hbody [.regex p.line false] (p.next '/') (flags ++ f) rfl
  have hf' := all_of_look hf
  have htake := takeWhile_append_stop hflags hf'
  have hdrop := dropWhile_append_stop hflags hf'
  obtain ⟨hsl, hst⟩ := head?_ne_of_look hc
  rw [next, if_neg (fun h => hsl h.2), if_neg (fun h => hst h.2), if_pos ⟨rfl, hb⟩,
    List.append_assoc, h]
  simp [Except.map, htake, hdrop]

theorem next_quoted {c : Char} {body : List Char} (hc : c = '\'' ∨ c = '"')
    (hbody : Code.Closes [.quoted 0 c] body) (p : Place) :
    next before p c (body ++ f) = .ok ⟨none, .operand, p.after (c :: body), f⟩ := by
  have h := hbody [.quoted p.line c] (p.next c) f rfl
  rcases hc with rfl | rfl <;> simp [next, h, Except.map]

theorem next_template {body text : List Char} {count : Nat}
    (hbody : Template.Cooks 0 body text count) (p : Place) :
    next before p '\x60' (body ++ f) = .ok ⟨none, .operand, p.after ('\x60' :: body), f⟩ := by
  have h := hbody p.line (p.next '\x60') f
  simp [next, h, Except.map]

theorem startsWord_ne {c : Char} (hc : Code.startsWord c = true) :
    c ≠ '/' ∧ ¬(c = '\'' ∨ c = '"') ∧ c ≠ '\x60' := by
  refine ⟨?_, ?_, ?_⟩
  · rintro rfl
    cases hc
  · rintro (rfl | rfl) <;> cases hc
  · rintro rfl
    cases hc

theorem next_startsWord {c : Char} (hc : Code.startsWord c = true) (p : Place) (cs : List Char) :
    next before p c cs =
      match if c :: cs.takeWhile Code.continuesWord = word then
          heading? (p.after (c :: cs.takeWhile Code.continuesWord))
            (cs.dropWhile Code.continuesWord)
        else none with
      | none => .ok ⟨none, .operand, p.after (c :: cs.takeWhile Code.continuesWord),
          cs.dropWhile Code.continuesWord⟩
      | some k =>
        (Template.cook k.template.place.line 0 (k.template.place.next '\x60')
            k.template.rest.tail).map fun t =>
          ⟨some ⟨(p.after (c :: cs.takeWhile Code.continuesWord)).offset, k.typeArguments,
            ⟨k.template.place.offset, t.stop.offset⟩, p.line, String.ofList t.text, t.params⟩,
            .operand, t.stop, t.rest⟩ := by
  obtain ⟨h1, h2, h3⟩ := startsWord_ne hc
  rw [next, if_neg (by simp [h1]), if_neg (by simp [h1]), if_neg (by simp [h1]), if_neg h2,
    if_neg h3, if_pos hc]

theorem next_word {c : Char} {w : List Char} (hc : Code.startsWord c = true)
    (hw : ∀ d ∈ w, Code.continuesWord d = true) (hf : (look f).continuesWord = false)
    (hsql : c :: w = word → heading? .start f = none) (p : Place) :
    next before p c (w ++ f) = .ok ⟨none, .operand, p.after (c :: w), f⟩ := by
  have hf' := all_of_look hf
  rw [next_startsWord hc, takeWhile_append_stop hw hf', dropWhile_append_stop hw hf']
  by_cases h : c :: w = word
  · rw [if_pos h, heading?_place (hsql h)]
  · rw [if_neg h]

theorem continuesWord_of_isBlank {c : Char} (h : Code.isBlank c = true) :
    Code.continuesWord c = false := by
  simp only [Code.isBlank, Bool.or_eq_true, decide_eq_true_eq] at h
  rcases h with (((rfl | rfl) | rfl) | rfl) | rfl <;> decide

theorem heading_head {t : HeadingText} (ht : t.Valid) (f : List Char) :
    (t.text ++ '\x60' :: f).head?.all (!Code.continuesWord ·) = true := by
  obtain ⟨gap, args⟩ := t
  cases gap with
  | nil =>
    cases args with
    | none => rfl
    | some a =>
      obtain ⟨args', ha⟩ := typeArguments?_head (ht.args a rfl).closed
      simp only [HeadingText.text, ha]
      rfl
  | cons c gap =>
    have hc := continuesWord_of_isBlank (ht.blank c (by simp))
    cases args <;> simp [HeadingText.text, hc]

theorem next_tag {t : TagText} (ht : t.Valid) (p : Place) (f : List Char) :
    next before p 's' ('q' :: 'l' :: (t.heading ++ '\x60' :: t.body) ++ f) =
      .ok ⟨some (t.tag p), .operand, p.after t.text, f⟩ := by
  have htail : 'q' :: 'l' :: (t.heading ++ '\x60' :: t.body) ++ f =
      ['q', 'l'] ++ (t.toHeadingText.text ++ '\x60' :: (t.body ++ f)) := by
    simp [TagText.heading]
  have hw : ∀ d ∈ ['q', 'l'], Code.continuesWord d = true := List.all_eq_true.1 (by decide)
  have hf := heading_head ht.heading (t.body ++ f)
  rw [htail, next_startsWord (by decide), takeWhile_append_stop hw hf,
    dropWhile_append_stop hw hf, if_pos (show ['s', 'q', 'l'] = word from rfl), heading?_text ht.heading]
  simp only [List.tail_cons, ht.cooked _ _ f]
  simp [Except.map, TagText.tag, TagText.text, TagText.heading, word]

theorem next_other {c : Char} (hc : c = '/' → before = .operand ∧ (look f).makesComment = false)
    (hq : ¬(c = '\'' ∨ c = '"')) (ht : c ≠ '\x60') (hw : Code.startsWord c = false) (p : Place) :
    next before p c f = .ok ⟨none, before.read c, p.next c, f⟩ := by
  have hsl : ¬(c = '/' ∧ f.head? = some '/') := fun h => (head?_ne_of_look (hc h.1).2).1 h.2
  have hst : ¬(c = '/' ∧ f.head? = some '*') := fun h => (head?_ne_of_look (hc h.1).2).2 h.2
  have hop : ¬(c = '/' ∧ before ≠ .operand) := fun h => h.2 (hc h.1).1
  rw [next, if_neg hsl, if_neg hst, if_neg hop, if_neg hq, if_neg ht, if_neg (by simp [hw])]

end Pieces

theorem look_of_heading?_eq_none {p : Place} {f : List Char} (hk : heading? p f = none)
    (h : (f.dropWhile Code.isBlank).head? ≠ some '<') : (look f).opensTag = false := by
  cases ho : (f.dropWhile Code.isBlank).head? with
  | none => simp [look, ho]
  | some c =>
    by_cases hc : c = '\x60'
    · subst hc
      obtain ⟨g, hg⟩ := List.head?_eq_some_iff.1 ho
      have hf : f = HeadingText.text ⟨f.takeWhile Code.isBlank, none⟩ ++ '\x60' :: g := by
        rw [HeadingText.text, ← hg, List.takeWhile_append_dropWhile]
      rw [hf, heading?_text ⟨of_mem_takeWhile, by simp⟩] at hk
      cases hk
    · have : c ≠ '<' := fun hc => h (ho.trans (congrArg some hc))
      simp [look, ho, hc, this]

theorem next_startsWord_cases {before : Code.Before} {p : Place} {c : Char} {cs : List Char}
    {r : Reading} (hc : Code.startsWord c = true) (h : next before p c cs = .ok r) :
    (∃ t : TagText, t.Valid ∧ c :: cs = t.text ++ r.rest ∧
      r = ⟨some (t.tag p), .operand, p.after t.text, r.rest⟩) ∨
    (r = ⟨none, .operand, p.after (c :: cs.takeWhile Code.continuesWord),
        cs.dropWhile Code.continuesWord⟩ ∧
      (c :: cs.takeWhile Code.continuesWord = word →
        heading? .start (cs.dropWhile Code.continuesWord) = none)) := by
  have hcs := List.takeWhile_append_dropWhile (p := Code.continuesWord) (l := cs)
  rw [next_startsWord hc] at h
  split at h
  · rename_i hk
    right
    cases h
    refine ⟨rfl, ?_⟩
    intro hn
    rw [if_pos hn] at hk
    exact heading?_place hk
  · rename_i k hk
    left
    split_ifs at hk with hn
    rw [hn] at hk h
    obtain ⟨t, ht, rfl⟩ := map_eq_ok.1 h
    obtain ⟨head, g, hv, hrest, rfl⟩ := heading?_eq_some hk
    obtain ⟨body, rfl, hp, hcooks⟩ := Template.cook_closed ht
    refine ⟨⟨head, body, t.text, t.params⟩, ⟨hv, hcooks⟩, ?_, ?_⟩
    · rw [← hcs, hrest, ← List.cons_append, hn]
      simp [TagText.text, TagText.heading]
    · rw [hp]
      simp [TagText.tag, TagText.text, TagText.heading]

/-- A step finds a tag, and reads just its text. Or it reads a piece `c :: w` without one, which
would be read in front of any other text that looks the same. -/
theorem next_cases {before : Code.Before} {p : Place} {c : Char} {cs : List Char} {r : Reading}
    (h : next before p c cs = .ok r) :
    (∃ t : TagText, t.Valid ∧ c :: cs = t.text ++ r.rest ∧
      r = ⟨some (t.tag p), .operand, p.after t.text, r.rest⟩) ∨
    (∃ w, cs = w ++ r.rest ∧ r.tag = none ∧ r.place = p.after (c :: w) ∧
      (opensWord (c :: cs) = false → ∀ p' f, look f = look r.rest →
        next before p' c (w ++ f) = .ok ⟨none, r.before, p'.after (c :: w), f⟩)) := by
  by_cases hw : Code.startsWord c = true
  · rcases next_startsWord_cases hw h with htag | ⟨rfl, hsql⟩
    · exact .inl htag
    · right
      refine ⟨cs.takeWhile Code.continuesWord, List.takeWhile_append_dropWhile.symm, rfl, rfl, ?_⟩
      intro hopen p' f hf
      have hlook := look_of_all (head?_dropWhile_all (p := Code.continuesWord) cs)
      refine next_word hw of_mem_takeWhile (by rw [hf]; exact hlook) ?_ p'
      intro hword
      have hrest := hsql hword
      refine heading?_eq_none _ ?_
      rw [hf]
      refine look_of_heading?_eq_none hrest ?_
      intro hangle
      have hcw : Code.continuesWord c = true := by simp [Code.continuesWord, hw]
      simp [opensWord, hcw, hword, hrest, hangle] at hopen
  right
  revert h
  fun_cases next before p c cs <;> intro h
  case case1 hl =>
    cases h
    obtain ⟨rfl, hl⟩ := hl
    obtain ⟨cs, rfl⟩ := List.head?_eq_some_iff.1 hl
    refine ⟨'/' :: cs.takeWhile (· ≠ '\n'), by simp, rfl, by simp, ?_⟩
    intro _ p' f hf
    have hend : (look f).endsLine = true := by
      rw [hf]
      have := head?_dropWhile_all (p := (· ≠ '\n')) cs
      simpa [look] using this
    exact next_lineComment (fun h => by simpa using of_mem_takeWhile _ h) hend p'
  case case2 hb =>
    obtain ⟨k, hk, rfl⟩ := map_eq_ok.1 h
    obtain ⟨body, hcs, hp, hclosed⟩ := Code.skim_closed hk
    obtain ⟨rfl, hb⟩ := hb
    obtain ⟨cs, rfl⟩ := List.head?_eq_some_iff.1 hb
    rw [List.tail_cons] at hcs
    refine ⟨'*' :: body, by simp [hcs], rfl, hp, ?_⟩
    intro _ p' f _
    exact next_blockComment hclosed p'
  case case3 hl hb hr =>
    obtain ⟨k, hk, rfl⟩ := map_eq_ok.1 h
    obtain ⟨body, hcs, hp, hclosed⟩ := Code.skim_closed hk
    obtain ⟨rfl, hr⟩ := hr
    have hrest := List.takeWhile_append_dropWhile (p := Code.continuesWord) (l := k.rest)
    refine ⟨body ++ k.rest.takeWhile Code.continuesWord, ?_, rfl, by simp [hp], ?_⟩
    · rw [List.append_assoc, hrest, ← hcs]
    · intro _ p' f hf
      have hlook : look (body ++ k.rest.takeWhile Code.continuesWord ++ f) = look cs := by
        rw [look_append _ hf, List.append_assoc, hrest, hcs]
      refine next_regex hr hclosed ?_ of_mem_takeWhile ?_ p'
      · rw [hlook]
        exact look_of_head?_ne (fun h => hl ⟨rfl, h⟩) (fun h => hb ⟨rfl, h⟩)
      · rw [hf]
        exact look_of_all (head?_dropWhile_all k.rest)
  case case4 hq =>
    obtain ⟨k, hk, rfl⟩ := map_eq_ok.1 h
    obtain ⟨body, hcs, hp, hclosed⟩ := Code.skim_closed hk
    refine ⟨body, hcs, rfl, hp, ?_⟩
    intro _ p' f _
    exact next_quoted hq hclosed p'
  case case5 ht =>
    obtain ⟨t, hk, rfl⟩ := map_eq_ok.1 h
    obtain ⟨body, hcs, hp, hcooks⟩ := Template.cook_closed hk
    subst ht
    refine ⟨body, hcs, rfl, hp, ?_⟩
    intro _ p' f _
    exact next_template hcooks p'
  case case6 | case7 => contradiction
  case case8 hl hb hr hq ht _ =>
    cases h
    refine ⟨[], rfl, rfl, rfl, ?_⟩
    intro _ p' f hf
    refine next_other ?_ hq ht (by simpa using hw) p'
    rintro rfl
    refine ⟨by simpa using hr, ?_⟩
    rw [List.nil_append, hf]
    exact look_of_head?_ne (fun h => hl ⟨rfl, h⟩) (fun h => hb ⟨rfl, h⟩)

theorem next_text {before : Code.Before} {p : Place} {c : Char} {cs : List Char} {r : Reading}
    (h : next before p c cs = .ok r) :
    ∃ w, cs = w ++ r.rest ∧ r.place = p.after (c :: w) := by
  rcases next_cases h with ⟨t, -, hcs, hr⟩ | ⟨w, hcs, -, hp, -⟩
  · have htext : t.text = 's' :: ('q' :: 'l' :: (t.heading ++ '\x60' :: t.body)) := rfl
    rw [htext, List.cons_append] at hcs
    obtain ⟨rfl, htail⟩ := List.cons.inj hcs
    exact ⟨_, htail, by rw [hr, htext]⟩
  · exact ⟨w, hcs, hp⟩

theorem next_rest_lt {before : Code.Before} {p : Place} {c : Char} {cs : List Char} {r : Reading}
    (h : next before p c cs = .ok r) : r.rest.length < (c :: cs).length := by
  obtain ⟨w, rfl, -⟩ := next_text h
  simp only [List.length_cons, List.length_append]
  omega

def stops (before : Code.Before) (p : Place) : List Char → List (List Char)
  | [] => []
  | c :: cs =>
    match _step : next before p c cs with
    | .error _ => [c :: cs]
    | .ok r => (c :: cs) :: stops r.before r.place r.rest
termination_by cs => cs.length
decreasing_by exact next_rest_lt _step

end RowTypes.Tag
