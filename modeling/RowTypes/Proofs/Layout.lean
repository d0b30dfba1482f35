import Mathlib.Data.List.TakeWhile
import RowTypes.Proofs.BlockText
import RowTypes.Proofs.Headers

/-! Where a block stands in a source text: behind pieces that the scan reads one after the
other, and before others. Its first word may continue a word, the flags of a regular
expression or a line comment. The scan passes every block in such a place, and the search
for a block finds it. -/

namespace RowTypes.Tag
open Code Block

/-- What a block may stand right behind though the scan has not finished with it. -/
inductive Stub (b : Before) : List Char → Prop where
  | nil : Stub b []
  | word {c : Char} {w : List Char} : startsWord c = true →
      (∀ d ∈ w, continuesWord d = true) → Stub b (c :: w)
  | flags {body flags : List Char} : b ≠ .operand → Closes [.regex 0 false] body →
      (look (body ++ flags)).makesComment = false → (∀ d ∈ flags, continuesWord d = true) →
      Stub b ('/' :: (body ++ flags))
  | lineComment {w : List Char} : '\n' ∉ w → Stub b ('/' :: '/' :: w)

def firstLine : List Char := "export declare namespace queries \x7b".toList

theorem ofTexts_firstLine (texts : List String) :
    (ofTexts texts).toList = firstLine ++ (inner texts ++ ['\x7d']) := by
  have hline : firstLine = "export declare namespace queries ".toList ++ ['\x7b'] := by
    unfold firstLine
    repeat rw [String.toList_ofList]
    rfl
  rw [ofTexts_toList, hline]
  simp only [List.append_assoc, List.cons_append, List.nil_append]

theorem exists_quiet_firstLine (f : List Char) :
    ∃ rest, firstLine = "export".toList ++ ' ' :: (rest ++ ['\x7b']) ∧
      Quiet ('\x7b' :: f) (' ' :: rest) := by
  have space : [' '].all isMark = true := by decide
  have word (v : String) (hv : v.toList.head?.any startsWord = true)
      (hall : v.toList.all continuesWord = true) (hsql : v.toList ≠ Tag.word) {w : List Char}
      (hw : Quiet ('\x7b' :: f) w) : Quiet ('\x7b' :: f) (v.toList ++ ([' '] ++ w)) :=
    Quiet.plainWord hv hall hsql rfl (.marks space hw)
  have h₁ := word "queries" (by decide) (by decide) (by decide) (.nil _)
  have h₂ := word "namespace" (by decide) (by decide) (by decide) h₁
  have h₃ := word "declare" (by decide) (by decide) (by decide) h₂
  refine ⟨_, ?_, Quiet.marks space h₃⟩
  unfold firstLine
  repeat rw [String.toList_ofList]
  rfl

theorem passes_firstLine {b : Before} {stub : List Char} (h : Stub b stub) (f : List Char) :
    ∃ b', Passes b (stub ++ firstLine) ('\n' :: f) b' := by
  obtain ⟨rest, hline, hquiet⟩ := exists_quiet_firstLine ('\n' :: f)
  have hrest (b : Before) : ∃ b', Passes b (' ' :: (rest ++ ['\x7b'])) ('\n' :: f) b' := by
    obtain ⟨b', hb'⟩ := hquiet.passes b
    exact ⟨_, hb'.append (passes_brace (.inl rfl) b' _)⟩
  have hexport : ∀ d ∈ "export".toList, continuesWord d = true := List.all_eq_true.1 (by decide)
  cases h with
  | nil =>
    obtain ⟨b', hb'⟩ := hrest .operand
    have hword := passes_word (c := 'e') (v := "xport".toList)
      (f := ' ' :: (rest ++ ['\x7b']) ++ '\n' :: f) (by decide)
      (List.all_eq_true.1 (by decide)) rfl (fun h => absurd h (by decide)) b
    rw [hline]
    exact ⟨b', hword.append hb'⟩
  | @word c w hc hw =>
    obtain ⟨b', hb'⟩ := hrest .operand
    have hlong : c :: (w ++ "export".toList) ≠ Tag.word := by
      intro h
      have := congrArg List.length h
      simp [Tag.word] at this
    have hword := passes_word (c := c) (v := w ++ "export".toList)
      (f := ' ' :: (rest ++ ['\x7b']) ++ '\n' :: f) hc
      (List.forall_mem_append.2 ⟨hw, hexport⟩) rfl (fun h => absurd h hlong) b
    refine ⟨b', ?_⟩
    have := hword.append hb'
    rwa [← List.cons_append, List.append_assoc, ← hline] at this
  | @flags body flags hb hbody hcomment hflags =>
    obtain ⟨b', hb'⟩ := hrest .operator
    have hregex : Passes b ('/' :: (body ++ (flags ++ "export".toList)))
        (' ' :: (rest ++ ['\x7b']) ++ '\n' :: f) .operator := by
      refine passes_of_next fun p g hg => ?_
      refine next_regex hb hbody ?_ (List.forall_mem_append.2 ⟨hflags, hexport⟩) ?_ p
      · have hne : body ≠ [] := by
          rintro rfl
          have := hbody [.regex 0 false] p [] rfl
          cases this
        obtain ⟨d, body, rfl⟩ := List.exists_cons_of_ne_nil hne
        exact hcomment
      · rw [hg]
        rfl
    refine ⟨b', ?_⟩
    have := hregex.append hb'
    rw [hline]
    simpa only [List.cons_append, List.append_assoc] using this
  | @lineComment w hw =>
    refine ⟨b, ?_⟩
    have hn : '\n' ∉ w ++ firstLine := by
      unfold firstLine
      rw [List.mem_append, not_or, String.toList_ofList]
      exact ⟨hw, by decide⟩
    exact passes_lineComment hn b rfl

theorem passes_block {b : Before} {stub : List Char} (h : Stub b stub) {texts : List String}
    (ht : ∀ t ∈ texts, EntryText t) (f : List Char) :
    Passes b (stub ++ (ofTexts texts).toList) f .operand := by
  obtain ⟨v, hv⟩ := inner_cons texts
  obtain ⟨b₁, h₁⟩ := passes_firstLine h (v ++ ['\x7d'] ++ f)
  obtain ⟨b₂, h₂⟩ := (quiet_inner ht ('\x7d' :: f)).passes b₁
  have hclose := passes_brace (c := '\x7d') (.inr rfl) b₂ f
  have hoperand : b₂.read '\x7d' = .operand := by cases b₂ <;> rfl
  rw [hoperand] at hclose
  rw [ofTexts_firstLine, ← List.append_assoc]
  refine Passes.append ?_ (h₂.append hclose)
  rwa [hv]

/-! A text that can be scanned up to the block and as a whole -/

theorem dropWhile_append_of_not_all {p : Char → Bool} {v w : List Char}
    (h : ¬∀ c ∈ v, p c = true) : (v ++ w).dropWhile p = v.dropWhile p ++ w := by
  rw [List.dropWhile_append, if_neg]
  rw [List.isEmpty_iff, List.dropWhile_eq_nil_iff]
  exact h

theorem length_dropWhile_append_lt {p : Char → Bool} {v w : List Char}
    (h : ((v ++ w).dropWhile p).length < w.length) : ∀ c ∈ v, p c = true := by
  by_contra hall
  rw [dropWhile_append_of_not_all hall, List.length_append] at h
  omega

theorem skim_append {stack : List Enclosure} {p : Place} {cs : List Char} {k : Cursor}
    (h : skim stack p cs = .ok k) (g : List Char) :
    skim stack p (cs ++ g) = .ok ⟨k.place, k.rest ++ g⟩ := by
  obtain ⟨body, hcs, hp, hclosed⟩ := skim_closed h
  rw [hcs, List.append_assoc, hclosed _ _ _ rfl, hp]

theorem cook_append {line params : Nat} {p : Place} {cs : List Char} {t : Template.Cooked}
    (h : Template.cook line params p cs = .ok t) (g : List Char) :
    Template.cook line params p (cs ++ g) = .ok ⟨t.text, t.params, t.stop, t.rest ++ g⟩ := by
  obtain ⟨body, hcs, hp, hcooks⟩ := Template.cook_closed h
  rw [hcs, List.append_assoc, hcooks, hp]

/-- A step that reads into the text behind `cs`, though the scan could also end there, reads what
a block may stand right behind. -/
theorem stub_of_next {b : Before} {p : Place} {c : Char} {cs g : List Char} {r r' : Reading}
    (hr : next b p c (cs ++ 'e' :: g) = .ok r) (hr' : next b p c cs = .ok r') (htag : r.tag = none)
    (hlen : r.rest.length < ('e' :: g).length) : Stub b (c :: cs) := by
  have hhead : ∀ d, d ≠ 'e' → (cs ++ 'e' :: g).head? = some d → cs.head? = some d := by
    intro d hd h
    cases cs with
    | nil => exact absurd (Option.some.inj h).symm hd
    | cons e cs => exact h
  by_cases hl : c = '/' ∧ (cs ++ 'e' :: g).head? = some '/'
  · rw [next, if_pos hl] at hr
    cases hr
    obtain ⟨rfl, hl⟩ := hl
    obtain ⟨cs, rfl⟩ := List.head?_eq_some_iff.1 (hhead '/' (by decide) hl)
    rw [← List.cons_append] at hlen
    have hall := length_dropWhile_append_lt hlen
    refine .lineComment fun hn => ?_
    have := hall '\n' (by simp [hn])
    simp at this
  have hl' : ¬(c = '/' ∧ cs.head? = some '/') := by
    rintro ⟨rfl, h⟩
    obtain ⟨cs, rfl⟩ := List.head?_eq_some_iff.1 h
    exact hl ⟨rfl, rfl⟩
  rw [next, if_neg hl] at hr
  rw [next, if_neg hl'] at hr'
  by_cases hc : c = '/' ∧ (cs ++ 'e' :: g).head? = some '*'
  · -- a comment that closes before the block reads nothing of the block
    have hc' := hhead '*' (by decide) hc.2
    rw [if_pos hc] at hr
    rw [if_pos ⟨hc.1, hc'⟩] at hr'
    obtain ⟨cs, rfl⟩ := List.head?_eq_some_iff.1 hc'
    obtain ⟨k, hk, -⟩ := map_eq_ok.1 hr'
    rw [List.tail_cons] at hk
    rw [List.cons_append, List.tail_cons, skim_append hk] at hr
    cases hr
    simp only [List.length_append] at hlen
    omega
  have hc' : ¬(c = '/' ∧ cs.head? = some '*') := by
    rintro ⟨rfl, h⟩
    obtain ⟨cs, rfl⟩ := List.head?_eq_some_iff.1 h
    exact hc ⟨rfl, rfl⟩
  rw [if_neg hc] at hr
  rw [if_neg hc'] at hr'
  by_cases hx : c = '/' ∧ b ≠ .operand
  · rw [if_pos hx] at hr hr'
    obtain ⟨k, hk, -⟩ := map_eq_ok.1 hr'
    rw [skim_append hk] at hr
    cases hr
    have hall := length_dropWhile_append_lt hlen
    obtain ⟨body, hcs, -, hclosed⟩ := skim_closed hk
    obtain ⟨rfl, hb⟩ := hx
    rw [hcs]
    refine .flags hb ?_ ?_ hall
    · exact fun stack p f hs => hclosed stack p f hs
    · rw [← hcs]
      exact look_of_head?_ne (fun h => hl' ⟨rfl, h⟩) (fun h => hc' ⟨rfl, h⟩)
  rw [if_neg hx] at hr hr'
  by_cases hq : c = '\'' ∨ c = '"'
  · rw [if_pos hq] at hr hr'
    obtain ⟨k, hk, -⟩ := map_eq_ok.1 hr'
    rw [skim_append hk] at hr
    cases hr
    simp only [List.length_append] at hlen
    omega
  rw [if_neg hq] at hr hr'
  by_cases ht : c = '\x60'
  · rw [if_pos ht] at hr hr'
    obtain ⟨t, hk, -⟩ := map_eq_ok.1 hr'
    rw [cook_append hk] at hr
    cases hr
    simp only [List.length_append] at hlen
    omega
  rw [if_neg ht] at hr hr'
  by_cases hw : startsWord c = true
  · have hn : next b p c (cs ++ 'e' :: g) = .ok r := by
      rw [next, if_neg hl, if_neg hc, if_neg hx, if_neg hq, if_neg ht, hr]
    rcases next_startsWord_cases hw hn with ⟨t, -, -, hrt⟩ | ⟨rfl, -⟩
    · rw [hrt] at htag
      cases htag
    · exact .word hw (length_dropWhile_append_lt hlen)
  · rw [if_neg hw] at hr
    cases hr
    simp only [List.length_append] at hlen
    omega

theorem look_append_letter {w : List Char} (hw : w ≠ []) (g : List Char) :
    look (w ++ 'e' :: g) = look w := by
  obtain ⟨c, w, rfl⟩ := List.exists_cons_of_ne_nil hw
  have hopen : (look (c :: w ++ 'e' :: g)).opensTag = (look (c :: w)).opensTag := by
    simp only [look, List.dropWhile_append]
    split
    · rename_i h
      rw [List.isEmpty_iff.1 h]
      rfl
    · rename_i h
      rw [List.isEmpty_iff] at h
      obtain ⟨d, w', hd⟩ := List.exists_cons_of_ne_nil h
      simp [hd]
  simp only [look, Look.mk.injEq] at hopen ⊢
  exact ⟨rfl, rfl, rfl, hopen⟩

theorem tag_tagEnd (t : TagText) (p : Place) : (t.tag p).tagEnd = p.offset + 3 := by
  rw [TagText.tag, Place.after_offset]
  rfl

theorem tag_stop (t : TagText) (p : Place) :
    (t.tag p).template.stop = p.offset + Text.size t.text := by
  simp only [TagText.tag, Place.after_offset]

/-- A text that the scan reads up to a letter and as a whole, where no tag reaches across the
cut. -/
structure Divided (g : List Char) (b : Before) (p : Place) (pre : List Char) (ts : List Tag) :
    Prop where
  scan : scanFrom b p (pre ++ 'e' :: g) = .ok ts
  unambiguous : ∀ s ∈ stops b p (pre ++ 'e' :: g), opensWord s = false
  front : ∃ ts₀, scanFrom b p pre = .ok ts₀
  outside : ∀ t ∈ ts, t.template.stop ≤ p.offset + Text.size pre ∨
    p.offset + Text.size pre + 3 ≤ t.tagEnd

theorem exists_behind {u rest pre more : List Char} (h : pre ++ more = u ++ rest)
    (hle : Text.size u ≤ Text.size pre) : ∃ m, pre = u ++ m ∧ rest = m ++ more := by
  rcases List.append_eq_append_iff.1 h with ⟨m, rfl, rfl⟩ | ⟨m, hm, hrest⟩
  · have hnil : m = [] := by
      by_contra hne
      have := size_pos hne
      rw [Text.size_append] at hle
      omega
    subst hnil
    exact ⟨[], by simp, by simp⟩
  · exact ⟨m, hm, hrest⟩

theorem behind_or_short {w rest pre more : List Char} (h : pre ++ more = w ++ rest) :
    (∃ m, pre = w ++ m ∧ rest = m ++ more) ∨ rest.length < more.length := by
  rcases List.append_eq_append_iff.1 h with ⟨m, hm, hrest⟩ | ⟨m, hm, hrest⟩
  · cases m with
    | nil => exact .inl ⟨[], by simpa using hm.symm, hrest.symm⟩
    | cons d m =>
      right
      rw [hrest, List.length_append, List.length_cons]
      omega
  · exact .inl ⟨m, hm, hrest⟩

namespace Divided

variable {g : List Char} {b : Before} {p : Place} {c : Char} {cs : List Char} {ts : List Tag}

theorem behind_tag (h : Divided g b p (c :: cs) ts) {t : TagText} (ht : t.Valid)
    {rest : List Char} (hcs : c :: (cs ++ 'e' :: g) = t.text ++ rest)
    (hr : next b p c (cs ++ 'e' :: g) = .ok ⟨some (t.tag p), .operand, p.after t.text, rest⟩) :
    ∃ m ts', c :: cs = t.text ++ m ∧ Divided g .operand (p.after t.text) m ts' := by
  have hscan := h.scan
  rw [List.cons_append] at hscan
  obtain ⟨r, ts', hr', hs, rfl⟩ := scanFrom_eq_ok hscan
  rw [hr] at hr'
  cases hr'
  have hstops := stops_cons hr
  have hsize : Text.size t.text ≤ Text.size (c :: cs) := by
    have := h.outside (t.tag p) (by simp)
    rw [tag_stop, tag_tagEnd] at this
    have := size_pos (w := c :: cs) (by simp)
    omega
  have hcs : (c :: cs) ++ 'e' :: g = t.text ++ rest := hcs
  obtain ⟨m, hm, rfl⟩ := exists_behind hcs hsize
  refine ⟨m, ts', hm, hs, fun s hmem => h.unambiguous s ?_, ?_, fun t' ht' => ?_⟩
  · rw [List.cons_append, hstops]
    exact List.mem_cons_of_mem _ hmem
  · obtain ⟨ts₀, h₀⟩ := h.front
    rw [hm, scanFrom_tag ht] at h₀
    obtain ⟨ts₁, hs₁, -⟩ := map_eq_ok.1 h₀
    exact ⟨ts₁, hs₁⟩
  · have := h.outside t' (by simp [ht'])
    rw [hm, Text.size_append] at this
    rw [Place.after_offset]
    omega

theorem behind_plain (h : Divided g b p (c :: cs) ts) {r : Reading} {w : List Char}
    (hr : next b p c (cs ++ 'e' :: g) = .ok r) (hcs : cs ++ 'e' :: g = w ++ r.rest)
    (htag : r.tag = none) (hp : r.place = p.after (c :: w))
    (hnext : opensWord (c :: (cs ++ 'e' :: g)) = false → ∀ p' f, look f = look r.rest →
      next b p' c (w ++ f) = .ok ⟨none, r.before, p'.after (c :: w), f⟩) :
    (∃ m ts', cs = w ++ m ∧ Passes b (c :: w) (m ++ 'e' :: g) r.before ∧
        Divided g r.before (p.after (c :: w)) m ts') ∨ Stub b (c :: cs) := by
  obtain ⟨ts₀, h₀⟩ := h.front
  obtain ⟨r₀, ts₀', hr₀, hs₀, rfl⟩ := scanFrom_eq_ok h₀
  rcases behind_or_short hcs with ⟨m, rfl, hrest⟩ | hshort
  · have hscan := h.scan
    rw [List.cons_append] at hscan
    obtain ⟨r', ts', hr', hs, rfl⟩ := scanFrom_eq_ok hscan
    rw [hr] at hr'
    cases hr'
    have hstops := stops_cons hr
    have hopen := h.unambiguous _ (by rw [List.cons_append, hstops]; exact List.mem_cons_self)
    have hpiece : Passes b (c :: w) (m ++ 'e' :: g) r.before := by
      refine passes_of_next fun p' f hf => hnext hopen p' f ?_
      rw [hf, hrest]
    rw [hrest, hp] at hs hstops
    refine .inl ⟨m, ts', rfl, hpiece, hs, fun s hmem => h.unambiguous s ?_, ?_, fun t' ht' => ?_⟩
    · rw [List.cons_append, hstops]
      exact List.mem_cons_of_mem _ hmem
    · cases m with
      | nil => exact ⟨[], by rw [scanFrom]⟩
      | cons d m =>
        have hlook := look_append_letter (w := d :: m) (by simp) g
        exact ⟨_, (hpiece p (d :: m) hlook.symm).1.symm.trans h₀⟩
    · have := h.outside t' (by simp [ht'])
      rw [← List.cons_append, Text.size_append] at this
      rw [Place.after_offset]
      omega
  · exact .inr (stub_of_next hr hr₀ htag hshort)

theorem exists_front {n : Nat} {pre : List Char} (hn : pre.length ≤ n)
    (h : Divided g b p pre ts) :
    ∃ ps stub b', pre = texts ps ++ stub ∧ Reads (stub ++ 'e' :: g) b ps b' ∧ Stub b' stub := by
  induction n generalizing b p pre ts with
  | zero =>
    obtain rfl := List.eq_nil_of_length_eq_zero (Nat.le_zero.1 hn)
    exact ⟨[], [], b, rfl, .nil b, .nil⟩
  | succ n ih =>
    cases pre with
    | nil => exact ⟨[], [], b, rfl, .nil b, .nil⟩
    | cons c cs =>
      have hscan := h.scan
      rw [List.cons_append] at hscan
      obtain ⟨r, ts', hr, -, rfl⟩ := scanFrom_eq_ok hscan
      rcases next_cases hr with ⟨t, ht, hcs, hrt⟩ | ⟨w, hcs, htag, hp, hnext⟩
      · obtain ⟨m, _, hm, hrest⟩ := h.behind_tag ht hcs (hrt ▸ hr)
        have hlen : m.length ≤ n := by
          have := congrArg List.length hm
          have : 0 < t.text.length := Nat.succ_pos _
          simp only [List.length_cons, List.length_append] at *
          omega
        obtain ⟨ps, stub, b', rfl, hreads, hstub⟩ := ih hlen hrest
        exact ⟨.tag t :: ps, stub, b', by rw [hm]; simp [Piece.text], .tag ht hreads, hstub⟩
      · rcases h.behind_plain hr hcs htag hp hnext with ⟨m, _, rfl, hpiece, hrest⟩ | hstub
        · have hlen : m.length ≤ n := by
            simp only [List.length_cons, List.length_append] at hn
            omega
          obtain ⟨ps, stub, b', rfl, hreads, hstub⟩ := ih hlen hrest
          rw [List.append_assoc] at hpiece
          exact ⟨.plain (c :: w) :: ps, stub, b', by simp [Piece.text], .plain hpiece hreads, hstub⟩
        · exact ⟨[], c :: cs, b, rfl, .nil b, hstub⟩

end Divided

end RowTypes.Tag
