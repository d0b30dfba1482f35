import RowTypes.Proofs.Retag
import RowTypes.Source.Block

/-! Text without tags and with matched braces: words, marks, closed strings and comments. The
scan for tags passes it from any state, and the search for a closing brace goes past it at
any depth. -/

namespace RowTypes

def isMark (c : Char) : Bool :=
  !(Code.startsWord c || c = '/' || c = '\'' || c = '"' || c = '\x60' || c = '\x7b' || c = '\x7d')

inductive Quiet : List Char → List Char → Prop where
  | nil (f : List Char) : Quiet f []
  | mark {c : Char} {f w : List Char} : isMark c = true → Quiet f w → Quiet f (c :: w)
  | word {c : Char} {f v w : List Char} : Code.startsWord c = true →
      (∀ d ∈ v, Code.continuesWord d = true) → (Tag.look (w ++ f)).continuesWord = false →
      (c :: v = Tag.word → (Tag.look (w ++ f)).opensTag = false) → Quiet f w →
      Quiet f (c :: (v ++ w))
  | quoted {f s w : List Char} : '\n' ∉ s → Quiet f w →
      Quiet f ('\'' :: (escapeLiteral s ++ '\'' :: w))
  | comment {f body w : List Char} : ¬['*', '/'] <:+: body → Quiet f w →
      Quiet f ('/' :: '*' :: (body ++ '*' :: '/' :: w))
  | lineComment {f body w : List Char} : '\n' ∉ body → Quiet f w →
      Quiet f ('/' :: '/' :: (body ++ '\n' :: w))
  | braces {f v w : List Char} : Quiet ('\x7d' :: (w ++ f)) v → Quiet f w →
      Quiet f ('\x7b' :: (v ++ '\x7d' :: w))

namespace Quiet

theorem append {f v w : List Char} (hv : Quiet (w ++ f) v) (hw : Quiet f w) : Quiet f (v ++ w) := by
  generalize hg : w ++ f = g at hv
  induction hv with
  | nil => exact hw
  | mark hc _ ih => exact .mark hc (ih hg)
  | @word c g u w' hc hu hcont hopen _ ih =>
    subst hg
    rw [List.cons_append, List.append_assoc]
    exact .word hc hu (by rwa [List.append_assoc]) (by rwa [List.append_assoc]) (ih rfl)
  | quoted hs _ ih =>
    rw [List.cons_append, List.append_assoc]
    exact .quoted hs (ih hg)
  | comment hb _ ih =>
    rw [List.cons_append, List.cons_append, List.append_assoc]
    exact .comment hb (ih hg)
  | lineComment hb _ ih =>
    rw [List.cons_append, List.cons_append, List.append_assoc]
    exact .lineComment hb (ih hg)
  | @braces g u w' hu _ _ ih =>
    subst hg
    rw [List.cons_append, List.append_assoc]
    refine .braces ?_ (ih rfl)
    simpa using hu

end Quiet

/-! The pieces in the eyes of the scan -/

section Scan
open Code Tag

theorem closes_quoted_cons {c d : Char} {body : List Char} (hc : c = '\\')
    (h : Closes [.quoted 0 '\''] body) : Closes [.quoted 0 '\''] (c :: d :: body) := by
  subst hc
  intro stack p f hs
  obtain ⟨e, outer, rfl⟩ := exists_cons_of_map_eq hs
  obtain ⟨stack', hstep, hs'⟩ := step_two_congr (l := 0) (m := p.line) (c := '\\') (d := some d) hs rfl
  simp only [List.cons_append, skim, List.head?_cons, hstep]
  exact h stack' _ f hs'

theorem closes_quoted_other {c : Char} {body : List Char} (hb : c ≠ '\\') (hn : c ≠ '\n')
    (hq : c ≠ '\'') (h : Closes [.quoted 0 '\''] body) : Closes [.quoted 0 '\''] (c :: body) := by
  intro stack p f hs
  obtain ⟨e, outer, rfl⟩ := exists_cons_of_map_eq hs
  obtain ⟨stack', hstep, hs'⟩ := step_one_congr (l := 0) (m := p.line) (d := (body ++ f).head?) hs
    (show step (.quoted 0 '\'') [] 0 c _ = .one [.quoted 0 '\''] by simp [step, hb, hn, hq])
  simp only [List.cons_append, skim, hstep]
  exact h stack' _ f hs'

theorem closes_escapeLiteral {s : List Char} (hs : '\n' ∉ s) :
    Closes [.quoted 0 '\''] (escapeLiteral s ++ ['\'']) := by
  induction s with
  | nil =>
    intro stack p f h
    obtain ⟨e, outer, rfl⟩ := exists_cons_of_map_eq h
    obtain ⟨stack', hstep, hs'⟩ := step_one_congr (l := 0) (m := p.line) (c := '\'') (d := f.head?)
      h rfl
    simp only [escapeLiteral, List.nil_append, List.cons_append, skim, hstep]
    rw [List.map_eq_nil_iff.1 hs', skim.eq_1]
    rfl
  | cons c s ih =>
    have hc : c ≠ '\n' := fun h => hs (by simp [h])
    have ih := ih fun h => hs (List.mem_cons_of_mem _ h)
    rw [escapeLiteral]
    split_ifs with h
    · exact closes_quoted_cons rfl ih
    · exact closes_quoted_other (fun hb => h (.inl hb)) hc (fun hq => h (.inr hq)) ih

theorem skim_comment {body : List Char} (hb : ¬['*', '/'] <:+: body) (l : Nat)
    (outer : List Enclosure) (p : Place) (f : List Char) :
    skim (.blockComment l :: outer) p (body ++ (['*', '/'] ++ f)) =
      skim outer (p.after (body ++ ['*', '/'])) f := by
  induction body generalizing p with
  | nil => simp [skim, step]
  | cons c body ih =>
    have hopen : ¬(c = '*' ∧ (body ++ (['*', '/'] ++ f)).head? = some '/') := by
      rintro ⟨rfl, hd⟩
      cases body with
      | nil => cases hd
      | cons d body =>
        cases hd
        exact hb ⟨[], body, rfl⟩
    simp only [List.cons_append, skim, step] at hopen ⊢
    rw [if_neg hopen]
    exact ih (fun h => hb (h.trans (List.suffix_cons ..).isInfix)) _

theorem closes_comment {body : List Char} (hb : ¬['*', '/'] <:+: body) :
    Closes [.blockComment 0] (body ++ ['*', '/']) := by
  intro stack p f hs
  obtain ⟨e, outer, rfl⟩ := exists_cons_of_map_eq hs
  obtain ⟨he, ho⟩ := List.cons.inj hs
  obtain rfl := List.map_eq_nil_iff.1 ho
  cases e <;> cases he
  rw [List.append_assoc, skim_comment hb, skim.eq_1]

theorem passes_mark {c : Char} (hc : isMark c = true) (b : Before) (f : List Char) :
    Passes b [c] f (b.read c) := by
  simp only [isMark, Bool.not_eq_true', Bool.or_eq_false_iff, decide_eq_false_iff_not] at hc
  obtain ⟨⟨⟨⟨⟨⟨hw, hs⟩, hq⟩, hd⟩, ht⟩, -⟩, -⟩ := hc
  refine passes_of_next fun p g _ => ?_
  exact next_other (fun h => absurd h hs) (by simp [hq, hd]) ht hw p

theorem passes_brace {c : Char} (hc : c = '\x7b' ∨ c = '\x7d') (b : Before) (f : List Char) :
    Passes b [c] f (b.read c) := by
  refine passes_of_next fun p g _ => ?_
  rcases hc with rfl | rfl <;>
    exact next_other (fun h => by cases h) (by decide) (by decide) (by decide) p

theorem passes_word {c : Char} {v f : List Char} (hc : Code.startsWord c = true)
    (hv : ∀ d ∈ v, Code.continuesWord d = true) (hf : (look f).continuesWord = false)
    (hsql : c :: v = word → (look f).opensTag = false) (b : Before) :
    Passes b (c :: v) f .operand := by
  refine passes_of_next fun p g hg => next_word hc hv (by rwa [hg]) (fun hw => ?_) p
  exact heading?_eq_none _ (by rw [hg]; exact hsql hw)

theorem passes_quoted {s : List Char} (hs : '\n' ∉ s) (b : Before) (f : List Char) :
    Passes b ('\'' :: (escapeLiteral s ++ ['\''])) f .operand :=
  passes_of_next fun p _ _ => next_quoted (.inl rfl) (closes_escapeLiteral hs) p

theorem passes_comment {body : List Char} (hb : ¬['*', '/'] <:+: body) (b : Before)
    (f : List Char) : Passes b ('/' :: '*' :: (body ++ ['*', '/'])) f b :=
  passes_of_next fun p _ _ => next_blockComment (closes_comment hb) p

theorem passes_lineComment {body f : List Char} (hb : '\n' ∉ body) (b : Before)
    (hf : (look f).endsLine = true) : Passes b ('/' :: '/' :: body) f b :=
  passes_of_next fun p g hg => next_lineComment hb (by rwa [hg]) p

theorem Quiet.passes {f w : List Char} (h : Quiet f w) (b : Before) : ∃ b', Passes b w f b' := by
  induction h generalizing b with
  | nil => exact ⟨b, .nil b _⟩
  | mark hc _ ih =>
    obtain ⟨b', hb'⟩ := ih (b.read _)
    exact ⟨b', (passes_mark hc b _).append hb'⟩
  | @word c f v w hc hv hcont hopen _ ih =>
    obtain ⟨b', hb'⟩ := ih .operand
    exact ⟨b', (passes_word hc hv hcont hopen b).append hb'⟩
  | @quoted f s w hs _ ih =>
    obtain ⟨b', hb'⟩ := ih .operand
    refine ⟨b', ?_⟩
    have := (passes_quoted hs b (w ++ f)).append hb'
    simpa using this
  | @comment f body w hbody _ ih =>
    obtain ⟨b', hb'⟩ := ih b
    refine ⟨b', ?_⟩
    have := (passes_comment hbody b (w ++ f)).append hb'
    simpa using this
  | @lineComment f body w hbody _ ih =>
    obtain ⟨b', hb'⟩ := ih (b.read '\n')
    have hnl := (passes_mark (c := '\n') (by decide) b (w ++ f)).append hb'
    exact ⟨b', (passes_lineComment hbody b rfl).append hnl⟩
  | @braces f v w _ _ ihv ihw =>
    obtain ⟨b₁, h₁⟩ := ihv (b.read '\x7b')
    obtain ⟨b₂, h₂⟩ := ihw (b₁.read '\x7d')
    have hclose := (passes_brace (c := '\x7d') (.inr rfl) b₁ (w ++ f)).append h₂
    exact ⟨b₂, (passes_brace (c := '\x7b') (.inl rfl) b _).append (h₁.append hclose)⟩

end Scan

/-! The pieces in the eyes of the search for a closing brace -/

namespace Block

variable {depth : Nat} {g body after : List Char}

theorem closeBrace_other {c : Char} (hs : c ≠ '/') (hq : ¬(c = '\'' ∨ c = '"' ∨ c = '\x60'))
    (ho : c ≠ '\x7b') (hc : c ≠ '\x7d') (h : closeBrace .code depth g = some (body, after)) :
    closeBrace .code depth (c :: g) = some (c :: body, after) := by
  rw [closeBrace.eq_def]
  simp only
  rw [if_neg hs, if_neg hq, if_neg ho, if_neg hc]
  exact map_fst_eq_some.2 ⟨body, h, rfl⟩

theorem closeBrace_mark {c : Char} (hm : isMark c = true)
    (h : closeBrace .code depth g = some (body, after)) :
    closeBrace .code depth (c :: g) = some (c :: body, after) := by
  simp only [isMark, Bool.not_eq_true', Bool.or_eq_false_iff, decide_eq_false_iff_not] at hm
  obtain ⟨⟨⟨⟨⟨⟨hw, hs⟩, hq⟩, hd⟩, ht⟩, ho⟩, hc⟩ := hm
  exact closeBrace_other hs (by simp [hq, hd, ht]) ho hc h

theorem closeBrace_continuesWord {c : Char} (hm : Code.continuesWord c = true)
    (h : closeBrace .code depth g = some (body, after)) :
    closeBrace .code depth (c :: g) = some (c :: body, after) := by
  refine closeBrace_other ?_ ?_ ?_ ?_ h
  · rintro rfl
    cases hm
  · rintro (rfl | rfl | rfl) <;> cases hm
  · rintro rfl
    cases hm
  · rintro rfl
    cases hm

theorem closeBrace_word {v : List Char} (hv : ∀ c ∈ v, Code.continuesWord c = true)
    (h : closeBrace .code depth g = some (body, after)) :
    closeBrace .code depth (v ++ g) = some (v ++ body, after) := by
  induction v with
  | nil => exact h
  | cons c v ih =>
    refine closeBrace_continuesWord (hv c List.mem_cons_self) (ih ?_)
    exact fun d hd => hv d (List.mem_cons_of_mem _ hd)

/-- The search is inside the text, in which no brace closes anything, and is back in code behind
what stops it. -/
structure Encloses (inside : Inside) (w stop : List Char) : Prop where
  stays : ∀ v, v <+: w → ∀ depth, closeBrace inside depth (v ++ ['\x7d']) = none
  ends : ∀ depth g, closeBrace inside depth (w ++ (stop ++ g)) =
    (closeBrace .code depth g).map (.map (w ++ stop ++ ·) id)

theorem map_cons_map (c : Char) (w : List Char) (x : Option (List Char × List Char)) :
    (x.map (Prod.map (w ++ ·) id)).map (Prod.map (c :: ·) id) = x.map (Prod.map (c :: w ++ ·) id) := by
  cases x <;> rfl

theorem encloses_literal (s : List Char) : Encloses (.quoted '\'') (escapeLiteral s) ['\''] := by
  constructor
  · intro v hv depth
    induction s generalizing v with
    | nil =>
      rw [List.prefix_nil.1 hv]
      rfl
    | cons c s ih =>
      rw [escapeLiteral] at hv
      split_ifs at hv with hc
      · rcases v with _ | ⟨d, _ | ⟨e, v⟩⟩
        · rfl
        · rw [(List.cons_prefix_cons.1 hv).1]
          rfl
        · obtain ⟨rfl, hrest⟩ := List.cons_prefix_cons.1 hv
          obtain ⟨rfl, hprefix⟩ := List.cons_prefix_cons.1 hrest
          rw [List.cons_append, List.cons_append, closeBrace.eq_def]
          simp only
          rw [if_neg (by decide), if_pos trivial, ih v hprefix]
          rfl
      · cases v with
        | nil => rfl
        | cons d v =>
          obtain ⟨rfl, hprefix⟩ := List.cons_prefix_cons.1 hv
          rw [List.cons_append, closeBrace.eq_def]
          simp only
          rw [if_neg fun h => hc (.inr h), if_neg fun h => hc (.inl h), ih v hprefix]
          rfl
  · intro depth g
    induction s with
    | nil =>
      rw [escapeLiteral, List.nil_append, List.singleton_append, closeBrace.eq_def]
      rfl
    | cons c s ih =>
      rw [escapeLiteral]
      split_ifs with hc
      · rw [List.cons_append, List.cons_append, closeBrace.eq_def]
        simp only
        rw [if_neg (by decide), if_pos trivial, ih]
        cases closeBrace .code depth g <;> rfl
      · rw [List.cons_append, closeBrace.eq_def]
        simp only
        rw [if_neg fun h => hc (.inr h), if_neg fun h => hc (.inl h), ih, map_cons_map]
        rfl

theorem encloses_comment {w : List Char} (hw : ¬['*', '/'] <:+: w) :
    Encloses .blockComment w ['*', '/'] := by
  constructor
  · intro v hv depth
    replace hw : ¬['*', '/'] <:+: v := fun h => hw (h.trans hv.isInfix)
    clear hv
    induction v with
    | nil => rfl
    | cons c v ih =>
      have ih := ih fun h => hw (h.trans (List.suffix_cons ..).isInfix)
      rw [List.cons_append, closeBrace.eq_def]
      simp only
      by_cases hc : c = '*'
      · subst hc
        rw [if_pos rfl]
        split
        · rename_i rest hrest
          cases v with
          | nil => cases hrest
          | cons d v =>
            obtain ⟨rfl, -⟩ := List.cons.inj hrest
            exact absurd ⟨[], v, rfl⟩ hw
        · rw [ih]
          rfl
      · rw [if_neg hc, ih]
        rfl
  · intro depth g
    induction w with
    | nil =>
      rw [List.nil_append, List.cons_append, closeBrace.eq_def]
      rfl
    | cons c w ih =>
      have ih := ih fun h => hw (h.trans (List.suffix_cons ..).isInfix)
      rw [List.cons_append, closeBrace.eq_def]
      simp only
      by_cases hc : c = '*'
      · subst hc
        rw [if_pos rfl]
        split
        · rename_i rest hrest
          cases w with
          | nil => cases hrest
          | cons d w =>
            obtain ⟨rfl, -⟩ := List.cons.inj hrest
            exact absurd ⟨[], w, rfl⟩ hw
        · rw [ih, map_cons_map]
          rfl
      · rw [if_neg hc, ih, map_cons_map]
        rfl

theorem closeBrace_lineComment {w : List Char} (hw : '\n' ∉ w)
    (h : closeBrace .code depth g = some (body, after)) :
    closeBrace .lineComment depth (w ++ '\n' :: g) = some (w ++ '\n' :: body, after) := by
  induction w with
  | nil => exact map_fst_eq_some.2 ⟨body, h, rfl⟩
  | cons c w ih =>
    have hc : c ≠ '\n' := fun h => hw (by simp [h])
    rw [List.cons_append, closeBrace.eq_def]
    simp only
    rw [if_neg hc]
    exact map_fst_eq_some.2 ⟨_, ih fun h => hw (List.mem_cons_of_mem _ h), rfl⟩

theorem closeBrace_quiet {f w : List Char} (hw : Quiet f w) (hd : 0 < depth)
    (h : closeBrace .code depth g = some (body, after)) :
    closeBrace .code depth (w ++ g) = some (w ++ body, after) := by
  induction hw generalizing depth g body with
  | nil => exact h
  | mark hc _ ih => exact closeBrace_mark hc (ih hd h)
  | word hc hv _ _ _ ih =>
    rw [List.cons_append, List.append_assoc, List.cons_append, List.append_assoc]
    refine closeBrace_continuesWord ?_ (closeBrace_word hv (ih hd h))
    simp [Code.continuesWord, hc]
  | @quoted f s w _ _ ih =>
    have hrest := (encloses_literal s).ends depth (w ++ g)
    rw [ih hd h] at hrest
    simp only [List.cons_append, List.append_assoc]
    rw [closeBrace.eq_def]
    simp only
    rw [if_neg (by decide), if_pos (by decide)]
    exact map_fst_eq_some.2 ⟨_, hrest, by simp⟩
  | @comment f v w hv _ ih =>
    have hrest := (encloses_comment hv).ends depth (w ++ g)
    rw [ih hd h] at hrest
    simp only [List.cons_append, List.append_assoc]
    rw [closeBrace.eq_def]
    simp only
    rw [if_pos trivial]
    exact map_fst_eq_some.2 ⟨_, hrest, by simp⟩
  | lineComment hb _ ih =>
    have := closeBrace_lineComment hb (ih hd h)
    simp only [List.cons_append, List.append_assoc]
    rw [closeBrace.eq_def]
    simp only
    rw [if_pos trivial]
    exact map_fst_eq_some.2 ⟨_, this, rfl⟩
  | @braces f v w _ _ ihv ihw =>
    -- the inner text stands one level deeper, at which its closing brace ends nothing
    have hclose : closeBrace .code (depth + 1) ('\x7d' :: (w ++ g)) =
        some ('\x7d' :: (w ++ body), after) := by
      rw [closeBrace.eq_def]
      simp only
      rw [if_neg (by decide), if_neg (by decide), if_neg (by decide), if_pos trivial,
        if_neg (by omega)]
      exact map_fst_eq_some.2 ⟨_, ihw hd h, rfl⟩
    have := ihv (Nat.succ_pos depth) hclose
    simp only [List.cons_append, List.append_assoc]
    rw [closeBrace.eq_def]
    simp only
    rw [if_neg (by decide), if_neg (by decide), if_pos trivial]
    exact map_fst_eq_some.2 ⟨_, this, rfl⟩

end Block
end RowTypes
