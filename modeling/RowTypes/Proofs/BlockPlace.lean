import RowTypes.Proofs.Passages

/-! Whether the block stands in code. The block is looked for in the bare text, so that its first
letter may stand within a comment, a string, a regular expression or a template literal. Where it
does not, rendering changes no such passage, but for those that begin in the block. -/

namespace RowTypes

namespace Tag
open Code TypedSource

/-! The text of a passage -/

def Plain : Enclosure → Prop
  | .blockComment _ | .regex _ _ | .quoted _ _ => True
  | _ => False

theorem step_plain {e : Enclosure} {line : Nat} {c : Char} {following : Option Char}
    (he : Plain e) :
    (∀ stack, step e [] line c following = .one stack →
      stack = [] ∧ c ≠ '\n' ∨ ∃ e', stack = [e'] ∧ Plain e') ∧
    ∀ stack, step e [] line c following = .two stack →
      stack = [] ∧ following = some '/' ∨ ∃ e', stack = [e'] ∧ Plain e' := by
  fun_cases step e [] line c following <;> simp_all [Plain]

theorem getLast?_of_skim {stack : List Enclosure} {p : Place} {cs : List Char} {k : Cursor}
    (hstack : stack = [] ∨ ∃ e, stack = [e] ∧ Plain e) (h : skim stack p cs = .ok k)
    (hrest : k.rest = []) : cs.getLast? ≠ some '\n' := by
  fun_induction skim stack p cs with
  | case1 p cs =>
    cases h
    rw [show cs = [] from hrest]
    exact Option.some_ne_none _ |>.symm
  | case2 => cases h
  | case3 e outer p c cs stack hstep ih =>
    obtain ⟨rfl, he⟩ : outer = [] ∧ Plain e := by simpa using hstack
    have hnext := (step_plain he).1 stack hstep
    cases cs with
    | nil =>
      have hnil := skim_nil_eq_ok h
      subst hnil
      simpa using hnext
    | cons d cs =>
      rw [List.getLast?_cons_cons]
      exact ih (hnext.imp_left And.left) h
  | case4 => cases h
  | case5 e outer p c stack d cs hstep ih =>
    obtain ⟨rfl, he⟩ : outer = [] ∧ Plain e := by simpa using hstack
    have hnext := (step_plain he).2 stack hstep
    rw [List.getLast?_cons_cons]
    cases cs with
    | nil =>
      have hnil := skim_nil_eq_ok h
      subst hnil
      have hd : d = '/' := by simpa using hnext
      rw [hd]
      decide
    | cons d' cs =>
      rw [List.getLast?_cons_cons]
      exact ih (hnext.imp_left And.left) h
  | case6 => cases h

theorem getLast?_of_closes {e : Enclosure} {body : List Char} (he : Plain e)
    (h : Closes [e] body) : body.getLast? ≠ some '\n' :=
  getLast?_of_skim (.inr ⟨e, rfl, he⟩) (by simpa using h [e] .start [] rfl) rfl

theorem getLast?_of_cook {line params : Nat} {p : Place} {cs : List Char} {t : Template.Cooked}
    (h : Template.cook line params p cs = .ok t) (hrest : t.rest = []) :
    cs.getLast? = some '\x60' := by
  fun_induction Template.cook line params p cs generalizing t with
  | case1 => cases h
  | case2 params p cs =>
    cases h
    rw [show cs = [] from hrest]
    rfl
  | case3 => cases h
  | case4 =>
    rename_i ih
    obtain ⟨u, hu, rfl⟩ := Template.map_prepend_eq_ok h
    have := ih hu hrest
    rw [List.getLast?_cons, List.getLast?_cons, this]
    rfl
  | case5 => cases h
  | case6 params p c cs ht hb hd k hk ih =>
    obtain ⟨u, hu, rfl⟩ := Template.map_prepend_eq_ok h
    have hlast := ih hu hrest
    obtain ⟨inner, hinner, -, -⟩ := skim_closed hk
    obtain ⟨d, cs, rfl⟩ := List.exists_cons_of_ne_nil (l := cs) (by rintro rfl; simp at hd)
    rw [List.tail_cons] at hinner
    rw [List.getLast?_cons_cons, List.getLast?_cons, hinner, List.getLast?_append, hlast]
    rfl
  | case7 params p c cs ht hb hd ih =>
    obtain ⟨u, hu, rfl⟩ := Template.map_prepend_eq_ok h
    rw [List.getLast?_cons, ih hu hrest]
    rfl

theorem getLast?_of_cooks {body text : List Char} {count : Nat}
    (h : Template.Cooks 0 body text count) : body.getLast? = some '\x60' :=
  getLast?_of_cook (by simpa using h 0 .start []) rfl

/-- Where a passage stands. It begins with no blank and does not end with a line feed. -/
structure PassageText (p : Place) (cs : List Char) (s : Span) (front text back : List Char) :
    Prop where
  append : cs = front ++ (text ++ back)
  span : s = ⟨p.offset + Text.size front, p.offset + Text.size front + Text.size text⟩
  first : ∃ c ∈ text.head?, Text.isBlank c = false
  last : text.getLast? ≠ some '\n'

section Texts

variable {b : Before} {p : Place} {c : Char} {cs : List Char} {r : Reading} {x : Passage}

theorem passageText_cons {w rest : List Char} (hc : Text.isBlank c = false)
    (hlast : (c :: w).getLast? ≠ some '\n') :
    PassageText p (c :: (w ++ rest)) ⟨p.offset, (p.after (c :: w)).offset⟩ [] (c :: w) rest where
  append := rfl
  span := by rw [Place.after_offset]; rfl
  first := ⟨c, rfl, hc⟩
  last := hlast

theorem getLast?_cons_ne {w : List Char} (hc : c ≠ '\n') (hw : w.getLast? ≠ some '\n') :
    (c :: w).getLast? ≠ some '\n' := by
  rw [List.getLast?_cons]
  cases hlast : w.getLast? with
  | none => simpa using hc
  | some d => simpa [hlast] using hw

theorem passageText_of_next (h : next b p c cs = .ok r)
    (hx : r.passage? b p c cs.head? = some x) :
    ∃ front text, PassageText p (c :: cs) x.span front text r.rest := by
  have htakes := takes_of_next h
  rw [Reading.passage?] at hx
  generalize kind? b c cs.head? = k at htakes hx
  cases htakes with
  | @lineComment w f hw _ =>
    cases hx
    refine ⟨[], _, passageText_cons (by decide) ?_⟩
    exact fun hlast => hw (by simpa using List.mem_of_getLast? hlast)
  | @blockComment body f hbody =>
    cases hx
    exact ⟨[], _, passageText_cons (by decide) (getLast?_cons_ne (by decide)
      (getLast?_cons_ne (by decide) (getLast?_of_closes (e := .blockComment 0) trivial hbody)))⟩
  | @regex body flags f _ hbody _ hflags _ =>
    cases hx
    refine ⟨[], _, passageText_cons (by decide) (getLast?_cons_ne (by decide) ?_)⟩
    rw [List.getLast?_append]
    cases hlast : flags.getLast? with
    | none => exact getLast?_of_closes (e := .regex 0 false) trivial hbody
    | some d =>
      rintro ⟨⟩
      exact absurd (hflags _ (List.mem_of_getLast? hlast)) (by decide)
  | @string _ body f hc hbody =>
    cases hx
    have hquote : Text.isBlank c = false ∧ c ≠ '\n' := by rcases hc with rfl | rfl <;> decide
    exact ⟨[], _, passageText_cons hquote.1 (getLast?_cons_ne hquote.2
      (getLast?_of_closes (e := .quoted 0 c) trivial hbody))⟩
  | @template body text f count hbody =>
    cases hx
    refine ⟨[], _, passageText_cons (by decide) (getLast?_cons_ne (by decide) ?_)⟩
    rw [getLast?_of_cooks hbody]
    decide
  | @tag t f ht =>
    cases hx
    refine ⟨word ++ t.heading, '\x60' :: t.body, ?_, ?_, ⟨_, rfl, by decide⟩, ?_⟩
    · simp [word]
    · simp only [TagText.tag, TagText.text, Place.after_offset, Text.size_append, Nat.add_assoc]
    · refine getLast?_cons_ne (by decide) ?_
      rw [getLast?_of_cooks ht.cooked]
      decide
  | word => cases hx
  | mark => cases hx

theorem exists_passageText (hx : x ∈ passages b p cs) :
    ∃ front text back, PassageText p cs x.span front text back := by
  fun_induction passages b p cs with
  | case1 => cases hx
  | case2 => cases hx
  | case3 b p c cs r hr ih =>
    rcases List.mem_append.1 hx with hx | hx
    · obtain ⟨front, text, h⟩ := passageText_of_next hr (Option.mem_toList.1 hx)
      exact ⟨front, text, r.rest, h⟩
    · obtain ⟨front, text, back, happend, hspan, hfirst, hlast⟩ := ih hx
      obtain ⟨w, hw, hplace⟩ := next_text hr
      refine ⟨c :: w ++ front, text, back, ?_, ?_, hfirst, hlast⟩
      · rw [hw, happend]
        simp
      · rw [hspan, hplace, Place.after_offset, Text.size_append, Nat.add_assoc p.offset]

theorem passages_apart {ts : List Tag} (h : scanFrom b p cs = .ok ts) {t : Tag} (ht : t ∈ ts)
    (hx : x ∈ passages b p cs) :
    (argumentSpan t).stop ≤ x.span.start ∨ x.span.stop ≤ (argumentSpan t).start := by
  fun_induction passages b p cs generalizing ts with
  | case1 => cases hx
  | case2 => cases hx
  | case3 b p c cs r hr ih =>
    obtain ⟨r', ts, hr', hscan, rfl⟩ := scanFrom_eq_ok h
    rw [hr] at hr'
    cases hr'
    have hrest {x : Passage} (hx : x ∈ passages r.before r.place r.rest) :
        r.place.offset ≤ x.span.start := (passages_bounds hx).1
    rcases List.mem_append.1 ht with ht | ht
    · obtain ⟨horder, hstop⟩ := tag_of_next hr (Option.mem_toList.1 ht)
      have htemplate := horder.template
      have hfull := horder.full
      rcases List.mem_append.1 hx with hx | hx
      · rw [passage?_of_tag (Option.mem_toList.1 ht), Option.mem_toList] at hx
        cases hx
        exact .inl htemplate
      · have := hrest hx
        exact .inl (by omega)
    · rcases List.mem_append.1 hx with hx | hx
      · obtain ⟨-, -, hbehind⟩ := passage?_bounds hr (Option.mem_toList.1 hx)
        have := tagEnd_of_scan hscan t ht
        have := (inOrder_of_scan hscan t ht).args
        exact .inr (by omega)
      · exact ih hscan ht hx

end Texts

end Tag

namespace Block

theorem exists_of_findHeader {header : List Char → Option (List Char)}
    {cs before head rest : List Char} (h : findHeader header cs = some (before, head, rest)) :
    ∃ f, cs = before ++ f ∧ header f = some rest := by
  induction cs generalizing before with
  | nil => cases h
  | cons c cs ih =>
    rw [findHeader] at h
    cases hread : header (c :: cs) with
    | some r =>
      rw [hread] at h
      cases h
      exact ⟨c :: cs, rfl, hread⟩
    | none =>
      rw [hread] at h
      obtain ⟨⟨a, b, r⟩, hfind, heq⟩ := Option.map_eq_some_iff.1 h
      cases heq
      obtain ⟨f, rfl, hf⟩ := ih hfind
      exact ⟨f, rfl, hf⟩

theorem exists_letter {cs : List Char} {cut : Cut} (h : find? cs = some cut) :
    ∃ f, cs = cut.before ++ f ∧ f.head? = some 'e' := by
  simp only [find?, findBraced, Option.bind_eq_bind, Option.bind_eq_some_iff] at h
  obtain ⟨⟨before, head, rest⟩, hfind, ⟨body, after⟩, -, hcut⟩ := h
  cases hcut
  obtain ⟨f, hcs, hf⟩ := exists_of_findHeader hfind
  obtain ⟨b₁, b₂, b₃, b₄, -, -, -, -, -, -, -, rfl⟩ := afterNamespaceHeader_eq_some.1 hf
  exact ⟨_, hcs, rfl⟩

end Block

namespace TypedSource
open Tag Block Text

/-- Byte `n` stands in a comment, a string, a regular expression or a template literal, and is not
the first of it. -/
def Inside (content : List Char) (n : Nat) : Prop :=
  ∃ x ∈ passages .operator .start content, x.span.start < n ∧ n < x.span.stop

def InArguments (ts : List Tag) (n : Nat) : Prop :=
  ∃ t ∈ ts, (argumentSpan t).start < n ∧ n < (argumentSpan t).stop

def BeginsOutside (content : List Char) (x : Passage) : Prop :=
  ∀ cut ∈ Block.find? content, x.span.start < cut.span.start ∨ cut.span.stop ≤ x.span.start

/-- No swap reaches into a passage that begins outside the block. -/
def Spares (content : List Char) (ss : List Segment) : Prop :=
  ∀ e ∈ edits 0 ss, ∀ x ∈ passages .operator .start content, BeginsOutside content x →
    e.span.stop ≤ x.span.start ∨ x.span.stop ≤ e.span.start

section Place

variable {content : List Char} {ts : List Tag} {cut : Cut}

/-- Whether the block stands in code can be told from the text in front of it. -/
theorem inside_iff (hscan : scanFrom .operator .start content = .ok ts)
    (hcut : cut ∈ Block.find? content) : Inside content cut.span.start ↔
      ¬EndsInCode .operator .start cut.before ∧ ¬InArguments ts cut.span.start := by
  obtain ⟨f, rfl, hf⟩ := exists_letter hcut
  have hstart : cut.span.start = (Place.start.after cut.before).offset := by
    rw [Place.after_offset]
    exact (Nat.zero_add _).symm
  have hnone (h : ∀ x ∈ passages .operator .start (cut.before ++ f),
      x.span.stop ≤ cut.span.start ∨ cut.span.start ≤ x.span.start) :
      ¬Inside (cut.before ++ f) cut.span.start := by
    rintro ⟨x, hx, hlt, hgt⟩
    have := h x hx
    omega
  cases placed_of_scan hf hscan with
  | code hown hpassages =>
    rw [← hstart] at hpassages
    exact iff_of_false (hnone hpassages) fun h => h.1 hown
  | inside hown x hx hlt hgt =>
    rw [← hstart] at hlt hgt
    refine iff_of_true ⟨x, hx, hlt, hgt⟩ ⟨hown, ?_⟩
    rintro ⟨t, ht, htlt, htgt⟩
    have := passages_apart hscan ht hx
    omega
  | arguments t ht hlt hgt hpassages =>
    rw [← hstart] at hlt hgt hpassages
    exact iff_of_false (hnone hpassages) fun h => h.2 ⟨t, ht, hlt, hgt⟩

section Outside

variable (hcut : cut ∈ Block.find? content) (hout : ¬Inside content cut.span.start)

include hcut hout

theorem block_apart {x : Passage} (hx : x ∈ passages .operator .start content)
    (hbegin : BeginsOutside content x) :
    cut.span.stop ≤ x.span.start ∨ x.span.stop ≤ cut.span.start := by
  rcases hbegin cut hcut with h | h
  · exact .inr (Nat.le_of_not_lt fun hlt => hout ⟨x, hx, h, hlt⟩)
  · exact .inl h

theorem breaks_apart {kept breaks : List Char} (hbefore : cut.before = kept ++ breaks)
    (hbreaks : ∀ c ∈ breaks, c = '\n') {x : Passage}
    (hx : x ∈ passages .operator .start content) (hbegin : BeginsOutside content x) :
    cut.span.stop ≤ x.span.start ∨ x.span.stop ≤ size kept := by
  refine (block_apart hcut hout hx hbegin).imp_right fun hstop => ?_
  obtain ⟨front, text, back, happend, hspan, ⟨c, hc, -⟩, hlast⟩ := exists_passageText hx
  have hsize : x.span.stop = size (front ++ text) := by
    rw [hspan, size_append]
    exact congrArg (· + _) (Nat.zero_add _)
  have htext : (front ++ text) ++ back = kept ++ (breaks ++ (cut.middle ++ cut.after)) := by
    rw [List.append_assoc, ← happend, ← List.append_assoc kept, ← hbefore]
    exact find?_append hcut
  rw [hsize] at hstop ⊢
  refine Nat.le_of_not_lt fun hlt => ?_
  obtain ⟨m, hm, hrest⟩ := exists_append_of_size_le htext.symm hlt.le
  obtain ⟨n, hn, -⟩ := exists_append_of_size_le (a := front ++ text) (u := kept ++ breaks)
    (b := back) (v := cut.middle ++ cut.after) (by rw [htext, List.append_assoc])
    (hbefore ▸ hstop)
  have hmn : breaks = m ++ n := by
    rw [hm, List.append_assoc] at hn
    exact List.append_cancel_left hn
  obtain ⟨d, hd⟩ : ∃ d, m.getLast? = some d := by
    refine Option.ne_none_iff_exists'.1 fun hnone => ?_
    rw [List.getLast?_eq_none_iff.1 hnone, List.append_nil] at hm
    rw [hm] at hlt
    exact Nat.lt_irrefl _ hlt
  have hfeed : d = '\n' := hbreaks d (hmn ▸ List.mem_append_left _ (List.mem_of_getLast? hd))
  have hend := congrArg List.getLast? hm
  have hfull : text ≠ [] := by
    rintro rfl
    cases hc
  rw [List.getLast?_append, List.getLast?_append, hd, hfeed] at hend
  cases htl : text.getLast? with
  | none => exact hfull (List.getLast?_eq_none_iff.1 htl)
  | some e =>
    rw [htl] at hend hlast
    exact hlast hend

theorem blanks_apart (hblank : cut.after.all isBlank = true) {x : Passage}
    (hx : x ∈ passages .operator .start content) (hbegin : BeginsOutside content x) :
    x.span.stop ≤ cut.span.start := by
  refine (block_apart hcut hout hx hbegin).resolve_left fun hstart => ?_
  obtain ⟨front, text, back, happend, hspan, ⟨c, hc, hfirst⟩, -⟩ := exists_passageText hx
  have hsize : x.span.start = size front := by
    rw [hspan]
    exact Nat.zero_add _
  rw [hsize, show cut.span.stop = size (cut.before ++ cut.middle) from (size_append ..).symm]
    at hstart
  obtain ⟨m, -, hafter⟩ := exists_append_of_size_le (a := cut.before ++ cut.middle) (b := cut.after)
    (u := front) (v := text ++ back)
    (by rw [← happend, List.append_assoc]; exact (find?_append hcut).symm) hstart
  have hmem : c ∈ cut.after := by
    rw [hafter]
    exact List.mem_append_right _ (List.mem_append_left _ (List.mem_of_mem_head? hc))
  rw [List.all_eq_true.1 hblank c hmem] at hfirst
  cases hfirst

theorem exists_removed :
    ∃ ss, olds ss = content ∧ removeBlock cut = news ss ∧ Spares content ss := by
  obtain ⟨kept, breaks, hbefore, hbreaks, -, hremove⟩ := removeBlock_eq cut
  have happend : content = kept ++ (breaks ++ (cut.middle ++ cut.after)) := by
    rw [← List.append_assoc, ← hbefore]
    exact find?_append hcut
  rw [hremove]
  by_cases hblank : cut.after.all isBlank = true
  · refine ⟨[.keep kept, .swap (breaks ++ (cut.middle ++ cut.after))
      (if kept = [] then [] else ['\n'])], ?_, ?_, ?_⟩
    · simp [happend, Segment.old]
    · simp [hblank, Segment.new]
    · simp only [Spares, edits, List.mem_singleton, forall_eq, Nat.zero_add]
      intro x hx hbegin
      have hstop := blanks_apart hcut hout hblank hx hbegin
      refine .inr ((breaks_apart hcut hout hbefore hbreaks hx hbegin).resolve_left fun h => ?_)
      have := (passages_bounds hx).2.1
      have : cut.span.start ≤ cut.span.stop := Nat.le_add_right ..
      omega
  · refine ⟨[.keep kept, .swap (breaks ++ cut.middle) [], .keep cut.after], ?_, ?_, ?_⟩
    · simp [happend, Segment.old]
    · simp [hblank, Segment.new]
    · simp only [Spares, edits, List.mem_singleton, forall_eq, Nat.zero_add]
      intro x hx hbegin
      refine (breaks_apart hcut hout hbefore hbreaks hx hbegin).imp_left fun h => ?_
      rwa [size_append, ← Nat.add_assoc, ← size_append, ← hbefore]

end Outside

end Place

section Rendered

variable {content : List Char} {ts : List Tag} {path : String} {ds : List Declaration}
  {failed : List QueryRecord} (defaultType : String)
  (hscan : scanFrom .operator .start content = .ok ts)
  (hout : ∀ cut ∈ Block.find? content, ¬Inside content cut.span.start)

include hout

theorem exists_spared_of_nil (hkept : keptFrom content [] failed = []) :
    ∃ ss, olds ss = content ∧ render content [] failed defaultType = news ss ∧
      Spares content ss := by
  have hsame : ∃ ss, olds ss = content ∧ content = news ss ∧ Spares content ss :=
    ⟨[.keep content], by simp [Segment.old], by simp [Segment.new], by simp [Spares, edits]⟩
  rw [render]
  unfold keptFrom at hkept
  cases hfind : Block.find? content with
  | none => simpa using hsame
  | some cut =>
    rw [hfind] at hkept
    simp only [hkept, and_self, if_true]
    split
    · exact exists_removed hfind (hout cut hfind)
    · exact hsame

include hscan

theorem exists_spared (hdistinct : (ds.flatMap Declaration.queries).Nodup)
    (hqueries : ∀ q ∈ ds.flatMap Declaration.queries,
      q ∈ ts.map (QueryRecord.ofTag path content))
    (hapart : ∀ cut ∈ Block.find? content, ∀ t ∈ ts,
      QueryRecord.ofTag path content t ∈ ds.flatMap Declaration.queries →
        Apart (argumentSpan t) cut.span) :
    ∃ ss added, olds ss = content ∧ render content ds failed defaultType = news ss ++ added ∧
      ((Block.find? content).isSome → added = []) ∧ Spares content ss := by
  by_cases hsome : ds ≠ [] ∨ keptFrom content ds failed ≠ []
  · obtain ⟨-, ss, holds, hperm, hrender⟩ :=
      exists_swapped hscan hdistinct hqueries hapart failed defaultType hsome
    refine ⟨ss, _, holds, hrender, fun hfound => if_pos hfound, fun e he x hx hbegin => ?_⟩
    rcases List.mem_append.1 (hperm.subset he) with he | he
    · obtain ⟨t, ht, -, hspan⟩ := annotations_span hqueries e he
      exact hspan ▸ passages_apart hscan ht hx
    · obtain ⟨cut, hcut, rfl⟩ := Option.map_eq_some_iff.1 (Option.mem_toList.1 he)
      exact block_apart hcut (hout cut hcut) hx hbegin
  · obtain ⟨hds, hkept⟩ := not_or.1 hsome
    rw [not_not] at hds hkept
    subst hds
    obtain ⟨ss, holds, hrender, hspares⟩ := exists_spared_of_nil defaultType hout hkept
    exact ⟨ss, [], holds, by rw [hrender, List.append_nil], fun _ => rfl, hspares⟩

end Rendered

/-- The block begins inside a passage if and only if the text in front of it does not end in code
and it does not begin in the type arguments of a tag. If it begins in none, rendering changes no
passage but for those that begin in the block, as long as no query with a declaration has its type
arguments there. -/
theorem render_spares_passages {content : List Char} {ts : List Tag}
    (hscan : scanFrom .operator .start content = .ok ts) :
    (∀ cut ∈ Block.find? content, Inside content cut.span.start ↔
      ¬EndsInCode .operator .start cut.before ∧ ¬InArguments ts cut.span.start) ∧
    ((∀ cut ∈ Block.find? content, ¬Inside content cut.span.start) →
      ∀ (path : String) (ds : List Declaration) (failed : List QueryRecord) (defaultType : String),
        (ds.flatMap Declaration.queries).Nodup →
        (∀ q ∈ ds.flatMap Declaration.queries, q ∈ ts.map (QueryRecord.ofTag path content)) →
        (∀ cut ∈ Block.find? content, ∀ t ∈ ts,
          QueryRecord.ofTag path content t ∈ ds.flatMap Declaration.queries →
            Apart (argumentSpan t) cut.span) →
        ∃ ss added, olds ss = content ∧ render content ds failed defaultType = news ss ++ added ∧
          ((Block.find? content).isSome → added = []) ∧ Spares content ss) :=
  ⟨fun _ hcut => inside_iff hscan hcut, fun hout _ _ _ defaultType hdistinct hqueries hapart =>
    exists_spared defaultType hscan hout hdistinct hqueries hapart⟩

/-! A block behind a comment and a query, and headers that stand in a comment and in a query -/

def declareTag (content : List Char) (t : Tag) : Declaration :=
  ⟨"A", [], [], [], [QueryRecord.ofTag "q.ts" content t]⟩

def sparedText : List Char :=
  "// 'a'\nsql\x60b\x60\n\nexport declare namespace queries\x7b\x7d\n".toList

def sparedTag : Tag := ⟨10, none, ⟨10, 13⟩, 2, "b", 0⟩

theorem render_sparedText :
    scanFrom .operator .start sparedText = .ok [sparedTag] ∧
      passages .operator .start sparedText =
        [⟨.lineComment, ⟨0, 6⟩⟩, ⟨.template, ⟨10, 13⟩⟩] ∧
      (Block.find? sparedText).map Cut.span = some ⟨15, 49⟩ ∧
      (∀ cut ∈ Block.find? sparedText, EndsInCode .operator .start cut.before) ∧
      ∃ ss, olds ss = sparedText ∧
        render sparedText [declareTag sparedText sparedTag] [] "unknown" = news ss ∧
          Spares sparedText ss := by
  have hscan : scanFrom .operator .start sparedText = .ok [sparedTag] := by decide +kernel
  have hpassages : passages .operator .start sparedText =
      [⟨.lineComment, ⟨0, 6⟩⟩, ⟨.template, ⟨10, 13⟩⟩] := by decide +kernel
  have hfind : (Block.find? sparedText).map Cut.span = some ⟨15, 49⟩ := by decide +kernel
  have hspan : ∀ cut ∈ Block.find? sparedText, cut.span = ⟨15, 49⟩ := by
    intro cut hcut
    rw [Option.mem_def] at hcut
    simpa [hcut] using hfind
  have hout : ∀ cut ∈ Block.find? sparedText, ¬Inside sparedText cut.span.start := by
    intro cut hcut
    rw [hspan cut hcut, Inside, hpassages]
    decide
  have hapart : ∀ cut ∈ Block.find? sparedText, ∀ t ∈ [sparedTag],
      QueryRecord.ofTag "q.ts" sparedText t ∈
          [declareTag sparedText sparedTag].flatMap Declaration.queries →
        Apart (argumentSpan t) cut.span := by
    intro cut hcut t ht _
    rw [hspan cut hcut, List.mem_singleton.1 ht]
    exact .inl (by decide)
  have hends : ∀ cut ∈ Block.find? sparedText, EndsInCode .operator .start cut.before := by
    intro cut hcut
    by_contra hnot
    refine hout cut hcut (((render_spares_passages hscan).1 cut hcut).2 ⟨hnot, ?_⟩)
    rintro ⟨t, ht, -, hstop⟩
    rw [hspan cut hcut, List.mem_singleton.1 ht] at hstop
    exact absurd hstop (by decide)
  obtain ⟨ss, added, holds, hrender, hadded, hspares⟩ :=
    (render_spares_passages hscan).2 hout "q.ts" [declareTag sparedText sparedTag] [] "unknown"
      (by simp [declareTag]) (fun _ => id) hapart
  have hsome : (Block.find? sparedText).isSome = true := by
    rw [← Option.isSome_map, hfind]
    rfl
  rw [hadded hsome, List.append_nil] at hrender
  exact ⟨hscan, hpassages, hfind, hends, ss, holds, hrender, hspares⟩

theorem render_behind_tag {content between : List Char} {cut : Cut} {t : Tag}
    (hfind : Block.find? content = some cut) (hbefore : cut.before = word ++ between)
    (hbetween : between ≠ []) (hend : t.tagEnd = 3) (hnone : t.typeArguments = none)
    (defaultType : String) :
    render content [declareTag content t] [] defaultType =
      word ++ ("<queries.A>".toList ++
        (between ++ ((Block.render defaultType [declareTag content t]).toList ++ cut.after))) := by
  let block := (Block.render defaultType [declareTag content t]).toList
  let ss : List Segment := [.keep word, .swap [] "<queries.A>".toList, .keep between,
    .swap cut.middle block, .keep cut.after]
  have holds : olds ss = content := by
    rw [find?_append hfind, hbefore]
    simp [ss, Segment.old]
  have hsize : size word = 3 := rfl
  have hannotate : annotate "A" (QueryRecord.ofTag "q.ts" content t) =
      ⟨⟨3, 3⟩, "<queries.A>".toList⟩ := by
    have htext : ("<" ++ Reference.merge none "A" ++ ">").toList = "<queries.A>".toList := by
      decide +kernel
    simp only [annotate, QueryRecord.ofTag, hnone, hend, Option.map_none, Option.getD_none, htext]
  have hkept : keptFrom content [declareTag content t] [] = [] := by
    rw [keptFrom, hfind]
    rfl
  have hedits : renderEdits content [declareTag content t] [] defaultType = edits 0 ss := by
    have hspan : cut.span = ⟨3 + size between, 3 + size between + size cut.middle⟩ := by
      rw [Cut.span, hbefore, size_append, hsize]
    rw [renderEdits, nextEntries, hkept, hfind]
    change annotate "A" (QueryRecord.ofTag "q.ts" content t) :: [⟨cut.span, block⟩] = _
    rw [hannotate, hspan]
    rfl
  have hordered : Ordered (edits 0 ss) := by
    have hpos := size_pos hbetween
    simp only [Ordered, ss, edits, hsize, size_nil, List.pairwise_cons, List.mem_cons]
    simp
    omega
  have hbase : renderBase content [declareTag content t] [] defaultType = olds ss := by
    rw [renderBase, hfind, holds]
    rfl
  rw [render_eq_apply defaultType (.inl (by simp)), hbase, hedits,
    apply_edits (List.Perm.refl _) hordered]
  simp [ss, Segment.new, block]

def emptyBlock : List Char := "export declare namespace queries \x7b\x7d".toList

def commentedHeader : List Char := "sql\x60a\x60\n// ".toList ++ (emptyBlock ++ ['\n'])

def quotedHeader : List Char := "sql\x60".toList ++ (emptyBlock ++ ['\x60', '\n'])

def commentedTag : Tag := ⟨3, none, ⟨3, 6⟩, 1, "a", 0⟩

def quotedTag : Tag := ⟨3, none, ⟨3, 40⟩, 1, "export declare namespace queries \x7b\x7d", 0⟩

/-- The block is looked for in comments and queries as well, and written there. -/
theorem render_overwrites_passages :
    (scanFrom .operator .start commentedHeader = .ok [commentedTag] ∧
      passages .operator .start commentedHeader =
        [⟨.template, ⟨3, 6⟩⟩, ⟨.lineComment, ⟨7, 45⟩⟩] ∧
      (Block.find? commentedHeader).map Cut.span = some ⟨10, 45⟩ ∧ Inside commentedHeader 10 ∧
      render commentedHeader [declareTag commentedHeader commentedTag] [] "unknown" =
        "sql".toList ++ ("<queries.A>".toList ++ ("\x60a\x60\n// ".toList ++
          ((Block.render "unknown" [declareTag commentedHeader commentedTag]).toList ++
            ['\n'])))) ∧
    scanFrom .operator .start quotedHeader = .ok [quotedTag] ∧
      passages .operator .start quotedHeader = [⟨.template, ⟨3, 40⟩⟩] ∧
      (Block.find? quotedHeader).map Cut.span = some ⟨4, 39⟩ ∧ Inside quotedHeader 4 ∧
      render quotedHeader [declareTag quotedHeader quotedTag] [] "unknown" =
        "sql".toList ++ ("<queries.A>".toList ++ (['\x60'] ++
          ((Block.render "unknown" [declareTag quotedHeader quotedTag]).toList ++
            ['\x60', '\n']))) := by
  have hcommented : Block.find? commentedHeader =
      some ⟨"sql\x60a\x60\n// ".toList, emptyBlock, ['\n']⟩ := by decide +kernel
  have hquoted : Block.find? quotedHeader =
      some ⟨"sql\x60".toList, emptyBlock, ['\x60', '\n']⟩ := by decide +kernel
  have hpassages : passages .operator .start commentedHeader =
      [⟨.template, ⟨3, 6⟩⟩, ⟨.lineComment, ⟨7, 45⟩⟩] := by decide +kernel
  have htemplate : passages .operator .start quotedHeader = [⟨.template, ⟨3, 40⟩⟩] := by
    decide +kernel
  refine ⟨⟨by decide +kernel, hpassages, ?_, ?_, ?_⟩, by decide +kernel, htemplate, ?_, ?_, ?_⟩
  · rw [hcommented]
    decide +kernel
  · rw [Inside, hpassages]
    decide
  · exact render_behind_tag hcommented (by decide) (by decide) rfl rfl _
  · rw [hquoted]
    decide +kernel
  · rw [Inside, htemplate]
    decide
  · exact render_behind_tag hquoted (by decide) (by decide) rfl rfl _

end TypedSource
end RowTypes
