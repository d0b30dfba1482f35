import RowTypes.Proofs.Edits

/-! Edits of a text whose spans lie between its characters and do not meet. The text is segments,
each kept or swapped by one of the edits, and no splice reaches behind the end of the text that
it is made to or into one of its characters. -/

namespace RowTypes.Text

def IsBoundary (n : Nat) (cs : List Char) : Prop := size (upTo n cs) = n

instance (n : Nat) (cs : List Char) : Decidable (IsBoundary n cs) :=
  inferInstanceAs (Decidable (_ = _))

theorem isBoundary_iff {n : Nat} {cs : List Char} :
    IsBoundary n cs ↔ ∃ a b, cs = a ++ b ∧ size a = n := by
  constructor
  · intro h
    exact ⟨upTo n cs, fromByte n cs, (upTo_append_fromByte n cs).symm, h⟩
  · rintro ⟨a, b, rfl, rfl⟩
    rw [IsBoundary, upTo_size_append]

/-- What a splice replaces is a part of the text. -/
def Fits (s : Span) (cs : List Char) : Prop :=
  s.start ≤ s.stop ∧ IsBoundary s.start cs ∧ IsBoundary s.stop cs

instance (s : Span) (cs : List Char) : Decidable (Fits s cs) :=
  inferInstanceAs (Decidable (_ ∧ _))

theorem eq_nil_of_size {w : List Char} (h : size w = 0) : w = [] := by
  cases w with
  | nil => rfl
  | cons c w =>
    have := c.utf8Size_pos
    rw [size_cons] at h
    omega

theorem exists_append_of_size_le {a b u v : List Char} (h : a ++ b = u ++ v)
    (hsize : size a ≤ size u) : ∃ m, u = a ++ m ∧ b = m ++ v := by
  rcases List.append_eq_append_iff.1 h with ⟨m, hu, hb⟩ | ⟨m, rfl, rfl⟩
  · exact ⟨m, hu, hb⟩
  · have hm : m = [] := eq_nil_of_size (by rw [size_append] at hsize; omega)
    subst hm
    exact ⟨[], by simp, rfl⟩

theorem fits_iff {s : Span} {cs : List Char} :
    Fits s cs ↔ ∃ a b c, cs = a ++ (b ++ c) ∧ s = ⟨size a, size a + size b⟩ := by
  constructor
  · rintro ⟨hle, hstart, hstop⟩
    obtain ⟨a, b, rfl, ha⟩ := isBoundary_iff.1 hstart
    obtain ⟨u, c, hu, hsize⟩ := isBoundary_iff.1 hstop
    obtain ⟨m, rfl, rfl⟩ := exists_append_of_size_le hu (by omega)
    refine ⟨a, m, c, rfl, ?_⟩
    rw [← size_append, hsize, ha]
  · rintro ⟨a, b, c, rfl, rfl⟩
    refine ⟨Nat.le_add_right .., isBoundary_iff.2 ⟨a, b ++ c, rfl, rfl⟩,
      isBoundary_iff.2 ⟨a ++ b, c, by simp, by simp⟩⟩

def splice? (span : Span) (new cs : List Char) : Option (List Char) :=
  if Fits span cs then some (splice span new cs) else none

theorem splice?_append (a b c new : List Char) :
    splice? ⟨size a, size a + size b⟩ new (a ++ (b ++ c)) = some (a ++ (new ++ c)) := by
  rw [splice?, if_pos (fits_iff.2 ⟨a, b, c, rfl, rfl⟩), splice_append]

def Apart (s t : Span) : Prop :=
  s.stop ≤ t.start ∧ s.start < t.start ∨ t.stop ≤ s.start ∧ t.start < s.start

theorem Apart.symm {s t : Span} (h : Apart s t) : Apart t s := h.elim .inr .inl

end RowTypes.Text

namespace RowTypes.TypedSource
open Text

/-- The edits in the order in which `apply` makes them, each to a text of which its span is a
part. -/
def applied? (es : List Edit) (content : List Char) : Option (List Char) :=
  (es.mergeSort fun a b => decide (b.span.start ≤ a.span.start)).foldlM
    (fun cs e => splice? e.span e.text cs) content

theorem foldl_of_foldlM_splice? {es : List Edit} {content out : List Char}
    (h : es.foldlM (fun cs e => splice? e.span e.text cs) content = some out) :
    es.foldl (fun cs e => splice e.span e.text cs) content = out := by
  induction es generalizing content with
  | nil => exact Option.some.inj h
  | cons e es ih =>
    rw [List.foldlM_cons] at h
    obtain ⟨cs, hcs, hrest⟩ := Option.bind_eq_some_iff.1 h
    rw [splice?] at hcs
    split at hcs
    · cases hcs
      exact ih hrest
    · cases hcs

theorem apply_of_applied? {es : List Edit} {content out : List Char}
    (h : applied? es content = some out) : apply es content = out :=
  foldl_of_foldlM_splice? h

theorem splice?_edits (before : List Char) (ss : List Segment) :
    (edits (size before) ss).foldrM (fun e cs => splice? e.span e.text cs) (before ++ olds ss) =
      some (before ++ news ss) := by
  induction ss generalizing before with
  | nil => rfl
  | cons s ss ih =>
    cases s with
    | keep w =>
      have := ih (before ++ w)
      simpa [edits, Segment.old, Segment.new] using this
    | swap old new =>
      have := ih (before ++ old)
      rw [size_append, List.append_assoc, List.append_assoc] at this
      rw [edits, List.foldrM_cons, olds_cons, Segment.old, this]
      exact splice?_append before old (news ss) new

theorem applied?_edits {es : List Edit} {ss : List Segment} (h : es.Perm (edits 0 ss))
    (ho : Ordered (edits 0 ss)) : applied? es (olds ss) = some (news ss) := by
  rw [applied?, mergeSort_edits h ho, List.foldlM_reverse]
  exact splice?_edits [] ss

theorem edits_fit (before : List Char) (ss : List Segment) (after : List Char) :
    ∀ e ∈ edits (size before) ss, Fits e.span (before ++ (olds ss ++ after)) := by
  induction ss generalizing before with
  | nil => simp [edits]
  | cons s ss ih =>
    cases s with
    | keep w =>
      have := ih (before ++ w)
      simpa [edits, Segment.old] using this
    | swap old new =>
      have := ih (before ++ old)
      rw [size_append] at this
      rw [edits, List.forall_mem_cons, olds_cons, Segment.old]
      exact ⟨fits_iff.2 ⟨before, old, olds ss ++ after, by simp, rfl⟩, by simpa using this⟩

theorem exists_segments_behind {es : List Edit} {before rest : List Char}
    (hfit : ∀ e ∈ es, Fits e.span (before ++ rest))
    (hstart : ∀ e ∈ es, size before ≤ e.span.start)
    (hpair : es.Pairwise fun e f => e.span.stop ≤ f.span.start) :
    ∃ ss, olds ss = rest ∧ edits (size before) ss = es := by
  induction es generalizing before rest with
  | nil => exact ⟨[.keep rest], by simp [Segment.old], rfl⟩
  | cons e es ih =>
    obtain ⟨hhead, htail⟩ := List.forall_mem_cons.1 hfit
    obtain ⟨hfirst, hrest⟩ := List.pairwise_cons.1 hpair
    have hle := (List.forall_mem_cons.1 hstart).1
    obtain ⟨u, old, w, htext, hspan⟩ := fits_iff.1 hhead
    rw [hspan] at hle
    obtain ⟨kept, rfl, rfl⟩ := exists_append_of_size_le htext hle
    rw [← size_append] at hspan
    have hstop : e.span.stop = size (before ++ kept ++ old) := by rw [hspan]
    obtain ⟨ss, hold, hedits⟩ := @ih (before ++ kept ++ old) w (by simpa using htail)
      (fun f hf => hstop ▸ hfirst f hf) hrest
    refine ⟨.keep kept :: .swap old e.text :: ss, by simp [Segment.old, hold], ?_⟩
    rw [edits, edits, ← size_append, ← size_append, hedits, ← hspan]

/-- A text is segments around edits that are apart from each other. -/
theorem exists_segments {es : List Edit} {content : List Char}
    (hfit : ∀ e ∈ es, Fits e.span content) (hapart : es.Pairwise fun e f => Apart e.span f.span) :
    ∃ ss, olds ss = content ∧ (edits 0 ss).Perm es ∧ Ordered (edits 0 ss) := by
  let sorted := es.mergeSort fun a b => decide (a.span.start ≤ b.span.start)
  have hperm : sorted.Perm es := List.mergeSort_perm es _
  have hsorted : sorted.Pairwise fun a b => a.span.start ≤ b.span.start := by
    have htrans : ∀ a b c : Edit, decide (a.span.start ≤ b.span.start) →
        decide (b.span.start ≤ c.span.start) → decide (a.span.start ≤ c.span.start) := by
      simp only [decide_eq_true_eq]
      exact fun a b c => Nat.le_trans
    have htotal : ∀ a b : Edit, decide (a.span.start ≤ b.span.start) ||
        decide (b.span.start ≤ a.span.start) := by
      simp only [Bool.or_eq_true, decide_eq_true_eq]
      exact fun a b => Nat.le_total ..
    exact (List.pairwise_mergeSort htrans htotal es).imp of_decide_eq_true
  have hboth := hsorted.and ((hperm.pairwise_iff fun h => h.symm).2 hapart)
  have hfollow : sorted.Pairwise fun e f =>
      e.span.stop ≤ f.span.start ∧ e.span.start < f.span.start := by
    refine hboth.imp ?_
    rintro e f ⟨hle, h | h⟩
    · exact h
    · omega
  have hfit' : ∀ e ∈ sorted, Fits e.span ([] ++ content) := fun e he => hfit e (hperm.subset he)
  obtain ⟨ss, holds, hedits⟩ := exists_segments_behind hfit' (fun e _ => Nat.zero_le _)
    (hfollow.imp And.left)
  change edits 0 ss = sorted at hedits
  refine ⟨ss, holds, ?_⟩
  rw [hedits]
  exact ⟨hperm, hfollow.imp And.right⟩

end RowTypes.TypedSource
