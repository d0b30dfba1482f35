import RowTypes.Proofs.Retag
import RowTypes.Source.Typed

/-! A text with edits applied is its segments, each kept or swapped for another. The places of
the edits are those of the segments in the old text, and the order in which they are listed
does not matter. -/

namespace RowTypes.TypedSource
open Tag

inductive Segment where
  | keep (text : List Char)
  | swap (old new : List Char)

def Segment.old : Segment → List Char
  | keep w => w
  | swap old _ => old

def Segment.new : Segment → List Char
  | keep w => w
  | swap _ new => new

def olds (ss : List Segment) : List Char := (ss.map Segment.old).flatten

def news (ss : List Segment) : List Char := (ss.map Segment.new).flatten

@[simp] theorem olds_nil : olds [] = [] := rfl

@[simp] theorem olds_cons (s : Segment) (ss : List Segment) :
    olds (s :: ss) = s.old ++ olds ss := rfl

@[simp] theorem olds_append (ss ts : List Segment) : olds (ss ++ ts) = olds ss ++ olds ts := by
  simp [olds]

@[simp] theorem news_nil : news [] = [] := rfl

@[simp] theorem news_cons (s : Segment) (ss : List Segment) :
    news (s :: ss) = s.new ++ news ss := rfl

@[simp] theorem news_append (ss ts : List Segment) : news (ss ++ ts) = news ss ++ news ts := by
  simp [news]

def edits (start : Nat) : List Segment → List Edit
  | [] => []
  | .keep w :: ss => edits (start + Text.size w) ss
  | .swap old new :: ss =>
    ⟨⟨start, start + Text.size old⟩, new⟩ :: edits (start + Text.size old) ss

theorem edits_append (start : Nat) (ss ts : List Segment) :
    edits start (ss ++ ts) = edits start ss ++ edits (start + Text.size (olds ss)) ts := by
  induction ss generalizing start with
  | nil => rfl
  | cons s ss ih => cases s <;> simp [edits, ih, Segment.old, Nat.add_assoc]

theorem edits_start_le {start : Nat} {ss : List Segment} :
    ∀ e ∈ edits start ss, start ≤ e.span.start := by
  induction ss generalizing start with
  | nil => simp [edits]
  | cons s ss ih =>
    cases s with
    | keep w =>
      intro e he
      exact Nat.le_of_add_right_le (ih e he)
    | swap old new =>
      intro e he
      rcases List.mem_cons.1 he with rfl | he
      · exact Nat.le_refl _
      · exact Nat.le_of_add_right_le (ih e he)

def Ordered (es : List Edit) : Prop := es.Pairwise fun a b => a.span.start < b.span.start

theorem Ordered.eq_of_start {es : List Edit} (h : Ordered es) {a b : Edit} (ha : a ∈ es)
    (hb : b ∈ es) (hab : a.span.start = b.span.start) : a = b := by
  have hlt : es.Pairwise fun a b => a.span.start = b.span.start → a = b :=
    h.imp fun hlt heq => absurd heq (Nat.ne_of_lt hlt)
  have hgt : es.Pairwise fun a b => b.span.start = a.span.start → b = a :=
    h.imp fun hlt heq => absurd heq (Nat.ne_of_gt hlt)
  exact List.Pairwise.forall_of_forall_of_flip (fun _ _ _ => rfl) hlt hgt ha hb hab

theorem splice_edits (before : List Char) (ss : List Segment) :
    (edits (Text.size before) ss).foldr (fun e cs => Text.splice e.span e.text cs)
      (before ++ olds ss) = before ++ news ss := by
  induction ss generalizing before with
  | nil => rfl
  | cons s ss ih =>
    cases s with
    | keep w =>
      have := ih (before ++ w)
      simpa [edits, Segment.old, Segment.new] using this
    | swap old new =>
      have := ih (before ++ old)
      rw [Text.size_append, List.append_assoc, List.append_assoc] at this
      rw [edits, List.foldr_cons, olds_cons, Segment.old, this, Text.splice_append]
      rfl

theorem mergeSort_edits {es es' : List Edit} (h : es'.Perm es) (ho : Ordered es) :
    (es'.mergeSort fun a b => decide (b.span.start ≤ a.span.start)) = es.reverse := by
  have hp := (List.mergeSort_perm es' fun a b => decide (b.span.start ≤ a.span.start)).trans
    (h.trans (List.reverse_perm es).symm)
  have hsorted : (es'.mergeSort fun a b => decide (b.span.start ≤ a.span.start)).Pairwise
      fun a b => b.span.start ≤ a.span.start := by
    have htrans : ∀ a b c : Edit, decide (b.span.start ≤ a.span.start) →
        decide (c.span.start ≤ b.span.start) → decide (c.span.start ≤ a.span.start) := by
      simp only [decide_eq_true_eq]
      exact fun a b c hab hbc => Nat.le_trans hbc hab
    have htotal : ∀ a b : Edit, decide (b.span.start ≤ a.span.start) ||
        decide (a.span.start ≤ b.span.start) := by
      simp only [Bool.or_eq_true, decide_eq_true_eq]
      exact fun a b => Nat.le_total ..
    exact (List.pairwise_mergeSort htrans htotal es').imp of_decide_eq_true
  have hreverse : es.reverse.Pairwise fun a b => b.span.start ≤ a.span.start := by
    rw [List.pairwise_reverse]
    exact ho.imp fun h => Nat.le_of_lt h
  refine List.Perm.eq_of_pairwise ?_ hsorted hreverse hp
  intro a b ha hb hab hba
  rw [hp.mem_iff, List.mem_reverse] at ha
  rw [List.mem_reverse] at hb
  exact ho.eq_of_start ha hb (Nat.le_antisymm hba hab)

instance (es : List Edit) : Decidable (Ordered es) :=
  inferInstanceAs (Decidable (es.Pairwise fun a b => a.span.start < b.span.start))

theorem apply_ordered {es es' : List Edit} (h : es'.Perm es) (ho : Ordered es)
    (content : List Char) :
    apply es' content = es.foldr (fun e cs => Text.splice e.span e.text cs) content := by
  rw [apply, mergeSort_edits h ho, List.foldl_reverse]

theorem apply_edits {es : List Edit} {ss : List Segment} (h : es.Perm (edits 0 ss))
    (ho : Ordered (edits 0 ss)) : apply es (olds ss) = news ss := by
  rw [apply_ordered h ho]
  exact splice_edits [] ss

/-! The segments of a source text in pieces -/

def tagSegments (t : TagText) : Option (List Char) → List Segment
  | none => [.keep t.text]
  | some new => [.keep (word ++ t.lead), .swap t.typed new, .keep t.tail]

theorem tagSegments_olds (t : TagText) (new : Option (List Char)) :
    olds (tagSegments t new) = t.text := by
  cases new with
  | none => simp [tagSegments, Segment.old]
  | some new => simp [tagSegments, Segment.old, t.text_eq]

theorem tagSegments_news (t : TagText) (new : Option (List Char)) :
    news (tagSegments t new) = (t.setArgs new).text := by
  cases new with
  | none => simp [tagSegments, Segment.new, TagText.setArgs]
  | some new => simp [tagSegments, Segment.new, TagText.setArgs_text]

def pieceSegments (args : Tag → Option (List Char)) (p : Place) : List Piece → List Segment
  | [] => []
  | .plain w :: ps => .keep w :: pieceSegments args (p.after w) ps
  | .tag t :: ps => tagSegments t (args (t.tag p)) ++ pieceSegments args (p.after t.text) ps

theorem pieceSegments_olds (args : Tag → Option (List Char)) (p : Place) (ps : List Piece) :
    olds (pieceSegments args p ps) = texts ps := by
  induction ps generalizing p with
  | nil => rfl
  | cons q ps ih =>
    cases q <;> simp [pieceSegments, ih, Segment.old, Piece.text, tagSegments_olds]

theorem pieceSegments_news (args : Tag → Option (List Char)) (p : Place) (ps : List Piece) :
    news (pieceSegments args p ps) = texts (retag args p ps) := by
  induction ps generalizing p with
  | nil => rfl
  | cons q ps ih =>
    cases q <;> simp [pieceSegments, retag, ih, Segment.new, Piece.text, tagSegments_news]

def argumentSpan (t : Tag) : Span := t.typeArguments.getD ⟨t.tagEnd, t.tagEnd⟩

def tagEdit (args : Tag → Option (List Char)) (t : Tag) : Option Edit :=
  (args t).map fun new => ⟨argumentSpan t, new⟩

theorem argumentSpan_tag (p : Place) (t : TagText) :
    argumentSpan (t.tag p) = ⟨p.offset + Text.size (word ++ t.lead),
      p.offset + Text.size (word ++ t.lead) + Text.size t.typed⟩ := by
  have h := t.toHeadingText.span_getD (p.after word)
  simp only [← Place.after_append, Place.after_offset] at h
  simp only [argumentSpan, TagText.tag, Place.after_offset, h]

theorem pieceSegments_edits (args : Tag → Option (List Char)) (p : Place) (ps : List Piece) :
    edits p.offset (pieceSegments args p ps) = (tags p ps).filterMap (tagEdit args) := by
  induction ps generalizing p with
  | nil => rfl
  | cons q ps ih =>
    cases q with
    | plain w =>
      rw [pieceSegments, edits, Tag.tags, ← ih, Place.after_offset]
    | tag t =>
      rw [pieceSegments, edits_append, tagSegments_olds, Tag.tags, List.filterMap_cons, ← ih,
        Place.after_offset, tagEdit]
      cases args (t.tag p) with
      | none => rfl
      | some new => simp [tagSegments, edits, argumentSpan_tag, Nat.add_assoc]

theorem ordered_append {es es' : List Edit} (h : Ordered es) (h' : Ordered es') {n : Nat}
    (hn : ∀ e ∈ es, e.span.start < n) (hn' : ∀ e ∈ es', n ≤ e.span.start) :
    Ordered (es ++ es') :=
  List.pairwise_append.2 ⟨h, h', fun a ha b hb => Nat.lt_of_lt_of_le (hn a ha) (hn' b hb)⟩

theorem tagSegments_start_lt (t : TagText) (new : Option (List Char)) (start : Nat) :
    ∀ e ∈ edits start (tagSegments t new), e.span.start < start + Text.size t.text := by
  have htail : 0 < Text.size t.tail := size_pos (by simp [TagText.tail])
  cases new with
  | none => simp [tagSegments, edits]
  | some new =>
    simp only [tagSegments, edits, List.mem_singleton, forall_eq, t.text_eq, Text.size_append]
    omega

theorem pieceSegments_ordered (args : Tag → Option (List Char)) (p : Place) (ps : List Piece) :
    Ordered (edits p.offset (pieceSegments args p ps)) := by
  induction ps generalizing p with
  | nil => exact List.Pairwise.nil
  | cons q ps ih =>
    cases q with
    | plain w =>
      have := ih (p.after w)
      rwa [Place.after_offset] at this
    | tag t =>
      have := ih (p.after t.text)
      rw [Place.after_offset] at this
      rw [pieceSegments, edits_append, tagSegments_olds]
      refine ordered_append ?_ this (tagSegments_start_lt t _ _) edits_start_le
      cases args (t.tag p) with
      | none => exact List.Pairwise.nil
      | some new => exact List.pairwise_singleton ..

theorem pieceSegments_start_lt (args : Tag → Option (List Char)) (p : Place) (ps : List Piece) :
    ∀ e ∈ edits p.offset (pieceSegments args p ps),
      e.span.start < p.offset + Text.size (texts ps) := by
  induction ps generalizing p with
  | nil => simp [pieceSegments, edits]
  | cons q ps ih =>
    cases q with
    | plain w =>
      have := ih (p.after w)
      rw [Place.after_offset] at this
      simpa [pieceSegments, edits, Piece.text, Nat.add_assoc] using this
    | tag t =>
      have := ih (p.after t.text)
      rw [Place.after_offset] at this
      rw [pieceSegments, edits_append, tagSegments_olds, texts_cons, Piece.text, Text.size_append]
      intro e he
      rcases List.mem_append.1 he with he | he
      · have := tagSegments_start_lt t (args (t.tag p)) p.offset e he
        omega
      · have := this e he
        omega

end RowTypes.TypedSource
