import RowTypes.Proofs.Merging
import RowTypes.Proofs.Placement

/-! The annotations of declarations as new type arguments for the tags of a text. Each query
belongs to one declaration at most, and its record is found by the tag. -/

namespace RowTypes.Tag
open TypedSource

theorem tagEnd_ge {p : Place} {ps : List Piece} :
    ∀ t ∈ tags p ps, p.offset + 3 ≤ t.tagEnd := by
  induction ps generalizing p with
  | nil => simp [tags]
  | cons q ps ih =>
    cases q with
    | plain w =>
      intro t ht
      have := ih t ht
      rw [Place.after_offset] at this
      omega
    | tag x =>
      intro t ht
      rcases List.mem_cons.1 ht with rfl | ht
      · exact Nat.le_of_eq (tag_tagEnd x p).symm
      · have := ih t ht
        rw [Place.after_offset] at this
        omega

theorem tags_pairwise (p : Place) (ps : List Piece) :
    (tags p ps).Pairwise fun a b => a.tagEnd < b.tagEnd := by
  induction ps generalizing p with
  | nil => exact List.Pairwise.nil
  | cons q ps ih =>
    cases q with
    | plain w => exact ih _
    | tag x =>
      refine List.pairwise_cons.2 ⟨fun t ht => ?_, ih _⟩
      have := tagEnd_ge t ht
      have hsize := size_pos (w := x.text) (by simp [TagText.text, word])
      rw [Place.after_offset] at this
      rw [tag_tagEnd]
      omega

theorem records_nodup (path : String) (content : List Char) (p : Place) (ps : List Piece) :
    ((tags p ps).map (QueryRecord.ofTag path content)).Nodup := by
  rw [List.Nodup, List.pairwise_map]
  refine (tags_pairwise p ps).imp fun {a b} hlt heq => ?_
  have : a.tagEnd = b.tagEnd := congrArg QueryRecord.tagEnd heq
  omega

theorem records_nodup_of_scan {content : List Char} {ts : List Tag}
    (h : scanFrom .operator .start content = .ok ts) (path : String) (text : List Char) :
    (ts.map (QueryRecord.ofTag path text)).Nodup := by
  obtain ⟨ps, -, rfl⟩ := exists_tags h
  exact records_nodup path text .start ps

end RowTypes.Tag

namespace RowTypes.TypedSource
open Tag

def nameOf? (ds : List Declaration) (q : QueryRecord) : Option String :=
  (ds.find? fun d => q ∈ d.queries).map Declaration.name

theorem nameOf?_eq_some {ds : List Declaration} (h : (ds.flatMap Declaration.queries).Nodup)
    {d : Declaration} (hd : d ∈ ds) {q : QueryRecord} (hq : q ∈ d.queries) :
    nameOf? ds q = some d.name := by
  induction ds with
  | nil => cases hd
  | cons e ds ih =>
    rw [List.flatMap_cons, List.nodup_append] at h
    obtain ⟨-, hrest, hdisjoint⟩ := h
    rcases List.mem_cons.1 hd with rfl | hd
    · simp [nameOf?, hq]
    · have hne : q ∉ e.queries := fun he =>
        hdisjoint q he q (List.mem_flatMap.2 ⟨d, hd, hq⟩) rfl
      have := ih hrest hd
      simpa [nameOf?, hne] using this

theorem nameOf?_eq_none {ds : List Declaration} {q : QueryRecord}
    (h : q ∉ ds.flatMap Declaration.queries) : nameOf? ds q = none := by
  rw [nameOf?, Option.map_eq_none_iff, List.find?_eq_none]
  intro d hd hq
  exact h (List.mem_flatMap.2 ⟨d, hd, by simpa using hq⟩)

theorem annotations_eq {ds : List Declaration} (h : (ds.flatMap Declaration.queries).Nodup) :
    annotations ds = (ds.flatMap Declaration.queries).filterMap fun q =>
      (nameOf? ds q).map fun n => annotate n q := by
  rw [annotations, List.filterMap_flatMap, List.flatMap_def, List.flatMap_def]
  congr 1
  refine List.map_congr_left fun d hd => ?_
  rw [← List.filterMap_eq_map]
  refine List.filterMap_congr fun q hq => ?_
  rw [nameOf?_eq_some h hd hq]
  rfl

theorem annotations_perm {ds : List Declaration} {failed records : List QueryRecord}
    (hn : records.Nodup) (h : (ds.flatMap Declaration.queries ++ failed).Perm records) :
    (annotations ds).Perm (records.filterMap fun q =>
      (nameOf? ds q).map fun n => annotate n q) := by
  have hnodup := (h.nodup_iff).2 hn
  rw [List.nodup_append] at hnodup
  have hfailed : failed.filterMap (fun q => (nameOf? ds q).map fun n => annotate n q) = [] := by
    rw [List.filterMap_eq_nil_iff]
    intro q hq
    rw [nameOf?_eq_none fun hm => hnodup.2.2 q hm q hq rfl]
    rfl
  have := h.filterMap fun q => (nameOf? ds q).map fun n => annotate n q
  rwa [List.filterMap_append, hfailed, List.append_nil, ← annotations_eq hnodup.1] at this

def newArguments (ds : List Declaration) (path : String) (content : List Char) (t : Tag) :
    Option (List Char) :=
  (nameOf? ds (QueryRecord.ofTag path content t)).map fun n =>
    (annotate n (QueryRecord.ofTag path content t)).text

theorem annotate_ofTag (name path : String) (content : List Char) (t : Tag) :
    annotate name (QueryRecord.ofTag path content t) =
      ⟨argumentSpan t, (annotate name (QueryRecord.ofTag path content t)).text⟩ := by
  have hspan : (annotate name (QueryRecord.ofTag path content t)).span = argumentSpan t := by
    cases h : t.typeArguments <;> simp [annotate, QueryRecord.ofTag, argumentSpan, h]
  rw [← hspan]

theorem annotations_tags {ds : List Declaration} {failed : List QueryRecord} {path : String}
    {content : List Char} {ts : List Tag} (hn : (ts.map (QueryRecord.ofTag path content)).Nodup)
    (h : (ds.flatMap Declaration.queries ++ failed).Perm
      (ts.map (QueryRecord.ofTag path content))) :
    (annotations ds).Perm (ts.filterMap (tagEdit (newArguments ds path content))) := by
  refine (annotations_perm hn h).trans (List.Perm.of_eq ?_)
  rw [List.filterMap_map]
  refine List.filterMap_congr fun t _ => ?_
  simp only [Function.comp_apply, tagEdit, newArguments, Option.map_map]
  congr 1
  funext n
  exact annotate_ofTag n path content t

end RowTypes.TypedSource

namespace RowTypes.Tag
open TypedSource

/-! The type arguments in the record of a tag -/

theorem closeAngle_getLast {quoted : Option Char} {depth : Nat} {afterEquals : Bool}
    {cs args rest : List Char} (h : closeAngle quoted depth afterEquals cs = some (args, rest)) :
    ∃ inside, args = inside ++ ['>'] := by
  fun_induction closeAngle quoted depth afterEquals cs generalizing args with
  | case1 => cases h
  | case6 depth afterEquals c cs hc =>
    cases h
    exact ⟨[], by rw [hc.1]; rfl⟩
  | case3 => cases h
  | case7 => cases h
  | case2 | case5 | case8 =>
    rename_i c cs _ _ ih
    obtain ⟨args, hx, rfl⟩ := map_fst_eq_some.1 h
    obtain ⟨inside, rfl⟩ := ih hx
    exact ⟨_ :: inside, rfl⟩
  | case4 =>
    rename_i ih
    obtain ⟨args, hx, rfl⟩ := map_fst_eq_some.1 h
    obtain ⟨inside, rfl⟩ := ih hx
    exact ⟨_ :: _ :: inside, rfl⟩

theorem Accepted.brackets {args : List Char} (h : Accepted args) :
    ∃ inside, args = '<' :: (inside ++ ['>']) := by
  unfold Accepted typeArguments? at h
  split at h
  · obtain ⟨args', hx, he⟩ := map_fst_eq_some.1 h
    obtain ⟨inside, rfl⟩ := closeAngle_getLast hx
    exact ⟨inside, he.symm⟩
  · cases h

def TagText.existing (x : TagText) : Option String :=
  x.args.map fun a => QueryRecord.trimText a.text.tail.dropLast

theorem slice_brackets (a inside b : List Char) :
    Text.slice ⟨Text.size a + 1, Text.size a + Text.size ('<' :: (inside ++ ['>'])) - 1⟩
      (a ++ ('<' :: (inside ++ ['>']) ++ b)) = inside := by
  have htext : a ++ ('<' :: (inside ++ ['>']) ++ b) = (a ++ ['<']) ++ (inside ++ ('>' :: b)) := by
    simp
  have hspan : Span.mk (Text.size a + 1) (Text.size a + Text.size ('<' :: (inside ++ ['>'])) - 1) =
      ⟨Text.size (a ++ ['<']), Text.size (a ++ ['<']) + Text.size inside⟩ := by
    have hlt : ('<' : Char).utf8Size = 1 := rfl
    have hgt : ('>' : Char).utf8Size = 1 := rfl
    simp only [Text.size_append, Text.size_cons, Text.size_nil, hlt, hgt, Span.mk.injEq]
    refine ⟨trivial, ?_⟩
    omega
  rw [htext, hspan, Text.slice_append]

theorem Stands.existing {content : List Char} {t : Tag} {x : TagText} (h : Stands content t x)
    (hx : x.Valid) (path : String) :
    (QueryRecord.ofTag path content t).typeArguments.map TypeArguments.text = x.existing := by
  obtain ⟨a, b, rfl, rfl⟩ := h
  obtain ⟨⟨gap, args⟩, body, sql, params⟩ := x
  cases args with
  | none => rfl
  | some args =>
    obtain ⟨inside, hinside⟩ := Accepted.brackets (hx.heading.args args rfl).closed
    have hcontent : a ++ (TagText.text ⟨⟨gap, some args⟩, body, sql, params⟩ ++ b) =
        (a ++ word ++ gap) ++ ('<' :: (inside ++ ['>']) ++ (args.gap ++ '\x60' :: body ++ b)) := by
      simp [TagText.text, TagText.heading, HeadingText.text, hinside]
    have hspan : HeadingText.span ((Place.start.after a).after word) ⟨gap, some args⟩ =
        some ⟨Text.size (a ++ word ++ gap), Text.size (a ++ word ++ gap) + Text.size args.text⟩ := by
      simp only [HeadingText.span, Option.map_some, ← Place.after_append, start_after_offset,
        Text.size_append]
    simp only [QueryRecord.ofTag, TagText.tag, hspan, hcontent, TagText.existing, Option.map_some,
      hinside, slice_brackets]
    simp

end RowTypes.Tag
