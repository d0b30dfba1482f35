import Mathlib.Data.List.Pairwise
import RowTypes.Proofs.Rendering
import RowTypes.Proofs.Splicing

/-! What rendering leaves alone. A text that scans keeps all but the type arguments of the queries
that have declarations and the block, if the block does not reach into a tag. The edits need not
come in the order of the text. -/

namespace RowTypes.Block

theorem closeBrace_append {inside : Inside} {depth : Nat} {cs body after : List Char}
    (h : closeBrace inside depth cs = some (body, after)) : body ++ after = cs := by
  fun_induction closeBrace inside depth cs generalizing body <;> simp_all <;> grind

theorem findHeader_append_eq {header : List Char → Option (List Char)} (hl : Local header)
    {cs before head rest : List Char} (h : findHeader header cs = some (before, head, rest)) :
    cs = before ++ (head ++ rest) := by
  induction cs generalizing before with
  | nil => cases h
  | cons c cs ih =>
    rw [findHeader] at h
    cases hread : header (c :: cs) with
    | some r =>
      obtain ⟨u, hu, -⟩ := hl _ _ hread
      have htake : (c :: cs).take ((c :: cs).length - r.length) = u := by
        rw [hu, List.length_append, Nat.add_sub_cancel, List.take_left]
      simp only [hread, htake] at h
      cases h
      exact hu
    | none =>
      rw [hread] at h
      obtain ⟨⟨a, b, r⟩, hfind, heq⟩ := Option.map_eq_some_iff.1 h
      cases heq
      exact congrArg (c :: ·) (ih hfind)

theorem find?_append {cs : List Char} {cut : Cut} (h : find? cs = some cut) :
    cs = cut.before ++ (cut.middle ++ cut.after) := by
  simp only [find?, findBraced, Option.bind_eq_bind, Option.bind_eq_some_iff] at h
  obtain ⟨⟨before, head, rest⟩, hfind, ⟨body, after⟩, hclose, hcut⟩ := h
  cases hcut
  have hrest : body ++ after = rest := closeBrace_append hclose
  rw [findHeader_append_eq local_namespaceHeader hfind, ← hrest]
  simp

end RowTypes.Block

namespace RowTypes.Tag
open TypedSource

theorem forall_tags {P : Tag → Prop} (h : ∀ (p : Place) (x : TagText), P (x.tag p)) {p : Place}
    {ps : List Piece} : ∀ t ∈ tags p ps, P t := by
  induction ps generalizing p with
  | nil => simp [tags]
  | cons q ps ih =>
    cases q with
    | plain w => exact ih
    | tag x => exact List.forall_mem_cons.2 ⟨h p x, ih⟩

structure InOrder (t : Tag) : Prop where
  word : 3 ≤ t.tagEnd
  args : t.tagEnd ≤ (argumentSpan t).start
  closed : (argumentSpan t).start ≤ (argumentSpan t).stop
  template : (argumentSpan t).stop ≤ t.template.start
  full : t.template.start < t.template.stop

theorem inOrder_tag (p : Place) (x : TagText) : (x.tag p).InOrder := by
  have htext : Text.size x.text = Text.size word + (Text.size x.heading +
      Text.size ('\x60' :: x.body)) := by
    simp only [TagText.text, Text.size_append]
  have hheading : Text.size x.heading =
      Text.size x.lead + (Text.size x.typed + Text.size x.toHeadingText.tail) := by
    rw [TagText.heading, x.toHeadingText.text_eq, Text.size_append, Text.size_append]
  have hbody : 0 < Text.size ('\x60' :: x.body) := size_pos (by simp)
  have hword : Text.size word = 3 := rfl
  have hend : (x.tag p).tagEnd = p.offset + 3 := tag_tagEnd x p
  have hspan := argumentSpan_tag p x
  have hstart : (x.tag p).template.start = p.offset + 3 + Text.size x.heading := by
    simp only [TagText.tag, Place.after_offset, hword]
  have hstop : (x.tag p).template.stop = p.offset + Text.size x.text := Place.after_offset ..
  rw [Text.size_append, hword] at hspan
  constructor <;> simp only [hend, hspan, hstart, hstop] <;> omega

theorem tags_follow (p : Place) (ps : List Piece) :
    (tags p ps).Pairwise fun t u => t.template.stop + 3 ≤ u.tagEnd := by
  induction ps generalizing p with
  | nil => exact List.Pairwise.nil
  | cons q ps ih =>
    cases q with
    | plain w => exact ih _
    | tag x => exact List.pairwise_cons.2 ⟨tagEnd_ge, ih _⟩

theorem inOrder_of_scan {b : Code.Before} {p : Place} {cs : List Char} {ts : List Tag}
    (hscan : scanFrom b p cs = .ok ts) : ∀ t ∈ ts, t.InOrder := by
  obtain ⟨ps, -, rfl⟩ := exists_tags hscan
  exact forall_tags inOrder_tag

section Scan

variable {content : List Char} {ts : List Tag}
  (hscan : scanFrom .operator .start content = .ok ts)

include hscan

theorem follow_of_ne {t u : Tag} (ht : t ∈ ts) (hu : u ∈ ts) (hne : t ≠ u) :
    t.template.stop + 3 ≤ u.tagEnd ∨ u.template.stop + 3 ≤ t.tagEnd := by
  obtain ⟨ps, -, rfl⟩ := exists_tags hscan
  have hor : (tags .start ps).Pairwise fun t u =>
      t.template.stop + 3 ≤ u.tagEnd ∨ u.template.stop + 3 ≤ t.tagEnd :=
    (tags_follow .start ps).imp Or.inl
  have : Std.Symm fun t u : Tag =>
      t.template.stop + 3 ≤ u.tagEnd ∨ u.template.stop + 3 ≤ t.tagEnd := ⟨fun _ _ h => h.symm⟩
  exact hor.forall ht hu hne

theorem argumentSpan_fits : ∀ t ∈ ts, Text.Fits (argumentSpan t) content := by
  obtain ⟨ps, rfl, rfl⟩ := exists_tags hscan
  intro t ht
  have hfit := edits_fit [] (pieceSegments (fun _ => some []) .start ps) []
  rw [pieceSegments_olds, List.append_nil] at hfit
  have hedits := pieceSegments_edits (fun _ => some []) .start ps
  change edits (Text.size []) _ = _ at hedits
  rw [hedits] at hfit
  exact hfit _ (List.mem_filterMap.2 ⟨t, ht, rfl⟩)

end Scan

end RowTypes.Tag

namespace RowTypes.TypedSource
open Tag Block Text

section Edits

variable {content : List Char} {ts : List Tag} {path : String} {ds : List Declaration}

theorem annotate_span (name path : String) (content : List Char) (t : Tag) :
    (annotate name (QueryRecord.ofTag path content t)).span = argumentSpan t :=
  congrArg Edit.span (annotate_ofTag name path content t)

theorem annotations_span (hqueries : ∀ q ∈ ds.flatMap Declaration.queries,
      q ∈ ts.map (QueryRecord.ofTag path content)) :
    ∀ e ∈ annotations ds, ∃ t ∈ ts,
      QueryRecord.ofTag path content t ∈ ds.flatMap Declaration.queries ∧
        e.span = argumentSpan t := by
  intro e he
  obtain ⟨d, hd, he⟩ := List.mem_flatMap.1 he
  obtain ⟨q, hq, rfl⟩ := List.mem_map.1 he
  have hmem := List.mem_flatMap.2 ⟨d, hd, hq⟩
  obtain ⟨t, ht, rfl⟩ := List.mem_map.1 (hqueries q hmem)
  exact ⟨t, ht, hmem, annotate_span d.name path content t⟩

theorem annotations_apart (hscan : scanFrom .operator .start content = .ok ts)
    (hdistinct : (ds.flatMap Declaration.queries).Nodup)
    (hqueries : ∀ q ∈ ds.flatMap Declaration.queries,
      q ∈ ts.map (QueryRecord.ofTag path content)) :
    (annotations ds).Pairwise fun e f => Apart e.span f.span := by
  rw [annotations_eq hdistinct, List.pairwise_filterMap]
  refine hdistinct.imp_of_mem fun {q r} hq hr hne e he f hf => ?_
  obtain ⟨t, ht, rfl⟩ := List.mem_map.1 (hqueries q hq)
  obtain ⟨u, hu, rfl⟩ := List.mem_map.1 (hqueries r hr)
  obtain ⟨name, -, rfl⟩ := Option.map_eq_some_iff.1 he
  obtain ⟨other, -, rfl⟩ := Option.map_eq_some_iff.1 hf
  rw [annotate_span, annotate_span]
  obtain ⟨-, htargs, htclosed, httemplate, htfull⟩ := inOrder_of_scan hscan t ht
  obtain ⟨-, huargs, huclosed, hutemplate, hufull⟩ := inOrder_of_scan hscan u hu
  have htu : t ≠ u := fun h => hne (h ▸ rfl)
  simp only [Apart]
  rcases follow_of_ne hscan ht hu htu with h | h <;> omega

end Edits

section Frame

variable {content : List Char} {ts : List Tag} {path : String} {ds : List Declaration}
  (hscan : scanFrom .operator .start content = .ok ts)
  (hdistinct : (ds.flatMap Declaration.queries).Nodup)
  (hqueries : ∀ q ∈ ds.flatMap Declaration.queries,
    q ∈ ts.map (QueryRecord.ofTag path content))

include hscan hqueries

theorem renderEdits_fit (failed : List QueryRecord) (defaultType : String) :
    ∀ e ∈ renderEdits content ds failed defaultType, Fits e.span content := by
  intro e he
  rcases List.mem_append.1 he with he | he
  · obtain ⟨t, ht, -, hspan⟩ := annotations_span hqueries e he
    exact hspan ▸ argumentSpan_fits hscan t ht
  · obtain ⟨cut, hcut, rfl⟩ := Option.map_eq_some_iff.1 (Option.mem_toList.1 he)
    exact fits_iff.2 ⟨cut.before, cut.middle, cut.after, find?_append hcut, rfl⟩

include hdistinct in
theorem renderEdits_apart (hapart : ∀ cut ∈ Block.find? content, ∀ t ∈ ts,
      QueryRecord.ofTag path content t ∈ ds.flatMap Declaration.queries →
        Apart (argumentSpan t) cut.span) (failed : List QueryRecord) (defaultType : String) :
    (renderEdits content ds failed defaultType).Pairwise fun e f => Apart e.span f.span := by
  refine List.pairwise_append.2 ⟨annotations_apart hscan hdistinct hqueries, ?_, ?_⟩
  · cases Block.find? content with
    | none => exact List.Pairwise.nil
    | some cut => exact List.pairwise_singleton ..
  · intro e he f hf
    obtain ⟨cut, hcut, rfl⟩ := Option.map_eq_some_iff.1 (Option.mem_toList.1 hf)
    obtain ⟨t, ht, hmem, hspan⟩ := annotations_span hqueries e he
    exact hspan ▸ hapart cut hcut t ht hmem

variable (hblock : ∀ cut ∈ Block.find? content, ∀ t ∈ ts,
  cut.span.stop + 3 ≤ t.tagEnd ∨ t.template.stop ≤ cut.span.start)

include hblock

omit hqueries in
theorem argumentSpan_apart : ∀ cut ∈ Block.find? content, ∀ t ∈ ts,
    Apart (argumentSpan t) cut.span := by
  intro cut hcut t ht
  obtain ⟨hword, hargs, hclosed, htemplate, hfull⟩ := inOrder_of_scan hscan t ht
  have hle : cut.span.start ≤ cut.span.stop := Nat.le_add_right ..
  rw [Apart]
  rcases hblock cut hcut t ht with h | h <;> omega

theorem renderEdits_template (failed : List QueryRecord) (defaultType : String) :
    ∀ e ∈ renderEdits content ds failed defaultType, ∀ t ∈ ts,
      e.span.stop ≤ t.template.start ∨ t.template.stop ≤ e.span.start := by
  intro e he t ht
  obtain ⟨hword, hargs, hclosed, htemplate, hfull⟩ := inOrder_of_scan hscan t ht
  rcases List.mem_append.1 he with he | he
  · obtain ⟨u, hu, -, hspan⟩ := annotations_span hqueries e he
    obtain ⟨-, huargs, huclosed, hutemplate, hufull⟩ := inOrder_of_scan hscan u hu
    rw [hspan]
    by_cases hut : u = t
    · subst hut
      exact .inl htemplate
    · rcases follow_of_ne hscan hu ht hut with h | h <;> omega
  · obtain ⟨cut, hcut, rfl⟩ := Option.map_eq_some_iff.1 (Option.mem_toList.1 he)
    simp only
    rcases hblock cut hcut t ht with h | h <;> omega

end Frame

theorem render_eq_apply {content : List Char} {ds : List Declaration} {failed : List QueryRecord}
    (defaultType : String) (hsome : ds ≠ [] ∨ keptFrom content ds failed ≠ []) :
    render content ds failed defaultType =
      apply (renderEdits content ds failed defaultType)
        (renderBase content ds failed defaultType) := by
  rw [render, renderEdits, renderBase, nextEntries]
  cases hfind : Block.find? content with
  | none =>
    have hds : ds ≠ [] := by simpa [keptFrom, hfind] using hsome
    simp [keptFrom, hfind, hds]
  | some cut =>
    have hnone : ¬(ds = [] ∧ carried cut.middle ds failed = []) := by
      simpa [keptFrom, hfind, imp_iff_not_or] using hsome
    simp [keptFrom, hfind, hnone]

/-- The type arguments of a query, in the place of those that it has, or behind the word `sql` where
it has none. -/
def queryEdit (name : String) (q : QueryRecord) : Edit :=
  match q.typeArguments with
  | some a => ⟨a.range, '<' :: ((Reference.merge (some a.text) name).toList ++ ['>'])⟩
  | none => ⟨⟨q.tagEnd, q.tagEnd⟩, '<' :: ((Reference.merge none name).toList ++ ['>'])⟩

def queryEdits (ds : List Declaration) : List Edit :=
  ds.flatMap fun d => d.queries.map (queryEdit d.name)

def blockEdits (content : List Char) (block : String) : List Edit :=
  match Block.find? content with
  | some cut => [⟨cut.span, block.toList⟩]
  | none => []

theorem annotate_eq : annotate = queryEdit := by
  funext name q
  unfold annotate queryEdit
  cases q.typeArguments <;> simp

theorem renderEdits_eq (content : List Char) (ds : List Declaration) (failed : List QueryRecord)
    (defaultType : String) : renderEdits content ds failed defaultType =
      queryEdits ds ++
        blockEdits content (ofTexts (nextEntries content ds failed defaultType)) := by
  have hqueries : annotations ds = queryEdits ds := by
    unfold annotations queryEdits
    rw [annotate_eq]
  unfold renderEdits blockEdits
  rw [hqueries]
  cases Block.find? content <;> rfl

/-- A new block at the end of a text that has had none. -/
def addition (content : List Char) (block : String) : List Char :=
  if (Block.find? content).isSome then [] else separator content ++ (block.toList ++ ['\n'])

theorem renderBase_eq (content : List Char) (ds : List Declaration) (failed : List QueryRecord)
    (defaultType : String) : renderBase content ds failed defaultType =
      content ++ addition content (ofTexts (nextEntries content ds failed defaultType)) := by
  rw [renderBase, addition]
  split
  · rw [List.append_nil]
  · rw [appendBlock, separator, List.append_assoc, List.append_assoc]

theorem exists_swapped {content : List Char} {ts : List Tag} {path : String}
    {ds : List Declaration} (hscan : scanFrom .operator .start content = .ok ts)
    (hdistinct : (ds.flatMap Declaration.queries).Nodup)
    (hqueries : ∀ q ∈ ds.flatMap Declaration.queries,
      q ∈ ts.map (QueryRecord.ofTag path content))
    (hapart : ∀ cut ∈ Block.find? content, ∀ t ∈ ts,
      QueryRecord.ofTag path content t ∈ ds.flatMap Declaration.queries →
        Apart (argumentSpan t) cut.span)
    (failed : List QueryRecord) (defaultType : String)
    (hsome : ds ≠ [] ∨ keptFrom content ds failed ≠ []) :
    applied? (renderEdits content ds failed defaultType)
        (renderBase content ds failed defaultType) =
      some (render content ds failed defaultType) ∧
    ∃ ss, olds ss = content ∧ (edits 0 ss).Perm (renderEdits content ds failed defaultType) ∧
      render content ds failed defaultType =
        news ss ++ addition content (ofTexts (nextEntries content ds failed defaultType)) := by
  obtain ⟨ss, holds, hperm, hordered⟩ :=
    exists_segments (renderEdits_fit hscan hqueries failed defaultType)
      (renderEdits_apart hscan hdistinct hqueries hapart failed defaultType)
  generalize hadded : addition content (ofTexts (nextEntries content ds failed defaultType)) =
    added
  have hedits : edits 0 (ss ++ [.keep added]) = edits 0 ss := by simp [edits_append, edits]
  have hbase : olds (ss ++ [.keep added]) = renderBase content ds failed defaultType := by
    rw [renderBase_eq, hadded, olds_append, holds, olds_cons, olds_nil, List.append_nil]
    rfl
  have happly := applied?_edits (hedits ▸ hperm.symm) (hedits ▸ hordered)
  rw [hbase] at happly
  have hrender : render content ds failed defaultType = news (ss ++ [.keep added]) := by
    rw [render_eq_apply defaultType hsome, apply_of_applied? happly]
  refine ⟨hrender ▸ happly, ss, holds, hperm, ?_⟩
  rw [hrender, news_append, news_cons, news_nil, List.append_nil]
  rfl

theorem isInfix_iff {part cs : List Char} : isInfix part cs = true ↔ part <:+: cs := by
  induction cs with
  | nil => simp [isInfix]
  | cons c cs ih =>
    rw [isInfix, Bool.or_eq_true, ih, List.isPrefixOf_iff_prefix, List.infix_cons_iff]

theorem removeBlock_eq (cut : Cut) : ∃ kept breaks, cut.before = kept ++ breaks ∧
    (∀ c ∈ breaks, c = '\n') ∧ kept.getLast? ≠ some '\n' ∧
      removeBlock cut = kept ++ (if cut.after.all isBlank then (if kept = [] then [] else ['\n'])
        else cut.after) := by
  let breaks := (cut.before.reverse.takeWhile (· = '\n')).reverse
  let kept := (cut.before.reverse.dropWhile (· = '\n')).reverse
  have hbefore : cut.before = kept ++ breaks := by
    rw [← List.reverse_append, List.takeWhile_append_dropWhile, List.reverse_reverse]
  refine ⟨kept, breaks, hbefore, fun c hc => ?_, fun h => ?_, ?_⟩
  · simpa using of_mem_takeWhile c (List.mem_reverse.1 hc)
  · rw [List.getLast?_reverse] at h
    have hhead := head?_dropWhile_all (p := fun c => decide (c = '\n')) cut.before.reverse
    rw [h] at hhead
    simp at hhead
  · rw [removeBlock]
    change (if _ then if kept = [] then [] else kept ++ ['\n'] else kept ++ cut.after) = _
    split
    · split
      · simp [*]
      · rfl
    · rfl

/-- Rendering changes the type arguments of the queries that have declarations and the block, and
nothing else. All splices replace a part of the text. With nothing to declare, a block goes away
if it has the header. -/
theorem render_frame {content : List Char} {ts : List Tag} {path : String}
    {ds : List Declaration} (hscan : scanFrom .operator .start content = .ok ts)
    (hdistinct : (ds.flatMap Declaration.queries).Nodup)
    (hqueries : ∀ q ∈ ds.flatMap Declaration.queries,
      q ∈ ts.map (QueryRecord.ofTag path content))
    (hblock : ∀ cut ∈ Block.find? content, ∀ t ∈ ts,
      cut.span.stop + 3 ≤ t.tagEnd ∨ t.template.stop ≤ cut.span.start)
    (failed : List QueryRecord) (defaultType : String) :
    let block := ofTexts (nextEntries content ds failed defaultType)
    (ds ≠ [] ∨ keptFrom content ds failed ≠ [] →
      applied? (queryEdits ds ++ blockEdits content block) (content ++ addition content block) =
        some (render content ds failed defaultType) ∧
      ∃ ss, olds ss = content ∧ (edits 0 ss).Perm (queryEdits ds ++ blockEdits content block) ∧
        (∀ e ∈ edits 0 ss, ∀ t ∈ ts,
          e.span.stop ≤ t.template.start ∨ t.template.stop ≤ e.span.start) ∧
        render content ds failed defaultType = news ss ++ addition content block) ∧
    (ds = [] → keptFrom content ds failed = [] →
      (∀ cut ∈ Block.find? content, header.toList <:+: cut.middle →
        ∃ kept breaks, content = kept ++ (breaks ++ (cut.middle ++ cut.after)) ∧
          (∀ c ∈ breaks, c = '\n') ∧ kept.getLast? ≠ some '\n' ∧
          render content ds failed defaultType =
            kept ++ (if cut.after.all isBlank then (if kept = [] then [] else ['\n'])
              else cut.after)) ∧
      ((∀ cut ∈ Block.find? content, ¬header.toList <:+: cut.middle) →
        render content ds failed defaultType = content)) := by
  intro block
  constructor
  · intro hsome
    rw [← renderEdits_eq, ← renderBase_eq]
    obtain ⟨happly, ss, holds, hperm, hrender⟩ :=
      exists_swapped hscan hdistinct hqueries
        (fun cut hcut t ht _ => argumentSpan_apart hscan hblock cut hcut t ht) failed defaultType
        hsome
    exact ⟨happly, ss, holds, hperm, fun e he =>
      renderEdits_template hscan hqueries hblock failed defaultType e (hperm.subset he), hrender⟩
  · intro hds hkept
    subst hds
    rw [render]
    unfold keptFrom at hkept
    cases hfind : Block.find? content with
    | none => simp
    | some cut =>
      rw [hfind] at hkept
      simp only [hkept, and_self, if_true, Option.mem_some_iff, forall_eq', isInfix_iff]
      refine ⟨fun hheader => ?_, fun hheader => if_neg hheader⟩
      obtain ⟨kept, breaks, hbefore, hbreaks, hlast, hremove⟩ := removeBlock_eq cut
      refine ⟨kept, breaks, ?_, hbreaks, hlast, ?_⟩
      · rw [find?_append hfind, hbefore, List.append_assoc]
      · rw [if_pos hheader, hremove]

/-! A block between two queries that share a declaration -/

def framedText : List Char :=
  "sql<x>\x60é\x60\nexport declare namespace queries\x7b\x7d\nsql\x60b\x60".toList

def framedTags : List Tag :=
  [⟨3, some ⟨3, 6⟩, ⟨6, 10⟩, 1, "é", 0⟩, ⟨49, none, ⟨49, 52⟩, 3, "b", 0⟩]

def framedDeclaration : Declaration :=
  ⟨"A", [], [], [], [⟨"q.ts", ⟨49, 52⟩, 3, "b", none, 49, .inline, 0⟩,
    ⟨"q.ts", ⟨6, 10⟩, 1, "é", some ⟨⟨3, 6⟩, "x"⟩, 3, .inline, 0⟩]⟩

theorem render_framedText :
    scanFrom .operator .start framedText = .ok framedTags ∧
      ([framedDeclaration].flatMap Declaration.queries).Nodup ∧
      (∀ q ∈ [framedDeclaration].flatMap Declaration.queries,
        q ∈ framedTags.map (QueryRecord.ofTag "q.ts" framedText)) ∧
      (∀ cut ∈ Block.find? framedText, ∀ t ∈ framedTags,
        cut.span.stop + 3 ≤ t.tagEnd ∨ t.template.stop ≤ cut.span.start) ∧
      ∃ ss, olds ss = framedText ∧
        (edits 0 ss).Perm
          (⟨⟨49, 49⟩, "<queries.A>".toList⟩ :: ⟨⟨3, 6⟩, "<queries.A>".toList⟩ ::
            blockEdits framedText (ofTexts (nextEntries framedText [framedDeclaration] []
              "unknown"))) ∧
        render framedText [framedDeclaration] [] "unknown" = news ss := by
  have hscan : scanFrom .operator .start framedText = .ok framedTags := by decide +kernel
  have hdistinct : ([framedDeclaration].flatMap Declaration.queries).Nodup := by decide +kernel
  have hqueries : ∀ q ∈ [framedDeclaration].flatMap Declaration.queries,
      q ∈ framedTags.map (QueryRecord.ofTag "q.ts" framedText) := by decide +kernel
  have hfind : (Block.find? framedText).map Cut.span = some ⟨11, 45⟩ := by decide +kernel
  have hblock : ∀ cut ∈ Block.find? framedText, ∀ t ∈ framedTags,
      cut.span.stop + 3 ≤ t.tagEnd ∨ t.template.stop ≤ cut.span.start := by
    intro cut hcut
    rw [Option.mem_def] at hcut
    rw [hcut, Option.map_some, Option.some.injEq] at hfind
    rw [hfind]
    decide
  obtain ⟨-, ss, holds, hperm, -, hrender⟩ :=
    (render_frame hscan hdistinct hqueries hblock [] "unknown").1 (.inl (by simp))
  have hsome : (Block.find? framedText).isSome = true := by
    rw [← Option.isSome_map, hfind]
    rfl
  have hedits : queryEdits [framedDeclaration] =
      [⟨⟨49, 49⟩, "<queries.A>".toList⟩, ⟨⟨3, 6⟩, "<queries.A>".toList⟩] := by decide +kernel
  rw [addition, hsome, if_pos rfl, List.append_nil] at hrender
  rw [hedits, List.cons_append, List.cons_append, List.nil_append] at hperm
  exact ⟨hscan, hdistinct, hqueries, hblock, ss, holds, hperm, hrender⟩

end RowTypes.TypedSource
