import RowTypes.Proofs.Running

/-! A run on the text that a run has left. The queries are the same, but annotations that span
several lines have become shorter, so queries may stand on other lines. Where the name of a
declaration has the line of a query in it, the second run finds another name. -/

namespace RowTypes.Generation
open Tag Block TypedSource

/-- The query of the tag has given its line to the name of its declaration. -/
def LendsLine (answer : Tag → Except String QueryTypes) (path : String) (content : List Char)
    (ts : List Tag) (t : Tag) : Prop :=
  ∃ ty, answer t = .ok ty ∧ ∃ d ∈ declarations answer path content ts,
    d.queries.head? = some (QueryRecord.ofTag path content t) ∧
      d.name ≠ DescribedQuery.baseName ⟨QueryRecord.ofTag path content t, ty⟩

section Lines

variable {answer : Tag → Except String QueryTypes} {path : String} {content out : List Char}
  {ts ts' : List Tag} {f : QueryRecord → QueryRecord}
  (hmoved : List.Forall₂ (fun t t' => f (QueryRecord.ofTag path content t) =
    QueryRecord.ofTag path out t') ts ts')

include hmoved

theorem linesStay_iff : Declaration.LinesStay f (described answer path content ts) ↔
    List.Forall₂ (fun t t' => LendsLine answer path content ts t → t'.line = t.line) ts ts' := by
  constructor
  · intro h
    have hmem := (List.forall₂_and_left _ _).2 ⟨fun t ht => ht, hmoved⟩
    refine hmem.imp ?_
    rintro t t' ⟨ht, hmove⟩ ⟨ty, hty, d, hd, hhead, hne⟩
    have := h _ (mem_described.2 ⟨t, ht, ty, hty, rfl⟩) d hd hhead hne
    simp only [hmove] at this
    exact this
  · intro h q hq d hd hhead hne
    obtain ⟨t, ht, ty, hty, rfl⟩ := mem_described.1 hq
    have hboth := List.Forall₂.mp (fun t t' hline hmove => And.intro hline hmove) h hmoved
    obtain ⟨t', -, hline, hmove⟩ := exists_of_forall₂ hboth.flip t ht
    simp only [hmove]
    exact hline ⟨ty, hty, d, hd, hhead, hne⟩

end Lines

theorem group_names_eq {answer answer' : Tag → Except String QueryTypes} {path : String}
    {content out : List Char} {ts ts' : List Tag} {f : QueryRecord → QueryRecord}
    (hmoved : List.Forall₂ (fun t t' => f (QueryRecord.ofTag path content t) =
      QueryRecord.ofTag path out t') ts ts')
    (hanswer : List.Forall₂ (fun t t' => answer' t' = answer t) ts ts')
    (hn : (ts.map (QueryRecord.ofTag path content)).Nodup)
    (hn' : (ts'.map (QueryRecord.ofTag path out)).Nodup)
    (hnames : List.Forall₂ (fun t t' => ∀ name name',
      nameOf? (declarations answer path content ts) (QueryRecord.ofTag path content t) = some name →
        nameOf? (declarations answer' path out ts') (QueryRecord.ofTag path out t') = some name' →
          name' = name) ts ts') :
    (declarations answer' path out ts').map Declaration.name =
      (declarations answer path content ts).map Declaration.name := by
  obtain ⟨hdescribed, -⟩ := described_move hmoved hanswer
  have hqueries := Declaration.group_move_queries (baseName_move hmoved answer)
  rw [← hdescribed] at hqueries
  change List.Forall₂ _ (declarations answer path content ts) (declarations answer' path out ts')
    at hqueries
  rw [← List.forall₂_eq_eq_eq, List.forall₂_map_left_iff, List.forall₂_map_right_iff]
  have hnodup := declarations_nodup answer hn
  have hnodup' := declarations_nodup answer' hn'
  refine List.Forall₂.flip (List.forall₂_iff_zip.2 ⟨hqueries.length_eq, fun {d d'} hmem => ?_⟩)
  obtain ⟨hd, hd'⟩ := List.of_mem_zip hmem
  have hmove := (List.forall₂_iff_zip.1 hqueries).2 hmem
  -- the first query of the declaration tells its name
  obtain ⟨q, hq, hhead⟩ := Declaration.group_head hd
  obtain ⟨t, ht, ty, -, rfl⟩ := mem_described.1 hq
  have hboth := List.Forall₂.mp (fun t t' hname hmove => And.intro hname hmove) hnames hmoved
  obtain ⟨t', -, hname, hmovet⟩ := exists_of_forall₂ hboth.flip t ht
  have hfirst : QueryRecord.ofTag path content t ∈ d.queries := List.mem_of_head? hhead
  refine hname d.name d'.name (nameOf?_eq_some hnodup hd hfirst) (nameOf?_eq_some hnodup' hd' ?_)
  rw [hmove, ← hmovet]
  exact List.mem_map_of_mem hfirst

section Again

variable {answer answer' : Tag → Except String QueryTypes} {path defaultType : String}
  {content out : List Char} {ts ts' : List Tag}

theorem failures_references (hn : (ts.map (QueryRecord.ofTag path content)).Nodup)
    (hannotated : List.Forall₂ (Annotated (newArguments (declarations answer path content ts) path
      content) content out) ts ts')
    (hanswer : List.Forall₂ (fun t t' => answer' t' = answer t) ts ts') :
    (failures answer' path out ts').filterMap reference? =
      (failures answer path content ts).filterMap reference? := by
  have hnone : ∀ t ∈ ts, (∃ e, answer t = .error e) →
      newArguments (declarations answer path content ts) path content t = none :=
    fun t ht hfail => newArguments_failed hn ht hfail
  generalize newArguments (declarations answer path content ts) path content = args
    at hannotated hnone
  clear hn
  induction hannotated with
  | nil => rfl
  | @cons t t' ts ts' h _ ih =>
    rw [List.forall₂_cons] at hanswer
    rw [List.forall_mem_cons] at hnone
    have hrest := ih hanswer.2 hnone.2
    rw [failures_cons, failures_cons, hanswer.1]
    cases ht : answer t with
    | ok ty => exact hrest
    | error e =>
      rw [List.filterMap_cons, List.filterMap_cons, reference?_eq h (hnone.1 ⟨e, ht⟩), hrest]

theorem render_again_iff {l : Layout} (hs : Scanned content ts)
    (hb : Headerless afterNamespaceHeader content ∨ ∃ cut, HoldsBlock content ts cut ∧ InCode cut)
    (hr : Regular answer path defaultType content ts)
    (hreadable : Readable content (declarations answer path content ts)
      (failures answer path content ts) defaultType)
    (hsome : nextEntries content (declarations answer path content ts)
      (failures answer path content ts) defaultType ≠ [])
    (hl : l.Valid)
    (hout : out = render content (declarations answer path content ts)
      (failures answer path content ts) defaultType)
    (hrender : out = l.text (nextEntries content (declarations answer path content ts)
      (failures answer path content ts) defaultType))
    (hts' : ts' = tags .start (l.pieces (nextEntries content (declarations answer path content ts)
      (failures answer path content ts) defaultType)))
    (hannotated : List.Forall₂ (Annotated (newArguments (declarations answer path content ts) path
      content) content out) ts ts')
    (hanswer : List.Forall₂ (fun t t' => answer' t' = answer t) ts ts') :
    render out (declarations answer' path out ts') (failures answer' path out ts') defaultType =
        out ↔
      List.Forall₂ (fun t t' => LendsLine answer path content ts t → t'.line = t.line) ts ts' := by
  have hg := hr.groups
  have he := hg.nextEntries_plain hreadable.kept
  have hscan : scanFrom .operator .start out = .ok ts' := by rw [hrender, hl.scan he, hts']
  have hn := records_nodup_of_scan hs.scan path content
  have hn' := records_nodup_of_scan hscan path out
  have hmoved := relocated_tags path out hn hannotated.length_eq
  obtain ⟨hdescribed, hfailures⟩ := described_move hmoved hanswer
  have hbase := baseName_move hmoved answer
  obtain ⟨hkept', hsame⟩ := hreadable.again hr.identifier hg.plain hl hrender
    (failures_references hn hannotated hanswer) (fun h => by rw [hfailures, h, List.map_nil])
    (declarations answer' path out ts')
  rw [← linesStay_iff hmoved]
  constructor
  · intro hfixed
    have hg' := hr.groups_again (hanswer.imp fun _ _ h _ hty => h ▸ hty) hn hn' hannotated
    have hsome' : nextEntries out (declarations answer' path out ts')
        (failures answer' path out ts') defaultType ≠ [] := by
      intro hnil
      obtain ⟨hds', hkept⟩ := List.append_eq_nil_iff.1 hnil
      have hds : declarations answer path content ts = [] := by
        have hlength := (Declaration.group_move_queries hbase).length_eq
        rw [← hdescribed] at hlength
        exact List.length_eq_zero_iff.1 (hlength.trans
          (congrArg List.length (List.map_eq_nil_iff.1 hds')))
      rw [hsame (by rw [List.map_eq_nil_iff.1 hds', hds])] at hkept
      exact hsome (by rw [nextEntries, hkept, hds]; rfl)
    have hnames := nameOf?_of_render_eq hl he hrender hts' hg hannotated hg' hkept' hsome' hfixed
    have := group_names_eq hmoved hanswer hn hn' hnames
    rw [declarations, hdescribed] at this
    exact (Declaration.group_move_names hbase (described_nodup hn)).1 this
  · intro hlines
    have hdeclarations : declarations answer' path out ts' =
        (declarations answer path content ts).map (relocate
          (ts.map (QueryRecord.ofTag path content)) (ts'.map (QueryRecord.ofTag path out))) := by
      rw [declarations, hdescribed, Declaration.group_move hbase (described_nodup hn) hlines]
      rfl
    have hnames : (declarations answer' path out ts').map Declaration.name =
        (declarations answer path content ts).map Declaration.name := by
      rw [hdeclarations, List.map_map]
      rfl
    have hcarried := hsame hnames
    rw [hdeclarations, hfailures] at hcarried ⊢
    exact render_relocated rfl rfl hs hb hg hreadable.kept hsome hout hscan
      (hannotated.imp fun _ _ => Annotated.rewritten) hcarried

end Again

/-- A second run changes nothing exactly if each query that has lent its line to the name of its
declaration is still on that line. -/
theorem second_run_changes_nothing_iff {types : String → Except String QueryTypes}
    {defaultType path content : String} {ts : List Tag} (hpath : isSqlPath path = false)
    (hs : Scanned content.toList ts)
    (hb : Headerless afterNamespaceHeader content.toList ∨
      ∃ cut, HoldsBlock content.toList ts cut ∧ InCode cut ∧
        nextEntries content.toList (declarations (fun t => types t.sql) path content.toList ts)
          (failures (fun t => types t.sql) path content.toList ts) defaultType ≠ [])
    (hr : Regular (fun t => types t.sql) path defaultType content.toList ts)
    (hreadable : Readable content.toList
      (declarations (fun t => types t.sql) path content.toList ts)
      (failures (fun t => types t.sql) path content.toList ts) defaultType) :
    ∃ ts', Tag.scan (regenerate types defaultType path content) = .ok ts' ∧
      (regenerate types defaultType path (regenerate types defaultType path content) =
          regenerate types defaultType path content ↔
        List.Forall₂ (fun t t' => LendsLine (fun t => types t.sql) path content.toList ts t →
          t'.line = t.line) ts ts') := by
  have hscan : Tag.scan content = .ok ts := hs.scan
  rw [regenerate_scan hpath hscan]
  clear hscan
  generalize content.toList = text at hs hb hr hreadable ⊢
  generalize hanswer : (fun t : Tag => types t.sql) = answer at hb hr hreadable ⊢
  by_cases hsome : nextEntries text (declarations answer path text ts)
      (failures answer path text ts) defaultType = []
  · -- nothing is written, and no declaration has a name
    have hh : Headerless afterNamespaceHeader text := by
      rcases hb with hh | ⟨cut, -, -, hne⟩
      · exact hh
      · exact absurd hsome hne
    have hds : declarations answer path text ts = [] :=
      List.map_eq_nil_iff.1 (List.append_eq_nil_iff.1 hsome).1
    rw [hds, render_headerless_nil hh]
    have hscan : Tag.scan (String.ofList text) = .ok ts := by
      rw [Tag.scan, String.toList_ofList, hs.scan]
    refine ⟨ts, hscan, ?_⟩
    rw [regenerate_scan hpath hscan, String.toList_ofList, hanswer, hds, render_headerless_nil hh]
    refine iff_of_true rfl (List.forall₂_same.2 fun t _ => ?_)
    rintro ⟨ty, -, d, hd, -⟩
    exact absurd hd (by rw [hds]; exact List.not_mem_nil)
  have hb' : Headerless afterNamespaceHeader text ∨ ∃ cut, HoldsBlock text ts cut ∧ InCode cut := by
    rcases hb with hh | ⟨cut, hblock, hcode, -⟩
    · exact .inl hh
    · exact .inr ⟨cut, hblock, hcode⟩
  obtain ⟨l, hl, hrender, hannotated⟩ := exists_annotated hs hb' hr.groups hsome
  have hscan := hl.scan (hr.groups.nextEntries_plain hreadable.kept)
  rw [← hrender] at hscan
  generalize hts' : tags .start (l.pieces (nextEntries text (declarations answer path text ts)
    (failures answer path text ts) defaultType)) = ts' at hscan hannotated
  generalize hout : render text (declarations answer path text ts) (failures answer path text ts)
    defaultType = out at hrender hscan hannotated ⊢
  rw [← String.toList_ofList (l := out)] at hscan
  refine ⟨ts', hscan, ?_⟩
  rw [regenerate_scan hpath hscan, String.toList_ofList, hanswer, String.ofList_inj]
  refine render_again_iff hs hb' hr hreadable hsome hl hout.symm hrender hts'.symm hannotated ?_
  refine hannotated.imp fun t t' h => ?_
  rw [← hanswer]
  exact congrArg types h.rewritten.1.sql

/-! Two queries of which the first has type arguments on two lines -/

def sampleTypes (sql : String) : Except String QueryTypes :=
  .ok ⟨if sql = "a" then [] else [⟨"?", true, "", "", .number, none⟩], [], [], []⟩

def sampleText : String := "sql<\x7b\n\x7d>\x60a\x60\nsql\x60b\x60\n"

def sampleTags : List Tag :=
  [⟨3, some ⟨3, 8⟩, ⟨8, 11⟩, 1, "a", 0⟩, ⟨15, none, ⟨15, 18⟩, 3, "b", 0⟩]

theorem sample_read : isSqlPath "q.ts" = false ∧ Scanned sampleText.toList sampleTags ∧
    Headerless afterNamespaceHeader sampleText.toList ∧
    Readable sampleText.toList
      (declarations (fun t => sampleTypes t.sql) "q.ts" sampleText.toList sampleTags)
      (failures (fun t => sampleTypes t.sql) "q.ts" sampleText.toList sampleTags) "unknown" := by
  unfold sampleText
  rw [String.toList_ofList]
  exact ⟨by decide +kernel, ⟨by decide +kernel, by decide +kernel⟩,
    headerless_of_findHeader local_namespaceHeader (by decide +kernel), .inl (by decide +kernel)⟩

theorem sample_regular :
    Regular (fun t => sampleTypes t.sql) "q.ts" "unknown" sampleText.toList sampleTags where
  identifier := by decide
  names := by decide +kernel
  columns := by
    intro q hq c hc
    obtain ⟨t, -, ty, hty, rfl⟩ := mem_described.1 hq
    cases hty
    have hname : Unbroken "?" := ⟨by decide, by decide⟩
    have hregtype : Unbroken "" := ⟨by decide, by decide⟩
    rw [List.mem_ite_nil_left, List.mem_singleton] at hc
    rw [hc.2]
    exact ⟨hname, hregtype, by simp, trivial⟩
  accepted := by
    unfold Accepted
    decide +kernel

theorem second_run_of_sample :
    isSqlPath "q.ts" = false ∧ Scanned sampleText.toList sampleTags ∧
      Headerless afterNamespaceHeader sampleText.toList ∧
      Regular (fun t => sampleTypes t.sql) "q.ts" "unknown" sampleText.toList sampleTags ∧
      Readable sampleText.toList
        (declarations (fun t => sampleTypes t.sql) "q.ts" sampleText.toList sampleTags)
        (failures (fun t => sampleTypes t.sql) "q.ts" sampleText.toList sampleTags) "unknown" ∧
      ∃ ts', Tag.scan (regenerate sampleTypes "unknown" "q.ts" sampleText) = .ok ts' ∧
        (regenerate sampleTypes "unknown" "q.ts" (regenerate sampleTypes "unknown" "q.ts" sampleText) =
            regenerate sampleTypes "unknown" "q.ts" sampleText ↔
          List.Forall₂ (fun t t' => LendsLine (fun t => sampleTypes t.sql) "q.ts" sampleText.toList
            sampleTags t → t'.line = t.line) sampleTags ts') := by
  obtain ⟨hpath, hs, hh, hreadable⟩ := sample_read
  exact ⟨hpath, hs, hh, sample_regular, hreadable,
    second_run_changes_nothing_iff hpath hs (.inl hh) sample_regular hreadable⟩

def sampleEntry : List Char :=
  "  /** - query: \x60a\x60 */\n".toList ++ "  export interface Column \x7b\n  \x7d".toList

def sampleEntryOnLine (line : Char) : List Char :=
  "  /** - query: \x60b\x60 */\n".toList ++ "  export interface Column_".toList ++
    line :: " \x7b\n    /** not null: \x60true\x60, ".toList ++ "regtype: \x60\x60 */\n".toList ++
      "    '?': number\n  \x7d".toList

/-- What a run leaves of the text if it takes the second query to be on the given line. -/
def sampleOutput (line : Char) : List Char :=
  "sql<queries.Column>\x60a\x60\n".toList ++ "sql<queries.Column_".toList ++
    line :: ">\x60b\x60\n\nexport declare namespace queries \x7b".toList ++
      "\n  // Generated by pgtypegen\n\n".toList ++ sampleEntry ++ '\n' :: '\n' ::
        sampleEntryOnLine line ++ "\n\x7d\n".toList

theorem regenerate_sample :
    regenerate sampleTypes "unknown" "q.ts" sampleText = String.ofList (sampleOutput '3') := by
  have hfind : Block.find? sampleText.toList = none := by
    unfold sampleText
    rw [String.toList_ofList]
    decide +kernel
  have hentries : nextEntries sampleText.toList
      (declarations (fun t => sampleTypes t.sql) "q.ts" sampleText.toList sampleTags)
      (failures (fun t => sampleTypes t.sql) "q.ts" sampleText.toList sampleTags) "unknown" =
        [String.ofList sampleEntry, String.ofList (sampleEntryOnLine '3')] := by
    unfold sampleText sampleEntry sampleEntryOnLine
    repeat rw [String.toList_ofList]
    decide +kernel
  rw [regenerate_scan (by decide +kernel) sample_read.2.1.scan,
    render_ordered (by decide +kernel) (by decide +kernel), renderBase, hentries, renderEdits,
    hfind, appendBlock, toList_ofTexts, List.flatMap_cons, List.flatMap_cons, List.flatMap_nil]
  refine congrArg String.ofList ?_
  unfold sampleText sampleOutput sampleEntry sampleEntryOnLine
  repeat rw [String.toList_ofList]
  decide +kernel

def sampleTagsAgain : List Tag :=
  [⟨3, some ⟨3, 19⟩, ⟨19, 22⟩, 1, "a", 0⟩, ⟨26, some ⟨26, 44⟩, ⟨44, 47⟩, 2, "b", 0⟩]

theorem scan_sampleOutput :
    Tag.scan (String.ofList (sampleOutput '3')) = .ok sampleTagsAgain := by
  rw [Tag.scan, String.toList_ofList]
  unfold sampleOutput sampleEntry sampleEntryOnLine
  repeat rw [String.toList_ofList]
  decide +kernel

theorem regenerate_sample_again :
    regenerate sampleTypes "unknown" "q.ts" (String.ofList (sampleOutput '3')) =
      String.ofList (sampleOutput '2') := by
  have hentries : nextEntries (sampleOutput '3')
      (declarations (fun t => sampleTypes t.sql) "q.ts" (sampleOutput '3') sampleTagsAgain)
      (failures (fun t => sampleTypes t.sql) "q.ts" (sampleOutput '3') sampleTagsAgain) "unknown" =
        [String.ofList sampleEntry, String.ofList (sampleEntryOnLine '2')] := by
    unfold sampleOutput sampleEntry sampleEntryOnLine
    repeat rw [String.toList_ofList]
    decide +kernel
  have hordered : Ordered (renderEdits (sampleOutput '3')
      (declarations (fun t => sampleTypes t.sql) "q.ts" (sampleOutput '3') sampleTagsAgain)
      (failures (fun t => sampleTypes t.sql) "q.ts" (sampleOutput '3') sampleTagsAgain)
        "unknown") := by
    unfold sampleOutput sampleEntry sampleEntryOnLine
    repeat rw [String.toList_ofList]
    decide +kernel
  rw [regenerate_scan (by decide +kernel) scan_sampleOutput, String.toList_ofList,
    render_ordered (by decide +kernel) hordered, renderBase, hentries, renderEdits,
    hentries, toList_ofTexts, List.flatMap_cons, List.flatMap_cons, List.flatMap_nil]
  refine congrArg String.ofList ?_
  unfold sampleOutput sampleEntry sampleEntryOnLine
  repeat rw [String.toList_ofList]
  decide +kernel

/-- The type arguments have become shorter, so the second query is on another line and its
declaration has another name. -/
theorem second_run_changes_names :
    regenerate sampleTypes "unknown" "q.ts" (regenerate sampleTypes "unknown" "q.ts" sampleText) ≠
      regenerate sampleTypes "unknown" "q.ts" sampleText := by
  rw [regenerate_sample, regenerate_sample_again]
  intro h
  have hlist := String.ofList_inj.1 h
  unfold sampleOutput sampleEntry sampleEntryOnLine at hlist
  repeat rw [String.toList_ofList] at hlist
  exact absurd hlist (by decide +kernel)

end RowTypes.Generation
