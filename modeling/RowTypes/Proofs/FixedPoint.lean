import Mathlib.Data.List.Find
import Mathlib.Data.List.Nodup
import RowTypes.Proofs.Rescan

/-! Rendering a rendered file again. As long as each query belongs to a declaration of the same
name and the block gets the same entries, the second text is the first one. -/

namespace RowTypes.TypedSource
open Tag Block

/-! Type arguments that are set to what they are -/

theorem Stands.argumentSpan {content : List Char} {t : Tag} {x : TagText} (h : Stands content t x) :
    Text.slice (argumentSpan t) content = x.typed := by
  obtain ⟨a, b, rfl, rfl⟩ := h
  have htext : a ++ (x.text ++ b) = (a ++ (word ++ x.lead)) ++ (x.typed ++ (x.tail ++ b)) := by
    simp [x.text_eq]
  have hspan : TypedSource.argumentSpan (x.tag (Place.start.after a)) =
      ⟨Text.size (a ++ (word ++ x.lead)), Text.size (a ++ (word ++ x.lead)) + Text.size x.typed⟩ := by
    rw [argumentSpan_tag, start_after_offset]
    simp only [Text.size_append]
  rw [hspan, htext, Text.slice_append]

theorem texts_retag_eq {args : Tag → Option (List Char)} {a b : List Char} {ps : List Piece}
    (h : ∀ t ∈ tags (Place.start.after a) ps, ∀ new ∈ args t,
      new = Text.slice (argumentSpan t) (a ++ (texts ps ++ b))) :
    texts (retag args (Place.start.after a) ps) = texts ps := by
  induction ps generalizing a with
  | nil => rfl
  | cons q ps ih =>
    cases q with
    | plain w =>
      have := ih (a := a ++ w) (by simpa [Tag.tags, Piece.text] using h)
      simpa [retag, Piece.text] using this
    | tag x =>
      have hrest := ih (a := a ++ x.text) (by
        intro t ht
        have := h t (List.mem_cons_of_mem _ (by rwa [Place.after_append] at ht))
        simpa [Piece.text] using this)
      have hfirst : (x.setArgs (args (x.tag (Place.start.after a)))).text = x.text := by
        rw [TagText.setArgs_text]
        cases hnew : args (x.tag (Place.start.after a)) with
        | none => exact x.text_eq.symm
        | some new =>
          have hstands : Stands (a ++ (texts (.tag x :: ps) ++ b)) (x.tag (Place.start.after a)) x :=
            ⟨a, texts ps ++ b, by simp [Piece.text], rfl⟩
          have := h _ List.mem_cons_self new hnew
          rw [Stands.argumentSpan hstands] at this
          rw [this]
          exact x.text_eq.symm
      rw [Place.after_append] at hrest
      simp only [retag, texts_cons, Piece.text, hfirst, hrest]

theorem Layout.text_retag_eq {args : Tag → Option (List Char)} {l : Layout} {entries : List String}
    (h : ∀ t ∈ tags .start (l.pieces entries), ∀ new ∈ args t,
      new = Text.slice (argumentSpan t) (l.text entries)) :
    (l.retag args entries).text entries = l.text entries := by
  rw [Layout.tags_pieces] at h
  have hfront : texts (Tag.retag args .start l.front) = texts l.front := by
    refine texts_retag_eq (a := [])
      (b := l.stub ++ ((ofTexts entries).toList ++ texts l.back)) fun t ht new hnew => ?_
    have := h t (List.mem_append_left _ ht) new hnew
    simpa [Layout.text, Layout.before] using this
  have hback : texts (Tag.retag args (l.behind entries) l.back) = texts l.back := by
    refine texts_retag_eq (b := []) fun t ht new hnew => ?_
    have := h t (List.mem_append_right _ ht) new hnew
    simpa [Layout.text] using this
  simp only [Layout.text, Layout.before, Layout.retag, hfront, hback]

/-! The type arguments of a tag that has been annotated -/

theorem existing_setArgs (x : TagText) {name : String} (hn : isIdentifier name = true) :
    (x.setArgs (some (argumentsNaming x name))).existing = some (Reference.merge x.existing name) := by
  have hargs := HeadingText.setArgs_args (argumentsNaming x name) x.toHeadingText
  rw [Option.map_eq_some_iff] at hargs
  obtain ⟨a, ha, htext⟩ := hargs
  have hexisting : (x.setArgs (some (argumentsNaming x name))).existing =
      some (QueryRecord.trimText a.text.tail.dropLast) := by
    change (HeadingText.setArgs (argumentsNaming x name) x.toHeadingText).args.map _ = _
    rw [ha]
    rfl
  rw [hexisting, htext, argumentsNaming_eq, List.tail_cons, List.dropLast_concat, QueryRecord.trimText,
    (Reference.merge_trimmed x.existing hn).trim, String.ofList_toList]

theorem argumentsNaming_setArgs (x : TagText) {name : String} (hn : isIdentifier name = true)
    (later : String) :
    argumentsNaming (x.setArgs (some (argumentsNaming x name))) later = argumentsNaming x later := by
  rw [argumentsNaming, existing_setArgs x hn, Reference.merge_merge _ hn, argumentsNaming]

theorem typed_setArgs (x : TagText) (new : List Char) : (x.setArgs (some new)).typed = new := by
  have hargs := HeadingText.setArgs_args new x.toHeadingText
  simp only [HeadingText.typed, TagText.setArgs, hargs, Option.getD_some]

section FixedPoint

variable {ds ds' : List Declaration} {failed failed' : List QueryRecord} {path defaultType : String}
  {content out : List Char} {ts : List Tag}

theorem newArguments_of_stands {t t' : Tag} {x : TagText} (hx : x.Valid)
    (hplain : ∀ d ∈ ds, isIdentifier d.name = true) (h : Stands content t x)
    (h' : Stands out t' (x.setArgs (newArguments ds path content t)))
    (hx' : (x.setArgs (newArguments ds path content t)).Valid)
    (hname : nameOf? ds' (QueryRecord.ofTag path out t') =
      nameOf? ds (QueryRecord.ofTag path content t)) :
    ∀ new ∈ newArguments ds' path out t', new = Text.slice (argumentSpan t') out := by
  intro new hnew
  rw [newArguments_eq h' hx', hname] at hnew
  rw [Stands.argumentSpan h']
  cases hn : nameOf? ds (QueryRecord.ofTag path content t) with
  | none => simp [hn] at hnew
  | some name =>
    obtain ⟨d, hd, -, rfl⟩ := exists_of_nameOf? hn
    have hargs : newArguments ds path content t = some (argumentsNaming x d.name) := by
      rw [newArguments_eq h hx, hn, Option.map_some]
    rw [hn, hargs, Option.map_some, argumentsNaming_setArgs x (hplain d hd), Option.mem_def,
      Option.some.injEq] at hnew
    rw [hargs, typed_setArgs, hnew]

/-- A second rendering changes nothing if it gives every query the name that it has and puts the
same entries into the block. -/
theorem render_fixed (hs : Scanned content ts)
    (hb : Headerless afterNamespaceHeader content ∨ ∃ cut, HoldsBlock content ts cut ∧ InCode cut)
    (hg : Groups ds failed path content ts defaultType)
    (hkept : ∀ e ∈ keptFrom content ds failed, EntryText e.2)
    (hsome : nextEntries content ds failed defaultType ≠ [])
    (hout : out = render content ds failed defaultType) {ts' : List Tag}
    (hscan : scanFrom .operator .start out = .ok ts')
    (hqueries : (ds'.flatMap Declaration.queries ++ failed').Perm
      (ts'.map (QueryRecord.ofTag path out)))
    (hnames : List.Forall₂ (fun t t' => nameOf? ds' (QueryRecord.ofTag path out t') =
      nameOf? ds (QueryRecord.ofTag path content t)) ts ts')
    (hentries : nextEntries out ds' failed' defaultType =
      nextEntries content ds failed defaultType) :
    render out ds' failed' defaultType = out := by
  obtain ⟨l, hl, hrender, hannotated⟩ := exists_annotated hs hb hg hsome
  have he := hg.nextEntries_plain hkept
  rw [← hout] at hrender hannotated
  have hts' : ts' = tags .start (l.pieces (nextEntries content ds failed defaultType)) := by
    have := hl.scan he
    rw [← hrender, hscan] at this
    exact Except.ok.inj this
  rw [← hts'] at hannotated
  have hsame : List.Forall₂ (fun _ t' => ∀ new ∈ newArguments ds' path out t',
      new = Text.slice (argumentSpan t') out) ts ts' := by
    refine List.Forall₂.mp ?_ hannotated hnames
    rintro t t' ⟨x, hx, h, h'⟩ hname
    exact newArguments_of_stands hx (fun d hd => (hg.plain d hd).name) h h'
      (hx.setArgs (hg.newArguments_accepted t)) hname
  have hall : ∀ t' ∈ ts', ∀ new ∈ newArguments ds' path out t',
      new = Text.slice (argumentSpan t') out := fun t' ht' =>
    (exists_of_forall₂ hsame t' ht').elim fun _ h => h.2
  rw [hts', hrender] at hqueries
  rw [hts', hrender] at hall
  rw [hrender] at hentries
  have hnext := render_layout hl he hqueries (by rw [hentries]; exact hsome)
  rw [hrender, hnext, hentries, Layout.text_retag_eq hall]

end FixedPoint

/-! The records of a rendered file in the place of the old ones -/

/-- The record in `news` at the position that `q` has in `olds`. -/
def relocated (olds news : List QueryRecord) (q : QueryRecord) : QueryRecord :=
  ((olds.zip news).lookup q).getD q

def relocate (olds news : List QueryRecord) (d : Declaration) : Declaration :=
  { d with queries := d.queries.map (relocated olds news) }

theorem map_relocated {olds news : List QueryRecord} (hn : olds.Nodup)
    (hlength : olds.length = news.length) : olds.map (relocated olds news) = news := by
  induction olds generalizing news with
  | nil => exact (List.eq_nil_of_length_eq_zero hlength.symm).symm
  | cons q olds ih =>
    cases news with
    | nil => cases hlength
    | cons r news =>
      rw [List.nodup_cons] at hn
      have hfirst : relocated (q :: olds) (r :: news) q = r := by
        simp [relocated]
      have hrest : ∀ s ∈ olds, relocated (q :: olds) (r :: news) s = relocated olds news s := by
        intro s hs
        have hne : (s == q) = false := by
          rw [beq_eq_false_iff_ne]
          rintro rfl
          exact hn.1 hs
        simp [relocated, List.lookup_cons, hne]
      rw [List.map_cons, hfirst, List.map_congr_left hrest, ih hn.2 (by simpa using hlength)]

theorem flatMap_relocate (olds news : List QueryRecord) (ds : List Declaration) :
    (ds.map (relocate olds news)).flatMap Declaration.queries =
      (ds.flatMap Declaration.queries).map (relocated olds news) := by
  rw [List.flatMap_map, List.map_flatMap]
  rfl

theorem render_congr (d d' : Declaration) (hname : d'.name = d.name)
    (hcolumns : d'.columns = d.columns)
    (hqueries : d'.queries.map QueryRecord.sql = d.queries.map QueryRecord.sql)
    (defaultType indent : String) : d'.render defaultType indent = d.render defaultType indent := by
  have hdocs : (d'.queries.map fun q => queryDoc q.sql) = d.queries.map fun q => queryDoc q.sql := by
    have := congrArg (List.map queryDoc) hqueries
    rwa [List.map_map, List.map_map] at this
  have hdoc : d'.queriesDoc indent = d.queriesDoc indent := by
    rw [Declaration.queriesDoc, hdocs, Declaration.queriesDoc]
  rw [Declaration.render, hdoc, hname, hcolumns, Declaration.render]

theorem render_relocate {olds news : List QueryRecord} {d : Declaration}
    (h : ∀ q ∈ d.queries, (relocated olds news q).sql = q.sql) (defaultType indent : String) :
    (relocate olds news d).render defaultType indent = d.render defaultType indent := by
  refine render_congr d (relocate olds news d) rfl rfl ?_ defaultType indent
  change (d.queries.map (relocated olds news)).map QueryRecord.sql = _
  rw [List.map_map]
  exact List.map_congr_left h

section Relocation

variable {ds : List Declaration} {path defaultType : String} {content : List Char} {ts : List Tag}

theorem relocated_tags (path : String) {content : List Char} (out : List Char) {ts ts' : List Tag}
    (hn : (ts.map (QueryRecord.ofTag path content)).Nodup) (hlength : ts.length = ts'.length) :
    List.Forall₂ (fun t t' => relocated (ts.map (QueryRecord.ofTag path content))
        (ts'.map (QueryRecord.ofTag path out)) (QueryRecord.ofTag path content t) =
      QueryRecord.ofTag path out t') ts ts' := by
  have h : (ts.map (QueryRecord.ofTag path content)).map
      (relocated (ts.map (QueryRecord.ofTag path content)) (ts'.map (QueryRecord.ofTag path out))) =
        ts'.map (QueryRecord.ofTag path out) :=
    map_relocated hn (by simpa using hlength)
  rwa [List.map_map, ← List.forall₂_eq_eq_eq, List.forall₂_map_left_iff,
    List.forall₂_map_right_iff] at h

theorem nameOf?_relocate {olds news : List QueryRecord} (hn : news.Nodup)
    (hmap : olds.map (relocated olds news) = news)
    (hds : ∀ d ∈ ds, ∀ q ∈ d.queries, q ∈ olds) {q : QueryRecord} (hq : q ∈ olds) :
    nameOf? (ds.map (relocate olds news)) (relocated olds news q) = nameOf? ds q := by
  have hinj : ∀ r ∈ olds, relocated olds news r = relocated olds news q → r = q := by
    intro r hr h
    exact List.inj_on_of_nodup_map (by rwa [hmap]) hr hq h
  rw [nameOf?, nameOf?, List.find?_map, Option.map_map]
  have hfind : (ds.find? fun d => relocated olds news q ∈ (relocate olds news d).queries) =
      ds.find? fun d => q ∈ d.queries := by
    refine List.find?_congr fun d hd => ?_
    rw [decide_eq_decide]
    constructor
    · intro hmem
      obtain ⟨r, hr, heq⟩ := List.mem_map.1 hmem
      rwa [← hinj r (hds d hd r hr) heq]
    · exact fun hmem => List.mem_map.2 ⟨q, hmem, rfl⟩
  exact congrArg (Option.map Declaration.name) hfind

/-- Rendering a rendered file with the same declarations for the queries where they now stand
changes nothing, if the block takes over the same entries again. -/
theorem render_relocated {failed : List QueryRecord} {out : List Char} {ts' : List Tag}
    {olds news : List QueryRecord} (holds : ts.map (QueryRecord.ofTag path content) = olds)
    (hnews : ts'.map (QueryRecord.ofTag path out) = news) (hs : Scanned content ts)
    (hb : Headerless afterNamespaceHeader content ∨ ∃ cut, HoldsBlock content ts cut ∧ InCode cut)
    (hg : Groups ds failed path content ts defaultType)
    (hkept : ∀ e ∈ keptFrom content ds failed, EntryText e.2)
    (hsome : nextEntries content ds failed defaultType ≠ [])
    (hout : out = render content ds failed defaultType)
    (hscan : scanFrom .operator .start out = .ok ts')
    (hrewritten : List.Forall₂ (Rewritten ds path content out) ts ts')
    (hcarried : keptFrom out (ds.map (relocate olds news)) (failed.map (relocated olds news)) =
      keptFrom content ds failed) :
    render out (ds.map (relocate olds news)) (failed.map (relocated olds news)) defaultType =
      out := by
  have hn := records_nodup_of_scan hs.scan path content
  have hn' := records_nodup_of_scan hscan path out
  have hmoved := relocated_tags path out hn hrewritten.length_eq
  rw [holds] at hn
  rw [hnews] at hn'
  rw [holds, hnews] at hmoved
  have hmap : olds.map (relocated olds news) = news := by
    refine map_relocated hn ?_
    rw [← holds, ← hnews]
    simpa using hrewritten.length_eq
  have hqueries := hg.queries
  rw [holds] at hqueries
  have hmem : ∀ d ∈ ds, ∀ q ∈ d.queries, q ∈ olds := fun d hd q hq =>
    hqueries.subset (List.mem_append_left _ (List.mem_flatMap.2 ⟨d, hd, hq⟩))
  have htag : ∀ t ∈ ts, QueryRecord.ofTag path content t ∈ olds := by
    intro t ht
    rw [← holds]
    exact List.mem_map_of_mem ht
  have hsql : ∀ q ∈ olds, (relocated olds news q).sql = q.sql := by
    rw [← holds, List.forall_mem_map]
    intro t ht
    have hboth := List.Forall₂.mp (fun _ _ hmove h => And.intro hmove h) hmoved hrewritten
    obtain ⟨t', -, hmove, hsame, -⟩ := exists_of_forall₂ hboth.flip t ht
    rw [holds]
    exact (congrArg QueryRecord.sql hmove).trans hsame.sql
  refine render_fixed hs hb hg hkept hsome hout hscan ?_ ?_ ?_
  · rw [hnews]
    have := hqueries.map (relocated olds news)
    rwa [List.map_append, ← flatMap_relocate, hmap] at this
  · refine ((List.forall₂_and_left _ _).2 ⟨fun _ h => h, hmoved⟩).imp ?_
    rintro t t' ⟨ht, hmove⟩
    rw [← hmove]
    exact nameOf?_relocate hn' hmap hmem (htag t ht)
  · rw [nextEntries, hcarried, nextEntries, List.map_map]
    congr 1
    refine List.map_congr_left fun d hd => render_relocate (fun q hq => ?_) defaultType "  "
    exact hsql q (hmem d hd q hq)

/-- Rendering a rendered file with the same declarations for the queries where they now stand
changes nothing. -/
theorem rendering_again_changes_nothing (hs : Scanned content ts)
    (hb : Headerless afterNamespaceHeader content ∨
      ∃ cut, HoldsBlock content ts cut ∧ InCode cut ∧ ds ≠ [])
    (hg : Groups ds [] path content ts defaultType) :
    ∃ ts', Tag.scan (String.ofList (render content ds [] defaultType)) = .ok ts' ∧
      ts'.length = ts.length ∧
      render (render content ds [] defaultType)
          (ds.map (relocate (ts.map (QueryRecord.ofTag path content))
            (ts'.map (QueryRecord.ofTag path (render content ds [] defaultType))))) []
          defaultType =
        render content ds [] defaultType := by
  rw [Tag.scan, String.toList_ofList]
  by_cases hds : ds = []
  · subst hds
    have hh : Headerless afterNamespaceHeader content := by
      rcases hb with hh | ⟨cut, -, -, hne⟩
      · exact hh
      · exact absurd rfl hne
    rw [render_headerless_nil hh]
    exact ⟨ts, hs.scan, rfl, render_headerless_nil hh⟩
  have hb' : Headerless afterNamespaceHeader content ∨
      ∃ cut, HoldsBlock content ts cut ∧ InCode cut := by
    rcases hb with hh | ⟨cut, hblock, hcode, -⟩
    · exact .inl hh
    · exact .inr ⟨cut, hblock, hcode⟩
  have hkept : ∀ e ∈ keptFrom content ds [], EntryText e.2 := by simp [keptFrom_nil]
  have hsome : nextEntries content ds [] defaultType ≠ [] := by simp [nextEntries, hds]
  obtain ⟨ts', hscan, hrewritten⟩ := exists_rewritten hs hb' hg hkept hsome
  refine ⟨ts', hscan, hrewritten.length_eq.symm, ?_⟩
  have hcarried : keptFrom (render content ds [] defaultType)
      (ds.map (relocate (ts.map (QueryRecord.ofTag path content))
        (ts'.map (QueryRecord.ofTag path (render content ds [] defaultType)))))
      (([] : List QueryRecord).map (relocated (ts.map (QueryRecord.ofTag path content))
        (ts'.map (QueryRecord.ofTag path (render content ds [] defaultType))))) =
        keptFrom content ds [] := by
    rw [List.map_nil, keptFrom_nil, keptFrom_nil]
  exact render_relocated rfl rfl hs hb' hg hkept hsome rfl hscan hrewritten hcarried

end Relocation

theorem rendering_sample_again :
    Scanned (whole inCode) [sampleTag] ∧ HoldsBlock (whole inCode) [sampleTag] inCode ∧
      InCode inCode ∧ Groups [sampleDeclaration] [] "q.ts" (whole inCode) [sampleTag] "unknown" ∧
      ∃ ts', Tag.scan (String.ofList (render (whole inCode) [sampleDeclaration] [] "unknown")) =
          .ok ts' ∧
        ts'.length = [sampleTag].length ∧
        render (render (whole inCode) [sampleDeclaration] [] "unknown")
            ([sampleDeclaration].map (relocate ([sampleTag].map
              (QueryRecord.ofTag "q.ts" (whole inCode))) (ts'.map (QueryRecord.ofTag "q.ts"
                (render (whole inCode) [sampleDeclaration] [] "unknown"))))) [] "unknown" =
          render (whole inCode) [sampleDeclaration] [] "unknown" := by
  obtain ⟨hs, hblock, hcode⟩ := read_inCode
  have hg := sample_groups (whole inCode)
  exact ⟨hs, hblock, hcode, hg,
    rendering_again_changes_nothing hs (.inr ⟨inCode, hblock, hcode, by simp⟩) hg⟩

def inHeader : Cut :=
  around "export declare namespace queries\n" "\n\x7b\n// Generated by pgtypegen\n\x7d"

/-- A block that goes away without another one in its place can leave a text that has a block. And
no records are there for a second rendering if the block that gives way stands in a comment. -/
theorem rendering_again_changes_text :
    (Scanned (whole inHeader) [] ∧ HoldsBlock (whole inHeader) [] inHeader ∧ InCode inHeader ∧
      Groups [] [] "q.ts" (whole inHeader) [] "unknown" ∧
      Tag.scan (String.ofList (render (whole inHeader) [] [] "unknown")) = .ok [] ∧
      render (render (whole inHeader) [] [] "unknown") [] [] "unknown" ≠
        render (whole inHeader) [] [] "unknown") ∧
    (Scanned (whole inComment) [sampleTag] ∧ HoldsBlock (whole inComment) [sampleTag] inComment ∧
      Groups [sampleDeclaration] [] "q.ts" (whole inComment) [sampleTag] "unknown" ∧
      ∀ ts', Tag.scan (String.ofList
        (render (whole inComment) [sampleDeclaration] [] "unknown")) ≠ .ok ts') := by
  have hrender : render (whole inHeader) [] [] "unknown" =
      "export declare namespace queries\n\x7b\n// Generated by pgtypegen\n\x7d".toList := by
    unfold inHeader
    rw [whole_around]
    repeat rw [String.toList_ofList]
    decide +kernel
  refine ⟨⟨?_, ?_, ?_, ⟨by simp, by decide, List.Perm.refl _, by simp⟩, ?_, ?_⟩,
    read_inComment.1, read_inComment.2, sample_groups _, ?_⟩
  · unfold inHeader
    rw [whole_around]
    repeat rw [String.toList_ofList]
    exact ⟨by decide +kernel, by decide +kernel⟩
  · refine holdsBlock_around ?_ ?_ (by simp)
    all_goals
      rw [whole_around]
      repeat rw [String.toList_ofList]
      decide +kernel
  · unfold inHeader around
    rw [String.toList_ofList]
    exact ⟨[], by decide +kernel⟩
  · rw [hrender, Tag.scan, String.toList_ofList, String.toList_ofList]
    decide +kernel
  · rw [hrender, String.toList_ofList]
    decide +kernel
  · simp [scan_render_inComment]

end RowTypes.TypedSource
