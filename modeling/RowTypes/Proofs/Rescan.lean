import RowTypes.Proofs.Rendering

/-! The scan of a rendered file. It finds the queries that the file had before, each with the
annotation of its declaration, if the block that gives way stands in the code of the file. -/

namespace RowTypes.TypedSource
open Tag Block

/-- The scan of the text finds these tags, and no other word `sql` stands in front of an angle
bracket. -/
structure Scanned (content : List Char) (ts : List Tag) : Prop where
  scan : scanFrom .operator .start content = .ok ts
  unambiguous : ∀ s ∈ stops .operator .start content, opensWord s = false

/-- A block of plain declarations stands in the text, outside of its tags, and there is no other
header. -/
structure HoldsBlock (content : List Char) (ts : List Tag) (cut : Cut) : Prop where
  text : content = cut.before ++ (cut.middle ++ cut.after)
  plain : ∃ entries, (∀ t ∈ entries, EntryText t) ∧ cut.middle = (ofTexts entries).toList
  only : ∀ a b, content = a ++ b → afterNamespaceHeader b ≠ none → a = cut.before
  outside : ∀ t ∈ ts, t.template.stop ≤ cut.span.start ∨ cut.span.stop + 3 ≤ t.tagEnd

/-- The text up to the block ends outside of comments, strings, regular expressions and
templates. -/
def InCode (cut : Cut) : Prop := ∃ ts, scanFrom .operator .start cut.before = .ok ts

theorem HoldsBlock.headerless {content : List Char} {ts : List Tag} {cut : Cut}
    (h : HoldsBlock content ts cut) : Headerless afterNamespaceHeader cut.before := by
  intro a b hab
  cases hb : afterNamespaceHeader b with
  | none => rfl
  | some rest =>
    obtain ⟨w, rfl, hlast, -, hread⟩ := local_namespaceHeader b rest hb
    have := h.only a (w ++ (rest ++ (cut.middle ++ cut.after)))
      (by rw [h.text, hab]; simp) (by rw [hread]; simp)
    rw [hab] at this
    have hnil : w ++ rest = [] := by simpa using this
    rw [List.append_eq_nil_iff] at hnil
    rw [hnil.1] at hlast
    cases hlast

theorem exists_layout {content : List Char} {ts : List Tag} {cut : Cut} (hs : Scanned content ts)
    (hb : HoldsBlock content ts cut) (hc : InCode cut) :
    ∃ (l : Layout) (entries : List String), l.Valid ∧ (∀ t ∈ entries, EntryText t) ∧
      cut.middle = (ofTexts entries).toList ∧ content = l.text entries ∧
      ts = tags .start (l.pieces entries) := by
  obtain ⟨entries, he, hmiddle⟩ := hb.plain
  obtain ⟨ts₀, hc⟩ := hc
  obtain ⟨g, hg⟩ : ∃ g, (ofTexts entries).toList ++ cut.after = 'e' :: g := by
    rw [ofTexts_toList]
    exact ⟨_, rfl⟩
  have htext : content = cut.before ++ 'e' :: g := by rw [hb.text, hmiddle, hg]
  have hlt : 0 < Text.size cut.middle := by
    rw [hmiddle]
    refine size_pos ?_
    rw [ofTexts_toList]
    simp
  have hdivided : Divided g .operator .start cut.before ts := by
    refine ⟨htext ▸ hs.scan, htext ▸ hs.unambiguous, ⟨ts₀, hc⟩, fun t ht => ?_⟩
    have := hb.outside t ht
    simp only [Cut.span] at this
    simp only [Place.start]
    omega
  obtain ⟨ps, stub, b, hbefore, hreads, hstub⟩ := hdivided.exists_front (Nat.le_refl _)
  -- behind the block the scan goes on from a known state
  obtain ⟨hscan, hstops⟩ := passes_block hstub he cut.after
    (Place.start.after (texts ps)) cut.after rfl
  have hrest : stub ++ 'e' :: g = stub ++ (ofTexts entries).toList ++ cut.after := by
    rw [← hg, List.append_assoc]
  have hcontent : content = texts ps ++ (stub ++ 'e' :: g) := by
    rw [htext, hbefore, List.append_assoc]
  have hfront := hreads.scanFrom_eq .start
  rw [← hcontent, hs.scan, hrest, hscan] at hfront
  obtain ⟨ts₁, hback, -⟩ := map_eq_ok.1 hfront.symm
  have hfront_stops := hreads.stops .start
  rw [← hcontent, hrest] at hfront_stops
  obtain ⟨qs, b', hqs, hreads', -⟩ := exists_reads hback fun s hm =>
    hs.unambiguous s (hfront_stops.subset (hstops.subset hm))
  have hl : Layout.Valid ⟨ps, stub, qs⟩ := by
    refine ⟨⟨b, hreads.congr ?_, hstub⟩, ⟨b', hreads'⟩, ?_⟩
    · exact look_append stub (look_cons (by decide) _ _)
    · have := hb.headerless
      rwa [hbefore] at this
  have htext' : content = Layout.text ⟨ps, stub, qs⟩ entries := by
    rw [hb.text, hbefore, hmiddle, ← hqs]
    rfl
  refine ⟨⟨ps, stub, qs⟩, entries, hl, he, hmiddle, htext', ?_⟩
  have := hl.scan he
  rw [← htext', hs.scan] at this
  exact Except.ok.inj this

theorem exists_pieces {content : List Char} {ts : List Tag} (hs : Scanned content ts) :
    ∃ ps b, content = texts ps ∧ Reads [] .operator ps b ∧ ts = tags .start ps := by
  obtain ⟨ps, b, htexts, hreads, htags⟩ := exists_reads hs.scan hs.unambiguous
  exact ⟨ps, b, htexts.symm, hreads, htags.symm⟩

/-- Plain declarations for the queries of a file apart from the failed ones. The annotation of
each query is type arguments from its first character to its last. -/
structure Groups (ds : List Declaration) (failed : List QueryRecord) (path : String)
    (content : List Char) (ts : List Tag) (defaultType : String) : Prop where
  plain : ∀ d ∈ ds, d.Plain
  identifier : isIdentifier defaultType = true
  queries : (ds.flatMap Declaration.queries ++ failed).Perm
    (ts.map (QueryRecord.ofTag path content))
  accepted : ∀ d ∈ ds, ∀ q ∈ d.queries, Accepted (annotate d.name q).text

section Rendered

variable {ds : List Declaration} {failed : List QueryRecord} {path defaultType : String}
  {content : List Char} {ts : List Tag}

theorem exists_of_nameOf? {q : QueryRecord} {name : String} (h : nameOf? ds q = some name) :
    ∃ d ∈ ds, q ∈ d.queries ∧ d.name = name := by
  rw [nameOf?, Option.map_eq_some_iff] at h
  obtain ⟨d, hd, rfl⟩ := h
  exact ⟨d, List.mem_of_find?_eq_some hd, by simpa using List.find?_some hd, rfl⟩

theorem Groups.newArguments_accepted (hg : Groups ds failed path content ts defaultType) (t : Tag) :
    ∀ new ∈ newArguments ds path content t, Accepted new := by
  intro new hnew
  rw [newArguments, Option.mem_def, Option.map_eq_some_iff] at hnew
  obtain ⟨name, hname, rfl⟩ := hnew
  obtain ⟨d, hd, hq, rfl⟩ := exists_of_nameOf? hname
  exact hg.accepted d hd _ hq

theorem Groups.newArguments_clear (hg : Groups ds failed path content ts defaultType) {t : Tag}
    {x : TagText} (hstands : Stands content t x) (hx : x.Valid)
    (hh : Headerless afterNamespaceHeader x.text) :
    ∀ new ∈ newArguments ds path content t, Clear new := by
  intro new hnew
  rw [newArguments_eq hstands hx, Option.mem_def, Option.map_eq_some_iff] at hnew
  obtain ⟨name, hname, rfl⟩ := hnew
  obtain ⟨d, hd, -, rfl⟩ := exists_of_nameOf? hname
  exact clear_argumentsNaming hh (hg.plain d hd).name

theorem Groups.nextEntries_plain (hg : Groups ds failed path content ts defaultType)
    (hkept : ∀ e ∈ keptFrom content ds failed, EntryText e.2) :
    ∀ t ∈ nextEntries content ds failed defaultType, EntryText t := by
  intro t ht
  rcases List.mem_append.1 ht with ht | ht
  · obtain ⟨d, hd, rfl⟩ := List.mem_map.1 ht
    exact ⟨defaultType, d, hg.identifier, hg.plain d hd, rfl⟩
  · obtain ⟨e, he, rfl⟩ := List.mem_map.1 ht
    exact hkept e he

/-- A text that is rendered keeps the place of its block. -/
theorem exists_rendered_layout {l : Layout} (hl : l.Valid) {entries : List String}
    (he : ∀ t ∈ entries, EntryText t) (hcontent : content = l.text entries)
    (hts : ts = tags .start (l.pieces entries))
    (hg : Groups ds failed path content ts defaultType)
    (hsome : nextEntries content ds failed defaultType ≠ []) :
    ∃ l' : Layout, l'.Valid ∧
      render content ds failed defaultType = l'.text (nextEntries content ds failed defaultType) ∧
      Retagged (newArguments ds path content) .start (l.pieces entries)
        (l'.pieces (nextEntries content ds failed defaultType)) := by
  have hclear : ∀ t ∈ tags .start l.front, ∀ new ∈ newArguments ds path content t, Clear new := by
    intro t ht
    obtain ⟨b, hfront, -⟩ := hl.front
    obtain ⟨x, hx, hinfix, hstands⟩ := hfront.exists_stands (a := [])
      (c := l.stub ++ ((ofTexts entries).toList ++ texts l.back)) ht
    have hwhole : texts l.front ++ (l.stub ++ ((ofTexts entries).toList ++ texts l.back)) =
        content := by
      rw [hcontent, Layout.text, Layout.before, List.append_assoc]
    rw [List.nil_append, hwhole] at hstands
    refine hg.newArguments_clear hstands hx (hl.headerless.of_infix local_namespaceHeader ?_)
    exact hinfix.trans (List.prefix_append ..).isInfix
  have hl' : (l.retag (newArguments ds path content) entries).Valid :=
    hl.retag (fun t _ => hg.newArguments_accepted t) hclear
  refine ⟨_, hl', ?_, hl.retagged _ entries _⟩
  rw [hcontent]
  rw [hcontent] at hsome
  refine render_layout hl he ?_ hsome
  rw [← hcontent, ← hts]
  exact hg.queries

/-- A rendered file has its new block in a place for blocks, and around it the pieces of the old
text with the new annotations. -/
theorem exists_rendered (hs : Scanned content ts)
    (hb : Headerless afterNamespaceHeader content ∨ ∃ cut, HoldsBlock content ts cut ∧ InCode cut)
    (hg : Groups ds failed path content ts defaultType)
    (hsome : nextEntries content ds failed defaultType ≠ []) :
    ∃ (l : Layout) (ps : List Piece), l.Valid ∧ content = texts ps ∧ ts = tags .start ps ∧
      render content ds failed defaultType = l.text (nextEntries content ds failed defaultType) ∧
      Retagged (newArguments ds path content) .start ps
        (l.pieces (nextEntries content ds failed defaultType)) := by
  rcases hb with hh | ⟨cut, hblock, hcode⟩
  · obtain ⟨ps, b, hcontent, hreads, hts⟩ := exists_pieces hs
    have hclear : ∀ t ∈ tags .start ps, ∀ new ∈ newArguments ds path content t, Clear new := by
      intro t ht
      obtain ⟨x, hx, hinfix, hstands⟩ := hreads.exists_stands (a := []) (c := []) ht
      rw [List.nil_append, List.append_nil, ← hcontent] at hstands
      rw [← hcontent] at hinfix
      exact hg.newArguments_clear hstands hx (hh.of_infix local_namespaceHeader hinfix)
    have hreads' : Reads [] .operator (retag (newArguments ds path content) .start ps) b :=
      hreads.retag .start fun t _ => hg.newArguments_accepted t
    have hh' : Headerless afterNamespaceHeader
        (texts (retag (newArguments ds path content) .start ps)) := by
      have hpieces : Headerless afterNamespaceHeader ([] ++ (texts ps ++ [])) := by
        simpa [← hcontent] using hh
      simpa using headerless_retag hpieces hclear
    have hqueries : (ds.flatMap Declaration.queries ++ failed).Perm
        ((tags .start ps).map (QueryRecord.ofTag path (texts ps))) := by
      rw [← hcontent, ← hts]
      exact hg.queries
    have hrender := render_pieces (hcontent ▸ hh) hqueries (by rwa [← hcontent])
    rw [← hcontent] at hrender
    -- the new pieces at the end of the text stand for empty ones
    refine ⟨appended content (retag (newArguments ds path content) .start ps),
      ps ++ [.plain [], .plain [], .plain []], appended_valid hreads' hh', ?_, ?_, hrender, ?_⟩
    · simpa [Piece.text] using hcontent
    · simp [tags_append, Tag.tags, hts]
    · have := (hreads.retagged (newArguments ds path content) .start).append
        (.plain [] (separator content) (.plain []
          (ofTexts (nextEntries content ds failed defaultType)).toList (.plain [] ['\n'] (.nil _))))
      simpa [appended, Layout.pieces] using this
  · obtain ⟨l, entries, hl, he, -, hcontent, hts⟩ := exists_layout hs hblock hcode
    obtain ⟨l', hl', hrender, hretagged⟩ := exists_rendered_layout hl he hcontent hts hg hsome
    exact ⟨l', l.pieces entries, hl', by rw [hcontent, Layout.texts_pieces], hts, hrender, hretagged⟩

/-- The tag `new` of one text is the tag `old` of another, with new type arguments. -/
def Annotated (args : Tag → Option (List Char)) (content out : List Char) (old new : Tag) : Prop :=
  ∃ x : TagText, x.Valid ∧ Stands content old x ∧ Stands out new (x.setArgs (args old))

theorem annotated_of_retagged {args : Tag → Option (List Char)} {ps qs : List Piece}
    (h : Retagged args .start ps qs) :
    List.Forall₂ (Annotated args (texts ps) (texts qs)) (tags .start ps) (tags .start qs) := by
  have hstart : Retagged args (Place.start.after []) ps qs := h
  have htags := @Tag.Retagged.tags _ _ _ [] [] [] [] hstart
  simp only [List.nil_append, List.append_nil] at htags
  exact htags

theorem exists_annotated (hs : Scanned content ts)
    (hb : Headerless afterNamespaceHeader content ∨ ∃ cut, HoldsBlock content ts cut ∧ InCode cut)
    (hg : Groups ds failed path content ts defaultType)
    (hsome : nextEntries content ds failed defaultType ≠ []) :
    ∃ l : Layout, l.Valid ∧
      render content ds failed defaultType = l.text (nextEntries content ds failed defaultType) ∧
      List.Forall₂ (Annotated (newArguments ds path content) content
          (render content ds failed defaultType)) ts
        (tags .start (l.pieces (nextEntries content ds failed defaultType))) := by
  obtain ⟨l, ps, hl, hcontent, hts, hrender, hretagged⟩ := exists_rendered hs hb hg hsome
  refine ⟨l, hl, hrender, ?_⟩
  have := annotated_of_retagged hretagged
  rwa [Layout.texts_pieces, ← hcontent, ← hts, ← hrender] at this

/-- The tag `new` of one text is the query of the tag `old` of another. -/
structure SameQuery (content out : List Char) (old new : Tag) : Prop where
  sql : new.sql = old.sql
  paramCount : new.paramCount = old.paramCount
  template : Text.slice new.template out = Text.slice old.template content

def Rewritten (ds : List Declaration) (path : String) (content out : List Char) (old new : Tag) :
    Prop :=
  SameQuery content out old new ∧
    ∀ name, nameOf? ds (QueryRecord.ofTag path content old) = some name →
      new.typeArguments.map (Text.slice · out) =
        some (annotate name (QueryRecord.ofTag path content old)).text

theorem Annotated.rewritten {out : List Char} {t t' : Tag}
    (h : Annotated (newArguments ds path content) content out t t') :
    Rewritten ds path content out t t' := by
  obtain ⟨x, -, hold, hnew⟩ := h
  obtain ⟨hbody, hsql, hparams⟩ := x.setArgs_tail (newArguments ds path content t)
  refine ⟨⟨?_, ?_, ?_⟩, ?_⟩
  · rw [hnew.sql.1, hold.sql.1, hsql]
  · rw [hnew.sql.2, hold.sql.2, hparams]
  · rw [hnew.template, hold.template, hbody]
  · intro name hname
    rw [hnew.typeArguments]
    simp only [newArguments, hname, Option.map_some, TagText.setArgs]
    exact HeadingText.setArgs_args _ _

/-- The scan of a rendered file finds the same queries, in the same order. -/
theorem exists_rewritten (hs : Scanned content ts)
    (hb : Headerless afterNamespaceHeader content ∨ ∃ cut, HoldsBlock content ts cut ∧ InCode cut)
    (hg : Groups ds failed path content ts defaultType)
    (hkept : ∀ e ∈ keptFrom content ds failed, EntryText e.2)
    (hsome : nextEntries content ds failed defaultType ≠ []) :
    ∃ ts', scanFrom .operator .start (render content ds failed defaultType) = .ok ts' ∧
      List.Forall₂ (Rewritten ds path content (render content ds failed defaultType)) ts ts' := by
  obtain ⟨l, hl, hrender, hannotated⟩ := exists_annotated hs hb hg hsome
  refine ⟨_, by rw [hrender]; exact hl.scan (hg.nextEntries_plain hkept), ?_⟩
  exact hannotated.imp fun _ _ => Annotated.rewritten

theorem keptFrom_nil : keptFrom content ds [] = [] := by
  unfold keptFrom
  split <;> rfl

theorem render_headerless_nil (hh : Headerless afterNamespaceHeader content) :
    render content [] failed defaultType = content := by
  rw [render, find?_headerless hh]
  rfl

theorem Groups.exists_declaration (hg : Groups ds [] path content ts defaultType) {t : Tag}
    (ht : t ∈ ts) :
    ∃ d ∈ ds, QueryRecord.ofTag path content t ∈ d.queries ∧
      nameOf? ds (QueryRecord.ofTag path content t) = some d.name := by
  have hmem : QueryRecord.ofTag path content t ∈ ds.flatMap Declaration.queries := by
    rw [← List.append_nil (ds.flatMap Declaration.queries), hg.queries.mem_iff]
    exact List.mem_map.2 ⟨t, ht, rfl⟩
  cases hname : nameOf? ds (QueryRecord.ofTag path content t) with
  | none =>
    obtain ⟨d, hd, hq⟩ := List.mem_flatMap.1 hmem
    rw [nameOf?, Option.map_eq_none_iff, List.find?_eq_none] at hname
    exact absurd (by simpa using hq) (hname d hd)
  | some name =>
    obtain ⟨d, hd, hq, rfl⟩ := exists_of_nameOf? hname
    exact ⟨d, hd, hq, rfl⟩

/-- Rendering a file whose queries all have declarations keeps its queries. Each comes with the
annotation of its declaration. -/
theorem rendering_keeps_queries (hs : Scanned content ts)
    (hb : Headerless afterNamespaceHeader content ∨
      ∃ cut, HoldsBlock content ts cut ∧ InCode cut ∧ ds ≠ [])
    (hg : Groups ds [] path content ts defaultType) :
    ∃ ts', Tag.scan (String.ofList (render content ds [] defaultType)) = .ok ts' ∧
      List.Forall₂ (fun old new => SameQuery content (render content ds [] defaultType) old new ∧
        ∃ d ∈ ds, QueryRecord.ofTag path content old ∈ d.queries ∧
          new.typeArguments.map (Text.slice · (render content ds [] defaultType)) =
            some ("<" ++ Reference.merge ((QueryRecord.ofTag path content old).typeArguments.map
              TypeArguments.text) d.name ++ ">").toList) ts ts' := by
  rw [Tag.scan, String.toList_ofList]
  by_cases hds : ds = []
  · subst hds
    have hh : Headerless afterNamespaceHeader content := by
      rcases hb with hh | ⟨cut, -, -, hne⟩
      · exact hh
      · exact absurd rfl hne
    have hts : ts = [] := by
      have := hg.queries.length_eq
      simpa using this.symm
    subst hts
    rw [render_headerless_nil hh]
    exact ⟨[], hs.scan, .nil⟩
  · have hb' : Headerless afterNamespaceHeader content ∨
        ∃ cut, HoldsBlock content ts cut ∧ InCode cut := by
      rcases hb with hh | ⟨cut, hblock, hcode, -⟩
      · exact .inl hh
      · exact .inr ⟨cut, hblock, hcode⟩
    obtain ⟨ts', hscan, hrewritten⟩ := exists_rewritten hs hb' hg (by simp [keptFrom_nil])
      (by simp [nextEntries, hds])
    refine ⟨ts', hscan, ?_⟩
    have hmem : List.Forall₂ (fun old new => old ∈ ts ∧
        Rewritten ds path content (render content ds [] defaultType) old new) ts ts' :=
      (List.forall₂_and_left _ _).2 ⟨fun _ h => h, hrewritten⟩
    refine hmem.imp ?_
    rintro old new ⟨hold, hsame, hannotation⟩
    obtain ⟨d, hd, hq, hname⟩ := hg.exists_declaration hold
    exact ⟨hsame, d, hd, hq, hannotation d.name hname⟩

end Rendered

/-! A file with one query, and a block without declarations in three places -/

def sampleTag : Tag := ⟨13, none, ⟨13, 21⟩, 1, "select", 0⟩

def sampleRecord : QueryRecord := ⟨"q.ts", ⟨13, 21⟩, 1, "select", none, 13, .inline, 0⟩

def sampleDeclaration : Declaration := ⟨"Column", [], [], [], [sampleRecord]⟩

theorem sample_groups (content : List Char) :
    Groups [sampleDeclaration] [] "q.ts" content [sampleTag] "unknown" := by
  refine ⟨?_, by decide, List.Perm.refl _, ?_⟩
  · simp only [List.mem_singleton, forall_eq]
    exact ⟨by decide, by simp [sampleDeclaration]⟩
  · simp only [List.mem_singleton, forall_eq, sampleDeclaration]
    unfold Accepted
    rfl

def around (before after : String) : Cut :=
  ⟨before.toList, (Block.render "unknown" []).toList, after.toList⟩

def whole (cut : Cut) : List Char := cut.before ++ (cut.middle ++ cut.after)

theorem holdsBlock_around {before after : String} {ts : List Tag}
    (hfind : (findHeader afterNamespaceHeader (whole (around before after))).map Prod.fst =
      some before.toList)
    (hrest : findHeader afterNamespaceHeader
      ((whole (around before after)).drop (before.toList.length + 1)) = none)
    (hout : ∀ t ∈ ts, t.template.stop ≤ (around before after).span.start ∨
      (around before after).span.stop + 3 ≤ t.tagEnd) :
    HoldsBlock (whole (around before after)) ts (around before after) :=
  ⟨rfl, ⟨[], by simp, by rw [around, Block.render, List.map_nil]⟩,
    only_header local_namespaceHeader hfind hrest, hout⟩

theorem whole_around (before after : String) :
    whole (around before after) = before.toList ++
      ("export declare namespace queries \x7b\n  // Generated by pgtypegen\n\x7d".toList ++
        after.toList) := by
  have hblock : (Block.render "unknown" []).toList =
      "export declare namespace queries \x7b\n  // Generated by pgtypegen\n\x7d".toList := by
    rw [Block.render, List.map_nil, toList_ofTexts]
    repeat rw [String.toList_ofList]
    rfl
  rw [whole, around, hblock]

def inCode : Cut := around "const q = sql\x60select\x60\n" "\n"

def inComment : Cut := around "const q = sql\x60select\x60\n/*" "*/\n"

def inGap : Cut := around "sql\n" "\x60select 1\x60"

/-! Literals are taken apart by `String.toList_ofList` before anything is computed, since it is the
decoding of a literal that takes long. -/

theorem read_inCode : Scanned (whole inCode) [sampleTag] ∧
    HoldsBlock (whole inCode) [sampleTag] inCode ∧ InCode inCode := by
  refine ⟨?_, holdsBlock_around ?_ ?_ (by decide +kernel), ?_⟩
  · unfold inCode
    rw [whole_around]
    repeat rw [String.toList_ofList]
    exact ⟨by decide +kernel, by decide +kernel⟩
  · rw [whole_around]
    repeat rw [String.toList_ofList]
    decide +kernel
  · rw [whole_around]
    repeat rw [String.toList_ofList]
    decide +kernel
  · unfold inCode around
    rw [String.toList_ofList]
    exact ⟨[sampleTag], by decide +kernel⟩

theorem rendering_keeps_sample :
    Scanned (whole inCode) [sampleTag] ∧ HoldsBlock (whole inCode) [sampleTag] inCode ∧
      InCode inCode ∧ Groups [sampleDeclaration] [] "q.ts" (whole inCode) [sampleTag] "unknown" ∧
      ∃ ts', Tag.scan (String.ofList (render (whole inCode) [sampleDeclaration] [] "unknown")) =
          .ok ts' ∧
        List.Forall₂ (fun old new => SameQuery (whole inCode)
            (render (whole inCode) [sampleDeclaration] [] "unknown") old new ∧
          ∃ d ∈ [sampleDeclaration], QueryRecord.ofTag "q.ts" (whole inCode) old ∈ d.queries ∧
            new.typeArguments.map (Text.slice ·
                (render (whole inCode) [sampleDeclaration] [] "unknown")) =
              some ("<" ++ Reference.merge ((QueryRecord.ofTag "q.ts" (whole inCode)
                old).typeArguments.map TypeArguments.text) d.name ++ ">").toList)
          [sampleTag] ts' := by
  obtain ⟨hs, hblock, hcode⟩ := read_inCode
  have hg := sample_groups (whole inCode)
  exact ⟨hs, hblock, hcode, hg,
    rendering_keeps_queries hs (.inr ⟨inCode, hblock, hcode, by simp⟩) hg⟩

theorem read_inComment : Scanned (whole inComment) [sampleTag] ∧
    HoldsBlock (whole inComment) [sampleTag] inComment := by
  refine ⟨?_, holdsBlock_around ?_ ?_ (by decide +kernel)⟩
  · unfold inComment
    rw [whole_around]
    repeat rw [String.toList_ofList]
    exact ⟨by decide +kernel, by decide +kernel⟩
  all_goals
    rw [whole_around]
    repeat rw [String.toList_ofList]
    decide +kernel

theorem render_inComment :
    render (whole inComment) [sampleDeclaration] [] "unknown" =
      ("const q = sql<queries.Column>\x60select\x60\n/*export declare namespace queries \x7b\n" ++
        "  // Generated by pgtypegen\n\n  /** - query: \x60select\x60 */\n" ++
        "  export interface Column \x7b\n  \x7d\n\x7d*/\n").toList := by
  have hentries : nextEntries (whole inComment) [sampleDeclaration] [] "unknown" =
      ["  /** - query: \x60select\x60 */\n  export interface Column \x7b\n  \x7d"] := by
    unfold inComment
    rw [whole_around]
    repeat rw [String.toList_ofList]
    decide +kernel
  have hordered : Ordered (renderEdits (whole inComment) [sampleDeclaration] [] "unknown") := by
    unfold inComment
    rw [whole_around]
    repeat rw [String.toList_ofList]
    decide +kernel
  rw [render_ordered (by simp) hordered, renderEdits, renderBase, hentries, toList_ofTexts,
    List.flatMap_cons, List.flatMap_nil, String.toList_append, String.toList_append]
  unfold inComment
  rw [whole_around]
  repeat rw [String.toList_ofList]
  decide +kernel

theorem scan_render_inComment :
    Tag.scan (String.ofList (render (whole inComment) [sampleDeclaration] [] "unknown")) =
      .error ⟨.regex, 8⟩ := by
  rw [render_inComment, Tag.scan, String.toList_ofList, String.toList_append, String.toList_append]
  repeat rw [String.toList_ofList]
  decide +kernel

/-- The block that gives way cannot stand in a comment, which the new one would end. Nor can it go
away without another one in its place, which could leave the word `sql` in front of a template. -/
theorem rendering_changes_queries :
    (Scanned (whole inComment) [sampleTag] ∧ HoldsBlock (whole inComment) [sampleTag] inComment ∧
      Groups [sampleDeclaration] [] "q.ts" (whole inComment) [sampleTag] "unknown" ∧
      Tag.scan (String.ofList (render (whole inComment) [sampleDeclaration] [] "unknown")) =
        .error ⟨.regex, 8⟩) ∧
    (Scanned (whole inGap) [] ∧ HoldsBlock (whole inGap) [] inGap ∧ InCode inGap ∧
      Groups [] [] "q.ts" (whole inGap) [] "unknown" ∧
      Tag.scan (String.ofList (render (whole inGap) [] [] "unknown")) =
        .ok [⟨3, none, ⟨3, 13⟩, 1, "select 1", 0⟩]) := by
  refine ⟨⟨read_inComment.1, read_inComment.2, sample_groups _, scan_render_inComment⟩,
    ?_, ?_, ?_, ?_, ?_⟩
  · unfold inGap
    rw [whole_around]
    repeat rw [String.toList_ofList]
    exact ⟨by decide +kernel, by decide +kernel⟩
  · refine holdsBlock_around ?_ ?_ (by simp)
    all_goals
      rw [whole_around]
      repeat rw [String.toList_ofList]
      decide +kernel
  · exact ⟨[], by decide +kernel⟩
  · exact ⟨by simp, by decide, List.Perm.refl _, by simp⟩
  · unfold inGap
    rw [whole_around, Tag.scan, String.toList_ofList]
    repeat rw [String.toList_ofList]
    decide +kernel

end RowTypes.TypedSource
