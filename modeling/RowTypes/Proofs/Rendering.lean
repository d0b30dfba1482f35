import RowTypes.Proofs.Annotating

/-! What a rendered file looks like. Its tags have the annotations of their declarations, and
the new block stands in the place of the old one, or at the end of the text. -/

namespace RowTypes.TypedSource
open Tag Block

theorem infix_of_kept (text : String) : Reference.kept (some text) <:+: text.toList := by
  unfold Reference.kept
  simp only
  split
  · rename_i first rest _ hcut
    have htext := Reference.cut_text hcut
    exact (Text.trim_infix rest).trans ⟨first ++ ['&'], [], by simp [htext]⟩
  · exact List.nil_infix

def argumentsNaming (x : TagText) (name : String) : List Char :=
  ("<" ++ Reference.merge x.existing name ++ ">").toList

theorem newArguments_eq {content : List Char} {t : Tag} {x : TagText} (h : Stands content t x)
    (hx : x.Valid) (ds : List Declaration) (path : String) :
    newArguments ds path content t =
      (nameOf? ds (QueryRecord.ofTag path content t)).map (argumentsNaming x) := by
  simp only [newArguments, annotate, h.existing hx path]
  rfl

theorem argumentsNaming_eq (x : TagText) (name : String) :
    argumentsNaming x name = '<' :: ((Reference.merge x.existing name).toList ++ ['>']) := by
  rw [argumentsNaming, String.toList_append, String.toList_append]
  rfl

theorem infix_of_existing {x : TagText} {text : String} (h : x.existing = some text) :
    text.toList <:+: x.text := by
  obtain ⟨⟨gap, args⟩, body, sql, params⟩ := x
  cases args with
  | none => cases h
  | some a =>
    have htext : QueryRecord.trimText a.text.tail.dropLast = text := Option.some.inj h
    have hargs : a.text <:+: TagText.text ⟨⟨gap, some a⟩, body, sql, params⟩ :=
      ⟨word ++ gap, a.gap ++ '\x60' :: body, by simp [TagText.text, TagText.heading, HeadingText.text]⟩
    rw [← htext, QueryRecord.trimText, String.toList_ofList]
    exact (Text.trim_infix _).trans
      ((List.dropLast_prefix _).isInfix.trans ((List.tail_suffix _).isInfix.trans hargs))

theorem clear_argumentsNaming {x : TagText} (hx : Headerless afterNamespaceHeader x.text)
    {name : String} (hn : isIdentifier name = true) : Clear (argumentsNaming x name) := by
  refine ⟨_, argumentsNaming_eq x name, ?_⟩
  have hname : '\x7b' ∉ (Reference.ofName name).toList := fun h =>
    absurd (Reference.ofName_inert hn _ h) (by decide)
  rw [Reference.merge_eq]
  by_cases hm : Reference.kept x.existing = []
  · rw [Reference.withMembers, if_pos hm]
    exact headerless_of_not_mem local_namespaceHeader hname
  · have hkept : Headerless afterNamespaceHeader (Reference.kept x.existing) := by
      cases he : x.existing with
      | none => rw [he] at hm; exact absurd rfl hm
      | some text =>
        exact hx.of_infix local_namespaceHeader ((infix_of_kept text).trans (infix_of_existing he))
    rw [Reference.withMembers_toList name hm]
    refine Headerless.append_cons local_namespaceHeader (by decide) ?_ ?_
    · refine headerless_of_not_mem local_namespaceHeader ?_
      simpa using hname
    · exact headerless_cons_of_ne (by decide) hkept

/-! A text with a block -/

def keptFrom (content : List Char) (ds : List Declaration) (failed : List QueryRecord) :
    List (String × String) :=
  match Block.find? content with
  | some cut => carried cut.middle ds failed
  | none => []

def nextEntries (content : List Char) (ds : List Declaration) (failed : List QueryRecord)
    (defaultType : String) : List String :=
  ds.map (Declaration.render defaultType "  ") ++ (keptFrom content ds failed).map Prod.snd

def renderEdits (content : List Char) (ds : List Declaration) (failed : List QueryRecord)
    (defaultType : String) : List Edit :=
  annotations ds ++ ((Block.find? content).map fun cut =>
    ⟨cut.span, (ofTexts (nextEntries content ds failed defaultType)).toList⟩).toList

def renderBase (content : List Char) (ds : List Declaration) (failed : List QueryRecord)
    (defaultType : String) : List Char :=
  if (Block.find? content).isSome then content
  else appendBlock content (ofTexts (nextEntries content ds failed defaultType))

theorem render_ordered {content : List Char} {ds : List Declaration} {failed : List QueryRecord}
    {defaultType : String} (hds : ds ≠ [])
    (ho : Ordered (renderEdits content ds failed defaultType)) :
    render content ds failed defaultType = (renderEdits content ds failed defaultType).foldr
      (fun e cs => Text.splice e.span e.text cs) (renderBase content ds failed defaultType) := by
  rw [← apply_ordered (List.Perm.refl _) ho, render, renderEdits, renderBase, nextEntries, keptFrom]
  cases Block.find? content <;> simp [hds]

theorem render_layout {l : Layout} (hl : l.Valid) {entries : List String}
    (he : ∀ t ∈ entries, EntryText t) {path : String} {ds : List Declaration}
    {failed : List QueryRecord} {defaultType : String}
    (hgroup : (ds.flatMap Declaration.queries ++ failed).Perm
      ((tags .start (l.pieces entries)).map (QueryRecord.ofTag path (l.text entries))))
    (hsome : nextEntries (l.text entries) ds failed defaultType ≠ []) :
    render (l.text entries) ds failed defaultType =
      (l.retag (newArguments ds path (l.text entries)) entries).text
        (nextEntries (l.text entries) ds failed defaultType) := by
  have hperm := annotations_tags (records_nodup path (l.text entries) .start (l.pieces entries))
    hgroup
  have hnone : ¬(ds = [] ∧ carried (ofTexts entries).toList ds failed = []) := by
    rintro ⟨rfl, hc⟩
    simp [nextEntries, keptFrom, hl.find? he, hc] at hsome
  rw [render, nextEntries, keptFrom, hl.find? he]
  simp only [if_neg hnone]
  exact Layout.apply_edits hperm

/-! A text without a block -/

theorem find?_headerless {content : List Char} (h : Headerless afterNamespaceHeader content) :
    Block.find? content = none := by
  simp [Block.find?, findBraced, findHeader_eq_none h]

def separator (content : List Char) : List Char :=
  (if content.getLast? = some '\n' then "\n" else "\n\n").toList

def appended (content : List Char) (ps : List Piece) : Layout where
  front := ps ++ [.plain (separator content)]
  stub := []
  back := [.plain ['\n']]

theorem separator_cases (content : List Char) :
    separator content = ['\n'] ∨ separator content = ['\n', '\n'] := by
  unfold separator
  split
  · exact .inl rfl
  · exact .inr rfl

theorem appended_valid {content : List Char} {ps : List Piece} {b : Code.Before}
    (hps : Reads [] .operator ps b) (hh : Headerless afterNamespaceHeader (texts ps)) :
    (appended content ps).Valid := by
  have hmark : (separator content).all isMark = true := by
    rcases separator_cases content with h | h <;> rw [h] <;> decide
  have hlook : look (separator content ++ ['e']) = look [] := by
    rcases separator_cases content with h | h <;> rw [h] <;> rfl
  have hbrace : '\x7b' ∉ separator content := by
    rcases separator_cases content with h | h <;> rw [h] <;> decide
  have hquiet : Quiet ['e'] (separator content) := by
    have := Quiet.marks hmark (.nil ['e'])
    rwa [List.append_nil] at this
  obtain ⟨b', hb'⟩ := hquiet.passes b
  refine ⟨⟨b', ?_, .nil⟩, ⟨_, .plain (passes_mark (by decide) _ _) (.nil _)⟩, ?_⟩
  · refine Reads.append (hps.congr ?_) (.plain hb' (.nil b'))
    simpa [appended, Piece.text] using hlook
  · have := hh.append_of_not_mem local_namespaceHeader hbrace
    simpa [appended, Layout.before, Piece.text] using this

theorem render_pieces {ps : List Piece} (hh : Headerless afterNamespaceHeader (texts ps))
    {path : String} {ds : List Declaration} {failed : List QueryRecord} {defaultType : String}
    (hgroup : (ds.flatMap Declaration.queries ++ failed).Perm
      ((tags .start ps).map (QueryRecord.ofTag path (texts ps))))
    (hsome : nextEntries (texts ps) ds failed defaultType ≠ []) :
    render (texts ps) ds failed defaultType =
      (appended (texts ps) (retag (newArguments ds path (texts ps)) .start ps)).text
        (nextEntries (texts ps) ds failed defaultType) := by
  have hperm := annotations_tags (records_nodup path (texts ps) .start ps) hgroup
  have hedits := pieceSegments_edits (newArguments ds path (texts ps)) .start ps
  have hordered := pieceSegments_ordered (newArguments ds path (texts ps)) .start ps
  change edits 0 (pieceSegments _ .start ps) = _ at hedits
  have hds : ds ≠ [] := by
    rintro rfl
    simp [nextEntries, keptFrom, find?_headerless hh] at hsome
  rw [render, nextEntries, keptFrom, find?_headerless hh]
  simp only [hds, false_and, if_false, List.map_nil, List.append_nil]
  generalize hblock : ofTexts (ds.map (Declaration.render defaultType "  ")) = block
  let ss := pieceSegments (newArguments ds path (texts ps)) .start ps ++
    [.keep (separator (texts ps) ++ (block.toList ++ ['\n']))]
  have hss : edits 0 ss = edits 0 (pieceSegments (newArguments ds path (texts ps)) .start ps) := by
    simp [ss, edits_append, edits]
  have holds : olds ss = appendBlock (texts ps) block := by
    simp [ss, pieceSegments_olds, Segment.old, appendBlock, separator]
  have hperm' : (annotations ds).Perm (edits 0 ss) := by rwa [hss, hedits]
  have happly := apply_edits hperm' (by rwa [hss])
  rw [holds] at happly
  rw [happly]
  simp [ss, pieceSegments_news, Segment.new, Layout.text, Layout.before, appended, Piece.text,
    hblock]

end RowTypes.TypedSource
