import RowTypes.Proofs.FixedPoint

/-! Rendering a rendered file with other declarations for its queries. Whether type arguments are
accepted does not depend on the name in them. The name can be read back from them, so a text
that stays the same has the same names. -/

namespace RowTypes.Tag

def isPlainArgument (c : Char) : Bool :=
  !(c = '\'' || c = '"' || c = '\x60' || c = '<' || c = '>' || c = ';' || c = '=')

theorem closeAngle_plain {depth : Nat} {w : List Char} (hw : ∀ c ∈ w, isPlainArgument c = true)
    (cs : List Char) :
    closeAngle none depth false (w ++ cs) = (closeAngle none depth false cs).map (.map (w ++ ·) id) := by
  induction w with
  | nil =>
    rw [List.nil_append]
    cases closeAngle none depth false cs <;> rfl
  | cons c w ih =>
    rw [List.forall_mem_cons] at hw
    have hc := hw.1
    simp only [isPlainArgument, Bool.not_eq_true', Bool.or_eq_false_iff, decide_eq_false_iff_not] at hc
    obtain ⟨⟨⟨⟨⟨⟨hsingle, hdouble⟩, hbacktick⟩, hopen⟩, hclose⟩, hsemicolon⟩, hequals⟩ := hc
    rw [List.cons_append, closeAngle.eq_def]
    simp only [hsingle, hdouble, hbacktick, hopen, hclose, hsemicolon, hequals, false_and, or_self,
      if_false, decide_false]
    rw [ih hw.2, Option.map_map]
    rfl

theorem accepted_cons_iff {w rest : List Char} (hw : ∀ c ∈ w, isPlainArgument c = true) :
    Accepted ('<' :: (w ++ rest)) ↔ closeAngle none 1 false rest = some (rest, []) := by
  rw [Accepted, typeArguments?, closeAngle_plain hw, Option.map_map, Option.map_eq_some_iff]
  constructor
  · rintro ⟨⟨args, more⟩, h, he⟩
    simp only [Function.comp_apply, Prod.map_apply, id_eq, Prod.mk.injEq, List.cons.injEq, true_and,
      List.append_cancel_left_eq] at he
    rw [h, he.1, he.2]
  · intro h
    exact ⟨(rest, []), h, rfl⟩

end RowTypes.Tag

namespace RowTypes.TypedSource
open Tag Block

theorem isPlainArgument_ofName {name : String} (hn : isIdentifier name = true) :
    ∀ c ∈ (Reference.ofName name).toList, isPlainArgument c = true := by
  have hspace : ∀ c ∈ (Reference.space ++ ".").toList, isPlainArgument c = true := List.all_eq_true.1 (by decide)
  rw [Reference.ofName, String.toList_append, List.forall_mem_append]
  refine ⟨hspace, fun c hc => ?_⟩
  by_contra hplain
  have hpart := identifier_parts hn c hc
  simp only [isPlainArgument, Bool.not_eq_true, Bool.not_eq_false', Bool.or_eq_true,
    decide_eq_true_eq] at hplain
  rcases hplain with (((((rfl | rfl) | rfl) | rfl) | rfl) | rfl) | rfl <;>
    exact absurd hpart (by decide)

theorem argumentsNaming_parts (x : TagText) : ∃ rest, ∀ name,
    argumentsNaming x name = '<' :: ((Reference.ofName name).toList ++ rest) := by
  by_cases hm : Reference.kept x.existing = []
  · refine ⟨['>'], fun name => ?_⟩
    rw [argumentsNaming_eq, Reference.merge_eq, Reference.withMembers, if_pos hm]
  · refine ⟨' ' :: '&' :: ' ' :: (Reference.kept x.existing ++ ['>']), fun name => ?_⟩
    rw [argumentsNaming_eq, Reference.merge_eq, Reference.withMembers_toList name hm]
    simp

theorem accepted_annotation {x : TagText} {name other : String} (hn : isIdentifier name = true)
    (ho : isIdentifier other = true) (h : Accepted (argumentsNaming x name)) :
    Accepted (argumentsNaming x other) := by
  obtain ⟨rest, hrest⟩ := argumentsNaming_parts x
  rw [hrest, accepted_cons_iff (isPlainArgument_ofName hn)] at h
  rw [hrest, accepted_cons_iff (isPlainArgument_ofName ho)]
  exact h

theorem argumentsNaming_injective {x : TagText} {name other : String} (hn : isIdentifier name = true)
    (ho : isIdentifier other = true) (h : argumentsNaming x name = argumentsNaming x other) : name = other := by
  rw [argumentsNaming_eq, argumentsNaming_eq, List.cons.injEq, List.append_left_inj] at h
  have := congrArg Reference.name? (String.toList_injective h.2)
  rw [Reference.name?_merge _ hn, Reference.name?_merge _ ho] at this
  exact Option.some.inj this

section Again

variable {ds ds' : List Declaration} {failed failed' : List QueryRecord} {path defaultType : String}
  {content out : List Char} {ts ts' : List Tag}

theorem Annotated.exists_argumentsNaming (hg : Groups ds failed path content ts defaultType) {t t' : Tag}
    (h : Annotated (newArguments ds path content) content out t t') {name : String}
    (hname : nameOf? ds (QueryRecord.ofTag path content t) = some name) :
    ∃ x : TagText, x.Valid ∧ Stands out t' (x.setArgs (some (argumentsNaming x name))) ∧
      isIdentifier name = true ∧ Accepted (argumentsNaming x name) := by
  obtain ⟨x, hx, hold, hnew⟩ := h
  have hargs : newArguments ds path content t = some (argumentsNaming x name) := by
    rw [newArguments_eq hold hx, hname, Option.map_some]
  rw [hargs] at hnew
  obtain ⟨d, hd, -, rfl⟩ := exists_of_nameOf? hname
  exact ⟨x, hx, hnew, (hg.plain d hd).name, hg.newArguments_accepted t _ hargs⟩

theorem annotate_of_stands {t : Tag} {x : TagText} {name : String} (hx : x.Valid)
    (hn : isIdentifier name = true) (haccepted : Accepted (argumentsNaming x name))
    (h : Stands out t (x.setArgs (some (argumentsNaming x name)))) (other : String) :
    (annotate other (QueryRecord.ofTag path out t)).text = argumentsNaming x other := by
  have hx' : (x.setArgs (some (argumentsNaming x name))).Valid :=
    hx.setArgs fun new hnew => by rwa [← Option.some.inj hnew]
  rw [annotate, h.existing hx', existing_setArgs x hn, Reference.merge_merge _ hn, argumentsNaming]

theorem Groups.again (hg : Groups ds failed path content ts defaultType)
    (hannotated : List.Forall₂ (Annotated (newArguments ds path content) content out) ts ts')
    (hplain : ∀ d ∈ ds', d.Plain)
    (hqueries : (ds'.flatMap Declaration.queries ++ failed').Perm
      (ts'.map (QueryRecord.ofTag path out)))
    (hnamed : List.Forall₂ (fun t t' => ∀ d ∈ ds', QueryRecord.ofTag path out t' ∈ d.queries →
      nameOf? ds (QueryRecord.ofTag path content t) ≠ none) ts ts') :
    Groups ds' failed' path out ts' defaultType := by
  refine ⟨hplain, hg.identifier, hqueries, fun d hd q hq => ?_⟩
  have hmem : q ∈ ts'.map (QueryRecord.ofTag path out) :=
    hqueries.subset (List.mem_append_left _ (List.mem_flatMap.2 ⟨d, hd, hq⟩))
  obtain ⟨t', ht', rfl⟩ := List.mem_map.1 hmem
  have hboth := List.Forall₂.mp (fun _ _ h hsome => And.intro h hsome) hannotated hnamed
  obtain ⟨t, -, h, hsome⟩ := exists_of_forall₂ hboth t' ht'
  obtain ⟨name, hname⟩ := Option.ne_none_iff_exists'.1 (hsome d hd hq)
  obtain ⟨x, hx, hstands, hn, haccepted⟩ := h.exists_argumentsNaming hg hname
  rw [annotate_of_stands hx hn haccepted hstands]
  exact accepted_annotation hn (hplain d hd).name haccepted

/-- If the text stays the same, so do the names of its queries. -/
theorem nameOf?_of_render_eq {l : Layout} (hl : l.Valid) {entries : List String}
    (he : ∀ t ∈ entries, EntryText t) (hout : out = l.text entries)
    (hts' : ts' = tags .start (l.pieces entries)) (hg : Groups ds failed path content ts defaultType)
    (hannotated : List.Forall₂ (Annotated (newArguments ds path content) content out) ts ts')
    (hg' : Groups ds' failed' path out ts' defaultType)
    (hkept : ∀ e ∈ keptFrom out ds' failed', EntryText e.2)
    (hsome : nextEntries out ds' failed' defaultType ≠ [])
    (hfixed : render out ds' failed' defaultType = out) :
    List.Forall₂ (fun t t' => ∀ name name',
      nameOf? ds (QueryRecord.ofTag path content t) = some name →
        nameOf? ds' (QueryRecord.ofTag path out t') = some name' → name' = name) ts ts' := by
  obtain ⟨l', hl', hrender, hretagged⟩ := exists_rendered_layout hl he hout hts' hg' hsome
  rw [hfixed] at hrender
  have htags : ts' = tags .start (l'.pieces (nextEntries out ds' failed' defaultType)) := by
    have hscan := hl.scan he
    rw [← hout, hrender, hl'.scan (hg'.nextEntries_plain hkept), ← hts'] at hscan
    exact (Except.ok.inj hscan).symm
  -- each tag is the same tag with its own annotation
  have hself := annotated_of_retagged hretagged
  rw [Layout.texts_pieces, Layout.texts_pieces, ← hrender, ← hout, ← hts', ← htags,
    List.forall₂_same] at hself
  have hself' : List.Forall₂ (fun _ t' =>
      Annotated (newArguments ds' path out) out out t' t') ts ts' :=
    List.forall₂_iff_zip.2 ⟨hannotated.length_eq, fun h => hself _ (List.of_mem_zip h).2⟩
  refine List.Forall₂.mp (fun t t' h h' name name' hname hname' => ?_) hannotated hself'
  obtain ⟨x, hx, hstands, hn, haccepted⟩ := h.exists_argumentsNaming hg hname
  obtain ⟨y, -, -, hagain⟩ := h'
  have hnew : newArguments ds' path out t' = some (argumentsNaming x name') := by
    rw [newArguments, hname', Option.map_some, annotate_of_stands hx hn haccepted hstands]
  rw [hnew] at hagain
  have htyped := Stands.argumentSpan hagain
  rw [Stands.argumentSpan hstands, typed_setArgs, typed_setArgs] at htyped
  obtain ⟨d, hd, -, rfl⟩ := exists_of_nameOf? hname'
  exact (argumentsNaming_injective hn (hg'.plain d hd).name htyped).symm

end Again

end RowTypes.TypedSource
