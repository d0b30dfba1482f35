import RowTypes.Proofs.Members
import RowTypes.Proofs.Repeating

/-! A run on the text that a run has left, in which queries fail. A failed query keeps its type
arguments. The block keeps the interface to which they refer, unless a query that has not failed
takes the name for other members. -/

namespace RowTypes
open Block

structure DescribedQuery.Neutral (defaultType : String) (q : DescribedQuery) : Prop where
  query : NeutralQuery q.record.sql
  properties : ∀ c ∈ q.types.columns, ∀ name, isIdentifier name = true →
    Headerless (afterInterfaceHeader name) (Declaration.property defaultType "  " c).toList

theorem Declaration.group_neutral {qs : List DescribedQuery} {defaultType : String}
    (h : ∀ q ∈ qs, q.Neutral defaultType) : ∀ d ∈ group qs, d.Neutral defaultType := by
  intro d hd
  obtain ⟨c, hc, hr⟩ := exists_collected hd
  obtain ⟨q, hq, hfirst⟩ := collect_first qs c hc
  refine ⟨fun r hmem => ?_, ?_⟩
  · have hrecord := (group_queries qs).subset (List.mem_flatMap.2 ⟨d, hd, hmem⟩)
    obtain ⟨p, hp, rfl⟩ := List.mem_map.1 hrecord
    exact (h p hp).query
  · rw [hr.columns, hfirst.columns]
    exact (h q hq).properties

namespace TypedSource
open Tag

theorem lookup_entriesOf {defaultType : String} {ds : List Declaration}
    (hn : (ds.map Declaration.name).Nodup) {d : Declaration} (hd : d ∈ ds) :
    (entriesOf defaultType ds).lookup d.name = some (d.render defaultType "  ") := by
  induction ds with
  | nil => cases hd
  | cons e ds ih =>
    rw [List.map_cons, List.nodup_cons] at hn
    rw [entriesOf, List.map_cons, List.lookup_cons]
    rcases List.mem_cons.1 hd with rfl | hd
    · simp
    · have hne : (d.name == e.name) = false :=
        beq_eq_false_iff_ne.2 fun he => hn.1 (he ▸ List.mem_map_of_mem hd)
      simp only [hne]
      exact ih hn.2 hd

theorem membersOf?_layout {l : Layout} (hl : l.Valid) {es : List (String × String)}
    (h : ∀ e ∈ es, Declares e) {name : String} (hn : isIdentifier name = true) :
    membersOf? (l.text (es.map Prod.snd)) name =
      (es.lookup name).map fun text => memberLines text.toList := by
  have hblock := (hasEntries_layout hl h).block
  rw [membersOf?]
  split at hblock
  · rename_i cut hfind
    simp only [hfind, Option.bind_eq_bind, Option.bind_some, hblock, interface?_ofTexts hn h]
    cases es.lookup name <;> rfl
  · rename_i hfind
    rw [hfind, hblock]
    rfl

theorem members_next_iff {defaultType : String} (hd : isIdentifier defaultType = true)
    {ds ds' : List Declaration} (hplain : ∀ d ∈ ds, d.Plain) (hplain' : ∀ d ∈ ds', d.Plain)
    (hn : (ds.map Declaration.name).Nodup) (hn' : (ds'.map Declaration.name).Nodup)
    {failed : List QueryRecord} {d : Declaration} (hmem : d ∈ ds)
    (href : d.name ∈ failed.filterMap reference?) :
    ((nextEntriesOf (entriesOf defaultType ds) ds' failed defaultType).lookup d.name).map
        (fun text => memberLines text.toList) = some (d.members defaultType) ↔
      ∀ d' ∈ ds', d'.name = d.name → d'.members defaultType = d.members defaultType := by
  by_cases htaken : d.name ∈ ds'.map Declaration.name
  · obtain ⟨e, he, hname⟩ := List.mem_map.1 htaken
    have hlookup : (entriesOf defaultType ds').lookup e.name = _ := lookup_entriesOf hn' he
    rw [hname] at hlookup
    rw [nextEntriesOf, List.lookup_append, hlookup, Option.some_or, Option.map_some,
      Declaration.memberLines_render (hplain' e he) hd, Option.some.injEq]
    constructor
    · intro h d' hd' heq
      rw [List.inj_on_of_nodup_map hn' hd' he (heq.trans hname.symm), h]
    · exact fun h => h e he hname
  · rw [lookup_nextEntriesOf htaken href, lookup_entriesOf hn hmem, Option.map_some,
      Declaration.memberLines_render (hplain d hmem) hd]
    refine iff_of_true rfl fun d' hd' heq => ?_
    exact absurd (heq ▸ List.mem_map_of_mem hd') htaken

end TypedSource

namespace Generation
open Tag TypedSource

/-- In the second run each query has the same answer as in the first, or fails. -/
def Again (answer answer' : Tag → Except String QueryTypes) (ts ts' : List Tag) : Prop :=
  List.Forall₂ (fun t t' => answer' t' = answer t ∨ ∃ e, answer' t' = .error e) ts ts'

section Second

variable {answer answer' : Tag → Except String QueryTypes} {path defaultType : String}
  {content out : List Char} {ts ts' : List Tag}

theorem Again.types_eq (h : Again answer answer' ts ts') :
    List.Forall₂ (fun t t' => ∀ ty, answer' t' = .ok ty → answer t = .ok ty) ts ts' := by
  refine h.imp fun t t' ha ty hty => ?_
  rcases ha with ha | ⟨e, he⟩
  · rw [← ha, hty]
  · rw [he] at hty
    cases hty

theorem failures_eq_nil (hall : ∀ t ∈ ts, ∃ ty, answer t = .ok ty) :
    failures answer path content ts = [] := by
  refine List.eq_nil_iff_forall_not_mem.2 fun q hq => ?_
  obtain ⟨t, ht, ⟨e, he⟩, -⟩ := mem_failures.1 hq
  obtain ⟨ty, hty⟩ := hall t ht
  rw [he] at hty
  cases hty

theorem Regular.declares (hr : Regular answer path defaultType content ts)
    (hneutral : ∀ q ∈ described answer path content ts, q.Neutral defaultType) :
    ∀ e ∈ entriesOf defaultType (declarations answer path content ts), Declares e :=
  entriesOf_declares hr.identifier hr.groups.plain (Declaration.group_neutral hneutral)

/-- What a run leaves in which no query fails: the tags with new annotations, around a block with
the declarations. -/
structure Complete (answer : Tag → Except String QueryTypes) (path defaultType : String)
    (content : List Char) (ts : List Tag) (out : List Char) (ts' : List Tag) (l : Layout) :
    Prop where
  layout : l.Valid
  text : out = l.text ((entriesOf defaultType (declarations answer path content ts)).map Prod.snd)
  tags : ts' = Tag.tags .start
    (l.pieces ((entriesOf defaultType (declarations answer path content ts)).map Prod.snd))
  annotated : List.Forall₂ (Annotated (newArguments (declarations answer path content ts) path
    content) content out) ts ts'

theorem exists_complete (hs : Scanned content ts)
    (hb : Headerless afterNamespaceHeader content ∨ ∃ cut, HoldsBlock content ts cut ∧ InCode cut)
    (hr : Regular answer path defaultType content ts)
    (hall : ∀ t ∈ ts, ∃ ty, answer t = .ok ty) (hne : ts ≠ []) :
    ∃ ts' l, Complete answer path defaultType content ts
      (render content (declarations answer path content ts) (failures answer path content ts)
        defaultType) ts' l := by
  have hnext : nextEntries content (declarations answer path content ts)
      (failures answer path content ts) defaultType =
        (entriesOf defaultType (declarations answer path content ts)).map Prod.snd := by
    rw [failures_eq_nil hall, nextEntries, keptFrom_nil, List.map_nil, List.append_nil, entriesOf,
      List.map_map]
    rfl
  have hsome : nextEntries content (declarations answer path content ts)
      (failures answer path content ts) defaultType ≠ [] := by
    obtain ⟨t, ts₀, rfl⟩ := List.exists_cons_of_ne_nil hne
    obtain ⟨ty, hty⟩ := hall t List.mem_cons_self
    have hn := records_nodup_of_scan hs.scan path content
    have hname := (nameOf?_ne_none hn List.mem_cons_self).2 ⟨ty, hty⟩
    obtain ⟨name, hname⟩ := Option.ne_none_iff_exists'.1 hname
    obtain ⟨d, hd, -⟩ := exists_of_nameOf? hname
    rw [nextEntries]
    exact List.append_ne_nil_of_left_ne_nil (by simpa using List.ne_nil_of_mem hd) _
  obtain ⟨l, hl, hrender, hannotated⟩ := exists_annotated hs hb hr.groups hsome
  rw [hnext] at hrender hannotated
  exact ⟨_, l, hl, hrender, rfl, hannotated⟩

namespace Complete

variable {l : Layout} (h : Complete answer path defaultType content ts out ts' l)
  (hr : Regular answer path defaultType content ts)

include h hr

theorem reference (hs : Scanned content ts) (hall : ∀ t ∈ ts, ∃ ty, answer t = .ok ty) :
    ∀ t' ∈ ts', ∃ d ∈ declarations answer path content ts,
      reference? (QueryRecord.ofTag path out t') = some d.name := by
  intro t' ht'
  have hmem := (List.forall₂_and_left _ _).2 ⟨fun t ht => ht, h.annotated⟩
  obtain ⟨t, -, ht, hannotated⟩ := exists_of_forall₂ hmem t' ht'
  have hn := records_nodup_of_scan hs.scan path content
  obtain ⟨name, hname⟩ := Option.ne_none_iff_exists'.1 ((nameOf?_ne_none hn ht).2 (hall t ht))
  obtain ⟨d, hd, -, rfl⟩ := exists_of_nameOf? hname
  exact ⟨d, hd, reference?_annotated hr.groups hannotated hname⟩

theorem scan (hneutral : ∀ q ∈ described answer path content ts, q.Neutral defaultType) :
    scanFrom .operator .start out = .ok ts' := by
  rw [h.text, h.tags]
  refine h.layout.scan ?_
  rw [List.forall_mem_map]
  exact fun e he => (hr.declares hneutral e he).entry

variable (hs : Scanned content ts)
  (hneutral : ∀ q ∈ described answer path content ts, q.Neutral defaultType)
  (hall : ∀ t ∈ ts, ∃ ty, answer t = .ok ty)
  (hagain : Again answer answer' ts ts')

include hs hneutral hall hagain

omit hall in
theorem again : Groups (declarations answer' path out ts') (failures answer' path out ts') path out
      ts' defaultType ∧ ∀ d ∈ declarations answer' path out ts', d.Neutral defaultType := by
  have hn := records_nodup_of_scan hs.scan path content
  have hn' := records_nodup_of_scan (h.scan hr hneutral) path out
  refine ⟨hr.groups_again hagain.types_eq hn hn' h.annotated,
    Declaration.group_neutral fun q' hq' => ?_⟩
  obtain ⟨q, hq, htypes, hsql, -⟩ := exists_described path hagain.types_eq h.annotated q' hq'
  exact ⟨hsql ▸ (hneutral q hq).query, htypes ▸ (hneutral q hq).properties⟩

theorem exists_second (hfails : ∃ t' ∈ ts', ∃ e, answer' t' = .error e) :
    ∃ (ts'' : List Tag) (l' : Layout), l'.Valid ∧
      render out (declarations answer' path out ts') (failures answer' path out ts') defaultType =
        l'.text ((nextEntriesOf (entriesOf defaultType (declarations answer path content ts))
          (declarations answer' path out ts') (failures answer' path out ts') defaultType).map
            Prod.snd) ∧
      scanFrom .operator .start (render out (declarations answer' path out ts')
        (failures answer' path out ts') defaultType) = .ok ts'' ∧
      List.Forall₂ (Annotated (newArguments (declarations answer' path out ts') path out) out
        (render out (declarations answer' path out ts') (failures answer' path out ts')
          defaultType)) ts' ts'' := by
  obtain ⟨hg, hneutral'⟩ := h.again hr hs hneutral hagain
  have hdeclares := hr.declares hneutral
  have hes : HasEntries out (entriesOf defaultType (declarations answer path content ts)) := by
    rw [h.text]
    exact hasEntries_layout h.layout hdeclares
  have hplain : ∀ t ∈ (entriesOf defaultType (declarations answer path content ts)).map Prod.snd,
      EntryText t := by
    rw [List.forall_mem_map]
    exact fun e he => (hdeclares e he).entry
  have hsome : nextEntries out (declarations answer' path out ts')
      (failures answer' path out ts') defaultType ≠ [] := by
    obtain ⟨t', ht', hfail⟩ := hfails
    obtain ⟨d, hd, href⟩ := h.reference hr hs hall t' ht'
    have hmem : d.name ∈ (failures answer' path out ts').filterMap reference? :=
      List.mem_filterMap.2 ⟨_, mem_failures.2 ⟨t', ht', hfail, rfl⟩, href⟩
    intro hnil
    rw [hes.nextEntries, List.map_eq_nil_iff] at hnil
    have hds : declarations answer' path out ts' = [] :=
      List.map_eq_nil_iff.1 (List.append_eq_nil_iff.1 hnil).1
    have hlookup : (nextEntriesOf (entriesOf defaultType (declarations answer path content ts))
        (declarations answer' path out ts') (failures answer' path out ts') defaultType).lookup
          d.name = _ := lookup_nextEntriesOf (by simp [hds]) hmem
    rw [hnil, lookup_entriesOf (declarations_names_nodup answer path content ts) hd] at hlookup
    cases hlookup
  obtain ⟨l', hl', hrender, hretagged⟩ :=
    exists_rendered_layout h.layout hplain h.text h.tags hg hsome
  have hreadable : Readable out (declarations answer' path out ts')
      (failures answer' path out ts') defaultType := .inr ⟨hneutral', _, hes⟩
  have hscan := hl'.scan (hg.nextEntries_plain hreadable.kept)
  have hannotated := annotated_of_retagged hretagged
  rw [Layout.texts_pieces, Layout.texts_pieces, ← hrender, ← h.text, ← h.tags] at hannotated
  rw [← hrender] at hscan
  exact ⟨_, l', hl', by rw [hrender, hes.nextEntries], hscan, hannotated⟩

end Complete

end Second

/-- A failed query has its type arguments as before. The interface to which they refer has the
members that it had exactly if no query of the second run takes its name for other members. -/
def KeepsMembers (answer' : Tag → Except String QueryTypes) (path defaultType out : String)
    (ts' : List Tag) (out' : String) (t' t'' : Tag) : Prop :=
  t''.typeArguments.map (Text.slice · out'.toList) =
      t'.typeArguments.map (Text.slice · out.toList) ∧
    ∃ name members, reference? (QueryRecord.ofTag path out.toList t') = some name ∧
      membersOf? out.toList name = some members ∧
      (membersOf? out'.toList name = some members ↔
        ∀ d ∈ declarations answer' path out.toList ts', d.name = name →
          d.members defaultType = members)

/-- Each query that fails in a second run keeps its type arguments, and keeps the members of its
interface unless a query that has not failed takes the name. -/
theorem failed_queries_keep_members_iff {answer : Tag → Except String QueryTypes}
    {path defaultType content : String} {ts : List Tag} (hs : Scanned content.toList ts)
    (hb : Headerless afterNamespaceHeader content.toList ∨
      ∃ cut, HoldsBlock content.toList ts cut ∧ InCode cut)
    (hr : Regular answer path defaultType content.toList ts)
    (hneutral : ∀ q ∈ described answer path content.toList ts, q.Neutral defaultType)
    (hall : ∀ t ∈ ts, ∃ ty, answer t = .ok ty) (hne : ts ≠ []) {out : String}
    (hout : out = rerun answer defaultType path content) :
    ∃ ts', Tag.scan out = .ok ts' ∧ List.Forall₂ (SameQuery content.toList out.toList) ts ts' ∧
      ∀ answer', Again answer answer' ts ts' → (∃ t' ∈ ts', ∃ e, answer' t' = .error e) →
        ∃ out' ts'', out' = rerun answer' defaultType path out ∧ Tag.scan out' = .ok ts'' ∧
          List.Forall₂ (fun t' t'' => (∃ e, answer' t' = .error e) →
            KeepsMembers answer' path defaultType out ts' out' t' t'') ts' ts'' := by
  have hscan : Tag.scan content = .ok ts := hs.scan
  rw [rerun_scan answer hscan] at hout
  obtain ⟨ts', l, h⟩ := exists_complete hs hb hr hall hne
  have hlist : out.toList = render content.toList (declarations answer path content.toList ts)
      (failures answer path content.toList ts) defaultType := by
    rw [hout, String.toList_ofList]
  rw [← hlist] at h
  clear hout hlist hscan
  have hscan : Tag.scan out = .ok ts' := h.scan hr hneutral
  refine ⟨ts', hscan, h.annotated.imp fun _ _ ha => ha.rewritten.1, ?_⟩
  intro answer' hagain hfails
  obtain ⟨hg', hneutral'⟩ := h.again hr hs hneutral hagain
  obtain ⟨ts'', l', hl', hrender, hscan', hannotated⟩ :=
    h.exists_second hr hs hneutral hall hagain hfails
  have hdeclares := hr.declares hneutral
  have hdeclares' := nextEntriesOf_declares (failures answer' path out.toList ts') hdeclares
    hr.identifier hg'.plain hneutral'
  have hn' := records_nodup_of_scan hscan path out.toList
  refine ⟨_, ts'', (rerun_scan answer' hscan).symm, ?_, ?_⟩
  · rw [Tag.scan, String.toList_ofList, hscan']
  · have hmem := (List.forall₂_and_left _ _).2 ⟨fun t' ht' => ht', hannotated⟩
    refine hmem.imp ?_
    rintro t' t'' ⟨ht', x, hx, hold, hnew⟩ hfail
    rw [newArguments_failed hn' ht' hfail] at hnew
    rw [KeepsMembers, String.toList_ofList]
    refine ⟨by rw [hnew.typeArguments, hold.typeArguments]; rfl, ?_⟩
    obtain ⟨d, hd, href⟩ := h.reference hr hs hall t' ht'
    have hname := (hr.groups.plain d hd).name
    have hnames := declarations_names_nodup answer path content.toList ts
    refine ⟨d.name, d.members defaultType, href, ?_, ?_⟩
    · rw [h.text, membersOf?_layout h.layout hdeclares hname, lookup_entriesOf hnames hd,
        Option.map_some, Declaration.memberLines_render (hr.groups.plain d hd) hr.identifier]
    · rw [hrender, membersOf?_layout hl' hdeclares' hname]
      exact members_next_iff hr.identifier hr.groups.plain hg'.plain hnames
        (declarations_names_nodup answer' path out.toList ts') hd
        (List.mem_filterMap.2 ⟨_, mem_failures.2 ⟨t', ht', hfail, rfl⟩, href⟩)

theorem sample_neutral : ∀ q ∈ described (fun t => sampleTypes t.sql) "q.ts" sampleText.toList
    sampleTags, q.Neutral "unknown" := by
  intro q hq
  obtain ⟨t, ht, ty, hty, rfl⟩ := mem_described.1 hq
  cases hty
  have hsql : t.sql = "a" ∨ t.sql = "b" := by
    simp only [sampleTags, List.mem_cons, List.not_mem_nil, or_false] at ht
    rcases ht with rfl | rfl
    · exact .inl rfl
    · exact .inr rfl
  refine ⟨?_, fun c hc name hn => ?_⟩
  · change NeutralQuery t.sql
    rcases hsql with h | h <;> rw [h]
    · exact ⟨fun name hn => headerless_of_not_mem (local_interfaceHeader hn) (by decide +kernel),
        by decide +kernel⟩
    · exact ⟨fun name hn => headerless_of_not_mem (local_interfaceHeader hn) (by decide +kernel),
        by decide +kernel⟩
  · rw [List.mem_ite_nil_left, List.mem_singleton] at hc
    rw [hc.2]
    exact headerless_of_not_mem (local_interfaceHeader hn) (by decide +kernel)

theorem failed_queries_of_sample :
    Scanned sampleText.toList sampleTags ∧ Headerless afterNamespaceHeader sampleText.toList ∧
      Regular (fun t => sampleTypes t.sql) "q.ts" "unknown" sampleText.toList sampleTags ∧
      (∀ t ∈ sampleTags, ∃ ty, sampleTypes t.sql = .ok ty) ∧
      ∃ ts', Tag.scan (rerun (fun t => sampleTypes t.sql) "unknown" "q.ts" sampleText) = .ok ts' ∧
        List.Forall₂ (SameQuery sampleText.toList
          (rerun (fun t => sampleTypes t.sql) "unknown" "q.ts" sampleText).toList) sampleTags ts' ∧
        ∀ answer', Again (fun t => sampleTypes t.sql) answer' sampleTags ts' →
          (∃ t' ∈ ts', ∃ e, answer' t' = .error e) →
          ∃ out' ts'', out' = rerun answer' "unknown" "q.ts"
              (rerun (fun t => sampleTypes t.sql) "unknown" "q.ts" sampleText) ∧
            Tag.scan out' = .ok ts'' ∧
            List.Forall₂ (fun t' t'' => (∃ e, answer' t' = .error e) →
              KeepsMembers answer' "q.ts" "unknown"
                (rerun (fun t => sampleTypes t.sql) "unknown" "q.ts" sampleText) ts' out' t' t'')
              ts' ts'' := by
  obtain ⟨-, hs, hh, -⟩ := sample_read
  have hall : ∀ t ∈ sampleTags, ∃ ty, sampleTypes t.sql = .ok ty := fun t _ => ⟨_, rfl⟩
  exact ⟨hs, hh, sample_regular, hall, failed_queries_keep_members_iff hs (.inl hh) sample_regular
    sample_neutral hall (by decide) rfl⟩

def failingTypes (sql : String) : Except String QueryTypes :=
  if sql = "a" then .error "a" else sampleTypes sql

def failingEntry : List Char :=
  "  /** - query: \x60b\x60 */\n".toList ++ "  export interface Column \x7b\n".toList ++
    "    /** not null: \x60true\x60, regtype: \x60\x60 */\n    '?': number\n  \x7d".toList

def failingOutput : List Char :=
  "sql<queries.Column>\x60a\x60\nsql<queries.Column>\x60b\x60\n\n".toList ++
    ("export declare namespace queries ".toList ++ '\x7b' ::
      ("\n  // Generated by pgtypegen\n".toList ++ '\n' :: failingEntry ++ "\n\x7d".toList)) ++
        ['\n']

theorem failing_nextEntries : nextEntries (sampleOutput '3')
    (declarations (fun t => failingTypes t.sql) "q.ts" (sampleOutput '3') sampleTagsAgain)
    (failures (fun t => failingTypes t.sql) "q.ts" (sampleOutput '3') sampleTagsAgain) "unknown" =
      [String.ofList failingEntry] := by
  unfold sampleOutput sampleEntry sampleEntryOnLine failingEntry
  repeat rw [String.toList_ofList]
  decide +kernel

theorem regenerate_failing :
    regenerate failingTypes "unknown" "q.ts" (String.ofList (sampleOutput '3')) =
      String.ofList failingOutput := by
  have hordered : Ordered (renderEdits (sampleOutput '3')
      (declarations (fun t => failingTypes t.sql) "q.ts" (sampleOutput '3') sampleTagsAgain)
      (failures (fun t => failingTypes t.sql) "q.ts" (sampleOutput '3') sampleTagsAgain)
        "unknown") := by
    unfold sampleOutput sampleEntry sampleEntryOnLine
    repeat rw [String.toList_ofList]
    decide +kernel
  rw [regenerate_scan (by decide +kernel) scan_sampleOutput, String.toList_ofList,
    render_ordered (by decide +kernel) hordered, renderBase, failing_nextEntries,
    renderEdits, failing_nextEntries, toList_ofTexts, List.flatMap_cons, List.flatMap_nil]
  refine congrArg String.ofList ?_
  unfold sampleOutput sampleEntry sampleEntryOnLine failingOutput failingEntry
  repeat rw [String.toList_ofList]
  decide +kernel

def letterText : List Char :=
  "sql<queries.Été>\x60a\x60\n\nexport declare namespace queries ".toList ++ '\x7b' ::
    "\n  // Generated by pgtypegen\n\n  /** - query: \x60a\x60 */\n  export interface Été ".toList ++
      '\x7b' :: "\n    /** not null: \x60true\x60, regtype: \x60\x60 */\n    x: number\n  ".toList ++
        "\x7d\n\x7d\n".toList

def letterQuery : QueryRecord :=
  QueryRecord.ofTag "q.ts" letterText ⟨3, some ⟨3, 18⟩, ⟨18, 21⟩, 1, "a", 0⟩

/-- A query that has not failed takes the name. And a name with a letter beyond ASCII is not seen as
a name, so its interface is gone. -/
theorem failed_queries_lose_members :
    (membersOf? (regenerate sampleTypes "unknown" "q.ts" sampleText).toList "Column" = some [] ∧
      membersOf? (regenerate failingTypes "unknown" "q.ts"
        (regenerate sampleTypes "unknown" "q.ts" sampleText)).toList "Column" =
          some ["'?': number"]) ∧
    (membersOf? letterText "Été" = some ["x: number"] ∧
      render letterText [] [letterQuery] "unknown" = "sql<queries.Été>\x60a\x60\n".toList) := by
  rw [regenerate_sample, regenerate_failing, String.toList_ofList, String.toList_ofList]
  unfold sampleOutput sampleEntry sampleEntryOnLine failingOutput failingEntry letterQuery letterText
  repeat rw [String.toList_ofList]
  refine ⟨⟨by decide +kernel, by decide +kernel⟩, by decide +kernel, by decide +kernel⟩

end Generation
end RowTypes
