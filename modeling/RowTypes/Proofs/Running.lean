import RowTypes.Generation.Run
import RowTypes.Proofs.Carrying
import RowTypes.Proofs.Naming
import RowTypes.Proofs.Renaming

/-! A run on a text. Its queries come with types or fail, the former are grouped, and the text is
rendered with the groups. -/

namespace RowTypes.Generation
open Tag Block TypedSource

/-- The text of a file after a run that finds these types for its queries. -/
def regenerate (types : String → Except String QueryTypes) (defaultType path content : String) :
    String :=
  match SourceFile.extract path content with
  | .error _ => content
  | .ok file =>
    let p := filePlan types file
    if p.declarations = [] ∧ (Block.find? content.toList).isNone then content
    else String.ofList (render content.toList p.declarations p.failed defaultType)

/-! The queries of a text with what came of them -/

section Results

variable (answer : Tag → Except String QueryTypes) (path : String) (content : List Char)
  (ts : List Tag)

def results : List QueryResult := ts.map fun t => (QueryRecord.ofTag path content t, answer t)

def described : List DescribedQuery :=
  (results answer path content ts).filterMap QueryResult.described?

def declarations : List Declaration := Declaration.group (described answer path content ts)

def failures : List QueryRecord := (results answer path content ts).filterMap QueryResult.failed?

theorem described_cons (t : Tag) : described answer path content (t :: ts) =
    match answer t with
    | .ok ty => ⟨QueryRecord.ofTag path content t, ty⟩ :: described answer path content ts
    | .error _ => described answer path content ts := by
  rw [described, results, List.map_cons, List.filterMap_cons]
  cases h : answer t <;> rfl

theorem failures_cons (t : Tag) : failures answer path content (t :: ts) =
    match answer t with
    | .ok _ => failures answer path content ts
    | .error _ => QueryRecord.ofTag path content t :: failures answer path content ts := by
  rw [failures, results, List.map_cons, List.filterMap_cons]
  cases h : answer t <;> rfl

theorem described_failures : ((described answer path content ts).map DescribedQuery.record ++
    failures answer path content ts).Perm (ts.map (QueryRecord.ofTag path content)) := by
  induction ts with
  | nil => exact List.Perm.refl _
  | cons t ts ih =>
    rw [described_cons, failures_cons, List.map_cons]
    cases answer t with
    | ok ty => exact ih.cons _
    | error e => exact List.perm_middle.trans (ih.cons _)

theorem declarations_failures : ((declarations answer path content ts).flatMap
    Declaration.queries ++ failures answer path content ts).Perm
      (ts.map (QueryRecord.ofTag path content)) :=
  ((Declaration.group_queries _).append_right _).trans (described_failures answer path content ts)

end Results

section Regenerate

variable {types : String → Except String QueryTypes} {defaultType path content : String}
  {ts : List Tag}

theorem filePlan_scan (types : String → Except String QueryTypes) (path content : String)
    (ts : List Tag) :
    filePlan types ⟨path, content, ts.map (QueryRecord.ofTag path content.toList)⟩ =
      ⟨⟨path, content, ts.map (QueryRecord.ofTag path content.toList)⟩,
        declarations (fun t => types t.sql) path content.toList ts,
        failures (fun t => types t.sql) path content.toList ts⟩ := by
  have hresults : queryResults types
      ⟨path, content, ts.map (QueryRecord.ofTag path content.toList)⟩ =
      results (fun t => types t.sql) path content.toList ts := by
    rw [queryResults, List.map_map]
    rfl
  rw [filePlan, hresults]
  rfl

def rerun (answer : Tag → Except String QueryTypes) (defaultType path content : String) : String :=
  match Tag.scan content with
  | .error _ => content
  | .ok ts => String.ofList (render content.toList (declarations answer path content.toList ts)
      (failures answer path content.toList ts) defaultType)

theorem rerun_scan (answer : Tag → Except String QueryTypes) (hscan : Tag.scan content = .ok ts) :
    rerun answer defaultType path content = String.ofList (render content.toList
      (declarations answer path content.toList ts) (failures answer path content.toList ts)
        defaultType) := by
  rw [rerun, hscan]

theorem regenerate_eq_rerun (hpath : isSqlPath path = false) :
    regenerate types defaultType path content =
      rerun (fun t => types t.sql) defaultType path content := by
  cases hscan : Tag.scan content with
  | error e =>
    have hfile : SourceFile.extract path content = .error e := by
      rw [SourceFile.extract, hpath, hscan]
      rfl
    unfold regenerate
    rw [hfile, rerun, hscan]
  | ok ts =>
    have hfile : SourceFile.extract path content =
        .ok ⟨path, content, ts.map (QueryRecord.ofTag path content.toList)⟩ := by
      rw [SourceFile.extract, hpath, hscan]
      rfl
    unfold regenerate
    rw [hfile, rerun_scan _ hscan]
    simp only [filePlan_scan]
    split
    · rename_i hnone
      rw [hnone.1, TypedSource.render, Option.isNone_iff_eq_none.1 hnone.2]
      simp
    · rfl

theorem regenerate_scan (hpath : isSqlPath path = false) (hscan : Tag.scan content = .ok ts) :
    regenerate types defaultType path content = String.ofList (render content.toList
      (declarations (fun t => types t.sql) path content.toList ts)
      (failures (fun t => types t.sql) path content.toList ts) defaultType) := by
  rw [regenerate_eq_rerun hpath, rerun_scan _ hscan]

end Regenerate

/-! Texts that a run can render -/

/-- Identifiers for names, and columns of which none breaks its comment. Each annotation is type
arguments from its first character to its last. -/
structure Regular (answer : Tag → Except String QueryTypes) (path defaultType : String)
    (content : List Char) (ts : List Tag) : Prop where
  identifier : isIdentifier defaultType = true
  names : ∀ q ∈ described answer path content ts, isIdentifier q.baseName = true
  columns : ∀ q ∈ described answer path content ts, ∀ c ∈ q.types.columns, c.Plain
  accepted : ∀ d ∈ declarations answer path content ts, ∀ q ∈ d.queries,
    Accepted (annotate d.name q).text

theorem Regular.groups {answer : Tag → Except String QueryTypes} {path defaultType : String}
    {content : List Char} {ts : List Tag} (h : Regular answer path defaultType content ts) :
    Groups (declarations answer path content ts) (failures answer path content ts) path content ts
      defaultType where
  plain := Declaration.group_plain h.names h.columns
  identifier := h.identifier
  queries := declarations_failures answer path content ts
  accepted := h.accepted

theorem mem_described {answer : Tag → Except String QueryTypes} {path : String}
    {content : List Char} {ts : List Tag} {q : DescribedQuery} :
    q ∈ described answer path content ts ↔
      ∃ t ∈ ts, ∃ ty, answer t = .ok ty ∧ q = ⟨QueryRecord.ofTag path content t, ty⟩ := by
  induction ts with
  | nil => simp [described, results]
  | cons t ts ih =>
    rw [described_cons]
    cases h : answer t with
    | ok ty => simp [ih, h]
    | error e => simp [ih, h]

theorem mem_failures {answer : Tag → Except String QueryTypes} {path : String}
    {content : List Char} {ts : List Tag} {q : QueryRecord} :
    q ∈ failures answer path content ts ↔
      ∃ t ∈ ts, (∃ e, answer t = .error e) ∧ q = QueryRecord.ofTag path content t := by
  induction ts with
  | nil => simp [failures, results]
  | cons t ts ih =>
    rw [failures_cons]
    cases h : answer t with
    | ok ty => simp [ih, h]
    | error e => simp [ih, h]

theorem described_nodup {answer : Tag → Except String QueryTypes} {path : String}
    {content : List Char} {ts : List Tag}
    (hn : (ts.map (QueryRecord.ofTag path content)).Nodup) :
    ((described answer path content ts).map DescribedQuery.record).Nodup := by
  have := (described_failures answer path content ts).nodup_iff.2 hn
  exact (List.nodup_append.1 this).1

section Move

variable {path : String} {content out : List Char} {ts ts' : List Tag}
  {f : QueryRecord → QueryRecord}
  (hmoved : List.Forall₂ (fun t t' => f (QueryRecord.ofTag path content t) =
    QueryRecord.ofTag path out t') ts ts')

include hmoved

theorem described_move {answer answer' : Tag → Except String QueryTypes}
    (hanswer : List.Forall₂ (fun t t' => answer' t' = answer t) ts ts') :
    described answer' path out ts' =
      (described answer path content ts).map (DescribedQuery.move f) ∧
    failures answer' path out ts' = (failures answer path content ts).map f := by
  induction hmoved with
  | nil => exact ⟨rfl, rfl⟩
  | @cons t t' ts ts' hmove _ ih =>
    rw [List.forall₂_cons] at hanswer
    obtain ⟨hdescribed, hfailures⟩ := ih hanswer.2
    rw [described_cons, described_cons, failures_cons, failures_cons, hanswer.1]
    cases answer t with
    | ok ty =>
      exact ⟨by simp only [List.map_cons, DescribedQuery.move, hmove, hdescribed], hfailures⟩
    | error e => exact ⟨hdescribed, by simp only [List.map_cons, hmove, hfailures]⟩

theorem baseName_move (answer : Tag → Except String QueryTypes) :
    ∀ q ∈ described answer path content ts, (q.move f).baseName = q.baseName := by
  intro q hq
  obtain ⟨t, ht, ty, -, rfl⟩ := mem_described.1 hq
  obtain ⟨t', -, hmove⟩ := exists_of_forall₂ hmoved.flip t ht
  exact DescribedQuery.baseName_congr (by simp only [DescribedQuery.move]; rw [hmove]; rfl)
    (by simp only [DescribedQuery.move]; rw [hmove]; rfl) rfl

end Move

theorem declarations_names_nodup (answer : Tag → Except String QueryTypes) (path : String)
    (content : List Char) (ts : List Tag) :
    ((declarations answer path content ts).map Declaration.name).Nodup :=
  Declaration.group_nodup _

theorem declarations_nodup (answer : Tag → Except String QueryTypes) {path : String}
    {content : List Char} {ts : List Tag}
    (hn : (ts.map (QueryRecord.ofTag path content)).Nodup) :
    ((declarations answer path content ts).flatMap Declaration.queries).Nodup :=
  (List.nodup_append.1 ((declarations_failures answer path content ts).nodup_iff.2 hn)).1

theorem nameOf?_ne_none {answer : Tag → Except String QueryTypes} {path : String}
    {content : List Char} {ts : List Tag} (hn : (ts.map (QueryRecord.ofTag path content)).Nodup)
    {t : Tag} (ht : t ∈ ts) :
    nameOf? (declarations answer path content ts) (QueryRecord.ofTag path content t) ≠ none ↔
      ∃ ty, answer t = .ok ty := by
  have hperm := Declaration.group_queries (described answer path content ts)
  constructor
  · intro h
    obtain ⟨name, hname⟩ := Option.ne_none_iff_exists'.1 h
    obtain ⟨d, hd, hq, -⟩ := exists_of_nameOf? hname
    have hmem := hperm.subset (List.mem_flatMap.2 ⟨d, hd, hq⟩)
    obtain ⟨q, hq, hrecord⟩ := List.mem_map.1 hmem
    obtain ⟨s, hs, ty, hty, rfl⟩ := mem_described.1 hq
    have : s = t := List.inj_on_of_nodup_map hn hs ht hrecord
    exact ⟨ty, this ▸ hty⟩
  · rintro ⟨ty, hty⟩
    have hmem : QueryRecord.ofTag path content t ∈
        (described answer path content ts).map DescribedQuery.record :=
      List.mem_map.2 ⟨_, mem_described.2 ⟨t, ht, ty, hty, rfl⟩, rfl⟩
    obtain ⟨d, hd, hq⟩ := List.mem_flatMap.1 (hperm.symm.subset hmem)
    rw [nameOf?_eq_some (declarations_nodup _ hn) hd hq]
    simp

theorem newArguments_failed {answer : Tag → Except String QueryTypes} {path : String}
    {content : List Char} {ts : List Tag} (hn : (ts.map (QueryRecord.ofTag path content)).Nodup)
    {t : Tag} (ht : t ∈ ts) (hfail : ∃ e, answer t = .error e) :
    newArguments (declarations answer path content ts) path content t = none := by
  obtain ⟨e, he⟩ := hfail
  rw [newArguments, Option.map_eq_none_iff]
  by_contra hname
  obtain ⟨ty, hty⟩ := (nameOf?_ne_none hn ht).1 hname
  rw [he] at hty
  cases hty

theorem reference?_existing {content : List Char} {t : Tag} {x : TagText} (h : Stands content t x)
    (hx : x.Valid) (path : String) :
    reference? (QueryRecord.ofTag path content t) = x.existing.bind Reference.name? := by
  rw [reference?, ← h.existing hx path, Option.bind_map]
  rfl

theorem reference?_eq {path : String} {content out : List Char} {args : Tag → Option (List Char)}
    {t t' : Tag} (h : Annotated args content out t t') (hnone : args t = none) :
    reference? (QueryRecord.ofTag path out t') = reference? (QueryRecord.ofTag path content t) := by
  obtain ⟨x, hx, hold, hnew⟩ := h
  rw [hnone] at hnew
  rw [reference?_existing hold hx, reference?_existing hnew hx]
  rfl

theorem reference?_annotated {ds : List Declaration} {failed : List QueryRecord}
    {path defaultType : String} {content out : List Char} {ts : List Tag}
    (hg : Groups ds failed path content ts defaultType) {t t' : Tag}
    (h : Annotated (newArguments ds path content) content out t t') {name : String}
    (hname : nameOf? ds (QueryRecord.ofTag path content t) = some name) :
    reference? (QueryRecord.ofTag path out t') = some name := by
  obtain ⟨x, hx, hstands, hn, haccepted⟩ := h.exists_argumentsNaming hg hname
  have hx' : (x.setArgs (some (argumentsNaming x name))).Valid :=
    hx.setArgs fun new hnew => by rwa [← Option.some.inj hnew]
  rw [reference?_existing hstands hx', existing_setArgs x hn, Option.bind_some]
  exact Reference.name?_merge x.existing hn

section Again

variable {answer answer' : Tag → Except String QueryTypes} {path defaultType : String}
  {content out : List Char} {ts ts' : List Tag}
  (hanswer : List.Forall₂ (fun t t' => ∀ ty, answer' t' = .ok ty → answer t = .ok ty) ts ts')

include hanswer

variable (path) in
theorem exists_described {args : Tag → Option (List Char)}
    (hannotated : List.Forall₂ (Annotated args content out) ts ts') :
    ∀ q' ∈ described answer' path out ts', ∃ q ∈ described answer path content ts,
      q'.types = q.types ∧ q'.record.sql = q.record.sql ∧ q'.baseName = q.baseName := by
  intro q' hq'
  obtain ⟨t', ht', ty, hty, rfl⟩ := mem_described.1 hq'
  have hboth := List.Forall₂.mp (fun t t' h ha => And.intro h ha) hannotated hanswer
  obtain ⟨t, ht, ⟨x, -, hold, hnew⟩, ha⟩ := exists_of_forall₂ hboth t' ht'
  refine ⟨_, mem_described.2 ⟨t, ht, ty, ha ty hty, rfl⟩, rfl, ?_,
    DescribedQuery.baseName_congr rfl rfl rfl⟩
  change t'.sql = t.sql
  rw [hnew.sql.1, hold.sql.1, (x.setArgs_tail _).2.1]

/-- A second run in which no query has other types than in the first can render the text again. -/
theorem Regular.groups_again (hr : Regular answer path defaultType content ts)
    (hn : (ts.map (QueryRecord.ofTag path content)).Nodup)
    (hn' : (ts'.map (QueryRecord.ofTag path out)).Nodup)
    (hannotated : List.Forall₂ (Annotated (newArguments (declarations answer path content ts) path
      content) content out) ts ts') :
    Groups (declarations answer' path out ts') (failures answer' path out ts') path out ts'
      defaultType := by
  have hdescribed := exists_described path hanswer hannotated
  have hplain : ∀ d ∈ declarations answer' path out ts', d.Plain := by
    refine Declaration.group_plain (fun q' hq' => ?_) fun q' hq' => ?_
    · obtain ⟨q, hq, -, -, hbase⟩ := hdescribed q' hq'
      rw [hbase]
      exact hr.names q hq
    · obtain ⟨q, hq, htypes, -, -⟩ := hdescribed q' hq'
      rw [htypes]
      exact hr.columns q hq
  refine hr.groups.again hannotated hplain (declarations_failures answer' path out ts')
    (List.forall₂_iff_zip.2 ⟨hanswer.length_eq, fun {t t'} hmem d hd hq => ?_⟩)
  obtain ⟨ht, ht'⟩ := List.of_mem_zip hmem
  have hname : nameOf? (declarations answer' path out ts') (QueryRecord.ofTag path out t') ≠
      none := by
    rw [nameOf?_eq_some (declarations_nodup _ hn') hd hq]
    simp
  obtain ⟨ty, hty⟩ := (nameOf?_ne_none hn' ht').1 hname
  exact (nameOf?_ne_none hn ht).2 ⟨ty, (List.forall₂_iff_zip.1 hanswer).2 hmem ty hty⟩

end Again

end RowTypes.Generation
