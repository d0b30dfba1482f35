import Mathlib.Data.List.Induction
import RowTypes.Proofs.AllOrNothing
import RowTypes.Proofs.Answers
import RowTypes.Proofs.Grouping
import RowTypes.Proofs.Stopping

/-! What a report accounts for. Each file that was found is counted once, as changed, unchanged or
failed, and each query of the files that could be read once, as generated or failed. A file that
has failed is left as it was, unless the companion of another file is put in its place. -/

namespace RowTypes

/-! Queries -/

namespace SourceFile

theorem file_of_extract {path content : String} {file : SourceFile}
    (h : extract path content = .ok file) : ∀ q ∈ file.queries, q.file = path := by
  intro q hq
  rw [extract] at h
  split at h
  · cases h
    rw [Option.mem_toList, QueryRecord.ofSqlFile?] at hq
    split at hq
    · cases hq
    · rw [← Option.some.inj hq]
  · cases hscan : Tag.scan content with
    | error e =>
      rw [hscan] at h
      cases h
    | ok tags =>
      rw [hscan] at h
      cases h
      obtain ⟨tag, -, rfl⟩ := List.mem_map.1 hq
      rfl

end SourceFile

namespace Declaration

theorem map_queries_rename (taken : List String) (ds : List Declaration) :
    (rename taken ds).map queries = ds.map queries := by
  induction ds generalizing taken with
  | nil => rfl
  | cons d ds ih => rw [rename, List.map_cons, List.map_cons, ih]

theorem flatMap_queries_add (q : DescribedQuery) (ds : List Declaration) :
    ((add q ds).flatMap queries).Perm (ds.flatMap queries ++ [q.record]) := by
  induction ds with
  | nil => rfl
  | cons d ds ih =>
    rw [add]
    split
    · rw [List.flatMap_cons, List.flatMap_cons, List.append_assoc, List.append_assoc]
      exact List.perm_append_comm.append_left d.queries
    · rw [List.flatMap_cons, List.flatMap_cons, List.append_assoc]
      exact ih.append_left d.queries

theorem flatMap_queries_group (qs : List DescribedQuery) :
    ((group qs).flatMap queries).Perm (qs.map DescribedQuery.record) := by
  have hfold : ∀ ds : List Declaration, ((qs.foldl (fun ds q => add q ds) ds).flatMap queries).Perm
      (ds.flatMap queries ++ qs.map DescribedQuery.record) := by
    induction qs with
    | nil => simp
    | cons q qs ih =>
      intro ds
      rw [List.foldl_cons, List.map_cons, List.append_cons]
      exact (ih _).trans ((flatMap_queries_add q ds).append_right _)
  rw [List.flatMap_def, group, map_queries_rename, ← List.flatMap_def]
  exact hfold []

end Declaration

namespace QueryResult

theorem described_append_failed (results : List QueryResult) :
    ((results.filterMap described?).map DescribedQuery.record ++ results.filterMap failed?).Perm
      (results.map Prod.fst) := by
  induction results with
  | nil => rfl
  | cons r results ih =>
    obtain ⟨q, _ | types⟩ := r
    · exact List.perm_middle.trans (ih.cons q)
    · exact ih.cons q

theorem map_failure (results : List QueryResult) :
    (results.filterMap failure?).map (fun f => (f.file, f.line, f.sql)) =
      (results.filterMap failed?).map fun q => (q.file, q.line, q.sql) := by
  induction results with
  | nil => rfl
  | cons r results ih =>
    obtain ⟨q, _ | types⟩ := r
    · exact congrArg _ ih
    · exact ih

end QueryResult

namespace Generation

variable {o : Options} {s : Surroundings} {w w₁ : World} {p : Prepared} {report : Report}

/-- The report counts the queries of the files that could be read, each once: it is in one
declaration of its file, or it is one failure that names its file, its line and its text. -/
structure Prepared.CountsQueries (p : Prepared) (report : Report) : Prop where
  found : report.queriesFound = (p.sources.flatMap SourceFile.queries).length
  total : report.queriesFound = report.queriesGenerated + report.queryFailures.length
  generated : report.queriesGenerated =
    (p.plans.flatMap fun plan => plan.declarations.flatMap Declaration.queries).length
  failures : report.queryFailures.map (fun f => (f.file, f.line, f.sql)) =
    p.plans.flatMap fun plan => plan.failed.map fun q => (plan.file.path, q.line, q.sql)
  once : ∀ plan ∈ p.plans,
    (plan.declarations.flatMap Declaration.queries ++ plan.failed).Perm plan.file.queries

theorem filePlan_queries (types : String → Except String QueryTypes) (file : SourceFile) :
    ((filePlan types file).declarations.flatMap Declaration.queries).Perm
      (((queryResults types file).filterMap QueryResult.described?).map DescribedQuery.record) :=
  Declaration.flatMap_queries_group _

theorem filePlan_once (types : String → Except String QueryTypes) (file : SourceFile) :
    ((filePlan types file).declarations.flatMap Declaration.queries ++
      (filePlan types file).failed).Perm file.queries := by
  refine ((filePlan_queries types file).append_right _).trans
    ((QueryResult.described_append_failed _).trans ?_)
  rw [queryResults, List.map_map]
  exact .of_eq (List.map_id _)

theorem map_fst_results (p : Prepared) :
    p.results.map Prod.fst = p.sources.flatMap SourceFile.queries := by
  rw [Prepared.results, List.map_flatMap]
  refine List.flatMap_congr fun file _ => ?_
  rw [queryResults, List.map_map]
  exact List.map_id _

theorem countsQueries {paths : List String} (h : Prepares o s w p w₁ paths)
    (written : List WriteResult) : p.CountsQueries (.ofResults p.readings p.results written) where
  found := rfl
  total := by
    have hall := (QueryResult.described_append_failed p.results).length_eq
    have hfailures := congrArg List.length (QueryResult.map_failure p.results)
    rw [map_fst_results, List.length_append, List.length_map] at hall
    rw [List.length_map, List.length_map] at hfailures
    change (p.sources.flatMap SourceFile.queries).length =
      (p.results.filterMap QueryResult.described?).length +
        (p.results.filterMap QueryResult.failure?).length
    rw [hfailures, hall]
  generated := by
    change (p.results.filterMap QueryResult.described?).length = _
    rw [← List.length_map (f := DescribedQuery.record), Prepared.results, List.filterMap_flatMap,
      List.map_flatMap, Prepared.plans, List.flatMap_map]
    exact (List.Perm.flatMap_left p.sources fun file _ =>
      (filePlan_queries p.types file).symm).length_eq
  failures := by
    change (p.results.filterMap QueryResult.failure?).map _ = _
    rw [QueryResult.map_failure, Prepared.results, List.filterMap_flatMap, List.map_flatMap,
      Prepared.plans, List.flatMap_map]
    refine List.flatMap_congr fun file hfile => List.map_congr_left fun q hq => ?_
    have hqueries : q ∈ file.queries :=
      (filePlan_once p.types file).subset (List.mem_append_right _ hq)
    rw [SourceFile.file_of_extract (h.extract_eq hfile) q hqueries]
    rfl
  once := by
    intro plan hplan
    obtain ⟨file, -, rfl⟩ := List.mem_map.1 hplan
    exact filePlan_once p.types file

/-! Files -/

end Generation

/-- The report counts each of the files that were found once, and names what it has changed: the
file itself or its companion. -/
structure Report.CountsFiles (report : Report) (paths : List String) : Prop where
  scanned : report.filesScanned = paths.length
  changed : report.filesChanged = report.changed.length
  total : report.filesScanned =
    report.filesChanged + report.filesUnchanged + report.fileFailures.length
  once : ∃ changed unchanged : List String,
    (changed ++ unchanged ++ report.fileFailures.map FileFailure.file).Perm paths ∧
    List.Forall₂ (fun path target => target = path ∨ Companion.path? path = some target)
      changed report.changed ∧ unchanged.length = report.filesUnchanged

theorem ReadResult.source_append_failure {readings : List ReadResult}
    (h : ∀ r ∈ readings, ∀ file, r.source? = some file → file.path = r.1) :
    ((readings.filterMap source?).map SourceFile.path ++
      (readings.filterMap failure?).map FileFailure.file).Perm (readings.map Prod.fst) := by
  induction readings with
  | nil => rfl
  | cons r readings ih =>
    obtain ⟨hr, hrest⟩ := List.forall_mem_cons.1 h
    obtain ⟨path, e | file⟩ := r
    · exact List.perm_middle.trans ((ih hrest).cons path)
    · obtain rfl := hr file rfl
      exact (ih hrest).cons file.path

namespace WriteResult

def isChanged (r : WriteResult) : Bool := r.changed?.isSome

theorem changed_append_unchanged_append_failure (written : List WriteResult) :
    ((written.filter isChanged).map Prod.fst ++ (written.filter isUnchanged).map Prod.fst ++
      (written.filterMap failure?).map FileFailure.file).Perm (written.map Prod.fst) := by
  induction written with
  | nil => rfl
  | cons r written ih =>
    obtain ⟨path, e | _ | ⟨target, _ | _⟩⟩ := r
    · exact List.perm_middle.trans (ih.cons path)
    · exact (List.perm_middle.append_right _).trans (ih.cons path)
    · exact ih.cons path
    · exact (List.perm_middle.append_right _).trans (ih.cons path)

theorem forall₂_changed {R : String → String → Prop} {written : List WriteResult}
    (h : ∀ r ∈ written, ∀ target, r.changed? = some target → R r.1 target) :
    List.Forall₂ R ((written.filter isChanged).map Prod.fst) (written.filterMap changed?) := by
  induction written with
  | nil => exact .nil
  | cons r written ih =>
    obtain ⟨hr, hrest⟩ := List.forall_mem_cons.1 h
    cases hchanged : r.changed? with
    | none =>
      rw [List.filter_cons_of_neg (by simp [isChanged, hchanged]),
        List.filterMap_cons_none hchanged]
      exact ih hrest
    | some target =>
      rw [List.filter_cons_of_pos (by simp [isChanged, hchanged]),
        List.filterMap_cons_some hchanged]
      exact .cons (hr target hchanged) (ih hrest)

end WriteResult

namespace FilePlan

inductive IsWrite (defaultType : String) (p : FilePlan) : FileWrite → Prop where
  | inline (hinline : p.file.isSqlFile = false) :
      IsWrite defaultType p ⟨p.file.path, some p.file.content, p.rewritten defaultType⟩
  | companion (hsql : p.file.isSqlFile = true) {d : Declaration} {path : String}
      (hd : p.declarations.head? = some d) (hpath : Companion.path? p.file.path = some path)
      (expected : Option String) :
      IsWrite defaultType p ⟨path, expected, Companion.render d p.file.path defaultType⟩

variable {defaultType : String} {p : FilePlan} {t : FileTree} {w : FileWrite}

theorem isWrite_of_plan
    (h : FileWrite.plan t p.file p.declarations p.failed defaultType = .ok (some w)) :
    p.IsWrite defaultType w := by
  cases hsql : p.file.isSqlFile with
  | false =>
    rw [plan_inline hsql] at h
    rw [of_inlineWrite? (Except.ok.inj h)]
    exact .inline hsql
  | true =>
    rw [FileWrite.plan, hsql] at h
    simp only [if_true] at h
    split at h
    · rename_i d path hd hpath
      cases hread : t.readIfExists path with
      | error e =>
        rw [hread] at h
        cases h
      | ok expected =>
        rw [hread] at h
        obtain rfl := Option.some.inj (Except.ok.inj h)
        exact .companion hsql hd hpath expected
    · cases Except.ok.inj h

theorem IsWrite.path (h : p.IsWrite defaultType w) :
    w.path = p.file.path ∨ Companion.path? p.file.path = some w.path := by
  cases h with
  | inline => exact .inl rfl
  | companion hsql hd hpath => exact .inr hpath

end FilePlan

namespace WriteJob
open FileTree

variable {faults : Faults} {defaultType : String} {p : FilePlan} {job : WriteJob}

inductive Follows (defaultType : String) (p : FilePlan) : WriteJob → Prop where
  | waiting : Follows defaultType p (waiting p)
  | planned (w : Option FileWrite) (hw : ∀ w', w = some w' → p.IsWrite defaultType w') :
      Follows defaultType p (planned p.file.path w)
  | done (result : Except WriteError (Option (String × WriteOutcome)))
      (hresult : ∀ path outcome, result = .ok (some (path, outcome)) →
        path = p.file.path ∨ Companion.path? p.file.path = some path) :
      Follows defaultType p (done (p.file.path, result))

theorem Follows.step (h : Follows defaultType p job) (t : FileTree) :
    Follows defaultType p (step faults defaultType job t).1 := by
  cases h with
  | waiting =>
    rw [step_waiting]
    cases hplan : FileWrite.plan t p.file p.declarations p.failed defaultType with
    | error e => exact .done _ nofun
    | ok w => exact .planned w fun w' hw' => FilePlan.isWrite_of_plan (hw' ▸ hplan)
  | planned w hw =>
    cases w with
    | none => exact .done _ nofun
    | some w =>
      rw [step_planned]
      refine .done _ fun path outcome hresult => ?_
      cases hrun : ((FileWrite.perform (faults w.path) w).run t).1 with
      | error e =>
        rw [hrun] at hresult
        exact nomatch hresult
      | ok outcome' =>
        rw [hrun] at hresult
        rw [← (Prod.mk.inj (Option.some.inj (Except.ok.inj hresult))).1]
        exact (hw w rfl).path
  | done result hresult => exact .done result hresult

theorem Follows.of_planned {path : String} {w : FileWrite}
    (h : Follows defaultType p (.planned path (some w))) :
    path = p.file.path ∧ p.IsWrite defaultType w := by
  cases h with
  | planned _ hw => exact ⟨rfl, hw w rfl⟩

/-- A step only adds, or it puts the text of a write in place and the job is done with it. The path
of the write leads to the text if there has been no link in its place. -/
theorem step_cases (faults : Faults) (defaultType : String) (job : WriteJob) (t : FileTree) :
    let next := step faults defaultType job t
    Extends t next.2 ∨ ∃ path w l, job = .planned path (some w) ∧
      next.1 = .done (path, .ok (some (w.path, .written))) ∧
      FileWrite.current (faults w.path) w t = .ok w.expected ∧ Overwrites t next.2 l w.content ∧
      ((∃ e, t.lookup w.path = .ok (l, e)) ∨ ∃ t', Extends t t' ∧ t'.place w.path = .ok l) ∧
      ((∀ target, t.get? l ≠ some (.link target)) →
        ∃ m, next.2.lookup w.path = .ok (l, .file (.text w.content) m)) := by
  by_cases hwrites : ∃ path w, job = .planned path (some w)
  · obtain ⟨path, w, rfl⟩ := hwrites
    rw [step_planned]
    have hperforms := FileWrite.performs (faults w.path) w t
    generalize (FileWrite.perform (faults w.path) w).run t = r at hperforms
    cases hperforms with
    | settled h => exact .inl (.refl t)
    | failed h hconflict hadds => exact .inl hadds.toExtends
    | written h hfound hadds hmode hinstalled =>
      obtain ⟨l, hplace, hdirectory, hsame⟩ := hinstalled
      refine .inr ⟨path, w, l, rfl, rfl, (FileWrite.settled?_eq_none.1 h).1,
        hadds.toExtends.overwrites (overwrites_of_set hdirectory hsame), ?_, fun hlink => ?_⟩
      · rcases FileWrite.Target.place_cases hfound hplace with hthere | ⟨-, hplace⟩
        · exact .inl hthere
        · exact .inr ⟨_, hadds.toExtends, hplace⟩
      · have hresolve := FileWrite.resolve_target hadds hfound hplace hlink
        exact ⟨_, lookup_of_set hresolve hdirectory (hadds.ne_link hlink) hsame⟩
  · left
    rw [step_tree fun path w h => hwrites ⟨path, w, h⟩]
    exact .refl t

theorem step_keeps (faults : Faults) (defaultType : String) (job : WriteJob) (t : FileTree) :
    Keeps t (step faults defaultType job t).2 := by
  rcases step_cases faults defaultType job t with hextends | ⟨_, _, _, -, -, -, hoverwrites, -⟩
  · exact hextends.keeps
  · exact hoverwrites.keeps

end WriteJob

namespace Generation
open FileTree

variable {o : Options} {s : Surroundings} {w w₁ : World} {p : Prepared} {report : Report}
  {paths : List String}

theorem follows_of_getElem? {t : FileTree} {events : List Work.Event} {n : Nat} {job : WriteJob}
    (h : (writingAfter o s p t events).1[n]? = some job) :
    ∃ plan, p.plans[n]? = some plan ∧ job.Follows o.defaultType plan := by
  refine Work.job_invariant (P := fun n job => ∃ plan : FilePlan, p.plans[n]? = some plan ∧
    job.Follows o.defaultType plan) (fun n job hjob => ?_) (fun n job t hjob => ?_) n job h
  · rw [List.getElem?_map, Option.map_eq_some_iff] at hjob
    obtain ⟨plan, hplan, rfl⟩ := hjob
    exact ⟨plan, hplan, .waiting⟩
  · obtain ⟨plan, hplan, hfollows⟩ := hjob
    exact ⟨plan, hplan, hfollows.step t⟩

theorem exists_results (hreport : ((write o s p).run w₁).1 = .ok report) :
    ∃ written : List WriteResult, report = .ofResults p.readings p.results written ∧
      (writingAfter o s p w₁.tree (s.writingSteps p.plans.length)).1 = written.map .done ∧
      written.map Prod.fst = p.sources.map SourceFile.path := by
  obtain ⟨written, hjobs, hpaths⟩ := exists_written o s p w₁.tree
  refine ⟨written, ?_, hjobs, ?_⟩
  · rw [of_write hreport, hjobs, List.filterMap_map]
    exact congrArg _ List.filterMap_some
  · rw [hpaths, Prepared.plans, List.map_map]
    rfl

theorem countsFiles (h : Prepares o s w p w₁ paths)
    (hreport : ((write o s p).run w₁).1 = .ok report) : report.CountsFiles paths := by
  obtain ⟨written, rfl, hjobs, hpaths⟩ := exists_results hreport
  have hscanned : p.readings.length = paths.length := by
    rw [← h.map_fst, List.length_map]
  have honce : ((written.filter WriteResult.isChanged).map Prod.fst ++
      (written.filter WriteResult.isUnchanged).map Prod.fst ++
      (p.readings.filterMap ReadResult.failure? ++ written.filterMap WriteResult.failure?).map
        FileFailure.file).Perm paths := by
    have hread := ReadResult.source_append_failure fun r hr file => h.path_eq hr
    have hwritten := WriteResult.changed_append_unchanged_append_failure written
    rw [h.map_fst, ← Prepared.sources] at hread
    rw [hpaths] at hwritten
    rw [List.map_append]
    refine (List.Perm.append_left _ List.perm_append_comm).trans ?_
    rw [← List.append_assoc]
    exact (hwritten.append_right _).trans hread
  have htargets : ∀ r ∈ written, ∀ target, r.changed? = some target →
      target = r.1 ∨ Companion.path? r.1 = some target := by
    intro r hr target htarget
    obtain ⟨path, result⟩ := r
    obtain ⟨outcome, rfl⟩ := of_changed? htarget
    obtain ⟨n, hn⟩ := List.getElem?_of_mem hr
    have hjob := congrArg (·[n]?) hjobs
    rw [List.getElem?_map, hn] at hjob
    obtain ⟨plan, -, hfollows⟩ := follows_of_getElem? hjob
    cases hfollows with
    | done result hresult => exact hresult target outcome rfl
  have hchanged : List.Forall₂ (fun path target => target = path ∨ Companion.path? path = some target)
      ((written.filter WriteResult.isChanged).map Prod.fst)
      (written.filterMap WriteResult.changed?) := WriteResult.forall₂_changed htargets
  refine ⟨hscanned, rfl, ?_, _, _, honce, hchanged, List.length_map _⟩
  have hlength := honce.length_eq
  rw [List.length_append, List.length_append, List.length_map, List.length_map, List.length_map,
    ← hscanned] at hlength
  have hchanged := hchanged.length_eq
  rw [List.length_map] at hchanged
  change p.readings.length = (written.filterMap WriteResult.changed?).length +
    (written.filter WriteResult.isUnchanged).length + _
  rw [← hlength, hchanged]
  rfl

/-! A file that has failed -/

theorem noNewLinks (h : Prepares o s w p w₁ paths) (before : List Work.Event) :
    NoNewLinks w.tree (writingAfter o s p w₁.tree before).2 := by
  have hread : NoNewLinks w.tree w₁.tree := by
    rw [h.tree]
    refine Work.run_invariant (I := fun _ t => NoNewLinks w.tree t) (.refl _)
      (fun e _ _ t ht => ht.trans (noNewLinks_apply t e)) fun jobs t n job ht _ => ?_
    rwa [ReadJob.step_tree]
  exact Work.run_invariant (I := fun _ t => NoNewLinks w.tree t) hread
    (fun e _ _ t ht => ht.trans (noNewLinks_apply t e))
    fun jobs t n job ht _ => ht.trans (WriteJob.step_keeps ..).toNoNewLinks

/-- The path of a companion that the report names as changed leads to a location, and the text of
the companion is there. -/
def HoldsCompanion (o : Options) (p : Prepared) (report : Report) (t : FileTree) (l : Location) :
    Prop :=
  ∃ plan ∈ p.plans, plan.file.isSqlFile = true ∧ ∃ d path m, plan.declarations.head? = some d ∧
    Companion.path? plan.file.path = some path ∧ path ∈ report.changed ∧
    t.lookup path = .ok (l, .file (.text (Companion.render d plan.file.path o.defaultType)) m)

/-- A location has what a step of the writing, which began with `t₀`, has put there as a
companion. -/
def KeepsCompanion (o : Options) (s : Surroundings) (p : Prepared) (report : Report)
    (t₀ t : FileTree) (l : Location) : Prop :=
  ∃ before n after, s.writingSteps p.plans.length = before ++ .step n :: after ∧
    HoldsCompanion o p report (writingAfter o s p t₀ (before ++ [.step n])).2 l ∧
    t.get? l = (writingAfter o s p t₀ (before ++ [.step n])).2.get? l

theorem mem_changed (hreport : ((write o s p).run w₁).1 = .ok report) {n : Nat} {path target : String}
    (hdone : (writingAfter o s p w₁.tree (s.writingSteps p.plans.length)).1[n]? =
      some (.done (path, .ok (some (target, .written))))) : target ∈ report.changed := by
  obtain ⟨results, rfl, hjobs, -⟩ := exists_results hreport
  rw [hjobs, List.getElem?_map, Option.map_eq_some_iff] at hdone
  obtain ⟨r, hr, hdone⟩ := hdone
  obtain rfl := WriteJob.done.inj hdone
  exact List.mem_filterMap.2 ⟨_, List.mem_of_getElem? hr, rfl⟩

theorem Prepares.path_mem (h : Prepares o s w p w₁ paths) {file : SourceFile}
    (hfile : file ∈ p.sources) : file.path ∈ paths := by
  rw [← h.map_fst]
  exact List.mem_map_of_mem (exists_source h hfile).1

section Failed

variable {failure : FileFailure} (h : Prepares o s w p w₁ paths)
  (hreport : ((write o s p).run w₁).1 = .ok report) (hfailure : failure ∈ report.fileFailures)

include h hreport hfailure

theorem mem_paths : failure.file ∈ paths := by
  obtain ⟨changed, unchanged, honce, -⟩ := (countsFiles h hreport).once
  exact honce.subset (List.mem_append_right _ (List.mem_map_of_mem hfailure))

theorem ends_failed (hnodup : paths.Nodup) {n : Nat} {plan : FilePlan}
    (hplan : p.plans[n]? = some plan) (hpath : plan.file.path = failure.file)
    {written : String × WriteOutcome} :
    (writingAfter o s p w₁.tree (s.writingSteps p.plans.length)).1[n]? ≠
      some (.done (plan.file.path, .ok (some written))) := by
  intro hdone
  obtain ⟨results, rfl, hjobs, hpaths⟩ := exists_results hreport
  have hsource := (Prepared.of_mem_plans (List.mem_of_getElem? hplan)).1
  rcases List.mem_append.1 hfailure with hread | hwritten
  · obtain ⟨⟨path, result⟩, hr, hfailed⟩ := List.mem_filterMap.1 hread
    cases result with
    | ok file => cases hfailed
    | error e =>
      obtain rfl := Option.some.inj hfailed
      have hsame := List.inj_on_of_nodup_map (h.map_fst ▸ hnodup) hr (exists_source h hsource).1
        hpath.symm
      cases (Prod.mk.inj hsame).2
  · obtain ⟨⟨path, result⟩, hr, hfailed⟩ := List.mem_filterMap.1 hwritten
    cases result with
    | ok outcome => cases hfailed
    | error e =>
      obtain rfl := Option.some.inj hfailed
      have hresults : (results.map Prod.fst).Nodup := by
        rw [hpaths]
        have hplans := plans_nodup h hnodup
        rwa [Prepared.plans, List.map_map] at hplans
      rw [hjobs, List.getElem?_map, Option.map_eq_some_iff] at hdone
      obtain ⟨r, hn, hr'⟩ := hdone
      obtain rfl := WriteJob.done.inj hr'
      have hsame := List.inj_on_of_nodup_map hresults hr (List.mem_of_getElem? hn) hpath.symm
      cases (Prod.mk.inj hsame).2

theorem step_spares_failed (hnamed : w.tree.WellNamed) {before after : List Work.Event} {n : Nat}
    (hsteps : s.writingSteps p.plans.length = before ++ .step n :: after)
    (hroot : Discovery.RootStays w.tree (writingAfter o s p w₁.tree before).2 o.rootDirectory)
    {l : Location} {c : Content} {m : Nat} {e : Entry}
    (hlookup : w.tree.lookup failure.file = .ok (l, .file c m))
    (hl : (writingAfter o s p w₁.tree before).2.get? l = some e) :
    let t' := (writingAfter o s p w₁.tree (before ++ [.step n])).2
    t'.get? l = some e ∨ HoldsCompanion o p report t' l := by
  intro t'
  obtain ⟨wanted, only, hpaths⟩ := h.discovered
  have hnodup : paths.Nodup := hpaths ▸ Discovery.nodup_discover hnamed _ wanted only
  cases hjob : (writingAfter o s p w₁.tree before).1[n]? with
  | none =>
    left
    have hrun : t' = (writingAfter o s p w₁.tree before).2 := by
      change (writingAfter o s p w₁.tree (before ++ [.step n])).2 = _
      rw [writingAfter, Work.run_append, ← writingAfter, Work.run_step_none hjob]
    rwa [hrun]
  | some job =>
    obtain ⟨plan, hplan, hfollows⟩ := follows_of_getElem? hjob
    have hnext := writingAfter_step hjob
    have htree : t' = (WriteJob.step s.faults o.defaultType job
      (writingAfter o s p w₁.tree before).2).2 := congrArg Prod.snd hnext
    rw [htree]
    rcases WriteJob.step_cases s.faults o.defaultType job (writingAfter o s p w₁.tree before).2 with
      hextends | ⟨path, new, l', rfl, hdone, hcurrent, hoverwrites, hplace, hleads⟩
    · exact .inl (hextends.entry l e hl)
    obtain ⟨rfl, hwrite⟩ := hfollows.of_planned
    by_cases hl' : l = l'
    · subst hl'
      have hlast : (writingAfter o s p w₁.tree (s.writingSteps p.plans.length)).1[n]? =
          some (.done (plan.file.path, .ok (some (new.path, .written)))) := by
        rw [hsteps, List.append_cons]
        refine writingAfter_done ?_ after
        rw [hnext, hdone]
        exact List.getElem?_set_self (List.getElem?_eq_some_iff.1 hjob).1
      cases hwrite with
      | companion hsql hd hpath expected =>
        have hlink : ∀ target, (writingAfter o s p w₁.tree before).2.get? l ≠
            some (.link target) := fun target htarget => by
          have hfile := (noNewLinks h before).link l target htarget
          rw [get?_of_lookup hlookup] at hfile
          cases hfile
        obtain ⟨m', hleads⟩ := hleads hlink
        exact .inr ⟨plan, List.mem_of_getElem? hplan, hsql, _, _, m', hd, hpath,
          mem_changed hreport hlast, hleads⟩
      | inline hinline =>
        -- The write has found its text, so its path leads to a file: to another one than this.
        have hne : failure.file ≠ plan.file.path := fun hpath =>
          ends_failed h hreport hfailure hnodup hplan hpath.symm hlast
        obtain ⟨l', m, hfound⟩ := exists_of_read (FileWrite.read_of_current hcurrent)
        obtain ⟨hother, hplaced⟩ := Discovery.lookup_ne hnamed (hpaths ▸ mem_paths h hreport hfailure)
          (hpaths ▸ h.path_mem (Prepared.of_mem_plans (List.mem_of_getElem? hplan)).1) hne
          (noNewLinks h before) hroot hlookup hfound
        rcases hplace with ⟨e', hthere⟩ | ⟨t'', hextends, hthere⟩
        · exact absurd (Prod.mk.inj (Except.ok.inj (hfound.symm.trans hthere))).1 hother
        · exact absurd rfl (hplaced t'' l hextends hthere)
    · exact .inl (hoverwrites.other l e hl' hl)

end Failed

/-! Runs that nothing interferes with -/

def Undisturbed (s : Surroundings) : Prop :=
  ∀ n e, .edit e ∉ s.reading n ∧ .edit e ∉ s.writing n

theorem Undisturbed.not_mem_readingSteps (hquiet : Undisturbed s) (n : Nat) (e : Edit) :
    .edit e ∉ s.readingSteps n := by
  rw [Surroundings.readingSteps, List.mem_append, not_or]
  exact ⟨(hquiet n e).1, Work.edit_not_mem_inOrder 1 n e⟩

theorem Undisturbed.not_mem_writingSteps (hquiet : Undisturbed s) (n : Nat) (e : Edit) :
    .edit e ∉ s.writingSteps n := by
  rw [Surroundings.writingSteps, List.mem_append, not_or]
  exact ⟨(hquiet n e).2, Work.edit_not_mem_inOrder 2 n e⟩

theorem Undisturbed.tree_eq (hquiet : Undisturbed s) (h : Prepares o s w p w₁ paths) :
    w₁.tree = w.tree := by
  rw [h.tree]
  refine Work.run_invariant (I := fun _ t => t = w.tree) rfl (fun e he => ?_)
    fun jobs t n job ht _ => by rw [ReadJob.step_tree, ht]
  exact absurd he (hquiet.not_mem_readingSteps _ e)

theorem Undisturbed.keeps (hquiet : Undisturbed s) (h : Prepares o s w p w₁ paths)
    {before after : List Work.Event} (hsteps : s.writingSteps p.plans.length = before ++ after) :
    Keeps w.tree (writingAfter o s p w₁.tree before).2 := by
  refine Work.run_invariant (I := fun _ t => Keeps w.tree t) ?_ (fun e he => ?_)
    fun jobs t n job ht _ => ht.trans (WriteJob.step_keeps ..)
  · rw [hquiet.tree_eq h]
    exact (Extends.refl _).keeps
  · exact absurd (hsteps ▸ List.mem_append_left after he) (hquiet.not_mem_writingSteps _ e)

theorem Undisturbed.rootStays (hquiet : Undisturbed s) (h : Prepares o s w p w₁ paths)
    {before after : List Work.Event} (hsteps : s.writingSteps p.plans.length = before ++ after) :
    Discovery.RootStays w.tree (writingAfter o s p w₁.tree before).2 o.rootDirectory :=
  fun _ _ _ _ hlookup hlookup' => (hquiet.keeps h hsteps).lookup_directory hlookup hlookup'

theorem Undisturbed.spares_failed (hquiet : Undisturbed s) (hnamed : w.tree.WellNamed)
    (h : Prepares o s w p w₁ paths) (hreport : ((write o s p).run w₁).1 = .ok report)
    {failure : FileFailure} (hfailure : failure ∈ report.fileFailures) {l : Location} {c : Content}
    {m : Nat} (hlookup : w.tree.lookup failure.file = .ok (l, .file c m))
    {before after : List Work.Event}
    (hsteps : s.writingSteps p.plans.length = before ++ after) :
    let t := (writingAfter o s p w₁.tree before).2
    t.get? l = some (.file c m) ∨ KeepsCompanion o s p report w₁.tree t l := by
  induction before using List.reverseRecOn generalizing after with
  | nil =>
    left
    rw [writingAfter, Work.run, hquiet.tree_eq h, get?_of_lookup hlookup]
  | append_singleton before event ih =>
    rw [List.append_assoc, List.singleton_append] at hsteps
    cases event with
    | edit e =>
      refine absurd ?_ (hquiet.not_mem_writingSteps p.plans.length e)
      rw [hsteps]
      simp
    | step n =>
      have hstep {e : Entry} := step_spares_failed (e := e) h hreport hfailure hnamed hsteps
        (hquiet.rootStays h hsteps) hlookup
      rcases ih hsteps with hl | ⟨before', n', after', hsteps', hcompanion, hl⟩
      · exact (hstep hl).imp_right fun hnew => ⟨before, n, after, hsteps, hnew, rfl⟩
      · have hentry := hcompanion
        obtain ⟨_, -, -, _, _, _, -, -, -, hleads⟩ := hentry
        rw [get?_of_lookup hleads] at hl
        rcases hstep hl with hl' | hnew
        · exact .inr ⟨before', n', after', hsteps', hcompanion,
            hl'.trans (get?_of_lookup hleads).symm⟩
        · exact .inr ⟨before, n, after, hsteps, hnew, rfl⟩

/-! The report -/

theorem write_tree (o : Options) (s : Surroundings) (p : Prepared) (w₁ : World) :
    ((write o s p).run w₁).2.tree =
      (writingAfter o s p w₁.tree (s.writingSteps p.plans.length)).2 := by
  have hlater : ∀ written : List WriteResult, KeepsTree (do
      reportUnwritten written
      checkClean o .after
      return Report.ofResults p.readings p.results written) := fun written =>
    .bind (fun _ => rfl) fun _ => (checkClean_keepsTree o .after).bind fun _ => .pure _
  rw [write, run_bind, run_writeAll]
  exact hlater _ _

theorem of_run_ok (h : (run o s w).result = .ok report) : ∃ p w₁,
    (prepare o s).run w = (.ok p, w₁) ∧ ((write o s p).run w₁).1 = .ok report ∧
      (run o s w).world.tree = (writingAfter o s p w₁.tree (s.writingSteps p.plans.length)).2 := by
  have hgenerate : (generate o s).run w = (.ok report, (run o s w).world) := Prod.ext h rfl
  obtain ⟨p, w₁, hprepared, hwrite⟩ := of_run_bind hgenerate
  refine ⟨p, w₁, hprepared, by rw [hwrite], ?_⟩
  rw [← write_tree, hwrite]

/-- What a report accounts for. Each file that was found is counted once, and each query of the
files that could be read. A file that has failed stays as it was through each step, whatever other
programs change in between while the root leads where it led, unless a companion of a `.sql` file
that the run has written is in its place. -/
theorem report_accounts (hnamed : w.tree.WellNamed) (hreport : (run o s w).result = .ok report) :
    ∃ paths p w₁, ((findFiles o).run w).1 = .ok paths ∧ paths.Nodup ∧
      (prepare o s).run w = (.ok p, w₁) ∧ p.readings.map Prod.fst = paths ∧
      report.CountsFiles paths ∧ p.CountsQueries report ∧
      ∀ failure ∈ report.fileFailures, failure.file ∈ paths ∧
        ∃ l c m, w.tree.lookup failure.file = .ok (l, .file c m) ∧
        (∀ before n after, s.writingSteps p.plans.length = before ++ .step n :: after →
          let t := (writingAfter o s p w₁.tree before).2
          let t' := (writingAfter o s p w₁.tree (before ++ [.step n])).2
          Discovery.RootStays w.tree t o.rootDirectory → ∀ e, t.get? l = some e →
            t'.get? l = some e ∨ HoldsCompanion o p report t' l) ∧
        (Undisturbed s → let t := (run o s w).world.tree
          t.get? l = some (.file c m) ∨ KeepsCompanion o s p report w₁.tree t l) := by
  obtain ⟨p, w₁, hprepared, hwrite, htree⟩ := of_run_ok hreport
  obtain ⟨paths, hfound, h⟩ := exists_prepares hprepared
  obtain ⟨wanted, only, hpaths⟩ := h.discovered
  refine ⟨paths, p, w₁, hfound, ?_, hprepared, h.map_fst, countsFiles h hwrite, ?_,
    fun failure hfailure => ⟨mem_paths h hwrite hfailure, ?_⟩⟩
  · rw [hpaths]
    exact Discovery.nodup_discover hnamed _ wanted only
  · obtain ⟨written, rfl, -⟩ := exists_results hwrite
    exact countsQueries h written
  · obtain ⟨l, c, m, hlookup⟩ := Discovery.hasFile_of_mem_discover hnamed
      (hpaths ▸ mem_paths h hwrite hfailure)
    refine ⟨l, c, m, hlookup, fun before n after hsteps => ?_, fun hquiet => ?_⟩
    · intro t t' hroot e hl
      exact step_spares_failed h hwrite hfailure hnamed hsteps hroot hlookup hl
    · rw [htree]
      exact hquiet.spares_failed hnamed h hwrite hfailure hlookup (List.append_nil _).symm

/-! A companion that does not scan, beside its file -/

theorem prepare_of_findFiles {w₀ : World} (h : (findFiles o).run w = (.ok paths, w₀)) :
    (prepare o s).run w = (do
      let readings ← readAll s paths
      warnOfSkipped readings
      describeFiles o s readings : Action Prepared).run w₀ := by
  simp only [prepare, readFiles, bind_assoc, pure_bind]
  rw [run_bind, h]

theorem run_of_findFiles {w₀ : World} (h : (findFiles o).run w = (.ok paths, w₀)) :
    (generate o s).run w = (do
      let readings ← readAll s paths
      warnOfSkipped readings
      let p ← describeFiles o s readings
      write o s p : Action Report).run w₀ := by
  simp only [generate, prepare, readFiles, bind_assoc, pure_bind]
  rw [run_bind, h]

def refusingServer : Server :=
  { plainServer with
    prepare := fun sql => if sql = "bad" then .refused ⟨"no", "42601", none⟩ else .given ⟨[], []⟩ }

def brokenCompanion : World where
  tree := ⟨[([], .directory 0), (["__sql__"], .directory 0),
    (["__sql__", "a.sql.ts"], .file (.text "\x60") 0), (["a.sql"], .file (.text "select 1") 0),
    (["b"], .file (.text "sql\x60a\x60 sql\x60bad\x60") 0)], [], 0⟩
  git := []
  diagnostics := ⟨[], []⟩

def everything : FileFilter := (FileFilter.ofPatterns ["*"] []).toOption.getD ⟨[], [], []⟩

theorem discover_brokenCompanion : Discovery.discover brokenCompanion.tree "." everything none =
    ["./__sql__/a.sql.ts", "./a.sql", "./b"] := by
  have hroot : brokenCompanion.tree.lookup "." = .ok ([], .directory 0) := by decide +kernel
  have hdepth : brokenCompanion.tree.depth = 2 := by decide +kernel
  have hnames : brokenCompanion.tree.names [] = ["__sql__", "a.sql", "b"] :=
    Discovery.names_of_pairwise (by decide +kernel) (by decide +kernel) (by decide +kernel)
  have hfiles : Discovery.relativeFiles brokenCompanion.tree "." everything =
      [["__sql__", "a.sql.ts"], ["a.sql"], ["b"]] := by
    rw [Discovery.relativeFiles, hroot, if_neg (by decide +kernel)]
    simp only [hdepth]
    rw [Discovery.files_succ, hnames]
    decide +kernel
  rw [Discovery.discover_eq, hfiles]
  decide +kernel

theorem findFiles_everything {w : World} {paths : List String}
    (h : Discovery.discover w.tree "." everything none = paths) :
    (findFiles (plainOptions ["*"])).run w = (.ok paths, w) := by
  have hclean : (checkClean (plainOptions ["*"]) .before).run w = (.ok (), w) := rfl
  have hpatterns :
      FileFilter.ofPatterns (plainOptions ["*"]).included (plainOptions ["*"]).excluded =
        .ok everything := by decide +kernel
  have hfilter : (filter (plainOptions ["*"])).run w = (.ok everything, w) := by
    rw [filter, hpatterns]
    rfl
  simp only [findFiles, run_bind, hclean, hfilter]
  rw [← h]
  rfl

theorem findFiles_brokenCompanion : (findFiles (plainOptions ["*"])).run brokenCompanion =
    (.ok ["./__sql__/a.sql.ts", "./a.sql", "./b"], brokenCompanion) :=
  findFiles_everything discover_brokenCompanion

-- both parts in one statement, so that the run is computed once
theorem brokenCompanion_run :
    (run (plainOptions ["*"]) (.quiet refusingServer false) brokenCompanion).result =
      .ok ⟨3, 2, 0, 3, 2, ["./__sql__/a.sql.ts", "./b"], [⟨"./b", 1, "bad", "no (42601)"⟩],
        [⟨"./__sql__/a.sql.ts", "Unterminated template literal starting on line 1"⟩]⟩ ∧
    (run (plainOptions ["*"]) (.quiet refusingServer false) brokenCompanion).world.tree.get?
      ["__sql__", "a.sql.ts"] ≠ some (.file (.text "\x60") 0) := by
  rw [run, run_of_findFiles findFiles_brokenCompanion]
  decide +kernel

/-- The companion that does not scan is reported as failed, and has the new text. -/
theorem report_of_brokenCompanion :
    brokenCompanion.tree.WellNamed ∧ Undisturbed (.quiet refusingServer false) ∧
    ∃ report p t, (run (plainOptions ["*"]) (.quiet refusingServer false) brokenCompanion).result =
        .ok report ∧ report.CountsFiles ["./__sql__/a.sql.ts", "./a.sql", "./b"] ∧
      p.CountsQueries report ∧ report.queriesFound = 3 ∧ report.queryFailures.length = 1 ∧
      KeepsCompanion (plainOptions ["*"]) (.quiet refusingServer false) p report t
        (run (plainOptions ["*"]) (.quiet refusingServer false) brokenCompanion).world.tree
        ["__sql__", "a.sql.ts"] := by
  have hnamed : brokenCompanion.tree.WellNamed := by decide +kernel
  have hquiet : Undisturbed (.quiet refusingServer false) := fun _ _ => ⟨nofun, nofun⟩
  obtain ⟨paths, p, w₁, hfound, -, -, -, hfiles, hqueries, hfailed⟩ :=
    report_accounts hnamed brokenCompanion_run.1
  rw [findFiles_brokenCompanion] at hfound
  obtain rfl := Except.ok.inj hfound
  refine ⟨hnamed, hquiet, _, p, w₁.tree, brokenCompanion_run.1, hfiles, hqueries, rfl, rfl, ?_⟩
  obtain ⟨-, l, c, m, hlookup, -, hleft⟩ := hfailed _ List.mem_cons_self
  have hthere : brokenCompanion.tree.lookup "./__sql__/a.sql.ts" =
      .ok (["__sql__", "a.sql.ts"], .file (.text "\x60") 0) := by decide +kernel
  obtain ⟨rfl, hentry⟩ := Prod.mk.inj (Except.ok.inj (hthere.symm.trans hlookup))
  exact (hleft hquiet).resolve_left (hentry ▸ brokenCompanion_run.2)

/-- A file that has failed may get another text although only the run itself writes. -/
theorem failed_file_changes :
    Undisturbed (.quiet refusingServer false) ∧
    (∃ report, (run (plainOptions ["*"]) (.quiet refusingServer false) brokenCompanion).result =
      .ok report ∧ "./__sql__/a.sql.ts" ∈ report.fileFailures.map FileFailure.file) ∧
    brokenCompanion.tree.get? ["__sql__", "a.sql.ts"] = some (.file (.text "\x60") 0) ∧
    (run (plainOptions ["*"]) (.quiet refusingServer false) brokenCompanion).world.tree.get?
      ["__sql__", "a.sql.ts"] ≠ some (.file (.text "\x60") 0) :=
  ⟨fun _ _ => ⟨nofun, nofun⟩, ⟨_, brokenCompanion_run.1, by decide⟩, by decide +kernel,
    brokenCompanion_run.2⟩

end Generation
end RowTypes
