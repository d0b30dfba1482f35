import RowTypes.Proofs.Alone
import RowTypes.Proofs.Running

/-! Runs that differ in the order of their steps. Files may be read and written, and texts
described, in any order and so many at a time: the result of the run is the same. -/

namespace RowTypes

def Surroundings.reordered (s : Surroundings) (reading writing : Nat → List Work.Event)
    (describing : Nat → List Describing.Event) : Surroundings :=
  { s with reading, writing, describing }

namespace ReadJob

theorem run_eq_map_load {paths : List String} {t : FileTree} {events : List Work.Event}
    (hquiet : ∀ e, .edit e ∉ events) :
    Work.run step (events ++ Work.inOrder 1 paths.length) (paths.map .waiting, t) =
      (paths.map fun path => done (path, SourceFile.load t path), t) := by
  let after := Work.run step (events ++ Work.inOrder 1 paths.length) (paths.map .waiting, t)
  have hstates : after.2 = t ∧ ∀ (n : Nat) job, after.1[n]? = some job → ∃ path,
      paths[n]? = some path ∧
        (job = .waiting path ∨ job = done (path, SourceFile.load t path)) := by
    refine Work.run_invariant (I := fun jobs t' => t' = t ∧ ∀ (n : Nat) job, jobs[n]? = some job →
      ∃ path, paths[n]? = some path ∧
        (job = .waiting path ∨ job = done (path, SourceFile.load t path)))
      ⟨rfl, fun n job hjob => ?_⟩ (fun e he => ?_) fun jobs t' n job h hjob => ?_
    · rw [List.getElem?_map, Option.map_eq_some_iff] at hjob
      obtain ⟨path, hpath, rfl⟩ := hjob
      exact ⟨path, hpath, .inl rfl⟩
    · exact absurd he fun he => (List.mem_append.1 he).elim (hquiet e)
        (Work.edit_not_mem_inOrder 1 _ e)
    · obtain ⟨rfl, hjobs⟩ := h
      refine ⟨step_tree job t', fun m job' hjob' => ?_⟩
      rw [List.getElem?_set] at hjob'
      split at hjob'
      · rename_i hnm
        subst hnm
        split at hjob'
        · obtain rfl := Option.some.inj hjob'
          obtain ⟨path, hpath, rfl | rfl⟩ := hjobs n job hjob
          · exact ⟨path, hpath, .inr rfl⟩
          · exact ⟨path, hpath, .inr rfl⟩
        · exact nomatch hjob'
      · exact hjobs m job' hjob'
  refine Prod.ext (Work.eq_map (by rw [Work.length_run, List.length_map]) fun n job hjob => ?_)
    hstates.1
  obtain ⟨path, hpath, hjobs⟩ := hstates.2 n job hjob
  refine ⟨path, hpath, hjobs.resolve_left ?_⟩
  rintro rfl
  rw [← List.length_map (f := ReadJob.waiting)] at hjob
  have hrank := Work.rank_run_inOrder rank_step (fun job hjob => by
    obtain ⟨path, -, rfl⟩ := List.mem_map.1 hjob
    exact Nat.le_refl 1) (List.mem_of_getElem? hjob)
  exact nomatch hrank

end ReadJob

/-! The look at the working tree -/

namespace Git
open FileTree

variable {t t' : FileTree} {dir : String}

theorem start_grows (hgrows : Grows t t') (hclosed : t.Closed)
    (hthere : t.lookup dir ≠ .error .notFound) : start t' dir = start t dir := by
  rw [start, start]
  cases hlookup : t.lookup dir with
  | error e =>
    have hother : e ≠ .notFound := fun he => hthere (hlookup.trans (congrArg _ he))
    rw [hgrows.lookup_error hclosed hlookup hother]
  | ok found =>
    obtain ⟨l, e⟩ := found
    obtain ⟨e', hlookup', -, hbecomes⟩ := hgrows.lookup hlookup
    rw [hlookup']
    cases e with
    | file c m =>
      obtain ⟨c', m', rfl⟩ := hbecomes.file
      rfl
    | directory m => rw [hbecomes.directory]
    | link target => rw [hbecomes.link]

theorem checkClean_grows (hgrows : Grows t t') (hclosed : t.Closed)
    (hthere : t.lookup dir ≠ .error .notFound) (point : CleanPoint) (g : Git) :
    checkClean t' dir point g = checkClean t dir point g := by
  simp only [checkClean, call, start_grows hgrows hclosed hthere]

end Git

theorem Discovery.discover_missing {t : FileTree} {root : String} {e : FileError}
    (h : t.lookup root = .error e) (wanted : FileFilter) (only : Option (List String)) :
    discover t root wanted only = [] := by
  rcases relativeFiles_cases t root wanted with hnil | ⟨⟨l, c, m, hroot⟩, -⟩ | ⟨home, m, hroot, -⟩
  · rw [discover_eq, hnil]
    rfl
  · exact nomatch h.symm.trans hroot
  · exact nomatch h.symm.trans hroot

namespace Generation
open FileTree

variable {o : Options} {s : Surroundings} {w w₁ : World} {p : Prepared} {paths : List String}

/-! Reading and describing -/

theorem Undisturbed.run_readAll (hquiet : Undisturbed s) (paths : List String) (w : World) :
    (readAll s paths).run w =
      (.ok (paths.map fun path => (path, SourceFile.load w.tree path)), w) := by
  have hrun := @ReadJob.run_eq_map_load paths w.tree _ fun e => (hquiet paths.length e).1
  change ((Except.ok ((Work.run ReadJob.step (s.readingSteps paths.length)
    (paths.map .waiting, w.tree)).1.filterMap ReadJob.result?) : Except RunError _), { w with
      tree := (Work.run ReadJob.step (s.readingSteps paths.length)
        (paths.map .waiting, w.tree)).2 }) = _
  rw [Surroundings.readingSteps, hrun, List.filterMap_map]
  exact congrArg (Prod.mk · w) (congrArg Except.ok (congrFun List.filterMap_eq_map paths))

section Reordered

variable {reading writing : Nat → List Work.Event} {describing : Nat → List Describing.Event}
  (hquiet : Undisturbed s) (hquiet' : Undisturbed (s.reordered reading writing describing))
  (limit : Nat)

include hquiet hquiet'

theorem readFiles_reordered :
    readFiles (o.atOnce limit) (s.reordered reading writing describing) = readFiles o s := by
  have hread : readAll (s.reordered reading writing describing) = readAll s := by
    funext paths w
    exact (hquiet'.run_readAll paths w).trans (hquiet.run_readAll paths w).symm
  rw [readFiles, readFiles, hread]
  rfl

omit hquiet hquiet' in
theorem describe_reordered (texts : List String) :
    describe (o.atOnce limit) (s.reordered reading writing describing) texts =
      describe o s texts := by
  have htypes : ∀ catalog, typesOf (inference o catalog)
      (Describing.run (max 1 limit) (answer s) (describing texts.length) texts) =
      typesOf (inference o catalog) (Describing.run (max 1 o.database.describeConcurrency)
        (answer s) (s.describing texts.length) texts) := fun catalog => by
    funext sql
    rw [typesOf_run, typesOf_run]
  unfold describe
  refine bind_congr fun _ => ?_
  dsimp only [Surroundings.reordered, Options.atOnce]
  split
  · rfl
  · rfl
  · split
    · rfl
    · exact bind_congr fun _ => congrArg pure (htypes _)

theorem prepare_reordered :
    prepare (o.atOnce limit) (s.reordered reading writing describing) = prepare o s := by
  rw [prepare, prepare, readFiles_reordered hquiet hquiet' limit]
  refine bind_congr fun readings => ?_
  have htypes : typesFor (o.atOnce limit) (s.reordered reading writing describing)
      (sqlTexts readings) = typesFor o s (sqlTexts readings) := by
    rw [typesFor, typesFor, describe_reordered limit]
  rw [describeFiles, describeFiles, htypes]

end Reordered

/-! Writing -/

theorem Undisturbed.read_eq (hquiet : Undisturbed s) (h : Prepares o s w p w₁ paths)
    {file : SourceFile} (hfile : file ∈ p.sources) :
    w.tree.read file.path = .ok file.content := by
  obtain ⟨-, before, n, after, hsteps, -, hread⟩ := exists_source h hfile
  have htree : (readingAfter paths w.tree before).2 = w.tree := by
    refine Work.run_invariant (I := fun _ t => t = w.tree) rfl (fun e he => ?_)
      fun jobs t n job ht _ => by rw [ReadJob.step_tree, ht]
    refine absurd ?_ (hquiet.not_mem_readingSteps paths.length e)
    rw [hsteps]
    exact List.mem_append_left _ he
  rwa [htree] at hread

theorem run_write (o : Options) (s : Surroundings) (p : Prepared) (w : World) :
    let after := writingAfter o s p w.tree (s.writingSteps p.plans.length)
    ((write o s p).run w).1 =
      (if o.checksClean .after then
        (Git.checkClean after.2 o.rootDirectory .after w.git).1.mapError RunError.git
      else .ok ()).map fun _ =>
        .ofResults p.readings p.results (after.1.filterMap WriteJob.result?) := by
  intro after
  rw [write, run_bind, run_writeAll]
  simp only [reportUnwritten, error, run_bind, run_modify, checkClean]
  by_cases hchecks : o.checksClean .after = true
  · simp only [hchecks, if_true, run_askGit]
    rcases (Git.checkClean after.2 o.rootDirectory .after w.git).1 with e | _ <;> rfl
  · simp only [hchecks]
    rfl

theorem plans_of_missing (h : Prepares o s w p w₁ paths) {e : FileError}
    (hroot : w.tree.lookup o.rootDirectory = .error e) : p.plans = [] := by
  obtain ⟨wanted, only, hpaths⟩ := h.discovered
  have hreadings : p.readings = [] := by
    rw [← List.map_eq_nil_iff, h.map_fst, hpaths, Discovery.discover_missing hroot]
  rw [Prepared.plans, Prepared.sources, hreadings]
  rfl

section Separate

variable (hquiet : Undisturbed s) (hclosed : w.tree.Closed) (h : Prepares o s w p w₁ paths)
  (hseparate : Separate s.faults (FilePlan.writes o.defaultType w.tree p.plans) w.tree)

include hquiet hclosed h hseparate

theorem Undisturbed.writing_eq :
    (writingAfter o s p w₁.tree (s.writingSteps p.plans.length)).1 =
        p.plans.map (WriteJob.alone s.faults o.defaultType w.tree) ∧
      Grows w.tree (writingAfter o s p w₁.tree (s.writingSteps p.plans.length)).2 := by
  have hread : ∀ plan ∈ p.plans, w.tree.read plan.file.path = .ok plan.file.content :=
    fun plan hplan => hquiet.read_eq h (Prepared.of_mem_plans hplan).1
  rw [hquiet.tree_eq h]
  exact ⟨WriteJob.run_eq_map_alone hclosed hread hseparate fun e => (hquiet p.plans.length e).2,
    (WriteJob.independent_run hclosed hread hseparate
      (hquiet.not_mem_writingSteps p.plans.length)).tree.grows⟩

theorem Undisturbed.checkClean_eq (g : Git) :
    Git.checkClean (writingAfter o s p w₁.tree (s.writingSteps p.plans.length)).2 o.rootDirectory
      .after g = Git.checkClean w.tree o.rootDirectory .after g := by
  by_cases hroot : w.tree.lookup o.rootDirectory = .error .notFound
  · have hplans := plans_of_missing h hroot
    have htree : (writingAfter o s p w₁.tree (s.writingSteps p.plans.length)).2 = w.tree := by
      refine (Work.run_invariant (I := fun jobs t => jobs = [] ∧ t = w.tree)
        ⟨by rw [hplans]; rfl, hquiet.tree_eq h⟩ (fun e he => ?_) ?_).2
      · exact absurd he (hquiet.not_mem_writingSteps _ e)
      · rintro jobs t n job ⟨rfl, -⟩ hjob
        exact nomatch hjob
    rw [htree]
  · exact Git.checkClean_grows (hquiet.writing_eq hclosed h hseparate).2 hclosed hroot .after g

theorem Undisturbed.run_write_eq :
    ((write o s p).run w₁).1 =
      (if o.checksClean .after then
        (Git.checkClean w.tree o.rootDirectory .after w₁.git).1.mapError RunError.git
      else .ok ()).map fun _ => .ofResults p.readings p.results
        ((p.plans.map (WriteJob.alone s.faults o.defaultType w.tree)).filterMap
          WriteJob.result?) := by
  rw [run_write, (hquiet.writing_eq hclosed h hseparate).1,
    hquiet.checkClean_eq hclosed h hseparate]

end Separate

theorem result_reordered (hclosed : w.tree.Closed) (hquiet : Undisturbed s)
    (h : (prepare o s).run w = (.ok p, w₁))
    (hseparate : Separate s.faults (FilePlan.writes o.defaultType w.tree p.plans) w.tree)
    (limit : Nat) {reading writing : Nat → List Work.Event}
    {describing : Nat → List Describing.Event}
    (hquiet' : Undisturbed (s.reordered reading writing describing)) :
    (run (o.atOnce limit) (s.reordered reading writing describing) w).result =
      (run o s w).result := by
  have h' : (prepare (o.atOnce limit) (s.reordered reading writing describing)).run w =
      (.ok p, w₁) := by rw [prepare_reordered hquiet hquiet' limit, h]
  obtain ⟨paths, hprepares⟩ := prepares h
  obtain ⟨paths', hprepares'⟩ := prepares h'
  rw [run_result h', run_result h, hquiet.run_write_eq hclosed hprepares hseparate]
  exact hquiet'.run_write_eq hclosed hprepares' hseparate

/-! The whole run -/

theorem eq_inlineWrite? {t : FileTree} {events : List Work.Event} {n : Nat} {file : SourceFile}
    (hfile : p.sources[n]? = some file) (hinline : file.isSqlFile = false) {path : String}
    {write : Option FileWrite}
    (hjob : (writingAfter o s p t events).1[n]? = some (.planned path write)) :
    write = (filePlan p.types file).inlineWrite? o.defaultType := by
  obtain ⟨plan, hplan, hwrites⟩ := exists_plan hjob
  rw [Prepared.plans, List.getElem?_map, hfile, Option.map_some, Option.some.injEq] at hplan
  subst hplan
  exact (hwrites hinline).of_planned.2.symm

/-- What a run plans for a file with inline queries is what it leaves of the file by itself. -/
theorem planned_eq_regenerate (h : (prepare o s).run w = (.ok p, w₁)) {t : FileTree}
    {events : List Work.Event} {n : Nat} {file : SourceFile} (hfile : p.sources[n]? = some file)
    (hinline : file.isSqlFile = false) {path : String} {write : Option FileWrite}
    (hjob : (writingAfter o s p t events).1[n]? = some (.planned path write)) :
    (write.map FileWrite.content).getD file.content =
      regenerate p.types o.defaultType file.path file.content := by
  obtain ⟨paths, hprepares⟩ := prepares h
  have hplan : (filePlan p.types file).file = file := rfl
  rw [eq_inlineWrite? hfile hinline hjob, FilePlan.inlineWrite?, FilePlan.rewritten, hplan]
  unfold regenerate
  rw [hprepares.extract_eq (List.mem_of_getElem? hfile)]
  simp only
  split <;> rfl

/-- Two runs whose servers answer alike agree on a file with inline queries that both have read
with the same text, whatever else they find and in whatever order they go about it. Each text is
described once, and each query has the types that the answer to its text gives. A run into which
nobody interferes has the same result in any order, if each text goes to a place of its own. -/
theorem runs_agree (h : (prepare o s).run w = (.ok p, w₁)) :
    (∀ limit s' w' p' w₁', (prepare (o.atOnce limit) s').run w' = (.ok p', w₁') →
      s'.server.loadCatalog = s.server.loadCatalog → (∀ sql, answer s' sql = answer s sql) →
      ∀ (n n' : Nat) (file file' : SourceFile), p.sources[n]? = some file →
        p'.sources[n']? = some file' → file.isSqlFile = false → file'.path = file.path →
        file'.content = file.content →
        queryFailures p'.types file' = queryFailures p.types file ∧
        ∀ t t' events events' path path' write write',
          (writingAfter o s p t events).1[n]? = some (.planned path write) →
          (writingAfter (o.atOnce limit) s' p' t' events').1[n']? = some (.planned path' write') →
          write' = write) ∧
    (∀ report, (run o s w).result = .ok report →
      report.queryFailures = p.sources.flatMap (queryFailures p.types)) ∧
    (let texts := sqlTexts p.readings
      let answers := Describing.run (max 1 o.database.describeConcurrency) (answer s)
        (s.describing texts.length) texts
      (answers.map Prod.fst).Perm texts.eraseDups ∧
      ∀ file ∈ p.sources, ∀ q ∈ file.queries, answers.lookup q.sql = some (answer s q.sql) ∧
        ∃ catalog, s.server.loadCatalog = .ok catalog ∧
          p.types q.sql = answerTypes (inference o catalog) q.sql (answer s q.sql)) ∧
    (w.tree.Closed → Undisturbed s →
      Separate s.faults (FilePlan.writes o.defaultType w.tree p.plans) w.tree →
      ∀ limit reading writing describing, Undisturbed (s.reordered reading writing describing) →
        (run (o.atOnce limit) (s.reordered reading writing describing) w).result =
          (run o s w).result) := by
  obtain ⟨paths, hprepares⟩ := prepares h
  refine ⟨fun limit s' w' p' w₁' h' hcatalog hanswer n n' file file' hfile hfile' hinline hpath
    htext => ?_, fun report hreport => ?_, ⟨Describing.run_perm _, fun file hfile q hq => ?_⟩,
    fun hclosed hquiet hseparate limit reading writing describing hquiet' =>
      result_reordered hclosed hquiet h hseparate limit hquiet'⟩
  · obtain ⟨paths', hprepares'⟩ := prepares h'
    obtain ⟨rfl, hresults⟩ := eq_of_text hprepares hprepares' hcatalog hanswer
      (List.mem_of_getElem? hfile) (List.mem_of_getElem? hfile') hpath htext
    refine ⟨congrArg (List.filterMap QueryResult.failure?) hresults,
      fun t t' events events' path path' write write' hjob hjob' => ?_⟩
    rw [eq_inlineWrite? hfile hinline hjob, eq_inlineWrite? hfile' hinline hjob',
      filePlan_congr hresults]
    rfl
  · rw [run_result h] at hreport
    rw [of_write hreport, queryFailures_ofResults]
  · have hsql := mem_sqlTexts hfile hq
    exact ⟨by rw [Describing.lookup_run, if_pos hsql], hprepares.types_eq hsql⟩

/-! Two files, written in either order -/

theorem of_toOption {ε α : Type} {x : Except ε α} {a : α} (h : x.toOption = some a) :
    x = .ok a := by
  cases x with
  | error e => cases h
  | ok b => exact congrArg Except.ok (Option.some.inj h)

def secondFirst (s : Surroundings) : Surroundings :=
  s.reordered s.reading (fun _ => [.step 1, .step 1]) s.describing

theorem undisturbed_quiet (server : Server) (isCancelled : Bool) :
    Undisturbed (.quiet server isCancelled) :=
  fun _ _ => ⟨nofun, nofun⟩

theorem undisturbed_secondFirst (server : Server) (isCancelled : Bool) :
    Undisturbed (secondFirst (.quiet server isCancelled)) :=
  fun _ _ => ⟨nofun, by simp [secondFirst, Surroundings.reordered]⟩

theorem separate_brokenCompanion {ws : List FileWrite}
    (hpaths : ws.map FileWrite.path = ["./__sql__/a.sql.ts", "./b"]) :
    Separate (Surroundings.quiet refusingServer false).faults ws brokenCompanion.tree := by
  have hcompanion : brokenCompanion.tree.lookup "./__sql__/a.sql.ts" =
      .ok (["__sql__", "a.sql.ts"], .file (.text "\x60") 0) := by decide +kernel
  have hother : brokenCompanion.tree.lookup "./b" =
      .ok (["b"], .file (.text "sql\x60a\x60 sql\x60bad\x60") 0) := by decide +kernel
  have hthere : ∀ path ∈ ["./__sql__/a.sql.ts", "./b"],
      brokenCompanion.tree.lookup path ≠ .error .notFound ∧
      brokenCompanion.tree.lookup (FileWrite.Target.directoryPath path) ≠ .error .notFound := by
    decide +kernel
  have hmem : ∀ w ∈ ws, w.path ∈ ["./__sql__/a.sql.ts", "./b"] := fun w hw =>
    hpaths ▸ List.mem_map_of_mem hw
  have hmaking : ∀ path, FileWrite.making FileWrite.noFaults path = none := fun path => by
    unfold FileWrite.making
    split <;> rfl
  refine ⟨?_, fun w hw => ⟨fun h => (hthere _ (hmem w hw)).1 h.1,
    fun h => (hthere _ (hmem w hw)).2 h.1⟩, (fun _ _ _ h => by cases h),
    fun w _ w' _ _ _ _ _ => (hmaking w.path).trans (hmaking w'.path).symm⟩
  have hdistinct : (ws.map FileWrite.path).Pairwise fun path path' =>
      ∀ l, brokenCompanion.tree.Goes path l → ¬brokenCompanion.tree.Goes path' l := by
    rw [hpaths]
    refine List.pairwise_pair.2 fun l hl hl' => ?_
    cases hl with
    | new hmissing => cases hmissing.symm.trans hcompanion
    | existing hlookup =>
      cases hl' with
      | new hmissing => cases hmissing.symm.trans hother
      | existing hlookup' =>
        have hfirst := (Prod.mk.inj (Except.ok.inj (hcompanion.symm.trans hlookup))).1
        have hsecond := (Prod.mk.inj (Except.ok.inj (hother.symm.trans hlookup'))).1
        exact absurd (hfirst.trans hsecond.symm) (by decide)
  exact List.pairwise_map.1 hdistinct

theorem runs_agree_brokenCompanion :
    ∃ p w₁, (prepare (plainOptions ["*"]) (.quiet refusingServer false)).run brokenCompanion =
        (.ok p, w₁) ∧
      (∃ file, p.sources[1]? = some file ∧ file.isSqlFile = false ∧
        (queryFailures p.types file).map QueryFailure.sql = ["bad"]) ∧
      brokenCompanion.tree.Closed ∧
      Separate (Surroundings.quiet refusingServer false).faults
        (FilePlan.writes "unknown" brokenCompanion.tree p.plans) brokenCompanion.tree ∧
      (run (plainOptions ["*"]) (secondFirst (.quiet refusingServer false)) brokenCompanion).result =
        (run (plainOptions ["*"]) (.quiet refusingServer false) brokenCompanion).result := by
  have hprepare : ((prepare (plainOptions ["*"]) (.quiet refusingServer false)).run
      brokenCompanion).1.toOption.map (fun p =>
        ((FilePlan.writes "unknown" brokenCompanion.tree p.plans).map FileWrite.path,
          p.sources[1]?.map fun file => (file.isSqlFile,
            (queryFailures p.types file).map QueryFailure.sql))) =
      some (["./__sql__/a.sql.ts", "./b"], some (false, ["bad"])) := by
    rw [prepare_of_findFiles findFiles_brokenCompanion]
    decide +kernel
  obtain ⟨p, hp, hplanned⟩ := Option.map_eq_some_iff.1 hprepare
  obtain ⟨hpaths, hsource⟩ := Prod.mk.inj hplanned
  obtain ⟨file, hfile, hqueries⟩ := Option.map_eq_some_iff.1 hsource
  obtain ⟨hinline, hfailures⟩ := Prod.mk.inj hqueries
  have hprepared : (prepare (plainOptions ["*"]) (.quiet refusingServer false)).run
      brokenCompanion = (.ok p, _) := Prod.ext (of_toOption hp) rfl
  have hclosed : brokenCompanion.tree.Closed :=
    closed_of_entries (by decide +kernel) (by decide +kernel) (by decide +kernel)
  have hseparate := separate_brokenCompanion hpaths
  obtain ⟨-, -, -, hresult⟩ := runs_agree hprepared
  exact ⟨p, _, hprepared, ⟨file, hfile, hinline, hfailures⟩, hclosed, hseparate,
    hresult hclosed (undisturbed_quiet _ _) hseparate 1 _ _ _ (undisturbed_secondFirst _ _)⟩

/-- The directory of one companion is a link to that of the other, which does not exist yet. -/
def linkedCompanions : World where
  tree := ⟨[([], .directory 0), (["__sql__"], .link "y/__sql__"),
    (["a.sql"], .file (.text "select 1") 0), (["y"], .directory 0),
    (["y", "b.sql"], .file (.text "select 2") 0)], [], 0⟩
  git := []
  diagnostics := ⟨[], []⟩

theorem findFiles_linkedCompanions : (findFiles (plainOptions ["*"])).run linkedCompanions =
    (.ok ["./a.sql", "./y/b.sql"], linkedCompanions) := by
  have hroot : linkedCompanions.tree.lookup "." = .ok ([], .directory 0) := by decide +kernel
  have hdepth : linkedCompanions.tree.depth = 2 := by decide +kernel
  have hnames : linkedCompanions.tree.names [] = ["__sql__", "a.sql", "y"] :=
    Discovery.names_of_pairwise (by decide +kernel) (by decide +kernel) (by decide +kernel)
  have hfiles : Discovery.relativeFiles linkedCompanions.tree "." everything =
      [["a.sql"], ["y", "b.sql"]] := by
    rw [Discovery.relativeFiles, hroot, if_neg (by decide +kernel)]
    simp only [hdepth]
    rw [Discovery.files_succ, hnames]
    decide +kernel
  refine findFiles_everything ?_
  rw [Discovery.discover_eq, hfiles]
  decide +kernel

/-- Which of the two files are written depends on the one that comes first, although each of them
goes to a path of its own and nobody else writes. -/
theorem order_decides_report :
    Undisturbed (.quiet plainServer false) ∧ Undisturbed (secondFirst (.quiet plainServer false)) ∧
    (∃ p w₁, (prepare (plainOptions ["*"]) (.quiet plainServer false)).run linkedCompanions =
        (.ok p, w₁) ∧
      (FilePlan.writes "unknown" linkedCompanions.tree p.plans).map FileWrite.path =
        ["./__sql__/a.sql.ts", "./y/__sql__/b.sql.ts"]) ∧
    (∃ report, (run (plainOptions ["*"]) (.quiet plainServer false) linkedCompanions).result =
        .ok report ∧ report.changed = ["./y/__sql__/b.sql.ts"]) ∧
    ∃ report, (run (plainOptions ["*"]) (secondFirst (.quiet plainServer false))
        linkedCompanions).result = .ok report ∧
      report.changed = ["./__sql__/a.sql.ts", "./y/__sql__/b.sql.ts"] := by
  have hprepare : ((prepare (plainOptions ["*"]) (.quiet plainServer false)).run
      linkedCompanions).1.toOption.map
      (fun p => (FilePlan.writes "unknown" linkedCompanions.tree p.plans).map FileWrite.path) =
        some ["./__sql__/a.sql.ts", "./y/__sql__/b.sql.ts"] := by
    rw [prepare_of_findFiles findFiles_linkedCompanions]
    decide +kernel
  have hfirst : (run (plainOptions ["*"]) (.quiet plainServer false)
      linkedCompanions).result.toOption.map Report.changed = some ["./y/__sql__/b.sql.ts"] := by
    rw [run, run_of_findFiles findFiles_linkedCompanions]
    decide +kernel
  have hsecond : (run (plainOptions ["*"]) (secondFirst (.quiet plainServer false))
      linkedCompanions).result.toOption.map Report.changed =
        some ["./__sql__/a.sql.ts", "./y/__sql__/b.sql.ts"] := by
    rw [run, run_of_findFiles findFiles_linkedCompanions]
    decide +kernel
  obtain ⟨p, hp, hpaths⟩ := Option.map_eq_some_iff.1 hprepare
  obtain ⟨report, hreport, hchanged⟩ := Option.map_eq_some_iff.1 hfirst
  obtain ⟨report', hreport', hchanged'⟩ := Option.map_eq_some_iff.1 hsecond
  exact ⟨undisturbed_quiet _ _, undisturbed_secondFirst _ _,
    ⟨p, _, Prod.ext (of_toOption hp) rfl, hpaths⟩, ⟨report, of_toOption hreport, hchanged⟩,
    report', of_toOption hreport', hchanged'⟩

end Generation
end RowTypes
