import RowTypes.Proofs.Installing
import RowTypes.Proofs.Preparing

/-! Other programs may change the files between any two steps of a run. A file is only written
over the text from which its new text was made, and whatever else stands there stays. -/

namespace RowTypes

open FileTree

namespace FileWrite

variable {faults : Faults} {w : FileWrite} {t : FileTree} {text : String}

theorem current_of_none (h : faults .read = none) (w : FileWrite) (t : FileTree) :
    current faults w t = t.readIfExists w.path := by
  rw [current, Faults.call, h, readIfExists]
  rcases t.read w.path with e | s
  · cases e <;> rfl
  · rfl

theorem read_of_current (h : current faults w t = .ok (some text)) :
    t.read w.path = .ok text := of_optional_call h

/-- What a write leaves: the tree as it was, or the new text over the one that it expects, and
nothing else in another place. -/
def Spares (t t' : FileTree) (path old new : String) : Prop :=
  Same t t' ∨ t.read path = .ok old ∧ t'.read path = .ok new ∧
    ∃ l, ∀ l', l' ≠ l → t'.get? l' = t.get? l'

theorem run_perform_of_ne (faults : Faults) (hexpected : w.expected = some text) (hread : t.read w.path ≠ .ok text) :
    ∃ e, (perform faults w).run t = (.error e, t) ∧ (faults .read = none →
      ∀ now, t.readIfExists w.path = .ok now → e = .conflict w.path) := by
  cases hcurrent : current faults w t with
  | error e =>
    refine ⟨_, run_perform_settled (by rw [hcurrent, settled?]), fun hnone now hnow => ?_⟩
    rw [current_of_none hnone, hnow] at hcurrent
    cases hcurrent
  | ok now =>
    have hne : now ≠ w.expected := by
      rintro rfl
      exact hread (read_of_current (hexpected ▸ hcurrent))
    exact ⟨_, run_perform_settled (by rw [hcurrent, settled?, if_pos hne]), fun _ _ _ => rfl⟩

theorem run_perform_spares (hcanonicalize : faults .canonicalize ≠ some .notFound)
    (hexpected : w.expected = some text) :
    Spares t ((perform faults w).run t).2 w.path text w.content := by
  by_cases hread : t.read w.path = .ok text
  · obtain ⟨l, m, hlookup⟩ := exists_of_read hread
    obtain ⟨t', hrun, hsame⟩ := run_perform_existing (w := w) hcanonicalize hlookup
    rw [hrun]
    split at hsame
    · obtain ⟨mode, hsame⟩ := hsame
      refine .inr ⟨hread, ?_, l, fun l' hl' => ?_⟩
      · have hgrows := (grows_set_file (get?_of_lookup hlookup) (.text w.content) mode).trans
          hsame.grows
        obtain ⟨e', hlookup', hget, -⟩ := hgrows.lookup hlookup
        rw [hsame.get?, get?_set_self] at hget
        rw [← Option.some.inj hget] at hlookup'
        exact read_of_lookup hlookup'
      · rw [hsame.get?, get?_set_of_ne _ _ hl']
    · exact .inl hsame
  · obtain ⟨e, hrun, -⟩ := run_perform_of_ne faults hexpected hread
    rw [hrun]
    exact .inl (.refl t)

end FileWrite

/-! The jobs that write files with inline queries -/

namespace FilePlan

variable {p : FilePlan} {defaultType : String}

def rewritten (p : FilePlan) (defaultType : String) : String :=
  String.ofList (TypedSource.render p.file.content.toList p.declarations p.failed defaultType)

def inlineWrite? (p : FilePlan) (defaultType : String) : Option FileWrite :=
  if p.declarations = [] ∧ (Block.find? p.file.content.toList).isNone then none
  else some ⟨p.file.path, some p.file.content, p.rewritten defaultType⟩

theorem plan_inline (h : p.file.isSqlFile = false) (t : FileTree) :
    FileWrite.plan t p.file p.declarations p.failed defaultType =
      .ok (p.inlineWrite? defaultType) := by
  rw [FileWrite.plan, h, inlineWrite?]
  simp only [Bool.false_eq_true, if_false]
  split <;> rfl

theorem of_inlineWrite? {w : FileWrite} (h : p.inlineWrite? defaultType = some w) :
    w = ⟨p.file.path, some p.file.content, p.rewritten defaultType⟩ := by
  rw [inlineWrite?] at h
  split at h
  · exact nomatch h
  · exact (Option.some.inj h).symm

end FilePlan

namespace WriteJob

variable {faults : Faults} {defaultType : String} {p : FilePlan} {job : WriteJob}

inductive Writes (defaultType : String) (p : FilePlan) : WriteJob → Prop where
  | waiting : Writes defaultType p (waiting p)
  | planned : Writes defaultType p (planned p.file.path (p.inlineWrite? defaultType))
  | done (result : Except WriteError (Option (String × WriteOutcome)))
      (hpath : ∀ path outcome, result = .ok (some (path, outcome)) → path = p.file.path) :
      Writes defaultType p (done (p.file.path, result))

theorem Writes.of_planned {path : String} {w : Option FileWrite}
    (h : Writes defaultType p (.planned path w)) :
    path = p.file.path ∧ p.inlineWrite? defaultType = w := by
  cases h
  exact ⟨rfl, rfl⟩

theorem Writes.step (hinline : p.file.isSqlFile = false) (h : Writes defaultType p job)
    (t : FileTree) : Writes defaultType p (step faults defaultType job t).1 := by
  cases h with
  | waiting =>
    rw [step_waiting, FilePlan.plan_inline hinline]
    exact .planned
  | planned =>
    cases hw : p.inlineWrite? defaultType with
    | none => exact .done _ nofun
    | some w =>
      rw [step_planned]
      refine .done _ fun path outcome hresult => ?_
      obtain rfl := FilePlan.of_inlineWrite? hw
      cases hrun : ((FileWrite.perform (faults p.file.path)
          ⟨p.file.path, some p.file.content, p.rewritten defaultType⟩).run t).1 with
      | error e =>
        rw [hrun] at hresult
        exact nomatch hresult
      | ok outcome' =>
        rw [hrun] at hresult
        exact (Prod.mk.inj (Option.some.inj (Except.ok.inj hresult))).1.symm
  | done result hpath => exact .done result hpath

theorem Writes.spares (hcanonicalize : ∀ path, faults path .canonicalize ≠ some .notFound)
    (h : Writes defaultType p job) (t : FileTree) :
    FileWrite.Spares t (WriteJob.step faults defaultType job t).2 p.file.path p.file.content
      (p.rewritten defaultType) := by
  cases h with
  | waiting =>
    rw [step_tree fun _ _ h => WriteJob.noConfusion h]
    exact .inl (.refl t)
  | planned =>
    cases hw : p.inlineWrite? defaultType with
    | none => exact .inl (.refl t)
    | some w =>
      obtain rfl := FilePlan.of_inlineWrite? hw
      rw [step_planned]
      exact FileWrite.run_perform_spares (hcanonicalize _) rfl
  | done result hpath => exact .inl (.refl t)

def plannedPath? : WriteJob → Option String
  | planned path (some _) => some path
  | _ => none

theorem of_plannedPath? {path : String} (h : job.plannedPath? = some path) :
    ∃ w, job = .planned path (some w) := by
  unfold plannedPath? at h
  split at h
  · rename_i path' w
    exact ⟨w, by rw [Option.some.inj h]⟩
  · cases h

end WriteJob

namespace Generation

variable {o : Options} {s : Surroundings} {w w₁ : World} {p : Prepared}

def writingAfter (o : Options) (s : Surroundings) (p : Prepared) (t : FileTree)
    (events : List Work.Event) : List WriteJob × FileTree :=
  Work.run (WriteJob.step s.faults o.defaultType) events (p.plans.map .waiting, t)

theorem Prepared.of_mem_plans {plan : FilePlan} (h : plan ∈ p.plans) :
    plan.file ∈ p.sources ∧ plan = filePlan p.types plan.file := by
  obtain ⟨file, hfile, rfl⟩ := List.mem_map.1 h
  exact ⟨hfile, rfl⟩

theorem exists_plan {t : FileTree} {events : List Work.Event} {n : Nat} {job : WriteJob}
    (h : (writingAfter o s p t events).1[n]? = some job) :
    ∃ plan, p.plans[n]? = some plan ∧
      (plan.file.isSqlFile = false → WriteJob.Writes o.defaultType plan job) := by
  rw [writingAfter] at h
  refine Work.job_invariant (P := fun n job => ∃ plan, p.plans[n]? = some plan ∧
    (plan.file.isSqlFile = false → WriteJob.Writes o.defaultType plan job))
    (fun n job hjob => ?_) (fun n job t hjob => ?_) n job h
  · rw [List.getElem?_map, Option.map_eq_some_iff] at hjob
    obtain ⟨plan, hplan, rfl⟩ := hjob
    exact ⟨plan, hplan, fun _ => .waiting⟩
  · obtain ⟨plan, hplan, hwrites⟩ := hjob
    exact ⟨plan, hplan, fun hinline => (hwrites hinline).step hinline t⟩

theorem writes_of_getElem? (hinline : ∀ file ∈ p.sources, file.isSqlFile = false) {t : FileTree}
    {events : List Work.Event} {n : Nat} {job : WriteJob}
    (h : (writingAfter o s p t events).1[n]? = some job) :
    ∃ plan, p.plans[n]? = some plan ∧ WriteJob.Writes o.defaultType plan job := by
  obtain ⟨plan, hplan, hwrites⟩ := exists_plan h
  have hsource := (Prepared.of_mem_plans (List.mem_of_getElem? hplan)).1
  exact ⟨plan, hplan, hwrites (hinline plan.file hsource)⟩

theorem run_writeAll (o : Options) (s : Surroundings) (p : Prepared) (w : World) :
    (writeAll o s p.plans).run w =
      (.ok ((writingAfter o s p w.tree (s.writingSteps p.plans.length)).1.filterMap
        WriteJob.result?),
      { w with tree := (writingAfter o s p w.tree (s.writingSteps p.plans.length)).2 }) :=
  rfl

theorem of_write {report : Report} (h : ((write o s p).run w₁).1 = .ok report) :
    report = .ofResults p.readings p.results
      ((writingAfter o s p w₁.tree (s.writingSteps p.plans.length)).1.filterMap
        WriteJob.result?) := by
  have hrun : (write o s p).run w₁ = (.ok report, ((write o s p).run w₁).2) := by
    rw [← h]
    rfl
  obtain ⟨written, w₃, hwritten, h₃⟩ := of_run_bind hrun
  obtain ⟨_, w₄, herror, h₄⟩ := of_run_bind h₃
  obtain ⟨_, w₅, hclean, h₅⟩ := of_run_bind h₄
  rw [run_writeAll] at hwritten
  obtain ⟨hwritten, -⟩ := Prod.mk.inj hwritten
  obtain ⟨hreport, -⟩ := Prod.mk.inj h₅
  rw [← Except.ok.inj hreport, ← Except.ok.inj hwritten]

theorem run_result (h : (prepare o s).run w = (.ok p, w₁)) :
    (run o s w).result = ((write o s p).run w₁).1 := by
  change ((generate o s).run w).1 = _
  rw [generate, run_bind, h]

/-! The files that the run has read -/

/-- The run has read a text in the file with a path: it was there when the file had its turn. -/
def WasRead (s : Surroundings) (t : FileTree) (paths : List String) (path text : String) : Prop :=
  ∃ before n after, s.readingSteps paths.length = before ++ .step n :: after ∧
    paths[n]? = some path ∧ (readingAfter paths t before).2.read path = .ok text

theorem Prepares.path_eq {paths : List String} (h : Prepares o s w p w₁ paths) {r : ReadResult}
    (hr : r ∈ p.readings) {file : SourceFile} (hfile : r.source? = some file) :
    file.path = r.1 := by
  obtain ⟨n, hn⟩ := List.getElem?_of_mem hr
  obtain ⟨-, before, after, -, hload⟩ := h.exists_reading hn
  obtain ⟨path, result⟩ := r
  cases result with
  | error e => exact nomatch hfile
  | ok file' =>
    obtain rfl := Option.some.inj hfile
    exact (SourceFile.of_load hload.symm).1

theorem exists_source {paths : List String} (h : Prepares o s w p w₁ paths) {file : SourceFile}
    (hfile : file ∈ p.sources) :
    (file.path, .ok file) ∈ p.readings ∧ WasRead s w.tree paths file.path file.content := by
  obtain ⟨r, hr, hsource⟩ := List.mem_filterMap.1 hfile
  obtain ⟨path, result⟩ := r
  cases result with
  | error e => exact nomatch hsource
  | ok file' =>
    obtain rfl := Option.some.inj hsource
    obtain ⟨n, hn⟩ := List.getElem?_of_mem hr
    obtain ⟨hpath, before, after, hsteps, hload⟩ := h.exists_reading hn
    obtain ⟨rfl, hread, -⟩ := SourceFile.of_load hload.symm
    exact ⟨hr, before, n, after, hsteps, hpath, hread⟩

theorem plans_nodup {paths : List String} (h : Prepares o s w p w₁ paths) (hnodup : paths.Nodup) :
    (p.plans.map fun plan => plan.file.path).Nodup := by
  have hsources : (p.sources.map SourceFile.path).Nodup := by
    have hreadings : p.readings.Pairwise (fun r r' => r.1 ≠ r'.1) := by
      rw [← h.map_fst] at hnodup
      exact List.pairwise_map.1 hnodup
    rw [List.Nodup, List.pairwise_map, Prepared.sources, List.pairwise_filterMap]
    refine hreadings.imp_of_mem fun hr hr' hne file hfile file' hfile' => ?_
    rw [h.path_eq hr hfile, h.path_eq hr' hfile']
    exact hne
  rw [Prepared.plans, List.map_map]
  exact hsources

theorem of_changed? {path path' : String}
    {result : Except WriteError (Option (String × WriteOutcome))}
    (h : WriteResult.changed? (path', result) = some path) :
    ∃ outcome, result = .ok (some (path, outcome)) := by
  rw [WriteResult.changed?] at h
  split at h
  · rename_i path'' hresult
    obtain rfl := Option.some.inj h
    exact ⟨_, hresult⟩
  · exact nomatch h

theorem reported {paths : List String} (h : Prepares o s w p w₁ paths) (hnodup : paths.Nodup)
    (hinline : ∀ file ∈ p.sources, file.isSqlFile = false) {n : Nat} {plan : FilePlan}
    (hplan : p.plans[n]? = some plan) {e : WriteError}
    (hdone : (writingAfter o s p w₁.tree (s.writingSteps p.plans.length)).1[n]? =
      some (.done (plan.file.path, .error e)))
    {report : Report} (hreport : ((write o s p).run w₁).1 = .ok report) :
    ⟨plan.file.path, e.message⟩ ∈ report.fileFailures ∧ plan.file.path ∉ report.changed := by
  rw [of_write hreport]
  constructor
  · refine List.mem_append_right _ (List.mem_filterMap.2 ⟨_, List.mem_filterMap.2
      ⟨_, List.mem_of_getElem? hdone, rfl⟩, rfl⟩)
  · intro hchanged
    obtain ⟨r, hr, hpath⟩ := List.mem_filterMap.1 hchanged
    obtain ⟨job, hjob, hresult⟩ := List.mem_filterMap.1 hr
    obtain ⟨k, hk⟩ := List.getElem?_of_mem hjob
    obtain ⟨other, hother, hwrites⟩ := writes_of_getElem? hinline hk
    cases hwrites with
    | waiting => exact nomatch hresult
    | planned => exact nomatch hresult
    | done result hwritten =>
      obtain rfl := Option.some.inj hresult
      obtain ⟨outcome, rfl⟩ := of_changed? hpath
      have hsame : (p.plans.map fun plan => plan.file.path)[k]? =
          (p.plans.map fun plan => plan.file.path)[n]? := by
        rw [List.getElem?_map, List.getElem?_map, hplan, hother, Option.map_some, Option.map_some,
          hwritten _ _ rfl]
      have hlt := (List.getElem?_eq_some_iff.1 hplan).1
      rw [← List.length_map (f := fun plan => plan.file.path)] at hlt
      obtain rfl := (List.getElem?_inj hlt (plans_nodup h hnodup)).1 hsame.symm
      have hresults := WriteJob.done.inj (Option.some.inj (hk.symm.trans hdone))
      exact nomatch (Prod.mk.inj hresults).2

theorem writingAfter_step {t : FileTree} {before : List Work.Event} {n : Nat} {job : WriteJob}
    (hjob : (writingAfter o s p t before).1[n]? = some job) :
    writingAfter o s p t (before ++ [.step n]) =
      ((writingAfter o s p t before).1.set n
        (WriteJob.step s.faults o.defaultType job (writingAfter o s p t before).2).1,
      (WriteJob.step s.faults o.defaultType job (writingAfter o s p t before).2).2) := by
  rw [writingAfter, Work.run_append, ← writingAfter]
  exact Work.run_step hjob

theorem writingAfter_done {t : FileTree} {before : List Work.Event} {n : Nat}
    {r : WriteResult} (h : (writingAfter o s p t before).1[n]? = some (.done r))
    (after : List Work.Event) :
    (writingAfter o s p t (before ++ after)).1[n]? = some (.done r) := by
  rw [writingAfter, Work.run_append, ← writingAfter]
  exact Work.run_fixed (fun _ => rfl) h

/-- However other programs change the files in between: a step that writes a file leaves all as it
was, or puts in place of the text that was read in it what becomes of that text. A file with
another text, or without one, is reported as a conflict. -/
theorem writing_keeps_edits (hprepared : (prepare o s).run w = (.ok p, w₁))
    (hpaths : (p.readings.map Prod.fst).Nodup)
    (hinline : ∀ file ∈ p.sources, file.isSqlFile = false)
    (hatomic : ∀ path, s.faults path .canonicalize ≠ some .notFound) :
    (∀ before n, (readingAfter (p.readings.map Prod.fst) w.tree (before ++ [.step n])).2 =
      (readingAfter (p.readings.map Prod.fst) w.tree before).2) ∧
    ∀ before n after, s.writingSteps p.plans.length = before ++ .step n :: after →
      ∀ plan, p.plans[n]? = some plan →
      let t := (writingAfter o s p w₁.tree before).2
      let t' := (writingAfter o s p w₁.tree (before ++ [.step n])).2
      let path := plan.file.path
      let text := plan.file.content
      WasRead s w.tree (p.readings.map Prod.fst) path text ∧
      FileWrite.Spares t t' path text (String.ofList
        (TypedSource.render text.toList plan.declarations plan.failed o.defaultType)) ∧
      ∀ new, (writingAfter o s p w₁.tree before).1[n]? = some (.planned path (some new)) →
        t.read path ≠ .ok text →
        FileTree.Same t t' ∧ ∃ e : WriteError,
          (s.faults path .read = none → ∀ now, t.readIfExists path = .ok now →
            e = .conflict path) ∧
          ∀ report, (run o s w).result = .ok report →
            ⟨path, e.message⟩ ∈ report.fileFailures ∧ path ∉ report.changed := by
  obtain ⟨paths, h⟩ := prepares hprepared
  have hfst := h.map_fst
  subst hfst
  refine ⟨fun before n => ?_, fun before n after hsteps plan hplan => ?_⟩
  · exact readingAfter_step _ _ before n
  have hsource := (Prepared.of_mem_plans (List.mem_of_getElem? hplan)).1
  have hlt : n < (writingAfter o s p w₁.tree before).1.length := by
    rw [writingAfter, Work.length_run, List.length_map]
    exact (List.getElem?_eq_some_iff.1 hplan).1
  obtain ⟨job, hjob⟩ : ∃ job, (writingAfter o s p w₁.tree before).1[n]? = some job :=
    ⟨_, List.getElem?_eq_getElem hlt⟩
  obtain ⟨plan', hplan', hwrites⟩ := writes_of_getElem? hinline hjob
  obtain rfl := Option.some.inj (hplan.symm.trans hplan')
  have hnext := writingAfter_step hjob
  refine ⟨(exists_source h hsource).2, ?_, fun new hnew hread => ?_⟩
  · rw [hnext]
    exact hwrites.spares hatomic _
  · obtain rfl := Option.some.inj (hjob.symm.trans hnew)
    obtain rfl := FilePlan.of_inlineWrite? hwrites.of_planned.2
    rw [hnext]
    obtain ⟨e, hrun, hconflict⟩ := FileWrite.run_perform_of_ne (s.faults plan.file.path)
      (w := ⟨plan.file.path, some plan.file.content, plan.rewritten o.defaultType⟩) rfl hread
    rw [WriteJob.step_planned, hrun] at hnext ⊢
    refine ⟨.refl _, e, hconflict, fun report hreport => ?_⟩
    have hdone : (writingAfter o s p w₁.tree (before ++ [.step n])).1[n]? =
        some (.done (plan.file.path, .error e)) := by
      rw [hnext]
      exact List.getElem?_set_self hlt
    have hlast := writingAfter_done hdone after
    rw [List.append_assoc, List.singleton_append, ← hsteps] at hlast
    exact reported h hpaths hinline hplan hlast (run_result hprepared ▸ hreport)

/-! A file that another program changes after its write was planned -/

def plainServer : Server where
  login := .accepted
  catalog := .given .empty
  prepare _ := .given ⟨[], []⟩

def plainOptions (included : List String) : Options where
  database := ⟨"", 1, 1, 1⟩
  rootDirectory := "."
  included := included
  excluded := []
  since := none
  cleanPoints := []
  unknownPolicy := .lenient
  defaultType := "unknown"
  typeOverrides := []
  typeParsers := .recommended
  samples := []
  log := .default

def editedFile : World where
  tree := (FileTree.empty [] 0).set ["a"] (.file (.text "sql\x60a\x60") 0)
  git := []
  diagnostics := ⟨[], []⟩

def editedSurroundings : Surroundings :=
  { Surroundings.quiet plainServer false with
    writing := fun _ => [.step 0, .edit (.put "a" "sql\x60b\x60"), .step 0] }

def editedPrepared : Prepared :=
  ((prepare (plainOptions ["*"]) editedSurroundings).run editedFile).1.toOption.getD
    ⟨[], fun _ => .error ""⟩

theorem run_editedPrepared : (prepare (plainOptions ["*"]) editedSurroundings).run editedFile =
    (.ok editedPrepared, ((prepare (plainOptions ["*"]) editedSurroundings).run editedFile).2) := by
  have hok : ((prepare (plainOptions ["*"]) editedSurroundings).run editedFile).1.toOption.isSome =
      true := by decide +kernel
  rw [editedPrepared]
  generalize (prepare (plainOptions ["*"]) editedSurroundings).run editedFile = r at hok ⊢
  obtain ⟨_ | p, w₁⟩ := r
  · cases hok
  · rfl

theorem edited_file_conflicts :
    ∃ w₁, (prepare (plainOptions ["*"]) editedSurroundings).run editedFile =
        (.ok editedPrepared, w₁) ∧
      (editedPrepared.readings.map Prod.fst).Nodup ∧
      (∀ file ∈ editedPrepared.sources, file.isSqlFile = false) ∧
      (∀ path, editedSurroundings.faults path .canonicalize ≠ some .notFound) ∧
      ∃ report, (run (plainOptions ["*"]) editedSurroundings editedFile).result = .ok report ∧
        ⟨"./a", (WriteError.conflict "./a").message⟩ ∈ report.fileFailures ∧
          "./a" ∉ report.changed := by
  let s := editedSurroundings
  let w₁ := ((prepare (plainOptions ["*"]) s).run editedFile).2
  let before : List Work.Event := [.step 0, .edit (.put "a" "sql\x60b\x60")]
  let jobs := (writingAfter (plainOptions ["*"]) s editedPrepared w₁.tree before).1
  let t := (writingAfter (plainOptions ["*"]) s editedPrepared w₁.tree before).2
  have hpaths : (editedPrepared.readings.map Prod.fst).Nodup := by decide +kernel
  have hinline : ∀ file ∈ editedPrepared.sources, file.isSqlFile = false := by decide +kernel
  have hatomic : ∀ path, s.faults path .canonicalize ≠ some .notFound := fun _ h => by cases h
  have hplan : (editedPrepared.plans[0]?.map fun plan => (plan.file.path, plan.file.content)) =
      some ("./a", "sql\x60a\x60") := by decide +kernel
  have hjob : jobs[0]?.bind WriteJob.plannedPath? = some "./a" := by decide +kernel
  have hread : t.read "./a" = .ok "sql\x60b\x60" := by decide +kernel
  have hresult : (run (plainOptions ["*"]) s editedFile).result.toOption.isSome = true := by
    decide +kernel
  obtain ⟨plan, hplan, hfile⟩ := Option.map_eq_some_iff.1 hplan
  obtain ⟨hpath, htext⟩ := Prod.mk.inj hfile
  obtain ⟨-, hkeeps⟩ := writing_keeps_edits run_editedPrepared hpaths hinline hatomic
  obtain ⟨-, -, hreported⟩ := hkeeps before 0 _ rfl plan hplan
  refine ⟨w₁, run_editedPrepared, hpaths, hinline, hatomic, ?_⟩
  cases hrun : (run (plainOptions ["*"]) s editedFile).result with
  | error e =>
    rw [hrun] at hresult
    cases hresult
  | ok report =>
    refine ⟨report, rfl, ?_⟩
    obtain ⟨job, hjob, hplanned⟩ := Option.bind_eq_some_iff.1 hjob
    obtain ⟨new, rfl⟩ := WriteJob.of_plannedPath? hplanned
    rw [hpath, htext] at hreported
    obtain ⟨-, e, hconflict, hreport⟩ := hreported new hjob (by rw [hread]; decide)
    rw [hconflict rfl (some "sql\x60b\x60") (by rw [FileTree.readIfExists, hread])] at hreport
    exact hreport report hrun

end Generation

end RowTypes
