import Mathlib.Data.List.TakeWhile
import RowTypes.Generation.Panic
import RowTypes.Proofs.Conflicts

/-! Runs that end without a report. All that can end a run comes before it begins to write, when it
has only asked and read, or after each file has had its turn to be written. -/

namespace RowTypes

namespace Work

def edits (events : List Event) : List Edit :=
  events.filterMap fun
    | .edit e => some e
    | .step _ => none

theorem edits_append (events events' : List Event) :
    edits (events ++ events') = edits events ++ edits events' := List.filterMap_append ..

theorem edit_not_mem_inOrder (steps jobs : Nat) (e : Edit) : .edit e ∉ inOrder steps jobs := by
  intro hedit
  obtain ⟨n, -, hn⟩ := List.mem_flatMap.1 hedit
  exact nomatch List.eq_of_mem_replicate hn

theorem edits_inOrder (steps jobs : Nat) : edits (inOrder steps jobs) = [] := by
  rw [edits, List.filterMap_eq_nil_iff]
  intro event hevent
  cases event with
  | edit e => exact absurd hevent (edit_not_mem_inOrder steps jobs e)
  | step n => rfl

theorem run_tree {σ : Type} {step : σ → FileTree → σ × FileTree}
    (hstep : ∀ job t, (step job t).2 = t) (events : List Event) (jobs : List σ) (t : FileTree) :
    (run step events (jobs, t)).2 = (edits events).foldl Edit.apply t := by
  induction events generalizing jobs t with
  | nil => rfl
  | cons event events ih =>
    cases event with
    | edit e => exact ih jobs (e.apply t)
    | step n =>
      simp only [run]
      cases jobs[n]? with
      | none => exact ih jobs t
      | some job => rw [ih, hstep]; rfl

end Work

namespace WriteJob

def IsFor (path : String) : WriteJob → Prop
  | waiting p => p.file.path = path
  | planned path' _ => path' = path
  | done r => r.1 = path

theorem IsFor.step {path : String} {job : WriteJob} (h : IsFor path job) (faults : Faults)
    (defaultType : String) (t : FileTree) : IsFor path (step faults defaultType job t).1 := by
  cases job with
  | waiting p =>
    rw [step_waiting]
    split <;> exact h
  | planned path' w =>
    cases w with
    | none => exact h
    | some w => rw [step_planned]; exact h
  | done r => exact h

end WriteJob

namespace Generation

variable {ε ε' α β : Type} {o : Options} {s : Surroundings} {ps : Panics} {w w₁ : World}
  {p : Prepared}

/-! The ways in which an action fails -/

def FailsAs (P : ε → Prop) (x : ExceptT ε (StateM World) α) : Prop :=
  ∀ w e, (x.run w).1 = .error e → P e

namespace FailsAs

variable {P : ε → Prop}

theorem pure (a : α) : FailsAs P (Pure.pure a : ExceptT ε (StateM World) α) := fun _ _ => nofun

theorem throw {e : ε} (he : P e) :
    FailsAs P (MonadExcept.throw e : ExceptT ε (StateM World) α) := by
  intro w e' h
  obtain rfl := Except.error.inj h
  exact he

theorem bind {x : ExceptT ε (StateM World) α} {f : α → ExceptT ε (StateM World) β}
    (hx : FailsAs P x) (hf : ∀ a, FailsAs P (f a)) : FailsAs P (x >>= f) := by
  intro w e h
  rcases of_run_bind_error h with hfirst | ⟨a, w₁, -, hrest⟩
  · exact hx w e hfirst
  · exact hf a w₁ e hrest

end FailsAs

abbrev FailsFatally (a : Action α) : Prop := FailsAs (fun e => e.isFatal = true) a

theorem askGit_fails (ask : FileTree → Git → Except GitError α × Git) :
    FailsAs (fun e => ∃ g, e = .git g) (askGit ask) := by
  intro w e h
  change (askGit ask w).1 = _ at h
  rw [askGit] at h
  generalize ask w.tree w.git = r at h
  obtain ⟨g | a, git⟩ := r
  · exact ⟨g, (Except.error.inj h).symm⟩
  · cases h

theorem askGit_failsFatally (ask : FileTree → Git → Except GitError α × Git) :
    FailsFatally (askGit ask) := by
  intro w e h
  obtain ⟨g, rfl⟩ := askGit_fails ask w e h
  rfl

theorem checkClean_failsFatally (o : Options) (point : CleanPoint) :
    FailsFatally (checkClean o point) := by
  rw [checkClean]
  split
  · exact askGit_failsFatally _
  · exact .pure ()

theorem findFiles_failsFatally (o : Options) : FailsFatally (findFiles o) := by
  refine (checkClean_failsFatally o .before).bind fun _ => .bind ?_ fun _ => .bind ?_ fun _ =>
    .bind (fun _ _ => nofun) fun _ => .pure _
  · rw [filter]
    split
    · exact .pure _
    · exact .throw rfl
  · rw [changedFiles]
    split
    · exact .pure none
    · rw [map_eq_pure_bind]
      exact (askGit_failsFatally _).bind fun paths => .pure (some paths)

theorem stopIf_failsFatally (cancelled : Bool) : FailsFatally (stopIf cancelled) := by
  cases cancelled
  · exact .pure ()
  · exact .throw rfl

theorem describe_failsFatally (o : Options) (s : Surroundings) (texts : List String) :
    FailsFatally (describe o s texts) := by
  refine (stopIf_failsFatally _).bind fun _ => ?_
  split
  · exact .throw rfl
  · exact .throw rfl
  · split
    · exact .throw rfl
    · exact (stopIf_failsFatally _).bind fun _ => .pure _

theorem describeFiles_failsFatally (o : Options) (s : Surroundings) (readings : List ReadResult) :
    FailsFatally (describeFiles o s readings) := by
  refine .bind ?_ fun _ => .bind (fun _ _ => nofun) fun _ => .bind (fun _ _ => nofun) fun _ => .pure _
  rw [typesFor]
  split
  · exact .pure _
  · exact describe_failsFatally o s _

/-! Attempts -/

theorem run_attempt (a : Action α) (w : World) :
    (attempt a).run w = ((a.run w).1.mapError .error, (a.run w).2) := rfl

theorem attempt_bind (a : Action α) (f : α → Action β) :
    attempt (a >>= f) = attempt a >>= fun x => attempt (f x) := by
  funext w
  change (attempt (a >>= f)).run w = (attempt a >>= fun x => attempt (f x)).run w
  rw [run_attempt, run_bind, run_bind, run_attempt]
  rcases a.run w with ⟨_ | x, w'⟩ <;> rfl

theorem of_run_attempt {a : Action α} {x : α} (h : (attempt a).run w = (.ok x, w₁)) :
    a.run w = (.ok x, w₁) := by
  rw [run_attempt] at h
  generalize a.run w = r at h
  obtain ⟨_ | y, w'⟩ := r
  · exact nomatch (Prod.mk.inj h).1
  · obtain ⟨hok, rfl⟩ := Prod.mk.inj h
    rw [Except.ok.inj hok]

theorem KeepsTree.attempt {a : Action α} (h : KeepsTree a) : KeepsTree (attempt a) := h

theorem FailsFatally.attempt {a : Action α} (h : FailsFatally a) :
    FailsAs (fun stop => stop.isFatal = true) (attempt a) := by
  intro w stop hstop
  rw [run_attempt] at hstop
  have hfatal := h w
  generalize a.run w = r at hstop hfatal
  obtain ⟨e | x, w'⟩ := r
  · obtain rfl := Except.error.inj hstop
    exact hfatal e rfl
  · exact nomatch hstop

def OnlyLogs (log : β → Action Unit) : Prop :=
  ∀ b, KeepsTree (log b) ∧ ∀ w, ((log b).run w).1 = .ok ()

theorem onlyLogs_warnOfSkipped : OnlyLogs warnOfSkipped := fun _ => ⟨fun _ => rfl, fun _ => rfl⟩

theorem onlyLogs_reportUnwritten : OnlyLogs reportUnwritten := fun _ => ⟨fun _ => rfl, fun _ => rfl⟩

section Join

variable {panics : String → Bool} {log : List (String × α) → Action Unit}
  {results : List (String × α)}

theorem stopOn_keepsTree (panicked : Bool) : KeepsTree (stopOn panicked) := by
  cases panicked
  · exact .pure ()
  · exact .throw _

theorem of_run_stopOn {panicked : Bool} (h : (stopOn panicked).run w = (.ok (), w₁)) :
    panicked = false ∧ w = w₁ := by
  cases panicked
  · cases h
    exact ⟨rfl, rfl⟩
  · exact nomatch h

theorem stopOn_failsFatally (panicked : Bool) :
    FailsAs (fun stop => stop.isFatal = true) (stopOn panicked) := by
  cases panicked
  · exact .pure ()
  · exact .throw rfl

theorem join_keepsTree (panics : String → Bool) (hlog : OnlyLogs log)
    (results : List (String × α)) : KeepsTree (join panics log results) := by
  exact .bind (hlog _).1.attempt fun _ => stopOn_keepsTree _

theorem join_of_none (hnone : ∀ r ∈ results, panics r.1 = false) :
    join panics log results = attempt (log results) := by
  have hall : results.takeWhile (fun r => !panics r.1) = results :=
    List.takeWhile_eq_self_iff.2 fun r hr => by rw [hnone r hr]; rfl
  simp only [join, hall, Nat.lt_irrefl, decide_false]
  exact bind_pure _

theorem length_takeWhile_lt {q : β → Bool} {bs : List β} {b : β} (hb : b ∈ bs) (hq : q b = false) :
    (bs.takeWhile q).length < bs.length := by
  refine Nat.lt_of_le_of_ne ((List.takeWhile_prefix q).length_le) fun heq => ?_
  have hall := List.takeWhile_eq_self_iff.1 ((List.takeWhile_prefix q).eq_of_length heq) b hb
  rw [hq] at hall
  exact nomatch hall

theorem join_of_some (hlog : OnlyLogs log) {r : String × α} (hr : r ∈ results)
    (hpanic : panics r.1 = true) (w : World) :
    ((join panics log results).run w).1 = .error .panic := by
  have hlt := length_takeWhile_lt (q := fun r => !panics r.1) hr (by rw [hpanic]; rfl)
  have hok := (hlog (results.takeWhile fun r => !panics r.1)).2 w
  simp only [join, hlt, decide_true, run_bind, run_attempt]
  rw [hok]
  rfl

theorem of_run_join (hlog : OnlyLogs log) (h : (join panics log results).run w = (.ok (), w₁)) :
    (∀ r ∈ results, panics r.1 = false) ∧ (log results).run w = (.ok (), w₁) := by
  have hnone : ∀ r ∈ results, panics r.1 = false := by
    intro r hr
    by_contra hpanic
    have := join_of_some hlog hr (by simpa using hpanic) w
    rw [h] at this
    exact nomatch this
  rw [join_of_none hnone] at h
  exact ⟨hnone, of_run_attempt h⟩

theorem of_run_join_error (hlog : OnlyLogs log) {stop : Stop}
    (h : ((join panics log results).run w).1 = .error stop) :
    stop = .panic ∧ ∃ r ∈ results, panics r.1 = true := by
  by_cases hnone : ∀ r ∈ results, panics r.1 = false
  · rw [join_of_none hnone, run_attempt, (hlog results).2] at h
    exact nomatch h
  · simp only [not_forall, Bool.not_eq_false] at hnone
    obtain ⟨r, hr, hpanic⟩ := hnone
    rw [join_of_some hlog hr hpanic] at h
    exact ⟨(Except.error.inj h).symm, r, hr, hpanic⟩

end Join

/-! A run in which no task panics -/

theorem readFilesWith_none (o : Options) (s : Surroundings) :
    readFilesWith .none o s = attempt (readFiles o s) := by
  have hjoin : ∀ readings : List ReadResult,
      join Panics.none.reading warnOfSkipped readings = attempt (warnOfSkipped readings) :=
    fun readings => join_of_none fun _ _ => rfl
  simp only [readFilesWith, readFiles, attempt_bind, hjoin]
  rfl

theorem writeWith_none (o : Options) (s : Surroundings) (p : Prepared) :
    writeWith .none o s p = attempt (write o s p) := by
  have hjoin : ∀ written : List WriteResult,
      join Panics.none.writing reportUnwritten written = attempt (reportUnwritten written) :=
    fun written => join_of_none fun _ _ => rfl
  simp only [writeWith, write, attempt_bind, hjoin]
  rfl

theorem prepareWith_none (o : Options) (s : Surroundings) :
    prepareWith .none o s = attempt (prepare o s) := by
  simp only [prepareWith, prepare, attempt_bind, readFilesWith_none]

theorem generateWith_none (o : Options) (s : Surroundings) :
    generateWith .none o s = attempt (generate o s) := by
  simp only [generateWith, generate, attempt_bind, prepareWith_none, writeWith_none]

theorem runWith_none (o : Options) (s : Surroundings) (w : World) :
    runWith .none o s w =
      ⟨(run o s w).result.mapError .error, (run o s w).world, (run o s w).cancelled⟩ := by
  simp only [runWith, run, generateWith_none, run_attempt]
  rcases (generate o s).run w with ⟨_ | _, _⟩ <;> rfl

/-! Up to the writing -/

/-- The tree is as it was found, but for what other programs have changed while the files were
read. -/
def Untouched (s : Surroundings) (t t' : FileTree) : Prop :=
  t' = t ∨ ∃ n, t' = (Work.edits (s.reading n)).foldl Edit.apply t

theorem readAll_tree (s : Surroundings) (paths : List String) (w : World) :
    ((readAll s paths).run w).2.tree = (Work.edits (s.reading paths.length)).foldl Edit.apply w.tree := by
  change (Work.run ReadJob.step _ (_, w.tree)).2 = _
  rw [Work.run_tree ReadJob.step_tree, Surroundings.readingSteps, Work.edits_append,
    Work.edits_inOrder, List.append_nil]

def OnlyReads (s : Surroundings) (x : ExceptT ε (StateM World) α) : Prop :=
  ∀ w, Untouched s w.tree (x.run w).2.tree

namespace OnlyReads

variable {x : ExceptT ε (StateM World) α} {f : α → ExceptT ε (StateM World) β}

theorem bind (hx : KeepsTree x) (hf : ∀ a, OnlyReads s (f a)) : OnlyReads s (x >>= f) := by
  intro w
  rw [run_bind]
  have htree := hx w
  generalize x.run w = r at htree
  obtain ⟨_ | a, w₁⟩ := r
  · exact .inl htree
  · have hread := hf a w₁
    rwa [show w₁.tree = w.tree from htree] at hread

theorem bind_keepsTree (hx : OnlyReads s x) (hf : ∀ a, KeepsTree (f a)) :
    OnlyReads s (x >>= f) := by
  intro w
  rw [run_bind]
  have hread := hx w
  generalize x.run w = r at hread
  obtain ⟨_ | a, w₁⟩ := r
  · exact hread
  · rw [hf a w₁]
    exact hread

end OnlyReads

theorem readFilesWith_onlyReads (ps : Panics) (o : Options) (s : Surroundings) :
    OnlyReads s (readFilesWith ps o s) := by
  refine .bind (findFiles_keepsTree o).attempt fun paths => .bind (stopOn_keepsTree _) fun _ =>
    .bind_keepsTree (fun w => .inr ⟨paths.length, readAll_tree s paths w⟩) fun readings => ?_
  exact (join_keepsTree _ onlyLogs_warnOfSkipped _).bind fun _ => .pure _

theorem readFilesWith_failsFatally (ps : Panics) (o : Options) (s : Surroundings) :
    FailsAs (fun stop => stop.isFatal = true) (readFilesWith ps o s) := by
  refine .bind (findFiles_failsFatally o).attempt fun paths => .bind (stopOn_failsFatally _)
    fun _ => .bind (fun _ _ => nofun) fun readings => .bind (fun w stop h => ?_) fun _ => .pure _
  rw [(of_run_join_error onlyLogs_warnOfSkipped h).1]
  rfl

theorem of_readFilesWith {readings : List ReadResult}
    (h : (readFilesWith ps o s).run w = (.ok readings, w₁)) :
    (readFiles o s).run w = (.ok readings, w₁) := by
  obtain ⟨paths, w₂, hfind, h₂⟩ := of_run_bind h
  obtain ⟨_, w₃, hfound, h₃⟩ := of_run_bind h₂
  obtain ⟨readings', w₄, hread, h₄⟩ := of_run_bind h₃
  obtain ⟨_, w₅, hjoin, h₅⟩ := of_run_bind h₄
  obtain ⟨-, rfl⟩ := of_run_stopOn hfound
  cases h₅
  have hlog := (of_run_join onlyLogs_warnOfSkipped hjoin).2
  simp only [readFiles, run_bind, of_run_attempt hfind, of_run_attempt hread, hlog]
  rfl

theorem prepareWith_onlyReads (ps : Panics) (o : Options) (s : Surroundings) :
    OnlyReads s (prepareWith ps o s) :=
  (readFilesWith_onlyReads ps o s).bind_keepsTree fun readings =>
    (describeFiles_keepsTree o s readings).attempt

theorem prepareWith_failsFatally (ps : Panics) (o : Options) (s : Surroundings) :
    FailsAs (fun stop => stop.isFatal = true) (prepareWith ps o s) :=
  (readFilesWith_failsFatally ps o s).bind fun readings =>
    (describeFiles_failsFatally o s readings).attempt

theorem of_prepareWith (h : (prepareWith ps o s).run w = (.ok p, w₁)) :
    (prepare o s).run w = (.ok p, w₁) := by
  obtain ⟨readings, w₂, hread, hdescribe⟩ := of_run_bind h
  rw [prepare, run_bind, of_readFilesWith hread]
  exact of_run_attempt hdescribe

theorem reads_or_writes (ps : Panics) (o : Options) (s : Surroundings) (w : World) :
    (∃ stop, ((generateWith ps o s).run w).1 = .error stop ∧ stop.isFatal = true ∧
      Untouched s w.tree ((generateWith ps o s).run w).2.tree) ∨
    ∃ p w₁, (prepareWith ps o s).run w = (.ok p, w₁) ∧
      (generateWith ps o s).run w = (writeWith ps o s p).run w₁ := by
  have hreads := prepareWith_onlyReads ps o s w
  have hfatal := prepareWith_failsFatally ps o s w
  rw [generateWith, run_bind]
  generalize (prepareWith ps o s).run w = r at hreads hfatal
  obtain ⟨stop | p, w₁⟩ := r
  · exact .inl ⟨stop, rfl, hfatal stop rfl, hreads⟩
  · exact .inr ⟨p, w₁, rfl, rfl⟩

/-! The writing -/

theorem isFor_of_getElem? {t : FileTree} {events : List Work.Event} {n : Nat} {job : WriteJob}
    (h : (writingAfter o s p t events).1[n]? = some job) :
    ∃ plan, p.plans[n]? = some plan ∧ job.IsFor plan.file.path := by
  refine Work.job_invariant (P := fun n job => ∃ plan : FilePlan, p.plans[n]? = some plan ∧
    job.IsFor plan.file.path) (fun n job hjob => ?_) (fun n job t hjob => ?_) n job h
  · rw [List.getElem?_map, Option.map_eq_some_iff] at hjob
    obtain ⟨plan, hplan, rfl⟩ := hjob
    exact ⟨plan, hplan, rfl⟩
  · obtain ⟨plan, hplan, hfor⟩ := hjob
    exact ⟨plan, hplan, hfor.step _ _ t⟩

theorem exists_written (o : Options) (s : Surroundings) (p : Prepared) (t : FileTree) :
    ∃ written : List WriteResult,
      (writingAfter o s p t (s.writingSteps p.plans.length)).1 = written.map .done ∧
      written.map Prod.fst = p.plans.map fun plan => plan.file.path := by
  have hdone : ∀ job ∈ (writingAfter o s p t (s.writingSteps p.plans.length)).1,
      ∃ r, job = .done r := by
    intro job hjob
    have hlength : (p.plans.map WriteJob.waiting).length = p.plans.length := List.length_map _
    rw [writingAfter, Surroundings.writingSteps, ← hlength] at hjob
    refine WriteJob.exists_done (Work.rank_run_inOrder (WriteJob.rank_step _ _)
      (fun job hjob => ?_) hjob)
    obtain ⟨plan, -, rfl⟩ := List.mem_map.1 hjob
    exact Nat.le_refl 2
  have hlength : (writingAfter o s p t (s.writingSteps p.plans.length)).1.length =
      p.plans.length := by
    rw [writingAfter, Work.length_run, List.length_map]
  have hjobs := Work.eq_map_filterMap WriteJob.result?_done hdone
  refine ⟨_, hjobs, List.ext_getElem? fun n => ?_⟩
  rw [hjobs, List.length_map] at hlength
  rw [List.getElem?_map, List.getElem?_map]
  cases hresult : ((writingAfter o s p t (s.writingSteps p.plans.length)).1.filterMap
      WriteJob.result?)[n]? with
  | none =>
    rw [List.getElem?_eq_none_iff, hlength] at hresult
    rw [List.getElem?_eq_none_iff.2 hresult]
    rfl
  | some r =>
    have hjob : (writingAfter o s p t (s.writingSteps p.plans.length)).1[n]? = some (.done r) := by
      rw [hjobs, List.getElem?_map, hresult]
      rfl
    obtain ⟨plan, hplan, hpath⟩ := isFor_of_getElem? hjob
    rw [hplan]
    exact congrArg some hpath

theorem run_askGit (ask : FileTree → Git → Except GitError α × Git) (w : World) :
    (askGit ask).run w = ((ask w.tree w.git).1.mapError .git, { w with git := (ask w.tree w.git).2 }) := by
  change askGit ask w = _
  rw [askGit]
  rcases ask w.tree w.git with ⟨_ | a, git⟩ <;> rfl

theorem of_checkClean_error {point : CleanPoint} {e : RunError}
    (h : ((checkClean o point).run w).1 = .error e) :
    o.checksClean point = true ∧ ∃ g, e = .git g ∧
      (w.git.checkClean w.tree o.rootDirectory point).1 = .error g := by
  rw [checkClean] at h
  split at h
  · rename_i hchecks
    refine ⟨hchecks, ?_⟩
    rw [run_askGit] at h
    cases hclean : (w.git.checkClean w.tree o.rootDirectory point).1 with
    | ok _ =>
      rw [hclean] at h
      cases h
    | error g =>
      rw [hclean] at h
      exact ⟨g, (Except.error.inj h).symm, rfl⟩
  · cases h

theorem of_run_writeWith {stop : Stop} (h : ((writeWith ps o s p).run w).1 = .error stop) :
    let after := writingAfter o s p w.tree (s.writingSteps p.plans.length)
    ((writeWith ps o s p).run w).2.tree = after.2 ∧
      (stop = .panic ∧ (∃ plan ∈ p.plans, ps.writing plan.file.path = true) ∨
        ∃ e git, stop = .error (.git e) ∧ o.checksClean .after = true ∧
          (Git.checkClean after.2 o.rootDirectory .after git).1 = .error e) := by
  intro after
  obtain ⟨written, hwritten, hpaths⟩ := exists_written o s p w.tree
  have hresults : after.1.filterMap WriteJob.result? = written := by
    rw [hwritten, List.filterMap_map]
    exact List.filterMap_some
  have hall : (attempt (writeAll o s p.plans)).run w = (.ok written, { w with tree := after.2 }) := by
    rw [run_attempt, run_writeAll, hresults]
    rfl
  have hlater : KeepsTree (do
      join ps.writing reportUnwritten written
      attempt (checkClean o .after)
      return Report.ofResults p.readings p.results written) :=
    (join_keepsTree _ onlyLogs_reportUnwritten _).bind fun _ =>
      (checkClean_keepsTree o .after).attempt.bind fun _ => .pure _
  have hrun : (writeWith ps o s p).run w = (do
      join ps.writing reportUnwritten written
      attempt (checkClean o .after)
      return Report.ofResults p.readings p.results written : Attempt Report).run
        { w with tree := after.2 } := by
    rw [writeWith, run_bind, hall]
  rw [hrun] at h ⊢
  refine ⟨hlater _, ?_⟩
  rcases of_run_bind_error h with hjoin | ⟨_, w₂, hjoin, hrest⟩
  · obtain ⟨rfl, r, hr, hpanic⟩ := of_run_join_error onlyLogs_reportUnwritten hjoin
    have hpath : r.1 ∈ p.plans.map fun plan => plan.file.path := hpaths ▸ List.mem_map_of_mem hr
    obtain ⟨plan, hplan, hpath⟩ := List.mem_map.1 hpath
    exact .inl ⟨rfl, plan, hplan, hpath ▸ hpanic⟩
  · have htree := join_keepsTree ps.writing onlyLogs_reportUnwritten written
      { w with tree := after.2 }
    rw [hjoin] at htree
    rcases of_run_bind_error hrest with hclean | ⟨_, w₃, -, hreport⟩
    · rw [run_attempt] at hclean
      cases hresult : ((checkClean o .after).run w₂).1 with
      | ok _ =>
        rw [hresult] at hclean
        exact nomatch hclean
      | error e =>
        rw [hresult] at hclean
        obtain ⟨hchecks, g, rfl, hg⟩ := of_checkClean_error hresult
        rw [show w₂.tree = after.2 from htree] at hg
        exact .inr ⟨g, w₂.git, (Except.error.inj hclean).symm, hchecks, hg⟩
    · exact nomatch hreport

theorem cancelled_of_stop {stop : Stop} (h : (runWith ps o s w).result = .error stop)
    (hfatal : stop.isFatal = true) : (runWith ps o s w).cancelled = true := by
  have hstop : ((generateWith ps o s).run w).1 = .error stop := h
  simp only [runWith, hstop, hfatal, Bool.or_true]

/-- A run that fails has cancelled all that is still under way. It has left the tree as it was,
unless it fails by a task that panics while the files are written or by the look at the working
tree after that; then each file has had its turn. -/
theorem failed_run_leaves_tree {stop : Stop} (h : (runWith ps o s w).result = .error stop) :
    stop.isFatal = true ∧ (runWith ps o s w).cancelled = true ∧
    (Untouched s w.tree (runWith ps o s w).world.tree ∨
      ∃ (p : Prepared) (w₁ : World), (prepare o s).run w = (.ok p, w₁) ∧
        let after := writingAfter o s p w₁.tree (s.writingSteps p.plans.length)
        (∀ (n : Nat) (plan : FilePlan), p.plans[n]? = some plan →
          ∃ result, after.1[n]? = some (.done (plan.file.path, result))) ∧
        (runWith ps o s w).world.tree = after.2 ∧
        (stop = .panic ∧ (∃ plan ∈ p.plans, ps.writing plan.file.path = true) ∨
          ∃ e git, stop = .error (.git e) ∧ o.checksClean .after = true ∧
            (Git.checkClean after.2 o.rootDirectory .after git).1 = .error e)) := by
  have hstop : ((generateWith ps o s).run w).1 = .error stop := h
  rcases reads_or_writes ps o s w with ⟨stop', hreads, hfatal, htree⟩ | ⟨p, w₁, hprepared, hwrites⟩
  · obtain rfl := Except.error.inj (hstop.symm.trans hreads)
    exact ⟨hfatal, cancelled_of_stop h hfatal, .inl htree⟩
  · rw [hwrites] at hstop
    obtain ⟨htree, hcause⟩ := of_run_writeWith hstop
    have hfatal : stop.isFatal = true := by rcases hcause with ⟨rfl, -⟩ | ⟨e, git, rfl, -⟩ <;> rfl
    refine ⟨hfatal, cancelled_of_stop h hfatal,
      .inr ⟨p, w₁, of_prepareWith hprepared, fun n plan hplan => ?_, ?_, hcause⟩⟩
    · obtain ⟨written, hwritten, hpaths⟩ := exists_written o s p w₁.tree
      have hpath : (written.map Prod.fst)[n]? = some plan.file.path := by
        rw [hpaths, List.getElem?_map, hplan]
        rfl
      rw [List.getElem?_map, Option.map_eq_some_iff] at hpath
      obtain ⟨⟨path, result⟩, hresult, rfl⟩ := hpath
      refine ⟨result, ?_⟩
      rw [hwritten, List.getElem?_map, hresult]
      rfl
    · rw [← htree, ← hwrites]
      rfl

def staleFile : World where
  tree := (FileTree.empty [] 0).set ["a"] (.file (.text
    "a\n\nexport declare namespace queries \x7b\n  // Generated by pgtypegen\n\x7d\n") 0)
  git := [("status --porcelain", [⟨" M a", "", 0⟩])]
  diagnostics := ⟨[], []⟩

def checkingOptions : Options := { plainOptions ["*"] with cleanPoints := [.after] }

def Ending.stop? (ending : Ending) : Option Stop :=
  match ending.result with
  | .ok _ => none
  | .error stop => some stop

theorem of_stop? {ending : Ending} {stop : Stop} (h : ending.stop? = some stop) :
    ending.result = .error stop := by
  unfold Ending.stop? at h
  split at h
  · cases h
  · rename_i stop' hstop
    rw [hstop, Option.some.inj h]

-- both parts in one statement, so that the run is computed once
theorem run_staleFile :
    (runWith .none checkingOptions (.quiet plainServer false) staleFile).result =
        .error (.error (.git (.dirty "after" " M a"))) ∧
      (runWith .none checkingOptions (.quiet plainServer false) staleFile).world.tree.read "a" =
        .ok "a\n" := by
  have hstop : (runWith .none checkingOptions (.quiet plainServer false) staleFile).stop? =
        some (.error (.git (.dirty "after" " M a"))) ∧
      (runWith .none checkingOptions (.quiet plainServer false) staleFile).world.tree.read "a" =
        .ok "a\n" := by
    decide +kernel
  exact ⟨of_stop? hstop.1, hstop.2⟩

theorem failed_run_of_staleFile :
    let ending := runWith .none checkingOptions (.quiet plainServer false) staleFile
    ending.result = .error (.error (.git (.dirty "after" " M a"))) ∧ ending.cancelled = true ∧
      ending.world.tree.read "a" = .ok "a\n" := by
  intro ending
  obtain ⟨-, hcancelled, -⟩ := failed_run_leaves_tree run_staleFile.1
  exact ⟨run_staleFile.1, hcancelled, run_staleFile.2⟩

end Generation
end RowTypes
