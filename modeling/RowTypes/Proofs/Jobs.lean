import RowTypes.Generation.Work
import Mathlib.Data.List.Basic

/-! Jobs whose steps are taken in any order. What each step of a job keeps holds of the job at any
time, and a job that is given enough steps is done. -/

namespace RowTypes

namespace Work

variable {σ : Type} {step : σ → FileTree → σ × FileTree}

theorem run_append (events events' : List Event) (state : List σ × FileTree) :
    run step (events ++ events') state = run step events' (run step events state) := by
  induction events generalizing state with
  | nil => rfl
  | cons event events ih =>
    obtain ⟨jobs, t⟩ := state
    cases event with
    | edit e => exact ih (jobs, e.apply t)
    | step n =>
      simp only [List.cons_append, run]
      cases jobs[n]? with
      | none => exact ih (jobs, t)
      | some job => exact ih _

theorem run_step {jobs : List σ} {t : FileTree} {n : Nat} {job : σ} (hjob : jobs[n]? = some job) :
    run step [.step n] (jobs, t) = (jobs.set n (step job t).1, (step job t).2) := by
  simp only [run, hjob]

theorem run_step_none {state : List σ × FileTree} {n : Nat} (hjob : state.1[n]? = none) :
    run step [.step n] state = state := by
  obtain ⟨jobs, t⟩ := state
  simp only [run, hjob]

theorem run_invariant {I : List σ → FileTree → Prop} {events : List Event} {jobs : List σ}
    {t : FileTree} (hinit : I jobs t)
    (hedit : ∀ e, .edit e ∈ events → ∀ jobs t, I jobs t → I jobs (e.apply t))
    (hstep : ∀ jobs t n job, I jobs t → jobs[n]? = some job →
      I (jobs.set n (step job t).1) (step job t).2) :
    I (run step events (jobs, t)).1 (run step events (jobs, t)).2 := by
  induction events generalizing jobs t with
  | nil => exact hinit
  | cons event events ih =>
    have hedit' := fun e he => hedit e (List.mem_cons_of_mem event he)
    cases event with
    | edit e => exact ih (hedit e List.mem_cons_self jobs t hinit) hedit'
    | step n =>
      simp only [run]
      cases hjob : jobs[n]? with
      | none => exact ih hinit hedit'
      | some job => exact ih (hstep jobs t n job hinit hjob) hedit'

theorem job_invariant {P : Nat → σ → Prop} {events : List Event} {jobs : List σ} {t : FileTree}
    (hinit : ∀ n job, jobs[n]? = some job → P n job)
    (hstep : ∀ n job t, P n job → P n (step job t).1) :
    ∀ n job, (run step events (jobs, t)).1[n]? = some job → P n job := by
  refine run_invariant (I := fun jobs _ => ∀ n job, jobs[n]? = some job → P n job) hinit
    (fun _ _ _ _ h => h) fun jobs t n job hjobs hjob k other hother => ?_
  rw [List.getElem?_set] at hother
  split at hother
  · rename_i hk
    subst hk
    split at hother
    · obtain rfl := Option.some.inj hother
      exact hstep n job t (hjobs n job hjob)
    · exact nomatch hother
  · exact hjobs k other hother

theorem run_fixed {events : List Event} {jobs : List σ} {t : FileTree} {n : Nat} {job : σ}
    (hfixed : ∀ t, (step job t).1 = job) (hjob : jobs[n]? = some job) :
    (run step events (jobs, t)).1[n]? = some job := by
  have hlt : n < (run step events (jobs, t)).1.length := by
    rw [length_run]
    exact (List.getElem?_eq_some_iff.1 hjob).1
  have hlast := List.getElem?_eq_getElem hlt
  rw [hlast]
  refine congrArg some (job_invariant (P := fun k other => k = n → other = job)
    (fun k other hother hk => ?_) (fun k other t hother hk => ?_) n _ hlast rfl)
  · rw [hk, hjob] at hother
    exact (Option.some.inj hother).symm
  · rw [hother hk, hfixed]

theorem exists_step {events : List Event} {jobs : List σ} {t : FileTree} {n : Nat} {job job' : σ}
    (hjob : jobs[n]? = some job) (hne : job ≠ job')
    (hjob' : (run step events (jobs, t)).1[n]? = some job') :
    ∃ before after last, events = before ++ .step n :: after ∧
      (run step before (jobs, t)).1[n]? = some last ∧ last ≠ job' ∧
      (step last (run step before (jobs, t)).2).1 = job' := by
  induction events generalizing jobs t job with
  | nil =>
    rw [run] at hjob'
    exact absurd (Option.some.inj (hjob.symm.trans hjob')) hne
  | cons event events ih =>
    have hlater : ∀ jobs' t', run step [event] (jobs, t) = (jobs', t') → ∀ next,
        jobs'[n]? = some next → next ≠ job' →
        ∃ before after last, event :: events = before ++ .step n :: after ∧
          (run step before (jobs, t)).1[n]? = some last ∧ last ≠ job' ∧
          (step last (run step before (jobs, t)).2).1 = job' := by
      intro jobs' t' hrun next hnext hother
      rw [← List.singleton_append, run_append, hrun] at hjob'
      obtain ⟨before, after, last, rfl, hlast⟩ := ih hnext hother hjob'
      refine ⟨event :: before, after, last, rfl, ?_⟩
      rw [← List.singleton_append, run_append, hrun]
      exact hlast
    cases event with
    | edit e => exact hlater jobs (e.apply t) rfl job hjob hne
    | step k =>
      cases hk : jobs[k]? with
      | none => exact hlater jobs t (by simp only [run, hk]) job hjob hne
      | some other =>
        by_cases hkn : k = n
        · subst hkn
          obtain rfl := Option.some.inj (hk.symm.trans hjob)
          by_cases hnow : (step other t).1 = job'
          · exact ⟨[], events, other, rfl, hjob, hne, hnow⟩
          · have hlength := (List.getElem?_eq_some_iff.1 hjob).1
            exact hlater _ _ (run_step hk) _ (by rw [List.getElem?_set_self hlength]) hnow
        · exact hlater _ _ (run_step hk) job (by rw [List.getElem?_set_ne hkn, hjob]) hne

/-! Enough steps -/

theorem rank_run {rank : σ → Nat} (hrank : ∀ job t, rank (step job t).1 ≤ rank job - 1)
    {events : List Event} {jobs : List σ} {t : FileTree} {n : Nat} {job job' : σ}
    (hjob : jobs[n]? = some job) (hjob' : (run step events (jobs, t)).1[n]? = some job') :
    rank job' ≤ rank job - events.count (.step n) := by
  induction events generalizing jobs t job with
  | nil =>
    rw [run] at hjob'
    obtain rfl := Option.some.inj (hjob.symm.trans hjob')
    exact Nat.le_refl _
  | cons event events ih =>
    cases event with
    | edit e =>
      rw [List.count_cons_of_ne (by simp)]
      exact ih hjob hjob'
    | step k =>
      simp only [run] at hjob'
      by_cases hkn : k = n
      · subst hkn
        simp only [hjob] at hjob'
        have hlength := (List.getElem?_eq_some_iff.1 hjob).1
        have hlater := ih (List.getElem?_set_self hlength) hjob'
        have := hrank job t
        rw [List.count_cons_self]
        omega
      · rw [List.count_cons_of_ne (by simpa using hkn)]
        cases hk : jobs[k]? with
        | none =>
          simp only [hk] at hjob'
          exact ih hjob hjob'
        | some other =>
          simp only [hk] at hjob'
          exact ih ((List.getElem?_set_ne hkn).trans hjob) hjob'

theorem count_inOrder (steps jobs n : Nat) :
    (inOrder steps jobs).count (.step n) = if n < jobs then steps else 0 := by
  induction jobs with
  | zero => rfl
  | succ jobs ih =>
    have hsucc : inOrder steps (jobs + 1) =
        inOrder steps jobs ++ List.replicate steps (.step jobs) := by
      simp [inOrder, List.range_succ]
    rw [hsucc, List.count_append, ih, List.count_replicate]
    rcases Nat.lt_trichotomy n jobs with h | rfl | h
    · simp [h, Nat.lt_succ_of_lt h, Nat.ne_of_gt h]
    · simp
    · simp [Nat.not_lt.2 (Nat.le_of_lt h), Nat.not_lt.2 (Nat.succ_le_of_lt h), Nat.ne_of_lt h]

theorem rank_run_inOrder {rank : σ → Nat} {steps : Nat}
    (hrank : ∀ job t, rank (step job t).1 ≤ rank job - 1) {jobs : List σ}
    (hjobs : ∀ job ∈ jobs, rank job ≤ steps) {events : List Event} {t : FileTree} {job : σ}
    (hjob : job ∈ (run step (events ++ inOrder steps jobs.length) (jobs, t)).1) :
    rank job = 0 := by
  obtain ⟨n, hn⟩ := List.getElem?_of_mem hjob
  have hlt : n < jobs.length := by
    rw [← length_run step (events ++ inOrder steps jobs.length) jobs t]
    exact (List.getElem?_eq_some_iff.1 hn).1
  have hle := rank_run hrank (List.getElem?_eq_getElem hlt) hn
  have := hjobs _ (List.getElem_mem hlt)
  rw [List.count_append, count_inOrder, if_pos hlt] at hle
  omega

theorem eq_map_filterMap {β : Type} {result? : σ → Option β} {done : β → σ}
    (hdone : ∀ r, result? (done r) = some r) {jobs : List σ}
    (h : ∀ job ∈ jobs, ∃ r, job = done r) : jobs = (jobs.filterMap result?).map done := by
  induction jobs with
  | nil => rfl
  | cons job jobs ih =>
    obtain ⟨r, rfl⟩ := h job List.mem_cons_self
    rw [List.filterMap_cons_some (hdone r), List.map_cons,
      ← ih fun job hjob => h job (List.mem_cons_of_mem _ hjob)]

theorem eq_map {α : Type} {f : α → σ} {as : List α} {jobs : List σ}
    (hlength : jobs.length = as.length)
    (h : ∀ (n : Nat) job, jobs[n]? = some job → ∃ a, as[n]? = some a ∧ job = f a) :
    jobs = as.map f := by
  refine List.ext_getElem? fun n => ?_
  rw [List.getElem?_map]
  cases hjob : jobs[n]? with
  | none =>
    rw [List.getElem?_eq_none_iff, hlength] at hjob
    rw [List.getElem?_eq_none_iff.2 hjob]
    rfl
  | some job =>
    obtain ⟨a, ha, rfl⟩ := h n job hjob
    rw [ha]
    rfl

end Work

namespace ReadJob

def rank : ReadJob → Nat
  | waiting _ => 1
  | done _ => 0

theorem rank_step (job : ReadJob) (t : FileTree) : rank (step job t).1 ≤ rank job - 1 := by
  cases job <;> exact Nat.le_refl 0

theorem exists_done {job : ReadJob} (h : rank job = 0) : ∃ r, job = done r := by
  cases job with
  | waiting path => exact nomatch h
  | done r => exact ⟨r, rfl⟩

@[simp] theorem result?_done (r : ReadResult) : result? (done r) = some r := rfl

theorem step_tree (job : ReadJob) (t : FileTree) : (step job t).2 = t := by
  cases job <;> rfl

end ReadJob

namespace WriteJob

def rank : WriteJob → Nat
  | waiting _ => 2
  | planned _ _ => 1
  | done _ => 0

theorem exists_done {job : WriteJob} (h : rank job = 0) : ∃ r, job = done r := by
  cases job with
  | waiting plan => exact nomatch h
  | planned path w => exact nomatch h
  | done r => exact ⟨r, rfl⟩

@[simp] theorem result?_done (r : WriteResult) : result? (done r) = some r := rfl

variable {faults : Faults} {defaultType : String} {t : FileTree}

theorem step_waiting (p : FilePlan) : step faults defaultType (waiting p) t =
    (match FileWrite.plan t p.file p.declarations p.failed defaultType with
      | .ok w => planned p.file.path w
      | .error e => done (p.file.path, .error (.io e)), t) := by
  unfold step
  dsimp only
  cases FileWrite.plan t p.file p.declarations p.failed defaultType <;> rfl

theorem step_planned (path : String) (w : FileWrite) :
    step faults defaultType (planned path (some w)) t =
      (done (path, ((FileWrite.perform (faults w.path) w).run t).1.map fun outcome =>
        some (w.path, outcome)), ((FileWrite.perform (faults w.path) w).run t).2) := by
  unfold step perform
  dsimp only
  split <;> rename_i hrun <;> rw [hrun] <;> rfl

theorem rank_step (faults : Faults) (defaultType : String) (job : WriteJob) (t : FileTree) :
    rank (step faults defaultType job t).1 ≤ rank job - 1 := by
  cases job with
  | waiting p =>
    rw [step_waiting]
    split <;> simp [rank]
  | planned path w =>
    cases w with
    | none => exact Nat.le_refl 0
    | some w =>
      rw [step_planned]
      exact Nat.le_refl 0
  | done r => exact Nat.le_refl 0

theorem step_tree {job : WriteJob} (h : ∀ path w, job ≠ planned path (some w)) :
    (step faults defaultType job t).2 = t := by
  cases job with
  | waiting p => rw [step_waiting]
  | planned path w =>
    cases w with
    | none => rfl
    | some w => exact absurd rfl (h path w)
  | done r => rfl

end WriteJob
end RowTypes
