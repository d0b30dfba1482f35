import RowTypes.Generation.Result

/-! The work on the files of a run, in steps that may be taken in any order and between
which other programs may change the tree. However the steps are ordered, each file's
own steps come one after the other. -/

namespace RowTypes

inductive Edit where
  | put (path text : String)
  | remove (path : String)
deriving DecidableEq, Repr

def Edit.apply (t : FileTree) : Edit → FileTree
  | put path text => (t.put path (.text text)).toOption.getD t
  | remove path => (t.remove path).toOption.getD t

namespace Work

inductive Event where
  /-- The next step of the job with this number. -/
  | step (job : Nat)
  | edit (e : Edit)
deriving DecidableEq, Repr

/-- Takes the events in turn. A step turns a job and the tree into what they are after
it. -/
def run {σ : Type} (step : σ → FileTree → σ × FileTree) :
    List Event → List σ × FileTree → List σ × FileTree
  | [], state => state
  | .edit e :: events, (jobs, t) => run step events (jobs, e.apply t)
  | .step n :: events, (jobs, t) =>
    match jobs[n]? with
    | none => run step events (jobs, t)
    | some job =>
      let (job, t) := step job t
      run step events (jobs.set n job, t)

def inOrder (steps jobs : Nat) : List Event :=
  (List.range jobs).flatMap fun n => List.replicate steps (.step n)

theorem length_run {σ : Type} (step : σ → FileTree → σ × FileTree) (events : List Event)
    (jobs : List σ) (t : FileTree) : (run step events (jobs, t)).1.length = jobs.length := by
  induction events generalizing jobs t with
  | nil => rfl
  | cons event events ih =>
    cases event with
    | edit e => exact ih jobs (e.apply t)
    | step n =>
      simp only [run]
      cases jobs[n]? with
      | none => exact ih jobs t
      | some job => simp only [ih, List.length_set]

end Work

inductive ReadJob where
  | waiting (path : String)
  | done (result : ReadResult)

namespace ReadJob

def step (j : ReadJob) (t : FileTree) : ReadJob × FileTree :=
  match j with
  | waiting path => (done (path, SourceFile.load t path), t)
  | done r => (done r, t)

def result? : ReadJob → Option ReadResult
  | waiting _ => none
  | done r => some r

end ReadJob

/-- What becomes of a file: the declarations of its queries, and the queries that have
none because they failed. -/
structure FilePlan where
  file : SourceFile
  declarations : List Declaration
  failed : List QueryRecord
deriving DecidableEq, Repr

inductive WriteJob where
  | waiting (plan : FilePlan)
  /-- What is to be written for the file with a path, if anything is. -/
  | planned (path : String) (w : Option FileWrite)
  | done (result : WriteResult)

namespace WriteJob

abbrev Faults := String → FileWrite.Faults

def perform (faults : Faults) (path : String) (w : FileWrite) (t : FileTree) :
    WriteJob × FileTree :=
  match (FileWrite.perform (faults w.path) w).run t with
  | (.ok outcome, t) => (done (path, .ok (some (w.path, outcome))), t)
  | (.error e, t) => (done (path, .error e), t)

def step (faults : Faults) (defaultType : String) (j : WriteJob) (t : FileTree) :
    WriteJob × FileTree :=
  match j with
  | waiting p =>
    match FileWrite.plan t p.file p.declarations p.failed defaultType with
    | .ok w => (planned p.file.path w, t)
    | .error e => (done (p.file.path, .error (.io e)), t)
  | planned path none => (done (path, .ok none), t)
  | planned path (some w) => perform faults path w t
  | done r => (done r, t)

def result? : WriteJob → Option WriteResult
  | done r => some r
  | _ => none

end WriteJob
end RowTypes
