import RowTypes.Generation.Run

/-! A run in which tasks may panic. The files are found, read and written by tasks of their own.
A run with a task that has panicked ends without a report, but only when all tasks that were
begun together with this one have come to their end. -/

namespace RowTypes.Generation

inductive Stop where
  | error (e : RunError)
  | panic
deriving DecidableEq, Repr

def Stop.isFatal : Stop → Bool
  | error e => e.isFatal
  | panic => true

/-- The tasks that panic. A task for a single file has the path of the file. How far a task has
come in its work is left to the faults of its calls. -/
structure Panics where
  finding : Bool
  reading : String → Bool
  writing : String → Bool

def Panics.none : Panics := ⟨false, fun _ => false, fun _ => false⟩

abbrev Attempt := ExceptT Stop (StateM World)

def attempt {α : Type} (a : Action α) : Attempt α := ExceptT.adapt Stop.error a

def stopOn (panicked : Bool) : Attempt Unit := if panicked then throw .panic else return

def join {α : Type} (panics : String → Bool) (log : List (String × α) → Action Unit)
    (results : List (String × α)) : Attempt Unit := do
  let before := results.takeWhile fun r => !panics r.1
  attempt (log before)
  stopOn (before.length < results.length)

def readFilesWith (ps : Panics) (o : Options) (s : Surroundings) : Attempt (List ReadResult) := do
  let paths ← attempt (findFiles o)
  stopOn ps.finding
  let readings ← attempt (readAll s paths)
  join ps.reading warnOfSkipped readings
  return readings

def writeWith (ps : Panics) (o : Options) (s : Surroundings) (p : Prepared) : Attempt Report := do
  let written ← attempt (writeAll o s p.plans)
  join ps.writing reportUnwritten written
  attempt (checkClean o .after)
  return .ofResults p.readings p.results written

def prepareWith (ps : Panics) (o : Options) (s : Surroundings) : Attempt Prepared := do
  let readings ← readFilesWith ps o s
  attempt (describeFiles o s readings)

def generateWith (ps : Panics) (o : Options) (s : Surroundings) : Attempt Report := do
  let p ← prepareWith ps o s
  writeWith ps o s p

structure Ending where
  result : Except Stop Report
  world : World
  cancelled : Bool

def runWith (ps : Panics) (o : Options) (s : Surroundings) (w : World) : Ending :=
  let r := (generateWith ps o s).run w
  let isFatal := match r.1 with
    | .ok _ => false
    | .error stop => stop.isFatal
  ⟨r.1, r.2, s.isCancelled .connecting || s.isCancelled .described || isFatal⟩

end RowTypes.Generation
