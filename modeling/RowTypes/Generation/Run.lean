import RowTypes.Database.ConnectionString
import RowTypes.Database.Describing
import RowTypes.Diagnostics
import RowTypes.Discovery
import RowTypes.Generation.Error
import RowTypes.Generation.Work
import RowTypes.Options

/-! A run: the files below the root are read, the server describes their queries, the
declarations are written into the files or next to them, and a report says what came
of it. Whatever is wrong with one file or one query only leaves that out. Anything
else ends the run, and nothing is written unless all queries have had their answer. -/

namespace RowTypes

inductive Checkpoint where
  | connecting
  | describing (sql : String)
  | described
deriving DecidableEq, Repr

structure Surroundings where
  server : Server
  isCancelled : Checkpoint → Bool
  /-- The order of the steps of reading and writing, by the number of files. Steps that
  are left out are taken at the end. -/
  reading : Nat → List Work.Event
  writing : Nat → List Work.Event
  /-- The order in which texts are sent to the server and answered, by their number. -/
  describing : Nat → List Describing.Event
  faults : WriteJob.Faults

namespace Surroundings

def readingSteps (s : Surroundings) (files : Nat) : List Work.Event :=
  s.reading files ++ Work.inOrder 1 files

def writingSteps (s : Surroundings) (files : Nat) : List Work.Event :=
  s.writing files ++ Work.inOrder 2 files

def quiet (server : Server) (isCancelled : Bool) : Surroundings where
  server := server
  isCancelled _ := isCancelled
  reading _ := []
  writing _ := []
  describing _ := []
  faults _ := FileWrite.noFaults

end Surroundings

structure World where
  tree : FileTree
  git : Git
  diagnostics : Diagnostics
deriving DecidableEq, Repr

namespace Generation

abbrev Action := ExceptT RunError (StateM World)

def askGit {α : Type} (ask : FileTree → Git → Except GitError α × Git) : Action α := fun w =>
  match ask w.tree w.git with
  | (.ok a, git) => (.ok a, { w with git })
  | (.error e, git) => (.error (.git e), { w with git })

def checkClean (o : Options) (p : CleanPoint) : Action Unit :=
  if o.checksClean p then askGit fun t g => g.checkClean t o.rootDirectory p else return

def changedFiles (o : Options) : Action (Option (List String)) :=
  match o.since with
  | none => return none
  | some revision => some <$> askGit fun t g => g.changedSince t o.rootDirectory revision

def warn (texts : List String) : Action Unit :=
  modify fun w => { w with diagnostics := texts.foldl Diagnostics.warn w.diagnostics }

def error (texts : List String) : Action Unit :=
  modify fun w => { w with diagnostics := texts.foldl Diagnostics.error w.diagnostics }

def stopIf (cancelled : Bool) : Action Unit :=
  if cancelled then throw .cancelled else return

/-! Reading -/

def skipWarning (f : FileFailure) : String := "Skipping " ++ f.file ++ ": " ++ f.error

def readAll (s : Surroundings) (paths : List String) : Action (List ReadResult) := fun w =>
  let (jobs, tree) :=
    Work.run ReadJob.step (s.readingSteps paths.length) (paths.map .waiting, w.tree)
  (.ok (jobs.filterMap ReadJob.result?), { w with tree })

/-! Describing -/

def place (file : String) (line : Nat) : String := file ++ ":" ++ toString line ++ ": "

def queryWarnings (q : DescribedQuery) : List String :=
  q.types.warnings.map fun text => place q.record.file q.record.line ++ text

def queryErrorText (f : QueryFailure) : String :=
  place f.file f.line ++ f.error ++ "\n" ++ f.sql

def typesOf (i : Inference) (ds : Descriptions) (sql : String) : Except String QueryTypes :=
  match ds.lookup sql with
  | some (.ok d) => (i.infer sql d).mapError InferenceError.message
  | some (.error e) => .error e.message
  | none => .error RunError.cancelled.message

def queryResults (types : String → Except String QueryTypes) (file : SourceFile) :
    List QueryResult :=
  file.queries.map fun q => (q, types q.sql)

def filePlan (types : String → Except String QueryTypes) (file : SourceFile) : FilePlan :=
  let results := queryResults types file
  ⟨file, Declaration.group (results.filterMap QueryResult.described?),
    results.filterMap QueryResult.failed?⟩

def inference (o : Options) (catalog : Catalog) : Inference where
  catalog := catalog
  samples := SampleTypes.resolve o.typeParsers o.samples
  overrides := o.typeOverrides
  policy := o.unknownPolicy

def answer (s : Surroundings) (sql : String) : Except DescribeError Description :=
  if s.isCancelled (.describing sql) then .error .cancelled else s.server.describe sql

def describe (o : Options) (s : Surroundings) (texts : List String) :
    Action (String → Except String QueryTypes) := do
  stopIf (s.isCancelled .connecting)
  match s.server.connect o.database.connectionTimeout with
  | .error .timeout => throw .connectionTimeout
  | .error .failed => throw (.connection (ConnectionString.display o.database.connectionString))
  | .ok () =>
    match s.server.loadCatalog with
    | .error e => throw (.catalog e)
    | .ok catalog =>
      let ds := Describing.run (max 1 o.database.describeConcurrency) (answer s)
        (s.describing texts.length) texts
      stopIf (s.isCancelled .described)
      return typesOf (inference o catalog) ds

/-- The server is only asked if there is a query. -/
def typesFor (o : Options) (s : Surroundings) (texts : List String) :
    Action (String → Except String QueryTypes) :=
  if texts = [] then return fun _ => .error RunError.cancelled.message else describe o s texts

/-! Writing -/

def writeErrorText (f : FileFailure) : String := "Could not write " ++ f.file ++ ": " ++ f.error

def writeAll (o : Options) (s : Surroundings) (plans : List FilePlan) :
    Action (List WriteResult) := fun w =>
  let (jobs, tree) :=
    Work.run (WriteJob.step s.faults o.defaultType) (s.writingSteps plans.length)
      (plans.map .waiting, w.tree)
  (.ok (jobs.filterMap WriteJob.result?), { w with tree })

/-! The whole -/

def filter (o : Options) : Action FileFilter :=
  match FileFilter.ofPatterns o.included o.excluded with
  | .ok f => return f
  | .error e => throw (.config (.invalidGlob e))

structure Prepared where
  readings : List ReadResult
  types : String → Except String QueryTypes

namespace Prepared

def sources (p : Prepared) : List SourceFile := p.readings.filterMap ReadResult.source?

def results (p : Prepared) : List QueryResult := p.sources.flatMap (queryResults p.types)

/-- Files without queries are written too, so that a block that nothing needs any more
goes away. -/
def plans (p : Prepared) : List FilePlan := p.sources.map (filePlan p.types)

end Prepared

def sqlTexts (readings : List ReadResult) : List String :=
  ((readings.filterMap ReadResult.source?).flatMap SourceFile.queries).map QueryRecord.sql

def findFiles (o : Options) : Action (List String) := do
  checkClean o .before
  let wanted ← filter o
  let only ← changedFiles o
  return Discovery.discover (← get).tree o.rootDirectory wanted only

def warnOfSkipped (readings : List ReadResult) : Action Unit :=
  warn ((readings.filterMap ReadResult.failure?).map skipWarning)

def readFiles (o : Options) (s : Surroundings) : Action (List ReadResult) := do
  let paths ← findFiles o
  let readings ← readAll s paths
  warnOfSkipped readings
  return readings

def describeFiles (o : Options) (s : Surroundings) (readings : List ReadResult) :
    Action Prepared := do
  let types ← typesFor o s (sqlTexts readings)
  let p : Prepared := ⟨readings, types⟩
  warn ((p.results.filterMap QueryResult.described?).flatMap queryWarnings)
  error ((p.results.filterMap QueryResult.failure?).map queryErrorText)
  return p

def prepare (o : Options) (s : Surroundings) : Action Prepared := do
  let readings ← readFiles o s
  describeFiles o s readings

def reportUnwritten (written : List WriteResult) : Action Unit :=
  error ((written.filterMap WriteResult.failure?).map writeErrorText)

def write (o : Options) (s : Surroundings) (p : Prepared) : Action Report := do
  let written ← writeAll o s p.plans
  reportUnwritten written
  checkClean o .after
  return .ofResults p.readings p.results written

def generate (o : Options) (s : Surroundings) : Action Report := do
  let p ← prepare o s
  write o s p

structure Outcome where
  result : Except RunError Report
  world : World
  /-- Whether the run was cancelled, or has cancelled all that is still under way. -/
  cancelled : Bool

/-- The error that ended a run, if it was one that cancels all else. -/
def isFatal (result : Except RunError Report) : Bool :=
  match result with
  | .ok _ => false
  | .error e => e.isFatal

def run (o : Options) (s : Surroundings) (w : World) : Outcome :=
  let r := (generate o s).run w
  let wasCancelled := s.isCancelled .connecting || s.isCancelled .described
  ⟨r.1, r.2, wasCancelled || isFatal r.1⟩

theorem cancelled_of_isFatal (o : Options) (s : Surroundings) (w : World)
    (h : isFatal (run o s w).result = true) : (run o s w).cancelled = true := by
  simp only [run] at h
  simp [run, h]

end Generation
end RowTypes
