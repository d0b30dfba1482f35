import RowTypes.FileWrite
import RowTypes.Generation.Report
import RowTypes.Source.Load

/-! What came of each file and each query, and the report on all of them. -/

namespace RowTypes

abbrev ReadResult := String × Except ExtractError SourceFile

namespace ReadResult

def source? (r : ReadResult) : Option SourceFile := r.2.toOption

def failure? (r : ReadResult) : Option FileFailure :=
  match r.2 with
  | .ok _ => none
  | .error e => some ⟨r.1, e.message⟩

end ReadResult

abbrev QueryResult := QueryRecord × Except String QueryTypes

namespace QueryResult

def described? (r : QueryResult) : Option DescribedQuery :=
  match r.2 with
  | .ok types => some ⟨r.1, types⟩
  | .error _ => none

def failure? (r : QueryResult) : Option QueryFailure :=
  match r.2 with
  | .ok _ => none
  | .error e => some ⟨r.1.file, r.1.line, r.1.sql, e⟩

def failed? (r : QueryResult) : Option QueryRecord :=
  match r.2 with
  | .ok _ => none
  | .error _ => some r.1

end QueryResult

/-- What came of the writing of a file: nothing if there was nothing to write. -/
abbrev WriteResult := String × Except WriteError (Option (String × WriteOutcome))

namespace WriteResult

def changed? (r : WriteResult) : Option String :=
  match r.2 with
  | .ok (some (path, .written)) => some path
  | _ => none

def isUnchanged (r : WriteResult) : Bool :=
  match r.2 with
  | .ok none => true
  | .ok (some (_, .unchanged)) => true
  | _ => false

def failure? (r : WriteResult) : Option FileFailure :=
  match r.2 with
  | .ok _ => none
  | .error e => some ⟨r.1, e.message⟩

end WriteResult

def Report.ofResults (readings : List ReadResult) (results : List QueryResult)
    (written : List WriteResult) : Report where
  filesScanned := readings.length
  filesChanged := (written.filterMap WriteResult.changed?).length
  filesUnchanged := (written.filter WriteResult.isUnchanged).length
  queriesFound := ((readings.filterMap ReadResult.source?).flatMap SourceFile.queries).length
  queriesGenerated := (results.filterMap QueryResult.described?).length
  changed := written.filterMap WriteResult.changed?
  queryFailures := results.filterMap QueryResult.failure?
  fileFailures := readings.filterMap ReadResult.failure? ++ written.filterMap WriteResult.failure?

end RowTypes
