/-! What a run has done. A file or a query that failed was left out, and the run went
on. -/

namespace RowTypes

structure QueryFailure where
  file : String
  line : Nat
  sql : String
  error : String
deriving DecidableEq, Repr

structure FileFailure where
  file : String
  error : String
deriving DecidableEq, Repr

structure Report where
  filesScanned : Nat
  filesChanged : Nat
  filesUnchanged : Nat
  queriesFound : Nat
  queriesGenerated : Nat
  changed : List String
  queryFailures : List QueryFailure
  fileFailures : List FileFailure
deriving DecidableEq, Repr

namespace Report

def hasFailures (r : Report) : Bool := !r.queryFailures.isEmpty || !r.fileFailures.isEmpty

def summary (r : Report) : String :=
  "Scanned " ++ toString r.filesScanned ++ " files: " ++ toString r.filesChanged ++ " changed, " ++
    toString r.filesUnchanged ++ " unchanged, " ++ toString r.fileFailures.length ++ " failed. " ++
    toString r.queriesGenerated ++ " of " ++ toString r.queriesFound ++ " queries generated, " ++
    toString r.queryFailures.length ++ " failed."

end Report
end RowTypes
