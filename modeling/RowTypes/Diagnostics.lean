/-! What a run tells its user, in the order in which it is told: warnings, after which
the run goes on as it is, and errors, after which a file or a query is left out. -/

namespace RowTypes

structure Diagnostics where
  warnings : List String
  errors : List String
deriving DecidableEq, Repr

namespace Diagnostics

def empty : Diagnostics := ⟨[], []⟩

def warn (d : Diagnostics) (text : String) : Diagnostics :=
  { d with warnings := d.warnings ++ [text] }

def error (d : Diagnostics) (text : String) : Diagnostics :=
  { d with errors := d.errors ++ [text] }

end Diagnostics
end RowTypes
