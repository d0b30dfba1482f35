import RowTypes.Database.Catalog

/-! What the server says of a statement that it has prepared, and why it may say
nothing. -/

namespace RowTypes

structure ColumnDescription where
  name : String
  type : Oid
  /-- The table that the values come from, if the server knows of one. -/
  table : Option Oid
  number : Option Int
deriving DecidableEq, Repr

structure Description where
  columns : List ColumnDescription
  params : List Oid
deriving DecidableEq, Repr

inductive DescribeError where
  | cancelled
  | timeout
  | refused (message code : String) (hint : Option String)
deriving DecidableEq, Repr

def DescribeError.message : DescribeError → String
  | cancelled => "Describe was cancelled"
  | timeout => "Describe timed out"
  | refused message code hint =>
    let text := message ++ " (" ++ code ++ ")"
    match hint with
    | some hint => text ++ ". Hint: " ++ hint
    | none => text

end RowTypes
