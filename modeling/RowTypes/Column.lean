import RowTypes.HostType

/-! What is known of a query once its types are found. -/

namespace RowTypes

structure Column where
  name : String
  notNull : Bool
  typeName : String
  /-- The name of the type as it is written in SQL. -/
  regtype : String
  hostType : HostType
  /-- The column of a table whose values these are, as `schema.table.column`. -/
  source : Option String
deriving DecidableEq, Repr

structure Param where
  regtype : String
  hostType : HostType
deriving DecidableEq, Repr

structure QueryTypes where
  columns : List Column
  params : List Param
  /-- The tables that the query reads, in the order in which they were met. -/
  tables : List String
  warnings : List String
deriving DecidableEq, Repr

end RowTypes
