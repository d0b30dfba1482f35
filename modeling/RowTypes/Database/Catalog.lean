import RowTypes.Keyed

/-! The columns and types of a database, as its catalog lists them. What is listed
again takes the place of what was listed before. -/

namespace RowTypes

abbrev Oid := Nat

structure ColumnInfo where
  schema : String
  table : String
  column : String
  type : Oid
  notNull : Bool
deriving DecidableEq, Repr

def ColumnInfo.qualifiedName (c : ColumnInfo) : String :=
  c.schema ++ "." ++ c.table ++ "." ++ c.column

inductive TypeKind where
  | base
  | composite
  | domain
  | enumeration
  | pseudo
  | range
  | multirange
deriving DecidableEq, Repr

def TypeKind.ofLetter : String → TypeKind
  | "c" => composite
  | "d" => domain
  | "e" => enumeration
  | "p" => pseudo
  | "r" => range
  | "m" => multirange
  | _ => base

structure TypeInfo where
  oid : Oid
  name : String
  regtype : String
  kind : TypeKind
  /-- Of an array. -/
  element : Option Oid
  /-- Of a domain. -/
  base : Option Oid
  labels : List String
deriving DecidableEq, Repr

structure ColumnKey where
  table : Oid
  number : Int
deriving DecidableEq, Repr

structure Catalog where
  columns : List (ColumnKey × ColumnInfo)
  types : List (Oid × TypeInfo)
deriving DecidableEq, Repr

namespace Catalog

def empty : Catalog := ⟨[], []⟩

def insertColumn (c : Catalog) (key : ColumnKey) (info : ColumnInfo) : Catalog :=
  { c with columns := Keyed.put key info c.columns }

def insertType (c : Catalog) (info : TypeInfo) : Catalog :=
  { c with types := Keyed.put info.oid info c.types }

def column? (c : Catalog) (key : ColumnKey) : Option ColumnInfo := c.columns.lookup key

def type? (c : Catalog) (oid : Oid) : Option TypeInfo := c.types.lookup oid

def splitName (table : String) : Option String × String :=
  let cs := table.toList
  match cs.dropWhile (· ≠ '.') with
  | [] => (none, table)
  | _ :: name => (some (String.ofList (cs.takeWhile (· ≠ '.'))), String.ofList name)

def fits (schema : Option String) (name : String) (info : ColumnInfo) : Bool :=
  info.table = name && schema.all (info.schema = ·)

/-- The columns of the table with this name in their order. A name that fits more than
one table has none. -/
def tableColumns (c : Catalog) (table : String) : List ColumnInfo :=
  let (schema, name) := splitName table
  let found := c.columns.filter fun e => fits schema name e.2
  let oids := found.map fun e => e.1.table
  if oids.any fun oid => oids.head? ≠ some oid then []
  else (found.mergeSort fun a b => decide (a.1.number ≤ b.1.number)).map Prod.snd

end Catalog
end RowTypes
