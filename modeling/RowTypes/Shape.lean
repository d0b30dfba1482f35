import RowTypes.Column
import RowTypes.Source.Query
import RowTypes.Text.CamelCase

/-! Queries whose rows have the same shape share a declaration. A declaration is
named after the tables and columns of its first query; where that name is taken,
the line of the query is added, so that names move only when this query moves. -/

namespace RowTypes

structure DescribedQuery where
  record : QueryRecord
  types : QueryTypes
deriving DecidableEq, Repr

structure ShapeColumn where
  name : String
  notNull : Bool
  hostType : HostType
deriving DecidableEq, Repr

abbrev Shape := List ShapeColumn

def Column.shape (c : Column) : ShapeColumn := ⟨c.name, c.notNull, c.hostType⟩

def DescribedQuery.shape (q : DescribedQuery) : Shape := q.types.columns.map Column.shape

structure Declaration where
  name : String
  shape : Shape
  /-- The columns of the first query, for the documentation. -/
  columns : List Column
  params : List Param
  queries : List QueryRecord
deriving DecidableEq, Repr

def isIdentifierStart (c : Char) : Bool := c.isAlpha || c = '_' || c = '$'

def isIdentifierPart (c : Char) : Bool := c.isAlphanum || c = '_' || c = '$'

def isIdentifier (name : String) : Bool :=
  match name.toList with
  | [] => false
  | c :: cs => isIdentifierStart c && cs.all isIdentifierPart

namespace DescribedQuery

def fileName? (record : QueryRecord) : Option String := do
  let name := Text.upperCamel (← Path.stem? record.file)
  if name = "" then none else some name

/-- The name of a query of a `.sql` file is that of the file. Any other is named
after its tables, and where no column comes from a table also after its columns;
without tables the columns are the name. -/
def baseName (q : DescribedQuery) : String :=
  let fromFile := if q.record.kind = .sqlFile then fileName? q.record else none
  let names := (q.types.columns.map Column.name).filter isIdentifier
  match fromFile with
  | some name => name
  | none =>
    if q.types.tables ≠ [] then
      let tables := String.intercalate "_" (q.types.tables.map Text.upperCamel)
      if q.types.columns.any (·.source.isSome) ∨ names = [] then tables
      else tables ++ "_" ++ String.intercalate "_" names
    else if names = [] then "Column"
    else String.intercalate "_" (names.map Text.upperCamel)

end DescribedQuery

namespace Declaration

def ofQuery (q : DescribedQuery) : Declaration :=
  ⟨q.baseName, q.shape, q.types.columns, q.types.params, [q.record]⟩

def add (q : DescribedQuery) : List Declaration → List Declaration
  | [] => [ofQuery q]
  | d :: ds =>
    if d.shape = q.shape then { d with queries := d.queries ++ [q.record] } :: ds
    else d :: add q ds

/-- The declarations of the shapes of `qs`, under names that may still collide. -/
def collect (qs : List DescribedQuery) : List Declaration :=
  qs.foldl (fun ds q => add q ds) []

/-- The first of `base`, `base_line`, `base_line_2`, `base_line_3` and so on that
is not taken. -/
def freeName (base : String) (line : Nat) (taken : List String) : String :=
  let onLine := base ++ "_" ++ toString line
  let numbered := (List.range taken.length).map fun n => onLine ++ "_" ++ toString (n + 2)
  ((base :: onLine :: numbered).find? (· ∉ taken)).getD onLine

def line (d : Declaration) : Nat := (d.queries.head?.map QueryRecord.line).getD 0

def rename (taken : List String) : List Declaration → List Declaration
  | [] => []
  | d :: ds =>
    let name := freeName d.name d.line taken
    { d with name } :: rename (name :: taken) ds

def group (qs : List DescribedQuery) : List Declaration := rename [] (collect qs)

end Declaration
end RowTypes
