import RowTypes.Column
import RowTypes.Database.Description
import RowTypes.Decode.SampleTypes
import RowTypes.Sql.Analysis

/-! The types of a described query. A column of a table is null or not as the catalog
says, unless an outer join can leave it empty or a condition keeps it from being null.
Any other column may be null unless it is a constant. -/

namespace RowTypes

inductive UnknownPolicy where
  /-- Its query fails. -/
  | strict
  /-- It gets the default type and a warning. -/
  | lenient
deriving DecidableEq, Repr

inductive InferenceError where
  | unknownOid (oid : Oid)
  | unknownType (column type : String)
deriving DecidableEq, Repr

def InferenceError.message : InferenceError → String
  | unknownOid oid => "Type with oid " ++ toString oid ++ " is not in the catalog"
  | unknownType column type =>
    "No TypeScript type could be determined for column " ++ column ++ " of type " ++ type

structure Inference where
  catalog : Catalog
  samples : SampleTypes
  /-- Texts for types, by the name of the type or the way it is written in SQL. -/
  overrides : List (String × String)
  policy : UnknownPolicy

namespace Inference

def maxLinks : Nat := 8

def override? (i : Inference) (t : TypeInfo) : Option String :=
  (i.overrides.lookup t.name).or (i.overrides.lookup t.regtype)

def base? (i : Inference) (t : TypeInfo) : Option TypeInfo :=
  if t.kind = .domain then t.base.bind i.catalog.type? else none

def element? (i : Inference) (t : TypeInfo) : Option TypeInfo :=
  if t.name.toList.head? = some '_' then t.element.bind i.catalog.type? else none

/-- The type of a database type that has no part to look at. -/
def plainType (i : Inference) (t : TypeInfo) : HostType :=
  (HostType.ofTypeName? t.name).getD ((i.samples.hostType? t.name).getD .unknown)

/-- The type of the values of a database type. An override counts before all else, and
behind the last link it is all that counts. -/
def typeWithin (i : Inference) : Nat → TypeInfo → HostType
  | 0, t =>
    match i.override? t with
    | some text => .custom text
    | none => .unknown
  | links + 1, t =>
    match i.override? t with
    | some text => .custom text
    | none =>
      if t.kind = .enumeration then .union t.labels
      else
        match i.base? t with
        | some base => typeWithin i links base
        | none =>
          match i.element? t with
          | some element => .array (typeWithin i links element)
          | none => i.plainType t

def typeOf (i : Inference) (t : TypeInfo) : HostType := i.typeWithin (maxLinks + 1) t

def typeOfOid (i : Inference) (oid : Oid) : HostType × String :=
  match i.catalog.type? oid with
  | some t => (i.typeOf t, t.regtype)
  | none => (.unknown, "oid " ++ toString oid)

def source? (i : Inference) (d : ColumnDescription) : Option ColumnInfo :=
  match d.table, d.number with
  | some table, some number => i.catalog.column? ⟨table, number⟩
  | _, _ => none

def isNotNull (a : Sql.Analysis) (source : Option ColumnInfo) (index count : Nat) : Bool :=
  if a.allNullable then false
  else
    match source with
    | some c => !a.isNullableTable c.table && (c.notNull || a.isRefined c.table c.column)
    | none => a.isConstant index count

def column (i : Inference) (a : Sql.Analysis) (count index : Nat) (d : ColumnDescription) :
    Column :=
  let (hostType, regtype) := i.typeOfOid d.type
  let source := i.source? d
  { name := d.name
    notNull := isNotNull a source index count
    typeName := ((i.catalog.type? d.type).map TypeInfo.name).getD ""
    regtype
    hostType
    source := source.map ColumnInfo.qualifiedName }

def columnsFrom (i : Inference) (a : Sql.Analysis) (count index : Nat) :
    List ColumnDescription → List Column
  | [] => []
  | d :: ds => i.column a count index d :: columnsFrom i a count (index + 1) ds

def firstUnknown? (i : Inference) : List ColumnDescription → Option InferenceError
  | [] => none
  | d :: ds =>
    let (hostType, regtype) := i.typeOfOid d.type
    if !hostType.isUnknown then firstUnknown? i ds
    else if (i.catalog.type? d.type).isNone then some (.unknownOid d.type)
    else some (.unknownType d.name regtype)

def warning (c : Column) : String :=
  "Column " ++ c.name ++ " of type " ++ c.regtype ++ " has no known TypeScript type"

def param (i : Inference) (oid : Oid) : Param :=
  let (hostType, regtype) := i.typeOfOid oid
  ⟨regtype, hostType⟩

def sourceTables (i : Inference) (ds : List ColumnDescription) : List String :=
  (ds.filterMap fun d => (i.source? d).map ColumnInfo.table).foldl
    (fun ts t => if t ∈ ts then ts else ts ++ [t]) []

def types (i : Inference) (sql : String) (d : Description) : QueryTypes :=
  let a := Sql.Analysis.ofText sql
  let columns := i.columnsFrom a d.columns.length 0 d.columns
  { columns
    params := d.params.map i.param
    tables := if a.tables = [] then i.sourceTables d.columns else a.tables
    warnings := (columns.filter (·.hostType.isUnknown)).map warning }

def infer (i : Inference) (sql : String) (d : Description) : Except InferenceError QueryTypes :=
  match i.policy, i.firstUnknown? d.columns with
  | .strict, some e => .error e
  | _, _ => .ok (i.types sql d)

end Inference
end RowTypes
