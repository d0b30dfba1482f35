/-! The TypeScript types that decoded database values have at run time, and their
text in a declaration. -/

namespace RowTypes

inductive HostType where
  | number
  | string
  | boolean
  | bigint
  | date
  | json
  | buffer
  | array (element : HostType)
  /-- The labels of an enum. -/
  | union (labels : List String)
  /-- The text of a configured type. -/
  | custom (text : String)
  | unknown
deriving DecidableEq, Repr, Inhabited

def escapeLiteral : List Char → List Char
  | [] => []
  | c :: cs => if c = '\\' ∨ c = '\'' then '\\' :: c :: escapeLiteral cs else c :: escapeLiteral cs

@[simp] theorem escapeLiteral_append (a b : List Char) :
    escapeLiteral (a ++ b) = escapeLiteral a ++ escapeLiteral b := by
  induction a with
  | nil => rfl
  | cons c cs ih =>
    simp only [List.cons_append, escapeLiteral]
    split <;> simp [ih]

def quoteLiteral (s : String) : String := "'" ++ String.ofList (escapeLiteral s.toList) ++ "'"

theorem toList_quoteLiteral (s : String) :
    (quoteLiteral s).toList = '\'' :: (escapeLiteral s.toList ++ ['\'']) := by
  simp [quoteLiteral]

namespace HostType

def isUnknown : HostType → Bool
  | unknown => true
  | array element => element.isUnknown
  | _ => false

def isEnclosed : HostType → Bool
  | union _ | custom _ => true
  | _ => false

/-- `defaultType` stands for every part that could not be determined. -/
def render (defaultType : String) : HostType → String
  | number => "number"
  | string => "string"
  | boolean => "boolean"
  | bigint => "bigint"
  | date => "Date"
  | json => "unknown"
  | buffer => "Buffer"
  | array element =>
    if element.isEnclosed then "Array<" ++ element.render defaultType ++ ">"
    else element.render defaultType ++ "[]"
  | union [] => "never"
  | union labels => String.intercalate " | " (labels.map quoteLiteral)
  | custom text => text
  | unknown => defaultType

def numberNames : List String :=
  ["int2", "int4", "float4", "float8", "oid", "xid", "cid", "regproc", "regclass", "regtype"]

def stringNames : List String :=
  ["text", "varchar", "bpchar", "char", "name", "uuid", "citext", "money", "bit", "varbit", "inet",
    "cidr", "macaddr", "macaddr8", "time", "timetz", "xml", "tsvector", "tsquery", "unknown"]

/-- The type of the values of a database type whose decoding cannot be configured. -/
def ofTypeName? (name : String) : Option HostType :=
  if name = "bool" then some boolean
  else if name ∈ numberNames then some number
  else if name ∈ stringNames then some string
  else if name = "json" ∨ name = "jsonb" then some json
  else if name = "bytea" then some buffer
  else none

end HostType
end RowTypes
