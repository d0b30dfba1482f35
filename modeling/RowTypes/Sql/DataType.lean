import RowTypes.Sql.Parse

/-! Names of data types. Only three kinds have to be told apart: a constant may
follow the name of a built-in type, an interval constant has a syntax of its
own, and any other name may be that of a type someone has created. -/

namespace RowTypes.Sql

inductive DataType where
  | builtin
  | interval
  | created
deriving DecidableEq, Repr

namespace DataType
open Parse

def plainNames : List String :=
  ["BOOLEAN", "BOOL", "REAL", "FLOAT4", "FLOAT32", "FLOAT64", "FLOAT8", "INT16", "INT32", "INT64",
    "INT128", "INT256", "UINT8", "UINT16", "UINT32", "UINT64", "UINT128", "UINT256", "TINYBLOB",
    "MEDIUMBLOB", "LONGBLOB", "UUID", "DATE", "DATE32", "TIMESTAMP_NTZ", "JSON", "JSONB",
    "REGCLASS", "TEXT", "TINYTEXT", "MEDIUMTEXT", "LONGTEXT", "BYTEA", "TRIGGER", "POINT", "LINE",
    "LSEG", "BOX", "PATH", "POLYGON", "CIRCLE"]

def sizedNames : List String :=
  ["FLOAT", "CLOB", "BINARY", "VARBINARY", "BLOB", "BYTES", "VARBIT", "DATETIME", "TIMESTAMPTZ",
    "TIMETZ", "STRING"]

def integerNames : List String :=
  ["TINYINT", "INT2", "SMALLINT", "MEDIUMINT", "INT", "INT4", "INT8", "INTEGER", "BIGINT"]

def exactNames : List String := ["NUMERIC", "DECIMAL", "DEC", "BIGNUMERIC", "BIGDECIMAL"]

def optionalPrecision : Parse Unit := do
  if ← symbol "(" then
    wholeNumber
    expectSymbol ")"

def optionalPrecisionScale : Parse Unit := do
  if ← symbol "(" then
    wholeNumber
    if ← symbol "," then wholeNumber
    expectSymbol ")"

def optionalLength : Parse Unit := do
  if ← symbol "(" then
    unless ← keyword "MAX" do
      wholeNumber
      skipOneOf ["CHARACTERS", "OCTETS"]
    expectSymbol ")"

def optionalZone : Parse Unit := do
  if ← keyword "WITH" then expectKeywords ["TIME", "ZONE"]
  else if ← keyword "WITHOUT" then expectKeywords ["TIME", "ZONE"]

def modifier : Parse (Option Unit) := do
  match ← next with
  | .word .. | .number _ | .string _ | .symbol "," => return some ()
  | .symbol ")" => return none
  | _ => fail

def labels : Parse Unit := do
  discard <| parenthesized <| commaSeparated do
    match ← next with
    | .string _ => return ()
    | _ => fail

def createdType : Parse DataType := do
  discard objectName
  if ← symbol "(" then discard (many modifier)
  return .created

def named (key : String) : Parse DataType := do
  if key ∈ plainNames then return .builtin
  else if key ∈ sizedNames then
    optionalPrecision
    return .builtin
  else if key ∈ integerNames then
    optionalPrecision
    skipKeyword "UNSIGNED"
    return .builtin
  else if key ∈ exactNames then
    optionalPrecisionScale
    return .builtin
  else
    match key with
    | "DOUBLE" =>
      unless ← keyword "PRECISION" do optionalPrecisionScale
      return .builtin
    | "VARCHAR" | "NVARCHAR" =>
      optionalLength
      return .builtin
    | "CHARACTER" | "CHAR" =>
      if ← keyword "VARYING" then optionalLength
      else if ← keywords ["LARGE", "OBJECT"] then optionalPrecision
      else optionalLength
      return .builtin
    | "BIT" =>
      skipKeyword "VARYING"
      optionalPrecision
      return .builtin
    | "TIMESTAMP" | "TIME" =>
      optionalPrecision
      optionalZone
      return .builtin
    | "INTERVAL" => return .interval
    | "ENUM" | "ENUM8" | "ENUM16" | "SET" =>
      labels
      return .builtin
    | "SIGNED" | "UNSIGNED" =>
      skipKeyword "INTEGER"
      return .builtin
    | _ => fail

def names : List String :=
  plainNames ++ sizedNames ++ integerNames ++ exactNames ++
    ["DOUBLE", "VARCHAR", "NVARCHAR", "CHARACTER", "CHAR", "BIT", "TIMESTAMP", "TIME", "INTERVAL",
      "ENUM", "ENUM8", "ENUM16", "SET", "SIGNED", "UNSIGNED"]

def scalar : Parse DataType := do
  match ← peek with
  | some (.word _ key) =>
    if key ∈ names then
      discard next
      named key
    else createdType
  | _ => fail

def read : Parse DataType := do
  let element ← scalar
  let dimensions ← many do
    if ← symbol "[" then
      discard (attempt wholeNumber)
      expectSymbol "]"
      return some ()
    else return none
  return if dimensions = [] then element else .builtin

end DataType
end RowTypes.Sql
