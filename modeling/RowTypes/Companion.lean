import RowTypes.Declaration

/-! The companion of a `.sql` file: a module beside it with the declaration of its
rows and two accessors, one that waits for the file and one that does not. All
that it imports is the type of a query object and the standard file readers. -/

namespace RowTypes.Companion

def directory : String := "__sql__"

/-- The companion of `dir/name.sql` is `dir/__sql__/name.sql.ts`. -/
def path? (sqlPath : String) : Option String := do
  let dir ← Path.parent? sqlPath
  let name ← Path.fileName? sqlPath
  return Path.join (Path.join dir directory) (name ++ ".ts")

def dropAllAtEnd (suffix cs : List Char) : List Char :=
  if suffix ≠ [] ∧ suffix.isSuffixOf cs then
    dropAllAtEnd suffix (cs.take (cs.length - suffix.length))
  else cs
termination_by cs.length
decreasing_by
  rename_i h
  obtain ⟨nonempty, atEnd⟩ := h
  have length_le := (List.isSuffixOf_iff_suffix.mp atEnd).length_le
  have := List.length_pos_iff.mpr nonempty
  simp only [List.length_take]
  omega

structure Access where
  kind : String
  mode : String
  arrow : String
  reader : String
  defaultReader : String
  call : String
  result : String
  sql : String

def Access.sync (name : String) : Access where
  kind := "Sync"
  mode := "synchronously"
  arrow := ""
  reader := "readFileSync"
  defaultReader := "defaultReadFileSync"
  call := "get" ++ name ++ "QuerySync()"
  result := "TaggedTemplateLiteralInvocationType<" ++ name ++ ">"
  sql := "readFileSync(sqlPath).toString()"

def Access.async (name : String) : Access where
  kind := "Async"
  mode := "asynchronously"
  arrow := "async "
  reader := "readFile"
  defaultReader := "defaultReadFileAsync"
  call := "await get" ++ name ++ "QueryAsync()"
  result := "Promise<TaggedTemplateLiteralInvocationType<" ++ name ++ ">>"
  sql := "(await readFile(sqlPath)).toString()"

def unlines (lines : List String) : String := String.join (lines.map (· ++ "\n"))

def cell (column : Column) : String :=
  if isIdentifier column.name then "r." ++ column.name
  else
    "r['" ++ String.ofList (replaceAll ['\''] ['\\', '\''] column.name.toList) ++ "']"

def numbered (ps : List Param) : List (Nat × Param) := (List.range' 1 ps.length).zip ps

def accessorDoc (d : Declaration) (fileName : String) (a : Access) : List String :=
  let query := (d.queries.head?.map fun q => queryDoc q.sql).getD ""
  let path := String.ofList (dropAllAtEnd ".sql".toList fileName.toList) ++ ".sql"
  let cells := String.intercalate ", " (d.columns.map cell)
  [ " * Helper which reads the file system " ++ a.mode ++ " to get a query object for ../" ++
      fileName ++ ".",
    " * (query: \x60" ++ query ++ "\x60)",
    " *",
    " * Uses \x60fs\x60 by default and caches the result so the disk is only accessed once. " ++
      "You can pass in a custom \x60" ++ a.reader ++
      "\x60 function for use-cases where disk access is not possible.",
    " *",
    " * @example",
    " * \x60\x60\x60",
    " * import \x7bcreatePool\x7d from 'slonik'",
    " * import \x7bget" ++ d.name ++ "Query" ++ a.kind ++ "\x7d from './path/to/" ++ path ++ "'",
    " *",
    " * async function () \x7b",
    " *   const pool = createPool('...connection string...')",
    " *",
    " *   const result = await pool.query(" ++ a.call ++ ")",
    " *",
    " *   return result.rows.map(r => [" ++ cells ++ "])",
    " * \x7d",
    " * \x60\x60\x60"]

def accessorCode (d : Declaration) (a : Access) : List String :=
  let values := String.intercalate ", " ((numbered d.params).map fun (i, _) =>
    "params['$" ++ toString i ++ "']")
  let params := if d.params = [] then [] else ["  params,"]
  let optionsDefault := if d.params = [] then " = \x7b\x7d" else ""
  ["export const get" ++ d.name ++ "Query" ++ a.kind ++ " = " ++ a.arrow ++ "(\x7b",
    "  " ++ a.reader ++ " = " ++ a.defaultReader ++ ","] ++ params ++ [
    "\x7d: Get" ++ d.name ++ "Query" ++ a.kind ++ "Options" ++ optionsDefault ++ "): " ++
      a.result ++ " => (\x7b",
    "  sql: " ++ a.sql ++ ",",
    "  type: 'SLONIK_TOKEN_SQL',",
    "  values: [" ++ values ++ "],",
    "\x7d)"]

def accessor (d : Declaration) (fileName : String) (a : Access) : String :=
  unlines (["/**"] ++ accessorDoc d fileName a ++ [" */"] ++ accessorCode d a)

def paramsInterface (defaultType : String) (d : Declaration) : List String :=
  if d.params = [] then []
  else
    ["", "export interface Get" ++ d.name ++ "QueryParams \x7b"] ++
    (numbered d.params).map (fun (i, p) =>
      "  $" ++ toString i ++ ": " ++ p.hostType.render defaultType) ++
    ["\x7d"]

def optionsInterface (d : Declaration) (kind method : String) : List String :=
  let params := if d.params = [] then [] else ["  params: Get" ++ d.name ++ "QueryParams"]
  ["", "export interface Get" ++ d.name ++ "Query" ++ kind ++ "Options \x7b", "  " ++ method] ++
    params ++ ["\x7d"]

def cachedReader (heading read : String) : List String :=
  ["",
    "export const " ++ heading ++ " => \x7b",
    "  const cached = _queryCache.get(filepath)",
    "  if (cached) \x7b",
    "    return cached",
    "  \x7d",
    "  const content = " ++ read,
    "  _queryCache.set(filepath, content)",
    "  return content",
    "\x7d"]

/-- The literal from which the accessors know where the `.sql` file is. -/
def pathLiteral (fileName : String) : String := "'../" ++ fileName ++ "'"

def beforePath (d : Declaration) (fileName defaultType : String) : String :=
  unlines ([
    "import \x7bTaggedTemplateLiteralInvocationType\x7d from 'slonik'",
    "import * as path from 'path'",
    "import * as fs from 'fs'",
    "",
    d.render defaultType "",
    ""] : List String) ++
  accessor d fileName (Access.sync d.name) ++ "\n" ++
  accessor d fileName (Access.async d.name)

def behindPath (d : Declaration) (defaultType : String) : String :=
  unlines ([")",
    "",
    "export interface FileContent \x7b",
    "  toString(): string",
    "\x7d"] ++
    paramsInterface defaultType d ++
    optionsInterface d "Sync" "readFileSync?: (filepath: string) => FileContent" ++
    optionsInterface d "Async" "readFile?: (filepath: string) => Promise<FileContent>" ++
    ["", "export const _queryCache = new Map<string, string>()"] ++
    cachedReader "defaultReadFileSync = (filepath: string)"
      "fs.readFileSync(filepath).toString()" ++
    cachedReader "defaultReadFileAsync = async (filepath: string)"
      "(await fs.promises.readFile(filepath)).toString()")

def render (d : Declaration) (sqlPath defaultType : String) : String :=
  let fileName := (Path.fileName? sqlPath).getD ""
  beforePath d fileName defaultType ++ "const sqlPath = path.join(__dirname, " ++
    pathLiteral fileName ++ behindPath d defaultType

end RowTypes.Companion
