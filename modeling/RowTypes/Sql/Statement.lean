import RowTypes.Sql.Selection

/-! Statements, the levels of the grammar, and texts of several statements. Of a
statement that neither queries nor modifies a table only the queries inside it
are read; what else it holds up to the next semicolon is taken as it is. -/

namespace RowTypes.Sql
open Parse

namespace Statement

/-- The words that begin a statement whose text is not looked into. -/
def utilityKeys : List String :=
  ["ALTER", "ANALYZE", "ASSERT", "ATTACH", "BEGIN", "CACHE", "CALL", "CLOSE", "COMMENT", "COMMIT",
    "COPY", "CREATE", "DEALLOCATE", "DECLARE", "DETACH", "DISCARD", "DROP", "END", "EXECUTE",
    "EXEC", "FETCH", "FLUSH", "GRANT", "INSTALL", "KILL", "LISTEN", "LOAD", "LOCK", "MERGE",
    "MSCK", "NOTIFY", "OPTIMIZE", "PRAGMA", "PREPARE", "RAISE", "RELEASE", "RENAME", "REPLACE",
    "REVOKE", "ROLLBACK", "SAVEPOINT", "SET", "SHOW", "START", "TRUNCATE", "UNCACHE", "UNLISTEN",
    "UNLOAD", "UNLOCK", "USE", "VACUUM"]

def toSemicolon : Parse Unit := modify fun ts => ts.dropWhile (· ≠ .symbol ";")

def definingQuery? : Parse Bool := do
  discard (keywords ["OR", "REPLACE"])
  skipOneOf ["LOCAL", "GLOBAL"]
  skipOneOf ["TEMP", "TEMPORARY", "UNLOGGED"]
  skipOneOf ["MATERIALIZED", "RECURSIVE"]
  if (← oneOf ["VIEW", "TABLE"]).isNone then return false
  discard (keywords ["IF", "NOT", "EXISTS"])
  discard objectName
  if ← peekSymbol "(" then discard (parenthesized (commaSeparated identifier))
  keyword "AS"

def create (g : Grammar) : Parse Unit := do
  match ← outcome definingQuery? with
  | .ok true =>
    discard g.query
    discard (keywords ["WITH", "NO", "DATA"])
    discard (keywords ["WITH", "DATA"])
  | _ => toSemicolon

def explain (g : Grammar) : Parse Unit := do
  unless ← symbol "(" do
    skipKeyword "ANALYZE"
    skipKeyword "VERBOSE"
    if ← keyword "FORMAT" then discard next
    match ← attempt g.statement with
    | some _ => return
    | none => return ← discard objectName
  modify fun ts => (ts.dropWhile (· ≠ .symbol ")")).tail
  discard g.statement

def read (g : Grammar) : Parse Statement := do
  let start ← get
  match ← next with
  | .word _ key =>
    if key ∈ ["SELECT", "WITH", "VALUES", "FROM"] then
      set start
      return .query (← g.query)
    else if key = "INSERT" then return .modification (← Selection.insert g)
    else if key = "UPDATE" then return .modification (← Selection.update g)
    else if key = "DELETE" then return .modification (← Selection.delete g)
    else if key ∈ ["EXPLAIN", "DESCRIBE", "DESC"] then
      explain g
      return .other
    else if key = "CREATE" then
      create g
      return .other
    else if key ∈ utilityKeys then
      toSemicolon
      return .other
    else fail
  | .symbol "(" =>
    set start
    return .query (← g.query)
  | _ => fail

end Statement

def Grammar.ofDepth : (depth : Nat) → Grammar
  | 0 => ⟨fun _ => throw .tooDeep, throw .tooDeep, throw .tooDeep⟩
  | depth + 1 =>
    let g := ofDepth depth
    ⟨Expression.read g, Selection.read g, Statement.read g⟩

def maxDepth : Nat := 50

/-- Statements with semicolons between, or up to the word `END` behind a statement. -/
def statements : (fuel : Nat) → Parse (List Statement)
  | 0 => throw .tooDeep
  | fuel + 1 => do
    modify fun ts => ts.dropWhile (· = .symbol ";")
    match ← get with
    | [] => return []
    | _ =>
      let s ← (Grammar.ofDepth maxDepth).statement
      match ← get with
      | [] => return [s]
      | t :: _ =>
        if t = .symbol ";" then return s :: (← statements fuel)
        else if t.key = "END" then return [s]
        else fail

def statementsOfText? (sql : String) : Option (List Statement) :=
  match Token.ofText? sql with
  | none => none
  | some tokens =>
    match statements (tokens.length + 1) tokens with
    | .ok (statements, _) => some statements
    | .error _ => none

end RowTypes.Sql
