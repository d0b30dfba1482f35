import RowTypes.Sql.Expression

/-! Queries: their select lists, relations, joins, clauses and set operations. -/

namespace RowTypes.Sql.Selection
open Parse Expression

def reservedTableAliases : List String :=
  ["WITH", "EXPLAIN", "ANALYZE", "SELECT", "WHERE", "GROUP", "SORT", "HAVING", "ORDER", "PIVOT",
    "UNPIVOT", "TOP", "LATERAL", "VIEW", "LIMIT", "OFFSET", "FETCH", "UNION", "EXCEPT",
    "INTERSECT", "MINUS", "ON", "JOIN", "INNER", "CROSS", "FULL", "LEFT", "RIGHT", "NATURAL",
    "USING", "CLUSTER", "DISTRIBUTE", "GLOBAL", "ANTI", "SEMI", "RETURNING", "ASOF",
    "MATCH_CONDITION", "OUTER", "SET", "QUALIFY", "WINDOW", "END", "FOR", "PARTITION", "PREWHERE",
    "SETTINGS", "FORMAT", "START", "CONNECT", "MATCH_RECOGNIZE", "SAMPLE", "TABLESAMPLE", "FROM",
    "OPEN"]

def reservedColumnAliases : List String :=
  ["WITH", "EXPLAIN", "ANALYZE", "SELECT", "WHERE", "GROUP", "SORT", "HAVING", "ORDER", "TOP",
    "LATERAL", "VIEW", "LIMIT", "OFFSET", "FETCH", "UNION", "EXCEPT", "INTERSECT", "MINUS",
    "CLUSTER", "DISTRIBUTE", "RETURNING", "FROM", "INTO", "END"]

def alias? (reserved : List String) : Parse Bool := do
  let explicit ← keyword "AS"
  match ← get with
  | .word _ key :: rest =>
    if explicit ∨ key ∉ reserved then
      set rest
      return true
    else return false
  | .string _ :: rest =>
    set rest
    return true
  | _ => if explicit then fail else return false

def aliasColumns : Parse Unit := do
  if ← symbol "(" then
    discard <| commaSeparated do
      discard identifier
      discard (attempt DataType.read)
    expectSymbol ")"

def tableAlias : Parse Unit := do
  if ← alias? reservedTableAliases then aliasColumns

def selectItem (g : Grammar) : Parse SelectItem := do
  match ← orWildcard g with
  | .wildcard => return .wildcard
  | e =>
    if let .column [name] := e then
      if name.quote = none ∧ Text.lower name.value.toList = "from".toList then fail
    discard (alias? reservedColumnAliases)
    return .expr e

def tuple (g : Grammar) : Parse (List Expr) := do
  parenthesized do
    if ← peekSymbol ")" then return [] else commaSeparated (any g)

def tupleOrSingle (g : Grammar) : Parse (List Expr) := do
  if ← peekSymbol "(" then tuple g else return [← any g]

def groupItem (g : Grammar) : Parse GroupItem := do
  if ← keywords ["GROUPING", "SETS"] then
    return .groupingSets (← parenthesized (commaSeparated (tuple g)))
  else if ← keyword "CUBE" then
    return .cube (← parenthesized (commaSeparated (tupleOrSingle g)))
  else if ← keyword "ROLLUP" then
    return .rollup (← parenthesized (commaSeparated (tupleOrSingle g)))
  else
    match ← get with
    | .symbol "(" :: .symbol ")" :: rest =>
      set rest
      return .expr .other
    | _ => return .expr (← any g)

def grouping (g : Grammar) : Parse Grouping := do
  if ← keywords ["GROUP", "BY"] then
    let grouping ← if ← keyword "ALL" then pure .all
      else pure (.items (← commaSeparated (groupItem g)))
    if ← keywords ["GROUPING", "SETS"] then
      discard (parenthesized (commaSeparated (tupleOrSingle g)))
    return grouping
  else return .items []

def namedWindow (g : Grammar) (operand : Parse Expr) : Parse Unit := do
  discard identifier
  expectKeyword "AS"
  expectSymbol "("
  windowSpec g operand

def sample (g : Grammar) : Parse Unit := do
  if (← oneOf ["TABLESAMPLE", "SAMPLE"]).isSome then
    skipOneOf ["BERNOULLI", "ROW", "SYSTEM", "BLOCK"]
    let parentheses ← symbol "("
    match ← attempt (any g) with
    | some _ => pure ()
    | none =>
      match ← next with
      | .word .. => pure ()
      | _ => fail
    skipOneOf ["ROWS", "PERCENT"]
    if parentheses then expectSymbol ")"
    if (← oneOf ["REPEATABLE", "SEED"]).isSome then
      parenthesized do
        match ← value with
        | .constant => return ()
        | _ => fail
    if ← keyword "OFFSET" then skipAny g

def functionArguments (g : Grammar) : Parse Unit := do
  if ← symbol "(" then
    unless ← symbol ")" do
      discard (commaSeparated (argument g))
      expectSymbol ")"

def unnest (g : Grammar) : Parse Relation := do
  discard (parenthesized (commaSeparated (any g)))
  discard (keywords ["WITH", "ORDINALITY"])
  tableAlias
  if ← keywords ["WITH", "OFFSET"] then discard (alias? reservedColumnAliases)
  return .other

def namedTable (g : Grammar) : Parse Relation := do
  let name ← objectName
  functionArguments g
  discard (keywords ["WITH", "ORDINALITY"])
  tableAlias
  let start ← get
  if ← keyword "WITH" then
    if ← symbol "(" then
      discard (commaSeparated (any g))
      expectSymbol ")"
    else set start
  sample g
  return .table name

def derived (g : Grammar) : Parse Relation := do
  let q ← g.query
  expectSymbol ")"
  tableAlias
  return .derived q

def constraint (g : Grammar) (natural : Bool) : Parse Unit := do
  if natural then return
  else if ← keyword "ON" then skipAny g
  else if ← keyword "USING" then discard (parenthesized (commaSeparated objectName))

/-- The operator of a join that may carry a condition, from its keywords. `none` where
no join follows. -/
def joinOperator (natural : Bool) : Parse (Option JoinOperator) := do
  match ← peekKey with
  | "INNER" =>
    discard next
    expectKeyword "JOIN"
    return some .inner
  | "JOIN" =>
    discard next
    return some .join
  | "LEFT" | "RIGHT" =>
    let left := (← next).key = "LEFT"
    match ← oneOf ["OUTER", "SEMI", "ANTI", "JOIN"] with
    | some "JOIN" => return some (if left then .left else .right)
    | some side =>
      expectKeyword "JOIN"
      match side with
      | "OUTER" => return some (if left then .leftOuter else .rightOuter)
      | "SEMI" => return some (if left then .leftSemi else .rightSemi)
      | _ => return some (if left then .leftAnti else .rightAnti)
    | none => fail
  | "ANTI" =>
    discard next
    expectKeyword "JOIN"
    return some .anti
  | "SEMI" =>
    discard next
    expectKeyword "JOIN"
    return some .semi
  | "FULL" =>
    discard next
    skipKeyword "OUTER"
    expectKeyword "JOIN"
    return some .fullOuter
  | "STRAIGHT_JOIN" =>
    discard next
    return some .straight
  | _ => if natural then fail else return none

mutual

def relation (g : Grammar) : (fuel : Nat) → Parse Relation
  | 0 => throw .tooDeep
  | fuel + 1 => do
    if ← keyword "LATERAL" then
      if ← symbol "(" then derived g
      else
        discard objectName
        expectSymbol "("
        unless ← symbol ")" do
          discard (commaSeparated (argument g))
          expectSymbol ")"
        tableAlias
        return .other
    else if ← keyword "TABLE" then
      discard (parenthesized (any g))
      tableAlias
      return .other
    else if ← symbol "(" then
      match ← attempt (derived g) with
      | some r => return r
      | none =>
        let item ← fromItem g fuel
        match item with
        | .mk _ (_ :: _) | .mk (.nested _) _ =>
          expectSymbol ")"
          tableAlias
          return .nested item
        | _ => fail
    else if ← keyword "UNNEST" then unnest g
    else namedTable g

def fromItem (g : Grammar) : (fuel : Nat) → Parse FromItem
  | 0 => throw .tooDeep
  | fuel + 1 => do
    let first ← relation g fuel
    return .mk first (← joins g fuel)

def joins (g : Grammar) : (fuel : Nat) → Parse (List Join)
  | 0 => throw .tooDeep
  | fuel + 1 => do
    let global ← keyword "GLOBAL"
    let join? : Option Join ← do
      if ← keyword "CROSS" then
        let operator ← match ← oneOf ["JOIN", "APPLY"] with
          | some "JOIN" => pure .cross
          | some _ => pure .crossApply
          | none => fail
        pure (some (.mk ⟨operator, false, global⟩ (← relation g fuel)))
      else if ← keyword "OUTER" then
        expectKeyword "APPLY"
        pure (some (.mk ⟨.outerApply, false, global⟩ (← relation g fuel)))
      else if ← keyword "ASOF" then
        expectKeyword "JOIN"
        let r ← relation g fuel
        expectKeyword "MATCH_CONDITION"
        discard (parenthesized (any g))
        constraint g false
        pure (some (.mk ⟨.asOf, false, global⟩ r))
      else
        let natural ← keyword "NATURAL"
        match ← joinOperator natural with
        | none => pure none
        | some operator =>
          let r ← relation g fuel
          let r ← if (← peekKey) ∈ ["JOIN", "INNER", "LEFT", "RIGHT", "FULL"] then
              pure (.nested (.mk r (← joins g fuel)))
            else pure r
          constraint g natural
          pure (some (.mk ⟨operator, natural, global⟩ r))
    match join? with
    | none => return []
    | some join => return join :: (← joins g fuel)

end

def fromList (g : Grammar) : Parse (List FromItem) := do
  let fuel := 3 * (← get).length + 3
  commaSeparated (fromItem g fuel)

def distinct (g : Grammar) : Parse Unit := do
  let all ← keyword "ALL"
  if ← keyword "DISTINCT" then
    if all then fail
    if ← keyword "ON" then discard (tuple g)

def top (g : Grammar) : Parse Unit := do
  if ← keyword "TOP" then
    if ← peekSymbol "(" then discard (parenthesized (any g)) else wholeNumber
    skipKeyword "PERCENT"
    discard (keywords ["WITH", "TIES"])

def into : Parse Unit := do
  if ← keyword "INTO" then
    skipOneOf ["TEMP", "TEMPORARY"]
    skipKeyword "UNLOGGED"
    skipKeyword "TABLE"
    discard objectName

def listBehind (g : Grammar) (keys : List String) : Parse Unit := do
  if ← keywords keys then discard (commaSeparated (any g))

def exprBehind (g : Grammar) (key : String) : Parse (Option Expr) := do
  if ← keyword key then return some (← any g) else return none

def windows (g : Grammar) : Parse Unit := do
  if ← keyword "WINDOW" then
    let operand := operand g ((← get).length + 1)
    discard (commaSeparated (namedWindow g operand))

def select (g : Grammar) : Parse Select := do
  expectKeyword "SELECT"
  distinct g
  top g
  let projection ← if (← peekKey) = "FROM" then pure [] else commaSeparated (selectItem g)
  into
  let sources ← if ← keyword "FROM" then fromList g else pure []
  let selection ← exprBehind g "WHERE"
  let grouping ← grouping g
  listBehind g ["CLUSTER", "BY"]
  listBehind g ["DISTRIBUTE", "BY"]
  listBehind g ["SORT", "BY"]
  let having ← exprBehind g "HAVING"
  windows g
  discard (exprBehind g "QUALIFY")
  windows g
  return .mk projection sources selection grouping having

def row (g : Grammar) : Parse Unit := do
  skipKeyword "ROW"
  discard (parenthesized (commaSeparated (any g)))

/-- The name of a table as a query. Whatever follows it, two more tokens are read. -/
def tableName : Parse Unit := do
  let first ← next
  let second ← next
  let third ← next
  if !first.isName then fail
  if second = .symbol "." ∧ !third.isName then fail

def setStrength (key : String) : Nat :=
  if key ∈ ["UNION", "EXCEPT", "MINUS"] then 10 else if key = "INTERSECT" then 20 else 0

def setQuantifier : Parse Unit := do
  unless ← keywords ["DISTINCT", "BY", "NAME"] do
    unless ← keywords ["BY", "NAME"] do
      unless ← keywords ["ALL", "BY", "NAME"] do skipOneOf ["ALL", "DISTINCT"]

mutual

/-- A query without its `WITH` list and the clauses behind it, up to a set
operation that is no stronger than `strength`. -/
def body (g : Grammar) (strength : Nat) : (fuel : Nat) → Parse Body
  | 0 => throw .tooDeep
  | fuel + 1 => do
    let first ←
      if (← peekKey) = "SELECT" then pure (.select (← select g))
      else if ← symbol "(" then
        let q ← g.query
        expectSymbol ")"
        pure (.query q)
      else if ← keyword "VALUES" then
        discard (commaSeparated (row g))
        pure .values
      else if ← keyword "TABLE" then
        tableName
        pure .table
      else fail
    setOperations g strength fuel first

def setOperations (g : Grammar) (strength : Nat) : (fuel : Nat) → Body → Parse Body
  | 0, _ => throw .tooDeep
  | fuel + 1, left => do
    let following := setStrength (← peekKey)
    if following ≤ strength then return left
    else
      discard next
      setQuantifier
      let right ← body g following fuel
      setOperations g strength fuel (.setOperation left right)

end

def limits (g : Grammar) : Parse Unit := do
  let offset : Parse Bool := do
    if ← keyword "OFFSET" then
      skipAny g
      skipOneOf ["ROW", "ROWS"]
      return true
    else return false
  let early ← offset
  if ← keyword "LIMIT" then
    unless ← keyword "ALL" do skipAny g
    unless early do discard offset

def fetch : Parse Unit := do
  if ← keyword "FETCH" then
    skipOneOf ["FIRST", "NEXT"]
    if (← oneOf ["ROW", "ROWS"]).isNone then
      discard value
      skipKeyword "PERCENT"
      skipOneOf ["ROW", "ROWS"]
    unless ← keyword "ONLY" do expectKeywords ["WITH", "TIES"]

def locks : Parse Unit := do
  discard <| many do
    if ← keyword "FOR" then
      if (← oneOf ["UPDATE", "SHARE"]).isNone then fail
      if ← keyword "OF" then discard objectName
      unless ← keyword "NOWAIT" do discard (keywords ["SKIP", "LOCKED"])
      return some ()
    else return none

def assignment (g : Grammar) : Parse Unit := do
  if ← peekSymbol "(" then discard (parenthesized (commaSeparated objectName))
  else discard objectName
  expectSymbol "="
  skipAny g

def returning (g : Grammar) : Parse Unit := do
  if ← keyword "RETURNING" then discard (commaSeparated (selectItem g))

def conflict (g : Grammar) : Parse Unit := do
  if ← keyword "ON" then
    expectKeyword "CONFLICT"
    if ← keywords ["ON", "CONSTRAINT"] then discard objectName
    else if ← peekSymbol "(" then discard (parenthesized (commaSeparated identifier))
    expectKeyword "DO"
    unless ← keyword "NOTHING" do
      expectKeywords ["UPDATE", "SET"]
      discard (commaSeparated (assignment g))
      discard (exprBehind g "WHERE")

def insert (g : Grammar) : Parse Modification := do
  if ← keyword "OR" then
    if (← oneOf ["REPLACE", "ROLLBACK", "ABORT", "FAIL", "IGNORE"]).isNone then fail
  skipKeyword "OVERWRITE"
  skipKeyword "INTO"
  skipKeyword "LOCAL"
  skipKeyword "TABLE"
  discard objectName
  if ← keyword "AS" then discard identifier
  let source ←
    if ← keywords ["DEFAULT", "VALUES"] then pure none
    else
      match ← get with
      | .symbol "(" :: .word _ "SELECT" :: _ => pure ()
      | .symbol "(" :: _ => discard (parenthesized (commaSeparated identifier))
      | _ => pure ()
      pure (some (← g.query))
  conflict g
  returning g
  return .insert source

def update (g : Grammar) : Parse Modification := do
  if ← keyword "OR" then
    if (← oneOf ["REPLACE", "ROLLBACK", "ABORT", "FAIL", "IGNORE"]).isNone then fail
  let target ← fromItem g (3 * (← get).length + 3)
  let early ← if ← keyword "FROM" then pure (some (← fromList g)) else pure none
  expectKeyword "SET"
  discard (commaSeparated (assignment g))
  let sources ← match early with
    | some sources => pure sources
    | none => if ← keyword "FROM" then fromList g else pure []
  discard (exprBehind g "WHERE")
  returning g
  return .update target sources

def delete (g : Grammar) : Parse Modification := do
  unless ← keyword "FROM" do
    discard (commaSeparated objectName)
    expectKeyword "FROM"
  let sources ← fromList g
  let usings ← if ← keyword "USING" then fromList g else pure []
  discard (exprBehind g "WHERE")
  returning g
  orderBy g
  if ← keyword "LIMIT" then
    unless ← keyword "ALL" do skipAny g
  return .delete sources usings

def cte (g : Grammar) : Parse Cte := do
  let name ← identifier
  if ← keyword "AS" then
    unless ← keyword "MATERIALIZED" do discard (keywords ["NOT", "MATERIALIZED"])
  else
    aliasColumns
    expectKeyword "AS"
    unless ← keyword "MATERIALIZED" do discard (keywords ["NOT", "MATERIALIZED"])
  let q ← parenthesized g.query
  if ← keyword "FROM" then discard identifier
  return .mk name q

def read (g : Grammar) : Parse Query := do
  let (recursive, ctes) ← if ← keyword "WITH" then do
      let recursive ← keyword "RECURSIVE"
      pure (recursive, ← commaSeparated (cte g))
    else pure (false, [])
  if ← keyword "INSERT" then return .mk recursive ctes (.modification (← insert g))
  else if ← keyword "UPDATE" then return .mk recursive ctes (.modification (← update g))
  else if ← keyword "DELETE" then return .mk recursive ctes (.modification (← delete g))
  else
    let b ← body g 0 (2 * (← get).length + 2)
    orderBy g
    limits g
    fetch
    locks
    return .mk recursive ctes b

end RowTypes.Sql.Selection
