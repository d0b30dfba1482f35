import RowTypes.Sql.DataType

/-! Expressions, read by the binding strength of their operators. A reader of one
nesting level calls the readers of the level below for whatever stands inside
its own construct, so the levels of a `Grammar` bound how deep a text nests. -/

namespace RowTypes.Sql

structure Grammar where
  /-- An expression whose operators bind more strongly than the given strength. -/
  expr : Nat → Parse Expr
  query : Parse Query
  statement : Parse Statement

namespace Expression
open Parse

namespace Strength

def period : Nat := 200
def typeCast : Nat := 140
def bracket : Nat := 130
def collate : Nat := 120
def timeZone : Nat := 110
def power : Nat := 100
def product : Nat := 90
def sum : Nat := 80
def exclusiveOr : Nat := 75
def anyOperator : Nat := 70
def between : Nat := 60
def comparison : Nat := 50
def is : Nat := 40
def not : Nat := 30
def and : Nat := 20
def or : Nat := 10

end Strength

def comparisons : List (String × Comparison) :=
  [("=", .eq), ("==", .eq), ("<>", .ne), ("!=", .ne), ("<", .lt), ("<=", .le), (">", .gt),
    (">=", .ge)]

def matchSymbols : List String := ["~", "~*", "!~", "!~*", "~~", "~~*", "!~~", "!~~*"]

def infixSymbols : List (String × Nat) :=
  [(":=", Strength.comparison), ("<=>", Strength.comparison), ("~=", Strength.comparison)] ++
  (["|", "&", "->", "->>", "#>", "#>>", "@>", "<@", "#-", "@?", "@@", "?", "?&", "?|", "&&", "^@",
    "||", "#", ">>", "<<", "##", "&<", "&>", "<->", "&<|", "|&>", "|>>", "<<|", "<^", ">^", "?#",
    "?-", "?-|", "?||"].map (·, Strength.anyOperator)) ++
  [("^", Strength.power), ("+", Strength.sum), ("-", Strength.sum), ("*", Strength.product),
    ("/", Strength.product), ("%", Strength.product)]

def likeKeys : List String := ["LIKE", "ILIKE", "RLIKE", "REGEXP", "SIMILAR"]

/-- The strength of the operator that comes next, 0 where none does. -/
def nextStrength : Parse Nat := do
  match ← get with
  | .word _ "OR" :: _ => return Strength.or
  | .word _ "AND" :: _ => return Strength.and
  | .word _ "XOR" :: _ => return Strength.exclusiveOr
  | .word _ "AT" :: .word _ "TIME" :: .word _ "ZONE" :: _ => return Strength.timeZone
  | .word _ "NOT" :: t :: _ =>
    return if t.key = "IN" ∨ t.key = "BETWEEN" ∨ t.key ∈ likeKeys then Strength.between else 0
  | .word _ "IS" :: _ => return Strength.is
  | .word _ "COLLATE" :: _ => return Strength.collate
  | .word _ "DIV" :: _ => return Strength.product
  | .word _ key :: _ =>
    return if key ∈ ["IN", "BETWEEN", "OVERLAPS", "OPERATOR"] ++ likeKeys then Strength.between
      else 0
  | .symbol s :: _ =>
    return if (comparisons.lookup s).isSome ∨ s ∈ matchSymbols then Strength.comparison
      else if s = "!" then Strength.anyOperator
      else if s = "::" then Strength.typeCast
      else if s = "[" then Strength.bracket
      else if s = "." then Strength.period
      else (infixSymbols.lookup s).getD 0
  | .operator :: _ => return Strength.anyOperator
  | _ => return 0

def any (g : Grammar) : Parse Expr := g.expr 0

def skipAny (g : Grammar) : Parse Unit := discard (any g)

def peekSubquery : Parse Bool := return (← peekKey) ∈ ["SELECT", "WITH"]

def orderItem (g : Grammar) : Parse Unit := do
  skipAny g
  skipOneOf ["ASC", "DESC"]
  unless ← keywords ["NULLS", "FIRST"] do discard (keywords ["NULLS", "LAST"])

def orderBy (g : Grammar) : Parse Unit := do
  if ← keywords ["ORDER", "BY"] then discard (commaSeparated (orderItem g))

def temporalUnits : List String :=
  ["YEAR", "YEARS", "MONTH", "MONTHS", "WEEK", "WEEKS", "DAY", "DAYS", "DAYOFWEEK", "DAYOFYEAR",
    "DATE", "DATETIME", "HOUR", "HOURS", "MINUTE", "MINUTES", "SECOND", "SECONDS", "CENTURY",
    "DECADE", "DOW", "DOY", "EPOCH", "ISODOW", "ISOYEAR", "ISOWEEK", "JULIAN", "MICROSECOND",
    "MICROSECONDS", "MILLENIUM", "MILLENNIUM", "MILLISECOND", "MILLISECONDS", "NANOSECOND",
    "NANOSECONDS", "QUARTER", "TIME", "TIMEZONE", "TIMEZONE_ABBR", "TIMEZONE_HOUR",
    "TIMEZONE_MINUTE", "TIMEZONE_REGION"]

def temporalField : Parse String := do
  match ← next with
  | .word _ key =>
    if key = "WEEK" then
      if ← symbol "(" then
        discard identifier
        expectSymbol ")"
    return key
  | .string _ => return ""
  | _ => fail

def interval (operand : Parse Expr) : Parse Expr := do
  discard operand
  let leading ← if (← peekKey) ∈ temporalUnits then temporalField else pure ""
  if leading = "SECOND" then DataType.optionalPrecisionScale
  else
    DataType.optionalPrecision
    if ← keyword "TO" then
      if (← temporalField) = "SECOND" then DataType.optionalPrecision
  return .other

def caseArms (g : Grammar) : Parse Unit := do
  let arm : Parse Unit := do
    skipAny g
    expectKeyword "THEN"
    skipAny g
  arm
  discard <| many do
    if ← keyword "WHEN" then return some (← arm) else return none
  if ← keyword "ELSE" then skipAny g
  expectKeyword "END"

def caseOf (g : Grammar) : Parse Expr := do
  unless ← keyword "WHEN" do
    skipAny g
    expectKeyword "WHEN"
  caseArms g
  return .other

def castTo (g : Grammar) : Parse Expr := do
  parenthesized do
    let e ← any g
    expectKeyword "AS"
    discard DataType.read
    if ← keyword "FORMAT" then
      discard value
      if ← keywords ["AT", "TIME", "ZONE"] then discard value
    return .cast e

def convert (g : Grammar) : Parse Expr := do
  parenthesized do
    skipAny g
    if ← keyword "USING" then discard objectName
    else
      expectSymbol ","
      discard DataType.read
      if ← keywords ["CHARACTER", "SET"] then discard objectName
    return .other

def queryInParentheses (g : Grammar) : Parse Unit := discard (parenthesized g.query)

def extract (g : Grammar) : Parse Expr := do
  parenthesized do
    discard temporalField
    expectKeyword "FROM"
    skipAny g
    return .other

def rounding (g : Grammar) : Parse Expr := do
  parenthesized do
    skipAny g
    if ← keyword "TO" then discard temporalField
    else if ← symbol "," then
      match ← next with
      | .number _ => pure ()
      | _ => fail
    return .other

def substring (g : Grammar) : Parse Expr := do
  parenthesized do
    skipAny g
    if (← symbol ",") || (← keyword "FROM") then skipAny g
    if ← keyword "FOR" then skipAny g
    else if ← symbol "," then skipAny g
    return .other

def overlay (g : Grammar) : Parse Expr := do
  parenthesized do
    skipAny g
    expectKeyword "PLACING"
    skipAny g
    expectKeyword "FROM"
    skipAny g
    if ← keyword "FOR" then skipAny g
    return .other

def trim (g : Grammar) : Parse Expr := do
  parenthesized do
    skipOneOf ["BOTH", "LEADING", "TRAILING"]
    skipAny g
    if ← keyword "FROM" then skipAny g
    return .other

def arrayItems (g : Grammar) : Parse Expr := do
  unless ← peekSymbol "]" do discard (commaSeparated (any g))
  expectSymbol "]"
  return .other

def nullTreatment : Parse Unit := do
  if (← oneOf ["RESPECT", "IGNORE"]).isSome then expectKeyword "NULLS"

def frameBound (g : Grammar) (operand : Parse Expr) : Parse Unit := do
  unless ← keywords ["CURRENT", "ROW"] do
    unless ← keyword "UNBOUNDED" do
      match ← peek with
      | some (.string _) => discard (interval operand)
      | _ => skipAny g
    if (← oneOf ["PRECEDING", "FOLLOWING"]).isNone then fail

def windowSpec (g : Grammar) (operand : Parse Expr) : Parse Unit := do
  match ← peek with
  | some (.word _ key) =>
    unless key ∈ ["PARTITION", "ORDER", "ROWS", "RANGE", "GROUPS"] do discard next
  | _ => pure ()
  if ← keywords ["PARTITION", "BY"] then discard (commaSeparated (any g))
  orderBy g
  unless ← symbol ")" do
    if (← oneOf ["ROWS", "RANGE", "GROUPS"]).isNone then fail
    if ← keyword "BETWEEN" then
      frameBound g operand
      expectKeyword "AND"
    frameBound g operand
    expectSymbol ")"

def orWildcard (g : Grammar) : Parse Expr := do
  let wildcard ← attempt do
    match ← get with
    | .symbol "*" :: rest =>
      set rest
      return Expr.wildcard
    | _ =>
      discard identifier
      expectSymbol "."
      discard <| many do
        match ← get with
        | .word .. :: .symbol "." :: rest => set rest; return some ()
        | .string _ :: .symbol "." :: rest => set rest; return some ()
        | _ => return none
      expectSymbol "*"
      return Expr.wildcard
  match wildcard with
  | some e => return e
  | none =>
    match ← get with
    | .word .. :: .symbol "." :: rest => qualified rest
    | .string _ :: .symbol "." :: rest => qualified rest
    | _ => any g
where
  /-- A period has to be followed by a name. -/
  qualified (rest : List Token) : Parse Expr := do
    match rest with
    | .word .. :: .symbol "." :: rest => qualified rest
    | .string _ :: .symbol "." :: rest => qualified rest
    | .word .. :: _ => any g
    | .string _ :: _ => any g
    | _ => fail

def argument (g : Grammar) : Parse Unit := do
  discard (orWildcard g)
  discard <| attempt do
    unless ← keyword "VALUE" do
      unless (← symbol "=>") || (← symbol ":") do fail
    discard (orWildcard g)

def jsonNulls : Parse Unit := do
  unless ← keywords ["ABSENT", "ON", "NULL"] do discard (keywords ["NULL", "ON", "NULL"])

def overflow : Parse Unit := do
  if ← keywords ["ON", "OVERFLOW"] then
    unless ← keyword "ERROR" do
      expectKeyword "TRUNCATE"
      match ← peek with
      | some (.string _) => discard next
      | some .constant => discard next
      | _ => pure ()
      if (← oneOf ["WITH", "WITHOUT"]).isNone then fail
      expectKeyword "COUNT"

def arguments (g : Grammar) : Parse Unit := do
  jsonNulls
  unless ← symbol ")" do
    let all ← keyword "ALL"
    let distinct ← keyword "DISTINCT"
    if all ∧ distinct then fail
    discard (commaSeparated (argument g))
    orderBy g
    if ← keyword "LIMIT" then skipAny g
    overflow
    jsonNulls
    expectSymbol ")"

def callOf (g : Grammar) (operand : Parse Expr) : Parse Expr := do
  expectSymbol "("
  arguments g
  if ← keywords ["WITHIN", "GROUP"] then
    parenthesized do
      expectKeywords ["ORDER", "BY"]
      discard (commaSeparated (orderItem g))
  if ← keyword "FILTER" then
    if ← symbol "(" then
      if ← keyword "WHERE" then
        skipAny g
        expectSymbol ")"
  nullTreatment
  if ← keyword "OVER" then
    if ← symbol "(" then windowSpec g operand else discard identifier
  return .call

def position (g : Grammar) (operand : Parse Expr) : Parse Expr := do
  let special ← attempt <| parenthesized do
    discard (g.expr Strength.between)
    expectKeyword "IN"
    skipAny g
    return Expr.other
  match special with
  | some e => return e
  | none => callOf g operand

def special (g : Grammar) (operand : Parse Expr) (word : Token) : Parse (Option Expr) := do
  match word.key with
  | "TRUE" | "FALSE" => return some .constant
  | "NULL" => return some .null
  | "CURRENT_CATALOG" | "CURRENT_USER" | "SESSION_USER" | "USER" => return some .call
  | "CURRENT_TIMESTAMP" | "CURRENT_TIME" | "CURRENT_DATE" | "LOCALTIME" | "LOCALTIMESTAMP" =>
    if ← symbol "(" then arguments g
    return some .call
  | "CASE" => return some (← caseOf g)
  | "CONVERT" => return some (← convert g)
  | "CAST" | "TRY_CAST" | "SAFE_CAST" => return some (← castTo g)
  | "EXISTS" =>
    queryInParentheses g
    return some .other
  | "EXTRACT" => return some (← extract g)
  | "CEIL" | "FLOOR" => return some (← rounding g)
  | "POSITION" => if ← peekSymbol "(" then return some (← position g operand) else return none
  | "SUBSTR" | "SUBSTRING" => return some (← substring g)
  | "OVERLAY" => return some (← overlay g)
  | "TRIM" => return some (← trim g)
  | "INTERVAL" => return some (← interval operand)
  | "ARRAY" =>
    if ← symbol "[" then return some (← arrayItems g)
    else if ← peekSymbol "(" then
      queryInParentheses g
      return some .call
    else return none
  | "NOT" =>
    if ← keyword "EXISTS" then
      queryInParentheses g
      return some .other
    else return some (.unary (← g.expr Strength.not))
  | "CIRCLE" | "BOX" | "PATH" | "LINE" | "LSEG" | "POINT" | "POLYGON" =>
    discard value
    return some .typedString
  | _ => return none

def named (g : Grammar) (operand : Parse Expr) (name : Ident) : Parse Expr := do
  match ← peek with
  | some (.symbol "(") => callOf g operand
  | some (.string _) =>
    if name.value.toList.head? = some '_' then
      discard next
      return .other
    else return .column [name]
  | _ => return .column [name]

def reservedNames : List String := ["EXISTS", "INTERVAL", "STRUCT", "TRIM"]

def prefixSymbols : List String := ["!!", "|/", "||/", "@", "~", "#", "@-@", "@@", "?-", "?|"]

def collated (e : Expr) : Parse Expr := do
  if ← keyword "COLLATE" then
    discard objectName
    return .other
  else return e

def inParentheses (g : Grammar) : Parse Expr := do
  let e ←
    if ← peekSubquery then
      discard g.query
      pure .other
    else
      match ← commaSeparated (any g) with
      | [e] => pure (.nested e)
      | _ => pure .other
  expectSymbol ")"
  return e

/-- An operand without the accesses and operators behind it. `fuel` bounds how many
times the word `INTERVAL` may repeat. -/
def operand (g : Grammar) : (fuel : Nat) → Parse Expr
  | 0 => throw .tooDeep
  | fuel + 1 => do
    let operand := operand g fuel
    let typed ← attempt do
      match ← DataType.read with
      | .interval => interval operand
      | .created => fail
      | .builtin =>
        discard value
        return Expr.typedString
    if let some e := typed then return e
    let start ← get
    match ← next with
    | .word name key =>
      match ← outcome (special g operand (.word name key)) with
      | .ok (some e) => collated e
      | .ok none => collated (← named g operand name)
      | .error failure =>
        if key ∈ reservedNames then throw failure
        match ← outcome (named g operand name) with
        | .ok e => return e
        | .error _ => throw failure
    | .symbol "[" => collated (← arrayItems g)
    | .symbol "(" => collated (← inParentheses g)
    | .symbol s =>
      if s = "-" ∨ s = "+" then collated (.unary (← g.expr Strength.product))
      else if s ∈ prefixSymbols then collated (.unary (← g.expr Strength.sum))
      else
        set start
        collated (← value)
    | _ =>
      set start
      collated (← value)

inductive Access where
  | dot (e : Expr)
  | subscript

def Access.path? : Access → Option (List Ident)
  | .dot (.column path) => some path
  | _ => none

/-- The expression that a chain of accesses makes of its root: a path of names is
a column, and a call at its end is a call of a qualified function. -/
def joined (root : Expr) (chain : List Access) : Expr :=
  match chain, root with
  | [], root => root
  | chain, .column path =>
    match chain.mapM Access.path? with
    | some paths => .column (path ++ paths.flatten)
    | none =>
      match chain.getLast?, chain.dropLast.mapM Access.path? with
      | some (.dot .call), some _ => .call
      | _, _ => .other
  | _, _ => .other

def subscript (g : Grammar) : Parse Unit := do
  let lower ← if ← symbol ":" then pure false else skipAny g; pure true
  if ← symbol "]" then return
  if lower then expectSymbol ":"
  if ← symbol "]" then return
  skipAny g
  if ← symbol "]" then return
  expectSymbol ":"
  if ← symbol "]" then return
  skipAny g
  expectSymbol "]"

def accesses (g : Grammar) (root : Expr) : Parse Expr := do
  let chain ← many do
    match ← get with
    | .symbol "." :: .symbol "*" :: _ => return none
    | .symbol "." :: .string s :: rest =>
      set rest
      return some (Access.dot (.column [⟨s, some '\''⟩]))
    | .symbol "." :: rest =>
      set rest
      return some (Access.dot (← g.expr Strength.period))
    | .symbol "[" :: rest =>
      set rest
      subscript g
      return some Access.subscript
    | _ => return none
  let e := joined root chain
  match ← get, e with
  | .symbol "." :: .symbol "*" :: rest, .column _ =>
    set rest
    return .wildcard
  | .symbol "." :: .symbol "*" :: _, _ => fail
  | _, _ => return e

def binary? : Parse (Option (Expr → Expr → Expr)) := do
  let t ← next
  match t with
  | .word _ "AND" => return some .and
  | .word _ "OR" => return some .or
  | .word _ "XOR" | .word _ "OVERLAPS" => return some fun _ _ => .other
  | .word _ "OPERATOR" =>
    expectSymbol "("
    discard next
    discard <| many do
      if ← symbol "." then return some (← next) else return none
    expectSymbol ")"
    return some fun _ _ => .other
  | .symbol s =>
    match comparisons.lookup s with
    | some c => return some (.compare c)
    | none =>
      if s ∈ matchSymbols ∨ (infixSymbols.lookup s).isSome then return some fun _ _ => .other
      else return none
  | .operator => return some fun _ _ => .other
  | _ => return none

def quantified (g : Grammar) (strength : Nat) : Parse Unit := do
  let start ← get
  expectSymbol "("
  if ← peekSubquery then
    set start
    discard (g.expr strength)
  else
    discard (g.expr strength)
    expectSymbol ")"

def isTest (g : Grammar) (e : Expr) : Parse Expr := do
  if ← keyword "NULL" then return .other
  else if ← keywords ["NOT", "NULL"] then return .isNotNull e
  else
    skipKeyword "NOT"
    if (← oneOf ["TRUE", "FALSE", "UNKNOWN"]).isSome then return .other
    else if ← keywords ["DISTINCT", "FROM"] then
      skipAny g
      return .other
    else
      skipOneOf ["NFC", "NFD", "NFKC", "NFKD"]
      expectKeyword "NORMALIZED"
      return .other

def escapeClause : Parse Unit := do
  if ← keyword "ESCAPE" then discard value

def membership (g : Grammar) : Parse Unit := do
  if ← keyword "UNNEST" then discard (parenthesized (any g))
  else
    parenthesized do
      match ← attempt g.query with
      | some _ => pure ()
      | none => discard (commaSeparated (any g))

def negatable (g : Grammar) : Parse Expr := do
  skipKeyword "NOT"
  if (← oneOf ["REGEXP", "RLIKE"]).isSome then discard (g.expr Strength.between)
  else if ← keyword "IN" then membership g
  else if ← keyword "BETWEEN" then
    discard (g.expr Strength.between)
    expectKeyword "AND"
    discard (g.expr Strength.between)
  else if (← oneOf ["LIKE", "ILIKE"]).isSome then
    skipKeyword "ANY"
    discard (g.expr Strength.between)
    escapeClause
  else
    expectKeywords ["SIMILAR", "TO"]
    discard (g.expr Strength.between)
    escapeClause
  return .other

def infixStep (g : Grammar) (strength : Nat) (e : Expr) : Parse Expr := do
  let start ← get
  match ← outcome binary? with
  | .error failure => throw failure
  | .ok (some make) =>
    if (← oneOf ["ANY", "ALL", "SOME"]).isSome then
      quantified g strength
      match start with
      | .symbol s :: _ =>
        if (comparisons.lookup s).isSome ∨ s ∈ matchSymbols then return .other else fail
      | _ => fail
    else return make e (← g.expr strength)
  | .ok none =>
    match start with
    | .word _ "IS" :: _ => isTest g e
    | .word _ "AT" :: _ =>
      expectKeywords ["TIME", "ZONE"]
      discard (g.expr strength)
      return .other
    | .symbol "::" :: _ =>
      discard DataType.read
      return .cast e
    | .symbol "!" :: _ => return .unary e
    | .word _ key :: _ =>
      if key ∈ ["NOT", "IN", "BETWEEN"] ++ likeKeys then
        set start
        negatable g
      else fail
    | _ => fail

/-- The operators behind `e` that bind more strongly than `strength`. -/
def operators (g : Grammar) (strength : Nat) : (fuel : Nat) → Expr → Parse Expr
  | 0, e => return e
  | fuel + 1, e => do
    let following ← nextStrength
    if following ≤ strength ∨ (← peekSymbol ".") then return e
    else operators g strength fuel (← infixStep g following e)

def read (g : Grammar) (strength : Nat) : Parse Expr := do
  let fuel := (← get).length + 1
  operators g strength fuel (← accesses g (← operand g fuel))

end Expression
end RowTypes.Sql
