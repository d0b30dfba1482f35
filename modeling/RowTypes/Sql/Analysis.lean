import RowTypes.Sql.Names
import RowTypes.Sql.Statement

/-! What the text of a query says about its result. Types are never decided here:
the analysis names the tables, finds the constants among the result columns, the
tables that an outer join may extend by nulls, and the columns that the `WHERE`
clause keeps from being null. -/

namespace RowTypes.Sql

/-- The tables that a walk over a query has found so far: those read by each
common table expression, and those whose columns may be null. -/
structure Walk where
  ctes : List (String × List String)
  nullable : List String

namespace Walk

def start : Walk := ⟨[], []⟩

def bind (w : Walk) (cte : String) (tables : List String) : Walk :=
  { w with ctes := (cte, tables) :: w.ctes }

def demote (w : Walk) (tables : List String) : Walk :=
  { w with nullable := NameSet.union w.nullable tables }

/-- The tables that a table reference reads: the named one, and all that a common
table expression of this name reads. -/
def reads (w : Walk) (name : String) : List String :=
  NameSet.insert ((w.ctes.lookup name).getD []) name

end Walk

inductive OuterSide where
  | right
  | left
  | both
  | neither
deriving DecidableEq, Repr

/-- `seen` stands to the left of the join. -/
def OuterSide.demotes (side : OuterSide) (seen joined : List String) : List String :=
  match side with
  | right => joined
  | left => seen
  | both => NameSet.union seen joined
  | neither => []

def JoinOperator.keywords : JoinOperator → String
  | join => "JOIN"
  | inner => "INNER JOIN"
  | left => "LEFT JOIN"
  | leftOuter => "LEFT OUTER JOIN"
  | right => "RIGHT JOIN"
  | rightOuter => "RIGHT OUTER JOIN"
  | fullOuter => "FULL JOIN"
  | cross => "CROSS JOIN"
  | semi => "SEMI JOIN"
  | leftSemi => "LEFT SEMI JOIN"
  | rightSemi => "RIGHT SEMI JOIN"
  | anti => "ANTI JOIN"
  | leftAnti => "LEFT ANTI JOIN"
  | rightAnti => "RIGHT ANTI JOIN"
  | crossApply => "CROSS APPLY"
  | outerApply => "OUTER APPLY"
  | asOf => "ASOF JOIN"
  | straight => "STRAIGHT_JOIN"

namespace JoinKind

def written (k : JoinKind) : List Char :=
  (if k.global then " GLOBAL".toList else []) ++ ' ' ::
    ((if k.natural ∧ k.operator ≠ .straight then "NATURAL ".toList else []) ++
      k.operator.keywords.toList)

/-- Left and right joins without the word `OUTER` are told by the way they are written. -/
def outerSide (k : JoinKind) : OuterSide :=
  match k.operator with
  | .leftOuter | .outerApply => .right
  | .rightOuter => .left
  | .fullOuter => .both
  | _ =>
    let text := k.written.dropWhile Text.isBlank
    let text := ("NATURAL ".toList.isPrefixOf? text).getD text
    if "LEFT JOIN".toList.isPrefixOf text then .right
    else if "RIGHT JOIN".toList.isPrefixOf text then .left
    else .neither

end JoinKind

mutual

def Query.walk (w : Walk) : Query → Walk × List String
  | .mk _ ctes body => Body.walk (walkCtes w ctes) body

def walkCtes (w : Walk) : List Cte → Walk
  | [] => w
  | .mk name q :: rest =>
    let (w, tables) := Query.walk w q
    walkCtes (w.bind name.folded tables) rest

def Body.walk (w : Walk) : Body → Walk × List String
  | .select (.mk _ sources _ _ _) => walkSources w sources
  | .query q => Query.walk w q
  | .setOperation l r =>
    let (w, left) := Body.walk w l
    let (w, right) := Body.walk w r
    let tables := NameSet.union left right
    (w.demote tables, tables)
  | .table | .values | .modification _ => (w, [])

def walkSources (w : Walk) : List FromItem → Walk × List String
  | [] => (w, [])
  | item :: rest =>
    let (w, tables) := FromItem.walk w item
    let (w, more) := walkSources w rest
    (w, NameSet.union tables more)

def FromItem.walk (w : Walk) : FromItem → Walk × List String
  | .mk relation joins =>
    let (w, seen) := Relation.walk w relation
    walkJoins w seen joins

def walkJoins (w : Walk) (seen : List String) : List Join → Walk × List String
  | [] => (w, seen)
  | .mk kind relation :: rest =>
    let (w, joined) := Relation.walk w relation
    walkJoins (w.demote (kind.outerSide.demotes seen joined)) (NameSet.union seen joined) rest

def Relation.walk (w : Walk) : Relation → Walk × List String
  | .table name => (w, w.reads (tableName name))
  | .derived q => Query.walk w q
  | .nested item => FromItem.walk w item
  | .other => (w, [])

end

def Query.nullableTables (q : Query) : List String := (q.walk .start).1.nullable

namespace Expr

/-- Constants, their casts, and comparisons between them. A placeholder is none: it
can be bound to null. -/
def isConstant : Expr → Bool
  | .constant | .typedString => true
  | .nested e | .cast e | .unary e => e.isConstant
  | .compare _ l r => l.isConstant && r.isConstant
  | _ => false

def columnName? : Expr → Option String
  | .nested e => e.columnName?
  | .column path => path.getLast?.map Ident.folded
  | _ => none

/-- The columns that are not null in any row for which the expression is true. -/
def constrained : Expr → List String
  | .nested e => e.constrained
  | .isNotNull e => e.columnName?.toList
  | .and l r => NameSet.union l.constrained r.constrained
  | .or l r => NameSet.inter l.constrained r.constrained
  | .compare _ l r => NameSet.union l.columnName?.toList r.columnName?.toList
  | _ => []

def isCall : Expr → Bool
  | .call => true
  | _ => false

end Expr

def SelectItem.expr? : SelectItem → Option Expr
  | .expr e => some e
  | .wildcard => none

/-- Which result columns are constants. Empty when a wildcard hides their number. -/
def constantItems (items : List SelectItem) : List Bool :=
  ((items.mapM SelectItem.expr?).getD []).map Expr.isConstant

def Grouping.isEmpty : Grouping → Bool
  | .items [] => true
  | _ => false

def Relation.tableName? : Relation → Option String
  | .table name => some (tableName name)
  | _ => none

def FromItem.tableNames (item : FromItem) : List String :=
  (item.relation :: item.joins.map Join.relation).filterMap Relation.tableName?

def namedTables (sources : List FromItem) : List String :=
  NameSet.union [] (sources.flatMap FromItem.tableNames)

structure Analysis where
  /-- The tables of the outermost `FROM` list. -/
  tables : List String
  /-- For each result column whether it is a constant other than null. -/
  constants : List Bool
  nullableTables : List String
  /-- The single table that the `WHERE` clause constrains, and the columns that it
  keeps from being null. -/
  refined : Option (String × List String)
  /-- The text is no SQL but has an outer join. -/
  allNullable : Bool
deriving Repr

namespace Analysis

def empty : Analysis := ⟨[], [], [], none, false⟩

/-- Only a query of one table whose rows are neither grouped nor computed by
functions shows the rows that its `WHERE` clause lets through. -/
def refinement (hasCtes : Bool) (tables : List String) : Select → Option (String × List String)
  | .mk projection sources selection grouping having => do
    let single := match sources with
      | [.mk _ []] => true
      | _ => false
    let calls := projection.any fun item => item.expr?.any Expr.isCall
    if hasCtes || !single || !grouping.isEmpty || having.isSome || calls then none
    else
      let table ← tables.head?
      let columns := (← selection).constrained
      if columns = [] then none else some (table, columns)

def ofSelect (hasCtes : Bool) (s : Select) : Analysis :=
  match s with
  | .mk projection sources _ _ _ =>
    let tables := namedTables sources
    { empty with
      tables, constants := constantItems projection, refined := refinement hasCtes tables s }

def ofQuery : Query → Analysis
  | .mk recursive ctes body =>
    let inner := match body with
      | .select s => ofSelect (!ctes.isEmpty) s
      | .query q => ofQuery q
      | _ => empty
    { inner with
      nullableTables := NameSet.union inner.nullableTables (Query.mk recursive ctes body).nullableTables }

def afterWord? : List Char → List Char → Option (List Char)
  | [], cs => some cs
  | w :: ws, c :: cs => if c.toLower = w then afterWord? ws cs else none
  | _ :: _, [] => none

def afterBlanks? : List Char → Option (List Char)
  | [] => none
  | c :: cs => if Text.isBlank c then some (cs.dropWhile Text.isBlank) else none

def beginsOuterJoin (cs : List Char) : Bool :=
  ["left", "right", "full"].any fun side =>
    let behind := do
      let rest ← afterBlanks? (← afterWord? side.toList cs)
      let rest := ((afterWord? "outer".toList rest).bind afterBlanks?).getD rest
      afterWord? "join".toList rest
    behind.any fun rest => !rest.head?.any Text.isWordPart

def mentionsOuterJoin (inWord : Bool) : List Char → Bool
  | [] => false
  | c :: cs =>
    let part := Text.isWordPart c
    (!inWord && part && beginsOuterJoin (c :: cs)) || mentionsOuterJoin part cs

def unparsed (sql : String) : Analysis :=
  { empty with allNullable := mentionsOuterJoin false sql.toList }

def ofStatements : List Statement → Analysis
  | [.query q] => ofQuery q
  | _ => empty

def ofText (sql : String) : Analysis :=
  match statementsOfText? sql with
  | some statements => ofStatements statements
  | none => unparsed sql

/-- Whether the result column at `index` is a constant. A select list that does not
line up with the `count` columns of the result says nothing. -/
def isConstant (a : Analysis) (index count : Nat) : Bool :=
  a.constants.length = count && a.constants[index]?.getD false

def isNullableTable (a : Analysis) (table : String) : Bool := table ∈ a.nullableTables

def isRefined (a : Analysis) (table column : String) : Bool :=
  a.refined.any fun (t, columns) => t = table && column ∈ columns

end Analysis
end RowTypes.Sql
