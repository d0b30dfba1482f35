/-! The part of a statement's syntax that decides which of its result columns can
be null. Constants, casts and operators that are not comparisons are kept
without their text, everything else in an expression is `other`. -/

namespace RowTypes.Sql

structure Ident where
  value : String
  quote : Option Char
deriving DecidableEq, Repr, Inhabited

inductive Comparison where
  | eq
  | ne
  | lt
  | le
  | gt
  | ge
deriving DecidableEq, Repr

inductive Expr where
  | null
  | placeholder
  | constant
  /-- A constant behind the name of its type. -/
  | typedString
  | column (path : List Ident)
  /-- All columns, or all columns of one table. -/
  | wildcard
  | nested (e : Expr)
  | cast (e : Expr)
  | unary (e : Expr)
  | compare (op : Comparison) (l r : Expr)
  | and (l r : Expr)
  | or (l r : Expr)
  | isNotNull (e : Expr)
  | call
  | other
deriving DecidableEq, Repr, Inhabited

inductive GroupItem where
  | expr (e : Expr)
  | rollup (sets : List (List Expr))
  | cube (sets : List (List Expr))
  | groupingSets (sets : List (List Expr))
deriving Repr

inductive Grouping where
  | all
  | items (items : List GroupItem)
deriving Repr

inductive SelectItem where
  | expr (e : Expr)
  | wildcard
deriving Repr

inductive JoinOperator where
  | join
  | inner
  | left
  | leftOuter
  | right
  | rightOuter
  | fullOuter
  | cross
  | semi
  | leftSemi
  | rightSemi
  | anti
  | leftAnti
  | rightAnti
  | crossApply
  | outerApply
  | asOf
  | straight
deriving DecidableEq, Repr

structure JoinKind where
  operator : JoinOperator
  natural : Bool
  global : Bool
deriving DecidableEq, Repr

mutual

inductive Query where
  | mk (recursive : Bool) (ctes : List Cte) (body : Body)

inductive Cte where
  | mk (name : Ident) (query : Query)

inductive Body where
  | select (s : Select)
  | query (q : Query)
  | setOperation (l r : Body)
  | table
  | values
  | modification (m : Modification)

inductive Select where
  | mk (projection : List SelectItem) (sources : List FromItem) (selection : Option Expr)
      (grouping : Grouping) (having : Option Expr)

inductive FromItem where
  | mk (relation : Relation) (joins : List Join)

inductive Join where
  | mk (kind : JoinKind) (relation : Relation)

inductive Relation where
  /-- A table, or a function call that yields one. -/
  | table (name : List Ident)
  | derived (q : Query)
  | nested (item : FromItem)
  | other

inductive Modification where
  | insert (source : Option Query)
  | update (target : FromItem) (sources : List FromItem)
  | delete (sources usings : List FromItem)

end

instance : Inhabited Query := ⟨.mk false [] .values⟩
instance : Inhabited Relation := ⟨.other⟩
instance : Inhabited FromItem := ⟨.mk .other []⟩

namespace Query

def ctes : Query → List Cte
  | mk _ ctes _ => ctes

def body : Query → Body
  | mk _ _ body => body

end Query

namespace Cte

def name : Cte → Ident
  | mk name _ => name

def query : Cte → Query
  | mk _ query => query

end Cte

namespace FromItem

def relation : FromItem → Relation
  | mk relation _ => relation

def joins : FromItem → List Join
  | mk _ joins => joins

end FromItem

namespace Join

def kind : Join → JoinKind
  | mk kind _ => kind

def relation : Join → Relation
  | mk _ relation => relation

end Join

inductive Statement where
  | query (q : Query)
  | modification (m : Modification)
  | other

end RowTypes.Sql
