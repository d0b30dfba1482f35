import RowTypes.Inference
import RowTypes.Proofs.NullableTables

/-! The tables that an outer join extends by nulls, by the scoping rules of SQL: a name reads what
the innermost common table expression of this name in scope reads, and the table of this name where
there is none. In a recursive list all names are in scope from its beginning. Nothing is said of

* an expression that is read behind a query that has declared its name again and has ended,
* an expression that is read in front of its place in a recursive list,
* a name with a period or a double quote in it, or one between single quotes,
* a left or right join without the word `OUTER` behind the word `GLOBAL`,
* the tables of a `TABLE` command, and of a modification that is part of a query. -/

namespace RowTypes.Sql

/-- The common table expressions in scope, innermost first, with the tables that each of them
reads. -/
abbrev Scope := List (String × List String)

/-- A bare name, or one in double quotes, without periods and double quotes in it. -/
def Ident.isPlain (i : Ident) : Bool :=
  (i.quote = none || i.quote = some '"') && '.' ∉ i.value.toList && '"' ∉ i.value.toList

namespace Scope

def reads (s : Scope) (name : String) : List String := (s.lookup name).getD [name]

def readsPath (s : Scope) (path : List Ident) : List String :=
  match path.getLast? with
  | none => []
  | some name =>
    if !name.isPlain then [] else if path.length = 1 then s.reads name.folded else [name.folded]

/-- The scope behind a query that has declared these names. -/
def forget (s : Scope) (declared : List String) : Scope :=
  s.map fun (name, tables) => (name, if name ∈ declared then [] else tables)

/-- The scope at the beginning of a `WITH` list. -/
def opening (s : Scope) (recursive : Bool) (ctes : List Cte) : Scope :=
  if recursive then ctes.map (fun c => (c.name.folded, [])) ++ s else s

end Scope

mutual

def Query.isUnion : Query → Bool
  | .mk _ _ body => Body.isUnion body

def Body.isUnion : Body → Bool
  | .setOperation _ _ => true
  | .query q => Query.isUnion q
  | .select _ | .table | .values | .modification _ => false

end

/-- The scope inside the expression `name`, where `self` is what its own name reads. Only a set
operation of a recursive list can refer to itself. -/
def Scope.inside (s : Scope) (recursive : Bool) (name : Ident) (q : Query) (self : List String) :
    Scope :=
  if recursive && q.isUnion then (name.folded, self) :: s else s

mutual

def Query.declared : Query → List String
  | .mk _ ctes body => cteDeclared ctes ++ Body.declared body

def cteDeclared : List Cte → List String
  | [] => []
  | .mk name q :: rest => Query.declared q ++ name.folded :: cteDeclared rest

def Body.declared : Body → List String
  | .select (.mk _ sources _ _ _) => sourceDeclared sources
  | .query q => Query.declared q
  | .setOperation l r => Body.declared l ++ Body.declared r
  | .table | .values | .modification _ => []

def sourceDeclared : List FromItem → List String
  | [] => []
  | item :: rest => FromItem.declared item ++ sourceDeclared rest

def FromItem.declared : FromItem → List String
  | .mk relation joins => Relation.declared relation ++ joinDeclared joins

def joinDeclared : List Join → List String
  | [] => []
  | .mk _ relation :: rest => Relation.declared relation ++ joinDeclared rest

def Relation.declared : Relation → List String
  | .derived q => Query.declared q
  | .nested item => FromItem.declared item
  | .table _ | .other => []

end

mutual

def Query.tables (s : Scope) : Query → List String
  | .mk recursive ctes body =>
    Body.tables (scopeBehind recursive (s.opening recursive ctes) ctes) body

def scopeBehind (recursive : Bool) (s : Scope) : List Cte → Scope
  | [] => s
  | .mk name q :: rest =>
    let tables := Query.tables (s.inside recursive name q [name.folded]) q
    scopeBehind recursive ((name.folded, tables) :: s.forget q.declared) rest

def Body.tables (s : Scope) : Body → List String
  | .select (.mk _ sources _ _ _) => sourceTables s sources
  | .query q => Query.tables s q
  | .setOperation l r => Body.tables s l ++ Body.tables (s.forget l.declared) r
  | .table | .values | .modification _ => []

def sourceTables (s : Scope) : List FromItem → List String
  | [] => []
  | item :: rest => FromItem.tables s item ++ sourceTables (s.forget item.declared) rest

def FromItem.tables (s : Scope) : FromItem → List String
  | .mk relation joins =>
    Relation.tables s relation ++ joinedTables (s.forget relation.declared) joins

def joinedTables (s : Scope) : List Join → List String
  | [] => []
  | .mk _ relation :: rest =>
    Relation.tables s relation ++ joinedTables (s.forget relation.declared) rest

def Relation.tables (s : Scope) : Relation → List String
  | .table path => s.readsPath path
  | .derived q => Query.tables s q
  | .nested item => FromItem.tables s item
  | .other => []

end

/-- The tables of an expression of a `WITH` list. What its own name reads inside it
adds nothing to them but the table of this name. -/
def Cte.tables (recursive : Bool) (s : Scope) : Cte → List String
  | .mk name q => q.tables (s.inside recursive name q [name.folded])

/-- The operands of a join that it extends by nulls where no row matches. -/
def JoinKind.nullExtended (kind : JoinKind) (seen joined : List String) : List String :=
  if kind.isOverlooked then []
  else (if kind.extendsLeft then seen else []) ++ (if kind.extendsRight then joined else [])

mutual

/-- The tables that the outer joins anywhere in a query extend by nulls. -/
def Query.extended (s : Scope) : Query → List String
  | .mk recursive ctes body =>
    cteExtended recursive (s.opening recursive ctes) ctes ++
      Body.extended (scopeBehind recursive (s.opening recursive ctes) ctes) body

def cteExtended (recursive : Bool) (s : Scope) : List Cte → List String
  | [] => []
  | .mk name q :: rest =>
    let tables := Cte.tables recursive s (.mk name q)
    Query.extended (s.inside recursive name q (name.folded :: tables)) q ++
      cteExtended recursive ((name.folded, tables) :: s.forget q.declared) rest

def Body.extended (s : Scope) : Body → List String
  | .select (.mk _ sources _ _ _) => sourceExtended s sources
  | .query q => Query.extended s q
  | .setOperation l r => Body.extended s l ++ Body.extended (s.forget l.declared) r
  | .table | .values | .modification _ => []

def sourceExtended (s : Scope) : List FromItem → List String
  | [] => []
  | item :: rest => FromItem.extended s item ++ sourceExtended (s.forget item.declared) rest

def FromItem.extended (s : Scope) : FromItem → List String
  | .mk relation joins =>
    Relation.extended s relation ++
      joinExtended (s.forget relation.declared) (relation.tables s) joins

def joinExtended (s : Scope) (seen : List String) : List Join → List String
  | [] => []
  | .mk kind relation :: rest =>
    let joined := relation.tables s
    Relation.extended s relation ++ kind.nullExtended seen joined ++
      joinExtended (s.forget relation.declared) (seen ++ joined) rest

def Relation.extended (s : Scope) : Relation → List String
  | .derived q => Query.extended s q
  | .nested item => FromItem.extended s item
  | .table _ | .other => []

end

/-- The tables that the outer joins of a statement extend by nulls. Of a modification
these are the joins among the tables that it uses. -/
def Statement.extended : Statement → List String
  | .query q => q.extended []
  | .modification (.update target sources) => sourceExtended [] (target :: sources)
  | .modification (.delete sources usings) => sourceExtended [] (sources ++ usings)
  | .modification (.insert _) | .other => []

end RowTypes.Sql
