import RowTypes.Shape

/-! The text of a declaration: an interface with one property for each column,
and comments that name the queries, the columns' origins and their types. -/

namespace RowTypes

def replaceAll (old new : List Char) (cs : List Char) : List Char :=
  match cs with
  | [] => []
  | c :: rest =>
    if old ≠ [] ∧ old.isPrefixOf (c :: rest) then
      new ++ replaceAll old new (rest.drop (old.length - 1))
    else c :: replaceAll old new rest
termination_by cs.length
decreasing_by
  · simp only [List.length_drop, List.length_cons]
    omega
  · exact Nat.lt_succ_self _

def docLimit : Nat := 100

def docKeep : Nat := 40

def cutMiddle (cs : List Char) : List Char :=
  if cs.length > docLimit then
    cs.take docKeep ++ "... [truncated] ...".toList ++ cs.drop (cs.length - docKeep)
  else cs

def escapeDoc (cs : List Char) : List Char :=
  replaceAll "*/".toList "*\\/".toList (replaceAll ['\x60'] ['\\', '\x60'] cs)

def queryDoc (sql : String) : String :=
  let words := (Text.words sql.toList).intersperse [' '] |>.flatten
  String.ofList (escapeDoc (cutMiddle words))

def propertyName (name : String) : String :=
  if isIdentifier name then name else quoteLiteral name

namespace Column

def doc (c : Column) : String :=
  let source := c.source.toList.map fun s => "column: \x60" ++ s ++ "\x60"
  let notNull := if c.notNull then ["not null: \x60true\x60"] else []
  String.intercalate ", " (source ++ notNull ++ ["regtype: \x60" ++ c.regtype ++ "\x60"])

def propertyType (defaultType : String) (c : Column) : String :=
  let type := c.hostType.render defaultType
  if c.notNull then type else type ++ " | null"

end Column

namespace Declaration

def queriesDoc (indent : String) (d : Declaration) : String :=
  match d.queries.map fun q => queryDoc q.sql with
  | [single] => indent ++ "/** - query: \x60" ++ single ++ "\x60 */\n"
  | many =>
    indent ++ "/**\n" ++ indent ++ " * queries:\n" ++
      String.join (many.map fun q => indent ++ " * - \x60" ++ q ++ "\x60\n") ++
      indent ++ " */\n"

def property (defaultType indent : String) (c : Column) : String :=
  "\n" ++ indent ++ "  /** " ++ c.doc ++ " */\n" ++ indent ++ "  " ++ propertyName c.name ++ ": " ++
    c.propertyType defaultType

def render (defaultType indent : String) (d : Declaration) : String :=
  d.queriesDoc indent ++ indent ++ "export interface " ++ d.name ++ " \x7b" ++
    String.intercalate "\n" (d.columns.map (property defaultType indent)) ++ "\n" ++ indent ++ "\x7d"

end Declaration
end RowTypes
