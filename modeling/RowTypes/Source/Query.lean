import RowTypes.Path
import RowTypes.Source.Tag
import RowTypes.Text.Blank
import RowTypes.Text.Letter
import RowTypes.Text.Numeral

/-! The queries of a source file. A file whose name ends in `.sql` is one query,
of any other file the tagged templates are. -/

namespace RowTypes

attribute [local instance (high)] instPowNat

inductive QueryKind where
  | inline
  | sqlFile
deriving DecidableEq, Repr

structure TypeArguments where
  /-- With the brackets. -/
  range : Span
  /-- Between the brackets, without blanks at its ends. -/
  text : String
deriving DecidableEq, Repr

structure QueryRecord where
  file : String
  /-- The template literal, or the whole file. -/
  range : Span
  line : Nat
  sql : String
  typeArguments : Option TypeArguments
  /-- Where type arguments go if there are none. -/
  tagEnd : Nat
  kind : QueryKind
  paramCount : Nat
deriving DecidableEq, Repr

structure SourceFile where
  path : String
  content : String
  queries : List QueryRecord
deriving DecidableEq, Repr

def isSqlPath (path : String) : Bool := Path.extension? path = some "sql"

def SourceFile.isSqlFile (f : SourceFile) : Bool := isSqlPath f.path

namespace QueryRecord

def trimText (cs : List Char) : String := String.ofList (Text.trim cs)

def ofTag (path : String) (content : List Char) (tag : Tag) : QueryRecord where
  file := path
  range := tag.template
  line := tag.line
  sql := tag.sql
  typeArguments := tag.typeArguments.map fun range =>
    ⟨range, trimText (Text.slice ⟨range.start + 1, range.stop - 1⟩ content)⟩
  tagEnd := tag.tagEnd
  kind := .inline
  paramCount := tag.paramCount

/-- The number that a run of digits spells. A digit of another script spells none,
nor does a number of more than 64 bits. -/
def parameterNumber? (digits : List Char) : Option Nat :=
  (Text.natural? digits).filter (· < 2 ^ (64 : Nat))

def parameterNumbers : List Char → List Nat
  | [] => []
  | c :: cs =>
    if c = '$' then
      (parameterNumber? (cs.takeWhile Text.isDecimal)).toList ++ parameterNumbers cs
    else parameterNumbers cs

def ofSqlFile? (path content : String) : Option QueryRecord :=
  let cs := content.toList
  if cs.all Text.isBlank then none
  else
    some {
      file := path
      range := ⟨0, Text.size cs⟩
      line := 1
      sql := content
      typeArguments := none
      tagEnd := 0
      kind := .sqlFile
      paramCount := (parameterNumbers cs).foldl max 0 }

end QueryRecord

def SourceFile.extract (path content : String) : Except Unterminated SourceFile := do
  if isSqlPath path then
    return ⟨path, content, (QueryRecord.ofSqlFile? path content).toList⟩
  else
    let tags ← Tag.scan content
    return ⟨path, content, tags.map (QueryRecord.ofTag path content.toList)⟩

end RowTypes
