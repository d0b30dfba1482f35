import RowTypes.Shape

/-! The type arguments of a tag: a reference to a declaration, and whatever types
someone has added to it as further members of an intersection. -/

namespace RowTypes.Reference

def space : String := "queries"

def opens (c : Char) : Bool := c = '<' || c = '(' || c = '\x7b' || c = '['

def closes (c : Char) : Bool := c = '>' || c = ')' || c = '\x7d' || c = ']'

/-- Cuts a text at the first `separator` outside of brackets and strings. An arrow
closes no bracket, and a quote behind a backslash no string. -/
def cut (separator : Char) (quote : Option Char) (depth : Int) (before : Option Char) :
    List Char → Option (List Char × List Char)
  | [] => none
  | c :: cs =>
    let more quote depth :=
      (cut separator quote depth (some c) cs).map (.map (c :: ·) id)
    match quote with
    | some q => if c = q ∧ before ≠ some '\\' then more none depth else more (some q) depth
    | none =>
      if c = '\'' ∨ c = '"' ∨ c = '\x60' then more (some c) depth
      else if opens c then more none (depth + 1)
      else if c = '>' ∧ before = some '=' then more none depth
      else if closes c then more none (depth - 1)
      else if c = separator ∧ depth = 0 then some ([], cs)
      else more none depth

def cutTop (separator : Char) (cs : List Char) : Option (List Char × List Char) :=
  cut separator none 0 none cs

def ofName (name : String) : String := space ++ "." ++ name

/-- The type arguments that refer to `name` in place of the existing ones. The first
member of an intersection is replaced, the others are kept. All else gives way. -/
def merge (existing : Option String) (name : String) : String :=
  match existing with
  | none => ofName name
  | some text =>
    match cutTop '|' text.toList, cutTop '&' text.toList with
    | none, some (_, rest) =>
      let rest := Text.trim rest
      if rest = [] then ofName name else ofName name ++ " & " ++ String.ofList rest
    | _, _ => ofName name

def afterPrefix? (start : List Char) (cs : List Char) : Option (List Char) :=
  if start.isPrefixOf cs then some (cs.drop start.length) else none

def name? (typeArguments : String) : Option String := do
  let cs := typeArguments.toList
  let first := match cutTop '&' cs with
    | some (first, _) => first
    | none => cs
  let name := String.ofList (← afterPrefix? (space ++ ".").toList (Text.trim first))
  if isIdentifier name then some name else none

end RowTypes.Reference
