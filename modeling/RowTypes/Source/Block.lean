import RowTypes.Declaration
import RowTypes.Source.Reference

/-! The namespace that holds a file's declarations: its text, where it stands in a
file, and where a single declaration stands in it. The end is found by matching
braces, apart from those in comments and strings. -/

namespace RowTypes.Block

def header : String := "// Generated by pgtypegen"

def beginning : String :=
  "export declare namespace " ++ Reference.space ++ " \x7b\n  " ++ header ++ "\n"

def entries (texts : List String) : String :=
  String.join (texts.map fun text => "\n" ++ text ++ "\n")

def ofTexts (texts : List String) : String := beginning ++ entries texts ++ "\x7d"

def render (defaultType : String) (ds : List Declaration) : String :=
  ofTexts (ds.map (Declaration.render defaultType "  "))

inductive Inside where
  | code
  | lineComment
  | blockComment
  | quoted (quote : Char)
deriving DecidableEq, Repr

/-- The text up to the brace that closes the last of `depth` open ones, and the
text behind it. -/
def closeBrace (inside : Inside) (depth : Nat) : List Char → Option (List Char × List Char)
  | [] => none
  | c :: cs =>
    match inside with
    | .lineComment =>
      (closeBrace (if c = '\n' then .code else .lineComment) depth cs).map (.map (c :: ·) id)
    | .blockComment =>
      if c = '*' then
        match cs with
        | '/' :: cs => (closeBrace .code depth cs).map (.map (c :: '/' :: ·) id)
        | cs => (closeBrace .blockComment depth cs).map (.map (c :: ·) id)
      else (closeBrace .blockComment depth cs).map (.map (c :: ·) id)
    | .quoted q =>
      if c = q then (closeBrace .code depth cs).map (.map (c :: ·) id)
      else if c = '\\' then
        match cs with
        | [] => none
        | d :: cs => (closeBrace (.quoted q) depth cs).map (.map (c :: d :: ·) id)
      else (closeBrace (.quoted q) depth cs).map (.map (c :: ·) id)
    | .code =>
      if c = '/' then
        match cs with
        | '/' :: cs => (closeBrace .lineComment depth cs).map (.map (c :: '/' :: ·) id)
        | '*' :: cs => (closeBrace .blockComment depth cs).map (.map (c :: '*' :: ·) id)
        | cs => (closeBrace .code depth cs).map (.map (c :: ·) id)
      else if c = '\'' ∨ c = '"' ∨ c = '\x60' then
        (closeBrace (.quoted c) depth cs).map (.map (c :: ·) id)
      else if c = '\x7b' then (closeBrace .code (depth + 1) cs).map (.map (c :: ·) id)
      else if c = '\x7d' then
        if depth ≤ 1 then some ([c], cs)
        else (closeBrace .code (depth - 1) cs).map (.map (c :: ·) id)
      else (closeBrace .code depth cs).map (.map (c :: ·) id)
termination_by structural cs => cs

def afterBlanks (p : List Char → Option (List Char)) : List Char → Option (List Char)
  | [] => none
  | c :: cs => if Text.isBlank c then (p cs).or (afterBlanks p cs) else none

def afterText (text : String) (cs : List Char) : Option (List Char) :=
  Reference.afterPrefix? text.toList cs

def afterBrace (cs : List Char) : Option (List Char) :=
  match cs.dropWhile Text.isBlank with
  | '\x7b' :: rest => some rest
  | _ => none

def afterNamespaceHeader (cs : List Char) : Option (List Char) := do
  let rest ← afterBlanks (afterText "declare") (← afterText "export" cs)
  let rest ← afterBlanks (afterText "namespace") rest
  afterBrace (← afterBlanks (afterText Reference.space) rest)

def afterInterfaceHeader (name : String) (cs : List Char) : Option (List Char) := do
  let rest ← afterBlanks (afterText "interface") (← afterText "export" cs)
  afterBlanks (fun cs => (afterText name cs).bind afterBrace) rest

def findHeader (header : List Char → Option (List Char)) :
    List Char → Option (List Char × List Char × List Char)
  | [] => none
  | c :: cs =>
    match header (c :: cs) with
    | some rest => some ([], (c :: cs).take ((c :: cs).length - rest.length), rest)
    | none => (findHeader header cs).map (.map (c :: ·) id)

structure Cut where
  before : List Char
  middle : List Char
  after : List Char
deriving DecidableEq, Repr

def Cut.span (c : Cut) : Span := ⟨Text.size c.before, Text.size c.before + Text.size c.middle⟩

def findBraced (header : List Char → Option (List Char)) (cs : List Char) : Option Cut := do
  let (before, head, rest) ← findHeader header cs
  let (body, after) ← closeBrace .code 1 rest
  return ⟨before, head ++ body, after⟩

def find? (cs : List Char) : Option Cut := findBraced afterNamespaceHeader cs

def lastLine (cs : List Char) : List Char × List Char :=
  let line := (cs.reverse.takeWhile (· ≠ '\n')).reverse
  (cs.take (cs.length - line.length), line)

def beforeLast? (mark : List Char) (cs : List Char) : Option (List Char) :=
  (findHeader (Reference.afterPrefix? mark.reverse) cs.reverse).map fun (_, _, rest) =>
    rest.reverse

/-- How much of the text before an interface is not its own: all up to its line, or
up to the line of the comment above it. -/
def unrelated (before : List Char) : List Char :=
  let (above, _) := lastLine before
  let trimmed := Text.trimEnd above
  if "*/".toList.isSuffixOf trimmed then
    match beforeLast? "/**".toList trimmed with
    | some head => (lastLine head).1
    | none => above
  else above

/-- The interface `name` as it stands in a block, with its comment and indentation. -/
def interface? (block : List Char) (name : String) : Option (List Char) := do
  let found ← findBraced (afterInterfaceHeader name) block
  return (found.before ++ found.middle).drop (unrelated found.before).length

end RowTypes.Block
