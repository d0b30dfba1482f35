import RowTypes.Source.Block

/-! A source file with its tags annotated and its declarations brought up to date.
Only the type arguments of tags and the block of declarations change. -/

namespace RowTypes.TypedSource

structure Edit where
  span : Span
  text : List Char
deriving DecidableEq, Repr

/-- Applies the edits from the last place to the first, so that none moves the place
of another. -/
def apply (edits : List Edit) (content : List Char) : List Char :=
  (edits.mergeSort fun a b => decide (b.span.start ≤ a.span.start)).foldl
    (fun cs e => Text.splice e.span e.text cs) content

def annotate (name : String) (q : QueryRecord) : Edit where
  span := (q.typeArguments.map TypeArguments.range).getD ⟨q.tagEnd, q.tagEnd⟩
  text := ("<" ++ Reference.merge (q.typeArguments.map TypeArguments.text) name ++ ">").toList

def annotations (ds : List Declaration) : List Edit :=
  ds.flatMap fun d => d.queries.map (annotate d.name)

/-- The interfaces of `block` that failed queries refer to, unless a new declaration
has the name. Each is found once. -/
def carried (block : List Char) (ds : List Declaration) (failed : List QueryRecord) :
    List (String × String) :=
  failed.foldl (fun found q =>
    match q.typeArguments.bind fun a => Reference.name? a.text with
    | none => found
    | some name =>
      if ds.any (·.name = name) ∨ found.any (·.1 = name) then found
      else
        match Block.interface? block name with
        | some text => found ++ [(name, String.ofList text)]
        | none => found) []

/-- A text without the block and the empty lines that set it apart. -/
def removeBlock (cut : Block.Cut) : List Char :=
  let before := (cut.before.reverse.dropWhile (· = '\n')).reverse
  if cut.after.all Text.isBlank then
    if before = [] then [] else before ++ ['\n']
  else before ++ cut.after

def appendBlock (content : List Char) (block : String) : List Char :=
  content ++ (if content.getLast? = some '\n' then "\n" else "\n\n").toList ++ block.toList ++ ['\n']

def isInfix (part : List Char) : List Char → Bool
  | [] => part = []
  | c :: cs => part.isPrefixOf (c :: cs) || isInfix part cs

/-- The file whose queries have the declarations `ds`, or have `failed`. A failed
query keeps its type arguments and the declaration that they name. -/
def render (content : List Char) (ds : List Declaration) (failed : List QueryRecord)
    (defaultType : String) : List Char :=
  let existing := Block.find? content
  let kept := match existing with
    | some cut => carried cut.middle ds failed
    | none => []
  if ds = [] ∧ kept = [] then
    match existing with
    | some cut => if isInfix Block.header.toList cut.middle then removeBlock cut else content
    | none => content
  else
    let block := Block.ofTexts (ds.map (Declaration.render defaultType "  ") ++ kept.map Prod.snd)
    match existing with
    | some cut => apply (annotations ds ++ [⟨cut.span, block.toList⟩]) content
    | none => apply (annotations ds) (appendBlock content block)

end RowTypes.TypedSource
