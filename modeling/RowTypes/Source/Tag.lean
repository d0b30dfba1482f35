import RowTypes.Source.Template

/-! The `sql` tagged templates of a source text: the word `sql`, type arguments
or none, then a template literal. A `sql` that no template follows is an
ordinary word. -/

namespace RowTypes

structure Tag where
  /-- Behind the word `sql`, where type arguments go. -/
  tagEnd : Nat
  /-- The type arguments that are there, with their brackets. -/
  typeArguments : Option Span
  /-- The template literal, with its backticks. -/
  template : Span
  /-- The line of the word `sql`. -/
  line : Nat
  sql : String
  paramCount : Nat
deriving DecidableEq, Repr

namespace Tag

/-- The characters up to the angle bracket that closes the last of `depth` open
ones, and those behind it. An arrow closes nothing, a bracket inside a string
counts for nothing, and a semicolon or a backtick shows that no type arguments
stand here. `afterEquals` tells whether the character before was an equals
sign, `quoted` the quote of the string being read. -/
def closeAngle (quoted : Option Char) (depth : Nat) (afterEquals : Bool) :
    List Char → Option (List Char × List Char)
  | [] => none
  | c :: cs =>
    match quoted with
    | some q =>
      if c = q ∨ c = '\n' then (closeAngle none depth false cs).map (.map (c :: ·) id)
      else if c = '\\' then
        match cs with
        | [] => none
        | d :: cs => (closeAngle (some q) depth false cs).map (.map (c :: d :: ·) id)
      else (closeAngle (some q) depth false cs).map (.map (c :: ·) id)
    | none =>
      if c = '>' ∧ afterEquals = false ∧ depth ≤ 1 then some ([c], cs)
      else if c = ';' ∨ c = '\x60' then none
      else
        let quoted := if c = '\'' ∨ c = '"' then some c else none
        let depth :=
          if c = '<' then depth + 1
          else if c = '>' ∧ afterEquals = false then depth - 1
          else depth
        (closeAngle quoted depth (c = '=') cs).map (.map (c :: ·) id)
termination_by structural cs => cs

theorem closeAngle_append {quoted depth afterEquals cs args rest}
    (h : closeAngle quoted depth afterEquals cs = some (args, rest)) : args ++ rest = cs := by
  fun_induction closeAngle quoted depth afterEquals cs generalizing args <;>
    simp_all <;> grind

def typeArguments? : List Char → Option (List Char × List Char)
  | '<' :: cs => (closeAngle none 1 false cs).map (.map ('<' :: ·) id)
  | _ => none

theorem typeArguments?_append {cs args rest} (h : typeArguments? cs = some (args, rest)) :
    args ++ rest = cs := by
  unfold typeArguments? at h
  split at h
  · obtain ⟨⟨a, r⟩, hc, he⟩ := Option.map_eq_some_iff.1 h
    cases he
    simpa using closeAngle_append hc
  · cases h

def skipBlanks (p : Place) (cs : List Char) : Code.Cursor :=
  ⟨p.after (cs.takeWhile Code.isBlank), cs.dropWhile Code.isBlank⟩

theorem skipBlanks_rest_le (p : Place) (cs : List Char) :
    (skipBlanks p cs).rest.length ≤ cs.length :=
  (List.dropWhile_sublist _).length_le

structure Heading where
  typeArguments : Option Span
  /-- At the opening backtick. -/
  template : Code.Cursor

def heading? (p : Place) (cs : List Char) : Option Heading :=
  let gap := skipBlanks p cs
  if gap.rest.head? = some '<' then
    match typeArguments? gap.rest with
    | none => none
    | some (args, rest) =>
      let stop := gap.place.after args
      let template := skipBlanks stop rest
      if template.rest.head? = some '\x60' then
        some ⟨some ⟨gap.place.offset, stop.offset⟩, template⟩
      else none
  else if gap.rest.head? = some '\x60' then some ⟨none, gap⟩
  else none

theorem heading?_rest_le {p cs k} (h : heading? p cs = some k) :
    k.template.rest.length ≤ cs.length := by
  have hgap := skipBlanks_rest_le p cs
  simp only [heading?] at h
  split at h
  · split at h
    · cases h
    · rename_i args rest ha
      split at h
      · cases h
        have := congrArg List.length (typeArguments?_append ha)
        have := skipBlanks_rest_le ((skipBlanks p cs).place.after args) rest
        simp only [List.length_append] at *
        omega
      · cases h
  · split at h
    · cases h
      exact hgap
    · cases h

def word : List Char := ['s', 'q', 'l']

theorem dropWhile_rest_lt (q : Char → Bool) (c : Char) (cs : List Char) :
    (cs.dropWhile q).length < (c :: cs).length :=
  Nat.lt_succ_of_le (List.dropWhile_sublist q).length_le

def scanFrom (before : Code.Before) (p : Place) :
    List Char → Except Unterminated (List Tag)
  | [] => .ok []
  | c :: cs =>
    if c = '/' ∧ cs.head? = some '/' then
      scanFrom before (p.after ((c :: cs).takeWhile (· ≠ '\n'))) ((c :: cs).dropWhile (· ≠ '\n'))
    else if c = '/' ∧ cs.head? = some '*' then
      match _closed : Code.skim [.blockComment p.line] (p.after ['/', '*']) cs.tail with
      | .error e => .error e
      | .ok k => scanFrom before k.place k.rest
    else if c = '/' ∧ before ≠ .operand then
      match _closed : Code.skim [.regex p.line false] (p.next c) cs with
      | .error e => .error e
      | .ok k =>
        scanFrom .operator (k.place.after (k.rest.takeWhile Code.continuesWord))
          (k.rest.dropWhile Code.continuesWord)
    else if c = '\'' ∨ c = '"' then
      match _closed : Code.skim [.quoted p.line c] (p.next c) cs with
      | .error e => .error e
      | .ok k => scanFrom .operand k.place k.rest
    else if c = '\x60' then
      match _closed : Template.cook p.line 0 (p.next c) cs with
      | .error e => .error e
      | .ok t => scanFrom .operand t.stop t.rest
    else if Code.startsWord c then
      let name := c :: cs.takeWhile Code.continuesWord
      let behind := p.after name
      let rest := cs.dropWhile Code.continuesWord
      if name = word then
        match _heading : heading? behind rest with
        | none => scanFrom .operand behind rest
        | some k =>
          match _closed : Template.cook k.template.place.line 0 (k.template.place.next '\x60')
              k.template.rest.tail with
          | .error e => .error e
          | .ok t =>
            (scanFrom .operand t.stop t.rest).map
              (⟨behind.offset, k.typeArguments, ⟨k.template.place.offset, t.stop.offset⟩,
                p.line, String.ofList t.text, t.params⟩ :: ·)
      else scanFrom .operand behind rest
    else scanFrom (before.read c) (p.next c) cs
termination_by cs => cs.length
decreasing_by
  · rename_i h
    simp_wf
    simp only [h.1, List.dropWhile_cons]
    have := (List.dropWhile_sublist (fun x : Char => !decide (x = '\n')) (l := cs)).length_le
    simp
    omega
  · have := Code.skim_rest_lt _closed
    have : cs.tail.length ≤ cs.length := by simp
    simp_wf
    omega
  · have := Code.skim_rest_lt _closed
    have := (List.dropWhile_sublist Code.continuesWord (l := k.rest)).length_le
    simp_wf
    omega
  · have := Code.skim_rest_lt _closed
    simp_wf
    omega
  · have := Template.cook_rest_lt _closed
    simp_wf
    omega
  · exact dropWhile_rest_lt Code.continuesWord c cs
  · have := Template.cook_rest_lt _closed
    have := heading?_rest_le _heading
    have : rest.length ≤ cs.length := (List.dropWhile_sublist _).length_le
    have : k.template.rest.tail.length ≤ k.template.rest.length := by simp
    simp_wf
    omega
  · exact dropWhile_rest_lt Code.continuesWord c cs
  · simp_wf

def scan (source : String) : Except Unterminated (List Tag) :=
  scanFrom .operator .start source.toList

end Tag
end RowTypes
