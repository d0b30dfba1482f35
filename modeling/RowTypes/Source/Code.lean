import RowTypes.Text.Place

/-! The lexical skeleton of TypeScript: just enough to tell code from comments,
strings, regular expressions and template literals. A stack of enclosures says
what the next character stands in; `skim` reads up to the place where the last
of them closes. -/

namespace RowTypes

inductive Construct where
  | comment
  | string
  | regex
  | template
  | expression
deriving DecidableEq, Repr

structure Unterminated where
  construct : Construct
  line : Nat
deriving DecidableEq, Repr

def Construct.describe : Construct → String
  | .comment => "comment"
  | .string => "string"
  | .regex => "regular expression"
  | .template => "template literal"
  | .expression => "template expression"

def Unterminated.message (u : Unterminated) : String :=
  "Unterminated " ++ u.construct.describe ++ " starting on line " ++ toString u.line

namespace Code

def isBlank (c : Char) : Bool :=
  c = ' ' || c = '\t' || c = '\n' || c = '\x0c' || c = '\r'

def startsWord (c : Char) : Bool :=
  c.isAlpha || c = '_' || c = '$' || 0x80 ≤ c.val

def continuesWord (c : Char) : Bool := startsWord c || c.isDigit

/-- What the last significant piece of code was, which decides whether a slash
begins a regular expression. `flags` is the place right behind one. -/
inductive Before where
  | operator
  | operand
  | flags
deriving DecidableEq, Repr, Inhabited

namespace Before

def read (b : Before) (c : Char) : Before :=
  if b = .flags && continuesWord c then .flags
  else if isBlank c then if b = .flags then .operator else b
  else if continuesWord c || c = ')' || c = ']' || c = '}' then .operand
  else .operator

def pass (b : Before) : Before := if b = .flags then .operator else b

end Before

/-- What a character stands in, with the line on which that began. -/
inductive Enclosure where
  | template (line : Nat)
  | expression (line depth : Nat) (before : Before)
  | quoted (line : Nat) (quote : Char)
  | regex (line : Nat) (inClass : Bool)
  | blockComment (line : Nat)
  | lineComment
deriving DecidableEq, Repr

inductive Step where
  | one (stack : List Enclosure)
  | two (stack : List Enclosure)
  | broken
deriving DecidableEq, Repr

def step (e : Enclosure) (outer : List Enclosure) (line : Nat) (c : Char)
    (following : Option Char) : Step :=
  match e with
  | .template l =>
    if c = '\\' then .two (.template l :: outer)
    else if c = '`' then .one outer
    else if c = '$' ∧ following = some '\x7b' then
      .two (.expression line 0 .operator :: .template l :: outer)
    else .one (.template l :: outer)
  | .expression l depth before =>
    let stay (b : Before) := Enclosure.expression l depth b :: outer
    if c = '/' ∧ following = some '/' then .two (.lineComment :: stay before.pass)
    else if c = '/' ∧ following = some '*' then .two (.blockComment line :: stay before.pass)
    else if c = '/' ∧ before ≠ .operand then .one (.regex line false :: stay .flags)
    else if c = '\'' ∨ c = '"' then .one (.quoted line c :: stay .operand)
    else if c = '`' then .one (.template line :: stay .operand)
    else if c = '\x7b' then .one (.expression l (depth + 1) .operator :: outer)
    else if c = '\x7d' then
      if depth = 0 then .one outer else .one (.expression l (depth - 1) .operand :: outer)
    else .one (stay (before.read c))
  | .quoted l quote =>
    if c = '\\' then .two (.quoted l quote :: outer)
    else if c = '\n' then .broken
    else if c = quote then .one outer
    else .one (.quoted l quote :: outer)
  | .regex l inClass =>
    if c = '\\' then .two (.regex l inClass :: outer)
    else if c = '\n' then .broken
    else if c = '[' then .one (.regex l true :: outer)
    else if c = ']' then .one (.regex l false :: outer)
    else if c = '/' ∧ inClass = false then .one outer
    else .one (.regex l inClass :: outer)
  | .blockComment l =>
    if c = '*' ∧ following = some '/' then .two outer else .one (.blockComment l :: outer)
  | .lineComment => if c = '\n' then .one outer else .one (.lineComment :: outer)

def unterminated : List Enclosure → Unterminated
  | .template l :: _ => ⟨.template, l⟩
  | .expression l _ _ :: _ => ⟨.expression, l⟩
  | .quoted l _ :: _ => ⟨.string, l⟩
  | .regex l _ :: _ => ⟨.regex, l⟩
  | .blockComment l :: _ => ⟨.comment, l⟩
  | .lineComment :: outer => unterminated outer
  | [] => ⟨.expression, 0⟩

structure Cursor where
  place : Place
  rest : List Char

/-- What follows the place where the whole stack is closed. -/
def skim : List Enclosure → Place → List Char → Except Unterminated Cursor
  | [], p, cs => .ok ⟨p, cs⟩
  | e :: outer, _, [] => .error (unterminated (e :: outer))
  | e :: outer, p, c :: cs =>
    match step e outer p.line c cs.head? with
    | .one stack => skim stack (p.next c) cs
    | .two stack =>
      match cs with
      | [] => .error (unterminated stack)
      | d :: cs => skim stack ((p.next c).next d) cs
    | .broken => .error (unterminated (e :: outer))
termination_by structural _ _ cs => cs

theorem skim_rest_le {stack p cs k} (h : skim stack p cs = .ok k) :
    k.rest.length ≤ cs.length := by
  fun_induction skim stack p cs with
  | case1 => cases h; exact Nat.le_refl _
  | case2 => cases h
  | case3 _ _ _ _ _ _ _ ih => exact Nat.le_succ_of_le (ih h)
  | case4 => cases h
  | case5 _ _ _ _ _ _ _ _ ih =>
    exact Nat.le_succ_of_le (Nat.le_succ_of_le (ih h))
  | case6 => cases h

theorem skim_rest_lt {e outer p cs k} (h : skim (e :: outer) p cs = .ok k) :
    k.rest.length < cs.length := by
  cases cs with
  | nil => cases h
  | cons c cs =>
    unfold skim at h
    split at h
    · exact Nat.lt_succ_of_le (skim_rest_le h)
    · split at h
      · cases h
      · exact Nat.lt_succ_of_le (Nat.le_succ_of_le (skim_rest_le h))
    · cases h

end Code
end RowTypes
