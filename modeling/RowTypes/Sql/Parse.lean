import RowTypes.Sql.Token

/-! Reading a list of tokens from the left. A reader fails where the tokens do
not fit it; running into the limit on nesting is a failure of its own, which no
alternative makes good. -/

namespace RowTypes.Sql

inductive Failure where
  | mismatch
  | tooDeep
deriving DecidableEq, Repr

abbrev Parse := StateT (List Token) (Except Failure)

namespace Parse

def fail {α : Type} : Parse α := throw .mismatch

/-- The outcome of `p`; a failure leaves the tokens as they were. -/
def outcome {α : Type} (p : Parse α) : Parse (Except Failure α) := fun tokens =>
  match p tokens with
  | .ok (a, rest) => .ok (.ok a, rest)
  | .error e => .ok (.error e, tokens)

/-- What `p` reads, or nothing where it does not fit. -/
def attempt {α : Type} (p : Parse α) : Parse (Option α) := do
  match ← outcome p with
  | .ok a => return some a
  | .error .mismatch => return none
  | .error .tooDeep => throw .tooDeep

def peek : Parse (Option Token) := return (← get).head?

def peekKey : Parse String := return ((← peek).map Token.key).getD ""

def next : Parse Token := do
  match ← get with
  | [] => fail
  | t :: rest => set rest; return t

def keyword (key : String) : Parse Bool := do
  match ← get with
  | t :: rest => if t.key = key then set rest; return true else return false
  | [] => return false

def keywords (keys : List String) : Parse Bool := do
  let tokens ← get
  if tokens.length ≥ keys.length ∧ (tokens.take keys.length).map Token.key = keys then
    set (tokens.drop keys.length)
    return true
  else return false

def oneOf (keys : List String) : Parse (Option String) := do
  let key ← peekKey
  if key ≠ "" ∧ key ∈ keys then
    discard next
    return some key
  else return none

def skipKeyword (key : String) : Parse Unit := discard (keyword key)

def skipOneOf (keys : List String) : Parse Unit := discard (oneOf keys)

def symbol (s : String) : Parse Bool := do
  match ← get with
  | t :: rest => if t = .symbol s then set rest; return true else return false
  | [] => return false

def peekSymbol (s : String) : Parse Bool := return (← peek) = some (.symbol s)

def expectKeyword (key : String) : Parse Unit := do
  unless ← keyword key do fail

def expectKeywords (keys : List String) : Parse Unit := do
  unless ← keywords keys do fail

def expectSymbol (s : String) : Parse Unit := do
  unless ← symbol s do fail

def parenthesized {α : Type} (p : Parse α) : Parse α := do
  expectSymbol "("
  let a ← p
  expectSymbol ")"
  return a

/-- `p` up to `n + 1` times, with commas between. -/
def commaSeparatedUpTo {α : Type} (p : Parse α) : Nat → Parse (List α)
  | 0 => return [← p]
  | n + 1 => do
    let a ← p
    if ← symbol "," then return a :: (← commaSeparatedUpTo p n) else return [a]

def commaSeparated {α : Type} (p : Parse α) : Parse (List α) := do
  commaSeparatedUpTo p (← get).length

def manyUpTo {α : Type} (p : Parse (Option α)) : Nat → Parse (List α)
  | 0 => return []
  | n + 1 => do
    match ← p with
    | some a => return a :: (← manyUpTo p n)
    | none => return []

def many {α : Type} (p : Parse (Option α)) : Parse (List α) := do
  manyUpTo p ((← get).length + 1)

def identifier : Parse Ident := do
  match ← next with
  | .word name _ => return name
  | .string value => return ⟨value, some '\''⟩
  | _ => fail

def objectName : Parse (List Ident) := do
  let first ← identifier
  let more ← many do
    if ← symbol "." then return some (← identifier) else return none
  return first :: more

def wholeNumber : Parse Unit := do
  match ← next with
  | .number digits => if digits.toList.all Char.isDigit then return () else fail
  | _ => fail

def value : Parse Expr := do
  match ← next with
  | .word name key =>
    if key = "TRUE" ∨ key = "FALSE" ∨ name.quote.isSome then return .constant
    else if key = "NULL" then return .null
    else fail
  | .number _ => return .constant
  | .string _ => return .constant
  | .constant => return .constant
  | .placeholder => return .placeholder
  | .symbol s =>
    if s = ":" ∨ s = "@" then
      match ← next with
      | .word .. => return .placeholder
      | .number _ => return .placeholder
      | _ => fail
    else fail
  | .operator => fail

end Parse
end RowTypes.Sql
