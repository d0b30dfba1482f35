import RowTypes.Sql.Query
import RowTypes.Text.Case

/-! Names of tables and columns as the catalog has them, and finite sets of such
names, kept as lists without repetition. -/

namespace RowTypes.Sql

namespace NameSet

def insert (s : List String) (name : String) : List String :=
  if name ∈ s then s else s ++ [name]

@[simp] theorem mem_insert {s : List String} {name x : String} :
    x ∈ insert s name ↔ x ∈ s ∨ x = name := by
  simp only [insert]
  split
  · constructor
    · exact Or.inl
    · rintro (h | rfl) <;> assumption
  · simp

def union (s t : List String) : List String := t.foldl insert s

@[simp] theorem mem_union {s t : List String} {x : String} :
    x ∈ union s t ↔ x ∈ s ∨ x ∈ t := by
  induction t generalizing s with
  | nil => simp [union]
  | cons y t ih => rw [union, List.foldl_cons, ← union, ih, mem_insert, List.mem_cons, or_assoc]

def inter (s t : List String) : List String := s.filter (· ∈ t)

@[simp] theorem mem_inter {s t : List String} {x : String} :
    x ∈ inter s t ↔ x ∈ s ∧ x ∈ t := by
  simp [inter]

end NameSet

def lowerCase (s : String) : String := String.ofList (Text.lower s.toList)

namespace Ident

/-- The name that the catalog has for it: a bare identifier is in lower case. -/
def folded (i : Ident) : String :=
  match i.quote with
  | some _ => i.value
  | none => lowerCase i.value

/-- The text of a quoted identifier. A quote inside is doubled unless it stands
behind a backslash or is followed by another one. -/
def escape (quote : Char) (before : Char) : List Char → List Char
  | [] => []
  | c :: cs =>
    if c = quote then
      if before = '\\' then c :: escape quote before cs
      else
        match cs with
        | [] => [c, c]
        | d :: ds =>
          if d = quote then c :: d :: escape quote c ds else c :: c :: escape quote c (d :: ds)
    else c :: escape quote c cs
termination_by cs => cs.length

def display (i : Ident) : List Char :=
  match i.quote with
  | some q => q :: escape q '\x00' i.value.toList ++ [q]
  | none => i.value.toList

end Ident

def lastPart (cs : List Char) : List Char :=
  (cs.reverse.takeWhile (· ≠ '.')).reverse

def undouble : List Char → List Char
  | '"' :: '"' :: cs => '"' :: undouble cs
  | c :: cs => c :: undouble cs
  | [] => []

/-- The name of a table without its schema, in lower case unless it is quoted. It
is taken from the written form of the whole name. -/
def tableName (name : List Ident) : String :=
  let written := (name.map Ident.display).intersperse ['.'] |>.flatten
  match lastPart written with
  | '"' :: rest =>
    if rest.getLast? = some '"' then String.ofList (undouble rest.dropLast)
    else lowerCase (String.ofList ('"' :: rest))
  | part => lowerCase (String.ofList part)

end RowTypes.Sql
