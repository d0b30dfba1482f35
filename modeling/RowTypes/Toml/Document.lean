import RowTypes.Settings.Value

/-! The tables of a TOML document while it is read. A table is opened by its header
once. Tables on the way to it are implied, and may still be opened; those on the way
along a key with points may not. -/

namespace RowTypes.Toml

inductive Origin where
  | implied
  | dotted
  | opened
deriving DecidableEq, Repr

inductive Node where
  | value (v : Value)
  | table (origin : Origin) (entries : List (String × Node))
  /-- The tables of an array, of which the last one is still open. -/
  | tables (items : List (List (String × Node)))

abbrev Entries := List (String × Node)

namespace Entries

def replace (key : String) (node : Node) : Entries → Entries
  | [] => []
  | (k, n) :: es => if k = key then (k, node) :: es else (k, n) :: replace key node es

/-- Changes the table that a path leads to, by `f`, which is told whether the table
came about by a key with points. A path through an array leads to its last table. A
key, as against a header, does not lead into a table that was opened. -/
def change (isKey : Bool) (f : Bool → Entries → Option Entries) :
    List String → Bool → Entries → Option Entries
  | [], isDotted, es => f isDotted es
  | key :: path, _, es =>
    match es.lookup key with
    | none => do
      let inner ← change isKey f path isKey []
      return es ++ [(key, .table (if isKey then .dotted else .implied) inner)]
    | some (.value _) => none
    | some (.table origin inner) =>
      if isKey ∧ origin = .opened then none
      else do
        let inner ← change isKey f path (origin = .dotted) inner
        return replace key (.table origin inner) es
    | some (.tables items) =>
      match items.reverse with
      | [] => none
      | last :: before => do
        let last ← change isKey f path false last
        return replace key (.tables (before.reverse ++ [last])) es

def insert (path : List String) (v : Value) (es : Entries) : Option Entries :=
  match path.reverse with
  | [] => none
  | key :: above =>
    let add (isDotted : Bool) (es : Entries) : Option Entries :=
      if isDotted = above.isEmpty ∨ (es.lookup key).isSome then none
      else some (es ++ [(key, .value v)])
    change true add above.reverse false es

def insertBelow (header path : List String) (v : Value) (es : Entries) : Option Entries :=
  change false (fun _ es => insert path v es) header false es

def openTable (path : List String) (es : Entries) : Option Entries :=
  match path.reverse with
  | [] => none
  | key :: above =>
    let add (_ : Bool) (es : Entries) : Option Entries :=
      match es.lookup key with
      | none => some (es ++ [(key, .table .opened [])])
      | some (.table .implied inner) => some (replace key (.table .opened inner) es)
      | some _ => none
    change false add above.reverse false es

def openItem (path : List String) (es : Entries) : Option Entries :=
  match path.reverse with
  | [] => none
  | key :: above =>
    let add (_ : Bool) (es : Entries) : Option Entries :=
      match es.lookup key with
      | none => some (es ++ [(key, .tables [[]])])
      | some (.tables items) => some (replace key (.tables (items ++ [[]])) es)
      | some _ => none
    change false add above.reverse false es

end Entries

namespace Node

mutual

def toValue : Node → Value
  | value v => v
  | table _ entries => .table (toEntries entries)
  | tables items => .list (toTables items)

def toEntries : List (String × Node) → List (String × Value)
  | [] => []
  | (key, n) :: entries => (key, toValue n) :: toEntries entries

def toTables : List (List (String × Node)) → List Value
  | [] => []
  | entries :: items => .table (toEntries entries) :: toTables items

end

end Node
end RowTypes.Toml
