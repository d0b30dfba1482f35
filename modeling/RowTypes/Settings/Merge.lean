import RowTypes.Keyed
import RowTypes.Settings.Value

/-! Tables of settings laid over one another: entries of the later one count, and a table
in a table is laid over the one that has its key. -/

namespace RowTypes.Value

def entries (v : Value) : List (String × Value) := v.entries?.getD []

mutual

def merge (old : Value) (v : Value) : Value :=
  match v with
  | table es => table (mergeEntries old.entries es)
  | v => v

def mergeEntries (old : List (String × Value)) : List (String × Value) → List (String × Value)
  | [] => old
  | (key, v) :: es => mergeEntries (Keyed.put key (merge ((old.lookup key).getD null) v) old) es

end

/-- Lays a value over what is at the end of a path. Whatever is in the way of the path
makes place for a table. -/
def setAt (v : Value) : List String → Value → Value
  | [], old => merge old v
  | key :: path, old =>
    table (Keyed.put key (setAt v path ((old.entries.lookup key).getD null)) old.entries)

def isKeyPart (c : Char) : Bool := c.isAlphanum || c = '_' || c = '-'

/-- The parts of a key between its points. A key that cannot be read so is one part. -/
def keyPath (key : String) : List String :=
  let parts := key.toList.splitOn '.'
  if parts.all fun part => part ≠ [] ∧ part.all isKeyPart then parts.map String.ofList else [key]

def overlay (v : Value) (es : List (String × Value)) : Value :=
  es.foldl (fun v (key, e) => setAt e (keyPath key) v) v

end RowTypes.Value
