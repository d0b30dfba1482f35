/-! A tree of files as a map from locations to entries. A location is the list of
names from the root down, so it holds no links and no steps upwards. The laws say
what a change at one location leaves at another. -/

namespace RowTypes

inductive Content where
  | text (s : String)
  /-- Bytes that are not UTF-8. -/
  | binary (bytes : List UInt8)
deriving DecidableEq, Repr

def Content.ofBytes (bytes : ByteArray) : Content :=
  match String.fromUTF8? bytes with
  | some s => .text s
  | none => .binary bytes.toList

inductive Entry where
  | file (content : Content) (mode : Nat)
  | directory (mode : Nat)
  | link (target : String)
deriving DecidableEq, Repr

inductive FileError where
  | notFound
  | busy
  | alreadyExists
  | notADirectory
  | isADirectory
  | filesystemLoop
  | invalidData
deriving DecidableEq, Repr

def FileError.message : FileError → String
  | notFound => "No such file or directory (os error 2)"
  | busy => "Device or resource busy (os error 16)"
  | alreadyExists => "File exists (os error 17)"
  | notADirectory => "Not a directory (os error 20)"
  | isADirectory => "Is a directory (os error 21)"
  | filesystemLoop => "Too many levels of symbolic links (os error 40)"
  | invalidData => "stream did not contain valid UTF-8"

abbrev Location := List String

structure FileTree where
  entries : List (Location × Entry)
  workingDirectory : Location
  /-- The permissions that new files do not get. -/
  umask : Nat
deriving DecidableEq, Repr

namespace FileTree

def get? (t : FileTree) (l : Location) : Option Entry := t.entries.lookup l

def set (t : FileTree) (l : Location) (e : Entry) : FileTree :=
  { t with entries := (l, e) :: t.entries.filter (·.1 ≠ l) }

def erase (t : FileTree) (l : Location) : FileTree :=
  { t with entries := t.entries.filter (·.1 ≠ l) }

def eraseBelow (t : FileTree) (l : Location) : FileTree :=
  { t with entries := t.entries.filter fun e => !l.isPrefixOf e.1 }

theorem lookup_filter_ne {α : Type} (l l' : Location) (h : l' ≠ l) :
    (es : List (Location × α)) → (es.filter (·.1 ≠ l)).lookup l' = es.lookup l'
  | [] => rfl
  | (k, e) :: es => by
    have ih := lookup_filter_ne l l' h es
    by_cases hk : k = l
    · subst hk
      simp only [ne_eq, not_true_eq_false, decide_false, Bool.false_eq_true, not_false_eq_true,
        List.filter_cons_of_neg, List.lookup_cons, beq_eq_false_iff_ne.mpr h]
      exact ih
    · simp only [ne_eq, hk, not_false_eq_true, decide_true, List.filter_cons_of_pos,
        List.lookup_cons, ih]

theorem lookup_filter_self {α : Type} (l : Location) :
    (es : List (Location × α)) → (es.filter (·.1 ≠ l)).lookup l = none
  | [] => rfl
  | (k, e) :: es => by
    have ih := lookup_filter_self l es
    by_cases hk : k = l
    · simpa [hk] using ih
    · have : (l == k) = false := beq_eq_false_iff_ne.mpr (Ne.symm hk)
      simpa [hk, List.lookup_cons, this] using ih

@[simp] theorem get?_set_self (t : FileTree) (l : Location) (e : Entry) :
    (t.set l e).get? l = some e := by
  simp [get?, set]

theorem get?_set_of_ne (t : FileTree) {l l' : Location} (e : Entry) (h : l' ≠ l) :
    (t.set l e).get? l' = t.get? l' := by
  simp only [get?, set, List.lookup_cons, beq_eq_false_iff_ne.mpr h]
  exact lookup_filter_ne l l' h t.entries

@[simp] theorem get?_erase_self (t : FileTree) (l : Location) : (t.erase l).get? l = none :=
  lookup_filter_self l t.entries

theorem get?_erase_of_ne (t : FileTree) {l l' : Location} (h : l' ≠ l) :
    (t.erase l).get? l' = t.get? l' :=
  lookup_filter_ne l l' h t.entries

def names (t : FileTree) (l : Location) : List String :=
  ((t.entries.filterMap fun (k, _) => if k.dropLast = l then k.getLast? else none).mergeSort
    fun a b => decide (a ≤ b)).eraseDups

def depth (t : FileTree) : Nat := (t.entries.map fun e => e.1.length).foldl max 0

/-- A name that is longer than any other. -/
def unusedName (t : FileTree) : String :=
  let longest := (t.entries.flatMap fun e => e.1.map String.length).foldl max 0
  String.ofList ('.' :: List.replicate longest '~')

def empty (workingDirectory : Location) (umask : Nat) : FileTree where
  entries := (List.range (workingDirectory.length + 1)).map fun n =>
    (workingDirectory.take n, .directory (0o777 - (0o777 &&& umask)))
  workingDirectory := workingDirectory
  umask := umask

end FileTree
end RowTypes
