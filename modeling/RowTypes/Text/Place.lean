/-! Places and spans in a text. An offset counts the bytes of the UTF-8 form of
what stands before it, a line is one more than the line feeds before it. Texts
are lists of characters here, so every offset that this file hands out lies
between two characters. -/

namespace RowTypes

structure Place where
  offset : Nat
  line : Nat
deriving DecidableEq, Repr, Inhabited

structure Span where
  start : Nat
  stop : Nat
deriving DecidableEq, Repr, Inhabited

namespace Text

def size : List Char → Nat
  | [] => 0
  | c :: cs => c.utf8Size + size cs

@[simp] theorem size_nil : size [] = 0 := rfl

@[simp] theorem size_cons (c : Char) (cs : List Char) :
    size (c :: cs) = c.utf8Size + size cs := rfl

@[simp] theorem size_append (a b : List Char) : size (a ++ b) = size a + size b := by
  induction a with
  | nil => simp
  | cons c cs ih => simp [ih, Nat.add_assoc]

def lineFeeds (cs : List Char) : Nat := cs.count '\n'

/-- What stands before byte `n`; a character that byte `n` cuts is left out. -/
def upTo : Nat → List Char → List Char
  | _, [] => []
  | n, c :: cs => if c.utf8Size ≤ n then c :: upTo (n - c.utf8Size) cs else []

/-- What stands from byte `n` on; a character that byte `n` cuts is kept. -/
def fromByte : Nat → List Char → List Char
  | _, [] => []
  | n, c :: cs => if c.utf8Size ≤ n then fromByte (n - c.utf8Size) cs else c :: cs

@[simp] theorem upTo_append_fromByte (n : Nat) (cs : List Char) :
    upTo n cs ++ fromByte n cs = cs := by
  induction cs generalizing n with
  | nil => rfl
  | cons c cs ih =>
    simp only [upTo, fromByte]
    split <;> simp [ih]

@[simp] theorem upTo_size_append (a b : List Char) : upTo (size a) (a ++ b) = a := by
  induction a with
  | nil =>
    cases b with
    | nil => rfl
    | cons c cs =>
      have := c.utf8Size_pos
      simp only [List.nil_append, upTo, size_nil]
      rw [if_neg (by omega)]
  | cons c cs ih => simp [upTo, ih]

@[simp] theorem fromByte_size_append (a b : List Char) : fromByte (size a) (a ++ b) = b := by
  have h := upTo_append_fromByte (size a) (a ++ b)
  rw [upTo_size_append] at h
  exact List.append_cancel_left h

def slice (span : Span) (cs : List Char) : List Char :=
  upTo (span.stop - span.start) (fromByte span.start cs)

theorem slice_append (a b c : List Char) :
    slice ⟨size a, size a + size b⟩ (a ++ (b ++ c)) = b := by
  simp [slice]

def splice (span : Span) (new cs : List Char) : List Char :=
  upTo span.start cs ++ (new ++ fromByte span.stop cs)

theorem splice_append (a b c new : List Char) :
    splice ⟨size a, size a + size b⟩ new (a ++ (b ++ c)) = a ++ (new ++ c) := by
  have h : fromByte (size a + size b) (a ++ (b ++ c)) = c := by
    rw [← size_append, ← List.append_assoc, fromByte_size_append]
  simp [splice, h]

end Text

namespace Place

def start : Place := ⟨0, 1⟩

def next (p : Place) (c : Char) : Place :=
  ⟨p.offset + c.utf8Size, if c = '\n' then p.line + 1 else p.line⟩

def after (p : Place) (cs : List Char) : Place := cs.foldl next p

@[simp] theorem after_nil (p : Place) : p.after [] = p := rfl

@[simp] theorem after_cons (p : Place) (c : Char) (cs : List Char) :
    p.after (c :: cs) = (p.next c).after cs := rfl

@[simp] theorem after_append (p : Place) (a b : List Char) :
    p.after (a ++ b) = (p.after a).after b := by
  simp [after, List.foldl_append]

theorem after_offset (p : Place) (cs : List Char) :
    (p.after cs).offset = p.offset + Text.size cs := by
  induction cs generalizing p with
  | nil => rfl
  | cons c cs ih => simp [ih, next, Nat.add_assoc]

theorem after_line (p : Place) (cs : List Char) :
    (p.after cs).line = p.line + Text.lineFeeds cs := by
  induction cs generalizing p with
  | nil => rfl
  | cons c cs ih =>
    rw [after_cons, ih]
    by_cases h : c = '\n'
    · simp only [next, Text.lineFeeds, h, if_true, List.count_cons_self]
      omega
    · simp [next, Text.lineFeeds, h]

end Place
end RowTypes
