import RowTypes.Proofs.Bytes
import RowTypes.Proofs.Stops

/-! The scan for tags by a reader that moves over the bytes of a text. It goes on by one byte or,
from a backslash on, by two, whatever they belong to, takes pieces of the text by their bounds and
counts angle brackets down without a look at zero. Each of these can be a fault. -/

namespace RowTypes.Bytes
open Code (Before Enclosure)

section Reader

variable (text : List UInt8)

theorem lt_of_letter? {text : List UInt8} {pos : Nat} {c : Char} (h : letter? text pos = some c) :
    pos < text.length := by
  rw [letter?, Option.map_eq_some_iff] at h
  obtain ⟨b, hb, -⟩ := h
  exact (List.getElem?_eq_some_iff.1 hb).1

def skim (stack : List Enclosure) (pos : Nat) : Except Fault Nat :=
  match stack with
  | [] => .ok pos
  | e :: outer =>
    match _h : letter? text pos with
    | none => .error (.unterminated (Code.unterminated (e :: outer)))
    | some c =>
      match Code.step e outer (lineAt text pos) c (letter? text (pos + 1)) with
      | .one stack => skim stack (pos + 1)
      | .two stack => skim stack (pos + 2)
      | .broken => .error (.unterminated (Code.unterminated (e :: outer)))
termination_by text.length - pos
decreasing_by all_goals have := lt_of_letter? _h; omega

structure Cooked where
  bytes : List UInt8
  params : Nat
  stop : Nat

/-- Reads a template literal that began on line `line`. What stands from `chunk` on is still to be
put behind `bytes`. -/
def cook (line params chunk pos : Nat) (bytes : List UInt8) : Except Fault Cooked :=
  match _h : letter? text pos with
  | none => .error (.unterminated ⟨.template, line⟩)
  | some c =>
    if c = '\x60' then (slice text chunk pos).map fun piece => ⟨bytes ++ piece, params, pos + 1⟩
    else if c = '\\' then
      match text[pos + 1]? with
      | none => cook line params chunk (pos + 2) bytes
      | some b =>
        if Template.isCookedEscape (Char.ofUInt8 b) then
          (slice text chunk pos).bind fun piece =>
            cook line params (pos + 2) (pos + 2) (bytes ++ piece ++ [b])
        else cook line params chunk (pos + 2) bytes
    else if c = '$' ∧ letter? text (pos + 1) = some '\x7b' then
      (slice text chunk pos).bind fun piece =>
        (skim text [.expression (lineAt text pos) 0 .operator] (pos + 2)).bind fun stop =>
          if pos < stop then
            cook line (params + 1) stop stop
              (bytes ++ piece ++ Text.encode (Template.placeholder (params + 1)))
          else .error .standstill
    else cook line params chunk (pos + 1) bytes
termination_by text.length - pos
decreasing_by all_goals have := lt_of_letter? _h; omega

def quotedEnd (quote : Char) (pos : Nat) : Nat :=
  match _h : letter? text pos with
  | none => pos
  | some c =>
    if c = quote ∨ c = '\n' then pos
    else if c = '\\' then quotedEnd quote (pos + 2)
    else quotedEnd quote (pos + 1)
termination_by text.length - pos
decreasing_by all_goals have := lt_of_letter? _h; omega

theorem le_quotedEnd (quote : Char) (pos : Nat) : pos ≤ quotedEnd text quote pos := by
  fun_induction quotedEnd text quote pos <;> omega

def followsEquals (pos : Nat) : Except Fault Bool :=
  match pos with
  | 0 => .ok false
  | pos + 1 =>
    match letter? text pos with
    | none => .error .range
    | some c => .ok (c = '=')

def angleEnd (depth pos : Nat) : Except Fault (Option Nat) :=
  match _h : letter? text pos with
  | none => .ok none
  | some c =>
    if c = '<' then angleEnd (depth + 1) (pos + 1)
    else if c = '>' then
      (followsEquals text pos).bind fun arrow =>
        if arrow then angleEnd depth (pos + 1)
        else
          match depth with
          | 0 => .error .depth
          | 1 => .ok (some (pos + 1))
          | depth + 2 => angleEnd (depth + 1) (pos + 1)
    else if c = '\'' ∨ c = '"' then angleEnd depth (quotedEnd text c (pos + 1) + 1)
    else if c = ';' ∨ c = '\x60' then .ok none
    else angleEnd depth (pos + 1)
termination_by text.length - pos
decreasing_by
  all_goals
    have := lt_of_letter? _h
    have := le_quotedEnd text c (pos + 1)
    omega

def heading (pos : Nat) : Except Fault (Option (Option Span × Nat)) :=
  let gap := skipWhile text Code.isBlank pos
  if letter? text gap = some '<' then
    (angleEnd text 0 gap).map fun stop => do
      let stop ← stop
      let template := skipWhile text Code.isBlank stop
      if letter? text template = some '\x60' then some (some ⟨gap, stop⟩, template) else none
  else if letter? text gap = some '\x60' then .ok (some (none, gap))
  else .ok none

structure Reading where
  tag : Option Tag
  before : Before
  pos : Nat

def word (pos : Nat) : Except Fault Reading := do
  let behind := skipWhile text Code.continuesWord pos
  let name ← slice text pos behind
  match ← if name = Text.encode Tag.word then heading text behind else .ok none with
  | none => .ok ⟨none, .operand, behind⟩
  | some (args, template) =>
    let t ← cook text (lineAt text template) 0 (template + 1) (template + 1) []
    match Text.decode? t.bytes with
    | none => .error .boundary
    | some sql =>
      .ok ⟨some ⟨behind, args, ⟨template, t.stop⟩, lineAt text pos, sql, t.params⟩, .operand, t.stop⟩

def next (before : Before) (pos : Nat) (c : Char) : Except Fault Reading :=
  let following := letter? text (pos + 1)
  if c = '/' ∧ following = some '/' then .ok ⟨none, before, skipWhile text (· ≠ '\n') pos⟩
  else if c = '/' ∧ following = some '*' then
    (skim text [.blockComment (lineAt text pos)] (pos + 2)).map (⟨none, before, ·⟩)
  else if c = '/' ∧ before ≠ .operand then
    (skim text [.regex (lineAt text pos) false] (pos + 1)).map fun stop =>
      ⟨none, .operator, skipWhile text Code.continuesWord stop⟩
  else if c = '\'' ∨ c = '"' then
    (skim text [.quoted (lineAt text pos) c] (pos + 1)).map (⟨none, .operand, ·⟩)
  else if c = '\x60' then
    (cook text (lineAt text pos) 0 (pos + 1) (pos + 1) []).map (⟨none, .operand, ·.stop⟩)
  else if Code.startsWord c then word text pos
  else .ok ⟨none, before.read c, pos + 1⟩

def scanFrom (before : Before) (pos : Nat) : Except Fault (List Tag) :=
  match _h : letter? text pos with
  | none => .ok []
  | some c =>
    (next text before pos c).bind fun r =>
      if pos < r.pos then (scanFrom r.before r.pos).map (r.tag.toList ++ ·) else .error .standstill
termination_by text.length - pos
decreasing_by have := lt_of_letter? _h; omega

def scan : Except Fault (List Tag) := scanFrom text .operator 0

end Reader

/-! One step at a time -/

section Steps

variable {text : List UInt8} {pos : Nat} {c : Char}

theorem skim_end {e : Enclosure} {outer : List Enclosure} (h : letter? text pos = none) :
    skim text (e :: outer) pos = .error (.unterminated (Code.unterminated (e :: outer))) := by
  rw [skim]
  split
  · rfl
  next h' => cases h.symm.trans h'

theorem skim_letter {e : Enclosure} {outer : List Enclosure} (h : letter? text pos = some c) :
    skim text (e :: outer) pos =
      match Code.step e outer (lineAt text pos) c (letter? text (pos + 1)) with
      | .one stack => skim text stack (pos + 1)
      | .two stack => skim text stack (pos + 2)
      | .broken => .error (.unterminated (Code.unterminated (e :: outer))) := by
  rw [skim]
  split
  next h' => cases h.symm.trans h'
  next h' => cases h.symm.trans h'; rfl

theorem cook_end {line params chunk : Nat} {bytes : List UInt8} (h : letter? text pos = none) :
    cook text line params chunk pos bytes = .error (.unterminated ⟨.template, line⟩) := by
  rw [cook]
  split
  · rfl
  next h' => cases h.symm.trans h'

theorem cook_letter {line params chunk : Nat} {bytes : List UInt8}
    (h : letter? text pos = some c) :
    cook text line params chunk pos bytes =
      if c = '\x60' then (slice text chunk pos).map fun piece => ⟨bytes ++ piece, params, pos + 1⟩
      else if c = '\\' then
        match text[pos + 1]? with
        | none => cook text line params chunk (pos + 2) bytes
        | some b =>
          if Template.isCookedEscape (Char.ofUInt8 b) then
            (slice text chunk pos).bind fun piece =>
              cook text line params (pos + 2) (pos + 2) (bytes ++ piece ++ [b])
          else cook text line params chunk (pos + 2) bytes
      else if c = '$' ∧ letter? text (pos + 1) = some '\x7b' then
        (slice text chunk pos).bind fun piece =>
          (skim text [.expression (lineAt text pos) 0 .operator] (pos + 2)).bind fun stop =>
            if pos < stop then
              cook text line (params + 1) stop stop
                (bytes ++ piece ++ Text.encode (Template.placeholder (params + 1)))
            else .error .standstill
      else cook text line params chunk (pos + 1) bytes := by
  rw [cook]
  split
  next h' => cases h.symm.trans h'
  next h' => cases h.symm.trans h'; rfl

theorem quotedEnd_end {quote : Char} (h : letter? text pos = none) :
    quotedEnd text quote pos = pos := by
  rw [quotedEnd]
  split
  · rfl
  next h' => cases h.symm.trans h'

theorem quotedEnd_letter {quote : Char} (h : letter? text pos = some c) :
    quotedEnd text quote pos =
      if c = quote ∨ c = '\n' then pos
      else if c = '\\' then quotedEnd text quote (pos + 2)
      else quotedEnd text quote (pos + 1) := by
  rw [quotedEnd]
  split
  next h' => cases h.symm.trans h'
  next h' => cases h.symm.trans h'; rfl

theorem angleEnd_end {depth : Nat} (h : letter? text pos = none) :
    angleEnd text depth pos = .ok none := by
  rw [angleEnd.eq_def]
  split
  · rfl
  next h' => cases h.symm.trans h'

theorem angleEnd_letter {depth : Nat} (h : letter? text pos = some c) :
    angleEnd text depth pos =
      if c = '<' then angleEnd text (depth + 1) (pos + 1)
      else if c = '>' then
        (followsEquals text pos).bind fun arrow =>
          if arrow then angleEnd text depth (pos + 1)
          else
            match depth with
            | 0 => .error .depth
            | 1 => .ok (some (pos + 1))
            | depth + 2 => angleEnd text (depth + 1) (pos + 1)
      else if c = '\'' ∨ c = '"' then angleEnd text depth (quotedEnd text c (pos + 1) + 1)
      else if c = ';' ∨ c = '\x60' then .ok none
      else angleEnd text depth (pos + 1) := by
  rw [angleEnd.eq_def]
  split
  next h' => cases h.symm.trans h'
  next h' => cases h.symm.trans h'; rfl

theorem next_startsWord {before : Before} (hc : Code.startsWord c = true) :
    next text before pos c = word text pos := by
  obtain ⟨hslash, hquote, htick⟩ := Tag.startsWord_ne hc
  rw [next, if_neg fun h => hslash h.1, if_neg fun h => hslash h.1, if_neg fun h => hslash h.1,
    if_neg hquote, if_neg htick, if_pos hc]

theorem scanFrom_end {before : Before} (h : letter? text pos = none) :
    scanFrom text before pos = .ok [] := by
  rw [scanFrom]
  split
  · rfl
  next h' => cases h.symm.trans h'

theorem scanFrom_letter {before : Before} (h : letter? text pos = some c) :
    scanFrom text before pos = (next text before pos c).bind fun r =>
      if pos < r.pos then (scanFrom text r.before r.pos).map (r.tag.toList ++ ·)
      else .error .standstill := by
  rw [scanFrom]
  split
  next h' => cases h.symm.trans h'
  next h' => cases h.symm.trans h'; rfl

end Steps

end RowTypes.Bytes
