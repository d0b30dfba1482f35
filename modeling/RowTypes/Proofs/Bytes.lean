import Mathlib.Tactic.SplitIfs
import RowTypes.Source.Code
import RowTypes.Text.Utf8

/-! A text as its bytes. A position counts bytes and may lie inside of a character or behind the
end. All bytes of a character outside of ASCII are outside of ASCII themselves, so that a byte of
ASCII is a character, and the byte at the place of a character is never one that continues
another. -/

namespace RowTypes

namespace Text

theorem encode_eq (cs : List Char) : encode cs = cs.flatMap String.utf8EncodeChar := by
  rw [encode, String.toUTF8_eq_toByteArray, String.toByteArray_ofList, List.utf8Encode]
  simp

theorem encode_toList (s : String) : encode s.toList = s.toUTF8.data.toList := by
  rw [encode, String.ofList_toList]

@[simp] theorem encode_nil : encode [] = [] := encode_eq []

theorem encode_cons (c : Char) (cs : List Char) :
    encode (c :: cs) = String.utf8EncodeChar c ++ encode cs := by
  rw [encode_eq, encode_eq, List.flatMap_cons]

theorem encode_append (a b : List Char) : encode (a ++ b) = encode a ++ encode b := by
  rw [encode_eq, encode_eq, encode_eq, List.flatMap_append]

theorem length_encode (cs : List Char) : (encode cs).length = size cs := by
  induction cs with
  | nil => rw [encode_nil, List.length_nil, size_nil]
  | cons c cs ih =>
    rw [encode_cons, List.length_append, ih, String.length_utf8EncodeChar, size_cons]

theorem decode?_encode (cs : List Char) : decode? (encode cs) = some (String.ofList cs) := by
  have hbytes : (⟨(encode cs).toArray⟩ : ByteArray) = cs.utf8Encode := by
    rw [encode, String.toUTF8_eq_toByteArray, String.toByteArray_ofList]
  rw [decode?, hbytes, String.fromUTF8?, dif_pos (ByteArray.isValidUTF8_utf8Encode), Option.some_inj,
    ← String.toByteArray_inj, String.toByteArray_ofList]
  rfl

theorem val_ofUInt8 (b : UInt8) : (Char.ofUInt8 b).val = b.toUInt32 := rfl

theorem utf8EncodeChar_ascii {c : Char} (hc : c.val < 0x80) :
    ∃ b, String.utf8EncodeChar c = [b] ∧ Char.ofUInt8 b = c := by
  have hn : c.val.toNat < 128 := hc
  refine ⟨UInt8.ofNat c.val.toNat, ?_, ?_⟩
  · simp only [String.utf8EncodeChar]
    rw [if_pos (Nat.le_of_lt_succ hn)]
  · refine Char.ext (UInt32.toNat_inj.1 ?_)
    rw [val_ofUInt8, UInt8.toNat_toUInt32,
      UInt8.toNat_ofNat_of_lt' (by simp only [UInt8.size]; omega)]

theorem le_of_mem_utf8EncodeChar {c : Char} (hc : 0x80 ≤ c.val) {b : UInt8}
    (hb : b ∈ String.utf8EncodeChar c) : 0x80 ≤ (Char.ofUInt8 b).val := by
  have hn : 128 ≤ c.val.toNat := hc
  have hbyte : ∀ n, 128 ≤ n → n < 256 → 0x80 ≤ (Char.ofUInt8 (UInt8.ofNat n)).val := by
    intro n hn hn'
    rw [UInt32.le_iff_toNat_le, val_ofUInt8, UInt8.toNat_toUInt32, UInt8.toNat_ofNat_of_lt' hn']
    exact hn
  simp only [String.utf8EncodeChar] at hb
  split_ifs at hb
  · omega
  all_goals
    simp only [List.mem_cons, List.not_mem_nil, or_false] at hb
    rcases hb with rfl | rfl | rfl | rfl <;> exact hbyte _ (by omega) (by omega)

theorem head?_utf8EncodeChar (c : Char) :
    (String.utf8EncodeChar c).head?.any (!isContinuation ·) = true := by
  have hsize := c.val.toNat_lt
  have hbyte : ∀ n, n < 128 ∨ 192 ≤ n → n < 256 → isContinuation (UInt8.ofNat n) = false := by
    intro n hn hn'
    have h := UInt8.toNat_ofNat_of_lt' (n := n) (by simp only [UInt8.size]; omega)
    simp only [isContinuation, Bool.and_eq_false_iff, decide_eq_false_iff_not,
      UInt8.le_iff_toNat_le, h]
    simp
    omega
  simp only [String.utf8EncodeChar]
  split_ifs <;> simp only [List.head?_cons, Option.any_some, Bool.not_eq_true'] <;>
    exact hbyte _ (by omega) (by omega)

end Text

namespace Bytes
open Text

def letter? (text : List UInt8) (pos : Nat) : Option Char := text[pos]?.map Char.ofUInt8

def lineAt (text : List UInt8) (pos : Nat) : Nat :=
  ((text.take pos).map Char.ofUInt8).count '\n' + 1

def skipWhile (text : List UInt8) (q : Char → Bool) (pos : Nat) : Nat :=
  pos + (((text.drop pos).map Char.ofUInt8).takeWhile q).length

def startsCharacter (text : List UInt8) (pos : Nat) : Bool :=
  pos = text.length || text[pos]?.any (!isContinuation ·)

inductive Fault where
  | unterminated (u : Unterminated)
  /-- Bytes behind the end are asked for, or up to a position in front of the first of them. -/
  | range
  /-- A piece of the text begins or ends inside of a character. -/
  | boundary
  /-- More is closed than has been opened. -/
  | depth
  /-- A step does not move on. -/
  | standstill
deriving DecidableEq, Repr

def slice (text : List UInt8) (start stop : Nat) : Except Fault (List UInt8) :=
  if stop < start ∨ text.length < stop then .error .range
  else if startsCharacter text start && startsCharacter text stop then
    .ok ((text.take stop).drop start)
  else .error .boundary

def At (text : List UInt8) (p : Place) (cs : List Char) : Prop :=
  ∃ before, text = encode (before ++ cs) ∧ p = Place.start.after before

/-- A question about characters that has one answer for all that are outside of ASCII. -/
def Uniform (q : Char → Bool) : Prop :=
  ∀ c d : Char, 0x80 ≤ c.val → 0x80 ≤ d.val → q c = q d

section Places

variable {text : List UInt8} {p : Place} {c : Char} {cs w : List Char}

theorem at_start (cs : List Char) : At (encode cs) .start cs := ⟨[], rfl, rfl⟩

theorem At.after (h : At text p (w ++ cs)) : At text (p.after w) cs := by
  obtain ⟨before, rfl, rfl⟩ := h
  exact ⟨before ++ w, by rw [List.append_assoc], (Place.after_append ..).symm⟩

theorem At.next (h : At text p (c :: cs)) : At text (p.next c) cs := At.after (w := [c]) h

theorem At.offset_eq (h : At text p cs) : ∃ before, text = encode before ++ encode cs ∧
    p = Place.start.after before ∧ p.offset = (encode before).length := by
  obtain ⟨before, rfl, rfl⟩ := h
  refine ⟨before, encode_append .., rfl, ?_⟩
  rw [Place.after_offset, length_encode]
  exact Nat.zero_add _

theorem At.length (h : At text p cs) : text.length = p.offset + size cs := by
  obtain ⟨before, rfl, -, hoffset⟩ := h.offset_eq
  rw [List.length_append, hoffset, length_encode cs]

theorem At.drop (h : At text p cs) : text.drop p.offset = encode cs := by
  obtain ⟨before, rfl, -, hoffset⟩ := h.offset_eq
  rw [hoffset, List.drop_left]

theorem At.getElem? (h : At text p cs) (i : Nat) : text[p.offset + i]? = (encode cs)[i]? := by
  rw [← h.drop, List.getElem?_drop]

theorem At.letter?_nil (h : At text p []) (i : Nat) : letter? text (p.offset + i) = none := by
  rw [letter?, h.getElem?, encode_nil, List.getElem?_nil, Option.map_none]

theorem At.letter?_ascii (h : At text p (c :: cs)) (hc : c.val < 0x80) :
    letter? text p.offset = some c := by
  obtain ⟨b, hb, hletter⟩ := utf8EncodeChar_ascii hc
  rw [letter?, ← Nat.add_zero p.offset, h.getElem?, encode_cons, hb, List.singleton_append,
    List.getElem?_cons_zero, Option.map_some, hletter]

theorem At.letter?_wide (h : At text p (c :: cs)) (hc : 0x80 ≤ c.val) {i : Nat}
    (hi : i < c.utf8Size) : ∃ d, letter? text (p.offset + i) = some d ∧ 0x80 ≤ d.val := by
  rw [← String.length_utf8EncodeChar] at hi
  refine ⟨_, ?_, le_of_mem_utf8EncodeChar hc (List.getElem_mem hi)⟩
  rw [letter?, h.getElem?, encode_cons, List.getElem?_append_left hi, List.getElem?_eq_getElem hi,
    Option.map_some]

theorem utf8Size_ascii (hc : c.val < 0x80) : c.utf8Size = 1 :=
  Char.utf8Size_eq_one_iff.2 (Nat.le_of_lt_succ hc)

theorem next_ascii (p : Place) (hc : c.val < 0x80) : (p.next c).offset = p.offset + 1 := by
  rw [Place.next, utf8Size_ascii hc]

theorem At.letter?_end (h : At text p []) : letter? text p.offset = none := h.letter?_nil 0

theorem At.exists_wide_letter (h : At text p (c :: cs)) (hc : 0x80 ≤ c.val) :
    ∃ d, letter? text p.offset = some d ∧ 0x80 ≤ d.val := h.letter?_wide hc c.utf8Size_pos

theorem At.exists_letter (h : At text p (c :: cs)) : ∃ d, letter? text p.offset = some d := by
  by_cases hc : c.val < 0x80
  · exact ⟨c, h.letter?_ascii hc⟩
  · obtain ⟨d, hd, -⟩ := h.exists_wide_letter (UInt32.not_lt.1 hc)
    exact ⟨d, hd⟩

section Skipping

/-! A function of positions that does not notice the letters outside of ASCII -/

variable {α : Type} {f : Nat → α}
  (hf : ∀ pos d, letter? text pos = some d → 0x80 ≤ d.val → f pos = f (pos + 1))

include hf

theorem skip_letters {pos n : Nat}
    (h : ∀ i < n, ∃ d, letter? text (pos + i) = some d ∧ 0x80 ≤ d.val) : f pos = f (pos + n) := by
  induction n with
  | zero => rfl
  | succ n ih =>
    obtain ⟨d, hd, hwide⟩ := h n (Nat.lt_succ_self n)
    rw [ih fun i hi => h i (Nat.lt_succ_of_lt hi), hf _ d hd hwide, Nat.add_assoc]

theorem At.across (h : At text p (c :: cs)) (hc : 0x80 ≤ c.val) : f p.offset = f (p.next c).offset :=
  skip_letters hf fun _ hi => h.letter?_wide hc hi

/-- The function does behind the first byte of a character what it does behind all of them. -/
theorem At.behind (h : At text p (c :: cs)) : f (p.offset + 1) = f (p.next c).offset := by
  by_cases hc : c.val < 0x80
  · rw [next_ascii p hc]
  · obtain ⟨n, hn⟩ := Nat.exists_eq_add_of_le c.utf8Size_pos
    have hstop : (p.next c).offset = p.offset + 1 + n := by
      rw [Place.next, hn, Nat.add_assoc]
    rw [hstop]
    refine skip_letters hf fun i hi => ?_
    rw [Nat.add_assoc]
    exact h.letter?_wide (UInt32.not_lt.1 hc) (by omega)

end Skipping

theorem At.letter?_eq_iff (h : At text p cs) {d : Char} (hd : d.val < 0x80) :
    letter? text p.offset = some d ↔ cs.head? = some d := by
  cases cs with
  | nil =>
    rw [h.letter?_end]
    exact iff_of_false nofun nofun
  | cons c cs =>
    by_cases hc : c.val < 0x80
    · rw [h.letter?_ascii hc, List.head?_cons]
    · have hwide := UInt32.not_lt.1 hc
      obtain ⟨x, hx, hx'⟩ := h.exists_wide_letter hwide
      rw [hx, List.head?_cons]
      constructor
      · rintro ⟨rfl⟩
        exact absurd hd (UInt32.not_lt.2 hx')
      · rintro ⟨rfl⟩
        exact absurd hd hc

theorem count_letters (cs : List Char) :
    ((encode cs).map Char.ofUInt8).count '\n' = lineFeeds cs := by
  induction cs with
  | nil => rw [encode_nil]; rfl
  | cons c cs ih =>
    have hc : ((String.utf8EncodeChar c).map Char.ofUInt8).count '\n' = [c].count '\n' := by
      by_cases hc : c.val < 0x80
      · obtain ⟨b, hb, hletter⟩ := utf8EncodeChar_ascii hc
        rw [hb, List.map_singleton, hletter]
      · rw [List.count_eq_zero.2, List.count_eq_zero.2]
        · intro h
          rw [← List.mem_singleton.1 h] at hc
          exact hc (by decide)
        · intro h
          obtain ⟨b, hb, hletter⟩ := List.mem_map.1 h
          have hwide := le_of_mem_utf8EncodeChar (UInt32.not_lt.1 hc) hb
          rw [hletter] at hwide
          exact absurd hwide (by decide)
    rw [encode_cons, List.map_append, List.count_append, ih, hc, lineFeeds, lineFeeds,
      ← List.count_append, List.singleton_append]

theorem At.lineAt (h : At text p cs) : lineAt text p.offset = p.line := by
  obtain ⟨before, rfl, rfl, hoffset⟩ := h.offset_eq
  rw [Bytes.lineAt, hoffset, List.take_left, count_letters, Place.after_line, Place.start,
    Nat.add_comm]

theorem At.startsCharacter (h : At text p cs) : startsCharacter text p.offset = true := by
  cases cs with
  | nil => simp [Bytes.startsCharacter, h.length]
  | cons c cs =>
    have hfirst := head?_utf8EncodeChar c
    rw [Bytes.startsCharacter, Bool.or_eq_true]
    right
    have hsize : 0 < (String.utf8EncodeChar c).length := by
      rw [String.length_utf8EncodeChar]
      exact c.utf8Size_pos
    rw [← Nat.add_zero p.offset, h.getElem?, encode_cons, List.getElem?_append_left hsize,
      ← List.head?_eq_getElem?]
    exact hfirst

theorem length_takeWhile_letters {q : Char → Bool} (hq : Uniform q) (cs : List Char) :
    (((encode cs).map Char.ofUInt8).takeWhile q).length = size (cs.takeWhile q) := by
  induction cs with
  | nil => rw [encode_nil]; rfl
  | cons c cs ih =>
    rw [encode_cons, List.map_append, List.takeWhile_cons]
    have hletters : ∀ d ∈ (String.utf8EncodeChar c).map Char.ofUInt8, q d = q c := by
      intro d hd
      by_cases hc : c.val < 0x80
      · obtain ⟨b, hb, hletter⟩ := utf8EncodeChar_ascii hc
        rw [hb, List.map_singleton, hletter] at hd
        rw [List.mem_singleton.1 hd]
      · obtain ⟨b, hb, rfl⟩ := List.mem_map.1 hd
        have hwide := UInt32.not_lt.1 hc
        exact hq _ _ (le_of_mem_utf8EncodeChar hwide hb) hwide
    cases hqc : q c with
    | true =>
      rw [List.takeWhile_append_of_pos fun d hd => (hletters d hd).trans hqc, List.length_append, ih,
        List.length_map, String.length_utf8EncodeChar, if_pos rfl, size_cons]
    | false =>
      obtain ⟨b, bs, hb⟩ := List.exists_cons_of_ne_nil String.utf8EncodeChar_ne_nil
      rw [hb] at hletters ⊢
      have hfirst := (hletters (Char.ofUInt8 b) List.mem_cons_self).trans hqc
      rw [List.map_cons, List.cons_append, List.takeWhile_cons, hfirst]
      rfl

theorem At.skipWhile {q : Char → Bool} (hq : Uniform q) (h : At text p cs) :
    skipWhile text q p.offset = (p.after (cs.takeWhile q)).offset := by
  rw [Bytes.skipWhile, h.drop, length_takeWhile_letters hq, Place.after_offset]

theorem At.slice (h : At text p (w ++ cs)) :
    slice text p.offset (p.after w).offset = .ok (encode w) := by
  have hstop := h.after
  obtain ⟨before, htext, -, hoffset⟩ := h.offset_eq
  have hwidth : (p.after w).offset = p.offset + (encode w).length := by
    rw [Place.after_offset, length_encode]
  have hrange : ¬((p.after w).offset < p.offset ∨ text.length < (p.after w).offset) := by
    have := hstop.length
    omega
  rw [Bytes.slice, if_neg hrange, h.startsCharacter, hstop.startsCharacter, Bool.and_self,
    if_pos rfl, hwidth, hoffset, htext, List.take_length_add_append, List.drop_left, encode_append,
    List.take_left]

end Places
end Bytes
end RowTypes
