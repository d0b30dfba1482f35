/-! Bytes as text. -/

namespace RowTypes.Text

def encode (cs : List Char) : List UInt8 := (String.ofList cs).toUTF8.data.toList

def decode? (bytes : List UInt8) : Option String := String.fromUTF8? ⟨bytes.toArray⟩

/-- What may follow a first byte of UTF-8: the least and the greatest second byte, and
how many more bytes there are. -/
def followers (first : UInt8) : Option (UInt8 × UInt8 × Nat) :=
  if 0xc2 ≤ first ∧ first ≤ 0xdf then some (0x80, 0xbf, 0)
  else if first = 0xe0 then some (0xa0, 0xbf, 1)
  else if first = 0xed then some (0x80, 0x9f, 1)
  else if 0xe1 ≤ first ∧ first ≤ 0xef then some (0x80, 0xbf, 1)
  else if first = 0xf0 then some (0x90, 0xbf, 2)
  else if 0xf1 ≤ first ∧ first ≤ 0xf3 then some (0x80, 0xbf, 2)
  else if first = 0xf4 then some (0x80, 0x8f, 2)
  else none

def isContinuation (b : UInt8) : Bool := 0x80 ≤ b && b ≤ 0xbf

/-- How many of the first bytes, but one at least, are those of one character or the
beginning of one. -/
def characterSize : List UInt8 → Nat
  | [] => 1
  | first :: rest =>
    match followers first, rest with
    | some (least, greatest, more), second :: rest =>
      if least ≤ second ∧ second ≤ greatest then
        2 + ((rest.take more).takeWhile isContinuation).length
      else 1
    | _, _ => 1

theorem characterSize_pos (bytes : List UInt8) : 0 < characterSize bytes := by
  unfold characterSize
  split
  · decide
  · split
    · split <;> omega
    · decide

/-- The text of bytes, in which what is not a character becomes U+FFFD. -/
def decodeLossy (bytes : List UInt8) : String :=
  match bytes with
  | [] => ""
  | b :: rest =>
    let size := characterSize (b :: rest)
    (decode? ((b :: rest).take size)).getD "\ufffd" ++ decodeLossy ((b :: rest).drop size)
termination_by bytes.length
decreasing_by
  have := characterSize_pos (b :: rest)
  simp only [List.length_drop, List.length_cons]
  omega

end RowTypes.Text
