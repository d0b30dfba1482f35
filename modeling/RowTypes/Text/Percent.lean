import RowTypes.Text.Numeral
import RowTypes.Text.Utf8

/-! Texts in which `%` and two hexadecimal digits stand for a byte. A `%` without them
stands for itself. -/

namespace RowTypes.Text

def percentBytes : List Char → List UInt8
  | [] => []
  | '%' :: a :: b :: cs =>
    match hexDigit? a, hexDigit? b with
    | some high, some low => UInt8.ofNat (16 * high + low) :: percentBytes cs
    | _, _ => encode ['%'] ++ percentBytes (a :: b :: cs)
  | c :: cs => encode [c] ++ percentBytes cs
termination_by cs => cs.length

def percentDecode? (cs : List Char) : Option String := decode? (percentBytes cs)

end RowTypes.Text
