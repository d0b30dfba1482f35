import RowTypes.Text.Case
import RowTypes.Text.Letter

/-! Upper camel case. A word ends at a character that is neither letter nor digit,
before a capital behind a small letter, and before the last capital of a run
that a small letter follows. -/

namespace RowTypes.Text

inductive WordCase where
  | none
  | lower
  | upper
deriving DecidableEq, Repr

def WordCase.next (k : WordCase) (c : Char) : WordCase :=
  if isLowercase c then .lower else if isUppercase c then .upper else k

/-- Cuts a run of letters and digits into words. `word` holds the characters of
the word being read, the last one first. -/
def camelWords (word : List Char) (k : WordCase) : List Char → List (List Char)
  | [] => if word = [] then [] else [word.reverse]
  | [c] => [(c :: word).reverse]
  | c :: d :: rest =>
    if k.next c = .lower ∧ isUppercase d then
      (c :: word).reverse :: camelWords [] .none (d :: rest)
    else if k = .upper ∧ isUppercase c ∧ isLowercase d then
      word.reverse :: camelWords [c] .none (d :: rest)
    else camelWords (c :: word) (k.next c) (d :: rest)

def lowerTail : List Char → List Char
  | [] => []
  | [c] => if c = '\u03a3' then ['\u03c2'] else lowerChar c
  | c :: cs => lowerChar c ++ lowerTail cs

def capitalize : List Char → List Char
  | [] => []
  | c :: cs => upperChar c ++ lowerTail cs

def upperCamel (s : String) : String :=
  let runs := s.toList.splitOnP (fun c => !isAlphanumeric c)
  String.ofList ((runs.flatMap (camelWords [] .none)).flatMap capitalize)

end RowTypes.Text
