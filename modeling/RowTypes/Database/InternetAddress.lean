import RowTypes.Text.Numeral

/-! Texts that are an address of the internet protocol, of version 4 or 6. -/

namespace RowTypes.InternetAddress

def isOctet (cs : List Char) : Bool :=
  match Text.natural? cs with
  | some n => n < 256 && (cs.length = 1 || cs.head? ≠ some '0')
  | none => false

def isVersionFour (cs : List Char) : Bool :=
  let octets := cs.splitOn '.'
  octets.length = 4 && octets.all isOctet

def isGroup (cs : List Char) : Bool :=
  1 ≤ cs.length && cs.length ≤ 4 && cs.all fun c => (Text.hexDigit? c).isSome

/-- How many groups of 16 bits a text between colons holds. At its end, `isLast`, it may
be an address of version 4. -/
def groupCount? (isLast : Bool) : List (List Char) → Option Nat
  | [] => some 0
  | part :: parts => do
    let rest ← groupCount? isLast parts
    if isGroup part then some (rest + 1)
    else if isLast ∧ parts = [] ∧ isVersionFour part then some (rest + 2)
    else none

def splitAtGap? : List Char → Option (List Char × List Char)
  | ':' :: ':' :: cs => some ([], cs)
  | c :: cs => (splitAtGap? cs).map fun (before, behind) => (c :: before, behind)
  | [] => none

def groups (cs : List Char) : List (List Char) := if cs = [] then [] else cs.splitOn ':'

/-- Eight groups, or fewer with two colons in a row for the others, which are zero. -/
def isVersionSix (cs : List Char) : Bool :=
  match splitAtGap? cs with
  | none => groupCount? true (groups cs) = some 8
  | some (before, behind) =>
    match groupCount? false (groups before), groupCount? true (groups behind) with
    | some m, some n => m + n < 8
    | _, _ => false

def isAddress (cs : List Char) : Bool := isVersionFour cs || isVersionSix cs

end RowTypes.InternetAddress
