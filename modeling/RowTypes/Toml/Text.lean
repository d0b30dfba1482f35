import RowTypes.Text.Numeral

/-! Texts and keys of a TOML document. A text in quotes has escapes, one in apostrophes
has none, and three of either let it go over several lines. Line ends are single line
feeds here. -/

namespace RowTypes.Toml

abbrev Reader (α : Type) := List Char → Option (α × List Char)

def isSpace (c : Char) : Bool := c = ' ' || c = '\t'

def skipSpaces (cs : List Char) : List Char := cs.dropWhile isSpace

def isPlain (c : Char) : Bool := c = '\t' || (' ' ≤ c && c ≠ '\x7f')

def escaped? : Char → Option Char
  | 'b' => some '\x08'
  | 't' => some '\t'
  | 'n' => some '\n'
  | 'f' => some '\x0c'
  | 'r' => some '\r'
  | '"' => some '"'
  | '\\' => some '\\'
  | _ => none

def character? (ds : List Char) : Option Char := do
  let n ← Text.hexValue? ds
  if n < 0xd800 ∨ (0xe000 ≤ n ∧ n < 0x110000) then some (Char.ofNat n) else none

def readQuoted (read : List Char) : Reader String
  | [] => none
  | '"' :: cs => some (String.ofList read.reverse, cs)
  | '\\' :: 'u' :: a :: b :: c :: d :: cs => do
    readQuoted ((← character? [a, b, c, d]) :: read) cs
  | '\\' :: 'U' :: a :: b :: c :: d :: e :: f :: g :: h :: cs => do
    readQuoted ((← character? [a, b, c, d, e, f, g, h]) :: read) cs
  | '\\' :: c :: cs => do readQuoted ((← escaped? c) :: read) cs
  | c :: cs => if isPlain c ∧ c ≠ '\\' then readQuoted (c :: read) cs else none

def readLiteral (read : List Char) : Reader String
  | [] => none
  | '\'' :: cs => some (String.ofList read.reverse, cs)
  | c :: cs => if isPlain c then readLiteral (c :: read) cs else none

/-- What is behind the closing marks of a long text. Up to two more marks before them
belong to the text. -/
def closeLong (mark : Char) (read cs : List Char) : String × List Char :=
  let more := ((cs.take 2).takeWhile (· = mark)).length
  (String.ofList (read.reverse ++ List.replicate more mark), cs.drop more)

def endsLine (cs : List Char) : Bool := (skipSpaces cs).head? = some '\n'

/-- The rest of a long text behind its opening quotes. A backslash at the end of a line
takes away the blanks up to the next character; `blanks` says that this is under way. -/
def readLongQuoted (blanks : Bool) (read : List Char) : Reader String
  | [] => none
  | '"' :: '"' :: '"' :: cs => some (closeLong '"' read cs)
  | '\\' :: 'u' :: a :: b :: c :: d :: cs => do
    readLongQuoted false ((← character? [a, b, c, d]) :: read) cs
  | '\\' :: 'U' :: a :: b :: c :: d :: e :: f :: g :: h :: cs => do
    readLongQuoted false ((← character? [a, b, c, d, e, f, g, h]) :: read) cs
  | '\\' :: c :: cs =>
    if endsLine (c :: cs) then readLongQuoted true read cs
    else do readLongQuoted false ((← escaped? c) :: read) cs
  | c :: cs =>
    if blanks ∧ (isSpace c ∨ c = '\n') then readLongQuoted true read cs
    else if c = '\n' ∨ (isPlain c ∧ c ≠ '\\') then readLongQuoted false (c :: read) cs
    else none

def readLongLiteral (read : List Char) : Reader String
  | [] => none
  | '\'' :: '\'' :: '\'' :: cs => some (closeLong '\'' read cs)
  | c :: cs => if c = '\n' ∨ isPlain c then readLongLiteral (c :: read) cs else none

def skipFirstLineEnd : List Char → List Char
  | '\n' :: cs => cs
  | cs => cs

def readText : Reader String
  | '"' :: '"' :: '"' :: cs => readLongQuoted false [] (skipFirstLineEnd cs)
  | '\'' :: '\'' :: '\'' :: cs => readLongLiteral [] (skipFirstLineEnd cs)
  | '"' :: cs => readQuoted [] cs
  | '\'' :: cs => readLiteral [] cs
  | _ => none

/-! Keys -/

def isBare (c : Char) : Bool := c.isAlphanum || c = '_' || c = '-'

def readKeyPart : Reader String
  | '"' :: cs => readQuoted [] cs
  | '\'' :: cs => readLiteral [] cs
  | cs =>
    match cs.takeWhile isBare with
    | [] => none
    | part => some (String.ofList part, cs.dropWhile isBare)

def readKeyParts (read : List String) : Nat → Reader (List String)
  | 0, _ => none
  | fuel + 1, cs => do
    let (part, cs) ← readKeyPart (skipSpaces cs)
    match skipSpaces cs with
    | '.' :: cs => readKeyParts (part :: read) fuel cs
    | cs => some ((part :: read).reverse, cs)

def readKey : Reader (List String) := fun cs => readKeyParts [] (cs.length + 1) cs

end RowTypes.Toml
