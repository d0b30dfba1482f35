import RowTypes.Text.Blank
import RowTypes.Text.Case
import RowTypes.Text.Letter
import RowTypes.Sql.Query

/-! The lexical elements of PostgreSQL's SQL. Blanks and comments are dropped;
a text with an element that is not closed has no elements at all. -/

namespace RowTypes.Sql

inductive Token where
  /-- A name or a keyword. `key` is its upper case, or empty for a quoted name,
  which is no keyword. -/
  | word (name : Ident) (key : String)
  | number (digits : String)
  | string (value : String)
  /-- A string constant in one of the other notations. -/
  | constant
  | placeholder
  | symbol (text : String)
  /-- An operator without a meaning of its own. -/
  | operator
deriving DecidableEq, Repr, Inhabited

namespace Token

def startsWord (c : Char) : Bool := c.isAlpha || c = '_' || 0x80 ≤ c.val

def continuesWord (c : Char) : Bool := startsWord c || c.isDigit || c = '$'

def isOperatorPart (c : Char) : Bool := "+-*/<>=~!@#%^&|\x60?".toList.contains c

def bare (name : List Char) : Token :=
  .word ⟨String.ofList name, none⟩ (String.ofList (Text.upper name))

/-- Quoted text up to its closing quote, which is doubled inside the text. -/
def quoted? (quote : Char) : List Char → Option (List Char × List Char)
  | [] => none
  | c :: cs =>
    if c = quote then
      match cs with
      | [] => some ([], [])
      | d :: ds => if d = quote then (quoted? quote ds).map (.map (c :: ·) id) else some ([], cs)
    else (quoted? quote cs).map (.map (c :: ·) id)

def isHexDigit (c : Char) : Bool := c.isDigit || ('a' ≤ c && c ≤ 'f') || ('A' ≤ c && c ≤ 'F')

def hexValue (digits : List Char) : Nat :=
  digits.foldl (fun n c =>
    16 * n + if c.isDigit then c.toNat - '0'.toNat else c.toLower.toNat - 'a'.toNat + 10) 0

def namesCharacter (count : Nat) (cs : List Char) : Bool :=
  let digits := cs.take count
  digits.length = count && digits.all isHexDigit && (hexValue digits).isValidChar

/-- Whether the number that digits of a base spell, cut to eight bits, is an
ASCII character other than the zero character. -/
def namesAscii (base : Nat) (digits : List Char) : Bool :=
  let n := (digits.foldl (fun n c => base * n + hexValue [c]) 0) % 256
  0 < n && n < 128

def isOctalDigit (c : Char) : Bool := '0' ≤ c && c ≤ '7'

/-- Whether an escape that names a character by its number, from behind the
backslash, names one that can stand in a text. -/
def isEscape (cs : List Char) : Bool :=
  match cs with
  | 'u' :: cs => namesCharacter 4 cs && 0 < hexValue (cs.take 4)
  | 'U' :: cs => namesCharacter 8 cs && 0 < hexValue (cs.take 8)
  | 'x' :: cs =>
    let digits := (cs.take 2).takeWhile isHexDigit
    digits = [] || namesAscii 16 digits
  | c :: cs => !isOctalDigit c || namesAscii 8 (c :: (cs.take 2).takeWhile isOctalDigit)
  | [] => false

def afterEscaped? : List Char → Option (List Char)
  | [] => none
  | '\'' :: '\'' :: cs => afterEscaped? cs
  | '\'' :: cs => some cs
  | '\\' :: c :: cs => if isEscape (c :: cs) then afterEscaped? cs else none
  | _ :: cs => afterEscaped? cs

def afterUnicode? : List Char → Option (List Char)
  | [] => none
  | '\'' :: '\'' :: cs => afterUnicode? cs
  | '\'' :: cs => some cs
  | '\\' :: '\\' :: cs => afterUnicode? cs
  | '\\' :: '+' :: cs => if namesCharacter 6 cs then afterUnicode? cs else none
  | '\\' :: cs => if namesCharacter 4 cs then afterUnicode? cs else none
  | _ :: cs => afterUnicode? cs

def afterMark? (mark : List Char) : List Char → Option (List Char)
  | [] => none
  | c :: cs =>
    if mark.isPrefixOf (c :: cs) then some ((c :: cs).drop mark.length) else afterMark? mark cs

def afterComment? (depth : Nat) : List Char → Option (List Char)
  | [] => none
  | '/' :: '*' :: cs => afterComment? (depth + 1) cs
  | '*' :: '/' :: cs => if depth ≤ 1 then some cs else afterComment? (depth - 1) cs
  | _ :: cs => afterComment? depth cs

def digits (isDigit : Char → Bool) : List Char → List Char × List Char
  | [] => ([], [])
  | c :: cs =>
    if isDigit c || (c = '_' && cs.head?.any isHexDigit) then
      let (taken, rest) := digits isDigit cs
      (c :: taken, rest)
    else ([], c :: cs)

def afterExponent (cs : List Char) : List Char :=
  match cs with
  | e :: rest =>
    if e = 'e' || e = 'E' then
      let rest := if rest.head? = some '+' || rest.head? = some '-' then rest.tail else rest
      if rest.head?.any Char.isDigit then rest.dropWhile Char.isDigit else cs
    else cs
  | [] => cs

/-- A number, or the period that begins `cs`. -/
def numeric (cs : List Char) : Token × List Char :=
  let (whole, rest) := digits Char.isDigit cs
  if whole = ['0'] ∧ rest.head? = some 'x' then (.constant, (digits isHexDigit rest.tail).2)
  else
    let (point, rest) := if rest.head? = some '.' then (true, rest.tail) else (false, rest)
    let (fraction, rest) := digits Char.isDigit rest
    if whole = [] ∧ fraction = [] then (.symbol ".", rest)
    else
      let behind := afterExponent rest
      let text := if point || behind.length ≠ rest.length then "." else String.ofList whole
      (.number text, if behind.head? = some 'L' then behind.tail else behind)

def closedSymbols : List String :=
  ["!~~*", "!~~", "!~*", "!~", "!!", "!=", "!", "@-@", "@@", "@>", "@?", "^@", "^", "?||", "?|",
    "?&", "?-|", "?-", "?#", "?", "=>", "==", "=", "::", ":=", ":", "(", ")", ",", ";", "[", "]",
    "\x7b", "\x7d", "+", "*", "/"]

/-- The symbols that further operator characters turn into another operator,
longest first. -/
def openSymbols : List String :=
  ["->>", "->", "-", "%", "||/", "||", "|/", "|&>", "|>>", "|", "<=>", "<=", "<<|", "<<", "<>",
    "<->", "<^", "<@", "<", ">=", ">>", ">^", ">", "&<|", "&<", "&>", "&&", "&", "##", "#-", "#>>",
    "#>", "#", "@", "~~*", "~~", "~*", "~=", "~"]

/-- The beginnings that are no symbol unless operator characters follow. -/
def brokenSymbols : List String := ["<-", "|&", "|>", "@-"]

def symbol? (symbols : List String) (cs : List Char) : Option (String × List Char) :=
  (symbols.find? fun s => s.toList.isPrefixOf cs).map fun s => (s, cs.drop s.length)

def operator? (cs : List Char) : Option (Token × List Char) :=
  match symbol? openSymbols cs, symbol? brokenSymbols cs with
  | known, some (b, rest) =>
    match known with
    | some (s, _) => if b.length < s.length then extend s cs else broken rest
    | none => broken rest
  | some (s, _), none => extend s cs
  | none, none => none
where
  extend (s : String) (cs : List Char) : Option (Token × List Char) :=
    let rest := cs.drop s.length
    if rest.head?.any isOperatorPart then some (.operator, rest.dropWhile isOperatorPart)
    else some (.symbol s, rest)
  broken (rest : List Char) : Option (Token × List Char) :=
    if rest.head?.any isOperatorPart then some (.operator, rest.dropWhile isOperatorPart) else none

def dollar? (cs : List Char) : Option (Token × List Char) :=
  let isTag (c : Char) := Text.isAlphanumeric c || c = '_'
  let tag := cs.takeWhile isTag
  match cs.dropWhile isTag with
  | '$' :: rest => (afterMark? ('$' :: tag ++ ['$']) rest).map (.constant, ·)
  | rest => some (.placeholder, rest)

def wordToken (cs : List Char) : Token × List Char :=
  (bare (cs.takeWhile continuesWord), cs.dropWhile continuesWord)

/-- The element that `cs` begins with and what follows it, without an element
for blanks and comments. `afterName` tells whether a name was read before. -/
def next? (afterName : Bool) (cs : List Char) : Option (Option Token × List Char) :=
  match cs with
  | [] => none
  | '\'' :: rest => (quoted? '\'' rest).map fun (s, r) => (some (.string (String.ofList s)), r)
  | '"' :: rest =>
    (quoted? '"' rest).map fun (s, r) => (some (.word ⟨String.ofList s, some '"'⟩ ""), r)
  | '-' :: '-' :: rest => some (none, rest.dropWhile fun c => c ≠ '\n' && c ≠ '\r')
  | '/' :: '*' :: rest => (afterComment? 1 rest).map (none, ·)
  | '$' :: rest => (dollar? rest).map (.map some id)
  | c :: '\'' :: rest =>
    if c = 'e' || c = 'E' then (afterEscaped? rest).map (some .constant, ·)
    else if "bBnNxX".toList.contains c then
      (quoted? '\'' rest).map fun (_, r) => (some .constant, r)
    else plain c ('\'' :: rest)
  | u :: '&' :: '\'' :: rest =>
    if u = 'u' || u = 'U' then (afterUnicode? rest).map (some .constant, ·)
    else plain u ('&' :: '\'' :: rest)
  | c :: rest => plain c rest
where
  plain (c : Char) (rest : List Char) : Option (Option Token × List Char) :=
    if startsWord c then some ((wordToken (c :: rest)).map some id)
    else if c = '.' && rest.head? = some '_' then
      if afterName then some (some (.symbol "."), rest) else none
    else if c.isDigit || c = '.' then some ((numeric (c :: rest)).map some id)
    else if Text.isBlank c then some (none, rest)
    else
      match symbol? closedSymbols (c :: rest) with
      | some (s, r) => some (some (.symbol s), r)
      | none =>
        if isOperatorPart c then (operator? (c :: rest)).map (.map some id)
        else some (some (.symbol c.toString), rest)

def isName : Token → Bool
  | .word .. => true
  | _ => false

/-- The elements of at most `fuel` characters. -/
def readAll (afterName : Bool) : (fuel : Nat) → List Char → Option (List Token)
  | _, [] => some []
  | 0, _ => none
  | fuel + 1, cs =>
    match next? afterName cs with
    | none => none
    | some (none, rest) => readAll false fuel rest
    | some (some t, rest) => (readAll t.isName fuel rest).map (t :: ·)

def ofText? (sql : String) : Option (List Token) :=
  let cs := sql.toList
  readAll false cs.length cs

def key : Token → String
  | .word _ key => key
  | _ => ""

end Token
end RowTypes.Sql
