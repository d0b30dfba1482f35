import RowTypes.Toml.Document
import RowTypes.Toml.Scalar
import RowTypes.Toml.Text

/-! Reading a TOML document, line by line. -/

namespace RowTypes.Toml

/-- Ends every line with a single line feed. A carriage return that stands elsewhere is
left, and nothing takes it. -/
def unifyLineEnds : List Char → List Char
  | [] => []
  | '\r' :: '\n' :: cs => '\n' :: unifyLineEnds cs
  | c :: cs => c :: unifyLineEnds cs

def skipFiller (comment : Bool) : List Char → Option (List Char)
  | [] => some []
  | c :: cs =>
    if c = '\n' then skipFiller false cs
    else if comment then if isPlain c then skipFiller true cs else none
    else if isSpace c then skipFiller false cs
    else if c = '#' then skipFiller true cs
    else some (c :: cs)

def endLine (cs : List Char) : Option (List Char) :=
  match skipSpaces cs with
  | [] => some []
  | '\n' :: cs => some cs
  | '#' :: cs =>
    if (cs.takeWhile (· ≠ '\n')).all isPlain then some ((cs.dropWhile (· ≠ '\n')).drop 1) else none
  | _ => none

def readItems (value : Reader Value) (read : List Value) : Nat → Reader (List Value)
  | 0, _ => none
  | fuel + 1, cs => do
    match ← skipFiller false cs with
    | ']' :: rest => some (read.reverse, rest)
    | cs =>
      let (item, cs) ← value cs
      match ← skipFiller false cs with
      | ',' :: rest => readItems value (item :: read) fuel rest
      | ']' :: rest => some ((item :: read).reverse, rest)
      | _ => none

def readPair (value : Reader Value) : Reader (List String × Value) := fun cs => do
  match ← readKey cs with
  | (path, '=' :: cs) =>
    let (v, cs) ← value (skipSpaces cs)
    return ((path, v), cs)
  | _ => none

def readEntries (value : Reader Value) (read : Entries) : Nat → Reader Entries
  | 0, _ => none
  | fuel + 1, cs => do
    let ((path, v), cs) ← readPair value cs
    let read ← read.insert path v
    match skipSpaces cs with
    | ',' :: rest => readEntries value read fuel rest
    | '\x7d' :: rest => some (read, rest)
    | _ => none

def readValue (levels : Nat) : Reader Value := fun cs =>
  match levels, cs with
  | level + 2, '[' :: cs =>
    (readItems (readValue (level + 1)) [] (cs.length + 1) cs).map fun (items, rest) =>
      (.list items, rest)
  | level + 2, '\x7b' :: cs =>
    match skipSpaces cs with
    | '\x7d' :: rest => some (.table [], rest)
    | cs =>
      (readEntries (readValue (level + 1)) [] (cs.length + 1) cs).map fun (entries, rest) =>
        (.table (Node.toEntries entries), rest)
  | _, '"' :: cs => (readText ('"' :: cs)).map fun (s, rest) => (.text s, rest)
  | _, '\'' :: cs => (readText ('\'' :: cs)).map fun (s, rest) => (.text s, rest)
  | _, cs => readScalar cs

def maxLevels : Nat := 80

def readHeader (closing : List Char) (cs : List Char) : Option (List String × List Char) := do
  let (path, cs) ← readKey cs
  if closing.isPrefixOf cs then return (path, ← endLine (cs.drop closing.length)) else none

/-- Reads lines below a header. Each line has one character at least. -/
def readLines (header : List String) (es : Entries) : Nat → List Char → Option Entries
  | 0, _ => none
  | fuel + 1, cs => do
    match ← skipFiller false cs with
    | [] => some es
    | '[' :: '[' :: cs =>
      let (path, cs) ← readHeader [']', ']'] cs
      readLines path (← es.openItem path) fuel cs
    | '[' :: cs =>
      let (path, cs) ← readHeader [']'] cs
      readLines path (← es.openTable path) fuel cs
    | cs =>
      let ((path, v), cs) ← readPair (readValue maxLevels) cs
      readLines header (← es.insertBelow header path v) fuel (← endLine cs)

def ofText? (s : String) : Option (List (String × Value)) := do
  let cs := unifyLineEnds s.toList
  return Node.toEntries (← readLines [] [] (cs.length + 1) cs)

end RowTypes.Toml
