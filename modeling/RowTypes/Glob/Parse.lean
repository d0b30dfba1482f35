import RowTypes.Glob.Basic

/-! Reading a pattern. A star stands for any bytes, also slashes. Two stars that fill
a component stand for any number of whole components, and anywhere else for two
stars. A question mark and a class stand for one byte. The parts of an alternation
may hold alternations. -/

namespace RowTypes.Glob

inductive SyntaxError where
  | unclosedClass
  | invalidRange (low high : Char)
  | unopenedAlternation
  | unclosedAlternation
  | danglingEscape
deriving DecidableEq, Repr

inductive Token where
  | literal (c : Char)
  | anyByte
  | star
  /-- Two stars at the start. -/
  | leading
  /-- Two stars at the end. -/
  | trailing
  /-- Two stars in between. -/
  | between
  | oneOf (negated : Bool) (ranges : List (Char × Char))
  | group (g : Glob)
deriving DecidableEq, Repr

def ofByte (b : UInt8) : Glob := byte false [(b, b)]

def slash : Glob := ofByte 0x2f

def append : Glob → Glob → Glob
  | empty, b => b
  | a, empty => a
  | a, b => seq a b

def ofBytes (bs : List UInt8) : Glob := bs.foldr (fun b g => (ofByte b).append g) empty

/-- The ranges of bytes that stand for a range of characters. Where a character takes
more than one byte, the range goes from the last byte of the one end to the first of
the other, and the other bytes stand for themselves. -/
def byteRanges (range : Char × Char) : List (UInt8 × UInt8) :=
  let low := String.utf8EncodeChar range.1
  let high := String.utf8EncodeChar range.2
  if range.1 = range.2 then low.map fun b => (b, b)
  else
    low.dropLast.map (fun b => (b, b)) ++ [(low.getLastD 0, high.headD 0)] ++
      high.tail.map fun b => (b, b)

namespace Token

def glob : Token → Glob
  | literal c => ofBytes (String.utf8EncodeChar c)
  | anyByte => byte true []
  | star => anything
  | leading => either (either empty slash) (seq anything slash)
  | trailing => seq slash anything
  | between => either slash (seq slash (seq anything slash))
  | oneOf negated ranges => byte negated (ranges.flatMap byteRanges)
  | group g => g

end Token

/-- The pattern of tokens given from the last to the first. -/
def ofTokens (reversed : List Token) : Glob :=
  reversed.foldl (fun g t => t.glob.append g) empty

def anyOf (gs : List Glob) : Glob :=
  match gs.filter (· ≠ empty) with
  | [] => empty
  | g :: gs => gs.foldl either g

def readClass (first inRange : Bool) (ranges : List (Char × Char)) :
    List Char → Except SyntaxError (List (Char × Char) × List Char)
  | [] => .error .unclosedClass
  | c :: cs =>
    if c = ']' ∧ !first then
      .ok ((if inRange then ('-', '-') :: ranges else ranges).reverse, cs)
    else if c = '-' ∧ !first ∧ !inRange then readClass false true ranges cs
    else if inRange then
      match ranges with
      | [] => readClass false false [(c, c)] cs
      | (low, _) :: ranges =>
        if c < low then .error (.invalidRange low c)
        else readClass false false ((low, c) :: ranges) cs
    else readClass false inRange ((c, c) :: ranges) cs

theorem readClass_length {first inRange : Bool} {ranges : List (Char × Char)} {cs : List Char}
    {found : List (Char × Char) × List Char}
    (h : readClass first inRange ranges cs = .ok found) : found.2.length < cs.length := by
  induction cs generalizing first inRange ranges with
  | nil => cases h
  | cons c cs ih =>
    have shorter {first inRange ranges} (h : readClass first inRange ranges cs = .ok found) :
        found.2.length < (c :: cs).length := Nat.lt_succ_of_lt (ih h)
    simp only [readClass] at h
    split at h
    · cases h
      simp
    · split at h
      · exact shorter h
      · split at h
        · split at h
          · exact shorter h
          · split at h
            · cases h
            · exact shorter h
        · exact shorter h

/-- What encloses the tokens that are being read: those before the brace, and the
parts of the alternation that are complete. -/
structure Frame where
  before : List Token
  parts : List Glob

/-- The two stars that follow `tokens` and come before `rest`, after the character
`previous`; with them a slash behind them is read. -/
def twoStars (nested : Bool) (previous : Option Char) (tokens : List Token) (rest : List Char) :
    List Token × List Char :=
  let plain := (.star :: .star :: tokens, rest)
  match tokens with
  | [] =>
    match rest with
    | [] => ([.leading], [])
    | '/' :: rest => ([.leading], rest)
    | _ => plain
  | before :: others =>
    let opened := nested ∧ (previous = some ',' ∨ previous = some '\x7b')
    if previous ≠ some '/' ∧ ¬opened then plain
    else
      let fill (t : Token) : List Token :=
        match before with
        | .leading => .leading :: others
        | .trailing => .trailing :: others
        | _ => t :: others
      match rest with
      | [] => (fill .trailing, [])
      | '/' :: rest => (fill .between, rest)
      | c :: _ => if nested ∧ (c = ',' ∨ c = '\x7d') then (fill .trailing, rest) else plain

theorem twoStars_length (nested : Bool) (previous : Option Char) (tokens : List Token)
    (rest : List Char) : (twoStars nested previous tokens rest).2.length ≤ rest.length := by
  unfold twoStars
  simp only
  repeat' split
  all_goals simp

def classBody (cs : List Char) : Bool × List Char :=
  match cs with
  | '!' :: cs => (true, cs)
  | '^' :: cs => (true, cs)
  | cs => (false, cs)

theorem classBody_length (cs : List Char) : (classBody cs).2.length ≤ cs.length := by
  unfold classBody
  split <;> simp

def read (previous : Option Char) (tokens : List Token) (frames : List Frame) (cs : List Char) :
    Except SyntaxError Glob :=
  match cs with
  | [] =>
    match frames with
    | [] => .ok (if tokens = [.leading] then anything else ofTokens tokens)
    | _ => .error .unclosedAlternation
  | '?' :: cs => read (some '?') (.anyByte :: tokens) frames cs
  | '*' :: '*' :: cs =>
    let found := twoStars (!frames.isEmpty) previous tokens cs
    read (some (if found.2.length < cs.length then '/' else '*')) found.1 frames found.2
  | '*' :: cs => read (some '*') (.star :: tokens) frames cs
  | '[' :: cs =>
    have : (classBody cs).2.length ≤ cs.length := classBody_length cs
    match _closed : readClass true false [] (classBody cs).2 with
    | .error e => .error e
    | .ok (ranges, rest) =>
      read (some ']') (.oneOf (classBody cs).1 ranges :: tokens) frames rest
  | '\x7b' :: cs => read (some '\x7b') [] (⟨tokens, []⟩ :: frames) cs
  | '\x7d' :: cs =>
    match frames with
    | [] => .error .unopenedAlternation
    | f :: frames =>
      let g := anyOf (f.parts ++ [ofTokens tokens])
      read (some '\x7d') (.group g :: f.before) frames cs
  | ',' :: cs =>
    match frames with
    | [] => read (some ',') (.literal ',' :: tokens) [] cs
    | f :: frames => read (some ',') [] (⟨f.before, f.parts ++ [ofTokens tokens]⟩ :: frames) cs
  | ['\\'] => .error .danglingEscape
  | '\\' :: c :: cs => read (some c) (.literal c :: tokens) frames cs
  | c :: cs => read (some c) (.literal c :: tokens) frames cs
termination_by cs.length
decreasing_by
  all_goals
    first
    | have shorter := readClass_length _closed
      simp_wf
      simp only at shorter
      omega
    | simp_wf <;> omega
    | have shorter := twoStars_length (!frames.isEmpty) previous tokens cs
      simp_wf
      omega

def parse (pattern : String) : Except SyntaxError Glob := read none [] [] pattern.toList

def bytes (path : String) : List UInt8 := path.toList.flatMap String.utf8EncodeChar

def isMatch (g : Glob) (path : String) : Bool := g.accepts (bytes path)

end RowTypes.Glob
