import Mathlib.Tactic.SplitIfs
import RowTypes.Proofs.PathLiteral
import RowTypes.Text.Blank

/-! Types of TypeScript as they are read: names, literals, generics, arrays, intersections and
unions, with parentheses. The reader takes one token after the other. Brackets behind a type bind to
what was read last, `&` takes what stands since the last bar, and `|` all of it. So text behind a
type is read as a part of its last operand, unless brackets enclose the type. -/

namespace RowTypes.TypeReader
open Text

/-- What a type stands for. `Array<T>` and `T[]` are the same. -/
inductive TypeTree where
  | name (n : String)
  /-- A literal, by the code units of its value. -/
  | literal (value : List Nat)
  /-- A generic with its last argument. -/
  | apply (f a : TypeTree)
  | array (element : TypeTree)
  | union (l r : TypeTree)
  | intersection (l r : TypeTree)
deriving DecidableEq, Repr

inductive Token where
  | word (text : String)
  | literal (value : List Nat)
  | bar
  | ampersand
  | comma
  | leftBracket
  | rightBracket
  | leftAngle
  | rightAngle
  | leftParen
  | rightParen
deriving DecidableEq, Repr

/-! Tokens -/

def mark? : Char → Option Token
  | '|' => some .bar
  | '&' => some .ampersand
  | ',' => some .comma
  | '[' => some .leftBracket
  | ']' => some .rightBracket
  | '<' => some .leftAngle
  | '>' => some .rightAngle
  | '(' => some .leftParen
  | ')' => some .rightParen
  | _ => none

def isWordPart (c : Char) : Bool :=
  c.isAlphanum || "_$.+-".toList.contains c || (0x80 ≤ c.toNat && !isBlank c)

def isLineBreak (c : Char) : Bool := "\n\r\u2028\u2029".toList.contains c

def quoted? (quote : Char) : List Char → Option (List Char × List Char)
  | [] => none
  | '\\' :: '\r' :: '\n' :: cs => (quoted? quote cs).map fun r => ('\\' :: '\r' :: '\n' :: r.1, r.2)
  | '\\' :: c :: cs => (quoted? quote cs).map fun r => ('\\' :: c :: r.1, r.2)
  | c :: cs =>
    if c = quote then some ([], cs)
    else if c = '\\' ∨ c = '\n' ∨ c = '\r' then none
    else (quoted? quote cs).map fun r => (c :: r.1, r.2)

theorem length_quoted? {quote : Char} {cs raw rest : List Char}
    (h : quoted? quote cs = some (raw, rest)) : rest.length ≤ cs.length := by
  fun_induction quoted? quote cs generalizing raw with
  | case1 => cases h
  | case2 cs ih =>
    obtain ⟨r, hr, heq⟩ := Option.map_eq_some_iff.1 h
    cases heq
    exact (ih hr).trans (Nat.le_add_right cs.length 3)
  | case3 c cs _ ih =>
    obtain ⟨r, hr, heq⟩ := Option.map_eq_some_iff.1 h
    cases heq
    exact (ih hr).trans (Nat.le_add_right cs.length 2)
  | case4 =>
    cases h
    exact Nat.le_succ _
  | case5 => cases h
  | case6 c cs _ _ _ _ ih =>
    obtain ⟨r, hr, heq⟩ := Option.map_eq_some_iff.1 h
    cases heq
    exact Nat.le_succ_of_le (ih hr)

def unescape? : List Char → Option (List Nat)
  | [] => some []
  | c :: cs =>
    if c = '\\' then
      match cs with
      | [] => none
      | d :: cs =>
        match _read : escape d cs with
        | none => none
        | some (value, rest) => (unescape? rest).map (value ++ ·)
    else (unescape? cs).map (units c.toNat ++ ·)
termination_by cs => cs.length
decreasing_by
  · have := escape_rest_le _read
    simp only [List.length_cons]
    omega
  · exact Nat.lt_succ_self _

def push (t : Token) (read : Option (List Token × Bool)) : Option (List Token × Bool) :=
  read.map fun r => (t :: r.1, r.2)

/-- The tokens of a text, and whether a line has ended since the last of them. `broken` says so of
the place in front of the text. Brackets of arrays and generics stand on the line of what is in
front of them. -/
def lex (broken : Bool) : List Char → Option (List Token × Bool)
  | [] => some ([], broken)
  | c :: cs =>
    if isBlank c then lex (broken || isLineBreak c) cs
    else if isWordPart c then
      push (.word (String.ofList (c :: cs.takeWhile isWordPart)))
        (lex false (cs.dropWhile isWordPart))
    else if c = '\'' ∨ c = '"' then
      match _read : quoted? c cs with
      | none => none
      | some (raw, rest) =>
        match unescape? raw with
        | none => none
        | some value => push (.literal value) (lex false rest)
    else
      match mark? c with
      | none => none
      | some t =>
        if broken ∧ (t = .leftBracket ∨ t = .leftAngle) then none else push t (lex false cs)
termination_by cs => cs.length
decreasing_by
  · exact Nat.lt_succ_self _
  · exact Nat.lt_succ_of_le (List.length_dropWhile_le _ _)
  · exact Nat.lt_succ_of_le (length_quoted? _read)
  · exact Nat.lt_succ_self _

theorem unescape?_backslash {d : Char} {cs rest : List Char} {value : List Nat}
    (h : escape d cs = some (value, rest)) :
    unescape? ('\\' :: d :: cs) = (unescape? rest).map (value ++ ·) := by
  rw [unescape?.eq_def]
  simp only [if_true]
  split
  · rename_i hnone
    exact nomatch h.symm.trans hnone
  · rename_i hsome
    cases h.symm.trans hsome
    rfl

theorem lex_quote {c : Char} (hc : c = '\'' ∨ c = '"') (broken : Bool) (cs : List Char) :
    lex broken (c :: cs) = (quoted? c cs).bind fun r =>
      (unescape? r.1).bind fun value => push (.literal value) (lex false r.2) := by
  have hplain : isBlank c = false ∧ isWordPart c = false := by rcases hc with rfl | rfl <;> decide
  rw [lex, if_neg (by simp [hplain.1]), if_neg (by simp [hplain.2]), if_pos hc]
  split
  · rename_i hnone
    rw [hnone]
    rfl
  · rename_i raw rest hsome
    rw [hsome, Option.bind_some]
    dsimp only
    split
    · rename_i hnone
      rw [hnone]
      rfl
    · rename_i value hvalue
      rw [hvalue]
      rfl

/-! Types -/

inductive Place where
  /-- Nothing, not even an operator. -/
  | start
  | behindBar
  | behindAmpersand
  /-- A name that may have type arguments. -/
  | behindName (n : String)
  | behind (t : TypeTree)
  /-- A type and an opening bracket. -/
  | inBrackets (t : TypeTree)
deriving DecidableEq, Repr

structure PartialType where
  /-- What stands in front of the last bar. -/
  terms : Option TypeTree
  /-- What stands between that and the last ampersand. -/
  factors : Option TypeTree
  place : Place
deriving DecidableEq, Repr

/-- Where the type between brackets belongs: to a generic with the arguments that it has already, or
nowhere, in parentheses. -/
structure Frame where
  outer : PartialType
  generic : Option TypeTree
deriving DecidableEq, Repr

structure State where
  reading : PartialType
  frames : List Frame
deriving DecidableEq, Repr

def Place.operand? : Place → Option TypeTree
  | behindName n => some (.name n)
  | behind t => some t
  | _ => none

def joined (op : TypeTree → TypeTree → TypeTree) : Option TypeTree → TypeTree → TypeTree
  | none, t => t
  | some l, t => op l t

namespace PartialType

def fresh : PartialType := ⟨none, none, .start⟩

def expectsOperand (r : PartialType) : Bool :=
  match r.place with
  | .start | .behindBar | .behindAmpersand => true
  | _ => false

def term? (r : PartialType) : Option TypeTree :=
  r.place.operand?.map (joined .intersection r.factors)

def whole? (r : PartialType) : Option TypeTree := r.term?.map (joined .union r.terms)

def isCompound (r : PartialType) : Bool := r.terms.isSome || r.factors.isSome

def put (r : PartialType) (place : Place) : PartialType := { r with place }

end PartialType

def TypeTree.close (f a : TypeTree) : TypeTree := if f = .name "Array" then .array a else .apply f a

def step (s : State) : Token → Option State
  | .word n =>
    if s.reading.expectsOperand then some ⟨s.reading.put (.behindName n), s.frames⟩ else none
  | .literal value =>
    if s.reading.expectsOperand then some ⟨s.reading.put (.behind (.literal value)), s.frames⟩
    else none
  | .bar =>
    if s.reading.place = .start then some ⟨s.reading.put .behindBar, s.frames⟩
    else s.reading.whole?.map fun t => ⟨⟨some t, none, .behindBar⟩, s.frames⟩
  | .ampersand =>
    if s.reading.place = .start ∨ s.reading.place = .behindBar then
      some ⟨s.reading.put .behindAmpersand, s.frames⟩
    else s.reading.term?.map fun t => ⟨⟨s.reading.terms, some t, .behindAmpersand⟩, s.frames⟩
  | .leftBracket =>
    s.reading.place.operand?.map fun t => ⟨s.reading.put (.inBrackets t), s.frames⟩
  | .rightBracket =>
    match s.reading.place with
    | .inBrackets t => some ⟨s.reading.put (.behind (.array t)), s.frames⟩
    | _ => none
  | .leftParen =>
    if s.reading.expectsOperand then some ⟨.fresh, ⟨s.reading, none⟩ :: s.frames⟩ else none
  | .rightParen =>
    match s.frames with
    | ⟨outer, none⟩ :: frames => s.reading.whole?.map fun t => ⟨outer.put (.behind t), frames⟩
    | _ => none
  | .leftAngle =>
    match s.reading.place with
    | .behindName n => some ⟨.fresh, ⟨s.reading, some (.name n)⟩ :: s.frames⟩
    | _ => none
  | .comma =>
    match s.frames with
    | ⟨outer, some f⟩ :: frames =>
      s.reading.whole?.map fun t => ⟨.fresh, ⟨outer, some (.apply f t)⟩ :: frames⟩
    | _ => none
  | .rightAngle =>
    match s.frames with
    | ⟨outer, some f⟩ :: frames =>
      s.reading.whole?.map fun t => ⟨outer.put (.behind (f.close t)), frames⟩
    | _ => none

def run (s : State) (ts : List Token) : Option State := ts.foldlM step s

theorem run_cons (s : State) (t : Token) (ts : List Token) :
    run s (t :: ts) = (step s t).bind fun s => run s ts := rfl

theorem run_append (s : State) (ts us : List Token) :
    run s (ts ++ us) = (run s ts).bind fun s => run s us := List.foldlM_append

def read? (cs : List Char) : Option (PartialType × Bool) := do
  let (ts, broken) ← lex false cs
  let s ← run ⟨.fresh, []⟩ ts
  if s.frames = [] then some (s.reading, broken) else none

def type? (text : String) : Option TypeTree := (read? text.toList).bind fun r => r.1.whole?

def isOperand (text : String) : Bool :=
  (read? text.toList).any fun r => !r.1.isCompound && !r.2

/-! Texts put together -/

theorem push_eq_some_iff {t : Token} {read : Option (List Token × Bool)} {ts : List Token}
    {broken : Bool} : push t read = some (ts, broken) ↔
      ∃ us, read = some (us, broken) ∧ ts = t :: us := by
  rw [push, Option.map_eq_some_iff]
  constructor
  · rintro ⟨⟨us, b⟩, rfl, heq⟩
    cases heq
    exact ⟨us, rfl, rfl⟩
  · rintro ⟨us, rfl, rfl⟩
    exact ⟨_, rfl, rfl⟩

theorem quoted?_append {quote : Char} (hquote : quote ≠ '\\') {cs raw rest : List Char}
    (h : quoted? quote cs = some (raw, rest)) (more : List Char) :
    quoted? quote (cs ++ more) = some (raw, rest ++ more) := by
  fun_induction quoted? quote cs generalizing raw with
  | case1 => cases h
  | case2 cs ih =>
    obtain ⟨r, hr, heq⟩ := Option.map_eq_some_iff.1 h
    cases heq
    simp only [List.cons_append]
    rw [quoted?, ih hr]
    rfl
  | case3 c cs hfeed ih =>
    obtain ⟨r, hr, heq⟩ := Option.map_eq_some_iff.1 h
    cases heq
    cases cs with
    | nil => cases hr
    | cons d cs =>
      have hmore := ih hr
      simp only [List.cons_append] at hmore ⊢
      rw [quoted?, hmore]
      · rfl
      · rintro _ rfl hd
        exact hfeed cs rfl (by rw [(List.cons.inj hd).1])
  | case4 c cs =>
    cases h
    rw [List.cons_append, quoted?]
    · simp
    · rintro _ rfl
      exact absurd rfl hquote
    · rintro _ _ rfl
      exact absurd rfl hquote
  | case5 => cases h
  | case6 c cs _ _ hne hplain ih =>
    obtain ⟨r, hr, heq⟩ := Option.map_eq_some_iff.1 h
    cases heq
    rw [List.cons_append, quoted?, if_neg hne, if_neg hplain, ih hr]
    · rfl
    · rintro _ rfl
      exact absurd (.inl rfl) hplain
    · rintro _ _ rfl
      exact absurd (.inl rfl) hplain

theorem span_append {p : Char → Bool} (cs : List Char) {more : List Char}
    (h : ∀ c ∈ more.head?, p c = false) :
    (cs ++ more).takeWhile p = cs.takeWhile p ∧
      (cs ++ more).dropWhile p = cs.dropWhile p ++ more := by
  induction cs with
  | nil =>
    cases more with
    | nil => exact ⟨rfl, rfl⟩
    | cons c more =>
      have hc : p c = false := h c rfl
      simp [hc]
  | cons c cs ih =>
    rw [List.cons_append, List.takeWhile_cons, List.takeWhile_cons, List.dropWhile_cons,
      List.dropWhile_cons, ih.1, ih.2]
    constructor
    · rfl
    · split <;> rfl

theorem lex_append {broken behind : Bool} {cs more : List Char} {ts : List Token}
    (h : lex broken cs = some (ts, behind)) (hmore : ∀ c ∈ more.head?, isWordPart c = false) :
    lex broken (cs ++ more) = (lex behind more).map fun r => (ts ++ r.1, r.2) := by
  have pushed (t : Token) (us : List Token) :
      push t ((lex behind more).map fun r => (us ++ r.1, r.2)) =
        (lex behind more).map fun r => (t :: us ++ r.1, r.2) := by
    simp [push, Function.comp_def]
  fun_induction lex broken cs generalizing ts with
  | case1 broken =>
    cases h
    simp
  | case2 broken c cs hblank ih =>
    rw [List.cons_append, lex, if_pos hblank]
    exact ih h
  | case3 broken c cs hblank hword ih =>
    obtain ⟨us, hus, rfl⟩ := push_eq_some_iff.1 h
    obtain ⟨htake, hdrop⟩ := span_append cs hmore
    rw [List.cons_append, lex, if_neg hblank, if_pos hword, htake, hdrop, ih hus, pushed]
  | case4 | case5 => cases h
  | case6 broken c cs hblank hword hquote raw rest hraw value hvalue ih =>
    obtain ⟨us, hus, rfl⟩ := push_eq_some_iff.1 h
    have hslash : c ≠ '\\' := by rintro rfl; exact absurd hquote (by decide)
    rw [List.cons_append, lex_quote hquote, quoted?_append hslash hraw more]
    simp only [Option.bind_some, hvalue]
    rw [ih hus, pushed]
  | case7 => cases h
  | case8 => cases h
  | case9 broken c cs hblank hword hquote t hmark hbreak ih =>
    obtain ⟨us, hus, rfl⟩ := push_eq_some_iff.1 h
    rw [List.cons_append, lex, if_neg hblank, if_neg hword, if_neg hquote, hmark]
    simp only [hbreak, if_false]
    rw [ih hus, pushed]

theorem step_frames {s s' : State} {t : Token} (h : step s t = some s') (below : List Frame) :
    step ⟨s.reading, s.frames ++ below⟩ t = some ⟨s'.reading, s'.frames ++ below⟩ := by
  obtain ⟨r, frames⟩ := s
  cases t with
  | word | literal | leftParen =>
    simp only [step] at h ⊢
    split at h <;> cases h
    rename_i hoperand
    simp [hoperand]
  | bar | ampersand =>
    simp only [step] at h ⊢
    split at h
    · rename_i hstart
      cases h
      rw [if_pos hstart]
    · rename_i hstart
      obtain ⟨t, ht, rfl⟩ := Option.map_eq_some_iff.1 h
      rw [if_neg hstart, ht]
      rfl
  | leftBracket =>
    simp only [step] at h ⊢
    obtain ⟨t, ht, rfl⟩ := Option.map_eq_some_iff.1 h
    rw [ht]
    rfl
  | rightBracket | leftAngle =>
    simp only [step] at h ⊢
    split at h <;> cases h
    rfl
  | rightParen | comma | rightAngle =>
    simp only [step] at h ⊢
    split at h
    · obtain ⟨t, ht, rfl⟩ := Option.map_eq_some_iff.1 h
      simp only [List.cons_append]
      rw [ht]
      rfl
    · cases h

theorem run_frames {s s' : State} {ts : List Token} (h : run s ts = some s') (below : List Frame) :
    run ⟨s.reading, s.frames ++ below⟩ ts = some ⟨s'.reading, s'.frames ++ below⟩ := by
  induction ts generalizing s with
  | nil =>
    cases h
    rfl
  | cons t ts ih =>
    obtain ⟨next, hnext, hrest⟩ := Option.bind_eq_some_iff.1 h
    rw [run_cons, step_frames hnext below]
    exact ih hrest

theorem read?_eq_some_iff {cs : List Char} {r : PartialType} {broken : Bool} :
    read? cs = some (r, broken) ↔
      ∃ ts, lex false cs = some (ts, broken) ∧ run ⟨.fresh, []⟩ ts = some ⟨r, []⟩ := by
  simp only [read?, Option.bind_eq_bind, Option.bind_eq_some_iff]
  constructor
  · rintro ⟨⟨ts, b⟩, hts, ⟨r', frames⟩, hrun, heq⟩
    split at heq <;> cases heq
    rename_i hframes
    cases hframes
    exact ⟨ts, hts, hrun⟩
  · rintro ⟨ts, hts, hrun⟩
    exact ⟨_, hts, _, hrun, if_pos rfl⟩

section Reads

variable {cs more : List Char} {r r' : PartialType} {broken behind : Bool} {ts : List Token}
  {t : TypeTree}

theorem read?_append (h : read? cs = some (r, broken))
    (hmore : ∀ c ∈ more.head?, isWordPart c = false) (hlex : lex broken more = some (ts, behind))
    (hrun : run ⟨r, []⟩ ts = some ⟨r', []⟩) : read? (cs ++ more) = some (r', behind) := by
  obtain ⟨us, hus, hfirst⟩ := read?_eq_some_iff.1 h
  refine read?_eq_some_iff.2 ⟨us ++ ts, ?_, ?_⟩
  · rw [lex_append hus hmore, hlex]
    rfl
  · rw [run_append]
    exact Option.bind_eq_some_iff.2 ⟨_, hfirst, hrun⟩

theorem read?_brackets (h : read? cs = some (r, false)) (ht : r.place.operand? = some t) :
    read? (cs ++ "[]".toList) = some (r.put (.behind (.array t)), false) := by
  have hlex : lex false "[]".toList = some ([.leftBracket, .rightBracket], false) := by
    decide +kernel
  refine read?_append h (by rintro _ ⟨⟩; decide) hlex ?_
  simp [run, step, ht, PartialType.put]

example : type? "A | B[]" = some (.union (.name "A") (.array (.name "B"))) := by decide +kernel

theorem lex_bracket_eq_none (h : read? cs = some (r, true)) (more : List Char) :
    lex false (cs ++ '[' :: more) = none := by
  obtain ⟨ts, hts, -⟩ := read?_eq_some_iff.1 h
  have hbracket : lex true ('[' :: more) = none := by
    rw [lex, if_neg (by decide), if_neg (by decide), if_neg (by decide)]
    rfl
  rw [lex_append hts (by rintro _ ⟨⟩; decide), hbracket]
  rfl

theorem lex_bar (broken : Bool) (more : List Char) :
    lex broken (" | ".toList ++ more) = push .bar (lex false more) := by
  have htext : " | ".toList ++ more = ' ' :: '|' :: ' ' :: more := rfl
  rw [htext, lex, if_pos (by decide), lex, if_neg (by decide), if_neg (by decide),
    if_neg (by decide), lex, if_pos (by decide)]
  simp [mark?, isLineBreak]

theorem read?_or {token : Token} {place : Place} (h : read? cs = some (r, broken))
    (ht : r.whole? = some t) (hlex : lex false more = some ([token], false))
    (hplace : ∀ r : PartialType, r.expectsOperand = true →
      step ⟨r, []⟩ token = some ⟨r.put place, []⟩) :
    read? (cs ++ (" | ".toList ++ more)) = some (⟨some t, none, place⟩, false) := by
  have hbar : lex broken (" | ".toList ++ more) = some ([.bar, token], false) := by
    rw [lex_bar, hlex]
    rfl
  refine read?_append h (by rintro _ ⟨⟩; decide) hbar ?_
  have hstart : r.place ≠ .start := by
    intro hstart
    rw [PartialType.whole?, PartialType.term?, hstart] at ht
    cases ht
  have hfirst : step ⟨r, []⟩ .bar = some ⟨⟨some t, none, .behindBar⟩, []⟩ := by
    simp [step, hstart, ht]
  rw [run_cons, hfirst, Option.bind_some, run_cons, hplace _ rfl]
  rfl

theorem lex_array (more : List Char) : lex false ("Array<".toList ++ more) =
    push (.word "Array") (push .leftAngle (lex false more)) := by
  have htext : "Array<".toList ++ more = 'A' :: ("rray".toList ++ '<' :: more) := rfl
  have hangle : ∀ c ∈ ('<' :: more).head?, isWordPart c = false := by
    rintro _ ⟨⟩
    decide
  obtain ⟨htake, hdrop⟩ := span_append "rray".toList hangle
  have hword : ("rray".toList).takeWhile isWordPart = "rray".toList := by decide
  have hrest : ("rray".toList).dropWhile isWordPart = [] := by decide
  rw [htext, lex, if_neg (by decide), if_pos (by decide), htake, hdrop, hword, hrest,
    List.nil_append, lex, if_neg (by decide), if_neg (by decide), if_neg (by decide)]
  rfl

theorem read?_enclosed (h : read? cs = some (r, broken)) (ht : r.whole? = some t) :
    read? ("Array<".toList ++ cs ++ ">".toList) =
      some (⟨none, none, .behind (.array t)⟩, false) := by
  obtain ⟨ts, hts, hrun⟩ := read?_eq_some_iff.1 h
  have hclose : lex broken ">".toList = some ([.rightAngle], false) := by
    cases broken <;> decide +kernel
  refine read?_eq_some_iff.2 ⟨.word "Array" :: .leftAngle :: (ts ++ [.rightAngle]), ?_, ?_⟩
  · rw [List.append_assoc, lex_array, lex_append hts (by rintro _ ⟨⟩; decide), hclose]
    rfl
  · have hinner := run_frames hrun [⟨⟨none, none, .behindName "Array"⟩, some (.name "Array")⟩]
    have hopened : run ⟨.fresh, []⟩ (.word "Array" :: .leftAngle :: ts) =
        run ⟨.fresh, [⟨⟨none, none, .behindName "Array"⟩, some (.name "Array")⟩]⟩ ts := rfl
    rw [← List.cons_append, ← List.cons_append, run_append, hopened]
    refine Option.bind_eq_some_iff.2 ⟨_, hinner, ?_⟩
    simp [run, step, ht, PartialType.put, TypeTree.close]

end Reads

end RowTypes.TypeReader
