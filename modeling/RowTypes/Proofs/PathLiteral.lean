import Mathlib.Data.List.Basic
import Mathlib.Data.List.TakeWhile
import RowTypes.Text.Numeral

/-! The value of a single-quoted literal of TypeScript, in the code units of UTF-16. Text that
stands between the quotes as it is, is the value if and only if it needs no escape. -/

namespace RowTypes.Text

def units (n : Nat) : List Nat :=
  if n < 0x10000 then [n] else [0xd800 + (n - 0x10000) / 0x400, 0xdc00 + (n - 0x10000) % 0x400]

def utf16 (cs : List Char) : List Nat := cs.flatMap fun c => units c.toNat

def hexDigits? (count : Nat) (cs : List Char) : Option (Nat × List Char) :=
  if count ≤ cs.length then (hexValue? (cs.take count)).map (·, cs.drop count) else none

def isHexDigit (c : Char) : Bool := (hexDigit? c).isSome

def hexBraced? (cs : List Char) : Option (Nat × List Char) :=
  match cs.dropWhile isHexDigit with
  | '\x7d' :: rest =>
    if cs.head?.any isHexDigit then (hexValue? (cs.takeWhile isHexDigit)).map (·, rest) else none
  | _ => none

def escaped (c : Char) : List Nat :=
  match c with
  | 'b' => [8]
  | 't' => [9]
  | 'n' => [10]
  | 'v' => [11]
  | 'f' => [12]
  | 'r' => [13]
  | '\n' | '\r' | '\u2028' | '\u2029' => []
  | c => units c.toNat

def escape (c : Char) (cs : List Char) : Option (List Nat × List Char) :=
  if c = 'x' then (hexDigits? 2 cs).map fun r => ([r.1], r.2)
  else if c = 'u' ∧ cs.head? = some '\x7b' then
    (hexBraced? cs.tail).bind fun r => if r.1 < 0x110000 then some (units r.1, r.2) else none
  else if c = 'u' then (hexDigits? 4 cs).map fun r => ([r.1], r.2)
  else if c.isDigit then
    if c = '0' ∧ cs.head?.any Char.isDigit = false then some ([0], cs) else none
  else some (escaped c, if c = '\r' ∧ cs.head? = some '\n' then cs.tail else cs)

/-! The lengths of the readings -/

theorem length_units_le (n : Nat) : (units n).length ≤ 2 := by
  rw [units]
  split <;> simp

theorem length_units_pos (n : Nat) : 0 < (units n).length := by
  rw [units]
  split <;> simp

@[simp] theorem utf16_cons (c : Char) (cs : List Char) :
    utf16 (c :: cs) = units c.toNat ++ utf16 cs := rfl

@[simp] theorem utf16_append (cs ds : List Char) : utf16 (cs ++ ds) = utf16 cs ++ utf16 ds :=
  List.flatMap_append

theorem length_le_utf16 (cs : List Char) : cs.length ≤ (utf16 cs).length := by
  induction cs with
  | nil => exact Nat.le_refl 0
  | cons c cs ih =>
    have := length_units_pos c.toNat
    simp only [utf16_cons, List.length_append, List.length_cons]
    omega

theorem hexValue?_isHexDigit {ds : List Char} {n : Nat} (h : hexValue? ds = some n) :
    ∀ d ∈ ds, isHexDigit d = true := by
  rw [hexValue?] at h
  generalize 0 = start at h
  induction ds generalizing start with
  | nil => nofun
  | cons d ds ih =>
    rw [List.foldlM_cons] at h
    obtain ⟨m, hm, hrest⟩ := Option.bind_eq_some_iff.1 h
    obtain ⟨v, hv, -⟩ := Option.map_eq_some_iff.1 hm
    refine List.forall_mem_cons.2 ⟨?_, ih m hrest⟩
    rw [isHexDigit, hv]
    rfl

theorem quote_not_mem {ds : List Char} (h : ∀ d ∈ ds, isHexDigit d = true) : '\'' ∉ ds := by
  intro hmem
  exact absurd (h _ hmem) (by decide)

def Reads (least : Nat) (cs rest : List Char) : Prop :=
  ∃ u, cs = u ++ rest ∧ '\'' ∉ u ∧ least ≤ u.length

theorem hexDigits?_reads {count n : Nat} {cs rest : List Char}
    (h : hexDigits? count cs = some (n, rest)) : Reads count cs rest := by
  rw [hexDigits?] at h
  split at h
  · rename_i hle
    obtain ⟨v, hv, hpair⟩ := Option.map_eq_some_iff.1 h
    obtain ⟨-, rfl⟩ := Prod.mk.inj hpair
    refine ⟨cs.take count, (List.take_append_drop _ _).symm,
      quote_not_mem (hexValue?_isHexDigit hv), ?_⟩
    rw [List.length_take, Nat.min_eq_left hle]
  · exact nomatch h

theorem hexBraced?_reads {n : Nat} {cs rest : List Char} (h : hexBraced? cs = some (n, rest)) :
    Reads 1 cs rest := by
  have hsplit := List.takeWhile_append_dropWhile (p := isHexDigit) (l := cs)
  rw [hexBraced?] at h
  split at h
  · rename_i rest' hbrace
    split at h
    · obtain ⟨v, hv, hpair⟩ := Option.map_eq_some_iff.1 h
      obtain ⟨-, rfl⟩ := Prod.mk.inj hpair
      rw [hbrace] at hsplit
      refine ⟨cs.takeWhile isHexDigit ++ ['\x7d'], by simpa using hsplit.symm, ?_, by simp⟩
      rw [List.mem_append, not_or]
      exact ⟨quote_not_mem (hexValue?_isHexDigit hv), by decide⟩
    · exact nomatch h
  · exact nomatch h

theorem length_escaped_le (c : Char) : (escaped c).length ≤ (units c.toNat).length := by
  unfold escaped
  split <;> first | exact Nat.le_refl _ | exact Nat.zero_le _

theorem escape_reads {c : Char} {cs rest : List Char} {us : List Nat}
    (h : escape c cs = some (us, rest)) :
    ∃ u, cs = u ++ rest ∧ '\'' ∉ u ∧ us.length ≤ (units c.toNat).length + u.length := by
  have hpos := length_units_pos c.toNat
  rw [escape] at h
  split_ifs at h with hx hbrace hu hdigit hzero
  · obtain ⟨⟨n, rest'⟩, hread, hpair⟩ := Option.map_eq_some_iff.1 h
    obtain ⟨rfl, rfl⟩ := Prod.mk.inj hpair
    obtain ⟨u, hcs, hquote, hleast⟩ := hexDigits?_reads hread
    exact ⟨u, hcs, hquote, by rw [List.length_singleton]; omega⟩
  · obtain ⟨⟨n, rest'⟩, hread, hpair⟩ := Option.bind_eq_some_iff.1 h
    obtain ⟨u, hcs, hquote, hleast⟩ := hexBraced?_reads hread
    split at hpair
    · obtain ⟨rfl, rfl⟩ := Prod.mk.inj (Option.some.inj hpair)
      obtain ⟨cs', rfl⟩ := List.head?_eq_some_iff.1 hbrace.2
      refine ⟨'\x7b' :: u, congrArg _ hcs, by simp [hquote], ?_⟩
      have hle : (units (n, rest').1).length ≤ 2 := length_units_le n
      rw [List.length_cons]
      omega
    · exact nomatch hpair
  · obtain ⟨⟨n, rest'⟩, hread, hpair⟩ := Option.map_eq_some_iff.1 h
    obtain ⟨rfl, rfl⟩ := Prod.mk.inj hpair
    obtain ⟨u, hcs, hquote, hleast⟩ := hexDigits?_reads hread
    exact ⟨u, hcs, hquote, by rw [List.length_singleton]; omega⟩
  · obtain ⟨rfl, rfl⟩ := Prod.mk.inj (Option.some.inj h)
    exact ⟨[], rfl, by simp, by rw [List.length_singleton]; omega⟩
  · rename_i hfeed
    obtain ⟨rfl, rfl⟩ := Prod.mk.inj (Option.some.inj h)
    obtain ⟨cs', rfl⟩ := List.head?_eq_some_iff.1 hfeed.2
    exact ⟨['\n'], rfl, by decide, Nat.le_add_right_of_le (length_escaped_le c)⟩
  · obtain ⟨rfl, rfl⟩ := Prod.mk.inj (Option.some.inj h)
    exact ⟨[], rfl, by simp, Nat.le_add_right_of_le (length_escaped_le c)⟩

theorem escape_rest_le {c : Char} {cs rest : List Char} {us : List Nat}
    (h : escape c cs = some (us, rest)) : rest.length ≤ cs.length := by
  obtain ⟨u, rfl, -⟩ := escape_reads h
  rw [List.length_append]
  omega

/-! The value -/

/-- The value of a literal, read from behind its opening quote. A line may not end in it, unless
behind a backslash. -/
def literalValue? : List Char → Option (List Nat)
  | [] => none
  | c :: cs =>
    if c = '\'' then some []
    else if c = '\n' ∨ c = '\r' then none
    else if c = '\\' then
      match cs with
      | [] => none
      | d :: cs =>
        match _read : escape d cs with
        | none => none
        | some (us, rest) => (literalValue? rest).map (us ++ ·)
    else (literalValue? cs).map (units c.toNat ++ ·)
termination_by cs => cs.length
decreasing_by
  · have := escape_rest_le _read
    simp only [List.length_cons]
    omega
  · exact Nat.lt_succ_self _

def isLiteral (c : Char) : Bool := c ≠ '\'' && c ≠ '\\' && c ≠ '\n' && c ≠ '\r'

theorem literalValue?_of_isLiteral {c : Char} (hc : isLiteral c = true) (cs : List Char) :
    literalValue? (c :: cs) = (literalValue? cs).map (units c.toNat ++ ·) := by
  simp only [isLiteral, Bool.and_eq_true, decide_eq_true_eq] at hc
  obtain ⟨⟨⟨hquote, hslash⟩, hfeed⟩, hreturn⟩ := hc
  rw [literalValue?.eq_def]
  simp only [if_neg hquote, if_neg (not_or.2 ⟨hfeed, hreturn⟩), if_neg hslash]

theorem literalValue?_eq_utf16 {cs : List Char} (h : cs.all isLiteral = true) (rest : List Char) :
    literalValue? (cs ++ '\'' :: rest) = some (utf16 cs) := by
  induction cs with
  | nil =>
    rw [List.nil_append, literalValue?.eq_def]
    rfl
  | cons c cs ih =>
    rw [List.all_cons, Bool.and_eq_true] at h
    rw [List.cons_append, literalValue?_of_isLiteral h.1, ih h.2]
    rfl

theorem exists_of_append_eq {cs u t rest : List Char} (h : cs ++ '\'' :: t = u ++ rest)
    (hu : '\'' ∉ u) : ∃ v, cs = u ++ v ∧ rest = v ++ '\'' :: t := by
  rcases List.append_eq_append_iff.1 h with ⟨v, rfl, hrest⟩ | ⟨v, rfl, hrest⟩
  · cases v with
    | nil => exact ⟨[], by simp, by simpa using hrest.symm⟩
    | cons d v =>
      obtain ⟨rfl, -⟩ := List.cons.inj hrest
      exact absurd (by simp) hu
  · exact ⟨v, rfl, hrest⟩

theorem length_literalValue?_le {cs rest : List Char} {us : List Nat}
    (h : literalValue? (cs ++ '\'' :: ')' :: '\n' :: rest) = some us) :
    us.length ≤ (utf16 cs).length ∧ (cs.all isLiteral = false → us.length < (utf16 cs).length) := by
  induction hn : cs.length using Nat.strong_induction_on generalizing cs us with
  | _ n ih =>
  cases cs with
  | nil =>
    rw [List.nil_append, literalValue?.eq_def] at h
    obtain rfl := Option.some.inj h
    exact ⟨Nat.zero_le _, nofun⟩
  | cons c cs =>
    have hpos := length_units_pos c.toNat
    by_cases hc : isLiteral c = true
    · rw [List.cons_append, literalValue?_of_isLiteral hc] at h
      obtain ⟨us', hus', rfl⟩ := Option.map_eq_some_iff.1 h
      obtain ⟨hle, hlt⟩ := ih cs.length (by simp [← hn]) hus' rfl
      simp only [utf16_cons, List.length_append, List.all_cons, hc, Bool.true_and]
      exact ⟨by omega, fun h => Nat.add_lt_add_left (hlt h) _⟩
    · suffices us.length < (utf16 (c :: cs)).length from ⟨this.le, fun _ => this⟩
      rw [utf16_cons, List.length_append]
      rw [List.cons_append, literalValue?.eq_def] at h
      simp only at h
      split_ifs at h with hquote hline hslash
      · obtain rfl := Option.some.inj h
        rw [List.length_nil]
        omega
      · split at h
        · exact nomatch h
        · rename_i d tail htail
          split at h
          · exact nomatch h
          · rename_i us₁ rest₁ hread
            obtain ⟨us₂, hrest, rfl⟩ := Option.map_eq_some_iff.1 h
            cases cs with
            | nil =>
              -- the escape is one of the quote that should end the literal
              obtain ⟨rfl, rfl⟩ := List.cons.inj htail
              have hescape : escape '\'' (')' :: '\n' :: rest) =
                  some (units '\''.toNat, ')' :: '\n' :: rest) := rfl
              rw [hescape] at hread
              obtain ⟨-, rfl⟩ := Prod.mk.inj (Option.some.inj hread)
              rw [literalValue?_of_isLiteral (by decide), literalValue?.eq_def] at hrest
              exact nomatch hrest
            | cons e cs =>
              obtain ⟨rfl, rfl⟩ := List.cons.inj htail
              obtain ⟨u, hsplit, hu, hle⟩ := escape_reads hread
              obtain ⟨v, rfl, rfl⟩ := exists_of_append_eq hsplit hu
              obtain ⟨hv, -⟩ := ih v.length (by simp [← hn]; omega) hrest rfl
              have := length_le_utf16 u
              simp only [utf16_cons, utf16_append, List.length_append]
              omega
      · simp only [isLiteral, Bool.and_eq_true, decide_eq_true_eq] at hc
        exact absurd ⟨⟨⟨hquote, hslash⟩, fun h => hline (.inl h)⟩, fun h => hline (.inr h)⟩ hc

/-- Text between quotes is the value of the literal if and only if it needs no escape. -/
theorem literalValue?_eq_utf16_iff (cs rest : List Char) :
    literalValue? (cs ++ '\'' :: ')' :: '\n' :: rest) = some (utf16 cs) ↔
      cs.all isLiteral = true := by
  constructor
  · intro h
    by_contra hescape
    exact Nat.lt_irrefl _ ((length_literalValue?_le h).2 (by simpa using hescape))
  · exact fun h => literalValue?_eq_utf16 h _

end RowTypes.Text
