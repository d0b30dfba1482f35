import RowTypes.Proofs.Signatures
import RowTypes.Proofs.TypeReading

/-! A written type is read as the type that it is, with the default and the configured texts as
parts of it. There are two exceptions: brackets are put behind a default type whatever it is,
although they bind to its last operand, and a label with a line break ends its literal. -/

namespace RowTypes
open Text TypeReader

/-! Labels -/

def endsLine (c : Char) : Bool := c = '\n' || c = '\r'

theorem quoted?_escapeLiteral (cs more : List Char) :
    quoted? '\'' (escapeLiteral cs ++ '\'' :: more) =
      if cs.any endsLine then none else some (escapeLiteral cs, more) := by
  induction cs with
  | nil => simp [escapeLiteral, quoted?]
  | cons c cs ih =>
    rw [escapeLiteral, List.any_cons]
    by_cases hc : c = '\\' ∨ c = '\''
    · have hline : endsLine c = false := by rcases hc with rfl | rfl <;> decide
      rw [if_pos hc, hline, Bool.false_or, List.cons_append, List.cons_append, quoted?, ih]
      · split <;> rfl
      · rintro _ rfl
        exact absurd hc (by decide)
    · rw [if_neg hc, List.cons_append, quoted?, ih, if_neg fun h => hc (.inr h)]
      · by_cases hline : endsLine c = true
        · simp_all [endsLine]
        · simp_all [endsLine]
          split <;> rfl
      · rintro _ rfl
        exact absurd (.inl rfl) hc
      · rintro _ _ rfl
        exact absurd (.inl rfl) hc

theorem unescape?_escapeLiteral (cs : List Char) :
    unescape? (escapeLiteral cs) = some (utf16 cs) := by
  induction cs with
  | nil =>
    rw [escapeLiteral, unescape?]
    rfl
  | cons c cs ih =>
    rw [escapeLiteral]
    split_ifs with hc
    · have hread : escape c (escapeLiteral cs) = some (units c.toNat, escapeLiteral cs) := by
        rcases hc with rfl | rfl <;> rfl
      rw [unescape?_backslash hread, ih]
      rfl
    · rw [unescape?.eq_def]
      simp only [if_neg fun h => hc (.inl h), ih]
      rfl

theorem lex_quoteLiteral (l : String) (more : List Char) :
    lex false ((quoteLiteral l).toList ++ more) =
      if l.toList.any endsLine then none
      else push (.literal (utf16 l.toList)) (lex false more) := by
  rw [toList_quoteLiteral, List.cons_append, List.append_assoc, List.singleton_append,
    lex_quote (.inl rfl), quoted?_escapeLiteral]
  split
  · rfl
  · rw [Option.bind_some, unescape?_escapeLiteral]
    rfl

namespace HostType

/-! What a type is -/

def labelTree (l : String) : TypeTree := .literal (utf16 l.toList)

def enumTree : List String → TypeTree
  | [] => .name "never"
  | l :: ls => ls.foldl (fun t m => .union t (labelTree m)) (labelTree l)

def tree? (defaultType : String) : HostType → Option TypeTree
  | number => some (.name "number")
  | string => some (.name "string")
  | boolean => some (.name "boolean")
  | bigint => some (.name "bigint")
  | date => some (.name "Date")
  | json => some (.name "unknown")
  | buffer => some (.name "Buffer")
  | array element => (element.tree? defaultType).map .array
  | union labels => some (enumTree labels)
  | custom text => type? text
  | unknown => type? defaultType

/-- No label has a line break, and the default type is one operand if an array is made of it. -/
def isKept (defaultType : String) : HostType → Bool
  | array unknown => isOperand defaultType
  | array element => element.isKept defaultType
  | union labels => labels.all fun l => !l.toList.any endsLine
  | _ => true

variable {d w : String} {t : TypeTree} {h : HostType}

/-! Words and enums -/

theorem read?_of_word? (hw : h.word? = some w) :
    read? (h.render d).toList = some (⟨none, none, .behindName w⟩, false) := by
  rw [render_of_word? hw]
  unfold word? at hw
  split at hw <;> cases hw <;> decide +kernel

theorem lex_label {l : String} (hl : l.toList.any endsLine = false) :
    lex false (quoteLiteral l).toList = some ([.literal (utf16 l.toList)], false) := by
  have hread := lex_quoteLiteral l []
  rw [List.append_nil, hl, lex] at hread
  exact hread

theorem step_literal (value : List Nat) (r : PartialType) (hr : r.expectsOperand = true) :
    step ⟨r, []⟩ (.literal value) = some ⟨r.put (.behind (.literal value)), []⟩ := if_pos hr

theorem read?_alternatives {cs : List Char} {r : PartialType} {ls : List String}
    (hread : read? cs = some (r, false)) (ht : r.whole? = some t)
    (hls : ∀ l ∈ ls, l.toList.any endsLine = false) :
    ∃ r', read? (cs ++ alternatives ls) = some (r', false) ∧
      r'.whole? = some (ls.foldl (fun t m => .union t (labelTree m)) t) := by
  induction ls generalizing cs r t with
  | nil => exact ⟨r, by simpa [alternatives] using hread, ht⟩
  | cons l ls ih =>
    obtain ⟨hl, hls⟩ := List.forall_mem_cons.1 hls
    have hstep := read?_or hread ht (lex_label hl) (step_literal _)
    obtain ⟨r', hr', hwhole⟩ := ih hstep rfl hls
    refine ⟨r', ?_, hwhole⟩
    rw [← hr']
    simp [alternatives]

theorem read?_union {labels : List String} (hl : ∀ l ∈ labels, l.toList.any endsLine = false) :
    ∃ r, read? ((union labels).render d).toList = some (r, false) ∧
      r.whole? = some (enumTree labels) := by
  cases labels with
  | nil => exact ⟨_, read?_of_word? (w := "never") rfl, rfl⟩
  | cons l ls =>
    obtain ⟨hfirst, hls⟩ := List.forall_mem_cons.1 hl
    have hread : read? (quoteLiteral l).toList =
        some (⟨none, none, .behind (labelTree l)⟩, false) :=
      read?_eq_some_iff.2 ⟨_, lex_label hfirst, rfl⟩
    rw [render_union]
    exact read?_alternatives hread rfl hls

theorem lex_union {labels : List String} (hl : ¬∀ l ∈ labels, l.toList.any endsLine = false)
    (more : List Char) : lex false (((union labels).render d).toList ++ more) = none := by
  cases labels with
  | nil => exact absurd (fun _ h => nomatch h) hl
  | cons l ls =>
    rw [render_union]
    induction ls generalizing l with
    | nil =>
      have hbreak : l.toList.any endsLine = true := by simpa using hl
      rw [List.append_assoc, lex_quoteLiteral, if_pos hbreak]
    | cons m ls ih =>
      have htext : alternatives (m :: ls) ++ more =
          " | ".toList ++ (((quoteLiteral m).toList ++ alternatives ls) ++ more) := by
        simp [alternatives]
      rw [List.append_assoc, lex_quoteLiteral, htext, lex_bar]
      split
      · rfl
      · rename_i hfirst
        rw [ih m fun hrest => hl (List.forall_mem_cons.2 ⟨by simpa using hfirst, hrest⟩)]
        rfl

/-! Arrays -/

/-- An array that is read as one operand. -/
def ReadsArray (d : String) (h : HostType) (t : TypeTree) : Prop :=
  ∃ place, read? (h.render d).toList = some (⟨none, none, place⟩, false) ∧ place.operand? = some t

/-- A text whose brackets bind to the last of its operands, or which no text completes. -/
def Misreads (d : String) (h : HostType) : Prop :=
  (∃ r, read? (h.render d).toList = some (r, false) ∧ r.isCompound = true ∧
    r.place.operand?.isSome = true) ∨
  ∀ more, lex false ((h.render d).toList ++ more) = none

theorem ReadsArray.brackets (hr : ReadsArray d h t) (hh : h.isEnclosed = false) :
    ReadsArray d (.array h) (.array t) := by
  obtain ⟨place, hread, ht⟩ := hr
  refine ⟨.behind (.array t), ?_, rfl⟩
  rw [render, hh, if_neg (by decide), String.toList_append]
  exact read?_brackets hread ht

theorem Misreads.brackets (hm : Misreads d h) (hh : h.isEnclosed = false) :
    Misreads d (.array h) := by
  rw [Misreads, render, hh, if_neg (by decide), String.toList_append]
  refine hm.imp ?_ fun hlex more => ?_
  · rintro ⟨r, hread, hcompound, hplace⟩
    obtain ⟨t, ht⟩ := Option.isSome_iff_exists.1 hplace
    exact ⟨r.put (.behind (.array t)), read?_brackets hread ht, hcompound, rfl⟩
  · rw [List.append_assoc]
    exact hlex _

theorem readsArray_enclosed {r : PartialType} {broken : Bool} (hh : h.isEnclosed = true)
    (hread : read? (h.render d).toList = some (r, broken)) (ht : r.whole? = some t) :
    ReadsArray d (.array h) (.array t) := by
  refine ⟨.behind (.array t), ?_, rfl⟩
  rw [render, if_pos hh, String.toList_append, String.toList_append]
  exact read?_enclosed hread ht

theorem operand?_of_whole? {r : PartialType} (ht : r.whole? = some t) :
    ∃ o, r.place.operand? = some o ∧ (r.isCompound = false → o = t) := by
  obtain ⟨u, hu, rfl⟩ := Option.map_eq_some_iff.1 ht
  obtain ⟨o, ho, rfl⟩ := Option.map_eq_some_iff.1 hu
  refine ⟨o, ho, fun hc => ?_⟩
  obtain ⟨terms, factors, place⟩ := r
  cases terms <;> cases factors <;> simp_all [PartialType.isCompound, joined]

theorem array_unknown_cases (ht : type? d = some t) :
    (isOperand d = true ∧ ReadsArray d (.array .unknown) (.array t)) ∨
      (isOperand d = false ∧ Misreads d (.array .unknown)) := by
  obtain ⟨⟨r, broken⟩, hread, hwhole⟩ := Option.bind_eq_some_iff.1 ht
  obtain ⟨o, ho, hsame⟩ := operand?_of_whole? hwhole
  have hoperand : isOperand d = (!r.isCompound && !broken) := by rw [isOperand, hread]; rfl
  have htext : ((array unknown).render d).toList = d.toList ++ "[]".toList := String.toList_append
  cases broken with
  | true =>
    refine .inr ⟨by simp [hoperand], .inr fun more => ?_⟩
    rw [htext, List.append_assoc]
    exact lex_bracket_eq_none hread _
  | false =>
    cases hc : r.isCompound with
    | true =>
      refine .inr ⟨by simp [hoperand, hc], .inl ⟨r.put (.behind (.array o)), ?_, hc, rfl⟩⟩
      rw [htext]
      exact read?_brackets hread ho
    | false =>
      obtain rfl := hsame hc
      refine .inl ⟨by simp [hoperand, hc], .behind (.array o), ?_, rfl⟩
      obtain ⟨terms, factors, place⟩ := r
      cases terms <;> cases factors <;> cases hc
      rw [htext]
      exact read?_brackets hread ho

theorem array_cases {e : HostType} (ht : e.tree? d = some t) :
    ((array e).isKept d = true ∧ ReadsArray d (.array e) (.array t)) ∨
      ((array e).isKept d = false ∧ Misreads d (.array e)) := by
  induction e generalizing t with
  | unknown => exact array_unknown_cases ht
  | custom text =>
    obtain ⟨⟨r, broken⟩, hread, hwhole⟩ := Option.bind_eq_some_iff.1 ht
    exact .inl ⟨rfl, readsArray_enclosed rfl hread hwhole⟩
  | union labels =>
    cases ht
    by_cases hl : ∀ l ∈ labels, l.toList.any endsLine = false
    · obtain ⟨r, hread, hwhole⟩ := read?_union (d := d) hl
      exact .inl ⟨by simpa [isKept] using hl, readsArray_enclosed rfl hread hwhole⟩
    · refine .inr ⟨by simpa [isKept] using hl, .inr fun more => ?_⟩
      rw [render, isEnclosed, if_pos rfl, String.toList_append, String.toList_append,
        List.append_assoc, List.append_assoc, lex_array, lex_union hl]
      rfl
  | array e ih =>
    obtain ⟨u, hu, rfl⟩ := Option.map_eq_some_iff.1 ht
    exact (ih hu).imp (.imp_right (·.brackets rfl)) (.imp_right (·.brackets rfl))
  | number | string | boolean | bigint | date | json | buffer =>
    cases ht
    exact .inl ⟨rfl, ReadsArray.brackets ⟨_, read?_of_word? rfl, rfl⟩ rfl⟩

/-! All types -/

theorem whole?_of_isCompound {r : PartialType} (hc : r.isCompound = true)
    (hplace : r.place.operand?.isSome = true) :
    ∃ s, r.whole? = some s ∧ ∀ u, s ≠ .array u := by
  obtain ⟨o, ho⟩ := Option.isSome_iff_exists.1 hplace
  obtain ⟨terms, factors, place⟩ := r
  refine ⟨_, by rw [PartialType.whole?, PartialType.term?, ho]; rfl, fun u => ?_⟩
  cases terms <;> cases factors <;> simp_all [PartialType.isCompound, joined]

def IsLost (d : String) (h : HostType) (t : TypeTree) : Prop :=
  (∃ r broken s, read? (h.render d).toList = some (r, broken) ∧ r.whole? = some s ∧ s ≠ t) ∨
  ∀ more, lex false ((h.render d).toList ++ more) = none

theorem Misreads.isLost (hm : Misreads d h) (u : TypeTree) : IsLost d h (.array u) := by
  refine hm.imp_left ?_
  rintro ⟨r, hread, hc, hplace⟩
  obtain ⟨s, hs, hne⟩ := whole?_of_isCompound hc hplace
  exact ⟨r, false, s, hread, hs, hne u⟩

theorem render_cases (ht : h.tree? d = some t) :
    (h.isKept d = true ∧ ∃ r broken, read? (h.render d).toList = some (r, broken) ∧
      r.whole? = some t) ∨ (h.isKept d = false ∧ IsLost d h t) := by
  cases h with
  | unknown | custom text =>
    obtain ⟨⟨r, broken⟩, hread, hwhole⟩ := Option.bind_eq_some_iff.1 ht
    exact .inl ⟨rfl, r, broken, hread, hwhole⟩
  | union labels =>
    cases ht
    by_cases hl : ∀ l ∈ labels, l.toList.any endsLine = false
    · obtain ⟨r, hread, hwhole⟩ := read?_union (d := d) hl
      exact .inl ⟨by simpa [isKept] using hl, r, false, hread, hwhole⟩
    · exact .inr ⟨by simpa [isKept] using hl, .inr (lex_union hl)⟩
  | array e =>
    obtain ⟨u, hu, rfl⟩ := Option.map_eq_some_iff.1 ht
    refine (array_cases hu).imp (.imp_right ?_) (.imp_right (·.isLost u))
    rintro ⟨place, hread, hplace⟩
    refine ⟨_, _, hread, ?_⟩
    rw [PartialType.whole?, PartialType.term?, hplace]
    rfl
  | number | string | boolean | bigint | date | json | buffer =>
    cases ht
    exact .inl ⟨rfl, _, _, read?_of_word? rfl, rfl⟩

theorem type?_of_read? {text : String} {r : PartialType} {broken : Bool}
    (hread : read? text.toList = some (r, broken)) : type? text = r.whole? := by
  rw [type?, hread]
  rfl

theorem type?_of_lex {text : String} (hlex : lex false text.toList = none) : type? text = none := by
  rw [type?, read?, hlex]
  rfl

theorem type?_null {text : String} {r : PartialType} {broken : Bool}
    (hread : read? text.toList = some (r, broken)) (ht : r.whole? = some t) :
    type? (text ++ " | null") = some (.union t (.name "null")) := by
  have hlex : lex false "null".toList = some ([.word "null"], false) := by decide +kernel
  have hor : read? (text ++ " | null").toList =
      some (⟨some t, none, .behindName "null"⟩, false) := by
    rw [String.toList_append]
    exact read?_or hread ht hlex fun r hr => if_pos hr
  rw [type?_of_read? hor]
  rfl

theorem type?_render_iff (ht : h.tree? d = some t) :
    (type? (h.render d) = some t ↔ h.isKept d = true) ∧
      (type? (h.render d ++ " | null") = some (.union t (.name "null")) ↔ h.isKept d = true) := by
  rcases render_cases ht with ⟨hkept, r, broken, hread, hwhole⟩ | ⟨hkept, hlost⟩
  · rw [type?_of_read? hread, type?_null hread hwhole]
    exact ⟨iff_of_true hwhole hkept, iff_of_true rfl hkept⟩
  · rw [hkept]
    rcases hlost with ⟨r, broken, s, hread, hwhole, hne⟩ | hlex
    · rw [type?_of_read? hread, type?_null hread hwhole, hwhole]
      simp [hne]
    · have hnone := hlex []
      rw [List.append_nil] at hnone
      rw [type?_of_lex hnone, type?_of_lex (by rw [String.toList_append]; exact hlex _)]
      simp

end HostType

/-- A written type, and with `null` the type of a property, is read as the type that it stands for
if and only if no label has a line break, and the default type is one operand where an array is made
of it. -/
theorem structure_kept_iff (defaultType : String) (h : HostType) (t : TypeTree)
    (ht : h.tree? defaultType = some t) :
    (type? (h.render defaultType) = some t ↔ h.isKept defaultType = true) ∧
    ∀ c : Column, c.hostType = h →
      (type? (c.propertyType defaultType) =
          some (if c.notNull then t else .union t (.name "null")) ↔
        h.isKept defaultType = true) := by
  obtain ⟨plain, nullable⟩ := HostType.type?_render_iff ht
  refine ⟨plain, ?_⟩
  rintro c rfl
  rw [Column.propertyType]
  cases c.notNull
  · exact nullable
  · exact plain

/-- A generic is one operand, whatever its arguments are. -/
theorem structure_kept_generic :
    (HostType.array (.array .unknown)).tree? "Map<'a' | \"it's\", (B & C)[]>" =
        some (.array (.array (.apply (.apply (.name "Map")
          (.union (.literal [97]) (.literal [105, 116, 39, 115])))
          (.array (.intersection (.name "B") (.name "C")))))) ∧
      type? ((HostType.array (.array .unknown)).render "Map<'a' | \"it's\", (B & C)[]>") =
        (HostType.array (.array .unknown)).tree? "Map<'a' | \"it's\", (B & C)[]>" ∧
      type? ((moodColumn ["happy", "it's \\ fine"]).propertyType "A | B") =
        some (.union (.array (HostType.enumTree ["happy", "it's \\ fine"])) (.name "null")) := by
  have hgeneric : (HostType.array (.array .unknown)).tree? "Map<'a' | \"it's\", (B & C)[]>" =
      some (.array (.array (.apply (.apply (.name "Map")
        (.union (.literal [97]) (.literal [105, 116, 39, 115])))
        (.array (.intersection (.name "B") (.name "C")))))) := by
    decide +kernel
  refine ⟨hgeneric, ?_, ?_⟩
  · rw [hgeneric]
    exact (structure_kept_iff _ _ _ hgeneric).1.2 (by decide +kernel)
  · exact ((structure_kept_iff "A | B" (.array (.union ["happy", "it's \\ fine"])) _ rfl).2
      (moodColumn ["happy", "it's \\ fine"]) rfl).2 (by decide +kernel)

/-- Brackets behind a union are those of its last operand. -/
theorem structure_lost_in_union :
    ¬ ∀ (defaultType : String) (h : HostType) (t : TypeTree), h.tree? defaultType = some t →
      type? (h.render defaultType) = some t := by
  intro all
  have hread : type? "string | number[]" =
      some (.union (.name "string") (.array (.name "number"))) := by
    decide +kernel
  have ht : (HostType.array .unknown).tree? "string | number" =
      some (.array (.union (.name "string") (.name "number"))) := by
    decide +kernel
  have htext : (HostType.array .unknown).render "string | number" = "string | number[]" := by
    decide +kernel
  have h := all _ _ _ ht
  rw [htext, hread] at h
  cases h

end RowTypes
