import RowTypes.Proofs.QuietText

/-! Where headers stand. A header is words with blanks between them and then an opening brace.
It is read in the same way in front of any text, and no header reaches across a character
that it cannot hold. -/

namespace RowTypes.Block

def Blank (b : List Char) : Prop := ∀ c ∈ b, Text.isBlank c = true

theorem afterText_eq_some {text : String} {cs rest : List Char} :
    afterText text cs = some rest ↔ cs = text.toList ++ rest := by
  unfold afterText Reference.afterPrefix?
  constructor
  · intro h
    split at h
    · rename_i hp
      obtain ⟨t, rfl⟩ := List.isPrefixOf_iff_prefix.1 hp
      cases h
      simp
    · cases h
  · rintro rfl
    simp

theorem afterBrace_eq_some {cs rest : List Char} :
    afterBrace cs = some rest ↔ ∃ b, Blank b ∧ cs = b ++ '\x7b' :: rest := by
  have hcs := List.takeWhile_append_dropWhile (p := Text.isBlank) (l := cs)
  unfold afterBrace
  constructor
  · intro h
    split at h
    · rename_i r hr
      cases h
      exact ⟨cs.takeWhile Text.isBlank, of_mem_takeWhile, by rw [← hr, hcs]⟩
    · cases h
  · rintro ⟨b, hb, rfl⟩
    rw [dropWhile_append_stop hb rfl]
    rfl

theorem afterBlanks_eq_some {p : List Char → Option (List Char)}
    (hp : ∀ c cs, Text.isBlank c = true → p (c :: cs) = none) {cs rest : List Char} :
    afterBlanks p cs = some rest ↔
      ∃ b, Blank b ∧ b ≠ [] ∧ ∃ cs', cs = b ++ cs' ∧ p cs' = some rest := by
  induction cs with
  | nil =>
    constructor
    · intro h
      cases h
    · rintro ⟨b, -, hne, cs', h, -⟩
      simp [hne] at h
  | cons c cs ih =>
    rw [afterBlanks]
    constructor
    · intro h
      split at h
      · rename_i hc
        cases hr : p cs with
        | some r =>
          rw [hr] at h
          cases h
          exact ⟨[c], by simpa [Blank] using hc, by simp, cs, rfl, hr⟩
        | none =>
          rw [hr] at h
          obtain ⟨b, hb, -, cs', rfl, hcs'⟩ := ih.1 h
          refine ⟨c :: b, ?_, by simp, cs', rfl, hcs'⟩
          intro d hd
          rcases List.mem_cons.1 hd with rfl | hd
          · exact hc
          · exact hb d hd
      · cases h
    · rintro ⟨b, hb, hne, cs', hcs, hr⟩
      obtain ⟨d, b, rfl⟩ := List.exists_cons_of_ne_nil hne
      obtain ⟨rfl, rfl⟩ := List.cons.inj hcs
      rw [if_pos (hb c List.mem_cons_self)]
      cases b with
      | nil => simp [hr]
      | cons d b =>
        have hb' : Blank (d :: b) := fun e he => hb e (List.mem_cons_of_mem _ he)
        have := ih.2 ⟨d :: b, hb', by simp, cs', rfl, hr⟩
        change (p (d :: (b ++ cs'))).or _ = some rest
        rw [hp d _ (hb' d List.mem_cons_self)]
        exact this

theorem afterText_blank {text : String} {c : Char} (cs : List Char)
    (ht : text.toList.head?.any (!Text.isBlank ·) = true) (hc : Text.isBlank c = true) :
    afterText text (c :: cs) = none := by
  rw [← Option.not_isSome_iff_eq_none, Option.isSome_iff_exists]
  rintro ⟨rest, h⟩
  rw [afterText_eq_some] at h
  cases hl : text.toList with
  | nil => simp [hl] at ht
  | cons d ds =>
    rw [hl] at h ht
    obtain ⟨rfl, -⟩ := List.cons.inj h
    simp [hc] at ht

theorem afterNamespaceHeader_eq_some {cs rest : List Char} :
    afterNamespaceHeader cs = some rest ↔
      ∃ b₁ b₂ b₃ b₄, Blank b₁ ∧ b₁ ≠ [] ∧ Blank b₂ ∧ b₂ ≠ [] ∧ Blank b₃ ∧ b₃ ≠ [] ∧ Blank b₄ ∧
        cs = "export".toList ++ (b₁ ++ ("declare".toList ++ (b₂ ++ ("namespace".toList ++
          (b₃ ++ ("queries".toList ++ (b₄ ++ '\x7b' :: rest))))))) := by
  have hword (text : String) (ht : text.toList.head?.any (!Text.isBlank ·) = true) :
      ∀ c cs, Text.isBlank c = true → afterText text (c :: cs) = none :=
    fun c cs => afterText_blank cs ht
  simp only [afterNamespaceHeader, Option.bind_eq_bind, Option.bind_eq_some_iff,
    afterText_eq_some, afterBrace_eq_some, afterBlanks_eq_some (hword "declare" (by decide)),
    afterBlanks_eq_some (hword "namespace" (by decide)),
    afterBlanks_eq_some (hword Reference.space (by decide))]
  constructor
  · rintro ⟨_, rfl, _, ⟨b₁, h₁, n₁, _, rfl, rfl⟩, _, ⟨b₂, h₂, n₂, _, rfl, rfl⟩, _,
      ⟨b₃, h₃, n₃, _, rfl, rfl⟩, b₄, h₄, rfl⟩
    exact ⟨b₁, b₂, b₃, b₄, h₁, n₁, h₂, n₂, h₃, n₃, h₄, rfl⟩
  · rintro ⟨b₁, b₂, b₃, b₄, h₁, n₁, h₂, n₂, h₃, n₃, h₄, rfl⟩
    exact ⟨_, rfl, _, ⟨b₁, h₁, n₁, _, rfl, rfl⟩, _, ⟨b₂, h₂, n₂, _, rfl, rfl⟩, _,
      ⟨b₃, h₃, n₃, _, rfl, rfl⟩, b₄, h₄, rfl⟩

theorem identifierPart_cases {c : Char} (h : isIdentifierPart c = true) :
    (0x41 ≤ c.toNat ∧ c.toNat ≤ 0x5a) ∨ (0x61 ≤ c.toNat ∧ c.toNat ≤ 0x7a) ∨
      (0x30 ≤ c.toNat ∧ c.toNat ≤ 0x39) ∨ c = '_' ∨ c = '$' := by
  have hc : ((((c.isUpper || c.isLower) || c.isDigit) || decide (c = '_')) || decide (c = '$')) =
      true := h
  simp only [Bool.or_eq_true, decide_eq_true_eq] at hc
  rcases hc with (((hc | hc) | hc) | rfl) | rfl
  · exact .inl (of_decide_eq_true hc)
  · exact .inr (.inl (((Bool.and_eq_true ..).mp hc).imp of_decide_eq_true of_decide_eq_true))
  · exact .inr (.inr (.inl
      (((Bool.and_eq_true ..).mp hc).imp of_decide_eq_true of_decide_eq_true)))
  · simp
  · simp

theorem isBlank_identifierPart {c : Char} (h : isIdentifierPart c = true) :
    Text.isBlank c = false := by
  by_contra hb
  simp only [Bool.not_eq_false, Text.isBlank, Bool.or_eq_true, Bool.and_eq_true,
    decide_eq_true_eq] at hb
  rcases identifierPart_cases h with hc | hc | hc | rfl | rfl
  · omega
  · omega
  · omega
  · simp at hb
  · simp at hb

theorem identifier_parts {name : String} (h : isIdentifier name = true) :
    ∀ c ∈ name.toList, isIdentifierPart c = true := by
  unfold isIdentifier at h
  split at h
  · cases h
  · rename_i c v hname
    rw [Bool.and_eq_true, List.all_eq_true] at h
    rw [hname]
    intro d hd
    rcases List.mem_cons.1 hd with rfl | hd
    · have := h.1
      simp only [isIdentifierStart, isIdentifierPart, Char.isAlphanum, Bool.or_eq_true] at this ⊢
      grind
    · exact h.2 d hd

theorem isIdentifier_head {name : String} (h : isIdentifier name = true) :
    name.toList.head?.any (!Text.isBlank ·) = true := by
  have hparts := identifier_parts h
  cases hname : name.toList with
  | nil => simp [isIdentifier, hname] at h
  | cons c v => simp [isBlank_identifierPart (hparts c (by simp [hname]))]

theorem afterInterfaceHeader_eq_some {name : String} (hn : isIdentifier name = true)
    {cs rest : List Char} :
    afterInterfaceHeader name cs = some rest ↔
      ∃ b₁ b₂ b₃, Blank b₁ ∧ b₁ ≠ [] ∧ Blank b₂ ∧ b₂ ≠ [] ∧ Blank b₃ ∧
        cs = "export".toList ++ (b₁ ++ ("interface".toList ++ (b₂ ++ (name.toList ++
          (b₃ ++ '\x7b' :: rest))))) := by
  have hword (text : String) (ht : text.toList.head?.any (!Text.isBlank ·) = true) :
      ∀ c cs, Text.isBlank c = true → afterText text (c :: cs) = none :=
    fun c cs => afterText_blank cs ht
  have hname : ∀ c cs, Text.isBlank c = true →
      ((afterText name (c :: cs)).bind afterBrace) = none := by
    intro c cs hc
    rw [hword name (isIdentifier_head hn) c cs hc]
    rfl
  simp only [afterInterfaceHeader, Option.bind_eq_bind, Option.bind_eq_some_iff,
    afterText_eq_some, afterBrace_eq_some, afterBlanks_eq_some (hword "interface" (by decide)),
    afterBlanks_eq_some (p := fun cs => (afterText name cs).bind afterBrace) hname]
  constructor
  · rintro ⟨_, rfl, _, ⟨b₁, h₁, n₁, _, rfl, rfl⟩, b₂, h₂, n₂, _, rfl, _, rfl, b₃, h₃, rfl⟩
    exact ⟨b₁, b₂, b₃, h₁, n₁, h₂, n₂, h₃, rfl⟩
  · rintro ⟨b₁, b₂, b₃, h₁, n₁, h₂, n₂, h₃, rfl⟩
    exact ⟨_, rfl, _, ⟨b₁, h₁, n₁, _, rfl, rfl⟩, b₂, h₂, n₂, _, rfl, _, rfl, b₃, h₃, rfl⟩

def isHeaderChar (c : Char) : Bool := Text.isBlank c || isIdentifierPart c || c = '\x7b'

/-- What `header` reads is read in front of any text, holds an opening brace and consists of
header characters. -/
def Local (header : List Char → Option (List Char)) : Prop :=
  ∀ cs rest, header cs = some rest → ∃ w, cs = w ++ rest ∧ w.getLast? = some '\x7b' ∧
    (∀ c ∈ w, isHeaderChar c = true) ∧ ∀ f, header (w ++ f) = some f

theorem Blank.headerChars {b : List Char} (hb : Blank b) : ∀ c ∈ b, isHeaderChar c = true := by
  intro c hc
  simp [isHeaderChar, hb c hc]

theorem local_namespaceHeader : Local afterNamespaceHeader := by
  intro cs rest h
  obtain ⟨b₁, b₂, b₃, b₄, h₁, n₁, h₂, n₂, h₃, n₃, h₄, rfl⟩ := afterNamespaceHeader_eq_some.1 h
  refine ⟨"export".toList ++ (b₁ ++ ("declare".toList ++ (b₂ ++ ("namespace".toList ++
    (b₃ ++ ("queries".toList ++ (b₄ ++ ['\x7b']))))))), ?_, ?_, ?_, ?_⟩
  · simp only [List.append_assoc, List.cons_append, List.nil_append]
  · simp only [← List.append_assoc, List.getLast?_concat]
  · have hword {text : List Char} (h : text.all isHeaderChar = true) :
        ∀ c ∈ text, isHeaderChar c = true := List.all_eq_true.1 h
    simp only [List.forall_mem_append]
    exact ⟨hword (by decide), h₁.headerChars, hword (by decide), h₂.headerChars,
      hword (by decide), h₃.headerChars, hword (by decide), h₄.headerChars, hword (by decide)⟩
  · intro f
    refine afterNamespaceHeader_eq_some.2 ⟨b₁, b₂, b₃, b₄, h₁, n₁, h₂, n₂, h₃, n₃, h₄, ?_⟩
    simp only [List.append_assoc, List.cons_append, List.nil_append]

theorem local_interfaceHeader {name : String} (hn : isIdentifier name = true) :
    Local (afterInterfaceHeader name) := by
  intro cs rest h
  obtain ⟨b₁, b₂, b₃, h₁, n₁, h₂, n₂, h₃, rfl⟩ := (afterInterfaceHeader_eq_some hn).1 h
  refine ⟨"export".toList ++ (b₁ ++ ("interface".toList ++ (b₂ ++ (name.toList ++
    (b₃ ++ ['\x7b']))))), by simp only [List.append_assoc, List.cons_append, List.nil_append],
    ?_, ?_, ?_⟩
  · simp only [← List.append_assoc, List.getLast?_concat]
  · have hword {text : List Char} (h : text.all isHeaderChar = true) :
        ∀ c ∈ text, isHeaderChar c = true := List.all_eq_true.1 h
    have hname : ∀ c ∈ name.toList, isHeaderChar c = true := by
      intro c hc
      simp [isHeaderChar, identifier_parts hn c hc]
    simp only [List.forall_mem_append]
    exact ⟨hword (by decide), h₁.headerChars, hword (by decide), h₂.headerChars, hname,
      h₃.headerChars, hword (by decide)⟩
  · intro f
    refine (afterInterfaceHeader_eq_some hn).2 ⟨b₁, b₂, b₃, h₁, n₁, h₂, n₂, h₃, ?_⟩
    simp only [List.append_assoc, List.cons_append, List.nil_append]

def Headerless (header : List Char → Option (List Char)) (w : List Char) : Prop :=
  ∀ a b, w = a ++ b → header b = none

section Headerless

variable {header : List Char → Option (List Char)}

theorem Headerless.of_infix {v w : List Char} (hl : Local header) (hw : Headerless header w)
    (h : v <:+: w) : Headerless header v := by
  rintro a b rfl
  obtain ⟨s, t, rfl⟩ := h
  cases hb : header b with
  | none => rfl
  | some rest =>
    obtain ⟨u, rfl, -, -, hu⟩ := hl b rest hb
    have := hw (s ++ a) (u ++ (rest ++ t)) (by simp)
    rw [hu] at this
    cases this

theorem Headerless.append_cons {v w : List Char} {c : Char} (hl : Local header)
    (hc : isHeaderChar c = false) (hv : Headerless header v) (hw : Headerless header w) :
    Headerless header (v ++ c :: w) := by
  intro a b hab
  cases hb : header b with
  | none => rfl
  | some rest =>
    obtain ⟨u, rfl, hlast, hu, hread⟩ := hl b rest hb
    have hne : u ≠ [] := by
      rintro rfl
      cases hlast
    have hcu : c ∉ u := fun h => by simp [hu c h] at hc
    rcases List.append_eq_append_iff.1 hab with ⟨m, rfl, hm⟩ | ⟨m, rfl, hm⟩
    · cases m with
      | nil =>
        -- the header would begin with the character
        obtain ⟨d, u, rfl⟩ := List.exists_cons_of_ne_nil hne
        obtain ⟨rfl, -⟩ := List.cons.inj hm
        simp at hcu
      | cons d m =>
        obtain ⟨rfl, rfl⟩ := List.cons.inj hm
        have := hw m (u ++ rest) rfl
        rw [hread] at this
        cases this
    · rcases List.append_eq_append_iff.1 hm with ⟨n, rfl, -⟩ | ⟨n, rfl, hn⟩
      · have := hv a (u ++ n) rfl
        rw [hread] at this
        cases this
      · cases n with
        | nil =>
          have := hv a (m ++ []) (by rw [List.append_nil])
          rw [← List.append_nil (m ++ []), hread] at this
          cases this
        | cons d n =>
          obtain ⟨rfl, -⟩ := List.cons.inj hn
          simp at hcu

theorem headerless_of_not_mem (hl : Local header) {w : List Char} (h : '\x7b' ∉ w) :
    Headerless header w := by
  rintro a b rfl
  cases hb : header b with
  | none => rfl
  | some rest =>
    obtain ⟨u, rfl, hu, -, -⟩ := hl b rest hb
    exact absurd (by simp [List.mem_of_getLast? hu]) h

theorem Headerless.append_of_not_mem {v w : List Char} (hl : Local header)
    (hv : Headerless header v) (hw : '\x7b' ∉ w) : Headerless header (v ++ w) := by
  intro a b hab
  cases hb : header b with
  | none => rfl
  | some rest =>
    obtain ⟨u, rfl, hlast, -, hread⟩ := hl b rest hb
    rcases List.append_eq_append_iff.1 hab with ⟨m, -, rfl⟩ | ⟨m, rfl, hm⟩
    · simp [List.mem_of_getLast? hlast] at hw
    · rcases List.append_eq_append_iff.1 hm with ⟨n, rfl, -⟩ | ⟨n, rfl, rfl⟩
      · have := hv a (u ++ n) rfl
        rw [hread] at this
        cases this
      · rcases List.eq_nil_or_concat n with rfl | ⟨n, d, rfl⟩
        · have := hv a (m ++ []) (by rw [List.append_nil])
          rw [← List.append_nil (m ++ []), hread] at this
          cases this
        · -- the header would end in the added text
          rw [List.concat_eq_append] at hlast hw
          simp only [← List.append_assoc, List.getLast?_concat, Option.some.injEq] at hlast
          subst hlast
          simp at hw

theorem findHeader_eq_none {w : List Char} (h : Headerless header w) :
    findHeader header w = none := by
  induction w with
  | nil => rfl
  | cons c w ih =>
    rw [findHeader, h [] (c :: w) rfl, ih]
    · rfl
    · rintro a b rfl
      exact h (c :: a) b rfl

theorem headerless_of_findHeader {w : List Char} (hl : Local header)
    (h : findHeader header w = none) : Headerless header w := by
  induction w with
  | nil =>
    intro a b hab
    obtain ⟨-, rfl⟩ := List.append_eq_nil_iff.1 hab.symm
    exact (headerless_of_not_mem hl (w := []) (by simp)) [] [] rfl
  | cons c w ih =>
    rw [findHeader] at h
    split at h
    · cases h
    · rename_i hc
      rw [Option.map_eq_none_iff] at h
      intro a b hab
      cases a with
      | nil => rw [← hc, hab]; rfl
      | cons d a => exact ih h a b (List.cons.inj hab).2

theorem only_header (hl : Local header) {w before : List Char}
    (h : (findHeader header w).map Prod.fst = some before)
    (hrest : findHeader header (w.drop (before.length + 1)) = none) :
    ∀ a b, w = a ++ b → header b ≠ none → a = before := by
  induction w generalizing before with
  | nil => cases h
  | cons c w ih =>
    rw [findHeader] at h
    intro a b hab hb
    split at h
    · cases h
      cases a with
      | nil => rfl
      | cons d a => exact absurd (headerless_of_findHeader hl hrest a b (List.cons.inj hab).2) hb
    · rename_i hc
      cases hw : findHeader header w with
      | none => simp [hw] at h
      | some found =>
        rw [hw] at h
        cases h
        cases a with
        | nil => rw [← List.nil_append b, ← hab] at hb; exact absurd hc hb
        | cons d a =>
          rw [List.cons_append, List.cons.injEq] at hab
          obtain ⟨rfl, hab⟩ := hab
          exact congrArg (c :: ·) (ih (by rw [hw]; rfl) hrest a b hab hb)

theorem findHeader_append {v w rest : List Char} (hne : w ≠ [])
    (hw : header (w ++ rest) = some rest)
    (hv : ∀ a b, v = a ++ b → b ≠ [] → header (b ++ (w ++ rest)) = none) :
    findHeader header (v ++ (w ++ rest)) = some (v, w, rest) := by
  induction v with
  | nil =>
    obtain ⟨c, w, rfl⟩ := List.exists_cons_of_ne_nil hne
    have hlength : (c :: w ++ rest).length - rest.length = (c :: w).length := by
      rw [List.length_append, Nat.add_sub_cancel]
    rw [List.nil_append, List.cons_append, findHeader, ← List.cons_append, hw]
    simp only [hlength, List.take_left]
  | cons c v ih =>
    have hnone := hv [] (c :: v) rfl (by simp)
    rw [List.cons_append] at hnone ⊢
    rw [findHeader, hnone, ih]
    · rfl
    · rintro a b rfl hb
      exact hv (c :: a) b rfl hb

end Headerless

/-! The block is found where it stands -/

theorem namespaceHeader_letters {cs rest : List Char} (h : afterNamespaceHeader cs = some rest) :
    ∃ u, 'x' ∉ u ∧ cs = 'e' :: 'x' :: (u ++ '\x7b' :: rest) ∧
      ∀ f, afterNamespaceHeader ('e' :: 'x' :: (u ++ '\x7b' :: f)) = some f := by
  obtain ⟨b₁, b₂, b₃, b₄, h₁, n₁, h₂, n₂, h₃, n₃, h₄, rfl⟩ := afterNamespaceHeader_eq_some.1 h
  have hx {b : List Char} (hb : Blank b) : 'x' ∉ b := fun hm => absurd (hb 'x' hm) (by decide)
  refine ⟨"port".toList ++ (b₁ ++ ("declare".toList ++ (b₂ ++ ("namespace".toList ++ (b₃ ++
    ("queries".toList ++ b₄)))))), ?_, ?_, ?_⟩
  · simp only [List.mem_append, not_or]
    exact ⟨by decide, hx h₁, by decide, hx h₂, by decide, hx h₃, by decide, hx h₄⟩
  · simp only [List.append_assoc]
    rfl
  · intro f
    refine afterNamespaceHeader_eq_some.2 ⟨b₁, b₂, b₃, b₄, h₁, n₁, h₂, n₂, h₃, n₃, h₄, ?_⟩
    simp only [List.append_assoc]
    rfl

theorem namespaceHeader_append {b g : List Char} (hb : b ≠ [])
    (h : ∀ a c, b = a ++ c → afterNamespaceHeader c = none) :
    afterNamespaceHeader (b ++ 'e' :: 'x' :: g) = none := by
  cases hr : afterNamespaceHeader (b ++ 'e' :: 'x' :: g) with
  | none => rfl
  | some rest =>
    obtain ⟨u, hx, hu, hread⟩ := namespaceHeader_letters hr
    obtain ⟨c, b, rfl⟩ := List.exists_cons_of_ne_nil hb
    simp only [List.cons_append, List.cons.injEq] at hu
    obtain ⟨rfl, hu⟩ := hu
    cases b with
    | nil => simp at hu
    | cons d b =>
      simp only [List.cons_append, List.cons.injEq] at hu
      obtain ⟨rfl, hu⟩ := hu
      rcases List.append_eq_append_iff.1 hu with ⟨m, rfl, hm⟩ | ⟨m, rfl, hm⟩
      · -- the header would end in the text that follows
        match m, hm with
        | [], hm => simp at hm
        | [_], hm => simp at hm
        | _ :: d :: m, hm =>
          simp only [List.cons_append, List.cons.injEq] at hm
          obtain ⟨-, rfl, -⟩ := hm
          simp at hx
      · cases m with
        | nil => simp at hm
        | cons d m =>
          obtain ⟨rfl, -⟩ := List.cons.inj hm
          have := h [] _ rfl
          rw [hread] at this
          cases this

end RowTypes.Block
