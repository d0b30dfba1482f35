import RowTypes.Inference

/-! A type that stands for another one: a domain for its base, an array for the arrays of its
element. The types that stand for one another form a chain, which the search for a host type
follows. Its bound makes it end in every catalog, also where types stand for each other in a
circle, and changes the result of the long chains only. -/

namespace RowTypes

def HostType.arrays : Nat → HostType → HostType
  | 0, h => h
  | depth + 1, h => .array (arrays depth h)

namespace Inference

/-! What a type stands for -/

inductive Link where
  | base
  | element
deriving DecidableEq, Repr

section Rules

variable (i : Inference) (t : TypeInfo)

/-- The text that is given for a type, by its name or else by the way it is written in SQL. -/
def Overrides (text : String) : Prop :=
  i.overrides.lookup t.name = some text ∨
    i.overrides.lookup t.name = none ∧ i.overrides.lookup t.regtype = some text

def HasBase (u : TypeInfo) : Prop :=
  t.kind = .domain ∧ ∃ oid, t.base = some oid ∧ i.catalog.type? oid = some u

def HasElement (u : TypeInfo) : Prop :=
  t.name.toList.head? = some '_' ∧ ∃ oid, t.element = some oid ∧ i.catalog.type? oid = some u

inductive Links : Link → TypeInfo → Prop where
  | base {u : TypeInfo} (ho : ∀ text, ¬i.Overrides t text) (hb : i.HasBase t u) : Links .base u
  | element {u : TypeInfo} (ho : ∀ text, ¬i.Overrides t text) (hk : t.kind ≠ .enumeration)
      (hb : ∀ u, ¬i.HasBase t u) (he : i.HasElement t u) : Links .element u

/-- No text, no labels and no other type stand for the type. -/
structure IsPlain : Prop where
  override : ∀ text, ¬i.Overrides t text
  kind : t.kind ≠ .enumeration
  base : ∀ u, ¬i.HasBase t u
  element : ∀ u, ¬i.HasElement t u

inductive OwnType : HostType → Prop where
  | override {text : String} (ho : i.Overrides t text) : OwnType (.custom text)
  | enumeration (ho : ∀ text, ¬i.Overrides t text) (hk : t.kind = .enumeration) :
      OwnType (.union t.labels)
  | named {h : HostType} (ht : i.IsPlain t) (hn : HostType.ofTypeName? t.name = some h) : OwnType h
  | sampled {h : HostType} (ht : i.IsPlain t) (hn : HostType.ofTypeName? t.name = none)
      (hs : i.samples.hostType? t.name = some h) : OwnType h
  | unknown (ht : i.IsPlain t) (hn : HostType.ofTypeName? t.name = none)
      (hs : i.samples.hostType? t.name = none) : OwnType .unknown

end Rules

inductive Chain (i : Inference) : TypeInfo → List Link → TypeInfo → Prop where
  | nil (t : TypeInfo) : Chain i t [] t
  | cons {t u last : TypeInfo} {link : Link} {links : List Link}
      (hlink : i.Links t link u) (hchain : Chain i u links last) : Chain i t (link :: links) last

/-- The arrays that the links stand for, around what is found behind them. -/
def around (links : List Link) (h : HostType) : HostType := h.arrays (links.count .element)

/-- The search at a depth comes to an end with this host type. Each step is a call of its own,
one deeper than the one from which it is made. -/
inductive Finds (i : Inference) : Nat → TypeInfo → HostType → Prop where
  | override {depth : Nat} {t : TypeInfo} {text : String} (ho : i.Overrides t text) :
      Finds i depth t (.custom text)
  | tooDeep {depth : Nat} {t : TypeInfo} (ho : ∀ text, ¬i.Overrides t text) (hd : 8 < depth) :
      Finds i depth t .unknown
  | own {depth : Nat} {t : TypeInfo} {h : HostType} (hd : depth ≤ 8) (ht : i.OwnType t h) :
      Finds i depth t h
  | link {depth : Nat} {t u : TypeInfo} {link : Link} {h : HostType} (hd : depth ≤ 8)
      (hlink : i.Links t link u) (hu : Finds i (depth + 1) u h) : Finds i depth t (around [link] h)

/-! The rules as functions -/

section Links

variable {i : Inference} {t u : TypeInfo} {link : Link} {text : String} {h : HostType}

theorem override?_eq_some_iff : i.override? t = some text ↔ i.Overrides t text := by
  rw [override?, Option.or_eq_some_iff, Overrides]

theorem override?_eq_none_iff : i.override? t = none ↔ ∀ text, ¬i.Overrides t text := by
  simp only [Option.eq_none_iff_forall_ne_some, ne_eq, override?_eq_some_iff]

theorem base?_eq_some_iff : i.base? t = some u ↔ i.HasBase t u := by
  rw [base?, HasBase]
  split <;> simp [Option.bind_eq_some_iff, *]

theorem base?_eq_none_iff : i.base? t = none ↔ ∀ u, ¬i.HasBase t u := by
  simp only [Option.eq_none_iff_forall_ne_some, ne_eq, base?_eq_some_iff]

theorem element?_eq_some_iff : i.element? t = some u ↔ i.HasElement t u := by
  rw [element?, HasElement]
  split <;> simp [Option.bind_eq_some_iff, *]

theorem element?_eq_none_iff : i.element? t = none ↔ ∀ u, ¬i.HasElement t u := by
  simp only [Option.eq_none_iff_forall_ne_some, ne_eq, element?_eq_some_iff]

def link? (i : Inference) (t : TypeInfo) : Option (Link × TypeInfo) :=
  if (i.override? t).isSome ∨ t.kind = .enumeration then none
  else
    match i.base? t with
    | some base => some (.base, base)
    | none => (i.element? t).map (.element, ·)

def ownType (i : Inference) (t : TypeInfo) : HostType :=
  match i.override? t with
  | some text => .custom text
  | none => if t.kind = .enumeration then .union t.labels else i.plainType t

theorem links_of_link? (hlink : i.link? t = some (link, u)) : i.Links t link u := by
  rw [link?] at hlink
  split at hlink
  · cases hlink
  next hopen =>
  rw [not_or, Option.not_isSome_iff_eq_none, override?_eq_none_iff] at hopen
  split at hlink
  · next hb =>
    cases hlink
    exact .base hopen.1 (base?_eq_some_iff.1 hb)
  · next hb =>
    obtain ⟨element, he, heq⟩ := Option.map_eq_some_iff.1 hlink
    cases heq
    exact .element hopen.1 hopen.2 (base?_eq_none_iff.1 hb) (element?_eq_some_iff.1 he)

theorem link?_of_links (hlink : i.Links t link u) : i.link? t = some (link, u) := by
  cases hlink with
  | base ho hb => simp [link?, override?_eq_none_iff.2 ho, base?_eq_some_iff.2 hb, hb.1]
  | element ho hk hb he =>
    simp [link?, override?_eq_none_iff.2 ho, hk, base?_eq_none_iff.2 hb, element?_eq_some_iff.2 he]

theorem isPlain_of_link? (ho : i.override? t = none) (hk : t.kind ≠ .enumeration)
    (hlink : i.link? t = none) : i.IsPlain t := by
  have hb : i.base? t = none := by
    cases hb : i.base? t with
    | none => rfl
    | some base => simp [link?, ho, hk, hb] at hlink
  have he : i.element? t = none := by simpa [link?, ho, hk, hb] using hlink
  exact ⟨override?_eq_none_iff.1 ho, hk, base?_eq_none_iff.1 hb, element?_eq_none_iff.1 he⟩

theorem ownType_of_link? (hlink : i.link? t = none) : i.OwnType t (i.ownType t) := by
  rw [ownType]
  cases ho : i.override? t with
  | some text => exact .override (override?_eq_some_iff.1 ho)
  | none =>
    by_cases hk : t.kind = .enumeration
    · simpa only [hk, if_true] using OwnType.enumeration (override?_eq_none_iff.1 ho) hk
    · have hplain := isPlain_of_link? ho hk hlink
      simp only [hk, if_false, plainType]
      cases hn : HostType.ofTypeName? t.name with
      | some h => exact .named hplain hn
      | none =>
        cases hs : i.samples.hostType? t.name with
        | some h => exact .sampled hplain hn hs
        | none => exact .unknown hplain hn hs

theorem IsPlain.not_links (ht : i.IsPlain t) : ¬i.Links t link u := by
  intro hlink
  cases hlink with
  | base _ hb => exact ht.base u hb
  | element _ _ _ he => exact ht.element u he

theorem OwnType.not_links (ht : i.OwnType t h) : ¬i.Links t link u := by
  cases ht with
  | override ho =>
    intro hlink
    cases hlink with
    | base hnone => exact hnone _ ho
    | element hnone => exact hnone _ ho
  | enumeration _ hk =>
    intro hlink
    cases hlink with
    | base _ hb => exact absurd (hk.symm.trans hb.1) (by decide)
    | element _ hother => exact hother hk
  | named hplain | sampled hplain | unknown hplain => exact hplain.not_links

theorem OwnType.link?_eq_none (ht : i.OwnType t h) : i.link? t = none :=
  Option.eq_none_iff_forall_ne_some.2 fun _ hlink => ht.not_links (links_of_link? hlink)

theorem OwnType.eq_ownType (ht : i.OwnType t h) : h = i.ownType t := by
  cases ht with
  | override ho => simp [ownType, override?_eq_some_iff.2 ho]
  | enumeration ho hk => simp [ownType, override?_eq_none_iff.2 ho, hk]
  | named hplain hn =>
    simp [ownType, override?_eq_none_iff.2 hplain.override, hplain.kind, plainType, hn]
  | sampled hplain hn hs =>
    simp [ownType, override?_eq_none_iff.2 hplain.override, hplain.kind, plainType, hn, hs]
  | unknown hplain hn hs =>
    simp [ownType, override?_eq_none_iff.2 hplain.override, hplain.kind, plainType, hn, hs]

/-! One link -/

theorem typeWithin_succ (i : Inference) (n : Nat) (t : TypeInfo) :
    i.typeWithin (n + 1) t =
      match i.link? t with
      | some (.base, u) => i.typeWithin n u
      | some (.element, u) => .array (i.typeWithin n u)
      | none => i.ownType t := by
  rw [typeWithin, link?, ownType]
  cases ho : i.override? t with
  | some text => simp
  | none =>
    by_cases hk : t.kind = .enumeration
    · simp [hk]
    · cases hb : i.base? t with
      | some base => simp [hk]
      | none => cases he : i.element? t <;> simp [hk]

theorem typeWithin_of_links (hlink : i.Links t link u) (n : Nat) :
    i.typeWithin (n + 1) t = around [link] (i.typeWithin n u) := by
  rw [typeWithin_succ, link?_of_links hlink]
  cases link <;> rfl

theorem typeWithin_of_ownType (ht : i.OwnType t h) (n : Nat) : i.typeWithin (n + 1) t = h := by
  rw [typeWithin_succ, ht.link?_eq_none, ht.eq_ownType]

theorem typeWithin_of_overrides (ho : i.Overrides t text) (n : Nat) :
    i.typeWithin n t = .custom text := by
  cases n <;> simp [typeWithin, override?_eq_some_iff.2 ho]

theorem typeWithin_zero (ho : ∀ text, ¬i.Overrides t text) : i.typeWithin 0 t = .unknown := by
  rw [typeWithin, override?_eq_none_iff.2 ho]

theorem links_or_ownType (i : Inference) (t : TypeInfo) :
    (∃ link u, i.Links t link u) ∨ ∃ h, i.OwnType t h := by
  cases hlink : i.link? t with
  | none => exact .inr ⟨_, ownType_of_link? hlink⟩
  | some step => exact .inl ⟨step.1, step.2, links_of_link? hlink⟩

end Links

/-! The whole chain -/

theorem around_cons (link : Link) (links : List Link) (h : HostType) :
    around (link :: links) h = around [link] (around links h) := by
  cases link with
  | base => rw [around, List.count_cons_of_ne (by decide)]; rfl
  | element => rw [around, List.count_cons_self, HostType.arrays]; rfl

section Chains

variable {i : Inference} {t last : TypeInfo} {links : List Link}

theorem Chain.typeWithin (h : Chain i t links last) (n : Nat) :
    i.typeWithin (links.length + n) t = around links (i.typeWithin n last) := by
  induction h with
  | nil t => rw [List.length_nil, Nat.zero_add]; rfl
  | cons hlink _ ih =>
    rw [List.length_cons, Nat.add_right_comm, typeWithin_of_links hlink, ih, ← around_cons]

theorem exists_chain (i : Inference) (n : Nat) (t : TypeInfo) :
    (∃ links last h, Chain i t links last ∧ i.OwnType last h ∧ links.length < n) ∨
      ∃ links last, Chain i t links last ∧ links.length = n := by
  induction n generalizing t with
  | zero => exact .inr ⟨[], t, .nil t, rfl⟩
  | succ n ih =>
    rcases i.links_or_ownType t with ⟨link, u, hlink⟩ | ⟨h, ht⟩
    · rcases ih u with ⟨links, last, h, hchain, ht, hlt⟩ | ⟨links, last, hchain, hlength⟩
      · exact .inl ⟨link :: links, last, h, .cons hlink hchain, ht, Nat.succ_lt_succ hlt⟩
      · exact .inr ⟨link :: links, last, .cons hlink hchain, congrArg Nat.succ hlength⟩
    · exact .inl ⟨[], t, h, .nil t, ht, Nat.succ_pos n⟩

end Chains

/-! The search, call by call -/

theorem finds_typeWithin (i : Inference) {n depth : Nat} (hn : n + depth = 9) (t : TypeInfo) :
    Finds i depth t (i.typeWithin n t) := by
  induction n generalizing depth t with
  | zero =>
    by_cases ho : ∃ text, i.Overrides t text
    · obtain ⟨text, ho⟩ := ho
      rw [typeWithin_of_overrides ho]
      exact .override ho
    · rw [not_exists] at ho
      rw [typeWithin_zero ho]
      exact .tooDeep ho (by omega)
  | succ n ih =>
    rcases i.links_or_ownType t with ⟨link, u, hlink⟩ | ⟨h, ht⟩
    · rw [typeWithin_of_links hlink]
      exact .link (by omega) hlink (ih (by omega) u)
    · rw [typeWithin_of_ownType ht]
      exact .own (by omega) ht

theorem Finds.eq_typeWithin {i : Inference} {n depth : Nat} {t : TypeInfo} {h : HostType}
    (hf : Finds i depth t h) (hn : n + depth = 9) : h = i.typeWithin n t := by
  -- a search that is not too deep has a link left
  have exists_succ {depth n : Nat} (hd : depth ≤ 8) (hn : n + depth = 9) :
      ∃ m, n = m + 1 ∧ m + (depth + 1) = 9 := ⟨n - 1, by omega, by omega⟩
  induction hf generalizing n with
  | override ho => rw [typeWithin_of_overrides ho]
  | tooDeep ho hd =>
    obtain rfl : n = 0 := by omega
    rw [typeWithin_zero ho]
  | own hd ht =>
    obtain ⟨n, rfl, -⟩ := exists_succ hd hn
    rw [typeWithin_of_ownType ht]
  | link hd hlink _ ih =>
    obtain ⟨n, rfl, hdeeper⟩ := exists_succ hd hn
    rw [typeWithin_of_links hlink, ih hdeeper]

/-- The search for the host type of a type ends, with one result. If the chain of the type comes to
its end within eight links, this is what the type there stands for, in an array for each element on
the way. Of a longer chain, one link more than that is looked at, for an override. -/
theorem typeOf_chain (i : Inference) (t : TypeInfo) :
    (∀ h, Finds i 0 t h ↔ h = i.typeOf t) ∧
    (∀ links last h, Chain i t links last → i.OwnType last h → links.length ≤ 8 →
      i.typeOf t = around links h) ∧
    (∀ links last, Chain i t links last → links.length = 9 →
      (∀ text, i.Overrides last text →
        (∀ link u, ¬i.Links last link u) ∧ i.typeOf t = around links (.custom text)) ∧
      ((∀ text, ¬i.Overrides last text) → i.typeOf t = around links .unknown)) ∧
    ((∃ links last h, Chain i t links last ∧ i.OwnType last h ∧ links.length ≤ 8) ∨
      ∃ links last, Chain i t links last ∧ links.length = 9) := by
  have htype : i.typeOf t = i.typeWithin 9 t := rfl
  refine ⟨fun h => ⟨fun hf => hf.eq_typeWithin rfl, ?_⟩, ?_, ?_, ?_⟩
  · rintro rfl
    exact finds_typeWithin i (Nat.add_zero 9) t
  · intro links last h hchain ht hlength
    obtain ⟨n, hn⟩ : ∃ n, 9 = links.length + (n + 1) := ⟨8 - links.length, by omega⟩
    rw [htype, hn, hchain.typeWithin, typeWithin_of_ownType ht]
  · intro links last hchain hlength
    have hwithin := hchain.typeWithin 0
    rw [Nat.add_zero, hlength] at hwithin
    rw [htype, hwithin]
    refine ⟨fun text ho => ⟨fun _ _ => (OwnType.override ho).not_links, ?_⟩, fun ho => ?_⟩
    · rw [typeWithin_of_overrides ho]
    · rw [typeWithin_zero ho]
  · exact (exists_chain i 9 t).imp_left fun ⟨links, last, h, hchain, ht, hlt⟩ =>
      ⟨links, last, h, hchain, ht, Nat.le_of_lt_succ hlt⟩

example :
    let domain : TypeInfo := ⟨1, "d", "d", .domain, none, some 1, []⟩
    typeOf ⟨⟨[], [(1, domain)]⟩, [], [], .strict⟩ domain = .unknown := by
  decide

end Inference
end RowTypes
