import RowTypes.Proofs.Grouping
import RowTypes.Proofs.Merging

/-! Which names of declarations are identifiers. A name is put together from ASCII texts in camel
case, so all its characters may stand in an identifier, and the first of them decides: a digit at
the beginning stays there, and texts of nothing but separators leave nothing. -/

namespace RowTypes.Text

def IsAscii (s : String) : Prop := ∀ c ∈ s.toList, c.toNat < 0x80

-- Over the letters of the text, never over all characters there are.
instance (s : String) : Decidable (IsAscii s) := List.decidableBAll _ _

def initial? (s : String) : Option Char := s.toList.find? isAlphanumeric

theorem isAlphanumeric_of_lt {c : Char} (h : c.toNat < 0x80) : isAlphanumeric c = c.isAlphanum := by
  simp [isAlphanumeric, isAlphabetic, isNumber, Char.isAlphanum, Nat.not_le.2 h]

theorem IsAscii.isAlphanum_of_initial? {s : String} (hs : IsAscii s) {c : Char}
    (h : initial? s = some c) : c.isAlphanum = true := by
  rw [← isAlphanumeric_of_lt (hs c (List.mem_of_find?_eq_some h))]
  exact List.find?_some h

theorem flatten_splitOnP (p : Char → Bool) (cs : List Char) :
    (cs.splitOnP p).flatten = cs.filter (!p ·) := by
  induction cs with
  | nil => rfl
  | cons c cs ih =>
    rw [List.splitOnP_cons_eq_if_modifyHead, List.filter_cons, ← ih]
    cases hp : p c with
    | true => rfl
    | false =>
      cases hsplit : cs.splitOnP p with
      | nil => exact absurd hsplit (List.splitOnP_ne_nil p cs)
      | cons w ws => rfl

theorem flatten_camelWords (word : List Char) (k : WordCase) (cs : List Char) :
    (camelWords word k cs).flatten = word.reverse ++ cs := by
  fun_induction camelWords word k cs with
  | case1 => rfl
  | case2 word _ => simp
  | case3 word k c => simp
  | case4 word k c d rest _ ih => simp [ih]
  | case5 word k c d rest _ _ ih => simp [ih]
  | case6 word k c d rest _ _ ih => simp [ih]

theorem upperCamel_toList (s : String) : ∃ ws : List (List Char),
    ws.flatten = s.toList.filter isAlphanumeric ∧
      (upperCamel s).toList = ws.flatMap capitalize := by
  refine ⟨_, ?_, String.toList_ofList⟩
  have hwords (runs : List (List Char)) :
      (runs.flatMap (camelWords [] .none)).flatten = runs.flatten := by
    induction runs with
    | nil => rfl
    | cons run runs ih => simp [List.flatMap_cons, flatten_camelWords, ih]
  rw [hwords, flatten_splitOnP]
  simp

/-! Words of ASCII letters and digits -/

def IsPlainWord (w : List Char) : Prop := ∀ c ∈ w, c.toNat < 0x80 ∧ c.isAlphanum = true

theorem ascii_cases : ∀ n < 0x80, (Char.ofNat n).isAlphanum = true →
    (Char.ofNat n).toUpper.isAlphanum = true ∧ (Char.ofNat n).toLower.isAlphanum = true ∧
      isIdentifierStart (Char.ofNat n).toUpper = (Char.ofNat n).isAlpha := by decide

theorem isAlphanum_cases {c : Char} (h : c.toNat < 0x80 ∧ c.isAlphanum = true) :
    c.toUpper.isAlphanum = true ∧ c.toLower.isAlphanum = true ∧
      isIdentifierStart c.toUpper = c.isAlpha := by
  have := ascii_cases c.toNat h.1
  rw [Char.ofNat_toNat] at this
  exact this h.2

theorem IsPlainWord.lowerTail {w : List Char} (h : IsPlainWord w) :
    ∀ c ∈ lowerTail w, c.isAlphanum = true := by
  have hlower {c : Char} (hc : c.toNat < 0x80 ∧ c.isAlphanum = true) :
      ∀ d ∈ lowerChar c, d.isAlphanum = true := by
    rw [lowerChar, if_pos hc.1]
    simpa using (isAlphanum_cases hc).2.1
  fun_induction Text.lowerTail w with
  | case1 => simp
  | case2 => exact absurd (h _ List.mem_cons_self).1 (by decide)
  | case3 c _ => exact hlower (h c List.mem_cons_self)
  | case4 c cs _ ih =>
    rw [IsPlainWord, List.forall_mem_cons] at h
    simp only [List.mem_append, or_imp, forall_and]
    exact ⟨hlower h.1, ih h.2⟩

theorem IsPlainWord.capitalize {c : Char} {cs : List Char} (h : IsPlainWord (c :: cs)) :
    capitalize (c :: cs) = c.toUpper :: Text.lowerTail cs := by
  rw [Text.capitalize, upperChar, if_pos (h c List.mem_cons_self).1]
  rfl

theorem flatMap_capitalize {ws : List (List Char)} (h : IsPlainWord ws.flatten) :
    (∀ c ∈ ws.flatMap capitalize, c.isAlphanum = true) ∧
      (ws.flatMap capitalize).head? = ws.flatten.head?.map Char.toUpper := by
  induction ws with
  | nil => simp
  | cons w ws ih =>
    obtain ⟨hchars, hhead⟩ := ih fun c hc => h c (List.mem_append_right _ hc)
    rw [List.flatMap_cons, List.flatten_cons]
    cases w with
    | nil => exact ⟨hchars, hhead⟩
    | cons c cs =>
      have hw : IsPlainWord (c :: cs) := fun d hd => h d (List.mem_append_left _ hd)
      have hcs : IsPlainWord cs := fun d hd => hw d (List.mem_cons_of_mem _ hd)
      rw [hw.capitalize]
      refine ⟨?_, rfl⟩
      simp only [List.mem_append, List.mem_cons, or_imp, forall_and, forall_eq]
      exact ⟨⟨(isAlphanum_cases (hw c List.mem_cons_self)).1, hcs.lowerTail⟩, hchars⟩

theorem IsAscii.upperCamel {s : String} (h : IsAscii s) :
    (∀ c ∈ (upperCamel s).toList, c.isAlphanum = true) ∧
      (upperCamel s).toList.head? = (initial? s).map Char.toUpper := by
  obtain ⟨ws, hflatten, hcamel⟩ := upperCamel_toList s
  have hplain : IsPlainWord ws.flatten := by
    rw [hflatten]
    intro c hc
    obtain ⟨hmem, hletter⟩ := List.mem_filter.1 hc
    exact ⟨h c hmem, by rwa [← isAlphanumeric_of_lt (h c hmem)]⟩
  rw [hcamel, initial?, ← List.head?_filter, ← hflatten]
  exact flatMap_capitalize hplain

theorem IsAscii.upperCamel_eq_empty {s : String} (h : IsAscii s) :
    Text.upperCamel s = "" ↔ initial? s = none := by
  rw [← Option.map_eq_none_iff (f := Char.toUpper), ← h.upperCamel.2, List.head?_eq_none_iff,
    String.toList_eq_nil_iff]

end RowTypes.Text

namespace RowTypes
open Text

/-! Identifiers by their first character -/

theorem isIdentifier_iff {name : String} (h : ∀ c ∈ name.toList, isIdentifierPart c = true) :
    isIdentifier name = true ↔ ∃ c, name.toList.head? = some c ∧ isIdentifierStart c = true := by
  unfold isIdentifier
  cases hname : name.toList with
  | nil => simp
  | cons c cs =>
    rw [hname, List.forall_mem_cons] at h
    have hall : cs.all isIdentifierPart = true := List.all_eq_true.2 h.2
    simp [hall]

theorem isIdentifierPart_of_isAlphanum {c : Char} (h : c.isAlphanum = true) :
    isIdentifierPart c = true := by
  rw [isIdentifierPart, h, Bool.true_or, Bool.true_or]

/-! The texts of a name -/

/-- Whether a name begins as an identifier when these texts are put together in camel case, with
an underscore between any two of them. -/
def wellBegun : List String → Bool
  | [] => false
  | [w] => (initial? w).any Char.isAlpha
  | w :: _ :: _ => (initial? w).all Char.isAlpha

theorem isIdentifierPart_intercalate {ps : List String}
    (h : ∀ p ∈ ps, ∀ c ∈ p.toList, isIdentifierPart c = true) :
    ∀ c ∈ (String.intercalate "_" ps).toList, isIdentifierPart c = true := by
  induction ps with
  | nil => simp
  | cons p ps ih =>
    rw [List.forall_mem_cons] at h
    by_cases hps : ps = []
    · rw [hps, String.intercalate_singleton]
      exact h.1
    · rw [String.intercalate_cons_of_ne_nil hps]
      simp only [String.toList_append, List.mem_append, or_imp, forall_and]
      exact ⟨⟨h.1, List.all_eq_true.1 (by decide)⟩, ih h.2⟩

theorem isIdentifier_joined {w : String} (hw : IsAscii w) {rest : List String}
    (hrest : ∀ p ∈ rest, ∀ c ∈ p.toList, isIdentifierPart c = true) (rest' : List String)
    (hlength : rest'.length = rest.length) :
    isIdentifier (String.intercalate "_" (upperCamel w :: rest)) = wellBegun (w :: rest') := by
  obtain ⟨hletters, hhead⟩ := hw.upperCamel
  have hstart {c : Char} (hc : initial? w = some c) : isIdentifierStart c.toUpper = c.isAlpha :=
    (isAlphanum_cases ⟨hw c (List.mem_of_find?_eq_some hc), hw.isAlphanum_of_initial? hc⟩).2.2
  have hparts : ∀ p ∈ upperCamel w :: rest, ∀ c ∈ p.toList, isIdentifierPart c = true :=
    List.forall_mem_cons.2 ⟨fun c hc => isIdentifierPart_of_isAlphanum (hletters c hc), hrest⟩
  rw [Bool.eq_iff_iff, isIdentifier_iff (isIdentifierPart_intercalate hparts)]
  cases rest with
  | nil =>
    rw [List.eq_nil_of_length_eq_zero hlength, wellBegun, String.intercalate_singleton, hhead]
    cases hc : initial? w with
    | none => simp
    | some c => simp [hstart hc]
  | cons p rest =>
    obtain ⟨p', rest', rfl⟩ := List.exists_cons_of_length_eq_add_one hlength
    rw [wellBegun, String.intercalate_cons_of_ne_nil (List.cons_ne_nil p rest),
      String.append_assoc, String.toList_append, List.head?_append, hhead]
    cases hc : initial? w with
    | none => simpa using show isIdentifierStart '_' = true by decide
    | some c => simp [hstart hc]

namespace DescribedQuery

structure Ascii (q : DescribedQuery) : Prop where
  stem : ∀ stem, Path.stem? q.record.file = some stem → IsAscii stem
  tables : ∀ table ∈ q.types.tables, IsAscii table

/-- What a query is named after if it is a file and there is a letter or digit in the name of
the file. -/
def namingStem? (q : DescribedQuery) : Option String :=
  (if q.record.kind = .sqlFile then Path.stem? q.record.file else none).filter
    fun stem => (initial? stem).isSome

def namingColumns (q : DescribedQuery) : List String :=
  (q.types.columns.map Column.name).filter isIdentifier

def nameTexts (q : DescribedQuery) : List String :=
  match q.namingStem? with
  | some stem => [stem]
  | none =>
    if q.types.tables ≠ [] then
      q.types.tables ++ if q.types.columns.any (·.source.isSome) then [] else q.namingColumns
    else if q.namingColumns = [] then ["Column"]
    else q.namingColumns

variable {q : DescribedQuery}

theorem fileName?_eq (h : q.Ascii) : fileName? q.record =
    ((Path.stem? q.record.file).filter fun stem => (initial? stem).isSome).map upperCamel := by
  rw [fileName?]
  cases hstem : Path.stem? q.record.file with
  | none => rfl
  | some stem =>
    have hempty := (h.stem stem hstem).upperCamel_eq_empty
    cases hinitial : initial? stem with
    | none => simp [hempty.2 hinitial, Option.filter, hinitial]
    | some c =>
      have hne : upperCamel stem ≠ "" := fun heq => by simp [hempty.1 heq] at hinitial
      simp [hne, Option.filter, hinitial]

theorem fromFile_eq (h : q.Ascii) :
    (if q.record.kind = .sqlFile then fileName? q.record else none) =
      q.namingStem?.map upperCamel := by
  rw [namingStem?]
  split
  · exact fileName?_eq h
  · rfl

theorem Ascii.namingStem? (h : q.Ascii) {stem : String} (hstem : q.namingStem? = some stem) :
    IsAscii stem := by
  obtain ⟨hstem, -⟩ := Option.filter_eq_some_iff.1 hstem
  split at hstem
  · exact h.stem stem hstem
  · cases hstem

theorem isAscii_of_isIdentifier {name : String} (h : isIdentifier name = true) : IsAscii name := by
  intro c hc
  rcases Block.identifierPart_cases (Block.identifier_parts h c hc) with hc | hc | hc | rfl | rfl
  · omega
  · omega
  · omega
  · decide
  · decide

theorem isIdentifierPart_upperCamel {ws : List String} (h : ∀ w ∈ ws, IsAscii w) :
    ∀ p ∈ ws.map upperCamel, ∀ c ∈ p.toList, isIdentifierPart c = true := by
  simp only [List.forall_mem_map]
  exact fun w hw c hc => isIdentifierPart_of_isAlphanum ((h w hw).upperCamel.1 c hc)

theorem baseName_eq (h : q.Ascii) : q.baseName =
    match q.namingStem? with
    | some stem => upperCamel stem
    | none =>
      if q.types.tables ≠ [] then
        if q.types.columns.any (·.source.isSome) ∨ q.namingColumns = [] then
          String.intercalate "_" (q.types.tables.map upperCamel)
        else
          String.intercalate "_" (q.types.tables.map upperCamel) ++ "_" ++
            String.intercalate "_" q.namingColumns
      else if q.namingColumns = [] then "Column"
      else String.intercalate "_" (q.namingColumns.map upperCamel) := by
  rw [baseName, fromFile_eq h]
  cases q.namingStem? <;> rfl

theorem baseName_joined (h : q.Ascii) : ∃ w rest rest', IsAscii w ∧
    (∀ p ∈ rest, ∀ c ∈ p.toList, isIdentifierPart c = true) ∧ rest'.length = rest.length ∧
    q.nameTexts = w :: rest' ∧ q.baseName = String.intercalate "_" (upperCamel w :: rest) := by
  have hcolumns : ∀ n ∈ q.namingColumns, isIdentifier n = true := fun n hn =>
    (List.mem_filter.1 hn).2
  rw [baseName_eq h, nameTexts]
  cases hstem : q.namingStem? with
  | some stem =>
    exact ⟨stem, [], [], h.namingStem? hstem, List.forall_mem_nil _, rfl, rfl,
      String.intercalate_singleton.symm⟩
  | none =>
    cases htables : q.types.tables with
    | cons t ts =>
      have hascii := h.tables
      rw [htables, List.forall_mem_cons] at hascii
      have htail := isIdentifierPart_upperCamel hascii.2
      simp only [ne_eq, reduceCtorEq, not_false_eq_true, if_true]
      by_cases hcond : q.types.columns.any (·.source.isSome) ∨ q.namingColumns = []
      · have hnone : (if q.types.columns.any (·.source.isSome) then [] else q.namingColumns) = [] := by
          rcases hcond with hsource | hnames
          · rw [if_pos hsource]
          · rw [hnames, ite_self]
        rw [if_pos hcond, hnone, List.append_nil]
        exact ⟨t, ts.map upperCamel, ts, hascii.1, htail, by simp, rfl, rfl⟩
      · rw [if_neg hcond]
        rw [not_or] at hcond
        rw [if_neg hcond.1, ← String.intercalate_append_of_ne_nil (l := (t :: ts).map upperCamel)
          (by simp) hcond.2]
        refine ⟨t, ts.map upperCamel ++ q.namingColumns, ts ++ q.namingColumns, hascii.1,
          fun p hp => ?_, by simp, rfl, rfl⟩
        exact (List.mem_append.1 hp).elim (htail p) fun hp =>
          Block.identifier_parts (hcolumns p hp)
    | nil =>
      simp only [ne_eq, not_true_eq_false, if_false]
      cases hnames : q.namingColumns with
      | nil =>
        exact ⟨"Column", [], [], by decide, List.forall_mem_nil _, rfl, rfl,
          by decide⟩
      | cons n ns =>
        rw [hnames, List.forall_mem_cons] at hcolumns
        simp only [reduceCtorEq, if_false, List.map_cons]
        exact ⟨n, ns.map upperCamel, ns, isAscii_of_isIdentifier hcolumns.1,
          isIdentifierPart_upperCamel fun n hn => isAscii_of_isIdentifier (hcolumns.2 n hn),
          by simp, rfl, rfl⟩

theorem isIdentifierPart_baseName (h : q.Ascii) :
    ∀ c ∈ q.baseName.toList, isIdentifierPart c = true := by
  obtain ⟨w, rest, -, hw, hrest, -, -, hname⟩ := baseName_joined h
  rw [hname]
  exact isIdentifierPart_intercalate (List.forall_mem_cons.2
    ⟨fun c hc => isIdentifierPart_of_isAlphanum (hw.upperCamel.1 c hc), hrest⟩)

theorem isIdentifier_baseName (h : q.Ascii) :
    isIdentifier q.baseName = wellBegun q.nameTexts := by
  obtain ⟨w, rest, rest', hw, hrest, hlength, htexts, hname⟩ := baseName_joined h
  rw [hname, htexts]
  exact isIdentifier_joined hw hrest rest' hlength

end DescribedQuery

namespace Declaration
open DescribedQuery

/-! Names with a line behind them -/

theorem isIdentifierPart_candidate {base : String}
    (h : ∀ c ∈ base.toList, isIdentifierPart c = true) (line : Nat) :
    ∀ n, ∀ c ∈ (candidate base line n).toList, isIdentifierPart c = true := by
  have hdigits := isIdentifierPart_digits
  intro n
  match n with
  | 0 => exact h
  | 1 =>
    rw [candidate, onLine_toList]
    simp only [List.mem_append, List.mem_cons, or_imp, forall_and, forall_eq]
    exact ⟨h, by decide, hdigits line⟩
  | n + 2 =>
    rw [candidate, numbered_toList]
    simp only [List.mem_append, List.mem_cons, or_imp, forall_and, forall_eq]
    exact ⟨h, by decide, hdigits line, by decide, hdigits (n + 2)⟩

theorem head?_candidate (base : String) (line n : Nat) :
    (candidate base line (n + 1)).toList.head? = some (base.toList.head?.getD '_') := by
  have htext (more : List Char) :
      (base.toList ++ '_' :: more).head? = some (base.toList.head?.getD '_') := by
    rw [List.head?_append, List.head?_cons]
    cases base.toList.head? <;> rfl
  match n with
  | 0 => rw [candidate, onLine_toList, htext]
  | n + 1 => rw [candidate, numbered_toList, htext]

/-- The only name that becomes an identifier by what is put behind it is the empty one. -/
theorem isIdentifier_candidate {base : String} (h : ∀ c ∈ base.toList, isIdentifierPart c = true)
    (line n : Nat) : isIdentifier (candidate base line n) = true ↔
      isIdentifier base = true ∨ base = "" ∧ candidate base line n ≠ "" := by
  cases n with
  | zero => simp [candidate]
  | succ n =>
    rw [isIdentifier_iff (isIdentifierPart_candidate h line (n + 1)), head?_candidate,
      isIdentifier_iff h]
    have hne : candidate base line (n + 1) ≠ "" := by
      intro hempty
      have := head?_candidate base line n
      simp [hempty] at this
    cases hbase : base.toList with
    | nil =>
      have hempty : base = "" := String.toList_eq_nil_iff.1 hbase
      subst hempty
      simp [hne, show isIdentifierStart '_' = true by decide]
    | cons c cs =>
      have : base ≠ "" := fun hempty => by simp [hempty] at hbase
      simp [this]

section Group

variable {qs : List DescribedQuery} (hascii : ∀ q ∈ qs, q.Ascii)

include hascii

theorem isIdentifierPart_name {d : Declaration} (hd : d ∈ group qs) :
    ∀ c ∈ d.name.toList, isIdentifierPart c = true := by
  obtain ⟨q, taken, hfind, -, n, hname, -⟩ := mem_group hd
  rw [hname]
  exact isIdentifierPart_candidate
    (isIdentifierPart_baseName (hascii q (List.mem_of_find?_eq_some hfind))) _ n

theorem isIdentifier_name {d : Declaration} (hd : d ∈ group qs) {q : DescribedQuery}
    (hq : qs.find? (·.shape = d.shape) = some q) : isIdentifier d.name = true ↔
      wellBegun q.nameTexts = true ∨ q.baseName = "" ∧ d.name ≠ "" := by
  have hq' := hascii q (List.mem_of_find?_eq_some hq)
  obtain ⟨p, taken, hfind, -, n, hname, -⟩ := mem_group hd
  rw [hq, Option.some.injEq] at hfind
  subst hfind
  rw [hname, isIdentifier_candidate (isIdentifierPart_baseName hq'), isIdentifier_baseName hq']

omit hascii in
theorem exists_empty_name {d : Declaration} (hd : d ∈ group qs) {q : DescribedQuery}
    (hq : qs.find? (·.shape = d.shape) = some q) (hbase : q.baseName = "") :
    ∃ e ∈ group qs, e.name = "" := by
  obtain ⟨p, taken, hfind, htaken, n, hname, -, hbefore⟩ := mem_group hd
  rw [hq, Option.some.injEq] at hfind
  subst hfind
  rw [hbase] at hname hbefore
  cases n with
  | zero => exact ⟨d, hd, hname⟩
  | succ n => exact htaken "" (hbefore 0 (Nat.succ_pos n))

theorem forall_isIdentifier_name_iff : (∀ d ∈ group qs, isIdentifier d.name = true) ↔
    ∀ s q, qs.find? (·.shape = s) = some q → wellBegun q.nameTexts = true := by
  constructor
  · intro h s q hq
    obtain ⟨i, hi, hqi⟩ := List.getElem_of_mem (List.mem_of_find?_eq_some hq)
    obtain ⟨k, hk⟩ := exists_group qs ⟨i, hi⟩
    have hs : s = (group qs)[k].shape := by
      rw [hk]
      have hshape : q.shape = s := by simpa using List.find?_some hq
      exact hshape.symm.trans (congrArg DescribedQuery.shape hqi.symm)
    rw [hs] at hq
    have hd := List.getElem_mem k.isLt
    refine ((isIdentifier_name hascii hd hq).1 (h _ hd)).resolve_right ?_
    rintro ⟨hbase, -⟩
    obtain ⟨e, he, hname⟩ := exists_empty_name hd hq hbase
    have := h e he
    rw [hname] at this
    cases this
  · intro h d hd
    obtain ⟨q, -, hq, -⟩ := mem_group hd
    exact (isIdentifier_name hascii hd hq).2 (.inl (h d.shape q hq))

theorem isIdentifier_getter {d : Declaration} (hd : d ∈ group qs) {kind : String}
    (hkind : isIdentifier kind = true) :
    isIdentifier ("get" ++ d.name ++ "Query" ++ kind) = true := by
  have hparts : ∀ c ∈ ("get" ++ d.name ++ "Query" ++ kind).toList, isIdentifierPart c = true := by
    simp only [String.toList_append, List.mem_append, or_imp, forall_and]
    exact ⟨⟨⟨List.all_eq_true.1 (by decide), isIdentifierPart_name hascii hd⟩,
      List.all_eq_true.1 (by decide)⟩, Block.identifier_parts hkind⟩
  rw [isIdentifier_iff hparts]
  refine ⟨'g', ?_, by decide⟩
  simp only [String.toList_append, List.append_assoc]
  rfl

end Group

/-- For ASCII names of files and tables, a declaration has an identifier for a name if the texts
that it is made from begin well, or if they leave nothing and another declaration has the empty
name. All have one if for all shapes the texts of the first query begin well. Exactly then a
reference to the name can be read back, while the accessors always have names that are
identifiers. -/
theorem names_identifiers_iff {qs : List DescribedQuery} (hascii : ∀ q ∈ qs, q.Ascii) :
    (∀ d ∈ group qs, ∃ q, qs.find? (·.shape = d.shape) = some q ∧
      (isIdentifier d.name = true ↔
        wellBegun q.nameTexts = true ∨ q.baseName = "" ∧ d.name ≠ "")) ∧
    ((∀ d ∈ group qs, isIdentifier d.name = true) ↔
      ∀ s q, qs.find? (·.shape = s) = some q → wellBegun q.nameTexts = true) ∧
    ∀ d ∈ group qs,
      (∀ existing, Reference.name? (Reference.merge existing d.name) = some d.name ↔
        isIdentifier d.name = true) ∧
      ∀ kind ∈ ["Sync", "Async"], isIdentifier ("get" ++ d.name ++ "Query" ++ kind) = true := by
  refine ⟨fun d hd => ?_, forall_isIdentifier_name_iff hascii, fun d hd => ⟨fun existing => ?_, ?_⟩⟩
  · obtain ⟨q, -, hq, -⟩ := mem_group hd
    exact ⟨q, hq, isIdentifier_name hascii hd hq⟩
  · exact ⟨Reference.isIdentifier_of_name?, Reference.name?_merge existing⟩
  · refine List.forall_mem_cons.2 ⟨?_, List.forall_mem_singleton.2 ?_⟩
    · exact isIdentifier_getter hascii hd (by decide)
    · exact isIdentifier_getter hascii hd (by decide)

def singleColumn (kind : QueryKind) (file : String) (line : Nat) (tables : List String)
    (name : String) : DescribedQuery where
  record := ⟨file, ⟨0, 0⟩, line, "select", none, 0, kind, 0⟩
  types := ⟨[⟨name, true, "int4", "integer", .number, none⟩], [], tables, []⟩

def namedSample : List DescribedQuery :=
  [singleColumn .sqlFile "queries/test-table1.sql" 1 ["t"] "n",
    singleColumn .inline "index.ts" 3 ["$", "user_accounts"] "sum",
    singleColumn .inline "index.ts" 9 [] "_total"]

theorem names_of_sample : (∀ q ∈ namedSample, q.Ascii) ∧
    ∀ d ∈ group namedSample, isIdentifier d.name = true := by
  have hstems : ∀ q ∈ namedSample, ∀ stem ∈ Path.stem? q.record.file, IsAscii stem := by
    decide +kernel
  have htables : ∀ q ∈ namedSample, ∀ table ∈ q.types.tables, IsAscii table := by decide
  have hascii : ∀ q ∈ namedSample, q.Ascii := fun q hq => ⟨hstems q hq, htables q hq⟩
  refine ⟨hascii, (names_identifiers_iff hascii).2.1.2 fun s q hq => ?_⟩
  have hall : ∀ q ∈ namedSample, wellBegun q.nameTexts = true := by decide +kernel
  exact hall q (List.mem_of_find?_eq_some hq)

/-- The only column is an identifier, but camel case takes the underscore from it. -/
theorem name_of_digit_column :
    (group [singleColumn .inline "index.ts" 1 [] "_1"]).map Declaration.name = ["1"] ∧
      isIdentifier "_1" = true ∧ isIdentifier "1" = false := by
  decide

end Declaration
end RowTypes
