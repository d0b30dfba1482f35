import Mathlib.Data.List.Forall2
import Mathlib.Data.List.Nodup
import Mathlib.Data.List.Perm.Subperm
import RowTypes.Proofs.BlockText

/-! The names of declarations. Each query belongs to one declaration, and no two declarations
share a name. A name that was free does not depend on the line of a query, any other has the
line in it and moves with it. -/

namespace RowTypes.Declaration

/-! Free names -/

def onLine (base : String) (line : Nat) : String := base ++ "_" ++ toString line

def numbered (base : String) (line n : Nat) : String :=
  onLine base line ++ "_" ++ toString (n + 2)

def candidates (base : String) (line count : Nat) : List String :=
  base :: onLine base line :: (List.range count).map (numbered base line)

theorem freeName_eq (base : String) (line : Nat) (taken : List String) :
    freeName base line taken =
      ((candidates base line taken.length).find? (· ∉ taken)).getD (onLine base line) := rfl

theorem onLine_toList (base : String) (line : Nat) :
    (onLine base line).toList = base.toList ++ '_' :: (toString line).toList := by
  rw [onLine, String.toList_append, String.toList_append]
  simp

theorem numbered_toList (base : String) (line n : Nat) :
    (numbered base line n).toList =
      base.toList ++ '_' :: ((toString line).toList ++ '_' :: (toString (n + 2)).toList) := by
  rw [numbered, String.toList_append, String.toList_append, onLine_toList]
  simp

theorem digits_isDigit (n : Nat) : ∀ c ∈ (toString n).toList, c.isDigit = true := by
  intro c hc
  rw [Nat.toString_eq_repr, Nat.repr, String.toList_ofList] at hc
  exact Nat.isDigit_of_mem_toDigits (by decide) (by decide) hc

theorem isIdentifierPart_digits (n : Nat) : ∀ c ∈ (toString n).toList, isIdentifierPart c = true := by
  intro c hc
  rw [isIdentifierPart, Char.isAlphanum, digits_isDigit n c hc, Bool.or_true, Bool.true_or,
    Bool.true_or]

theorem toString_inj {m n : Nat} (h : toString m = toString n) : m = n := by
  have digits (k : Nat) : (toString k).toList = Nat.toDigits 10 k := by
    rw [Nat.toString_eq_repr, Nat.repr, String.toList_ofList]
  rw [← Nat.ofDigitChars_ten_toDigits (n := m), ← digits, h, digits, Nat.ofDigitChars_ten_toDigits]

theorem candidates_nodup (base : String) (line count : Nat) :
    (candidates base line count).Nodup := by
  have hbase : base ≠ onLine base line := by
    intro h
    have := congrArg (List.length ∘ String.toList) h
    simp only [Function.comp_apply, onLine_toList, List.length_append, List.length_cons] at this
    omega
  have hbase' : ∀ n, base ≠ numbered base line n := by
    intro n h
    have := congrArg (List.length ∘ String.toList) h
    simp only [Function.comp_apply, numbered_toList, List.length_append, List.length_cons] at this
    omega
  have hline : ∀ n, onLine base line ≠ numbered base line n := by
    intro n h
    have := congrArg (List.length ∘ String.toList) h
    simp only [Function.comp_apply, onLine_toList, numbered_toList, List.length_append,
      List.length_cons] at this
    omega
  have hnumbered : Function.Injective (numbered base line) := by
    intro m n h
    have := congrArg String.toList h
    rw [numbered_toList, numbered_toList] at this
    simp only [List.append_cancel_left_eq, List.cons.injEq, true_and] at this
    have := toString_inj (String.toList_injective this)
    omega
  rw [candidates, List.nodup_cons, List.nodup_cons]
  refine ⟨?_, ?_, List.Nodup.map hnumbered List.nodup_range⟩
  · simp only [List.mem_cons, List.mem_map, not_or, not_exists, not_and]
    exact ⟨hbase, fun n _ h => hbase' n h.symm⟩
  · simp only [List.mem_map, not_exists, not_and]
    exact fun n _ h => hline n h.symm

theorem exists_freeName (base : String) (line : Nat) (taken : List String) :
    (candidates base line taken.length).find? (· ∉ taken) = some (freeName base line taken) := by
  cases h : (candidates base line taken.length).find? (· ∉ taken) with
  | some name => rw [freeName_eq, h, Option.getD_some]
  | none =>
    have hsubset : candidates base line taken.length ⊆ taken := by
      intro name hname
      have := List.find?_eq_none.1 h name hname
      simpa using this
    have hlength := (List.subperm_of_subset (candidates_nodup base line taken.length)
      hsubset).length_le
    simp only [candidates, List.length_cons, List.length_map, List.length_range] at hlength
    omega

theorem freeName_not_mem (base : String) (line : Nat) (taken : List String) :
    freeName base line taken ∉ taken := by
  simpa using List.find?_some (exists_freeName base line taken)

theorem freeName_mem (base : String) (line : Nat) (taken : List String) :
    freeName base line taken ∈ candidates base line taken.length :=
  List.mem_of_find?_eq_some (exists_freeName base line taken)

theorem freeName_of_not_mem {base : String} {taken : List String} (h : base ∉ taken) (line : Nat) :
    freeName base line taken = base := by
  rw [freeName_eq, candidates, List.find?_cons_of_pos (by simpa using h), Option.getD_some]

theorem freeName_eq_onLine {base : String} {line : Nat} {taken : List String}
    (h : freeName base line taken ≠ base) :
    ∃ more, (freeName base line taken).toList =
      base.toList ++ '_' :: ((toString line).toList ++ more) ∧ (more = [] ∨ more.head? = some '_') := by
  have hmem := freeName_mem base line taken
  simp only [candidates, List.mem_cons, h, false_or, List.mem_map] at hmem
  rcases hmem with hmem | ⟨n, -, hmem⟩
  · exact ⟨[], by rw [hmem, onLine_toList, List.append_nil], .inl rfl⟩
  · exact ⟨'_' :: (toString (n + 2)).toList, by rw [← hmem, numbered_toList], .inr rfl⟩

theorem takeWhile_digits {n : Nat} {more : List Char} (h : more = [] ∨ more.head? = some '_') :
    ((toString n).toList ++ more).takeWhile Char.isDigit = (toString n).toList := by
  rw [List.takeWhile_append_of_pos (digits_isDigit n)]
  rcases h with rfl | h
  · simp
  · obtain ⟨more, rfl⟩ := List.head?_eq_some_iff.1 h
    simp [show Char.isDigit '_' = false by decide]

theorem freeName_eq_iff {base : String} {line line' : Nat} {taken : List String} :
    freeName base line' taken = freeName base line taken ↔
      (freeName base line taken ≠ base → line' = line) := by
  constructor
  · intro h hne
    obtain ⟨more, hmore, hstop⟩ := freeName_eq_onLine hne
    have hne' : freeName base line' taken ≠ base := by rwa [h]
    obtain ⟨more', hmore', hstop'⟩ := freeName_eq_onLine hne'
    rw [h, hmore, List.append_cancel_left_eq, List.cons.injEq] at hmore'
    have := congrArg (List.takeWhile Char.isDigit) hmore'.2
    rw [takeWhile_digits hstop, takeWhile_digits hstop'] at this
    exact (toString_inj (String.toList_injective this)).symm
  · intro h
    by_cases hbase : base ∈ taken
    · have hne : freeName base line taken ≠ base := fun he =>
        freeName_not_mem base line taken (by rwa [he])
      rw [h hne]
    · rw [freeName_of_not_mem hbase, freeName_of_not_mem hbase]

theorem isIdentifier_append {base : String} (hb : isIdentifier base = true) {more : List Char}
    (hm : ∀ c ∈ more, isIdentifierPart c = true) {name : String}
    (hname : name.toList = base.toList ++ more) : isIdentifier name = true := by
  unfold isIdentifier at hb ⊢
  split at hb
  · cases hb
  · rename_i c cs hcs
    rw [Bool.and_eq_true] at hb
    rw [hname, hcs, List.cons_append]
    simp only [Bool.and_eq_true, List.all_append, hb.1, hb.2, List.all_eq_true, true_and]
    exact hm

theorem isIdentifier_freeName {base : String} (hb : isIdentifier base = true) (line : Nat)
    (taken : List String) : isIdentifier (freeName base line taken) = true := by
  have digits := isIdentifierPart_digits
  have underscore : isIdentifierPart '_' = true := by decide
  have hmem := freeName_mem base line taken
  simp only [candidates, List.mem_cons, List.mem_map] at hmem
  rcases hmem with hmem | hmem | ⟨n, -, hmem⟩
  · rwa [hmem]
  · refine isIdentifier_append hb ?_ (by rw [hmem, onLine_toList])
    simpa [underscore] using digits line
  · refine isIdentifier_append hb ?_ (by rw [← hmem, numbered_toList])
    simp only [List.mem_cons, List.mem_append]
    rintro c (rfl | hc | rfl | hc)
    · exact underscore
    · exact digits line c hc
    · exact underscore
    · exact digits (n + 2) c hc

/-! Renaming -/

theorem rename_not_mem (taken : List String) (ds : List Declaration) :
    ∀ d ∈ rename taken ds, d.name ∉ taken := by
  induction ds generalizing taken with
  | nil => simp [rename]
  | cons d ds ih =>
    rw [rename, List.forall_mem_cons]
    refine ⟨freeName_not_mem d.name d.line taken, fun e he hmem => ?_⟩
    exact ih _ e he (List.mem_cons_of_mem _ hmem)

theorem rename_nodup (taken : List String) (ds : List Declaration) :
    ((rename taken ds).map Declaration.name).Nodup := by
  induction ds generalizing taken with
  | nil => exact List.nodup_nil
  | cons d ds ih =>
    rw [rename, List.map_cons, List.nodup_cons]
    refine ⟨fun hmem => ?_, ih _⟩
    obtain ⟨e, he, hname⟩ := List.mem_map.1 hmem
    exact rename_not_mem _ ds e he (by rw [hname]; exact List.mem_cons_self)

structure Renamed (d d' : Declaration) : Prop where
  queries : d'.queries = d.queries
  columns : d'.columns = d.columns
  name : isIdentifier d.name = true → isIdentifier d'.name = true

theorem rename_renamed (taken : List String) (ds : List Declaration) :
    List.Forall₂ Renamed ds (rename taken ds) := by
  induction ds generalizing taken with
  | nil => exact .nil
  | cons d ds ih => exact .cons ⟨rfl, rfl, fun h => isIdentifier_freeName h d.line taken⟩ (ih _)

theorem flatMap_queries_rename (taken : List String) (ds : List Declaration) :
    (rename taken ds).flatMap Declaration.queries = ds.flatMap Declaration.queries := by
  induction ds generalizing taken with
  | nil => rfl
  | cons d ds ih => rw [rename, List.flatMap_cons, List.flatMap_cons, ih]

/-! Collecting -/

theorem add_queries (q : DescribedQuery) (ds : List Declaration) :
    ((add q ds).flatMap Declaration.queries).Perm (ds.flatMap Declaration.queries ++ [q.record]) := by
  induction ds with
  | nil => exact List.Perm.refl _
  | cons d ds ih =>
    rw [add]
    split
    · simp only [List.flatMap_cons, List.append_assoc]
      exact List.perm_append_comm.append_left d.queries
    · simp only [List.flatMap_cons, List.append_assoc]
      exact ih.append_left d.queries

theorem foldl_add_queries (qs : List DescribedQuery) (ds : List Declaration) :
    ((qs.foldl (fun ds q => add q ds) ds).flatMap Declaration.queries).Perm
      (ds.flatMap Declaration.queries ++ qs.map DescribedQuery.record) := by
  induction qs generalizing ds with
  | nil => simp
  | cons q qs ih =>
    refine (ih (add q ds)).trans ?_
    rw [List.map_cons, List.append_cons]
    exact (add_queries q ds).append_right _

structure First (q : DescribedQuery) (d : Declaration) : Prop where
  head : d.queries.head? = some q.record
  name : d.name = q.baseName
  columns : d.columns = q.types.columns

theorem First.line {q : DescribedQuery} {d : Declaration} (h : First q d) :
    d.line = q.record.line := by
  rw [Declaration.line, h.head]
  rfl

theorem add_first {q : DescribedQuery} {ds : List Declaration} {qs : List DescribedQuery}
    (hq : q ∈ qs) (h : ∀ d ∈ ds, ∃ p ∈ qs, First p d) : ∀ d ∈ add q ds, ∃ p ∈ qs, First p d := by
  induction ds with
  | nil =>
    intro d hd
    rw [List.mem_singleton.1 hd]
    exact ⟨q, hq, rfl, rfl, rfl⟩
  | cons e ds ih =>
    rw [List.forall_mem_cons] at h
    obtain ⟨⟨p, hp, hfirst⟩, hrest⟩ := h
    rw [add]
    split
    · rw [List.forall_mem_cons]
      refine ⟨⟨p, hp, ?_, hfirst.name, hfirst.columns⟩, hrest⟩
      rw [List.head?_append, hfirst.head]
      rfl
    · rw [List.forall_mem_cons]
      exact ⟨⟨p, hp, hfirst⟩, ih hrest⟩

theorem foldl_add_first {qs all : List DescribedQuery} (hsub : ∀ q ∈ qs, q ∈ all)
    {ds : List Declaration} (h : ∀ d ∈ ds, ∃ p ∈ all, First p d) :
    ∀ d ∈ qs.foldl (fun ds q => add q ds) ds, ∃ p ∈ all, First p d := by
  induction qs generalizing ds with
  | nil => exact h
  | cons q qs ih =>
    rw [List.forall_mem_cons] at hsub
    exact ih hsub.2 (add_first hsub.1 h)

theorem collect_first (qs : List DescribedQuery) : ∀ d ∈ collect qs, ∃ q ∈ qs, First q d :=
  foldl_add_first (fun _ h => h) (by simp)

/-! Grouping -/

theorem group_queries (qs : List DescribedQuery) :
    ((group qs).flatMap Declaration.queries).Perm (qs.map DescribedQuery.record) := by
  rw [group, flatMap_queries_rename]
  exact foldl_add_queries qs []

theorem group_nodup (qs : List DescribedQuery) : ((group qs).map Declaration.name).Nodup :=
  rename_nodup [] (collect qs)

theorem exists_collected {qs : List DescribedQuery} {d : Declaration} (hd : d ∈ group qs) :
    ∃ c ∈ collect qs, Renamed c d :=
  exists_of_forall₂ (rename_renamed [] (collect qs)) d hd

theorem group_head {qs : List DescribedQuery} {d : Declaration} (hd : d ∈ group qs) :
    ∃ q ∈ qs, d.queries.head? = some q.record := by
  obtain ⟨c, hc, hr⟩ := exists_collected hd
  obtain ⟨q, hq, hfirst⟩ := collect_first qs c hc
  exact ⟨q, hq, by rw [hr.queries, hfirst.head]⟩

theorem group_plain {qs : List DescribedQuery} (hname : ∀ q ∈ qs, isIdentifier q.baseName = true)
    (hcolumns : ∀ q ∈ qs, ∀ c ∈ q.types.columns, c.Plain) : ∀ d ∈ group qs, d.Plain := by
  intro d hd
  obtain ⟨c, hc, hr⟩ := exists_collected hd
  obtain ⟨q, hq, hfirst⟩ := collect_first qs c hc
  refine ⟨hr.name (by rw [hfirst.name]; exact hname q hq), ?_⟩
  rw [hr.columns, hfirst.columns]
  exact hcolumns q hq

/-! Queries that move -/

def move (f : QueryRecord → QueryRecord) (d : Declaration) : Declaration :=
  { d with queries := d.queries.map f }

end RowTypes.Declaration

namespace RowTypes.DescribedQuery

def move (f : QueryRecord → QueryRecord) (q : DescribedQuery) : DescribedQuery :=
  { q with record := f q.record }

theorem baseName_congr {p q : DescribedQuery} (hkind : p.record.kind = q.record.kind)
    (hfile : p.record.file = q.record.file) (htypes : p.types = q.types) :
    p.baseName = q.baseName := by
  simp only [baseName, fileName?, hkind, hfile, htypes]

end RowTypes.DescribedQuery

namespace RowTypes.Declaration
open DescribedQuery

variable {f : QueryRecord → QueryRecord}

theorem add_move {q : DescribedQuery} (hq : (q.move f).baseName = q.baseName)
    (ds : List Declaration) : add (q.move f) (ds.map (move f)) = (add q ds).map (move f) := by
  induction ds with
  | nil =>
    rw [List.map_nil, add, add, ofQuery, hq]
    rfl
  | cons d ds ih =>
    rw [List.map_cons, add, add]
    have hshape : (d.move f).shape = (q.move f).shape ↔ d.shape = q.shape := Iff.rfl
    simp only [hshape]
    split
    · simp [move, DescribedQuery.move]
    · rw [ih, List.map_cons]

theorem collect_move {qs : List DescribedQuery} (h : ∀ q ∈ qs, (q.move f).baseName = q.baseName) :
    collect (qs.map (DescribedQuery.move f)) = (collect qs).map (move f) := by
  have hfold (ds : List Declaration) :
      (qs.map (DescribedQuery.move f)).foldl (fun ds q => add q ds) (ds.map (move f)) =
        (qs.foldl (fun ds q => add q ds) ds).map (move f) := by
    induction qs generalizing ds with
    | nil => rfl
    | cons q qs ih =>
      rw [List.forall_mem_cons] at h
      rw [List.map_cons, List.foldl_cons, add_move h.1, List.foldl_cons]
      exact ih h.2 _
  exact hfold []

/-- The declaration has the name that it asked for, or its first query is on the same line. -/
def Steady (f : QueryRecord → QueryRecord) (d d' : Declaration) : Prop :=
  d'.name ≠ d.name → (d.move f).line = d.line

theorem rename_move_names (taken : List String) (ds : List Declaration) :
    (rename taken (ds.map (move f))).map Declaration.name = (rename taken ds).map Declaration.name ↔
      List.Forall₂ (Steady f) ds (rename taken ds) := by
  induction ds generalizing taken with
  | nil => simp [rename]
  | cons d ds ih =>
    have hname : (d.move f).name = d.name := rfl
    rw [List.map_cons, rename, rename, List.map_cons, List.map_cons, List.cons.injEq,
      List.forall₂_cons, hname, freeName_eq_iff]
    refine and_congr_right fun h => ?_
    rw [freeName_eq_iff.2 h]
    exact ih _

theorem rename_move {taken : List String} {ds : List Declaration}
    (h : List.Forall₂ (Steady f) ds (rename taken ds)) :
    rename taken (ds.map (move f)) = (rename taken ds).map (move f) := by
  induction ds generalizing taken with
  | nil => rfl
  | cons d ds ih =>
    rw [rename, List.forall₂_cons] at h
    have hname : freeName d.name (d.move f).line taken = freeName d.name d.line taken :=
      freeName_eq_iff.2 h.1
    rw [List.map_cons, rename, rename, List.map_cons]
    change { d.move f with name := freeName d.name (d.move f).line taken } ::
      rename (freeName d.name (d.move f).line taken :: taken) (ds.map (move f)) = _
    rw [hname, ih h.2]
    rfl

theorem rename_move_queries (taken taken' : List String) (ds : List Declaration) :
    List.Forall₂ (fun d d' => d'.queries = d.queries.map f) (rename taken ds)
      (rename taken' (ds.map (move f))) := by
  induction ds generalizing taken taken' with
  | nil => exact .nil
  | cons d ds ih => exact .cons rfl (ih _ _)

theorem record_injective {qs : List DescribedQuery} (hn : (qs.map DescribedQuery.record).Nodup)
    {p q : DescribedQuery} (hp : p ∈ qs) (hq : q ∈ qs) (h : p.record = q.record) : p = q :=
  List.inj_on_of_nodup_map hn hp hq h

/-- Where a query gave its line to the name of its declaration, it stays on that line. -/
def LinesStay (f : QueryRecord → QueryRecord) (qs : List DescribedQuery) : Prop :=
  ∀ q ∈ qs, ∀ d ∈ group qs, d.queries.head? = some q.record → d.name ≠ q.baseName →
    (f q.record).line = q.record.line

theorem First.move_line {q : DescribedQuery} {d : Declaration} (h : First q d) :
    (d.move f).line = (f q.record).line := by
  rw [Declaration.line, Declaration.move, List.head?_map, h.head]
  rfl

theorem steady_iff_linesStay {qs : List DescribedQuery}
    (hn : (qs.map DescribedQuery.record).Nodup) :
    List.Forall₂ (Steady f) (collect qs) (group qs) ↔ LinesStay f qs := by
  have hrenamed := List.forall₂_iff_zip.1 (rename_renamed [] (collect qs))
  have first {c d : Declaration} (hcd : (c, d) ∈ (collect qs).zip (group qs)) :
      ∃ q ∈ qs, First q c ∧ d ∈ group qs ∧ d.queries.head? = some q.record := by
    obtain ⟨hc, hd⟩ := List.of_mem_zip hcd
    obtain ⟨q, hq, hfirst⟩ := collect_first qs c hc
    exact ⟨q, hq, hfirst, hd, by rw [(hrenamed.2 hcd).queries, hfirst.head]⟩
  rw [List.forall₂_iff_zip]
  constructor
  · rintro ⟨-, hsteady⟩ q hq d hd hhead hne
    obtain ⟨c, -, hcd⟩ := exists_of_forall₂ (List.forall₂_iff_zip.2 ⟨hrenamed.1, id⟩) d hd
    obtain ⟨p, hp, hfirst, -, hhead'⟩ := first hcd
    have : p = q := record_injective hn hp hq (Option.some.inj (hhead'.symm.trans hhead))
    subst this
    rw [← hfirst.move_line, ← hfirst.line]
    exact hsteady hcd (by rwa [hfirst.name])
  · intro h
    refine ⟨hrenamed.1, fun hcd hne => ?_⟩
    obtain ⟨q, hq, hfirst, hd, hhead⟩ := first hcd
    rw [hfirst.move_line, hfirst.line]
    exact h q hq _ hd hhead (by rwa [← hfirst.name])

section Move

variable {qs : List DescribedQuery} (hbase : ∀ q ∈ qs, (q.move f).baseName = q.baseName)

include hbase

/-- Queries that move give their declarations the same names exactly where the lines in names
stay. -/
theorem group_move_names (hn : (qs.map DescribedQuery.record).Nodup) :
    (group (qs.map (DescribedQuery.move f))).map Declaration.name =
      (group qs).map Declaration.name ↔ LinesStay f qs := by
  rw [← steady_iff_linesStay hn, group, collect_move hbase]
  exact rename_move_names [] (collect qs)

theorem group_move_queries : List.Forall₂ (fun d d' => d'.queries = d.queries.map f) (group qs)
    (group (qs.map (DescribedQuery.move f))) := by
  rw [group, group, collect_move hbase]
  exact rename_move_queries [] [] (collect qs)

theorem group_move (hn : (qs.map DescribedQuery.record).Nodup) (h : LinesStay f qs) :
    group (qs.map (DescribedQuery.move f)) = (group qs).map (move f) := by
  rw [group, collect_move hbase]
  exact rename_move ((steady_iff_linesStay hn).2 h)

end Move

end RowTypes.Declaration
