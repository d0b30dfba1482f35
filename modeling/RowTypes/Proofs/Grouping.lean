import Mathlib.Data.List.FinRange
import RowTypes.Proofs.Naming

/-! Declarations partition the queries. A query belongs to the declaration of its shape and to no
other, the declarations stand in the order of their first queries, and the name of each is the
first of its candidates that no earlier one has. -/

namespace RowTypes

/-- Columns that a declaration does not tell apart. -/
def Column.Alike (a b : Column) : Prop :=
  a.name = b.name ∧ a.notNull = b.notNull ∧ a.hostType = b.hostType

namespace DescribedQuery

theorem shape_eq_iff {p q : DescribedQuery} :
    p.shape = q.shape ↔ List.Forall₂ Column.Alike p.types.columns q.types.columns := by
  rw [shape, shape, ← List.forall₂_eq_eq_eq, List.forall₂_map_left_iff, List.forall₂_map_right_iff]
  have halike (a b : Column) : a.shape = b.shape ↔ a.Alike b := by
    simp [Column.shape, Column.Alike]
  simp only [halike]

/-- The place of the first query with a shape, or the number of queries if there is none. -/
def firstWith (qs : List DescribedQuery) (s : Shape) : Nat := qs.findIdx (·.shape = s)

theorem firstWith_lt {qs : List DescribedQuery} {s : Shape} :
    firstWith qs s < qs.length ↔ ∃ q ∈ qs, q.shape = s := by
  simp [firstWith, List.findIdx_lt_length]

theorem firstWith_le {qs : List DescribedQuery} {j : Nat} (hj : j < qs.length) :
    firstWith qs qs[j].shape ≤ j := by
  by_contra h
  simpa using List.not_of_lt_findIdx (lt_of_not_ge h)

theorem firstWith_concat_of_lt {qs : List DescribedQuery} {s : Shape}
    (h : firstWith qs s < qs.length) (q : DescribedQuery) :
    firstWith (qs ++ [q]) s = firstWith qs s := by
  rw [firstWith, List.findIdx_append]
  exact if_pos h

theorem firstWith_concat_self {qs : List DescribedQuery} {q : DescribedQuery}
    (h : ∀ p ∈ qs, p.shape ≠ q.shape) : firstWith (qs ++ [q]) q.shape = qs.length := by
  have hnone : ¬ firstWith qs q.shape < qs.length := by
    rw [firstWith_lt]
    rintro ⟨p, hp, hshape⟩
    exact h p hp hshape
  rw [firstWith, List.findIdx_append]
  refine (if_neg hnone).trans ?_
  simp [List.findIdx_cons]

theorem head?_filter_shape (qs : List DescribedQuery) (s : Shape) :
    (qs.filter (·.shape = s)).head? = qs[firstWith qs s]? := by
  rw [List.head?_filter, List.find?_eq_getElem?_findIdx]
  rfl

end DescribedQuery

namespace Declaration
open DescribedQuery

/-! The search for a name -/

def candidate (base : String) (line : Nat) : Nat → String
  | 0 => base
  | 1 => onLine base line
  | n + 2 => numbered base line n

theorem candidates_eq (base : String) (line count : Nat) :
    candidates base line count = (List.range (count + 2)).map (candidate base line) := by
  simp only [List.range_succ_eq_map, List.map_cons, List.map_map]
  rfl

def IsFirstFree (base : String) (line : Nat) (taken : List String) (name : String) : Prop :=
  ∃ n, name = candidate base line n ∧ candidate base line n ∉ taken ∧
    ∀ m < n, candidate base line m ∈ taken

theorem IsFirstFree.congr {base : String} {line : Nat} {taken taken' : List String} {name : String}
    (h : IsFirstFree base line taken name) (htaken : ∀ x, x ∈ taken ↔ x ∈ taken') :
    IsFirstFree base line taken' name := by
  simpa only [IsFirstFree, htaken] using h

theorem isFirstFree_freeName (base : String) (line : Nat) (taken : List String) :
    IsFirstFree base line taken (freeName base line taken) := by
  have hfound := exists_freeName base line taken
  rw [candidates_eq, List.find?_eq_some_iff_getElem] at hfound
  obtain ⟨hfree, n, hn, hname, hbefore⟩ := hfound
  simp only [List.getElem_map, List.getElem_range] at hname
  refine ⟨n, hname.symm, ?_, fun m hm => ?_⟩
  · rw [hname]
    simpa using hfree
  · simpa using hbefore m hm

/-! Collecting -/

def extend (q : DescribedQuery) (d : Declaration) : Declaration :=
  if d.shape = q.shape then { d with queries := d.queries ++ [q.record] } else d

@[simp] theorem extend_shape (q : DescribedQuery) (d : Declaration) :
    (extend q d).shape = d.shape := by
  unfold extend
  split <;> rfl

theorem extend_queries (q : DescribedQuery) (d : Declaration) :
    (extend q d).queries =
      d.queries ++ ([q].filter (·.shape = d.shape)).map DescribedQuery.record := by
  by_cases h : d.shape = q.shape
  · simp [extend, h]
  · simp [extend, h, Ne.symm h]

theorem extend_of_ne {q : DescribedQuery} {d : Declaration} (h : d.shape ≠ q.shape) :
    extend q d = d := if_neg h

theorem add_of_covered {q : DescribedQuery} {ds : List Declaration}
    (hn : ds.Pairwise fun d e => d.shape ≠ e.shape) (h : ∃ d ∈ ds, d.shape = q.shape) :
    add q ds = ds.map (extend q) := by
  induction ds with
  | nil => simp at h
  | cons d ds ih =>
    rw [List.pairwise_cons] at hn
    rw [add, List.map_cons]
    split
    · rename_i hd
      have hrest : ds.map (extend q) = ds := by
        refine (List.map_congr_left fun e he => extend_of_ne ?_).trans ds.map_id
        rw [← hd]
        exact (hn.1 e he).symm
      rw [hrest, extend, if_pos hd]
    · rename_i hd
      obtain ⟨e, he, hshape⟩ := h
      have htail : ∃ d ∈ ds, d.shape = q.shape :=
        ⟨e, (List.mem_cons.1 he).resolve_left (by rintro rfl; exact hd hshape), hshape⟩
      rw [ih hn.2 htail, extend_of_ne hd]

theorem add_of_not_covered {q : DescribedQuery} {ds : List Declaration}
    (h : ∀ d ∈ ds, d.shape ≠ q.shape) : add q ds = ds ++ [ofQuery q] := by
  induction ds with
  | nil => rfl
  | cons d ds ih =>
    rw [List.forall_mem_cons] at h
    rw [add, if_neg h.1, ih h.2, List.cons_append]

/-- The declarations of the shapes of some queries, under the names that they ask for. -/
structure Grouped (qs : List DescribedQuery) (ds : List Declaration) : Prop where
  queries : ∀ d ∈ ds, d.queries = (qs.filter (·.shape = d.shape)).map DescribedQuery.record
  first : ∀ d ∈ ds, ∃ q, qs[firstWith qs d.shape]? = some q ∧
    d = { ofQuery q with queries := d.queries }
  order : ds.Pairwise fun d e => firstWith qs d.shape < firstWith qs e.shape
  covers : ∀ q ∈ qs, ∃ d ∈ ds, d.shape = q.shape

namespace Grouped

variable {qs : List DescribedQuery} {ds : List Declaration}

theorem firstWith_lt (h : Grouped qs ds) {d : Declaration} (hd : d ∈ ds) :
    firstWith qs d.shape < qs.length := by
  obtain ⟨q, hq, -⟩ := h.first d hd
  exact (List.getElem?_eq_some_iff.1 hq).1

theorem shapes_ne (h : Grouped qs ds) : ds.Pairwise fun d e => d.shape ≠ e.shape :=
  h.order.imp fun hlt heq => by rw [heq] at hlt; exact lt_irrefl _ hlt

theorem first_concat (h : Grouped qs ds) (q : DescribedQuery) {d : Declaration} (hd : d ∈ ds) :
    firstWith (qs ++ [q]) d.shape = firstWith qs d.shape ∧
      (qs ++ [q])[firstWith qs d.shape]? = qs[firstWith qs d.shape]? :=
  ⟨firstWith_concat_of_lt (h.firstWith_lt hd) q, List.getElem?_append_left (h.firstWith_lt hd)⟩

theorem extend (h : Grouped qs ds) {q : DescribedQuery} (hq : ∃ d ∈ ds, d.shape = q.shape) :
    Grouped (qs ++ [q]) (ds.map (extend q)) where
  queries := by
    simp only [List.forall_mem_map]
    intro d hd
    rw [extend_queries, extend_shape, List.filter_append, List.map_append, h.queries d hd]
  first := by
    simp only [List.forall_mem_map]
    intro d hd
    obtain ⟨p, hp, hfirst⟩ := h.first d hd
    rw [extend_shape, (h.first_concat q hd).1, (h.first_concat q hd).2]
    refine ⟨p, hp, ?_⟩
    unfold Declaration.extend
    split
    · rw [hfirst]
    · exact hfirst
  order := by
    rw [List.pairwise_map]
    refine h.order.imp_of_mem fun {d e} hd he hlt => ?_
    rwa [extend_shape, extend_shape, (h.first_concat q hd).1, (h.first_concat q he).1]
  covers := by
    intro p hp
    rw [List.mem_append, List.mem_singleton] at hp
    obtain ⟨d, hd, hshape⟩ : ∃ d ∈ ds, d.shape = p.shape := by
      rcases hp with hp | rfl
      · exact h.covers p hp
      · exact hq
    exact ⟨Declaration.extend q d, List.mem_map_of_mem hd, by rw [extend_shape, hshape]⟩

theorem concat (h : Grouped qs ds) {q : DescribedQuery} (hq : ∀ d ∈ ds, d.shape ≠ q.shape) :
    Grouped (qs ++ [q]) (ds ++ [ofQuery q]) := by
  have hnew : ∀ p ∈ qs, p.shape ≠ q.shape := fun p hp heq =>
    have ⟨d, hd, hshape⟩ := h.covers p hp
    hq d hd (hshape.trans heq)
  have hshape : (ofQuery q).shape = q.shape := rfl
  constructor
  · simp only [List.mem_append, List.mem_singleton, or_imp, forall_and, forall_eq]
    constructor
    · intro d hd
      have hnone : [q].filter (·.shape = d.shape) = [] := by simp [(hq d hd).symm]
      rw [List.filter_append, hnone, List.append_nil, h.queries d hd]
    · have hnone : qs.filter (·.shape = q.shape) = [] := by simpa using hnew
      rw [hshape, List.filter_append, hnone]
      simp [ofQuery]
  · simp only [List.mem_append, List.mem_singleton, or_imp, forall_and, forall_eq]
    constructor
    · intro d hd
      rw [(h.first_concat q hd).1, (h.first_concat q hd).2]
      exact h.first d hd
    · refine ⟨q, ?_, rfl⟩
      rw [hshape, firstWith_concat_self hnew]
      simp
  · rw [List.pairwise_append]
    refine ⟨h.order.imp_of_mem fun {d e} hd he hlt => ?_, List.pairwise_singleton _ _, ?_⟩
    · rwa [(h.first_concat q hd).1, (h.first_concat q he).1]
    · intro d hd e he
      rw [List.mem_singleton.1 he, hshape, firstWith_concat_self hnew, (h.first_concat q hd).1]
      exact h.firstWith_lt hd
  · intro p hp
    rw [List.mem_append, List.mem_singleton] at hp
    rcases hp with hp | rfl
    · obtain ⟨d, hd, heq⟩ := h.covers p hp
      exact ⟨d, List.mem_append_left _ hd, heq⟩
    · exact ⟨ofQuery p, List.mem_append_right _ List.mem_cons_self, rfl⟩

theorem add (h : Grouped qs ds) (q : DescribedQuery) : Grouped (qs ++ [q]) (add q ds) := by
  by_cases hq : ∃ d ∈ ds, d.shape = q.shape
  · rw [add_of_covered h.shapes_ne hq]
    exact h.extend hq
  · have hnone : ∀ d ∈ ds, d.shape ≠ q.shape := fun d hd heq => hq ⟨d, hd, heq⟩
    rw [add_of_not_covered hnone]
    exact h.concat hnone

end Grouped

theorem grouped_collect (qs : List DescribedQuery) : Grouped qs (collect qs) := by
  -- The queries that are still to come are added to those that are there.
  have hfold (rest done : List DescribedQuery) (ds : List Declaration) (h : Grouped done ds) :
      Grouped (done ++ rest) (rest.foldl (fun ds q => add q ds) ds) := by
    induction rest generalizing done ds with
    | nil => rwa [List.append_nil]
    | cons q rest ih =>
      rw [List.append_cons]
      exact ih _ _ (h.add q)
  exact hfold qs [] [] ⟨by simp, by simp, List.Pairwise.nil, by simp⟩

/-! Grouping -/

theorem length_rename (taken : List String) (ds : List Declaration) :
    (rename taken ds).length = ds.length := by
  induction ds generalizing taken with
  | nil => rfl
  | cons d ds ih => rw [rename, List.length_cons, List.length_cons, ih]

theorem rename_getElem {taken : List String} {ds : List Declaration} {k : Nat}
    (hk : k < (rename taken ds).length) (hk' : k < ds.length) :
    (rename taken ds)[k] = { ds[k] with
      name := freeName ds[k].name ds[k].line
        ((((rename taken ds).take k).map Declaration.name).reverse ++ taken) } := by
  induction ds generalizing taken k with
  | nil => simp at hk'
  | cons d ds ih =>
    cases k with
    | zero => simp [rename]
    | succ k =>
      simp only [rename, List.length_cons, Nat.add_lt_add_iff_right] at hk hk'
      simp only [rename, List.getElem_cons_succ, List.take_succ_cons, List.map_cons,
        List.reverse_cons, List.append_assoc, List.cons_append, List.nil_append]
      exact ih hk hk'

theorem group_getElem {qs : List DescribedQuery} {k : Nat} (hk : k < (group qs).length) :
    ∃ d q, (collect qs)[k]? = some d ∧ qs[firstWith qs d.shape]? = some q ∧
      q.shape = d.shape ∧ (group qs)[k].shape = d.shape ∧ (group qs)[k].queries = d.queries ∧
      (group qs)[k].columns = q.types.columns ∧ (group qs)[k].params = q.types.params ∧
      IsFirstFree q.baseName q.record.line (((group qs).take k).map Declaration.name)
        (group qs)[k].name := by
  have hk' : k < (collect qs).length := by rwa [group, length_rename] at hk
  have hd := List.getElem_mem hk'
  obtain ⟨q, hq, hfirst⟩ := (grouped_collect qs).first _ hd
  have hline : (collect qs)[k].line = q.record.line := by
    rw [line, (grouped_collect qs).queries _ hd, List.head?_map, head?_filter_shape, hq]
    rfl
  have hname : (collect qs)[k].name = q.baseName := by rw [hfirst]; rfl
  have hrename : (group qs)[k] = _ := rename_getElem hk hk'
  refine ⟨(collect qs)[k], q, List.getElem?_eq_getElem hk', hq, ?_, ?_, ?_, ?_, ?_, ?_⟩
  · rw [hfirst]; rfl
  · rw [hrename]
  · rw [hrename]
  · rw [hrename, hfirst]; rfl
  · rw [hrename, hfirst]; rfl
  · rw [hrename, ← hname, ← hline]
    exact (isFirstFree_freeName _ _ _).congr fun name => by simp [group]

theorem mem_group {qs : List DescribedQuery} {d : Declaration} (hd : d ∈ group qs) :
    ∃ q taken, qs.find? (·.shape = d.shape) = some q ∧
      (∀ name ∈ taken, ∃ e ∈ group qs, e.name = name) ∧
      IsFirstFree q.baseName q.record.line taken d.name := by
  obtain ⟨k, hk, rfl⟩ := List.getElem_of_mem hd
  obtain ⟨c, q, -, hq, -, hshape, -, -, -, hname⟩ := group_getElem hk
  refine ⟨q, _, ?_, fun name hname => ?_, hname⟩
  · rw [hshape, List.find?_eq_getElem?_findIdx]
    exact hq
  · obtain ⟨e, he, rfl⟩ := List.mem_map.1 hname
    exact ⟨e, List.mem_of_mem_take he, rfl⟩

theorem group_order (qs : List DescribedQuery) :
    (group qs).Pairwise fun d e => firstWith qs d.shape < firstWith qs e.shape := by
  rw [List.pairwise_iff_getElem]
  intro k l hk hl hlt
  obtain ⟨d, -, hd, -, -, hdshape, -⟩ := group_getElem hk
  obtain ⟨e, -, he, -, -, heshape, -⟩ := group_getElem hl
  obtain ⟨hk', rfl⟩ := List.getElem?_eq_some_iff.1 hd
  obtain ⟨hl', rfl⟩ := List.getElem?_eq_some_iff.1 he
  rw [hdshape, heshape]
  exact List.pairwise_iff_getElem.1 (grouped_collect qs).order k l hk' hl' hlt

theorem exists_group (qs : List DescribedQuery) (i : Fin qs.length) :
    ∃ k : Fin (group qs).length, (group qs)[k].shape = qs[i].shape := by
  obtain ⟨c, hc, hshape⟩ := (grouped_collect qs).covers qs[i] (List.getElem_mem i.isLt)
  obtain ⟨k, hk, rfl⟩ := List.getElem_of_mem hc
  have hk' : k < (group qs).length := by rwa [group, length_rename]
  obtain ⟨d, -, hd, -, -, hdshape, -⟩ := group_getElem hk'
  rw [List.getElem?_eq_getElem hk, Option.some.injEq] at hd
  exact ⟨⟨k, hk'⟩, by rw [← hshape, hd]; exact hdshape⟩

theorem map_filter_eq_finRange {α β : Type} (l : List α) (p : α → Bool) (f : α → β) :
    (l.filter p).map f =
      ((List.finRange l.length).filter fun i => p l[i]).map fun i => f l[i] := by
  have hl : (List.finRange l.length).map (fun i => l[i]) = l := by simp
  conv_lhs => rw [← hl]
  rw [List.filter_map, List.map_map]
  rfl

/-- Queries are in one declaration if their columns agree in order on name, nullability and type,
and only then. A declaration has the records of its queries in their order, and the columns and
parameters of the first of them, before which there is none of a later declaration. No two
declarations have the same name, and the search for a name ends. -/
theorem group_partition (qs : List DescribedQuery) :
    ∃ owner : Fin qs.length → Fin (group qs).length,
      (∀ k, (group qs)[k].queries =
        ((List.finRange qs.length).filter (owner · = k)).map fun i => qs[i].record) ∧
      (∀ i j, owner i = owner j ↔
        List.Forall₂ Column.Alike qs[i].types.columns qs[j].types.columns) ∧
      (∀ k, ∃ i, owner i = k ∧ (∀ j, k ≤ owner j → i ≤ j) ∧
        (group qs)[k].shape = qs[i].shape ∧ (group qs)[k].columns = qs[i].types.columns ∧
        (group qs)[k].params = qs[i].types.params ∧
        IsFirstFree qs[i].baseName qs[i].record.line
          (((group qs).take k).map Declaration.name) (group qs)[k].name) ∧
      ((group qs).map Declaration.name).Nodup ∧
      (∀ i j, (group qs)[owner i].name = (group qs)[owner j].name ↔ qs[i].shape = qs[j].shape) ∧
      ∀ base line taken, IsFirstFree base line taken (freeName base line taken) := by
  choose owner howner using exists_group qs
  have hlt {k l : Fin (group qs).length} (h : k < l) :
      firstWith qs (group qs)[k].shape < firstWith qs (group qs)[l].shape :=
    List.pairwise_iff_getElem.1 (group_order qs) k l k.isLt l.isLt h
  have hmono : StrictMono fun k : Fin (group qs).length => firstWith qs (group qs)[k].shape :=
    fun _ _ h => hlt h
  have hshape (k : Fin (group qs).length) (i : Fin qs.length) :
      owner i = k ↔ qs[i].shape = (group qs)[k].shape := by
    rw [← howner i]
    exact ⟨fun h => by rw [h], fun h => hmono.injective (congrArg (firstWith qs) h)⟩
  have howners (i j : Fin qs.length) : owner i = owner j ↔ qs[i].shape = qs[j].shape := by
    rw [hshape, howner]
  have hnames := group_nodup qs
  refine ⟨owner, fun k => ?_, fun i j => ?_, fun k => ?_, hnames, fun i j => ?_,
    isFirstFree_freeName⟩
  · obtain ⟨d, q, hd, -, -, hdshape, hqueries, -⟩ := group_getElem k.isLt
    have howner (i : Fin qs.length) : decide (qs[i].shape = d.shape) = decide (owner i = k) := by
      rw [← hdshape]
      exact decide_eq_decide.2 (hshape k i).symm
    change (group qs)[(k : Nat)].queries = _
    rw [hqueries, (grouped_collect qs).queries d (List.mem_of_getElem? hd), map_filter_eq_finRange]
    simp only [howner]
  · rw [howners, shape_eq_iff]
  · obtain ⟨d, q, hd, hq, hqshape, hdshape, -, hcolumns, hparams, hname⟩ := group_getElem k.isLt
    obtain ⟨hlength, rfl⟩ := List.getElem?_eq_some_iff.1 hq
    refine ⟨⟨firstWith qs d.shape, hlength⟩, ?_, fun j hj => ?_, hdshape.trans hqshape.symm,
      hcolumns, hparams, hname⟩
    · exact (hshape k _).2 (hqshape.trans hdshape.symm)
    · have hle := (hmono.monotone hj).trans_eq (congrArg (firstWith qs) (howner j))
      exact Fin.le_def.2 ((congrArg (firstWith qs) hdshape.symm).trans_le
        (hle.trans (firstWith_le j.isLt)))
  · constructor
    · intro h
      have hsame := List.inj_on_of_nodup_map hnames (List.getElem_mem (owner i).isLt)
        (List.getElem_mem (owner j).isLt) h
      rw [← howner i, ← howner j]
      exact congrArg Declaration.shape hsame
    · intro h
      simp only [(howners i j).2 h]

end Declaration
end RowTypes
