import RowTypes.Proofs.Grouping

/-! Queries behind those of a file that has been grouped. They join the declarations of their
shapes or make new ones at the end, and no declaration that was there changes in anything but the
list of its queries. -/

namespace RowTypes.Declaration

/-- The declaration with those of the queries that have its shape behind its own. -/
def withQueries (rs : List DescribedQuery) (d : Declaration) : Declaration :=
  { d with queries := d.queries ++ (rs.filter (·.shape = d.shape)).map DescribedQuery.record }

theorem withQueries_nil : withQueries [] = id := by
  funext d
  simp [withQueries]

theorem withQueries_cons (q : DescribedQuery) (rs : List DescribedQuery) (d : Declaration) :
    withQueries (q :: rs) d = withQueries rs (extend q d) := by
  by_cases h : d.shape = q.shape
  · simp [withQueries, extend, h]
  · simp [withQueries, extend, h, Ne.symm h]

theorem withQueries_line {rs : List DescribedQuery} {d : Declaration} (h : d.queries ≠ []) :
    (withQueries rs d).line = d.line := by
  rw [line, line, withQueries, List.head?_append_of_ne_nil _ h]

theorem exists_add {q : DescribedQuery} {ds : List Declaration}
    (h : ds.Pairwise fun d e => d.shape ≠ e.shape) : ∃ new, add q ds = ds.map (extend q) ++ new := by
  by_cases hq : ∃ d ∈ ds, d.shape = q.shape
  · exact ⟨[], by rw [add_of_covered h hq, List.append_nil]⟩
  · have hnone : ∀ d ∈ ds, d.shape ≠ q.shape := fun d hd heq => hq ⟨d, hd, heq⟩
    have hkept : ds.map (extend q) = ds :=
      (List.map_congr_left fun d hd => extend_of_ne (hnone d hd)).trans ds.map_id
    exact ⟨[ofQuery q], by rw [add_of_not_covered hnone, hkept]⟩

theorem Grouped.exists_foldl_add {qs : List DescribedQuery} {ds : List Declaration}
    (h : Grouped qs ds) (rs : List DescribedQuery) :
    ∃ new, rs.foldl (fun ds q => Declaration.add q ds) ds = ds.map (withQueries rs) ++ new := by
  induction rs generalizing qs ds with
  | nil => exact ⟨[], by rw [List.foldl_nil, withQueries_nil, List.map_id, List.append_nil]⟩
  | cons q rs ih =>
    obtain ⟨new, hnew⟩ := exists_add (q := q) h.shapes_ne
    obtain ⟨later, hlater⟩ := ih (h.add q)
    refine ⟨new.map (withQueries rs) ++ later, ?_⟩
    have hcons : withQueries (q :: rs) = withQueries rs ∘ Declaration.extend q :=
      funext fun d => withQueries_cons q rs d
    rw [List.foldl_cons, hlater, hnew, List.map_append, List.map_map, List.append_assoc, hcons]

theorem exists_collect_append (qs rs : List DescribedQuery) :
    ∃ new, collect (qs ++ rs) = (collect qs).map (withQueries rs) ++ new := by
  rw [collect, List.foldl_append]
  exact (grouped_collect qs).exists_foldl_add rs

theorem rename_append (taken : List String) (ds es : List Declaration) :
    rename taken (ds ++ es) = rename taken ds ++
      rename (((rename taken ds).map Declaration.name).reverse ++ taken) es := by
  induction ds generalizing taken with
  | nil => rfl
  | cons d ds ih => simp [rename, ih]

theorem rename_withQueries {rs : List DescribedQuery} {ds : List Declaration}
    (h : ∀ d ∈ ds, d.queries ≠ []) (taken : List String) :
    rename taken (ds.map (withQueries rs)) = (rename taken ds).map (withQueries rs) := by
  induction ds generalizing taken with
  | nil => rfl
  | cons d ds ih =>
    rw [List.forall_mem_cons] at h
    rw [List.map_cons, rename, rename, withQueries_line h.1, ih h.2, List.map_cons]
    rfl

theorem queries_ne_nil_of_mem_collect {qs : List DescribedQuery} {d : Declaration}
    (hd : d ∈ collect qs) : d.queries ≠ [] := by
  obtain ⟨q, -, hq⟩ := collect_first qs d hd
  intro hnil
  have hhead := hq.head
  rw [hnil] at hhead
  cases hhead

theorem exists_group_append (qs rs : List DescribedQuery) :
    ∃ later, group (qs ++ rs) = (group qs).map (withQueries rs) ++ later := by
  obtain ⟨new, hnew⟩ := exists_collect_append qs rs
  have hrename : rename [] ((collect qs).map (withQueries rs)) = _ :=
    rename_withQueries (fun d hd => queries_ne_nil_of_mem_collect hd) []
  exact ⟨_, by rw [group, hnew, rename_append, hrename, ← group]⟩

/-- The declarations of the first queries of a file stay the first ones when queries come behind
them, and keep their names, shapes, columns and parameters. -/
theorem group_append_take (qs rs : List DescribedQuery) :
    (group (qs ++ rs)).take (group qs).length = (group qs).map (withQueries rs) := by
  obtain ⟨later, hlater⟩ := exists_group_append qs rs
  have hlength : ((group qs).map (withQueries rs)).length = (group qs).length := List.length_map _
  rw [hlater, ← hlength, List.take_left]

end RowTypes.Declaration
