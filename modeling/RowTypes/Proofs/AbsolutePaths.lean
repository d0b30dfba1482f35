import RowTypes.Proofs.Discovered

/-! The components of paths that are put together. An absolute path has the components of its base
and then the names behind it, and each character as often as the names have it, but for slashes and
dots. -/

namespace RowTypes

namespace Path

variable {base path root name x : String} {us names names' : List String}

/-! The names in a path that is put together -/

theorem segments_append_slash (a b : String) :
    segments (a ++ "/" ++ b) = segments a ++ segments b := by
  have hlist : (a ++ "/" ++ b).toList = a.toList ++ '/' :: b.toList := by simp
  simp only [segments, splitToList_eq, hlist, List.splitOn_append_cons_self, List.map_append,
    List.filter_append]

theorem segments_empty : segments "" = [] := by
  rw [segments, splitToList_eq]
  rfl

theorem segments_join (h : isAbsolute path = false) :
    segments (join base path) = segments base ++ segments path := by
  rw [join, h, if_neg Bool.false_ne_true]
  split_ifs with hbase
  · rcases hbase with rfl | hslash
    · rw [String.empty_append, segments_empty, List.nil_append]
    · rw [endsWith_slash, List.getLast?_eq_some_iff] at hslash
      obtain ⟨front, hfront⟩ := hslash
      obtain rfl : base = String.ofList front ++ "/" := by
        rw [← String.toList_inj, hfront]
        simp
      have hbase := segments_append_slash (String.ofList front) ""
      rw [String.append_empty, segments_empty, List.append_nil] at hbase
      rw [segments_append_slash, hbase]
  · exact segments_append_slash base path

theorem segments_joined_eq (us : List String) : segments (joined us) = us.flatMap segments := by
  induction us with
  | nil => exact segments_empty
  | cons u us ih =>
    by_cases hus : us = []
    · rw [hus, joined_singleton, List.flatMap_cons, List.flatMap_nil, List.append_nil]
    · rw [joined_cons u hus, segments_append_slash, ih, List.flatMap_cons]

theorem segments_name (hne : name ≠ "") (hslash : '/' ∉ name.toList) : segments name = [name] := by
  have hjoined : segments (joined [name]) = [name].filter (· ≠ "") :=
    segments_joined (by simp) (slashless_singleton hslash)
  simpa [hne] using hjoined

theorem segments_of_mem (h : name ∈ segments path) : segments name = [name] :=
  segments_name (by simpa using (List.mem_filter.1 h).2) (slash_not_mem_of_mem_segments h)

theorem segments_of_isName (h : IsName name) : segments name = [name] := segments_name h.1 h.2.2.2

theorem flatMap_segments (h : ∀ name ∈ us, segments name = [name]) : us.flatMap segments = us := by
  rw [List.flatMap_congr h, List.flatMap_singleton']

theorem segments_text (h : ∀ name ∈ names, IsName name) :
    segments (Discovery.Relative.text names) = names := by
  rw [Discovery.Relative.text, ← joined, segments_joined_eq,
    flatMap_segments fun name hname => segments_of_isName (h name hname)]

theorem filter_dot (h : ∀ name ∈ names, IsName name) : names.filter (· ≠ ".") = names :=
  List.filter_eq_self.2 fun name hname => by simpa using (h name hname).2.1

theorem filter_components (path : String) :
    ((components path).filter fun s => s ≠ "/" ∧ s ≠ ".") = (segments path).filter (· ≠ ".") := by
  have hsegments : ((segments path).filter fun s => s ≠ "/" ∧ s ≠ ".") =
      (segments path).filter (· ≠ ".") := by
    refine List.filter_congr fun s hs => ?_
    have hslash : s ≠ "/" := by
      rintro rfl
      exact slash_not_mem_of_mem_segments hs (by decide)
    simp [hslash]
  have hfilter (rest : List String) : ((rest.filter (· ≠ ".")).filter fun s => s ≠ "/" ∧ s ≠ ".") =
      rest.filter fun s => s ≠ "/" ∧ s ≠ "." := by
    rw [List.filter_filter]
    exact List.filter_congr fun s _ => by simp
  rw [← hsegments, components]
  split_ifs with habsolute
  · rw [List.filter_cons_of_neg (by simp), hfilter]
  · split
    · rename_i rest hrest
      rw [hrest, List.filter_cons_of_neg (by simp), List.filter_cons_of_neg (by simp), hfilter]
    · exact hfilter _

theorem isAbsolute_append (ha : base ≠ "") : isAbsolute (base ++ path) = isAbsolute base := by
  have hne : base.toList ≠ [] := fun hnil => ha (String.toList_eq_nil_iff.1 hnil)
  rw [isAbsolute, isAbsolute, Bool.eq_iff_iff, startsWith_slash, startsWith_slash,
    String.toList_append, List.head?_append_of_ne_nil _ hne]

theorem isAbsolute_join (h : isAbsolute path = false) :
    isAbsolute (join base path) = isAbsolute base := by
  rw [join, h, if_neg Bool.false_ne_true]
  by_cases hbase : base = ""
  · rw [if_pos (.inl hbase), hbase, String.empty_append, h]
    decide
  · split_ifs
    · exact isAbsolute_append hbase
    · rw [String.append_assoc, isAbsolute_append hbase]

theorem components_of_isAbsolute (h : isAbsolute path = true) :
    components path = "/" :: (segments path).filter (· ≠ ".") := by
  rw [isAbsolute] at h
  rw [components, if_pos h]

theorem components_join (hbase : isAbsolute base = true) (h : isAbsolute path = false) :
    components (join base path) = components base ++ (segments path).filter (· ≠ ".") := by
  rw [components_of_isAbsolute (by rw [isAbsolute_join h, hbase]), components_of_isAbsolute hbase,
    segments_join h, List.filter_append, List.cons_append]

theorem isAbsolute_text (h : ∀ name ∈ names, IsName name) :
    isAbsolute (Discovery.Relative.text names) = false := by
  obtain hnil | ⟨before, last, rfl⟩ := List.eq_nil_or_concat' names
  · rw [hnil]
    decide
  · have := isAbsolute_joined (slashless_of_isName h) (h last (by simp)).1
    rw [Discovery.Relative.text, ← joined, this]
    cases before with
    | nil => rfl
    | cons first rest => simpa using (h first (by simp)).1

theorem components_join_text (hbase : isAbsolute base = true) (h : ∀ name ∈ names, IsName name) :
    components (join base (Discovery.Relative.text names)) = components base ++ names := by
  rw [components_join hbase (isAbsolute_text h), segments_text h, filter_dot h]

theorem segments_foldl_join (h : ∀ name ∈ names, IsName name) (root : String) :
    segments (names.foldl join root) = segments root ++ names ∧
      isAbsolute (names.foldl join root) = isAbsolute root := by
  induction names generalizing root with
  | nil => exact ⟨(List.append_nil _).symm, rfl⟩
  | cons name names ih =>
    obtain ⟨hname, hrest⟩ := List.forall_mem_cons.1 h
    obtain ⟨hsegments, habsolute⟩ := ih hrest (join root name)
    have hrelative := not_isAbsolute_of_isName hname
    rw [List.foldl_cons, hsegments, habsolute, segments_join hrelative, isAbsolute_join hrelative,
      segments_of_isName hname, List.append_assoc]
    exact ⟨rfl, rfl⟩

theorem names_of_foldl_join_eq (h : ∀ name ∈ names, IsName name)
    (h' : ∀ name ∈ names', IsName name) (heq : names.foldl join root = names'.foldl join root) :
    names = names' := by
  have hsegments := congrArg segments heq
  rw [(segments_foldl_join h root).1, (segments_foldl_join h' root).1] at hsegments
  exact List.append_cancel_left hsegments

/-! How often a character stands in a path -/

def letters (us : List String) : List Char := us.flatMap String.toList

theorem letters_cons (u : String) (us : List String) : letters (u :: us) = u.toList ++ letters us :=
  List.flatMap_cons

theorem letters_append (us vs : List String) : letters (us ++ vs) = letters us ++ letters vs :=
  List.flatMap_append

theorem count_letters_filter {c : Char} (hc : c ∉ x.toList) (us : List String) :
    (letters (us.filter (· ≠ x))).count c = (letters us).count c := by
  induction us with
  | nil => rfl
  | cons u us ih =>
    rw [letters_cons, List.count_append, ← ih, List.filter_cons]
    by_cases hu : u = x
    · rw [hu, if_neg (by simp), List.count_eq_zero.2 hc, Nat.zero_add]
    · rw [if_pos (by simpa using hu), letters_cons, List.count_append]

theorem count_segments {c : Char} (hc : c ≠ '/') (path : String) :
    (letters (segments path)).count c = path.toList.count c := by
  obtain ⟨us, hne, hslashless, rfl⟩ := exists_joined path
  rw [segments_joined hne hslashless, count_letters_filter (by simp)]
  clear hslashless
  induction us with
  | nil => exact absurd rfl hne
  | cons u us ih =>
    by_cases hus : us = []
    · simp [hus, letters]
    · have hslash : "/".toList.count c = 0 := List.count_eq_zero.2 (by simpa using hc)
      rw [letters_cons, List.count_append, ih hus, joined_cons u hus, String.toList_append,
        String.toList_append, List.count_append, List.count_append, hslash, Nat.add_zero]

theorem count_segments_filter {c : Char} (hslash : c ≠ '/') (hdot : c ≠ '.') (path : String) :
    (letters ((segments path).filter (· ≠ "."))).count c = path.toList.count c := by
  rw [count_letters_filter (by simpa using hdot), count_segments hslash]

theorem count_le_of_components {c : Char} (hslash : c ≠ '/') (hdot : c ≠ '.')
    (hbase : isAbsolute base = true) (h : components (join base path) = components base ++ names) :
    (letters names).count c ≤ path.toList.count c ∧
      (isAbsolute path = false → (letters names).count c = path.toList.count c) := by
  by_cases hpath : isAbsolute path = true
  · refine ⟨?_, fun hrelative => absurd hpath (by rw [hrelative]; exact Bool.false_ne_true)⟩
    rw [join, hpath, if_pos rfl, components_of_isAbsolute hpath, components_of_isAbsolute hbase,
      List.cons_append] at h
    rw [← count_segments_filter hslash hdot path, (List.cons.inj h).2, letters_append,
      List.count_append]
    exact Nat.le_add_left _ _
  · have hrelative := Bool.not_eq_true _ ▸ hpath
    rw [components_join hbase hrelative] at h
    have heq := count_segments_filter hslash hdot path
    rw [List.append_cancel_left h] at heq
    exact ⟨heq.le, fun _ => heq⟩

end Path

namespace FileTree
open RowTypes.Path Discovery

variable {t : FileTree} {root : String} {names : List String}

/-! Absolute paths -/

theorem isAbsolute_absolute (t : FileTree) (path : String) :
    isAbsolute (t.absolute path) = true := by
  rw [isAbsolute, startsWith_slash, absolute, String.toList_append]
  rfl

theorem segments_absolute (t : FileTree) (path : String) : segments (t.absolute path) =
    (t.origin path).flatMap segments ++ (segments path).filter (· ≠ ".") := by
  have hslash (us : List String) : segments ("/" ++ joined us) = us.flatMap segments := by
    have := segments_append_slash "" (joined us)
    rwa [String.empty_append, segments_empty, List.nil_append, segments_joined_eq] at this
  rw [absolute, ← joined, hslash, filter_components, List.flatMap_append,
    flatMap_segments fun name hname => segments_of_mem (List.mem_of_mem_filter hname)]

theorem components_absolute (hnames : ∀ name ∈ names, IsName name) :
    components (t.absolute (names.foldl join root)) = components (t.absolute root) ++ names := by
  obtain ⟨hsegments, habsolute⟩ := segments_foldl_join hnames root
  have horigin : t.origin (names.foldl join root) = t.origin root := by
    rw [origin, origin, habsolute]
  rw [components_of_isAbsolute (isAbsolute_absolute ..),
    components_of_isAbsolute (isAbsolute_absolute ..), segments_absolute, segments_absolute,
    horigin, hsegments]
  simp only [List.filter_append, filter_dot hnames, List.append_assoc, List.cons_append]

end FileTree

end RowTypes
