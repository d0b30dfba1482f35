import Mathlib.Data.List.TakeWhile
import Mathlib.Data.String.Basic
import RowTypes.FileTree.Operations
import RowTypes.Companion

/-! A path as the texts between its slashes: what is above it, what its last name is and which
steps it takes, and the same of the companion of a `.sql` file. -/

namespace RowTypes

namespace Path

def Slashless (us : List String) : Prop := ∀ u ∈ us, '/' ∉ u.toList

def joined (us : List String) : String := String.intercalate "/" us

variable {us vs : List String} {u x : String}

theorem Slashless.left (h : Slashless (us ++ vs)) : Slashless us := fun u hu =>
  h u (List.mem_append_left vs hu)

theorem Slashless.right (h : Slashless (us ++ vs)) : Slashless vs := fun u hu =>
  h u (List.mem_append_right us hu)

theorem Slashless.append (h : Slashless us) (h' : Slashless vs) : Slashless (us ++ vs) :=
  fun u hu => (List.mem_append.1 hu).elim (h u) (h' u)

theorem Slashless.last (h : Slashless (us ++ [x])) : '/' ∉ x.toList :=
  h x (List.mem_append_right us (List.mem_singleton_self x))

theorem slashless_singleton (h : '/' ∉ x.toList) : Slashless [x] := fun u hu => by
  rw [List.mem_singleton.1 hu]
  exact h

/-! Texts and slashes -/

theorem toList_joined (us : List String) :
    (joined us).toList = ['/'].intercalate (us.map String.toList) :=
  String.toList_intercalate

theorem splitToList_eq (path : String) :
    path.splitToList (· = '/') = (path.toList.splitOn '/').map String.ofList := by
  rw [String.splitToList_of_valid]
  rfl

theorem splitToList_joined (hne : us ≠ []) (h : Slashless us) :
    (joined us).splitToList (· = '/') = us := by
  rw [splitToList_eq, toList_joined, List.splitOn_intercalate]
  · simp [Function.comp_def]
  · intro l hl
    obtain ⟨u, hu, rfl⟩ := List.mem_map.1 hl
    exact h u hu
  · simpa using hne

theorem not_mem_of_mem_splitOn {c : Char} {cs l : List Char} (h : l ∈ cs.splitOn c) : c ∉ l := by
  rw [List.splitOn] at h
  induction cs generalizing l with
  | nil => simp_all
  | cons d cs ih =>
    rw [List.splitOnP_cons_eq_if_modifyHead] at h
    split at h
    · rcases List.mem_cons.1 h with rfl | h
      · exact List.not_mem_nil
      · exact ih h
    · rename_i hd
      cases hcs : cs.splitOnP (· == c) with
      | nil => exact absurd hcs (List.splitOnP_ne_nil _ cs)
      | cons first rest =>
        rw [hcs] at h ih
        rcases List.mem_cons.1 h with rfl | h
        · have hne : c ≠ d := fun hcd => hd (beq_iff_eq.2 hcd.symm)
          exact fun hc => ih List.mem_cons_self ((List.mem_cons.1 hc).resolve_left hne)
        · exact ih (List.mem_cons_of_mem first h)

theorem slash_not_mem_of_mem_segments {path name : String} (h : name ∈ segments path) :
    '/' ∉ name.toList := by
  rw [segments, splitToList_eq, List.mem_filter, List.mem_map] at h
  obtain ⟨⟨l, hl, rfl⟩, -⟩ := h
  rw [String.toList_ofList]
  exact not_mem_of_mem_splitOn hl

theorem mem_components {path name : String} (h : name ∈ components path) :
    name = "/" ∨ name ∈ segments path := by
  rw [components] at h
  split at h
  · exact (List.mem_cons.1 h).imp_right List.mem_of_mem_filter
  · split at h
    · rename_i rest hrest
      rw [hrest]
      exact .inr ((List.mem_cons.1 h).elim (fun h => h ▸ List.mem_cons_self)
        fun h => List.mem_cons_of_mem _ (List.mem_of_mem_filter h))
    · exact .inr (List.mem_of_mem_filter h)

theorem slash_not_mem_fileName? {path name : String} (h : fileName? path = some name) :
    '/' ∉ name.toList := by
  rw [fileName?] at h
  split at h
  · rename_i last hlast
    split_ifs at h with hspecial
    rw [← Option.some.inj h]
    rcases mem_components (List.mem_of_getLast? hlast) with hroot | hsegment
    · exact absurd (.inl hroot) hspecial
    · exact slash_not_mem_of_mem_segments hsegment
  · exact nomatch h

theorem exists_joined (path : String) : ∃ us, us ≠ [] ∧ Slashless us ∧ path = joined us := by
  refine ⟨(path.toList.splitOn '/').map String.ofList, by simp [List.splitOn_ne_nil], ?_, ?_⟩
  · intro u hu
    obtain ⟨l, hl, rfl⟩ := List.mem_map.1 hu
    rw [String.toList_ofList]
    exact not_mem_of_mem_splitOn hl
  · rw [← String.toList_inj, toList_joined, List.map_map]
    have hid : (String.toList ∘ String.ofList) = id := by
      funext l
      simp
    rw [hid, List.map_id, List.intercalate_splitOn]

theorem joined_append (hus : us ≠ []) (hvs : vs ≠ []) :
    joined (us ++ vs) = joined us ++ "/" ++ joined vs :=
  String.intercalate_append_of_ne_nil hus hvs

theorem joined_cons (u : String) (hvs : vs ≠ []) : joined (u :: vs) = u ++ "/" ++ joined vs :=
  joined_append (by simp : [u] ≠ []) hvs

@[simp] theorem joined_singleton (u : String) : joined [u] = u := rfl

theorem joined_ne_empty (hx : x ≠ "") : joined (us ++ [x]) ≠ "" := by
  cases us with
  | nil => exact hx
  | cons u us =>
    rw [joined_append (by simp) (by simp), joined_singleton, ne_eq, String.append_eq_empty_iff]
    exact fun h => hx h.2

theorem startsWith_slash {s : String} : s.startsWith "/" = true ↔ s.toList.head? = some '/' := by
  rw [String.startsWith_string_iff]
  cases s.toList <;> simp [eq_comm]

theorem endsWith_slash {s : String} : s.endsWith "/" = true ↔ s.toList.getLast? = some '/' := by
  rw [String.endsWith_eq_endsWith_toSlice, String.Slice.endsWith_string_iff, String.copy_toSlice,
    List.getLast?_eq_some_iff]
  exact exists_congr fun l => eq_comm

theorem head?_ne_slash {u : String} (hu : u ≠ "") (hslash : '/' ∉ u.toList) (rest : List Char) :
    (u.toList ++ rest).head? ≠ some '/' := by
  intro hhead
  cases hlist : u.toList with
  | nil => exact hu (String.toList_eq_nil_iff.1 hlist)
  | cons c cs =>
    rw [hlist, List.cons_append, List.head?_cons] at hhead
    rw [hlist, Option.some.inj hhead] at hslash
    exact hslash List.mem_cons_self

theorem isAbsolute_joined_cons {u : String} (h : '/' ∉ u.toList) (hvs : vs ≠ []) :
    isAbsolute (joined (u :: vs)) = decide (u = "") := by
  rw [isAbsolute, Bool.eq_iff_iff, startsWith_slash, decide_eq_true_iff, joined_cons u hvs,
    String.append_assoc, String.toList_append]
  by_cases hu : u = ""
  · subst hu
    exact iff_of_true (by rw [String.toList_append]; rfl) rfl
  · exact iff_of_false (head?_ne_slash hu h _) hu

section Last

variable (h : Slashless (us ++ [x])) (hx : x ≠ "")

include h hx

theorem isAbsolute_joined : isAbsolute (joined (us ++ [x])) = decide (us.head? = some "") := by
  cases us with
  | nil =>
    have hhead := head?_ne_slash hx h.last []
    rw [List.append_nil] at hhead
    rw [isAbsolute, Bool.eq_iff_iff, startsWith_slash, decide_eq_true_iff]
    exact iff_of_false hhead nofun
  | cons u us =>
    rw [List.cons_append, isAbsolute_joined_cons (h u (by simp)) (by simp), List.head?_cons]
    simp

theorem endsWith_joined : (joined (us ++ [x])).endsWith "/" = false := by
  have hlast : x.toList.getLast? ≠ some '/' := fun hlast =>
    h.last (List.mem_of_getLast? hlast)
  have hne : x.toList ≠ [] := fun hnil => hx (String.toList_eq_nil_iff.1 hnil)
  rw [Bool.eq_false_iff, ne_eq, endsWith_slash]
  cases us with
  | nil => exact hlast
  | cons u us =>
    rw [joined_append (by simp) (by simp), String.toList_append, joined_singleton,
      List.getLast?_append_of_ne_nil _ hne]
    exact hlast

end Last

theorem segments_joined (hne : us ≠ []) (h : Slashless us) :
    segments (joined us) = us.filter (· ≠ "") := by
  rw [segments, splitToList_joined hne h]

theorem head?_trimSegments (us : List String) : (trimSegments us).head? = us.head? := by
  cases us <;> rfl

theorem exists_trimSegments (us : List String) :
    ∃ zs, us = trimSegments us ++ zs ∧ ∀ z ∈ zs, z = "" ∨ z = "." := by
  cases us with
  | nil => exact ⟨[], rfl, nofun⟩
  | cons u us =>
    refine ⟨(us.reverse.takeWhile fun s => s = "" || s = ".").reverse, ?_, fun z hz => ?_⟩
    · rw [trimSegments, List.cons_append, ← List.reverse_append, List.takeWhile_append_dropWhile,
        List.reverse_reverse]
    · simpa using List.mem_takeWhile_imp (List.mem_reverse.1 hz)

theorem trimSegments_append (hx : x ≠ "") (hdot : x ≠ ".") :
    trimSegments (us ++ [x]) = us ++ [x] := by
  cases us with
  | nil => rfl
  | cons u us => simp [trimSegments, hx, hdot]

theorem ne_empty_of_trimSegments {ts : List String} (hts : ts ≠ [])
    (h : trimSegments us = ts ++ [u]) : u ≠ "" := by
  cases us with
  | nil => simp [trimSegments] at h
  | cons first rest =>
    obtain ⟨t, ts, rfl⟩ := List.exists_cons_of_ne_nil hts
    rw [trimSegments, List.cons_append, List.cons.injEq] at h
    have hlast : (rest.reverse.dropWhile fun s => s = "" || s = ".").head? = some u := by
      rw [← List.getLast?_reverse, h.2]
      simp
    intro hu
    have := List.head?_dropWhile_not (fun s => decide (s = "") || decide (s = ".")) rest.reverse
    rw [hlast] at this
    simp [hu] at this

section Last

variable (h : Slashless (us ++ [x])) (hx : x ≠ "") (hdot : x ≠ ".")

include h hx hdot

theorem components_joined : ∃ before names, us.filter (· ≠ "") = before ++ names ∧
    components (joined (us ++ [x])) = (if us.head? = some "" then ["/"] else []) ++
      (before ++ names.filter (· ≠ ".") ++ [x]) := by
  have habsolute := isAbsolute_joined h hx
  rw [isAbsolute] at habsolute
  have hsegments : segments (joined (us ++ [x])) = us.filter (· ≠ "") ++ [x] := by
    rw [segments_joined (by simp) h, List.filter_append]
    simp [hx]
  have hfilter : ∀ names : List String,
      (names ++ [x]).filter (· ≠ ".") = names.filter (· ≠ ".") ++ [x] := by
    intro names
    rw [List.filter_append]
    simp [hdot]
  rw [components, habsolute, hsegments]
  by_cases hroot : us.head? = some ""
  · refine ⟨[], _, rfl, ?_⟩
    simp only [hroot, decide_true, if_true, hfilter]
    rfl
  · simp only [hroot, decide_false, Bool.false_eq_true, if_false, List.nil_append]
    split
    · rename_i rest hrest
      cases hnames : us.filter (· ≠ "") with
      | nil =>
        rw [hnames] at hrest
        exact absurd (List.cons.inj hrest).1 hdot
      | cons first names =>
        rw [hnames, List.cons_append, List.cons.injEq] at hrest
        obtain ⟨rfl, rfl⟩ := hrest
        exact ⟨["."], names, rfl, by rw [hfilter]; rfl⟩
    · exact ⟨[], _, rfl, hfilter _⟩

theorem fileName?_joined :
    fileName? (joined (us ++ [x])) = if x = ".." then none else some x := by
  obtain ⟨before, names, -, hcomponents⟩ := components_joined h hx hdot
  have hslash : x ≠ "/" := by
    rintro rfl
    exact h.last (by decide)
  rw [fileName?, hcomponents, ← List.append_assoc, List.getLast?_concat]
  simp [hslash, hdot]

theorem parent?_joined : parent? (joined (us ++ [x])) =
    match trimSegments us with
    | [""] => some "/"
    | segments => some (joined segments) := by
  obtain ⟨before, names, -, hcomponents⟩ := components_joined h hx hdot
  have htrim : trimSegments (trimSegments ((joined (us ++ [x])).splitToList (· = '/'))).dropLast =
      trimSegments us := by
    rw [splitToList_joined (by simp) h, trimSegments_append hx hdot, List.dropLast_concat]
  rw [parent?, htrim]
  split
  · rename_i hnil
    rw [hcomponents] at hnil
    exact absurd hnil (by simp)
  · rename_i hroot
    have hlast := congrArg List.getLast? hroot
    rw [hcomponents, ← List.append_assoc, List.getLast?_concat] at hlast
    exact absurd (h.last) (by simp [Option.some.inj hlast])
  · rfl

end Last

theorem join_joined (h : Slashless (us ++ [x])) (hx : x ≠ "") (hu : '/' ∉ u.toList)
    (hne : u ≠ "") : join (joined (us ++ [x])) u = joined (us ++ [x] ++ [u]) := by
  have hrelative := isAbsolute_joined (show Slashless ([] ++ [u]) from slashless_singleton hu) hne
  rw [List.nil_append, joined_singleton] at hrelative
  have hbase : ¬(joined (us ++ [x]) = "" ∨ (joined (us ++ [x])).endsWith "/" = true) := by
    rw [endsWith_joined h hx]
    simpa using joined_ne_empty hx
  rw [join, hrelative, if_neg (by simp), if_neg hbase, joined_append (by simp : us ++ [x] ≠ [])
    (by simp), joined_singleton]

theorem exists_parent? (h : Slashless (us ++ [x])) (hx : x ≠ "") (hdot : x ≠ ".")
    (hu : '/' ∉ u.toList) (hne : u ≠ "") : ∃ dir, parent? (joined (us ++ [x])) = some dir ∧
      join dir u = joined (trimSegments us ++ [u]) := by
  have hrelative := isAbsolute_joined (show Slashless ([] ++ [u]) from slashless_singleton hu) hne
  rw [List.nil_append, joined_singleton] at hrelative
  rw [parent?_joined h hx hdot]
  rcases List.eq_nil_or_concat (trimSegments us) with hnil | ⟨ts, last, hts⟩
  · rw [hnil]
    exact ⟨_, rfl, by rw [join, hrelative]; rfl⟩
  rw [List.concat_eq_append] at hts
  obtain ⟨zs, hzs, -⟩ := exists_trimSegments us
  have hslashless : Slashless (ts ++ [last]) := by
    rw [hzs, hts] at h
    exact h.left.left
  by_cases hlast : last = ""
  · have : ts = [] := by
      by_contra hne
      exact ne_empty_of_trimSegments hne hts hlast
    rw [hts, this, hlast]
    refine ⟨"/", rfl, ?_⟩
    rw [join, hrelative, List.nil_append, List.singleton_append, joined_cons "" (by simp),
      joined_singleton]
    have : ("/" : String).endsWith "/" = true := endsWith_slash.2 rfl
    simp [this]
  · rw [hts]
    refine ⟨joined (ts ++ [last]), ?_, join_joined hslashless hlast hu hne⟩
    split
    · rename_i hroot
      have := congrArg List.getLast? hroot
      rw [List.getLast?_concat] at this
      exact absurd (Option.some.inj this) hlast
    · rfl

theorem ofComponents_joined (h : Slashless us) : ofComponents us = joined us := by
  rw [ofComponents]
  · rfl
  · rintro rest rfl
    exact absurd (h "/" List.mem_cons_self) (by decide)

theorem ofComponents_root (hne : us ≠ []) : ofComponents ("/" :: us) = joined ("" :: us) := by
  rw [joined_cons "" hne, String.empty_append]
  rfl

end Path

namespace FileTree
open RowTypes.Path

variable {us : List String} {x : String}

def startOf (t : FileTree) (us : List String) : Location :=
  if us.head? = some "" then [] else t.workingDirectory

theorem startOf_append (t : FileTree) (us : List String) (hx : x ≠ "") :
    t.startOf (us ++ [x]) = t.startOf us := by
  cases us with
  | nil => simp [startOf, hx]
  | cons u us => rfl

theorem startOf_trimSegments (t : FileTree) (us : List String) :
    t.startOf (trimSegments us) = t.startOf us := by
  rw [startOf, head?_trimSegments, startOf]

section Last

variable (h : Slashless (us ++ [x])) (hx : x ≠ "")

include h hx

theorem origin_joined (t : FileTree) : t.origin (joined (us ++ [x])) = t.startOf us := by
  rw [origin, isAbsolute_joined h hx, startOf]
  simp only [decide_eq_true_eq]

theorem steps_joined : steps (joined (us ++ [x])) = us.filter (· ≠ "") ++ [x] := by
  rw [steps, endsWith_joined h hx, segments_joined (by simp) h, List.filter_append]
  simp [hx]

theorem resolve_joined (t : FileTree) (follow : Bool) :
    t.resolve follow (joined (us ++ [x])) =
      t.walk follow maxLinks (t.startOf us) (us.filter (· ≠ "") ++ [x]) := by
  rw [resolve, if_neg (joined_ne_empty hx), origin_joined h hx, steps_joined h hx]

theorem place_joined (t : FileTree) (hdot : x ≠ ".") (hup : x ≠ "..") {here : Location} {m : Nat}
    (hwalk : t.walk true maxLinks (t.startOf us) (us.filter (· ≠ "")) =
      .ok (.entry here (.directory m))) :
    t.place (joined (us ++ [x])) = .ok (here ++ [x]) := by
  have hsegments : (segments (joined (us ++ [x]))).reverse =
      x :: (us.filter (· ≠ "")).reverse := by
    rw [segments_joined (by simp) h, List.filter_append]
    simp [hx]
  simp only [place, hsegments, List.reverse_reverse, origin_joined h hx, hwalk, hdot, hup, or_self,
    if_false, endsWith_joined h hx, Bool.false_eq_true]

theorem lineage_joined (hdot : x ≠ ".") : ∃ ws above,
    lineage (joined (us ++ [x])) = joined (ws ++ [x]) :: above ∧ Slashless (ws ++ [x]) ∧
    (∀ t : FileTree, t.startOf ws = t.startOf us) ∧ ∃ before names,
      us.filter (· ≠ "") = before ++ names ∧
      ws.filter (· ≠ "") = before ++ names.filter (· ≠ ".") := by
  obtain ⟨before, names, hnames, hcomponents⟩ := components_joined h hx hdot
  have hall : ∀ u ∈ before ++ names.filter (· ≠ "."), u ∈ us ∧ u ≠ "" := by
    intro u hu
    have hmem : u ∈ us.filter (· ≠ "") := by
      rw [hnames]
      exact (List.mem_append.1 hu).elim (List.mem_append_left _)
        fun hu => List.mem_append_right _ (List.mem_of_mem_filter hu)
    exact ⟨List.mem_of_mem_filter hmem, by simpa using (List.mem_filter.1 hmem).2⟩
  have hslashless : Slashless (before ++ names.filter (· ≠ ".") ++ [x]) :=
    Slashless.append (fun u hu => h u (List.mem_append_left _ (hall u hu).1)) h.right
  have hfilter : (before ++ names.filter (· ≠ ".")).filter (· ≠ "") =
      before ++ names.filter (· ≠ ".") :=
    List.filter_eq_self.2 fun u hu => by simpa using (hall u hu).2
  have hfirst : ∃ above, lineage (joined (us ++ [x])) =
      ofComponents (components (joined (us ++ [x]))) :: above := by
    obtain ⟨n, hn⟩ : ∃ n, (components (joined (us ++ [x]))).length = n + 1 := by
      rw [hcomponents]
      exact ⟨_, by rw [← List.append_assoc, List.length_append]; rfl⟩
    exact ⟨_, by rw [lineage, hn, List.range_succ, List.map_append, List.reverse_append,
      List.map_singleton, List.reverse_singleton, List.singleton_append, ← hn, List.take_length]⟩
  obtain ⟨above, habove⟩ := hfirst
  rw [habove, hcomponents]
  by_cases hroot : us.head? = some ""
  · refine ⟨"" :: (before ++ names.filter (· ≠ ".")), above, ?_, ?_, fun t => ?_, before, names,
      hnames, hfilter⟩
    · rw [if_pos hroot, List.singleton_append, ofComponents_root (by simp), List.cons_append]
    · have hempty : Slashless [""] := slashless_singleton (by simp)
      exact hempty.append hslashless
    · simp [startOf, hroot]
  · refine ⟨before ++ names.filter (· ≠ "."), above, ?_, hslashless, fun t => ?_, before, names,
      hnames, hfilter⟩
    · rw [if_neg hroot, List.nil_append, ofComponents_joined hslashless]
    · have hhead : (before ++ names.filter (· ≠ ".")).head? ≠ some "" := fun hhead =>
        (hall "" (List.mem_of_mem_head? hhead)).2 rfl
      rw [startOf, startOf, if_neg hhead, if_neg hroot]

end Last

end FileTree

namespace Companion
open RowTypes.Path FileTree

variable {us : List String} {n : String}

theorem slashless_directory : '/' ∉ directory.toList := by decide

theorem toList_name (n : String) : (n ++ ".ts").toList = n.toList ++ ['.', 't', 's'] :=
  String.toList_append

theorem getLast?_name (n : String) : (n ++ ".ts").toList.getLast? = some 's' := by
  rw [toList_name, List.getLast?_append_of_ne_nil _ (by simp)]
  rfl

theorem name_ne (n : String) {x : String} (hx : x.toList.getLast? ≠ some 's') : n ++ ".ts" ≠ x := by
  rintro rfl
  exact hx (getLast?_name n)

theorem slashless_companion (h : Slashless (us ++ [n])) :
    Slashless (trimSegments us ++ [directory] ++ [n ++ ".ts"]) := by
  obtain ⟨zs, hzs, -⟩ := exists_trimSegments us
  refine Slashless.append (Slashless.append ?_ (slashless_singleton slashless_directory))
    (slashless_singleton ?_)
  · rw [hzs] at h
    exact h.left.left
  · rw [toList_name, List.mem_append, not_or]
    exact ⟨h.last, by decide⟩

theorem path?_joined (h : Slashless (us ++ [n])) (hn : n ≠ "") (hdot : n ≠ ".") (hup : n ≠ "..") :
    path? (joined (us ++ [n])) = some (joined (trimSegments us ++ [directory] ++ [n ++ ".ts"])) := by
  obtain ⟨dir, hdir, hjoin⟩ := exists_parent? h hn hdot slashless_directory (by decide)
  have hcompanion := slashless_companion h
  rw [path?, hdir, fileName?_joined h hn hdot, if_neg hup]
  simp only [bind, Option.bind, pure]
  rw [hjoin, join_joined hcompanion.left (by decide) hcompanion.last
    (name_ne n (by decide))]

end Companion
end RowTypes
