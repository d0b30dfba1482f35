import Mathlib.Data.List.Nodup
import RowTypes.Discovery
import RowTypes.Proofs.Overwriting
import RowTypes.Proofs.PathText

/-! Where the files of a run are. A file that is found below the root lies there under its own
names, with no link on the way from the root, so that the paths of two files lead to two places,
and lead there again as long as no link is made and the root leads where it led. -/

namespace RowTypes

theorem nodup_eraseDups {α : Type} [DecidableEq α] : (xs : List α) → xs.eraseDups.Nodup
  | [] => List.nodup_nil
  | x :: xs => by
    rw [List.eraseDups_cons, List.nodup_cons]
    exact ⟨by simp [List.mem_eraseDups], nodup_eraseDups _⟩
termination_by xs => xs.length
decreasing_by
  have := List.length_filter_le (fun y => !y == x) xs
  rw [List.length_cons]
  omega

namespace Path

def IsName (name : String) : Prop :=
  name ≠ "" ∧ name ≠ "." ∧ name ≠ ".." ∧ '/' ∉ name.toList

instance (name : String) : Decidable (IsName name) := inferInstanceAs (Decidable (_ ∧ _))

variable {us names names' : List String}

theorem slashless_of_isName (h : ∀ name ∈ names, IsName name) : Slashless names :=
  fun name hname => (h name hname).2.2.2

theorem filter_of_isName (h : ∀ name ∈ names, IsName name) : names.filter (· ≠ "") = names :=
  List.filter_eq_self.2 fun name hname => by simpa using (h name hname).1

theorem not_isAbsolute_of_isName {name : String} (h : IsName name) : isAbsolute name = false := by
  have habsolute : isAbsolute (joined ([] ++ [name])) = false :=
    isAbsolute_joined (slashless_singleton h.2.2.2) h.1
  rwa [List.nil_append, joined_singleton] at habsolute

theorem foldl_join {x : String} (h : Slashless (us ++ [x])) (hx : x ≠ "")
    (hnames : ∀ name ∈ names, IsName name) :
    names.foldl join (joined (us ++ [x])) = joined (us ++ [x] ++ names) := by
  induction names generalizing us x with
  | nil => rw [List.foldl_nil, List.append_nil]
  | cons name names ih =>
    obtain ⟨hname, hrest⟩ := List.forall_mem_cons.1 hnames
    rw [List.foldl_cons, join_joined h hx hname.2.2.2 hname.1,
      ih (h.append (slashless_singleton hname.2.2.2)) hname.1 hrest, List.append_assoc _ [name],
      List.singleton_append]

theorem joined_injective (hus : us ≠ []) (h : Slashless us) (hnames : ∀ name ∈ names, IsName name)
    (hnames' : ∀ name ∈ names', IsName name) (heq : joined (us ++ names) = joined (us ++ names')) :
    names = names' := by
  have hsplit := congrArg (fun s : String => s.splitToList (· = '/')) heq
  simp only [splitToList_joined (List.append_ne_nil_of_left_ne_nil hus _)
    (h.append (slashless_of_isName hnames)), splitToList_joined
    (List.append_ne_nil_of_left_ne_nil hus _) (h.append (slashless_of_isName hnames'))] at hsplit
  exact List.append_cancel_left hsplit

end Path

namespace FileTree
open RowTypes.Path

variable {t t₀ t' : FileTree} {root : String} {us names : List String}

/-! The root and what is below it -/

theorem lookup_joined_slash (t : FileTree) (hus : us ≠ []) (h : Slashless us) {l : Location}
    {m : Nat} : t.lookup (joined (us ++ [""])) = .ok (l, .directory m) ↔
      t.walk true maxLinks (t.startOf us) (us.filter (· ≠ "")) = .ok (.entry l (.directory m)) := by
  have hslashless : Slashless (us ++ [""]) := h.append (slashless_singleton (by decide))
  have hlast : (joined (us ++ [""])).toList.getLast? = some '/' := by
    rw [joined_append hus (by simp)]
    simp
  have hempty : joined (us ++ [""]) ≠ "" := by
    intro hempty
    rw [hempty] at hlast
    exact nomatch hlast
  have horigin : t.origin (joined (us ++ [""])) = t.startOf us := by
    obtain ⟨u, us, rfl⟩ := List.exists_cons_of_ne_nil hus
    rw [origin, List.cons_append, isAbsolute_joined_cons (h u List.mem_cons_self) (by simp), startOf]
    simp
  have hsteps : steps (joined (us ++ [""])) = us.filter (· ≠ "") ++ ["."] := by
    rw [steps, if_pos (endsWith_slash.2 hlast), segments_joined (by simp) hslashless,
      List.filter_append]
    simp
  rw [lookup_eq_ok, resolve, if_neg hempty, horigin, hsteps, walk_concat_dot]
  simp

structure RootTexts (root : String) (vs : List String) : Prop where
  ne_nil : vs ≠ []
  slashless : Slashless vs
  foldl_join : ∀ names, names ≠ [] → (∀ name ∈ names, IsName name) →
    names.foldl join root = joined (vs ++ names)
  lookup : ∀ (t : FileTree) l m, t.lookup root = .ok (l, .directory m) ↔
    t.walk true maxLinks (t.startOf vs) (vs.filter (· ≠ "")) = .ok (.entry l (.directory m))

theorem exists_rootTexts (hroot : root ≠ "") : ∃ vs, RootTexts root vs := by
  obtain ⟨all, hne, hslashless, rfl⟩ := exists_joined root
  obtain ⟨us, x, rfl⟩ := (List.eq_nil_or_concat' all).resolve_left hne
  by_cases hx : x = ""
  · subst hx
    have hus : us ≠ [] := by
      rintro rfl
      exact hroot rfl
    refine ⟨us, hus, hslashless.left, fun names hnames hall => ?_,
      fun t l m => lookup_joined_slash t hus hslashless.left⟩
    obtain ⟨name, names, rfl⟩ := List.exists_cons_of_ne_nil hnames
    obtain ⟨hname, hrest⟩ := List.forall_mem_cons.1 hall
    have hends : (joined (us ++ [""])).endsWith "/" = true := by
      rw [endsWith_slash, joined_append hus (by simp)]
      simp
    have hjoin : join (joined (us ++ [""])) name = joined (us ++ [name]) := by
      rw [join, not_isAbsolute_of_isName hname, if_neg (by simp), if_pos (.inr hends),
        joined_append hus (by simp), joined_append hus (by simp)]
      simp
    rw [List.foldl_cons, hjoin, Path.foldl_join (hslashless.left.append
      (slashless_singleton hname.2.2.2)) hname.1 hrest, List.append_assoc, List.singleton_append]
  · refine ⟨us ++ [x], by simp, hslashless, fun names _ hall => Path.foldl_join hslashless hx hall,
      fun t l m => ?_⟩
    rw [lookup_eq_ok, resolve_joined hslashless hx, startOf_append t _ hx, List.filter_append]
    simp [hx]

theorem startOf_append_of_ne_nil (t : FileTree) (hus : us ≠ []) (names : List String) :
    t.startOf (us ++ names) = t.startOf us := by
  obtain ⟨u, us, rfl⟩ := List.exists_cons_of_ne_nil hus
  rfl

section Below

variable {vs : List String} {l : Location}

theorem RootTexts.resolve (h : RootTexts root vs) (hnames : names ≠ [])
    (hall : ∀ name ∈ names, IsName name) (t : FileTree) (follow : Bool) :
    t.resolve follow (names.foldl join root) =
      t.walk follow maxLinks (t.startOf vs) (vs.filter (· ≠ "") ++ names) := by
  rw [h.foldl_join names hnames hall]
  obtain ⟨before, last, rfl⟩ := (List.eq_nil_or_concat' names).resolve_left hnames
  have hslashless : Slashless (vs ++ before ++ [last]) := by
    rw [List.append_assoc]
    exact h.slashless.append (slashless_of_isName hall)
  rw [← List.append_assoc, resolve_joined hslashless (hall last (by simp)).1,
    startOf_append_of_ne_nil t h.ne_nil, List.filter_append, List.append_assoc,
    filter_of_isName fun name hname => hall name (List.mem_append_left _ hname)]

theorem RootTexts.exists_root (h : RootTexts root vs) (hnames : names ≠ [])
    (hall : ∀ name ∈ names, IsName name) {e : Entry}
    (hlookup : t.lookup (names.foldl join root) = .ok (l, e)) :
    ∃ home m, t.lookup root = .ok (home, .directory m) ∧ ∃ left, ∀ more,
      t.walk true maxLinks (t.startOf vs) (vs.filter (· ≠ "") ++ more) =
        t.walk true left home more := by
  obtain ⟨name, names, rfl⟩ := List.exists_cons_of_ne_nil hnames
  rw [lookup_eq_ok, h.resolve hnames hall] at hlookup
  obtain ⟨home, m, hwalk⟩ := walk_prefix hlookup
  obtain ⟨left, hleft⟩ := walk_append hwalk
  refine ⟨home, m, (h.lookup t home m).2 hwalk, left, fun more => ?_⟩
  cases more with
  | nil => rw [List.append_nil, hwalk, walk_nil, walk_get? hwalk]
  | cons name more => exact hleft true name more

end Below

/-! Ways without a link -/

/-- The names lead from a directory down to a file, through directories only. -/
inductive Branch (t : FileTree) : Location → List String → Prop where
  | file {here : Location} {name : String} {c : Content} {m : Nat}
      (hget : t.get? (here ++ [name]) = some (.file c m)) : Branch t here [name]
  | directory {here : Location} {name : String} {names : List String} {m : Nat}
      (hget : t.get? (here ++ [name]) = some (.directory m))
      (hbranch : Branch t (here ++ [name]) names) : Branch t here (name :: names)

def Unlinked (t : FileTree) (here : Location) (names : List String) : Prop :=
  ∀ front, front <+: names → front ≠ [] → ∀ target, t.get? (here ++ front) ≠ some (.link target)

theorem Unlinked.front {here : Location} {front : List String} (h : Unlinked t here names)
    (hfront : front <+: names) : Unlinked t here front :=
  fun front' hfront' => h front' (hfront'.trans hfront)

theorem Unlinked.tail {here : Location} {name : String} (h : Unlinked t here (name :: names)) :
    Unlinked t (here ++ [name]) names := by
  intro front hfront hne target
  rw [List.append_assoc, List.singleton_append]
  exact h (name :: front) (List.cons_prefix_cons.2 ⟨rfl, hfront⟩) (by simp) target

theorem walk_unlinked {here l : Location} {links : Nat} {e : Entry} (h : Unlinked t here names)
    (hall : ∀ name ∈ names, IsName name)
    (hwalk : t.walk true links here names = .ok (.entry l e)) : l = here ++ names := by
  induction names generalizing here with
  | nil =>
    rw [walk_nil] at hwalk
    split at hwalk
    · rw [List.append_nil, (Found.entry.inj (Except.ok.inj hwalk)).1]
    · exact nomatch hwalk
  | cons name names ih =>
    obtain ⟨⟨-, hdot, hup, -⟩, hrest⟩ := List.forall_mem_cons.1 hall
    by_cases hdir : t.isDirectoryAt here = true
    · cases hget : t.get? (here ++ [name]) with
      | none =>
        rw [walk_none hdir hdot hup hget] at hwalk
        split at hwalk
        · exact nomatch Except.ok.inj hwalk
        · exact nomatch hwalk
      | some e' =>
        have hlink : ∀ target, e' ≠ .link target := by
          rintro target rfl
          exact h [name] (List.cons_prefix_cons.2 ⟨rfl, List.nil_prefix⟩) (by simp) target hget
        rw [walk_into hdir hdot hup hget hlink] at hwalk
        rw [ih h.tail hrest hwalk, List.append_assoc, List.singleton_append]
    · rw [walk_of_not_isDirectoryAt (by simpa using hdir)] at hwalk
      exact nomatch hwalk

namespace Branch

variable {here : Location}

theorem ne_nil (h : Branch t here names) : names ≠ [] := by cases h <;> simp

theorem get? (h : Branch t here names) : ∃ c m, t.get? (here ++ names) = some (.file c m) := by
  induction h with
  | file hget => exact ⟨_, _, hget⟩
  | directory hget hbranch ih =>
    rwa [List.append_assoc, List.singleton_append] at ih

theorem walk (h : Branch t here names) (hdir : t.isDirectoryAt here = true)
    (hall : ∀ name ∈ names, IsName name) (links : Nat) :
    ∃ c m, t.walk true links here names = .ok (.entry (here ++ names) (.file c m)) := by
  induction h with
  | file hget =>
    obtain ⟨-, hdot, hup, -⟩ := hall _ List.mem_cons_self
    exact ⟨_, _, by rw [walk_into hdir hdot hup hget nofun, walk_nil, hget]⟩
  | directory hget hbranch ih =>
    obtain ⟨⟨-, hdot, hup, -⟩, hrest⟩ := List.forall_mem_cons.1 hall
    obtain ⟨c, m, hwalk⟩ := ih (isDirectoryAt_eq_true.2 ⟨_, hget⟩) hrest
    refine ⟨c, m, ?_⟩
    rw [walk_into hdir hdot hup hget nofun, hwalk, List.append_assoc, List.singleton_append]

theorem unlinked (h : Branch t₀ here names) (hlinks : NoNewLinks t₀ t) :
    Unlinked t here names := by
  intro front hfront hne target hlink
  have hget := hlinks.link _ _ hlink
  clear hlink
  induction h generalizing front with
  | file hfile =>
    rcases List.prefix_cons_iff.1 hfront with rfl | ⟨rest, rfl, hrest⟩
    · exact hne rfl
    · rw [List.prefix_nil.1 hrest, hfile] at hget
      exact nomatch hget
  | directory hdir hbranch ih =>
    rcases List.prefix_cons_iff.1 hfront with rfl | ⟨rest, rfl, hrest⟩
    · exact hne rfl
    · by_cases hnil : rest = []
      · rw [hnil, hdir] at hget
        exact nomatch hget
      · refine ih rest hrest hnil ?_
        rwa [List.append_assoc, List.singleton_append]

end Branch

def WellNamed (t : FileTree) : Prop := ∀ entry ∈ t.entries, ∀ name ∈ entry.1, IsName name

instance (t : FileTree) : Decidable (WellNamed t) :=
  inferInstanceAs (Decidable (∀ entry ∈ t.entries, ∀ name ∈ entry.1, IsName name))

theorem WellNamed.isName (h : t.WellNamed) {l : Location} {e : Entry} (hl : t.get? l = some e) :
    ∀ name ∈ l, IsName name := by
  rw [FileTree.get?, List.lookup_eq_some_iff] at hl
  obtain ⟨before, after, hentries, -⟩ := hl
  exact h (l, e) (by rw [hentries]; simp)

end FileTree

namespace Discovery
open FileTree RowTypes.Path

variable {t t₀ : FileTree} {root : String} {wanted : FileFilter}

def filesAt (t : FileTree) (wanted : FileFilter) (depth : Nat) (here : Location)
    (relative : Relative) (name : String) : List Relative :=
  match t.get? (here ++ [name]) with
  | some (.file _ _) => [relative ++ [name]]
  | some (.directory _) =>
    if wanted.isExcludedDirectory (Relative.text (relative ++ [name])) then []
    else files t wanted depth (here ++ [name]) (relative ++ [name])
  | _ => []

theorem names_of_pairwise {l : Location} {names : List String}
    (hnames : (t.entries.filterMap fun (k, _) =>
      if k.dropLast = l then k.getLast? else none) = names)
    (hsorted : names.Pairwise fun a b => decide (a ≤ b) = true) (hdups : names.eraseDups = names) :
    t.names l = names := by
  rw [FileTree.names, hnames, List.mergeSort_of_pairwise hsorted, hdups]

section Files

variable {depth : Nat} {here : Location} {relative path : Relative} {name : String}

theorem files_succ : files t wanted (depth + 1) here relative =
    (t.names here).flatMap (filesAt t wanted depth here relative) := rfl

theorem of_mem_filesAt (h : path ∈ filesAt t wanted depth here relative name) :
    (∃ c m, t.get? (here ++ [name]) = some (.file c m)) ∧ path = relative ++ [name] ∨
      (∃ m, t.get? (here ++ [name]) = some (.directory m)) ∧
        path ∈ files t wanted depth (here ++ [name]) (relative ++ [name]) := by
  rw [filesAt] at h
  split at h
  · rename_i c m hget
    exact .inl ⟨⟨c, m, hget⟩, List.mem_singleton.1 h⟩
  · rename_i m hget
    split at h
    · exact nomatch h
    · exact .inr ⟨⟨m, hget⟩, h⟩
  · exact nomatch h

theorem branch_of_mem_files (h : path ∈ files t wanted depth here relative) :
    ∃ names, path = relative ++ names ∧ Branch t here names := by
  induction depth generalizing here relative with
  | zero => exact nomatch h
  | succ depth ih =>
    rw [files_succ, List.mem_flatMap] at h
    obtain ⟨name, -, hpath⟩ := h
    obtain ⟨⟨c, m, hget⟩, rfl⟩ | ⟨⟨m, hget⟩, hpath⟩ := of_mem_filesAt hpath
    · exact ⟨[name], rfl, .file hget⟩
    · obtain ⟨names, rfl, hbranch⟩ := ih hpath
      exact ⟨name :: names, by simp, .directory hget hbranch⟩

theorem exists_of_mem_filesAt (h : path ∈ filesAt t wanted depth here relative name) :
    ∃ names, path = relative ++ name :: names := by
  obtain ⟨-, rfl⟩ | ⟨-, hpath⟩ := of_mem_filesAt h
  · exact ⟨[], rfl⟩
  · obtain ⟨names, rfl, -⟩ := branch_of_mem_files hpath
    exact ⟨names, by simp⟩

theorem nodup_files (t : FileTree) (wanted : FileFilter) (depth : Nat) (here : Location)
    (relative : Relative) : (files t wanted depth here relative).Nodup := by
  induction depth generalizing here relative with
  | zero => exact List.nodup_nil
  | succ depth ih =>
    rw [files_succ, List.nodup_flatMap]
    refine ⟨fun name _ => ?_, ?_⟩
    · rw [filesAt]
      split
      · exact List.nodup_singleton _
      · split
        · exact List.nodup_nil
        · exact ih _ _
      · exact List.nodup_nil
    · have hnodup : (t.names here).Nodup := nodup_eraseDups _
      refine hnodup.imp fun {name name'} hne => ?_
      refine List.disjoint_left.2 fun path hpath hpath' => ?_
      obtain ⟨names, rfl⟩ := exists_of_mem_filesAt hpath
      obtain ⟨names', heq⟩ := exists_of_mem_filesAt hpath'
      exact hne (List.cons.inj (List.append_cancel_left heq)).1

end Files

/-! The files of a run -/

/-- The root leads to no directory but the one in which the files were found. -/
def RootStays (t₀ t : FileTree) (root : String) : Prop :=
  ∀ l m l' m', t₀.lookup root = .ok (l, .directory m) → t.lookup root = .ok (l', .directory m') →
    l' = l

structure Below (t₀ : FileTree) (root : String) (home : Location) (names : List String) : Prop where
  root : ∃ m, t₀.lookup root = .ok (home, .directory m)
  branch : Branch t₀ home names
  isName : ∀ name ∈ names, IsName name

namespace Below

variable {home l : Location} {names : List String} {e : Entry}

theorem root_ne (h : Below t₀ root home names) : root ≠ "" := by
  rintro rfl
  obtain ⟨m, hroot⟩ := h.root
  exact nomatch hroot

theorem lookup_self (h : Below t₀ root home names) :
    ∃ c m, t₀.lookup (names.foldl join root) = .ok (home ++ names, .file c m) := by
  obtain ⟨vs, hvs⟩ := exists_rootTexts h.root_ne
  obtain ⟨m, hroot⟩ := h.root
  have hdir := isDirectoryAt_eq_true.2 ⟨m, get?_of_lookup hroot⟩
  obtain ⟨left, hleft⟩ := walk_append ((hvs.lookup t₀ home m).1 hroot)
  obtain ⟨c, m, hwalk⟩ := h.branch.walk hdir h.isName left
  refine ⟨c, m, ?_⟩
  rw [lookup_eq_ok, hvs.resolve h.branch.ne_nil h.isName]
  obtain ⟨name, names, rfl⟩ := List.exists_cons_of_ne_nil h.branch.ne_nil
  rw [hleft, hwalk]

variable (h : Below t₀ root home names) (hlinks : NoNewLinks t₀ t) (hroot : RootStays t₀ t root)

include h hlinks hroot

/-- As long as the root leads where it led, the names lead from it to no other place. -/
theorem exists_walk (hlookup : t.lookup (names.foldl join root) = .ok (l, e)) :
    ∃ vs, RootTexts root vs ∧ ∀ front l e, front <+: names →
      t.walk true maxLinks (t.startOf vs) (vs.filter (· ≠ "") ++ front) = .ok (.entry l e) →
      l = home ++ front := by
  obtain ⟨vs, hvs⟩ := exists_rootTexts h.root_ne
  obtain ⟨home', m, hhome, left, hleft⟩ := hvs.exists_root h.branch.ne_nil h.isName hlookup
  obtain ⟨m₀, hroot₀⟩ := h.root
  obtain rfl := hroot home m₀ home' m hroot₀ hhome
  refine ⟨vs, hvs, fun front l e hfront hwalk => ?_⟩
  rw [hleft] at hwalk
  exact walk_unlinked ((h.branch.unlinked hlinks).front hfront)
    (fun name hname => h.isName name (hfront.subset hname)) hwalk

theorem lookup_eq (hlookup : t.lookup (names.foldl join root) = .ok (l, e)) :
    l = home ++ names := by
  obtain ⟨vs, hvs, hwalk⟩ := h.exists_walk hlinks hroot hlookup
  rw [lookup_eq_ok, hvs.resolve h.branch.ne_nil h.isName] at hlookup
  exact hwalk names l e List.prefix_rfl hlookup

theorem place_eq (hlookup : t.lookup (names.foldl join root) = .ok (l, e)) (hextends : Extends t t')
    {l' : Location} (hplace : t'.place (names.foldl join root) = .ok l') : l' = home ++ names := by
  obtain ⟨vs, hvs, hfront⟩ := h.exists_walk hlinks hroot hlookup
  rw [lookup_eq_ok, hvs.resolve h.branch.ne_nil h.isName] at hlookup
  have hisName := h.isName
  obtain ⟨before, last, rfl⟩ := (List.eq_nil_or_concat' names).resolve_left h.branch.ne_nil
  rw [← List.append_assoc] at hlookup
  obtain ⟨d, m, hwalk⟩ := walk_prefix hlookup
  obtain rfl := hfront before d _ (List.prefix_append ..) hwalk
  obtain ⟨e', hwalk', hbecomes⟩ := hextends.grows.walk hwalk
  rw [hbecomes.directory] at hwalk'
  have hslashless : Slashless (vs ++ before ++ [last]) := by
    rw [List.append_assoc]
    exact hvs.slashless.append (slashless_of_isName hisName)
  have hstart : t'.startOf (vs ++ before) = t.startOf vs := by
    rw [startOf_append_of_ne_nil t' hvs.ne_nil, startOf, startOf, hextends.workingDirectory]
  obtain ⟨hne, hdot, hup, -⟩ := hisName last (by simp)
  rw [hvs.foldl_join _ (by simp) hisName, ← List.append_assoc,
    place_joined hslashless hne t' hdot hup (m := m)] at hplace
  · rw [← Except.ok.inj hplace, List.append_assoc]
  · rw [hstart, List.filter_append,
      filter_of_isName fun name hname => hisName name (List.mem_append_left _ hname), hwalk']

end Below

section Discover

variable {relative : Relative} {path : String} {only : Option (List String)}

theorem relativeFiles_cases (t : FileTree) (root : String) (wanted : FileFilter) :
    relativeFiles t root wanted = [] ∨
    (∃ l c m, t.lookup root = .ok (l, .file c m)) ∧ relativeFiles t root wanted = [[]] ∨
    ∃ home m, t.lookup root = .ok (home, .directory m) ∧
      relativeFiles t root wanted = files t wanted t.depth home [] := by
  rw [relativeFiles]
  split
  · exact .inl rfl
  · split
    · rename_i l c m hroot
      exact .inr (.inl ⟨⟨l, c, m, hroot⟩, rfl⟩)
    · rename_i home m hroot
      exact .inr (.inr ⟨home, m, hroot, rfl⟩)
    · exact .inl rfl

theorem below_of_mem_files (hnamed : t.WellNamed) {home : Location} {m depth : Nat}
    (hroot : t.lookup root = .ok (home, .directory m))
    (h : relative ∈ files t wanted depth home []) : Below t root home relative := by
  obtain ⟨names, rfl, hbranch⟩ := branch_of_mem_files h
  obtain ⟨c, m', hget⟩ := hbranch.get?
  exact ⟨⟨m, hroot⟩, hbranch, fun name hname =>
    hnamed.isName hget name (List.mem_append_right _ hname)⟩

theorem discover_eq (t : FileTree) (root : String) (wanted : FileFilter)
    (only : Option (List String)) : discover t root wanted only =
      ((relativeFiles t root wanted).filter fun relative =>
        wanted.isMatch (Relative.text relative) && isAmong t only (relative.foldl join root)).map
        (·.foldl join root) := by
  rw [discover]
  induction relativeFiles t root wanted with
  | nil => rfl
  | cons relative rest ih =>
    rw [List.filterMap_cons, List.filter_cons, ih]
    dsimp only
    cases wanted.isMatch (Relative.text relative) && isAmong t only (relative.foldl join root) <;>
      rfl

theorem of_mem_discover (h : path ∈ discover t root wanted only) :
    ∃ relative ∈ relativeFiles t root wanted, path = relative.foldl join root := by
  rw [discover_eq] at h
  obtain ⟨relative, hrelative, rfl⟩ := List.mem_map.1 h
  exact ⟨relative, List.mem_of_mem_filter hrelative, rfl⟩

theorem discover_cases (hnamed : t.WellNamed) (root : String) (wanted : FileFilter)
    (only : Option (List String)) :
    (∃ l c m, t.lookup root = .ok (l, .file c m)) ∧
      (∀ path ∈ discover t root wanted only, path = root) ∨
    ∃ home, ∀ path ∈ discover t root wanted only, ∃ names, Below t root home names ∧
      path = names.foldl join root := by
  rcases relativeFiles_cases t root wanted with hnil | ⟨hroot, hsingle⟩ | ⟨home, m, hroot, hfiles⟩
  · refine .inr ⟨[], fun path hpath => ?_⟩
    obtain ⟨relative, hrelative, -⟩ := of_mem_discover hpath
    rw [hnil] at hrelative
    exact nomatch hrelative
  · refine .inl ⟨hroot, fun path hpath => ?_⟩
    obtain ⟨relative, hrelative, rfl⟩ := of_mem_discover hpath
    rw [hsingle, List.mem_singleton] at hrelative
    rw [hrelative, List.foldl_nil]
  · refine .inr ⟨home, fun path hpath => ?_⟩
    obtain ⟨relative, hrelative, rfl⟩ := of_mem_discover hpath
    exact ⟨relative, below_of_mem_files hnamed hroot (hfiles ▸ hrelative), rfl⟩

theorem hasFile_of_mem_discover (hnamed : t.WellNamed) (h : path ∈ discover t root wanted only) :
    ∃ l c m, t.lookup path = .ok (l, .file c m) := by
  rcases discover_cases hnamed root wanted only with ⟨hfile, hroot⟩ | ⟨home, hbelow⟩
  · rw [hroot path h]
    exact hfile
  · obtain ⟨names, hbelow, rfl⟩ := hbelow path h
    exact ⟨_, hbelow.lookup_self⟩

theorem Below.foldl_join_inj {home : Location} {names names' : List String}
    (h : Below t root home names) (h' : Below t root home names')
    (heq : names.foldl join root = names'.foldl join root) : names = names' := by
  obtain ⟨vs, hvs⟩ := exists_rootTexts h.root_ne
  rw [hvs.foldl_join names h.branch.ne_nil h.isName,
    hvs.foldl_join names' h'.branch.ne_nil h'.isName] at heq
  exact joined_injective hvs.ne_nil hvs.slashless h.isName h'.isName heq

theorem nodup_discover (hnamed : t.WellNamed) (root : String) (wanted : FileFilter)
    (only : Option (List String)) : (discover t root wanted only).Nodup := by
  rw [discover_eq]
  rcases relativeFiles_cases t root wanted with hnil | ⟨-, hsingle⟩ | ⟨home, m, hroot, hfiles⟩
  · rw [hnil]
    exact List.nodup_nil
  · rw [hsingle]
    exact ((List.nodup_singleton _).filter _).map_on (by simp)
  · rw [hfiles]
    refine ((nodup_files t wanted t.depth home []).filter _).map_on fun names h names' h' heq => ?_
    have hbelow := below_of_mem_files hnamed hroot (List.mem_of_mem_filter h)
    exact hbelow.foldl_join_inj
      (below_of_mem_files hnamed hroot (List.mem_of_mem_filter h')) heq

theorem lookup_ne (hnamed : t₀.WellNamed) {path path' : String}
    (hpath : path ∈ discover t₀ root wanted only) (hpath' : path' ∈ discover t₀ root wanted only)
    (hne : path ≠ path') (hlinks : NoNewLinks t₀ t) (hroot : RootStays t₀ t root)
    {l l' : Location} {e e' : Entry} (hlookup : t₀.lookup path = .ok (l, e))
    (hlookup' : t.lookup path' = .ok (l', e')) :
    l' ≠ l ∧ ∀ t' place, Extends t t' → t'.place path' = .ok place → place ≠ l := by
  rcases discover_cases hnamed root wanted only with ⟨-, hsingle⟩ | ⟨home, hbelow⟩
  · exact absurd ((hsingle path hpath).trans (hsingle path' hpath').symm) hne
  obtain ⟨names, hnames, rfl⟩ := hbelow path hpath
  obtain ⟨names', hnames', rfl⟩ := hbelow path' hpath'
  obtain ⟨c, m, hself⟩ := hnames.lookup_self
  obtain rfl := (Prod.mk.inj (Except.ok.inj (hself.symm.trans hlookup))).1
  have hplaces : home ++ names' ≠ home ++ names := fun heq =>
    hne (by rw [List.append_cancel_left heq])
  refine ⟨?_, fun t' place hextends hplace => ?_⟩
  · rw [hnames'.lookup_eq hlinks hroot hlookup']
    exact hplaces
  · rw [hnames'.place_eq hlinks hroot hlookup' hextends hplace]
    exact hplaces

end Discover

end Discovery
end RowTypes
