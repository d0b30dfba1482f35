import Mathlib.Data.List.Lex
import RowTypes.Proofs.Discovered
import RowTypes.Proofs.Patterns

/-! Which files are found. The search does not enter the directories that are left out. Nothing
that is wanted lies below them, unless `**/` and nothing else stands before the `/**` of an
excluded pattern. What is found is in the order of the bytes of its names. -/

namespace RowTypes

namespace Glob

/-! The order of texts is that of their bytes -/

theorem bytes_append (a b : String) : bytes (a ++ b) = bytes a ++ bytes b := by
  rw [bytes, bytes, bytes, String.toList_append, List.flatMap_append]

theorem utf8EncodeChar_append_lt {c d : Char} (h : c < d) (s r : List UInt8) :
    String.utf8EncodeChar c ++ s < String.utf8EncodeChar d ++ r := by
  have hlt : c.val.toNat < d.val.toNat := h
  have hvalid : d.val.toNat < 0x110000 := by
    rcases d.valid with hd | hd
    · exact hd.trans (by decide)
    · exact hd.2
  have hdigits : ∀ n : Nat, n / 4096 = n / 64 / 64 ∧ n / 262144 = n / 64 / 64 / 64 :=
    fun n => by omega
  -- the longer encoding begins with the greater byte, and one of the same length is in order
  simp only [String.utf8EncodeChar]
  split_ifs
  all_goals try omega
  all_goals
    simp only [List.cons_append, List.nil_append, List.cons_lt_cons_iff, UInt8.lt_iff_toNat_lt,
      ← UInt8.toNat_inj, UInt8.toNat_ofNat', hdigits]
    omega

theorem bytes_lt {a b : String} (h : a < b) : bytes a < bytes b := by
  have lt {cs ds : List Char} (h : List.Lex (· < ·) cs ds) :
      cs.flatMap String.utf8EncodeChar < ds.flatMap String.utf8EncodeChar := by
    induction h with
    | @nil d ds =>
      obtain ⟨b, bs, hb⟩ := List.exists_cons_of_ne_nil (String.utf8EncodeChar_ne_nil (c := d))
      rw [List.flatMap_nil, List.flatMap_cons, hb]
      exact .nil
    | cons _ ih =>
      rw [List.flatMap_cons, List.flatMap_cons]
      exact List.append_left_lt ih
    | rel h =>
      rw [List.flatMap_cons, List.flatMap_cons]
      exact utf8EncodeChar_append_lt h _ _
  exact lt (String.lt_iff_toList_lt.1 h)

end Glob

namespace FileTree
open RowTypes.Path

variable {t : FileTree} {here : Location} {name : String}

theorem pairwise_eraseDups {α : Type} [DecidableEq α] {r : α → α → Prop} :
    (xs : List α) → xs.Pairwise r → xs.eraseDups.Pairwise r
  | [], _ => List.Pairwise.nil
  | x :: xs, h => by
    rw [List.eraseDups_cons, List.pairwise_cons]
    obtain ⟨hx, hxs⟩ := List.pairwise_cons.1 h
    refine ⟨fun y hy => hx y ?_, pairwise_eraseDups _ (hxs.filter _)⟩
    exact List.mem_of_mem_filter (List.mem_eraseDups.1 hy)
termination_by xs => xs.length
decreasing_by
  have := List.length_filter_le (fun y => !y == x) xs
  rw [List.length_cons]
  omega

theorem mem_names : name ∈ t.names here ↔ ∃ e, t.get? (here ++ [name]) = some e := by
  have hentry (l : Location) : (∃ e, t.get? l = some e) ↔ ∃ entry ∈ t.entries, entry.1 = l := by
    rw [FileTree.get?, ← Option.isSome_iff_exists, Option.isSome_iff_ne_none, ne_eq,
      List.lookup_eq_none_iff]
    simp only [bne_iff_ne, ne_eq, not_forall, not_not, exists_prop, eq_comm (a := l)]
  rw [hentry, names, List.mem_eraseDups, List.mem_mergeSort, List.mem_filterMap]
  refine exists_congr fun entry => and_congr_right fun _ => ?_
  dsimp only
  constructor
  · intro h
    split_ifs at h with hhere
    rw [← hhere, List.dropLast_append_getLast? _ h]
  · rintro hl
    rw [hl]
    simp

theorem pairwise_names (t : FileTree) (here : Location) : (t.names here).Pairwise (· < ·) := by
  have hsorted : (t.names here).Pairwise (· ≤ ·) := by
    refine pairwise_eraseDups _ ((List.pairwise_mergeSort ?_ ?_ _).imp of_decide_eq_true)
    · exact fun a b c hab hbc =>
        decide_eq_true ((of_decide_eq_true hab).trans (of_decide_eq_true hbc))
    · exact fun a b => by simpa using String.le_total a b
  exact (hsorted.and (nodup_eraseDups _)).imp fun h => lt_of_le_of_ne h.1 h.2

theorem length_le_depth {l : Location} {e : Entry} (h : t.get? l = some e) :
    l.length ≤ t.depth := by
  rw [FileTree.get?, List.lookup_eq_some_iff] at h
  obtain ⟨before, after, hentries, -⟩ := h
  have hmem : l.length ∈ t.entries.map fun e => e.1.length :=
    List.mem_map.2 ⟨(l, e), by rw [hentries]; simp, rfl⟩
  rw [depth, List.foldl_max_eq_max (List.ne_nil_of_mem hmem)]
  exact le_max_of_le_right (List.le_max_of_mem hmem)

end FileTree

namespace Discovery
open FileTree RowTypes.Path

variable {t : FileTree} {wanted : FileFilter} {depth : Nat} {here : Location}
  {relative path : Relative} {name : String} {names : List String}

def Entered (wanted : FileFilter) (relative : Relative) (names : List String) : Prop :=
  ∀ front, front <+: names → front ≠ [] → front ≠ names →
    wanted.isExcludedDirectory (Relative.text (relative ++ front)) = false

theorem entered_singleton : Entered wanted relative [name] := by
  intro front hfront hne hproper
  obtain h | ⟨rest, rfl, hrest⟩ := List.prefix_cons_iff.1 hfront
  · exact absurd h hne
  · exact absurd (by rw [List.prefix_nil.1 hrest]) hproper

theorem entered_cons (hnames : names ≠ []) : Entered wanted relative (name :: names) ↔
    wanted.isExcludedDirectory (Relative.text (relative ++ [name])) = false ∧
      Entered wanted (relative ++ [name]) names := by
  constructor
  · refine fun h => ⟨h [name] (List.cons_prefix_cons.2 ⟨rfl, List.nil_prefix⟩) (by simp)
      (by simpa using hnames.symm), fun front hfront hne hproper => ?_⟩
    rw [List.append_assoc]
    exact h (name :: front) (List.cons_prefix_cons.2 ⟨rfl, hfront⟩) (by simp)
      (by simpa using hproper)
  · rintro ⟨hname, h⟩ front hfront hne hproper
    obtain hnil | ⟨rest, rfl, hrest⟩ := List.prefix_cons_iff.1 hfront
    · exact absurd hnil hne
    · by_cases hnil : rest = []
      · rw [hnil]
        exact hname
      · have hrest := h rest hrest hnil (by simpa using hproper)
        rwa [List.append_assoc] at hrest

theorem mem_filesAt : path ∈ filesAt t wanted depth here relative name ↔
    (∃ c m, t.get? (here ++ [name]) = some (.file c m)) ∧ path = relative ++ [name] ∨
      (∃ m, t.get? (here ++ [name]) = some (.directory m)) ∧
        wanted.isExcludedDirectory (Relative.text (relative ++ [name])) = false ∧
        path ∈ files t wanted depth (here ++ [name]) (relative ++ [name]) := by
  rw [filesAt]
  split
  · rename_i hget
    simp [hget]
  · rename_i hget
    simp [hget]
  · rename_i hfile hdirectory
    simp_all

theorem mem_files : path ∈ files t wanted depth here relative ↔
    ∃ names, path = relative ++ names ∧ Branch t here names ∧ names.length ≤ depth ∧
      Entered wanted relative names := by
  induction depth generalizing here relative with
  | zero =>
    refine iff_of_false (List.not_mem_nil) ?_
    rintro ⟨names, -, hbranch, hlength, -⟩
    exact hbranch.ne_nil (List.eq_nil_of_length_eq_zero (Nat.le_zero.1 hlength))
  | succ depth ih =>
    rw [files_succ, List.mem_flatMap]
    constructor
    · rintro ⟨name, -, hpath⟩
      obtain ⟨⟨c, m, hget⟩, rfl⟩ | ⟨⟨m, hget⟩, hname, hpath⟩ := mem_filesAt.1 hpath
      · exact ⟨[name], rfl, .file hget, by simp, entered_singleton⟩
      · obtain ⟨names, rfl, hbranch, hlength, hentered⟩ := ih.1 hpath
        exact ⟨name :: names, by simp, .directory hget hbranch, by simpa using hlength,
          (entered_cons hbranch.ne_nil).2 ⟨hname, hentered⟩⟩
    · rintro ⟨names, rfl, hbranch, hlength, hentered⟩
      cases hbranch with
      | file hget => exact ⟨_, mem_names.2 ⟨_, hget⟩, mem_filesAt.2 (.inl ⟨⟨_, _, hget⟩, rfl⟩)⟩
      | @directory _ name names m hget hbranch =>
        obtain ⟨hname, hentered⟩ := (entered_cons hbranch.ne_nil).1 hentered
        refine ⟨name, mem_names.2 ⟨_, hget⟩, mem_filesAt.2 (.inr ⟨⟨m, hget⟩, hname, ih.2 ?_⟩)⟩
        exact ⟨names, by simp, hbranch, by simpa using hlength, hentered⟩

theorem pairwise_files (t : FileTree) (wanted : FileFilter) (depth : Nat) (here : Location)
    (relative : Relative) : (files t wanted depth here relative).Pairwise
      fun r r' => r.map Glob.bytes < r'.map Glob.bytes := by
  induction depth generalizing here relative with
  | zero => exact List.Pairwise.nil
  | succ depth ih =>
    rw [files_succ, List.pairwise_flatMap]
    refine ⟨fun name _ => ?_, (pairwise_names t here).imp fun {name name'} hlt r hr r' hr' => ?_⟩
    · rw [filesAt]
      split
      · exact List.pairwise_singleton ..
      · split
        · exact List.Pairwise.nil
        · exact ih _ _
      · exact List.Pairwise.nil
    · obtain ⟨names, rfl⟩ := exists_of_mem_filesAt hr
      obtain ⟨names', rfl⟩ := exists_of_mem_filesAt hr'
      rw [List.map_append, List.map_append]
      exact List.append_left_lt (.rel (Glob.bytes_lt hlt))

section Found

variable {root : String} {home : Location} {included excluded : List String}

/-- A file lies at the names, it is wanted, and its way leads through no repository's own files. -/
structure Selected (t : FileTree) (root : String) (home : Location) (wanted : FileFilter)
    (only : Option (List String)) (names : List String) : Prop where
  branch : Branch t home names
  isMatch : wanted.isMatch (Relative.text names) = true
  isAmong : isAmong t only (names.foldl join root) = true
  git : ∀ name ∈ names.dropLast, name ≠ ".git"

theorem isExcludedDirectory_text (hall : ∀ name' ∈ names ++ [name], IsName name') :
    wanted.isExcludedDirectory (Relative.text (names ++ [name])) =
      (decide (name = ".git") ||
        FileFilter.anyMatch wanted.pruned (Relative.text (names ++ [name]))) := by
  obtain ⟨hne, hdot, hup, -⟩ := hall name (by simp)
  have hname : fileName? (Relative.text (names ++ [name])) = some name := by
    rw [Relative.text, ← joined, fileName?_joined (slashless_of_isName hall) hne hdot, if_neg hup]
  rw [FileFilter.isExcludedDirectory, hname]
  simp

theorem bytes_text_append {front : List String} (hfront : front ≠ []) (hnames : names ≠ []) :
    Glob.bytes (Relative.text (front ++ names)) =
      Glob.bytes (Relative.text front) ++ 0x2f :: Glob.bytes (Relative.text names) := by
  rw [Relative.text, ← joined, joined_append hfront hnames, Glob.bytes_append, Glob.bytes_append,
    List.append_assoc]
  rfl

theorem exists_of_proper_prefix {front : List String} (hfront : front <+: names) (hne : front ≠ [])
    (hproper : front ≠ names) : ∃ before name rest, front = before ++ [name] ∧ rest ≠ [] ∧
      names = front ++ rest ∧ name ∈ names.dropLast := by
  obtain ⟨rest, rfl⟩ := hfront
  obtain ⟨before, name, rfl⟩ := (List.eq_nil_or_concat' front).resolve_left hne
  have hrest : rest ≠ [] := fun h => hproper (by simp [h])
  refine ⟨before, name, rest, rfl, hrest, rfl, ?_⟩
  rw [List.dropLast_append_of_ne_nil hrest]
  simp

theorem exists_prefix_of_mem_dropLast (h : name ∈ names.dropLast) :
    ∃ before, before ++ [name] <+: names ∧ before ++ [name] ≠ names := by
  obtain ⟨before, after, hnames⟩ := List.append_of_mem h
  have hprefix : before ++ [name] <+: names.dropLast := ⟨after, by simp [hnames]⟩
  refine ⟨before, hprefix.trans (List.dropLast_prefix names), fun heq => ?_⟩
  have hlength := hprefix.length_le
  rw [heq, List.length_dropLast] at hlength
  have hpos : 0 < names.length := List.length_pos_of_ne_nil (by rintro rfl; cases h)
  omega

/-- The directories on the way to a wanted file are entered but for those of repositories, unless
none is. -/
theorem entered_iff (hwanted : FileFilter.ofPatterns included excluded = .ok wanted)
    (hall : ∀ name ∈ names, IsName name) (hnames : names ≠ [])
    (hmatch : wanted.isMatch (Relative.text names) = true) :
    Entered wanted [] names ↔ (∀ name ∈ names.dropLast, name ≠ ".git") ∧
      ((∃ pattern ∈ excluded, FileFilter.prunesAll pattern = true) → names.length = 1) := by
  have hfront {front : List String} (h : front <+: names) : ∀ name ∈ front, IsName name :=
    fun name hname => hall name (h.subset hname)
  constructor
  · intro h
    refine ⟨fun name hname => ?_, ?_⟩
    · obtain ⟨before, hprefix, hproper⟩ := exists_prefix_of_mem_dropLast hname
      have hexcluded := h _ hprefix (by simp) hproper
      rw [List.nil_append, isExcludedDirectory_text (hfront hprefix)] at hexcluded
      simpa using (Bool.or_eq_false_iff.1 hexcluded).1
    · rintro ⟨pattern, hmem, hprunes⟩
      obtain ⟨first, rest, rfl⟩ := List.exists_cons_of_ne_nil hnames
      by_contra hlength
      have hexcluded := h [first] (List.cons_prefix_cons.2 ⟨rfl, List.nil_prefix⟩) (by simp)
        fun heq => hlength (by rw [← heq]; rfl)
      have hpruned := FileFilter.pruned_of_prunesAll hwanted hmem hprunes (Relative.text [first])
      rw [List.nil_append, FileFilter.isExcludedDirectory, hpruned, Bool.or_true] at hexcluded
      cases hexcluded
  · rintro ⟨hgit, hone⟩ front hprefix hne hproper
    obtain ⟨before, name, rest, rfl, hrest, hsplit, hname⟩ :=
      exists_of_proper_prefix hprefix hne hproper
    rw [List.nil_append, isExcludedDirectory_text (hfront hprefix),
      decide_eq_false (hgit name hname), Bool.false_or, Bool.eq_false_iff]
    intro hpruned
    have hsome : ∀ pattern ∈ excluded, FileFilter.prunesAll pattern = false := by
      intro pattern hmem
      rw [Bool.eq_false_iff]
      intro hprunes
      have hlength := hone ⟨pattern, hmem, hprunes⟩
      rw [hsplit] at hlength
      have hpos := List.length_pos_of_ne_nil hrest
      simp at hlength
      omega
    have hexcluded :=
      FileFilter.excluded_of_pruned hwanted hsome (bytes_text_append hne hrest) hpruned
    rw [← hsplit] at hexcluded
    rw [FileFilter.isMatch, hexcluded, Bool.not_true, Bool.and_false] at hmatch
    cases hmatch

/-- The search finds the selected files, each once and in the order of the bytes of their names. It
finds none below a directory of the name `-`, and only those in the root itself if there is an
excluded pattern with nothing but `**/` before its `/**`. -/
theorem discover_selects (hnamed : t.WellNamed) {m : Nat}
    (hroot : t.lookup root = .ok (home, .directory m))
    (hwanted : FileFilter.ofPatterns included excluded = .ok wanted) (only : Option (List String)) :
    ∃ found : List Relative, discover t root wanted only = found.map (·.foldl join root) ∧
      (discover t root wanted only).Nodup ∧
      (found.Pairwise fun r r' => r.map Glob.bytes < r'.map Glob.bytes) ∧
      ∀ names, names ∈ found ↔ Selected t root home wanted only names ∧
        components root ≠ ["-"] ∧
        ((∃ pattern ∈ excluded, FileFilter.prunesAll pattern = true) → names.length = 1) := by
  refine ⟨_, discover_eq .., nodup_discover hnamed .., ?_, fun names => ?_⟩
  · rw [relativeFiles]
    split
    · exact List.Pairwise.nil
    · rw [hroot]
      exact (pairwise_files ..).filter _
  · rw [List.mem_filter, Bool.and_eq_true, relativeFiles]
    split
    · rename_i hdash
      simp [hdash]
    · rename_i hdash
      rw [hroot]
      simp only [mem_files]
      constructor
      · rintro ⟨⟨names, rfl, hbranch, -, hentered⟩, hmatch, hamong⟩
        obtain ⟨c, m', hget⟩ := hbranch.get?
        have hall : ∀ name ∈ names, IsName name := fun name hname =>
          hnamed.isName hget name (List.mem_append_right _ hname)
        obtain ⟨hgit, hone⟩ := (entered_iff hwanted hall hbranch.ne_nil hmatch).1 hentered
        exact ⟨⟨hbranch, hmatch, hamong, hgit⟩, hdash, hone⟩
      · rintro ⟨⟨hbranch, hmatch, hamong, hgit⟩, -, hone⟩
        obtain ⟨c, m', hget⟩ := hbranch.get?
        have hall : ∀ name ∈ names, IsName name := fun name hname =>
          hnamed.isName hget name (List.mem_append_right _ hname)
        have hlength := length_le_depth hget
        rw [List.length_append] at hlength
        exact ⟨⟨names, rfl, hbranch, by omega,
          (entered_iff hwanted hall hbranch.ne_nil hmatch).2 ⟨hgit, hone⟩⟩, hmatch, hamong⟩

def oneFile (directory file : String) : FileTree :=
  ⟨[([], .directory 0), ([directory], .directory 0), ([directory, file], .file (.text "") 0)],
    [], 0⟩

def allBut (excluded : List String) : FileFilter :=
  (FileFilter.ofPatterns ["**/*"] excluded).toOption.getD ⟨[], [], []⟩

theorem branch_oneFile (directory file : String) : Branch (oneFile directory file) []
    [directory, file] :=
  .directory (m := 0) (by simp [oneFile, FileTree.get?, List.lookup_cons])
    (.file (c := .text "") (m := 0) (by simp [oneFile, FileTree.get?, List.lookup_cons]))

theorem discover_selects_oneFile : ∃ found : List Relative,
    discover (oneFile "a" "x.ts") "." (allBut ["a/b/**"]) none = found.map (·.foldl join ".") ∧
      ["a", "x.ts"] ∈ found := by
  have hnamed : (oneFile "a" "x.ts").WellNamed := by decide +kernel
  have hroot : (oneFile "a" "x.ts").lookup "." = .ok ([], .directory 0) := by decide +kernel
  have hwanted : FileFilter.ofPatterns ["**/*"] ["a/b/**"] = .ok (allBut ["a/b/**"]) := by
    decide +kernel
  obtain ⟨found, hdiscover, -, -, hfound⟩ := discover_selects hnamed hroot hwanted none
  have hselected : Selected (oneFile "a" "x.ts") "." [] (allBut ["a/b/**"]) none ["a", "x.ts"] :=
    ⟨branch_oneFile "a" "x.ts", by decide +kernel, rfl, by decide +kernel⟩
  exact ⟨found, hdiscover, (hfound _).2 ⟨hselected, by decide +kernel, by decide +kernel⟩⟩

/-- A selected file that is not found: the pattern `**//**` excludes no file and leaves out every
directory, and a root of the name `-` is not searched. -/
theorem discover_misses_selected :
    (∃ wanted, FileFilter.ofPatterns ["**/*"] ["**//**"] = .ok wanted ∧
      (oneFile "a" "x.ts").lookup "." = .ok ([], .directory 0) ∧
      Selected (oneFile "a" "x.ts") "." [] wanted none ["a", "x.ts"] ∧
      discover (oneFile "a" "x.ts") "." wanted none = []) ∧
    ∃ wanted, FileFilter.ofPatterns ["**/*"] [] = .ok wanted ∧
      (oneFile "-" "a.ts").lookup "-" = .ok (["-"], .directory 0) ∧
      Selected (oneFile "-" "a.ts") "-" ["-"] wanted none ["a.ts"] ∧
      discover (oneFile "-" "a.ts") "-" wanted none = [] := by
  refine ⟨⟨allBut ["**//**"], by decide +kernel, ?_, ?_, ?_⟩,
    allBut [], by decide +kernel, ?_, ?_, ?_⟩
  · decide +kernel
  · exact ⟨branch_oneFile "a" "x.ts", by decide +kernel, rfl, by decide +kernel⟩
  · have hroot : (oneFile "a" "x.ts").lookup "." = .ok ([], .directory 0) := by decide +kernel
    have hdepth : (oneFile "a" "x.ts").depth = 2 := by decide +kernel
    have hnames : (oneFile "a" "x.ts").names [] = ["a"] :=
      names_of_pairwise (by decide +kernel) (by decide +kernel) (by decide +kernel)
    have hfiles : relativeFiles (oneFile "a" "x.ts") "." (allBut ["**//**"]) = [] := by
      rw [relativeFiles, hroot, if_neg (by decide +kernel)]
      simp only [hdepth]
      rw [files_succ, hnames]
      decide +kernel
    rw [discover_eq, hfiles]
    rfl
  · decide +kernel
  · refine ⟨?_, by decide +kernel, rfl, by decide +kernel⟩
    exact .file (c := .text "") (m := 0) (by decide +kernel)
  · rw [discover_eq, relativeFiles, if_pos (by decide +kernel)]
    rfl

end Found

end Discovery
end RowTypes
