import Mathlib.Data.Finset.Max
import RowTypes.Proofs.AbsolutePaths
import RowTypes.Proofs.PrintedPaths
import RowTypes.Proofs.Pruning

/-! The files that have changed since a revision. Each path of the output of git is joined to the
root as it is read. All reported files are found so if and only if each path is printed as it is,
without blanks at its ends: one that is quoted is only found by way of another that is quoted and
has fewer quotes in it, and one with blanks only by way of another with more of them. -/

namespace RowTypes

namespace Git
open RowTypes.Path Discovery

/-! Which paths can be found -/

theorem count_text {names : Relative} (h : ∀ name ∈ names, IsName name) {c : Char} (hc : c ≠ '/') :
    (letters names).count c = (Relative.text names).toList.count c := by
  rw [← count_segments hc, segments_text h]

section Found

variable {base : String} {reported : List Relative} (hbase : isAbsolute base = true)
  (hnames : ∀ names ∈ reported, ∀ name ∈ names, IsName name)
  (hfound : ∀ names ∈ reported, ∃ names' ∈ reported,
    components (join base (readBack (Relative.text names'))) = components base ++ names)

include hbase hnames hfound

theorem own_of_found {names : Relative} (hmem : names ∈ reported) :
    ∀ c ∈ (Relative.text names).toList, isOwn c = true := by
  generalize hn : (Relative.text names).toList.count '"' = n
  induction n using Nat.strong_induction_on generalizing names with | _ n ih
  intro c hc
  by_contra hown
  obtain ⟨names', hmem', heq⟩ := hfound names hmem
  have hread : c ∈ (readBack (Relative.text names')).toList := by
    have hslash : c ≠ '/' := by rintro rfl; exact hown (by decide)
    have hdot : c ≠ '.' := by rintro rfl; exact hown (by decide)
    have hle := (count_le_of_components hslash hdot hbase heq).1
    rw [count_text (hnames names hmem) hslash] at hle
    exact List.count_pos_iff.1 (lt_of_lt_of_le (List.count_pos_iff.2 hc) hle)
  have hquoted : ¬∀ c ∈ (Relative.text names').toList, isOwn c = true := by
    intro hown'
    rw [toList_readBack_of_own hown'] at hread
    exact hown (hown' c ((Text.trim_infix _).subset hread))
  have htext := toList_readBack_of_not_own hquoted
  have hrelative : isAbsolute (readBack (Relative.text names')) = false := by
    rw [isAbsolute, Bool.eq_false_iff, ne_eq, startsWith_slash, htext, printed_of_not_own hquoted]
    simp
  have hcount := (count_le_of_components (c := '"') (by decide) (by decide) hbase heq).2 hrelative
  rw [count_text (hnames names hmem) (by decide), htext, hn] at hcount
  have hfewer := count_printed_of_not_own hquoted
  exact hquoted (ih _ (by omega) hmem' rfl)

theorem plain_of_found {names : Relative} (hmem : names ∈ reported) :
    Plain (Relative.text names) := by
  have hown {names : Relative} (hmem : names ∈ reported) := own_of_found hbase hnames hfound hmem
  refine ⟨List.all_eq_true.2 (hown hmem), ?_⟩
  by_contra hblank
  let blank := reported.toFinset.filter fun names => ¬Text.Trimmed (Relative.text names).toList
  have hne : blank.Nonempty := ⟨names, by simp [blank, hmem, hblank]⟩
  obtain ⟨most, hmost, hmax⟩ := blank.exists_max_image
    (fun names => (Relative.text names).toList.count ' ') hne
  simp only [blank, Finset.mem_filter, List.mem_toFinset] at hmost hmax
  obtain ⟨names', hmem', heq⟩ := hfound most hmost.1
  by_cases htrimmed : Text.Trimmed (Relative.text names').toList
  · rw [Plain.readBack ⟨List.all_eq_true.2 (hown hmem'), htrimmed⟩,
      components_join_text hbase (hnames names' hmem')] at heq
    exact hmost.2 (List.append_cancel_left heq ▸ htrimmed)
  · have hle := (count_le_of_components (c := ' ') (by decide) (by decide) hbase heq).1
    rw [count_text (hnames most hmost.1) (c := ' ') (by decide),
      toList_readBack_of_own (hown hmem')] at hle
    have hlt := count_trim_lt (hown hmem') htrimmed
    have hmost := hmax names' ⟨hmem', htrimmed⟩
    omega

end Found

/-! The paths that git reports -/

/-- The next answers of git are the files that have changed since a revision, and those that are not
tracked, each by the names that lead to it from the root. -/
structure Reports (g : Git) (revision : String) (changed untracked : List Relative) : Prop where
  diff : ∃ errorOutput, (next ("diff --name-only --relative " ++ revision) g).1 =
    ⟨listing (changed.map Relative.text), errorOutput, 0⟩
  others : ∃ errorOutput, (next "ls-files --others --exclude-standard" g).1 =
    ⟨listing (untracked.map Relative.text), errorOutput, 0⟩
  isPath : ∀ names ∈ changed ++ untracked, names ≠ [] ∧ ∀ name ∈ names, IsName name

variable {t : FileTree} {root revision : String} {g : Git} {changed untracked : List Relative}
  {home : Location} {m : Nat} {names : Relative} {found : List String} {wanted : FileFilter}

theorem next_cons_of_ne {c command : String} (h : c ≠ command) (replies : List Reply) (rest : Git) :
    next command ((c, replies) :: rest) =
      ((next command rest).1, (c, replies) :: (next command rest).2) := by
  simp [next, h]

theorem next_cons_self (command : String) (replies : List Reply) : ∃ reply replies', ∀ rest,
    next command ((command, replies) :: rest) = (reply, (command, replies') :: rest) := by
  match replies with
  | [] => exact ⟨.silent, [], fun rest => by simp [next]⟩
  | [last] => exact ⟨last, [last], fun rest => by simp [next]⟩
  | first :: second :: more => exact ⟨first, second :: more, fun rest => by simp [next]⟩

theorem next_next {command command' : String} (h : command ≠ command') (g : Git) :
    (next command (next command' g).2).1 = (next command g).1 := by
  induction g with
  | nil => rfl
  | cons entry rest ih =>
    obtain ⟨c, replies⟩ := entry
    by_cases hc' : c = command'
    · subst hc'
      obtain ⟨reply, replies', hself⟩ := next_cons_self c replies
      rw [hself, next_cons_of_ne h.symm, next_cons_of_ne h.symm]
    · rw [next_cons_of_ne hc']
      by_cases hc : c = command
      · subst hc
        obtain ⟨reply, replies', hself⟩ := next_cons_self c replies
        rw [hself, hself]
      · rw [next_cons_of_ne hc, next_cons_of_ne hc, ih]

def foundFiles (t : FileTree) (root : String) (reported : List Relative) : List String :=
  ((reported.map fun names => readBack (Relative.text names)).filter (· ≠ "")).map
    (join (t.absolute root))

theorem call_eq {command output errorOutput : String}
    (hroot : t.lookup root = .ok (home, .directory m))
    (hnext : (next command g).1 = ⟨output, errorOutput, 0⟩) :
    call t root command g = (.ok output, (next command g).2) := by
  have hstart : start t root = .ok () := by
    rw [start, hroot]
    rfl
  simp only [call, hstart, hnext, if_true]

theorem changedSince_eq (hroot : t.lookup root = .ok (home, .directory m))
    (hg : Reports g revision changed untracked) :
    ∃ g', changedSince t root revision g =
      (.ok (foundFiles t root (changed ++ untracked)), g') := by
  have hne : "ls-files --others --exclude-standard" ≠
      "diff --name-only --relative " ++ revision := by
    intro heq
    have hhead := congrArg (fun s : String => s.toList.head?) heq
    rw [String.toList_append, List.head?_append_of_ne_nil _ (by decide)] at hhead
    exact absurd hhead (by decide)
  obtain ⟨errorOutput, hdiff⟩ := hg.diff
  obtain ⟨errorOutput', hothers⟩ := hg.others
  rw [← next_next hne] at hothers
  have hlines : lines (listing (changed.map Relative.text)) ++
      lines (listing (untracked.map Relative.text)) =
        ((changed ++ untracked).map fun names => readBack (Relative.text names)).filter
          (· ≠ "") := by
    rw [lines_listing, lines_listing, ← List.filter_append, List.map_map, List.map_map,
      ← List.map_append]
    rfl
  refine ⟨(next "ls-files --others --exclude-standard"
    (next ("diff --name-only --relative " ++ revision) g).2).2, ?_⟩
  simp only [changedSince, call_eq hroot hdiff, call_eq hroot hothers, hlines, foundFiles]

def located (t : FileTree) (root : String) (names : Relative) : List String :=
  components (join (t.absolute root) (Relative.text names))

theorem located_eq (h : ∀ name ∈ names, IsName name) :
    located t root names = components (t.absolute root) ++ names :=
  components_join_text (t.isAbsolute_absolute root) h

theorem text_ne_empty (hne : names ≠ []) (h : ∀ name ∈ names, IsName name) :
    Relative.text names ≠ "" := by
  obtain ⟨before, last, rfl⟩ := (List.eq_nil_or_concat' names).resolve_left hne
  exact joined_ne_empty (h last (by simp)).1

theorem isAmong_foldl_join (h : ∀ name ∈ names, IsName name) :
    isAmong t (some found) (names.foldl join root) = true ↔
      located t root names ∈ found.map components := by
  rw [isAmong, located_eq h, FileTree.components_absolute h, List.any_eq_true, List.mem_map]
  simp

theorem discover_some (t : FileTree) (root : String) (wanted : FileFilter) (found : List String) :
    discover t root wanted (some found) =
      (discover t root wanted none).filter (isAmong t (some found)) := by
  rw [discover_eq, discover_eq, List.filter_map, List.filter_filter]
  refine congrArg _ (List.filter_congr fun relative _ => ?_)
  rw [isAmong.eq_1, Bool.and_true, Bool.and_comm]
  rfl

def isReported (root : String) (reported : List Relative) (path : String) : Bool :=
  path ∈ reported.map (·.foldl join root)

section Reported

variable {reported : List Relative}
  (hpath : ∀ names ∈ reported, names ≠ [] ∧ ∀ name ∈ names, IsName name)

include hpath

theorem isReported_foldl_join (h : ∀ name ∈ names, IsName name) :
    isReported root reported (names.foldl join root) = true ↔ names ∈ reported := by
  rw [isReported, decide_eq_true_iff, List.mem_map]
  refine ⟨fun ⟨names', hmem, heq⟩ => ?_, fun hmem => ⟨names, hmem, rfl⟩⟩
  rwa [← names_of_foldl_join_eq (hpath names' hmem).2 h heq]

theorem located_mem_of_plain (hmem : names ∈ reported) (h : Plain (Relative.text names)) :
    located t root names ∈ (foundFiles t root reported).map components := by
  obtain ⟨hne, hnames⟩ := hpath names hmem
  refine List.mem_map.2 ⟨_, List.mem_map.2 ⟨Relative.text names, ?_, rfl⟩, rfl⟩
  exact List.mem_filter.2 ⟨List.mem_map.2 ⟨names, hmem, h.readBack⟩,
    decide_eq_true (text_ne_empty hne hnames)⟩

theorem mem_found_of_plain (h : ∀ names ∈ reported, Plain (Relative.text names))
    (cs : List String) : cs ∈ (foundFiles t root reported).map components ↔
      cs ∈ reported.map (located t root) := by
  constructor
  · intro hcs
    simp only [foundFiles, List.mem_map, List.mem_filter] at hcs
    obtain ⟨-, ⟨-, ⟨⟨names, hmem, rfl⟩, -⟩, rfl⟩, rfl⟩ := hcs
    rw [(h names hmem).readBack]
    exact List.mem_map_of_mem hmem
  · intro hcs
    obtain ⟨names, hmem, rfl⟩ := List.mem_map.1 hcs
    exact located_mem_of_plain hpath hmem (h names hmem)

theorem plain_of_located_mem
    (h : ∀ names ∈ reported, located t root names ∈ (foundFiles t root reported).map components) :
    ∀ names ∈ reported, Plain (Relative.text names) := by
  have hnames := fun names hmem => (hpath names hmem).2
  refine fun names hmem => plain_of_found (t.isAbsolute_absolute root) hnames ?_ hmem
  intro names hmem
  have hlocated := h names hmem
  rw [located_eq (hnames names hmem)] at hlocated
  simp only [foundFiles, List.mem_map, List.mem_filter] at hlocated
  obtain ⟨-, ⟨-, ⟨⟨names', hmem', rfl⟩, -⟩, rfl⟩, heq⟩ := hlocated
  exact ⟨names', hmem', heq⟩

theorem plain_of_discover
    (hall : ∀ names ∈ reported, names.foldl join root ∈ discover t root wanted none)
    (h : discover t root wanted (some (foundFiles t root reported)) =
      (discover t root wanted none).filter (isReported root reported)) :
    ∀ names ∈ reported, Plain (Relative.text names) := by
  suffices hmem : ∀ names ∈ reported,
      located t root names ∈ (foundFiles t root reported).map components from
    plain_of_located_mem hpath hmem
  intro names hmem
  have hisName := (hpath names hmem).2
  have hfound : names.foldl join root ∈
      discover t root wanted (some (foundFiles t root reported)) := by
    rw [h]
    exact List.mem_filter.2 ⟨hall names hmem, (isReported_foldl_join hpath hisName).2 hmem⟩
  rw [discover_some] at hfound
  exact (isAmong_foldl_join hisName).1 (List.mem_filter.1 hfound).2

theorem discover_of_plain (hnamed : t.WellNamed)
    (hroot : t.lookup root = .ok (home, .directory m))
    (h : ∀ names ∈ reported, Plain (Relative.text names)) (wanted : FileFilter) :
    discover t root wanted (some (foundFiles t root reported)) =
      (discover t root wanted none).filter (isReported root reported) := by
  rw [discover_some]
  refine List.filter_congr fun path hpathmem => ?_
  rcases discover_cases hnamed root wanted none with ⟨⟨l, c, m', hfile⟩, -⟩ | ⟨home', hbelow⟩
  · rw [hroot] at hfile
    cases hfile
  obtain ⟨names, hnames, rfl⟩ := hbelow path hpathmem
  have hisName := hnames.isName
  rw [Bool.eq_iff_iff, isAmong_foldl_join hisName, mem_found_of_plain hpath h,
    isReported_foldl_join hpath hisName, List.mem_map]
  refine ⟨fun ⟨names', hmem, heq⟩ => ?_, fun hmem => ⟨names, hmem, rfl⟩⟩
  rw [located_eq hisName, located_eq (hpath names' hmem).2] at heq
  rwa [← List.append_cancel_left heq]

end Reported

/-- The files that have changed are exactly those that git reports, each joined to the root, if and
only if each path is printed as it is and has no blanks at its ends. The files whose paths are like
that are among them in any case. If all are like that, exactly the reported files of a run are left;
and if all reported files are files of the run, only then. -/
theorem changedSince_exact_iff (hnamed : t.WellNamed)
    (hroot : t.lookup root = .ok (home, .directory m)) (hg : Reports g revision changed untracked) :
    ∃ found g', changedSince t root revision g = (.ok found, g') ∧
      ((∀ cs, cs ∈ found.map components ↔ cs ∈ (changed ++ untracked).map (located t root)) ↔
        ∀ names ∈ changed ++ untracked, Plain (Relative.text names)) ∧
      (∀ names ∈ changed ++ untracked, Plain (Relative.text names) →
        located t root names ∈ found.map components) ∧
      ((∀ names ∈ changed ++ untracked, Plain (Relative.text names)) → ∀ wanted,
        discover t root wanted (some found) =
          (discover t root wanted none).filter (isReported root (changed ++ untracked))) ∧
      ∀ wanted, (∀ names ∈ changed ++ untracked,
          names.foldl join root ∈ discover t root wanted none) →
        discover t root wanted (some found) =
          (discover t root wanted none).filter (isReported root (changed ++ untracked)) →
        ∀ names ∈ changed ++ untracked, Plain (Relative.text names) := by
  obtain ⟨g', hfound⟩ := changedSince_eq hroot hg
  refine ⟨_, g', hfound, ⟨fun h => ?_, fun h cs => mem_found_of_plain hg.isPath h cs⟩,
    fun names hmem h => located_mem_of_plain hg.isPath hmem h,
    fun h wanted => discover_of_plain hg.isPath hnamed hroot h wanted,
    fun wanted hall h => plain_of_discover hg.isPath hall h⟩
  exact plain_of_located_mem hg.isPath fun names hmem => (h _).2 (List.mem_map_of_mem hmem)

def gitOf (output : String) : Git := [("ls-files --others --exclude-standard", [⟨output, "", 0⟩])]

theorem changedSince_exact_oneFile :
    (oneFile "src" "a.ts").WellNamed ∧
      (oneFile "src" "a.ts").lookup "src" = .ok (["src"], .directory 0) ∧
      Reports (gitOf "a.ts\n") "main" [] [["a.ts"]] ∧
      ∃ found g', changedSince (oneFile "src" "a.ts") "src" "main" (gitOf "a.ts\n") =
          (.ok found, g') ∧
        located (oneFile "src" "a.ts") "src" ["a.ts"] ∈ found.map components := by
  have hnamed : (oneFile "src" "a.ts").WellNamed := by decide +kernel
  have hroot : (oneFile "src" "a.ts").lookup "src" = .ok (["src"], .directory 0) := by
    decide +kernel
  have hg : Reports (gitOf "a.ts\n") "main" [] [["a.ts"]] :=
    ⟨⟨"", by decide +kernel⟩, ⟨"", by decide +kernel⟩, by decide +kernel⟩
  obtain ⟨found, g', heq, -, hplain, -⟩ := changedSince_exact_iff hnamed hroot hg
  exact ⟨hnamed, hroot, hg, found, g', heq, hplain ["a.ts"] (by simp) (by decide +kernel)⟩

/-- The file is one of the run and is reported, but it is not among the files that have changed, and
the run leaves it out. -/
def IsMissed (file output : String) : Prop :=
  Reports (gitOf output) "main" [] [[file]] ∧
    ∃ found g', changedSince (oneFile "src" file) "src" "main" (gitOf output) = (.ok found, g') ∧
      located (oneFile "src" file) "src" [file] ∉ found.map components ∧
      discover (oneFile "src" file) "src" (allBut []) none = [join "src" file] ∧
      discover (oneFile "src" file) "src" (allBut []) (some found) = []

section OneFile

variable {file output : String}
  (hroot : (oneFile "src" file).lookup "src" = .ok (["src"], .directory 0))
  (hmatch : (allBut []).isMatch (Relative.text [file]) = true)

include hroot hmatch

theorem discover_oneFile_eq (only : Option (List String)) :
    discover (oneFile "src" file) "src" (allBut []) only =
      if isAmong (oneFile "src" file) only (join "src" file) then [join "src" file] else [] := by
  have hnames : (oneFile "src" file).names ["src"] = [file] :=
    names_of_pairwise (by simp [oneFile]) (List.pairwise_singleton ..) rfl
  have hget : (oneFile "src" file).get? ["src", file] = some (.file (.text "") 0) := by
    simp [oneFile, FileTree.get?, List.lookup_cons]
  have hdepth : (oneFile "src" file).depth = 2 := rfl
  have hfiles : relativeFiles (oneFile "src" file) "src" (allBut []) = [[file]] := by
    rw [relativeFiles, hroot, if_neg (by decide +kernel)]
    simp [hdepth, files_succ, hnames, filesAt, hget]
  rw [discover_eq, hfiles]
  simp only [List.filter_cons, List.filter_nil, hmatch, Bool.true_and, List.foldl_cons,
    List.foldl_nil]
  split <;> rfl

theorem isMissed_of_not_mem (hg : Reports (gitOf output) "main" [] [[file]])
    (h : located (oneFile "src" file) "src" [file] ∉
      (foundFiles (oneFile "src" file) "src" [[file]]).map components) : IsMissed file output := by
  obtain ⟨g', hfound⟩ := changedSince_eq hroot hg
  have hname : ∀ name ∈ [file], IsName name := (hg.isPath [file] (by simp)).2
  refine ⟨hg, _, g', hfound, h, ?_, ?_⟩
  · rw [discover_oneFile_eq hroot hmatch]
    rfl
  · rw [discover_oneFile_eq hroot hmatch, if_neg]
    exact fun hamong => h ((isAmong_foldl_join hname).1 hamong)

end OneFile

/-- The path of one file is quoted, and that of the other begins with a blank. -/
theorem changedSince_misses_files :
    IsMissed "é.ts" "\"\\303\\251.ts\"\n" ∧ IsMissed " a.ts" " a.ts\n" := by
  constructor <;> refine isMissed_of_not_mem (by decide +kernel) (by decide +kernel) ?_ ?_
  · exact ⟨⟨"", by decide +kernel⟩, ⟨"", by decide +kernel⟩, by decide +kernel⟩
  · decide +kernel
  · exact ⟨⟨"", by decide +kernel⟩, ⟨"", by decide +kernel⟩, by decide +kernel⟩
  · decide +kernel

end Git

end RowTypes
