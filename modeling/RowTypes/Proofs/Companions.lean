import RowTypes.Proofs.Installing
import RowTypes.Proofs.PathText

/-! Where the companion of a `.sql` file goes. The file's own directory is there, so that at most
the directory of the companion has to be made. -/

namespace RowTypes

namespace FileTree

variable {t t' : FileTree}

def Dangling (t : FileTree) (path : String) : Prop :=
  t.lookup path = .error .notFound ∧ ∃ l e, t.resolve false path = .ok (.entry l e)

def HasFile (t : FileTree) (path : String) : Prop := ∃ l c m, t.lookup path = .ok (l, .file c m)

theorem Grows.hasFile (h : Grows t t') {path : String} (hfile : t.HasFile path) :
    t'.HasFile path := by
  obtain ⟨l, c, m, hlookup⟩ := hfile
  obtain ⟨e', hlookup', -, hbecomes⟩ := h.lookup hlookup
  obtain ⟨c', m', rfl⟩ := hbecomes.file
  exact ⟨l, c', m', hlookup'⟩

theorem hasFile_of_read {path text : String} (h : t.read path = .ok text) : t.HasFile path := by
  obtain ⟨l, m, hlookup⟩ := exists_of_read h
  exact ⟨l, _, m, hlookup⟩

theorem HasFile.exists_joined {path : String} (h : t.HasFile path) : ∃ us x,
    path = Path.joined (us ++ [x]) ∧ Path.Slashless (us ++ [x]) ∧ x ≠ "" ∧ x ≠ "." := by
  obtain ⟨l, c, m, hlookup⟩ := h
  rw [lookup_eq_ok, resolve] at hlookup
  split at hlookup
  · cases hlookup
  rename_i hpath
  have hsteps : ∀ names, steps path ≠ names ++ ["."] := by
    intro names hnames
    rw [hnames] at hlookup
    obtain ⟨⟨m, hm⟩, -⟩ := walk_concat_dot.1 hlookup
    cases hm
  obtain ⟨all, hne, hslashless, rfl⟩ := Path.exists_joined path
  obtain ⟨us, x, rfl⟩ := (List.eq_nil_or_concat' all).resolve_left hne
  refine ⟨us, x, rfl, hslashless, ?_, ?_⟩
  · rintro rfl
    have hus : us ≠ [] := by
      rintro rfl
      exact hpath rfl
    have hends : (Path.joined (us ++ [""])).endsWith "/" = true := by
      rw [Path.endsWith_slash, Path.joined_append hus (by simp)]
      simp
    exact hsteps _ (by rw [steps, if_pos hends])
  · rintro rfl
    exact hsteps _ (steps_joined hslashless (by decide))

end FileTree

namespace Companion
open RowTypes.Path FileTree FileWrite.Target

structure Beside (path companion dir name : String) : Prop where
  lineage_eq : ∃ above, lineage (directoryPath companion) = dir :: above
  fileName?_eq : fileName? companion = some name
  name_ne : name ≠ "." ∧ name ≠ ".." ∧ name ≠ directory
  walk : ∀ t : FileTree, t.HasFile path → ∃ left d m, t.get? d = some (.directory m) ∧
    ∀ follow, t.resolve follow companion = t.walk follow left d [directory, name] ∧
      t.resolve follow (directoryPath companion) = t.walk follow left d [directory] ∧
      t.resolve follow dir = t.walk follow left d [directory]
  place_eq : ∀ t : FileTree, t.HasFile path → ∀ here m,
    t.lookup (directoryPath companion) = .ok (here, .directory m) →
    t.place companion = .ok (here ++ [name])

theorem directoryPath_joined {us : List String} {x y : String} (h : Slashless (us ++ [x] ++ [y]))
    (hx : x ≠ "") (hdot : x ≠ ".") (hy : y ≠ "") (hy' : y ≠ ".") :
    directoryPath (joined (us ++ [x] ++ [y])) = joined (us ++ [x]) := by
  have hparent : parent? (joined (us ++ [x] ++ [y])) = some (joined (us ++ [x])) := by
    rw [parent?_joined h hy hy', trimSegments_append hx hdot]
    split
    · rename_i hroot
      have := congrArg List.getLast? hroot
      rw [List.getLast?_concat] at this
      exact absurd (Option.some.inj this) hx
    · rfl
  rw [directoryPath, hparent]
  split
  · rename_i hempty
    exact nomatch hempty
  · rename_i hempty
    exact absurd (Option.some.inj hempty) (joined_ne_empty hx)
  · rename_i hdir
    exact (Option.some.inj hdir).symm

theorem walk_trimSegments {t : FileTree} {us : List String} {x : String}
    (h : Slashless (us ++ [x])) (hx : x ≠ "") (hfile : t.HasFile (joined (us ++ [x]))) :
    ∃ d m, t.walk true maxLinks (t.startOf us) ((trimSegments us).filter (· ≠ "")) =
      .ok (.entry d (.directory m)) := by
  obtain ⟨l, c, m, hlookup⟩ := hfile
  rw [lookup_eq_ok, resolve_joined h hx] at hlookup
  obtain ⟨d, m, hwalk⟩ := walk_prefix hlookup
  obtain ⟨zs, hzs, hall⟩ := exists_trimSegments us
  have hsplit : us.filter (· ≠ "") =
      (trimSegments us).filter (· ≠ "") ++ zs.filter (· ≠ "") := by
    rw [← List.filter_append, ← hzs]
  have hnil : (zs.filter (· ≠ "")).filter (· ≠ ".") = [] := by
    rw [List.filter_filter, List.filter_eq_nil_iff]
    intro z hz
    rcases hall z hz with rfl | rfl <;> simp
  rw [hsplit] at hwalk
  have hfilter := walk_filter hwalk (by simp : ¬([] = [] ∧ true = false))
  rw [hnil, List.append_nil, List.append_nil, List.append_nil, hwalk] at hfilter
  exact ⟨d, m, hfilter⟩

theorem exists_beside {t : FileTree} {path companion : String} (hfile : t.HasFile path)
    (hpath : path? path = some companion) : ∃ dir name, Beside path companion dir name := by
  obtain ⟨us, n, rfl, h, hn, hdot⟩ := hfile.exists_joined
  have hup : n ≠ ".." := by
    rintro rfl
    rw [path?, fileName?_joined h hn hdot, if_pos rfl] at hpath
    cases hparent : parent? (joined (us ++ [".."])) <;> rw [hparent] at hpath <;> cases hpath
  rw [path?_joined h hn hdot hup] at hpath
  obtain rfl := Option.some.inj hpath
  have hcompanion := slashless_companion h
  have hdirectory := hcompanion.left
  have hne : directory ≠ "" := by decide
  have hname : n ++ ".ts" ≠ "" := name_ne n (by decide)
  have hnamedot : n ++ ".ts" ≠ "." := name_ne n (by decide)
  have hnameup : n ++ ".ts" ≠ ".." := name_ne n (by decide)
  obtain ⟨ws, above, hlineage, hws, hstart, before, names, hnames, hfilter⟩ :=
    lineage_joined hdirectory hne (by decide)
  have hparent := directoryPath_joined hcompanion hne (by decide) hname hnamedot
  have hsegments : (trimSegments us ++ [directory]).filter (· ≠ "") =
      (trimSegments us).filter (· ≠ "") ++ [directory] := by
    rw [List.filter_append, List.filter_cons_of_pos (by simpa using hne), List.filter_nil]
  refine ⟨joined (ws ++ [directory]), n ++ ".ts", ⟨above, by rw [hparent, hlineage]⟩, ?_,
    ⟨hnamedot, hnameup, name_ne n (by decide)⟩, fun t hfile => ?_,
    fun t hfile here m hlookup => ?_⟩
  · rw [fileName?_joined hcompanion hname hnamedot, if_neg hnameup]
  · obtain ⟨d, m, hwalk⟩ := walk_trimSegments h hn hfile
    obtain ⟨left, hleft⟩ := walk_append hwalk
    refine ⟨left, d, m, walk_get? hwalk, fun follow => ⟨?_, ?_, ?_⟩⟩
    · rw [resolve_joined hcompanion hname, startOf_append t _ hne, startOf_trimSegments, hsegments,
        List.append_assoc, List.singleton_append, hleft]
    · rw [hparent, resolve_joined hdirectory hne, startOf_trimSegments, hleft]
    · rw [hnames] at hwalk hleft
      rw [resolve_joined hws hne, hstart, startOf_trimSegments, hfilter,
        walk_filter hwalk (by simp), hleft]
  · rw [hparent, lookup_eq_ok, resolve_joined hdirectory hne] at hlookup
    refine place_joined hcompanion hname t hnamedot hnameup (m := m) ?_
    rw [startOf_append t _ hne, hsegments]
    exact hlookup

end Companion

namespace FileTree
open FileWrite FileWrite.Target Companion

/-- The directory of a path is at a place, or can be made there. -/
def Home (t : FileTree) (path : String) (home : Location) : Prop :=
  (∃ m, t.lookup (directoryPath path) = .ok (home, .directory m)) ∨
    ∀ follow, t.resolve follow (directoryPath path) = .ok (.free home)

variable {path companion dir name : String} {home : Location} {t t' : FileTree}

theorem lookup_of_free {l : Location} (h : t.resolve true path = .ok (.free l)) :
    t.lookup path = .error .notFound := by
  rw [lookup, h]

theorem Home.grows (hgrows : Grows t t') (h : t.Home path home)
    (hhome : t'.get? home = none ∨ t'.isDirectoryAt home = true) : t'.Home path home := by
  rcases h with ⟨m, hlookup⟩ | hfree
  · obtain ⟨e', hlookup', -, hbecomes⟩ := hgrows.lookup hlookup
    rw [hbecomes.directory] at hlookup'
    exact .inl ⟨m, hlookup'⟩
  · rcases hhome with hnone | hdir
    · refine .inr fun follow => ?_
      rw [hgrows.resolve_free (hfree follow) (by rw [hnone]; exact nofun), found_of_none hnone]
    · obtain ⟨m, hm⟩ := isDirectoryAt_eq_true.1 hdir
      refine .inl ⟨m, ?_⟩
      rw [lookup_eq_ok, hgrows.resolve_free (hfree true) (by rw [hm]; exact nofun),
        found_of_some hm]

section Beside

variable (b : Beside path companion dir name) (hfile : t.HasFile path)

include b hfile

theorem resolve_first (follow : Bool) :
    t.resolve follow dir = t.resolve follow (directoryPath companion) := by
  obtain ⟨left, d, m, hd, hresolve⟩ := b.walk t hfile
  rw [(hresolve follow).2.2, (hresolve follow).2.1]

theorem isDirectory_first : t.isDirectory dir = t.isDirectory (directoryPath companion) := by
  rw [isDirectory, isDirectory, lookup, lookup, resolve_first b hfile]

theorem exists_of_directory {m : Nat}
    (hdir : t.lookup (directoryPath companion) = .ok (home, .directory m)) :
    ∃ l e, t.resolve false dir = .ok (.entry l e) := by
  obtain ⟨left, d, m', hd, hresolve⟩ := b.walk t hfile
  have hd := isDirectoryAt_eq_true.2 ⟨m', hd⟩
  rw [(hresolve false).2.2, walk_last hd (by decide) (by decide)]
  cases hget : t.get? (d ++ [directory]) with
  | some e => exact ⟨_, e, by rw [found_of_some hget]⟩
  | none =>
    rw [lookup_eq_ok, (hresolve true).2.1, walk_none hd (by decide) (by decide) hget,
      if_pos rfl] at hdir
    exact nomatch Except.ok.inj hdir

theorem exists_walk_on {e : Entry} (hlookup : t.lookup (directoryPath companion) = .ok (home, e)) :
    ∃ left, ∀ follow, t.resolve follow companion = t.walk follow left home [name] := by
  obtain ⟨left, d, m', hd, hresolve⟩ := b.walk t hfile
  rw [lookup_eq_ok, (hresolve true).2.1] at hlookup
  obtain ⟨left', hleft⟩ := walk_append hlookup
  refine ⟨left', fun follow => ?_⟩
  rw [(hresolve follow).1, ← hleft]
  rfl

theorem exists_of_free_home
    (hfree : t.resolve false (directoryPath companion) = .ok (.free home)) :
    ∃ d, home = d ++ [directory] ∧ t.get? home = none ∧
      t.resolve true companion = .error .notFound := by
  obtain ⟨left, d, m, hd, hresolve⟩ := b.walk t hfile
  have hdir := isDirectoryAt_eq_true.2 ⟨m, hd⟩
  rw [(hresolve false).2.1, walk_last hdir (by decide) (by decide)] at hfree
  obtain ⟨rfl, hnone⟩ := of_found_eq_free (Except.ok.inj hfree)
  refine ⟨d, rfl, hnone, ?_⟩
  rw [(hresolve true).1, walk_none hdir (by decide) (by decide) hnone, if_neg (by simp)]

theorem lookup_missing (hhome : t.Home companion home) (hmissing : t.get? (home ++ [name]) = none) :
    t.lookup companion = .error .notFound := by
  rcases hhome with ⟨m, hdir⟩ | hfree
  · obtain ⟨left, hleft⟩ := exists_walk_on b hfile hdir
    have hhome := isDirectoryAt_eq_true.2 ⟨m, get?_of_lookup hdir⟩
    refine lookup_of_free (l := home ++ [name]) ?_
    rw [hleft, walk_none hhome b.name_ne.1 b.name_ne.2.1 hmissing, if_pos rfl]
  · obtain ⟨d, -, -, hresolve⟩ := exists_of_free_home b hfile (hfree false)
    rw [lookup, hresolve]

theorem home_of_missing (hclosed : t.Closed) (hmissing : t.lookup companion = .error .notFound)
    (hcompanion : ¬t.Dangling companion) (hdirectory : ¬t.Dangling (directoryPath companion)) :
    ∃ home, t.Home companion home ∧ t.get? (home ++ [name]) = none := by
  obtain ⟨left, d, m, hd, hresolve⟩ := b.walk t hfile
  have hdir := isDirectoryAt_eq_true.2 ⟨m, hd⟩
  cases hget : t.get? (d ++ [directory]) with
  | none =>
    refine ⟨d ++ [directory], .inr fun follow => ?_, ?_⟩
    · rw [(hresolve follow).2.1, walk_none hdir (by decide) (by decide) hget, if_pos rfl]
    · by_contra hbelow
      have := hclosed.dropLast hbelow
      rw [List.dropLast_concat] at this
      exact this hget
  | some e =>
    have hentry : t.resolve false (directoryPath companion) =
        .ok (.entry (d ++ [directory]) e) := by
      rw [(hresolve false).2.1, walk_last hdir (by decide) (by decide), found_of_some hget]
    cases hlookup : t.lookup (directoryPath companion) with
    | ok found =>
      obtain ⟨home, e'⟩ := found
      obtain ⟨left', hleft⟩ := exists_walk_on b hfile hlookup
      by_cases hhome : t.isDirectoryAt home = true
      · obtain ⟨m', hm'⟩ := isDirectoryAt_eq_true.1 hhome
        rw [get?_of_lookup hlookup] at hm'
        obtain rfl := Option.some.inj hm'
        refine ⟨home, .inl ⟨m', hlookup⟩, ?_⟩
        by_contra hthere
        obtain ⟨e', he'⟩ := Option.ne_none_iff_exists'.1 hthere
        refine hcompanion ⟨hmissing, home ++ [name], e', ?_⟩
        rw [hleft, walk_last hhome b.name_ne.1 b.name_ne.2.1, found_of_some he']
      · rw [lookup, hleft, walk_of_not_isDirectoryAt (by simpa using hhome)] at hmissing
        cases hmissing
    | error error =>
      have hother : error ≠ .notFound := by
        rintro rfl
        exact hdirectory ⟨hlookup, _, _, hentry⟩
      have herror := resolve_of_lookup_error hlookup hother
      rw [(hresolve true).2.1] at herror
      have := walk_append_error herror hother true name []
      rw [lookup, (hresolve true).1, ← List.singleton_append, this] at hmissing
      exact absurd (Except.error.inj hmissing) hother

end Beside

end FileTree

namespace FileWrite
open FileTree Companion Target

/-! Making the directory of a companion -/

section MakeDirectories

variable {faults : Faults} {path companion dir name : String} {home : Location} {t : FileTree}

theorem run_unlessDirectory (path : String) (e : FileError) :
    (unlessDirectory path e).run t = if t.isDirectory path then (.ok (), t) else (.error e, t) := rfl

theorem run_makeDirectories (dir : String) (above : List String)
    (hother : faults.call (.createDirectory dir) (t.makeDirectory dir) ≠ .error .notFound) :
    (makeDirectories faults (dir :: above)).run t =
      match faults.call (.createDirectory dir) (t.makeDirectory dir) with
      | .ok t' => (.ok (), t')
      | .error e => if t.isDirectory dir then (.ok (), t) else (.error e, t) := by
  simp only [makeDirectories, makeDirectory, run_tryCatch, run_change]
  cases hcall : faults.call (.createDirectory dir) (t.makeDirectory dir) with
  | ok t' => rfl
  | error e =>
    have he : e ≠ .notFound := fun h => hother (h ▸ hcall)
    simp only [if_neg he, run_unlessDirectory]

variable (b : Beside path companion dir name) (hfile : t.HasFile path)
  (hcreate : faults (.createDirectory dir) ≠ some .notFound)
  (hdirectories : faults .createDirectories = none)

include b hfile hcreate hdirectories

theorem makeDirectories_there {m : Nat}
    (hdir : t.lookup (directoryPath companion) = .ok (home, .directory m)) :
    ((Target.new companion).makeDirectories faults).run t = (.ok (), t) := by
  obtain ⟨above, habove⟩ := b.lineage_eq
  obtain ⟨l, e, hentry⟩ := exists_of_directory b hfile hdir
  have hexists : t.makeDirectory dir = .error .alreadyExists := by
    rw [FileTree.makeDirectory, hentry]
  have hisDirectory : t.isDirectory dir = true := by
    rw [isDirectory_first b hfile, isDirectory, hdir]
  obtain ⟨e, he, hother⟩ : ∃ e, faults.call (.createDirectory dir) (t.makeDirectory dir) = .error e ∧
      e ≠ .notFound := by
    rw [Faults.call, hexists]
    cases hfault : faults (.createDirectory dir) with
    | none => exact ⟨_, rfl, by decide⟩
    | some e => exact ⟨e, rfl, fun h => hcreate (h ▸ hfault)⟩
  rw [run_makeDirectories_target, hdirectories]
  simp only [habove]
  rw [run_makeDirectories dir above (by rw [he]; exact fun h => hother (Except.error.inj h)), he]
  simp only [hisDirectory, if_true]

theorem makeDirectories_free
    (hfree : ∀ follow, t.resolve follow (directoryPath companion) = .ok (.free home)) :
    ((Target.new companion).makeDirectories faults).run t =
      match faults (.createDirectory dir) with
      | none => (.ok (), t.set home (.directory t.newDirectoryMode))
      | some e => (.error e, t) := by
  obtain ⟨above, habove⟩ := b.lineage_eq
  have hmake : t.makeDirectory dir = .ok (t.set home (.directory t.newDirectoryMode)) := by
    rw [FileTree.makeDirectory, resolve_first b hfile, hfree]
  have hisDirectory : t.isDirectory dir = false := by
    rw [isDirectory_first b hfile, isDirectory, lookup_of_free (hfree true)]
  have hother : faults.call (.createDirectory dir) (t.makeDirectory dir) ≠ .error .notFound := by
    rw [Faults.call, hmake]
    cases hfault : faults (.createDirectory dir) with
    | none => exact fun h => by cases h
    | some e => exact fun h => hcreate (Except.error.inj h ▸ hfault)
  rw [run_makeDirectories_target, hdirectories]
  simp only [habove]
  rw [run_makeDirectories dir above hother, Faults.call, hmake]
  cases faults (.createDirectory dir) with
  | none => rfl
  | some e => simp only [hisDirectory, Bool.false_eq_true, if_false]

end MakeDirectories

theorem leads_new {path companion dir name : String} {home : Location} {t : FileTree} {m : Nat}
    (b : Beside path companion dir name) (hfile : t.HasFile path)
    (hdir : t.lookup (directoryPath companion) = .ok (home, .directory m))
    (hmissing : t.get? (home ++ [name]) = none) :
    (Target.new companion).Leads t (home ++ [name]) (home ++ [t.unusedName]) where
  temporary_eq := by
    simp only [Target.temporary, hdir]
    rfl
  isFree := get?_unusedName t home
  place_eq t' hgrows := by
    obtain ⟨e', hlookup, -, hbecomes⟩ := hgrows.lookup hdir
    rw [hbecomes.directory] at hlookup
    exact b.place_eq t' (hgrows.hasFile hfile) home m hlookup
  notDirectory := by rw [isDirectoryAt, hmissing]

end FileWrite

end RowTypes
