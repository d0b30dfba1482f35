import RowTypes.Proofs.Overwriting

/-! A write is all or nothing, whichever of its calls fail. If it does not go through then nothing
that was there has changed and no temporary file is left. If it goes through then its path leads to
the text, unless there is a link at the place of the target which was found to lead nowhere: such a
link is replaced. -/

namespace RowTypes

namespace FileTree

variable {t t' : FileTree} {l : Location}

def fileMode? (t : FileTree) (l : Location) : Option Nat :=
  match t.get? l with
  | some (.file _ mode) => some mode
  | _ => none

theorem get?_cases (hdirectory : t.isDirectoryAt l = false)
    (hlink : ∀ target, t.get? l ≠ some (.link target)) :
    t.get? l = none ∨ ∃ c m, t.get? l = some (.file c m) := by
  cases hget : t.get? l with
  | none => exact .inl rfl
  | some e =>
    cases e with
    | file c m => exact .inr ⟨c, m, rfl⟩
    | directory m =>
      rw [isDirectoryAt_eq_true.2 ⟨m, hget⟩] at hdirectory
      cases hdirectory
    | link target => exact absurd hget (hlink target)

theorem Adds.ne_link {paths : List String} (h : Adds paths t t')
    (hlink : ∀ target, t.get? l ≠ some (.link target)) (target : String) :
    t'.get? l ≠ some (.link target) := fun hl => hlink target (h.link l target hl)

theorem Adds.fileMode?_eq {paths : List String} (h : Adds paths t t') :
    t'.fileMode? l = t.fileMode? l := by
  rw [fileMode?, fileMode?]
  cases hget : t.get? l with
  | some e => rw [h.entry l e hget]
  | none =>
    cases hget' : t'.get? l with
    | none => rfl
    | some e => rw [(h.made l e hget hget').1]

theorem lookup_of_set {path : String} {c : Content} {m : Nat}
    (hresolve : t.resolve true path = .ok (t.found l)) (hdirectory : t.isDirectoryAt l = false)
    (hlink : ∀ target, t.get? l ≠ some (.link target)) (hsame : Same (t.set l (.file c m)) t') :
    t'.lookup path = .ok (l, .file c m) := by
  have hset : (t.set l (.file c m)).get? l = some (.file c m) := get?_set_self ..
  rw [hsame.lookup]
  rcases get?_cases hdirectory hlink with hnone | ⟨c', m', hfile⟩
  · rw [found_of_none hnone] at hresolve
    rw [lookup_eq_ok, (grows_set_of_none hnone _).resolve_free hresolve (by rw [hset]; exact nofun),
      found_of_some hset]
  · rw [found_of_some hfile, ← lookup_eq_ok] at hresolve
    obtain ⟨e, hlookup, hget, -⟩ := (grows_set_file hfile c m).lookup hresolve
    rw [hlookup, Option.some.inj (hget.symm.trans hset)]

end FileTree

namespace FileWrite
open FileTree Target

variable {faults : Faults} {w : FileWrite} {found : Option (Location × Entry)} {t t₁ t' : FileTree}
  {l : Location} {mode : Nat}

/-- The text has been put at a location that is no directory, with directories made above the
target of the write where they were missing. Nothing else has changed. -/
def Puts (w : FileWrite) (t t' : FileTree) (l : Location) (mode : Nat) : Prop :=
  ∃ t₁, Adds (lineage (directoryPath w.path)) t t₁ ∧ t₁.isDirectoryAt l = false ∧
    Same (t₁.set l (.file (.text w.content) mode)) t'

theorem resolve_target (hadds : Adds (lineage (directoryPath w.path)) t t₁)
    (hfound : optional (faults.call .canonicalize (t.lookup w.path)) = .ok found)
    (hplace : (Target.of w.path found).place t₁ = .ok l)
    (hlink : ∀ target, t.get? l ≠ some (.link target)) :
    t₁.resolve true w.path = .ok (t₁.found l) := by
  rcases place_cases hfound hplace with ⟨e, hlookup⟩ | ⟨-, hplace⟩
  · obtain ⟨e', hlookup', hget, -⟩ := hadds.grows.lookup hlookup
    rw [lookup_eq_ok.1 hlookup', found_of_some hget]
  · exact resolve_of_place hplace (hadds.ne_link hlink)

theorem optional_mode_target (hplace : (Target.of w.path found).place t₁ = .ok l)
    (hresolve : t₁.resolve true w.path = .ok (t₁.found l)) (hdirectory : t₁.isDirectoryAt l = false)
    (hlink : ∀ target, t₁.get? l ≠ some (.link target)) :
    optional ((Target.of w.path found).mode t₁) = .ok (t₁.fileMode? l) := by
  cases found with
  | some there =>
    obtain rfl := Except.ok.inj hplace
    rcases get?_cases hdirectory hlink with hget | ⟨c, m, hget⟩ <;>
      simp only [Target.of, Target.mode, fileMode?, hget, optional]
  | none =>
    rcases get?_cases hdirectory hlink with hget | ⟨c, m, hget⟩
    · have hlookup : t₁.lookup w.path = .error .notFound := by
        rw [FileTree.lookup, hresolve, found_of_none hget]
      simp only [Target.of, Target.mode, FileTree.mode, hlookup, fileMode?, hget, optional, bind,
        Except.bind]
    · have hlookup : t₁.lookup w.path = .ok (l, .file c m) := by
        rw [lookup_eq_ok, hresolve, found_of_some hget]
      simp only [Target.of, Target.mode, FileTree.mode, hlookup, fileMode?, hget, optional, bind,
        Except.bind, pure, Except.pure]

theorem optional_call_eq {α : Type} {c : Call} {r : Except FileError α} {x : Option α}
    (h : optional (faults.call c r) = .ok x) :
    if faults c = some .notFound then x = none else optional r = .ok x := by
  rw [Faults.call] at h
  cases hfault : faults c with
  | none =>
    rw [hfault] at h
    exact h
  | some e =>
    rw [hfault] at h
    cases e with
    | notFound => exact (Except.ok.inj h).symm
    | _ => cases h

theorem lookup_of_found_none (hfound : optional (faults.call .canonicalize (t.lookup w.path)) =
    .ok none) : faults .canonicalize = some .notFound ∨ t.lookup w.path = .error .notFound := by
  have hcall := optional_call_eq hfound
  split at hcall
  · left; assumption
  · right
    cases hlookup : t.lookup w.path with
    | ok there =>
      rw [hlookup] at hcall
      cases hcall
    | error e =>
      rw [hlookup] at hcall
      cases e with
      | notFound => rfl
      | _ => cases hcall

theorem settled?_eq_some {r : Except WriteError WriteOutcome}
    (h : settled? w (current faults w t) = some r) :
    ((∃ path, r = .error (.conflict path)) ↔
      ∃ now, current faults w t = .ok now ∧ now ≠ w.expected) ∧
    (r = .ok .unchanged → t.read w.path = .ok w.content) ∧ r ≠ .ok .written := by
  refine ⟨?_, ?_, fun hr => settled?_ne_written _ (hr ▸ h)⟩
  · cases hcurrent : current faults w t with
    | error e =>
      rw [hcurrent] at h
      obtain rfl := Option.some.inj h
      constructor
      · rintro ⟨_, hr⟩
        cases hr
      · rintro ⟨_, hnow, -⟩
        cases hnow
    | ok now =>
      rw [hcurrent, settled?] at h
      split at h
      · rename_i hne
        exact ⟨fun _ => ⟨now, rfl, hne⟩, fun _ => ⟨w.path, (Option.some.inj h).symm⟩⟩
      · rename_i heq
        split at h
        · obtain rfl := Option.some.inj h
          constructor
          · rintro ⟨_, hr⟩
            cases hr
          · rintro ⟨_, hnow, hne⟩
            exact absurd (Except.ok.inj hnow ▸ hne) heq
        · cases h
  · rintro rfl
    cases hcurrent : current faults w t with
    | error e =>
      rw [hcurrent] at h
      cases h
    | ok now =>
      rw [hcurrent, settled?] at h
      split at h
      · cases h
      · split at h
        · rename_i hcontent
          exact of_optional_call (hcontent ▸ hcurrent)
        · cases h

/-- A write either leaves all that was there, with at most some directories more, or it puts its
text in one place, with the mode of the file that was there or that of new files. The path leads to
the text unless a link that leads nowhere has been replaced by it. -/
theorem perform_all_or_nothing (faults : Faults) (w : FileWrite) (hclosed : t.Closed) :
    ∃ r t', (perform faults w).run t = (r, t') ∧
      (r ≠ .ok .written → Adds (lineage (directoryPath w.path)) t t') ∧
      ((∃ path, r = .error (.conflict path)) ↔
        ∃ now, current faults w t = .ok now ∧ now ≠ w.expected) ∧
      (r = .ok .unchanged → t.read w.path = .ok w.content ∧ t' = t) ∧
      (r = .ok .written → ∃ l mode, Puts w t t' l mode ∧
        ((∀ target, t.get? l ≠ some (.link target)) →
          t'.lookup w.path = .ok (l, .file (.text w.content) mode) ∧
          mode = if faults .stat = some .notFound then t.newFileMode
            else (t.fileMode? l).getD t.newFileMode) ∧
        ((∃ target, t.get? l = some (.link target)) →
          faults .canonicalize = some .notFound ∨ t.lookup w.path = .error .notFound)) := by
  have hperforms := performs faults w t
  generalize (perform faults w).run t = next at hperforms
  have hconflict_iff : settled? w (current faults w t) = none →
      ¬∃ now, current faults w t = .ok now ∧ now ≠ w.expected := by
    rintro h ⟨now, hnow, hne⟩
    rw [(settled?_eq_none.1 h).1] at hnow
    exact hne (Except.ok.inj hnow).symm
  cases hperforms with
  | @settled r h =>
    obtain ⟨hconflict, hunchanged, hwritten⟩ := settled?_eq_some h
    exact ⟨r, t, rfl, fun _ => .refl _ t, hconflict, fun hr => ⟨hunchanged hr, rfl⟩,
      fun hr => absurd hr hwritten⟩
  | @failed e t' h hconflict hadds =>
    refine ⟨_, t', rfl, fun _ => hadds, iff_of_false ?_ (hconflict_iff h), nofun, nofun⟩
    rintro ⟨path, hpath⟩
    exact hconflict path (Except.error.inj hpath)
  | @written found t₁ t' mode? h hfound hadds hmode hinstalled =>
    obtain ⟨l, hplace, hdirectory, hsame⟩ := hinstalled
    refine ⟨_, t', rfl, fun hr => absurd rfl hr, iff_of_false nofun (hconflict_iff h), nofun,
      fun _ => ⟨l, _, ⟨t₁, hadds, hdirectory, hsame⟩, fun hlink => ?_, ?_⟩⟩
    · have hresolve := resolve_target hadds hfound hplace hlink
      have hlink₁ := hadds.ne_link hlink
      refine ⟨lookup_of_set hresolve hdirectory hlink₁ hsame, ?_⟩
      have hnew : t₁.newFileMode = t.newFileMode := by
        rw [newFileMode, newFileMode, hadds.umask]
      have hcall := optional_call_eq hmode
      split at hcall
      · rw [hcall, if_pos (by assumption), Option.getD_none, hnew]
      · rw [optional_mode_target hplace hresolve hdirectory hlink₁, hadds.fileMode?_eq] at hcall
        rw [if_neg (by assumption), ← Except.ok.inj hcall, hnew]
    · rintro ⟨target, htarget⟩
      rcases place_cases hfound hplace with ⟨e, hlookup⟩ | ⟨rfl, -⟩
      · rw [get?_of_lookup hlookup] at htarget
        exact absurd (Option.some.inj htarget) (lookup_ne_link hclosed hlookup target)
      · exact lookup_of_found_none hfound

/-- A file is made with its directory. -/
theorem all_or_nothing_new_directory :
    (FileTree.empty [] 0o22).Closed ∧
    ∃ t', (perform noFaults ⟨"d/f", none, "x"⟩).run (FileTree.empty [] 0o22) =
        (.ok .written, t') ∧
      ∃ l, Puts ⟨"d/f", none, "x"⟩ (FileTree.empty [] 0o22) t' l 0o644 ∧
        t'.lookup "d/f" = .ok (l, .file (.text "x") 0o644) := by
  have hclosed : (FileTree.empty [] 0o22).Closed :=
    closed_of_entries (by decide +kernel) (by decide +kernel) (by decide +kernel)
  have hentries : ∀ l e, (FileTree.empty [] 0o22).get? l = some e → e = .directory 0o755 := by
    intro l e he
    rw [get?, List.lookup_eq_some_iff] at he
    obtain ⟨before, after, hsplit, -⟩ := he
    have hmem : (l, e) ∈ (FileTree.empty [] 0o22).entries := by rw [hsplit]; simp
    exact (Prod.mk.inj (List.mem_singleton.1 hmem)).2
  obtain ⟨r, t', hrun, -, -, -, hwritten⟩ :=
    perform_all_or_nothing noFaults ⟨"d/f", none, "x"⟩ hclosed
  have hfirst : ((perform noFaults ⟨"d/f", none, "x"⟩).run (FileTree.empty [] 0o22)).1 =
      .ok .written := by decide +kernel
  rw [hrun] at hfirst
  obtain rfl := hfirst
  obtain ⟨l, mode, hputs, hlookup, -⟩ := hwritten rfl
  obtain ⟨hlookup, hmode⟩ := hlookup fun target hl => by cases hentries l _ hl
  have hnone : (FileTree.empty [] 0o22).fileMode? l = none := by
    rw [fileMode?]
    split
    · rename_i hl
      cases hentries l _ hl
    · rfl
  rw [hnone] at hmode
  obtain rfl : mode = 0o644 := hmode
  exact ⟨hclosed, t', hrun, l, hputs, hlookup⟩

/-- A link that leads nowhere is replaced by the text, and where it leads nothing is made. -/
theorem dangling_link_replaced :
    let t := (FileTree.empty [] 0o22).set ["l"] (.link "nowhere")
    let r := (perform noFaults ⟨"l", none, "y"⟩).run t
    t.Closed ∧ r.1 = .ok .written ∧ t.get? ["l"] = some (.link "nowhere") ∧
      r.2.get? ["l"] = some (.file (.text "y") 0o644) ∧ r.2.get? ["nowhere"] = none :=
  ⟨closed_of_entries (by decide +kernel) (by decide +kernel) (by decide +kernel),
    by decide +kernel, by decide +kernel, by decide +kernel, by decide +kernel⟩

end FileWrite
end RowTypes
