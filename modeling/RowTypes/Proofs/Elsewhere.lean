import RowTypes.Proofs.Companions
import RowTypes.Proofs.Conflicts

/-! A write after others that have gone elsewhere. They have made directories where nothing was and
have put texts in other places, so the write finds what it would have found before them. -/

namespace RowTypes

namespace FileTree
open Companion FileWrite.Target

/-- Directories may have been made in some places in which nothing was, and texts put in others,
over texts or where nothing was. All else is as it was. -/
structure OnlyAt (homes places : Location → Prop) (t t' : FileTree) : Prop where
  entry : ∀ l, t'.get? l = t.get? l ∨
    homes l ∧ t.get? l = none ∧ t'.isDirectoryAt l = true ∨
    places l ∧ (∃ s m, t'.get? l = some (.file (.text s) m)) ∧
      ∀ e, t.get? l = some e → ∃ s m, e = .file (.text s) m
  workingDirectory : t'.workingDirectory = t.workingDirectory
  umask : t'.umask = t.umask

variable {homes homes' places places' : Location → Prop} {t t' t'' : FileTree} {l : Location}

theorem Same.onlyAt (h : Same t t') : OnlyAt homes places t t' :=
  ⟨fun l => .inl (h.get? l), h.workingDirectory, h.umask⟩

theorem onlyAt_set_directory (hhome : homes l) (hfree : t.get? l = none) (m : Nat) :
    OnlyAt homes places t (t.set l (.directory m)) where
  entry l' := by
    by_cases h : l' = l
    · subst h
      exact .inr (.inl ⟨hhome, hfree, isDirectoryAt_eq_true.2 ⟨m, get?_set_self ..⟩⟩)
    · exact .inl (get?_set_of_ne _ _ h)
  workingDirectory := rfl
  umask := rfl

theorem onlyAt_set_text {s : String} {m : Nat}
    (htext : ∀ e, t.get? l = some e → ∃ s m, e = .file (.text s) m)
    (hsame : Same (t.set l (.file (.text s) m)) t') : OnlyAt homes (· = l) t t' where
  entry l' := by
    by_cases h : l' = l
    · subst h
      exact .inr (.inr ⟨rfl, ⟨s, m, by rw [hsame.get?, get?_set_self]⟩, htext⟩)
    · exact .inl (by rw [hsame.get?, get?_set_of_ne _ _ h])
  workingDirectory := hsame.workingDirectory
  umask := hsame.umask

namespace OnlyAt

theorem mono (h : OnlyAt homes places t t') (hhomes : ∀ l, t.get? l = none → homes l → homes' l)
    (hplaces : ∀ l, places l → places' l) : OnlyAt homes' places' t t' where
  entry l := by
    rcases h.entry l with hsame | ⟨hhome, hfree, hdirectory⟩ | ⟨hplace, htext⟩
    · exact .inl hsame
    · exact .inr (.inl ⟨hhomes l hfree hhome, hfree, hdirectory⟩)
    · exact .inr (.inr ⟨hplaces l hplace, htext⟩)
  workingDirectory := h.workingDirectory
  umask := h.umask

theorem trans (h : OnlyAt homes places t t') (h' : OnlyAt homes places t' t'') :
    OnlyAt homes places t t'' where
  entry l := by
    rcases h'.entry l with hsame' | ⟨hhome', hfree', hdirectory'⟩ | ⟨hplace', htext', hover'⟩
    · rw [FileTree.isDirectoryAt, hsame', ← FileTree.isDirectoryAt]
      exact h.entry l
    · rcases h.entry l with hsame | ⟨-, -, hdirectory⟩ | ⟨-, ⟨s, m, htext⟩, -⟩
      · exact .inr (.inl ⟨hhome', hsame ▸ hfree', hdirectory'⟩)
      · exact absurd hfree' (get?_ne_none_of_isDirectoryAt hdirectory)
      · rw [hfree'] at htext
        cases htext
    · refine .inr (.inr ⟨hplace', htext', ?_⟩)
      rcases h.entry l with hsame | ⟨-, -, hdirectory⟩ | ⟨-, -, hover⟩
      · exact hsame ▸ hover'
      · obtain ⟨m, hm⟩ := isDirectoryAt_eq_true.1 hdirectory
        obtain ⟨s, m', hfile⟩ := hover' _ hm
        cases hfile
      · exact hover
  workingDirectory := h'.workingDirectory.trans h.workingDirectory
  umask := h'.umask.trans h.umask

variable (h : OnlyAt homes places t t')

include h

theorem grows : Grows t t' where
  entry l e he := by
    rcases h.entry l with hsame | ⟨-, hfree, -⟩ | ⟨-, ⟨s, m, htext⟩, hover⟩
    · exact ⟨e, hsame.trans he, .refl e⟩
    · rw [hfree] at he
      exact nomatch he
    · obtain ⟨s', m', rfl⟩ := hover e he
      exact ⟨_, htext, trivial⟩
  workingDirectory := h.workingDirectory
  umask := h.umask

theorem get?_eq (hhome : t.get? l = none → ¬homes l) (hplace : ¬places l) :
    t'.get? l = t.get? l := by
  rcases h.entry l with hsame | ⟨hhome', hfree, -⟩ | ⟨hplace', -⟩
  · exact hsame
  · exact absurd hhome' (hhome hfree)
  · exact absurd hplace' hplace

theorem get?_other {e : Entry} (hl : t.get? l = some e) (he : ∀ s m, e ≠ .file (.text s) m) :
    t'.get? l = t.get? l := by
  rcases h.entry l with hsame | ⟨-, hfree, -⟩ | ⟨-, -, hover⟩
  · exact hsame
  · rw [hfree] at hl
    exact nomatch hl
  · obtain ⟨s, m, htext⟩ := hover e hl
    exact absurd htext (he s m)

theorem free_or_directory (hplace : ¬places l) (hfree : t.get? l = none) :
    t'.get? l = none ∨ homes l ∧ t'.isDirectoryAt l = true := by
  rcases h.entry l with hsame | ⟨hhome, -, hdirectory⟩ | ⟨hplace', -⟩
  · exact .inl (hsame.trans hfree)
  · exact .inr ⟨hhome, hdirectory⟩
  · exact absurd hplace' hplace

end OnlyAt

/-! Paths that lead where they led -/

theorem Grows.lookup_eq (h : Grows t t') {path : String} {e : Entry}
    (hlookup : t.lookup path = .ok (l, e)) (hl : t'.get? l = t.get? l) :
    t'.lookup path = .ok (l, e) := by
  obtain ⟨e', hlookup', hget, -⟩ := h.lookup hlookup
  rw [hl, get?_of_lookup hlookup] at hget
  rw [hlookup', Option.some.inj hget]

theorem Grows.get?_eq_none (h : Grows t t') (hl : t'.get? l = none) : t.get? l = none := by
  by_contra hne
  obtain ⟨e, he⟩ := Option.ne_none_iff_exists'.1 hne
  obtain ⟨e', he', -⟩ := h.entry l e he
  exact nomatch hl.symm.trans he'

theorem Grows.lookup_error (h : Grows t t') (hclosed : t.Closed) {path : String} {e : FileError}
    (hlookup : t.lookup path = .error e) (hother : e ≠ .notFound) : t'.lookup path = .error e := by
  have hresolve := resolve_of_lookup_error hlookup hother
  rw [resolve] at hresolve
  split at hresolve
  · exact absurd (Except.error.inj hresolve).symm hother
  · rename_i hpath
    have hhere := get?_ne_none_of_isDirectoryAt (hclosed.origin path)
    have horigin : t'.origin path = t.origin path := by simp only [origin, h.workingDirectory]
    rw [FileTree.lookup, resolve, if_neg hpath, horigin, h.walk_error hclosed hhere hresolve hother]

/-- The place to which the text for a path goes: that of the text which is there, or else the one
that the path names in its directory, which may have to be made. -/
inductive Goes (t : FileTree) (path : String) : Location → Prop where
  | existing {l : Location} {s : String} {m : Nat}
      (hlookup : t.lookup path = .ok (l, .file (.text s) m)) : Goes t path l
  | new {home : Location} {name : String} (hmissing : t.lookup path = .error .notFound)
      (hhome : t.Home path home) (hname : Path.fileName? path = some name)
      (hfree : t.get? (home ++ [name]) = none) : Goes t path (home ++ [name])

section Beside

variable {file path dir name : String} {home : Location} (b : Beside file path dir name)

include b

theorem Goes.getLast?_ne (hgoes : t.Goes path l) (hfree : t.get? l = none) :
    l.getLast? ≠ some Companion.directory := by
  cases hgoes with
  | existing hlookup =>
    rw [get?_of_lookup hlookup] at hfree
    exact nomatch hfree
  | new hmissing hhome hname =>
    rw [b.fileName?_eq] at hname
    obtain rfl := Option.some.inj hname
    rw [List.getLast?_concat]
    exact fun h => b.name_ne.2.2 (Option.some.inj h)

theorem Home.getLast?_eq (hfile : t.HasFile file) (hhome : t.Home path home)
    (hfree : t.get? home = none) : home.getLast? = some Companion.directory := by
  rcases hhome with ⟨m, hdir⟩ | hnone
  · rw [get?_of_lookup hdir] at hfree
    exact nomatch hfree
  · obtain ⟨d, rfl, -⟩ := exists_of_free_home b hfile (hnone false)
    exact List.getLast?_concat

end Beside

def Spared (places : Location → Prop) (t : FileTree) : Prop :=
  ∀ l, t.get? l = none → l.getLast? = some Companion.directory → ¬places l

section Companion

variable {file path dir name : String} {home : Location} (b : Beside file path dir name)
  (h : OnlyAt homes places t t') (hspared : Spared places t) (hfile : t.HasFile file)

include b h hspared hfile

theorem OnlyAt.home_cases (hhome : t.Home path home) :
    (∃ m, t.lookup (directoryPath path) = .ok (home, .directory m)) ∧ t'.isDirectoryAt home = true ∨
      t.get? home = none ∧ (t'.get? home = none ∨ homes home ∧ t'.isDirectoryAt home = true) := by
  rcases hhome with ⟨m, hdir⟩ | hnone
  · exact .inl ⟨⟨m, hdir⟩, h.grows.isDirectoryAt (isDirectoryAt_eq_true.2 ⟨m, get?_of_lookup hdir⟩)⟩
  · obtain ⟨d, -, hfree, -⟩ := exists_of_free_home b hfile (hnone false)
    have hplace := hspared home hfree (Home.getLast?_eq b hfile (.inr hnone) hfree)
    exact .inr ⟨hfree, h.free_or_directory hplace hfree⟩

theorem OnlyAt.keeps_home (hhome : t.Home path home) : t'.Home path home := by
  refine hhome.grows h.grows ?_
  rcases h.home_cases b hspared hfile hhome with ⟨-, hdir⟩ | ⟨-, hnone | ⟨-, hdir⟩⟩
  · exact .inr hdir
  · exact .inl hnone
  · exact .inr hdir

theorem OnlyAt.lookup_eq_new (hgoes : t.Goes path l) (hl : t'.get? l = t.get? l) :
    t'.lookup path = t.lookup path := by
  cases hgoes with
  | existing hlookup => rw [hlookup, h.grows.lookup_eq hlookup hl]
  | new hmissing hhome hname hfree =>
    rw [b.fileName?_eq] at hname
    obtain rfl := Option.some.inj hname
    rw [hmissing]
    exact lookup_missing b (h.grows.hasFile hfile) (h.keeps_home b hspared hfile hhome) (hl.trans hfree)

theorem OnlyAt.lookup_eq (hclosed : t.Closed)
    (hgoes : t.lookup path = .error .notFound → ∃ l, t.Goes path l)
    (hplaces : ∀ l, t.Goes path l → t'.get? l = t.get? l) : t'.lookup path = t.lookup path := by
  cases hlookup : t.lookup path with
  | error e =>
    by_cases he : e = .notFound
    · subst he
      obtain ⟨l, hl⟩ := hgoes hlookup
      rw [← hlookup]
      exact h.lookup_eq_new b hspared hfile hl (hplaces l hl)
    · exact h.grows.lookup_error hclosed hlookup he
  | ok found =>
    obtain ⟨l, e⟩ := found
    refine h.grows.lookup_eq hlookup ?_
    by_cases htext : ∃ s m, e = .file (.text s) m
    · obtain ⟨s, m, rfl⟩ := htext
      exact hplaces l (.existing hlookup)
    · exact h.get?_other (get?_of_lookup hlookup) fun s m he => htext ⟨s, m, he⟩

end Companion

end FileTree

namespace FileWrite
open FileTree Companion Target

variable {faults : Faults} {w : FileWrite} {t t' : FileTree} {l : Location}

/-! A write on its way to the target -/

def making (faults : Faults) (path : String) : Option FileError :=
  match lineage (directoryPath path) with
  | [] => none
  | dir :: _ => faults (.createDirectory dir)

theorem making_eq {file path dir name : String} (b : Beside file path dir name) :
    making faults path = faults (.createDirectory dir) := by
  obtain ⟨above, habove⟩ := b.lineage_eq
  unfold making
  rw [habove]

/-- What comes of the write of a companion that is not there, whose directory is there or can be
made unless it is `blocked`. -/
def newVerdict (faults : Faults) (w : FileWrite) (current : Except FileError (Option String)) :
    Option FileError → Except WriteError WriteOutcome
  | none => verdict faults w current (.error .notFound)
  | some e => (early? faults w current).getD (.error (.io e))

theorem newVerdict_of_early {current : Except FileError (Option String)}
    {r : Except WriteError WriteOutcome} (h : early? faults w current = some r)
    (blocked : Option FileError) : newVerdict faults w current blocked = r := by
  cases blocked with
  | none => rw [newVerdict, verdict, h, Option.getD_some]
  | some e => rw [newVerdict, h, Option.getD_some]

section New

variable {file dir name : String} {home : Location} (hhonest : ∀ c, faults c ≠ some .notFound)
  (b : Beside file w.path dir name)

include hhonest b

theorem run_perform_into {t₁ : FileTree} {m : Nat} (hmissing : t.lookup w.path = .error .notFound)
    (hdirectories : ((Target.new w.path).makeDirectories faults).run t = (.ok (), t₁))
    (hfile : t₁.HasFile file) (hdir : t₁.lookup (directoryPath w.path) = .ok (home, .directory m))
    (hfree : t₁.get? (home ++ [name]) = none) :
    ∃ t', (perform faults w).run t = (verdict faults w (current faults w t) (.error .notFound), t') ∧
      (Same t t' ∨ OnlyAt (fun _ => False) (· = home ++ [name]) t₁ t') := by
  have hmode : Target.mode t₁ (.of w.path none) = .error .notFound := by
    rw [Target.of, Target.mode, FileTree.mode, lookup_missing b hfile (.inl ⟨m, hdir⟩) hfree]
    rfl
  obtain ⟨t', hrun, hsame⟩ := run_perform (w := w) (hhonest .canonicalize)
    (by rw [hmissing]; rfl : optional (t.lookup w.path) = .ok none) rfl hdirectories
    (leads_new b hfile hdir hfree)
  rw [hmode] at hrun hsame
  refine ⟨t', hrun, ?_⟩
  split at hsame
  · obtain ⟨mode, hsame⟩ := hsame
    refine .inr (onlyAt_set_text (fun e he => ?_) hsame)
    rw [hfree] at he
    cases he
  · exact hsame.imp_right Same.onlyAt

theorem run_perform_new (hfile : t.HasFile file) (hhome : t.Home w.path home)
    (hfree : t.get? (home ++ [name]) = none) :
    ∃ t', (perform faults w).run t = (newVerdict faults w (current faults w t)
        (if t.isDirectoryAt home then none else making faults w.path), t') ∧
      OnlyAt (fun l => l = home ∧ making faults w.path = none) (· = home ++ [name]) t t' := by
  have hmissing := lookup_missing b hfile hhome hfree
  have hfound : optional (t.lookup w.path) = .ok none := by
    rw [hmissing]
    rfl
  cases hdirectories : faults .createDirectories with
  | some e =>
    obtain ⟨r, hearly⟩ := exists_early? (w := w) hdirectories (current faults w t)
    have hmake : ((Target.of w.path none).makeDirectories faults).run t = (.error e, t) := by
      rw [run_makeDirectories_target, hdirectories]
    have hrun := run_perform_blocked (hhonest _) hfound hmake
    rw [hearly, Option.getD_some] at hrun
    rw [newVerdict_of_early hearly]
    exact ⟨t, hrun, (Same.refl t).onlyAt⟩
  | none =>
    rcases id hhome with ⟨m, hdir⟩ | hnone
    · obtain ⟨t', hrun, hchange⟩ := run_perform_into hhonest b hmissing
        (makeDirectories_there b hfile (hhonest _) hdirectories hdir) hfile hdir hfree
      rw [if_pos (isDirectoryAt_eq_true.2 ⟨m, get?_of_lookup hdir⟩)]
      exact ⟨t', hrun, hchange.elim Same.onlyAt fun h => h.mono (fun _ _ => False.elim) fun _ => id⟩
    · obtain ⟨d, -, hhome', -⟩ := exists_of_free_home b hfile (hnone false)
      have hmake := makeDirectories_free b hfile (hhonest _) hdirectories hnone
      rw [if_neg (by rw [isDirectoryAt, hhome']; exact Bool.false_ne_true), making_eq b]
      cases hfault : faults (.createDirectory dir) with
      | some e =>
        rw [hfault] at hmake
        exact ⟨t, run_perform_blocked (hhonest _) hfound hmake, (Same.refl t).onlyAt⟩
      | none =>
        rw [hfault] at hmake
        have hgrows := grows_set_of_none hhome' (.directory t.newDirectoryMode)
        have hdirectory : (t.set home (.directory t.newDirectoryMode)).isDirectoryAt home = true :=
          isDirectoryAt_eq_true.2 ⟨_, get?_set_self ..⟩
        have hdir : ∃ m, (t.set home (.directory t.newDirectoryMode)).lookup
            (directoryPath w.path) = .ok (home, .directory m) := by
          rcases hhome.grows hgrows (.inr hdirectory) with hdir | hnone
          · exact hdir
          · obtain ⟨-, -, hfree, -⟩ := exists_of_free_home b (hgrows.hasFile hfile) (hnone false)
            exact absurd hfree (get?_ne_none_of_isDirectoryAt hdirectory)
        obtain ⟨m, hdir⟩ := hdir
        obtain ⟨t', hrun, hchange⟩ := run_perform_into hhonest b hmissing hmake
          (hgrows.hasFile hfile) hdir (by rw [get?_set_of_ne _ _ (by simp), hfree])
        exact ⟨t', hrun, hchange.elim Same.onlyAt fun h =>
          (onlyAt_set_directory ⟨rfl, rfl⟩ hhome' _).trans (h.mono (fun _ _ => False.elim) fun _ => id)⟩

end New

theorem run_perform_over (hcanonicalize : faults .canonicalize ≠ some .notFound) {s : String}
    {m : Nat} (hlookup : t.lookup w.path = .ok (l, .file (.text s) m)) :
    ∃ t', (perform faults w).run t = (verdict faults w (current faults w t) (.ok m), t') ∧
      OnlyAt (fun _ => False) (· = l) t t' := by
  obtain ⟨t', hrun, hsame⟩ := run_perform_existing (w := w) hcanonicalize hlookup
  refine ⟨t', hrun, ?_⟩
  split at hsame
  · obtain ⟨mode, hsame⟩ := hsame
    refine onlyAt_set_text (fun e he => ?_) hsame
    rw [get?_of_lookup hlookup] at he
    exact ⟨s, m, (Option.some.inj he).symm⟩
  · exact hsame.onlyAt

end FileWrite
end RowTypes
