import RowTypes.Generation.Work
import RowTypes.Proofs.Installing
import RowTypes.Proofs.PathText

/-! What a write may change, whatever it finds and whichever of its calls fail. Directories are
made where nothing is, the text is put in one place, and all else stays. No write makes a link. -/

namespace RowTypes

namespace FileTree

variable {t t' t'' : FileTree}

structure NoNewLinks (t t' : FileTree) : Prop where
  link : ∀ l target, t'.get? l = some (.link target) → t.get? l = some (.link target)
  workingDirectory : t'.workingDirectory = t.workingDirectory

structure Extends (t t' : FileTree) : Prop extends NoNewLinks t t' where
  entry : ∀ l e, t.get? l = some e → t'.get? l = some e
  umask : t'.umask = t.umask

structure Overwrites (t t' : FileTree) (l : Location) (text : String) : Prop
    extends NoNewLinks t t' where
  other : ∀ l' e, l' ≠ l → t.get? l' = some e → t'.get? l' = some e
  self : ∀ e, t.get? l = some e →
    (∀ m, e ≠ .directory m) ∧ ∃ m, t'.get? l = some (.file (.text text) m)

theorem NoNewLinks.refl (t : FileTree) : NoNewLinks t t := ⟨fun _ _ => id, rfl⟩

theorem NoNewLinks.trans (h : NoNewLinks t t') (h' : NoNewLinks t' t'') : NoNewLinks t t'' where
  link l target hl := h.link l target (h'.link l target hl)
  workingDirectory := h'.workingDirectory.trans h.workingDirectory

theorem noNewLinks_set (t : FileTree) (l : Location) {e : Entry}
    (he : ∀ target, e ≠ .link target) : NoNewLinks t (t.set l e) where
  link l' target hl' := by
    by_cases h : l' = l
    · rw [h, get?_set_self] at hl'
      exact absurd (Option.some.inj hl') (he target)
    · rwa [get?_set_of_ne _ _ h] at hl'
  workingDirectory := rfl

namespace Extends

theorem refl (t : FileTree) : Extends t t := ⟨.refl t, fun _ _ => id, rfl⟩

theorem trans (h : Extends t t') (h' : Extends t' t'') : Extends t t'' where
  toNoNewLinks := h.toNoNewLinks.trans h'.toNoNewLinks
  entry l e he := h'.entry l e (h.entry l e he)
  umask := h'.umask.trans h.umask

theorem grows (h : Extends t t') : Grows t t' where
  entry l e he := ⟨e, h.entry l e he, .refl e⟩
  workingDirectory := h.workingDirectory
  umask := h.umask

theorem set {l : Location} {e : Entry} (hfree : t.get? l = none) (he : ∀ target, e ≠ .link target) :
    Extends t (t.set l e) where
  toNoNewLinks := noNewLinks_set t l he
  entry l' e' he' := by
    have hl : l' ≠ l := fun h => by rw [h, hfree] at he'; exact nomatch he'
    rw [get?_set_of_ne _ _ hl, he']
  umask := rfl

end Extends

theorem Same.extends (h : Same t t') : Extends t t' where
  link l _ hl := (h.get? l).symm.trans hl
  workingDirectory := h.workingDirectory
  entry l _ he := (h.get? l).trans he
  umask := h.umask

theorem overwrites_of_set {l : Location} {text : String} {mode : Nat}
    (hdirectory : t.isDirectoryAt l = false)
    (hsame : Same (t.set l (.file (.text text) mode)) t') : Overwrites t t' l text where
  toNoNewLinks := (noNewLinks_set t l fun _ => Entry.noConfusion).trans hsame.extends.toNoNewLinks
  other l' e hl he := by rw [hsame.get?, get?_set_of_ne _ _ hl, he]
  self e he := by
    refine ⟨?_, mode, by rw [hsame.get?, get?_set_self]⟩
    rintro m rfl
    rw [isDirectoryAt_eq_true.2 ⟨m, he⟩] at hdirectory
    cases hdirectory

theorem Extends.overwrites {l : Location} {text : String} (h : Extends t t')
    (h' : Overwrites t' t'' l text) : Overwrites t t'' l text where
  toNoNewLinks := h.toNoNewLinks.trans h'.toNoNewLinks
  other l' e hne he := h'.other l' e hne (h.entry l' e he)
  self e he := h'.self e (h.entry l e he)

/-- Nothing that was there has changed, and what is new are directories to which the paths lead. -/
structure Adds (paths : List String) (t t' : FileTree) : Prop extends Extends t t' where
  made : ∀ l e, t.get? l = none → t'.get? l = some e →
    e = .directory t.newDirectoryMode ∧ ∃ path ∈ paths, t'.lookup path = .ok (l, e)

theorem Same.adds (paths : List String) (h : Same t t') : Adds paths t t' where
  toExtends := h.extends
  made l e hfree he := by
    rw [h.get?, hfree] at he
    cases he

namespace Adds

variable {paths paths' : List String}

theorem refl (paths : List String) (t : FileTree) : Adds paths t t := (Same.refl t).adds paths

theorem mono (h : Adds paths t t') (hpaths : paths ⊆ paths') : Adds paths' t t' where
  toExtends := h.toExtends
  made l e hfree he := by
    obtain ⟨hdirectory, path, hpath, hlookup⟩ := h.made l e hfree he
    exact ⟨hdirectory, path, hpaths hpath, hlookup⟩

theorem trans (h : Adds paths t t') (h' : Adds paths t' t'') : Adds paths t t'' where
  toExtends := h.toExtends.trans h'.toExtends
  made l e hfree he := by
    cases hget : t'.get? l with
    | none =>
      have hmode : t'.newDirectoryMode = t.newDirectoryMode := by
        rw [newDirectoryMode, newDirectoryMode, h.umask]
      exact hmode ▸ h'.made l e hget he
    | some e' =>
      obtain ⟨rfl, path, hpath, hlookup⟩ := h.made l e' hfree hget
      obtain rfl := Option.some.inj (he.symm.trans (h'.entry l _ hget))
      obtain ⟨e', hlookup', -, hbecomes⟩ := h'.grows.lookup hlookup
      exact ⟨rfl, path, hpath, by rw [hlookup', hbecomes.directory]⟩

end Adds

/-! Changes that may come one after the other -/

structure Keeps (t t' : FileTree) : Prop extends NoNewLinks t t' where
  entry : ∀ l e, t.get? l = some e → t'.get? l = some e ∨
    (∀ m, e ≠ .directory m) ∧ ∃ c m, t'.get? l = some (.file c m)

theorem Extends.keeps (h : Extends t t') : Keeps t t' where
  toNoNewLinks := h.toNoNewLinks
  entry l e he := .inl (h.entry l e he)

theorem Overwrites.keeps {l : Location} {text : String} (h : Overwrites t t' l text) :
    Keeps t t' where
  toNoNewLinks := h.toNoNewLinks
  entry l' e he := by
    by_cases hl : l' = l
    · subst hl
      obtain ⟨hdirectory, m, hfile⟩ := h.self e he
      exact .inr ⟨hdirectory, _, m, hfile⟩
    · exact .inl (h.other l' e hl he)

namespace Keeps

theorem trans (h : Keeps t t') (h' : Keeps t' t'') : Keeps t t'' where
  toNoNewLinks := h.toNoNewLinks.trans h'.toNoNewLinks
  entry l e he := by
    rcases h.entry l e he with he' | ⟨hdirectory, c, m, hfile⟩
    · exact h'.entry l e he'
    · rcases h'.entry l _ hfile with hfile' | ⟨-, hfile'⟩
      · exact .inr ⟨hdirectory, c, m, hfile'⟩
      · exact .inr ⟨hdirectory, hfile'⟩

variable (h : Keeps t t')

include h

theorem isDirectoryAt {l : Location} (hl : t.isDirectoryAt l = true) :
    t'.isDirectoryAt l = true := by
  obtain ⟨m, hm⟩ := isDirectoryAt_eq_true.1 hl
  rcases h.entry l _ hm with hm' | ⟨hdirectory, -⟩
  · exact isDirectoryAt_eq_true.2 ⟨m, hm'⟩
  · exact absurd rfl (hdirectory m)

theorem walk_directory {links m m' : Nat} {here l l' : Location} {names : List String}
    (hwalk : t.walk true links here names = .ok (.entry l (.directory m)))
    (hwalk' : t'.walk true links here names = .ok (.entry l' (.directory m'))) : l' = l := by
  induction links, here, names using walk_induction t true with
  | nil links here =>
    rw [walk_nil] at hwalk hwalk'
    split at hwalk
    · split at hwalk'
      · rw [← (Found.entry.inj (Except.ok.inj hwalk)).1, (Found.entry.inj (Except.ok.inj hwalk')).1]
      · cases hwalk'
    · cases hwalk
  | blocked links here name rest hdir =>
    cases (walk_of_not_isDirectoryAt hdir).symm.trans hwalk
  | dot links here rest hdir ih =>
    exact ih ((walk_dot hdir).symm.trans hwalk) ((walk_dot (h.isDirectoryAt hdir)).symm.trans hwalk')
  | up links here rest hdir ih =>
    exact ih ((walk_up hdir).symm.trans hwalk) ((walk_up (h.isDirectoryAt hdir)).symm.trans hwalk')
  | missing links here name rest hdir hdot hup hget =>
    rw [walk_none hdir hdot hup hget] at hwalk
    split at hwalk
    · cases Except.ok.inj hwalk
    · cases hwalk
  | lastLink links here name target hdir hdot hup hget hfollow => cases hfollow
  | loop here name rest target hdir hdot hup hget hgo =>
    cases (walk_loop hdir hdot hup hget hgo).symm.trans hwalk
  | link links here name rest target hdir hdot hup hget hgo ih =>
    have hdir' := h.isDirectoryAt hdir
    rcases h.entry _ _ hget with hget' | ⟨-, c, n, hget'⟩
    · exact ih ((walk_link hdir hdot hup hget hgo).symm.trans hwalk)
        ((walk_link hdir' hdot hup hget' hgo).symm.trans hwalk')
    · exact absurd hwalk' (walk_file_ne hdir' hdot hup hget' l')
  | into links here name rest e hdir hdot hup hget hlink ih =>
    have hdir' := h.isDirectoryAt hdir
    rcases h.entry _ _ hget with hget' | ⟨-, c, n, hget'⟩
    · exact ih ((walk_into hdir hdot hup hget hlink).symm.trans hwalk)
        ((walk_into hdir' hdot hup hget' hlink).symm.trans hwalk')
    · exact absurd hwalk' (walk_file_ne hdir' hdot hup hget' l')

theorem lookup_directory {path : String} {l l' : Location} {m m' : Nat}
    (hlookup : t.lookup path = .ok (l, .directory m))
    (hlookup' : t'.lookup path = .ok (l', .directory m')) : l' = l := by
  rw [lookup_eq_ok, resolve] at hlookup hlookup'
  split at hlookup
  · cases hlookup
  · rename_i hpath
    rw [if_neg hpath] at hlookup'
    have horigin : t'.origin path = t.origin path := by simp only [origin, h.workingDirectory]
    rw [horigin] at hlookup'
    exact h.walk_directory hlookup hlookup'

end Keeps

theorem lookup_filter (wanted : Location → Bool) (l : Location) (es : List (Location × Entry)) :
    (es.filter fun e => wanted e.1).lookup l = if wanted l then es.lookup l else none := by
  induction es with
  | nil => simp
  | cons e es ih =>
    obtain ⟨k, e⟩ := e
    rw [List.filter_cons, List.lookup_cons]
    by_cases hkey : l = k
    · subst hkey
      by_cases hwanted : wanted l = true
      · rw [if_pos hwanted, if_pos hwanted, List.lookup_cons_self, beq_self_eq_true]
      · rw [if_neg hwanted, ih, if_neg hwanted, if_neg hwanted]
    · have hne : (l == k) = false := by simpa using hkey
      rw [hne]
      split
      · rw [List.lookup_cons, hne, ih]
      · exact ih

theorem get?_eraseBelow (t : FileTree) (l l' : Location) :
    (t.eraseBelow l).get? l' = if !l.isPrefixOf l' then t.get? l' else none :=
  lookup_filter (fun k => !l.isPrefixOf k) l' t.entries

theorem noNewLinks_apply (t : FileTree) (e : Edit) : NoNewLinks t (e.apply t) := by
  cases e with
  | put path text =>
    rw [Edit.apply, put]
    split
    · exact noNewLinks_set t _ nofun
    · exact noNewLinks_set t _ nofun
    · exact .refl t
    · exact .refl t
  | remove path =>
    rw [Edit.apply, remove]
    split
    · refine ⟨fun l target hl => ?_, rfl⟩
      rw [Except.toOption, Option.getD_some, get?_eraseBelow] at hl
      split at hl
      · exact hl
      · exact nomatch hl
    · exact .refl t
    · exact .refl t

/-! Single calls -/

theorem adds_makeDirectory {path : String} (h : t.makeDirectory path = .ok t') :
    Adds [path] t t' := by
  rw [makeDirectory] at h
  split at h
  · rename_i l hfree
    obtain rfl := Except.ok.inj h
    rw [resolve] at hfree
    split at hfree
    · cases hfree
    rename_i hpath
    have hnone := (walk_free hfree).1
    have hresolve : t.resolve true path = .ok (.free l) := by
      rw [resolve, if_neg hpath, walk_free_follow hfree]
    have hget : (t.set l (.directory t.newDirectoryMode)).get? l =
        some (.directory t.newDirectoryMode) := get?_set_self ..
    refine ⟨.set hnone fun _ => Entry.noConfusion, fun l' e hfree' he => ?_⟩
    by_cases hl : l' = l
    · subst hl
      obtain rfl := Option.some.inj (hget.symm.trans he)
      refine ⟨rfl, path, List.mem_singleton_self path, ?_⟩
      rw [lookup_eq_ok, (grows_set_of_none hnone _).resolve_free hresolve (by simp [hget]),
        found_of_some hget]
    · rw [get?_set_of_ne _ _ hl, hfree'] at he
      cases he
  · cases h
  · cases h

/-! Places -/

theorem place_eq_ok {path : String} {l : Location} :
    t.place path = .ok l ↔ ∃ before last here m, Path.segments path = before ++ [last] ∧
      last ≠ "." ∧ last ≠ ".." ∧ path.endsWith "/" = false ∧
      t.walk true maxLinks (t.origin path) before = .ok (.entry here (.directory m)) ∧
      l = here ++ [last] := by
  constructor
  · intro h
    rw [place] at h
    split at h
    · cases h
    rename_i last before hsegments
    split at h
    · cases h
    · cases h
    · rename_i here m hwalk
      split at h
      · cases h
      rename_i hlast
      split at h
      · cases h
      rename_i hslash
      refine ⟨before.reverse, last, here, m, ?_, fun hdot => hlast (.inl hdot),
        fun hup => hlast (.inr hup), by simpa using hslash, hwalk, (Except.ok.inj h).symm⟩
      rw [← List.reverse_inj, hsegments, List.reverse_append, List.reverse_reverse]
      rfl
    · cases h
  · rintro ⟨before, last, here, m, hsegments, hdot, hup, hslash, hwalk, rfl⟩
    have hreverse : (Path.segments path).reverse = last :: before.reverse := by
      rw [hsegments, List.reverse_append]
      rfl
    simp only [place, hreverse, List.reverse_reverse, hwalk, hdot, hup, or_self, if_false, hslash,
      Bool.false_eq_true]

theorem resolve_of_place {path : String} {l : Location} (h : t.place path = .ok l)
    (hlink : ∀ target, t.get? l ≠ some (.link target)) :
    t.resolve true path = .ok (t.found l) := by
  obtain ⟨before, last, here, m, hsegments, hdot, hup, hslash, hwalk, rfl⟩ := place_eq_ok.1 h
  have hpath : path ≠ "" := by
    rintro rfl
    have hempty : Path.segments "" = [] := Path.segments_joined (by simp : [""] ≠ [])
      (Path.slashless_singleton (by simp))
    rw [hempty] at hsegments
    exact absurd hsegments.symm (by simp)
  have hsteps : steps path = before ++ [last] := by
    rw [steps, hslash, if_neg Bool.false_ne_true, hsegments]
  obtain ⟨left, hleft⟩ := walk_append hwalk
  rw [resolve, if_neg hpath, hsteps, hleft,
    walk_last_of_ne_link (isDirectoryAt_eq_true.2 ⟨m, walk_get? hwalk⟩) hdot hup hlink]

section Besides

/-! A tree with one file more -/

variable {l : Location} {c : Content} {m : Nat} (hfree : t.get? l = none)
  (hsame : Same (t.set l (.file c m)) t')

include hfree hsame

theorem isDirectoryAt_besides (l' : Location) : t'.isDirectoryAt l' = t.isDirectoryAt l' := by
  rw [hsame.isDirectoryAt, FileTree.isDirectoryAt, FileTree.isDirectoryAt]
  by_cases hl : l' = l
  · rw [hl, get?_set_self, hfree]
  · rw [get?_set_of_ne _ _ hl]

omit hfree in
theorem get?_besides {l' : Location} (hl : l' ≠ l) : t'.get? l' = t.get? l' := by
  rw [hsame.get?, get?_set_of_ne _ _ hl]

theorem get?_besides_of_some {l' : Location} {e : Entry} (he : t.get? l' = some e) :
    t'.get? l' = some e := by
  rw [get?_besides hsame, he]
  rintro rfl
  exact nomatch hfree.symm.trans he

theorem walk_besides {links n : Nat} {here l' : Location} {names : List String}
    (h : t'.walk true links here names = .ok (.entry l' (.directory n))) :
    t.walk true links here names = .ok (.entry l' (.directory n)) := by
  have hdir' := isDirectoryAt_besides hfree hsame
  induction links, here, names using walk_induction t true with
  | nil links here =>
    have hget := walk_get? h
    rw [walk_nil] at h
    split at h
    · rename_i e he
      obtain ⟨rfl, rfl⟩ := Found.entry.inj (Except.ok.inj h)
      obtain ⟨n', hn'⟩ := isDirectoryAt_eq_true.1
        ((hdir' here).symm.trans (isDirectoryAt_eq_true.2 ⟨n, he⟩))
      rw [get?_besides_of_some hfree hsame hn'] at he
      rw [walk_nil, hn', Option.some.inj he]
    · cases h
  | blocked links here name rest hdir =>
    cases (walk_of_not_isDirectoryAt ((hdir' here).trans hdir)).symm.trans h
  | dot links here rest hdir ih =>
    rw [walk_dot hdir, ih ((walk_dot ((hdir' here).trans hdir)).symm.trans h)]
  | up links here rest hdir ih =>
    rw [walk_up hdir, ih ((walk_up ((hdir' here).trans hdir)).symm.trans h)]
  | missing links here name rest hdir hdot hup hget =>
    have hdir := (hdir' here).trans hdir
    by_cases hl : here ++ [name] = l
    · have hfile : t'.get? (here ++ [name]) = some (.file c m) := by
        rw [hl, hsame.get?, get?_set_self]
      exact absurd h (walk_file_ne hdir hdot hup hfile l')
    · rw [walk_none hdir hdot hup ((get?_besides hsame hl).trans hget)] at h
      split at h
      · cases Except.ok.inj h
      · cases h
  | lastLink links here name target hdir hdot hup hget hfollow => cases hfollow
  | loop here name rest target hdir hdot hup hget hgo =>
    have hget' := get?_besides_of_some hfree hsame hget
    cases (walk_loop ((hdir' here).trans hdir) hdot hup hget' hgo).symm.trans h
  | link links here name rest target hdir hdot hup hget hgo ih =>
    have hget' := get?_besides_of_some hfree hsame hget
    rw [walk_link hdir hdot hup hget hgo]
    exact ih ((walk_link ((hdir' here).trans hdir) hdot hup hget' hgo).symm.trans h)
  | into links here name rest e hdir hdot hup hget hlink ih =>
    have hget' := get?_besides_of_some hfree hsame hget
    rw [walk_into hdir hdot hup hget hlink]
    exact ih ((walk_into ((hdir' here).trans hdir) hdot hup hget' hlink).symm.trans h)

theorem place_besides {path : String} {l' : Location} (h : t'.place path = .ok l') :
    t.place path = .ok l' := by
  obtain ⟨before, last, here, n, hsegments, hdot, hup, hslash, hwalk, rfl⟩ := place_eq_ok.1 h
  have horigin : t'.origin path = t.origin path := by
    simp only [origin, hsame.workingDirectory]
    rfl
  exact place_eq_ok.2 ⟨before, last, here, n, hsegments, hdot, hup, hslash,
    walk_besides hfree hsame (horigin ▸ hwalk), rfl⟩

end Besides

end FileTree

namespace FileWrite
open FileTree

variable {ε α β : Type} {t t' t'' : FileTree}

/-! Directories -/

def OnlyAdds (paths : List String) (x : ExceptT ε (StateM FileTree) α) : Prop :=
  ∀ t, Adds paths t (x.run t).2

namespace OnlyAdds

variable {x : ExceptT ε (StateM FileTree) α} {paths paths' : List String}

theorem pure (a : α) : OnlyAdds paths (Pure.pure a : ExceptT ε (StateM FileTree) α) := Adds.refl paths

theorem mono (h : OnlyAdds paths x) (hpaths : paths ⊆ paths') : OnlyAdds paths' x := fun t =>
  (h t).mono hpaths

theorem bind {f : α → ExceptT ε (StateM FileTree) β} (hx : OnlyAdds paths x)
    (hf : ∀ a, OnlyAdds paths (f a)) : OnlyAdds paths (x >>= f) := by
  intro t
  rw [run_bind]
  have hadds := hx t
  generalize x.run t = r at hadds
  obtain ⟨_ | a, t₁⟩ := r
  · exact hadds
  · exact hadds.trans (hf a t₁)

theorem tryCatch {f : ε → ExceptT ε (StateM FileTree) α} (hx : OnlyAdds paths x)
    (hf : ∀ e, OnlyAdds paths (f e)) : OnlyAdds paths (tryCatch x f) := by
  intro t
  rw [run_tryCatch]
  have hadds := hx t
  generalize x.run t = r at hadds
  obtain ⟨e | a, t₁⟩ := r
  · exact hadds.trans (hf e t₁)
  · exact hadds

end OnlyAdds

variable {faults : Faults}

theorem makeDirectory_onlyAdds (faults : Faults) (c : Call) (path : String) :
    OnlyAdds [path] (makeDirectory faults c path) := by
  intro t
  rw [makeDirectory, run_change, Faults.call]
  cases faults c with
  | some e => exact .refl _ t
  | none =>
    cases hmake : t.makeDirectory path with
    | error e => exact .refl _ t
    | ok t' => exact adds_makeDirectory hmake

theorem unlessDirectory_onlyAdds (paths : List String) (path : String) (e : FileError) :
    OnlyAdds paths (unlessDirectory path e) := by
  intro t
  change Adds paths t (if t.isDirectory path then (.ok (), t) else (.error e, t) :
    Except FileError Unit × FileTree).2
  split <;> exact .refl paths t

theorem makeDirectories_onlyAdds (faults : Faults) (paths : List String) :
    OnlyAdds paths (makeDirectories faults paths) := by
  induction paths with
  | nil => exact .pure ()
  | cons path above ih =>
    have hmake : ∀ c, OnlyAdds (path :: above) (makeDirectory faults c path) := fun c =>
      (makeDirectory_onlyAdds faults c path).mono (by simp)
    refine (hmake _).tryCatch fun e => ?_
    split
    · exact (ih.mono (by simp)).bind fun _ => (hmake _).tryCatch (unlessDirectory_onlyAdds _ path)
    · exact unlessDirectory_onlyAdds _ path e

theorem Target.makeDirectories_onlyAdds (faults : Faults) (path : String)
    (found : Option (Location × Entry)) :
    OnlyAdds (lineage (directoryPath path)) ((Target.of path found).makeDirectories faults) := by
  intro t
  rw [run_makeDirectories_target]
  cases faults .createDirectories with
  | some e => exact .refl _ t
  | none =>
    cases found with
    | some there => exact .refl _ t
    | none => exact FileWrite.makeDirectories_onlyAdds faults _ t

/-! The text -/

variable {w : FileWrite} {target : Target} {temporary : Location}

theorem Target.get?_temporary (h : target.temporary t = .ok temporary) :
    t.get? temporary = none := by
  cases target with
  | existing l =>
    obtain rfl := Except.ok.inj h
    exact get?_unusedName t l.dropLast
  | new path =>
    rw [Target.temporary] at h
    cases hlookup : t.lookup (directoryPath path) with
    | error e =>
      rw [hlookup] at h
      exact nomatch h
    | ok found =>
      rw [hlookup] at h
      obtain ⟨l, e⟩ := found
      cases e with
      | directory m =>
        obtain rfl := Except.ok.inj h
        exact get?_unusedName t l
      | file c m => cases h
      | link target => cases h

def Filling (t : FileTree) (temporary : Location) (t' : FileTree) : Prop :=
  ∃ c m, Same (t.set temporary (.file c m)) t'

theorem Filling.set (h : Filling t temporary t') (c : Content) (m : Nat) :
    Same (t.set temporary (.file c m)) (t'.set temporary (.file c m)) := by
  obtain ⟨c', m', hsame⟩ := h
  exact (same_set_set t temporary _ _).trans (hsame.set temporary _)

def Installed (target : Target) (t : FileTree) (text : String) (mode : Nat) (t' : FileTree) : Prop :=
  ∃ l, target.place t = .ok l ∧ t.isDirectoryAt l = false ∧
    Same (t.set l (.file (.text text) mode)) t'

/-- What the last calls have come to: they have failed and left no more than the temporary file,
or they have put the text in the place of the target. -/
def Installs (w : FileWrite) (target : Target) (t : FileTree) (temporary : Location) (mode : Nat)
    (r : Except WriteError Unit × FileTree) : Prop :=
  match r.1 with
  | .error e => (∀ path, e ≠ .conflict path) ∧ Filling t temporary r.2
  | .ok _ => Installed target t w.content mode r.2

theorem of_moveTo {text : String} {m : Nat} (hfree : t.get? temporary = none)
    (hsame : Same (t.set temporary (.file (.text text) m)) t')
    (h : moveTo temporary target t' = .ok t'') : Installed target t text m t'' := by
  have hget : t'.get? temporary = some (.file (.text text) m) := by
    rw [hsame.get?, get?_set_self]
  have herased : Same t (t'.erase temporary) := Same.erase hfree hsame
  cases hplace : target.place t' with
  | error e =>
    simp only [moveTo, hplace, bind, Except.bind] at h
    cases h
  | ok l =>
    simp only [moveTo, hplace, bind, Except.bind, hget, replace, herased.isDirectoryAt] at h
    split at h
    · cases h
    · rename_i hdir
      obtain rfl := Except.ok.inj h
      refine ⟨l, ?_, by simpa using hdir, herased.set l _⟩
      cases target with
      | existing l => exact hplace
      | new path => exact place_besides hfree hsame hplace

variable (faults w target)

theorem writeAndMove_installs (hfree : t.get? temporary = none) (hfilling : Filling t temporary t')
    (mode : Nat) :
    Installs w target t temporary mode ((writeAndMove faults w target mode temporary).run t') := by
  simp only [writeAndMove, run_bind, run_tryCatch]
  cases hwrite : faults .write with
  | some e =>
    rw [run_change_of_some hwrite]
    exact ⟨fun _ => WriteError.noConfusion, hfilling⟩
  | none =>
    have hsame := hfilling.set (.text w.content) mode
    simp only [run_put_of_none hwrite]
    cases hpersist : faults .persist with
    | some e =>
      simp only [run_change_of_some hpersist]
      exact ⟨fun _ => WriteError.noConfusion, _, _, hsame⟩
    | none =>
      cases hmove : moveTo temporary target (t'.set temporary (.file (.text w.content) mode)) with
      | ok t'' =>
        simp only [run_change_of_none hpersist hmove]
        exact of_moveTo hfree hsame hmove
      | error e =>
        have hrun : (io (change faults .persist (moveTo temporary target))).run
            (t'.set temporary (.file (.text w.content) mode)) =
            (.error (.io e), t'.set temporary (.file (.text w.content) mode)) := by
          refine run_of_io (r := .error e) ?_
          rw [run_change, Faults.call, hpersist]
          simp only [hmove]
        simp only [hrun]
        exact ⟨fun _ => WriteError.noConfusion, _, _, hsame⟩

theorem fill_installs (hfree : t.get? temporary = none) (hfilling : Filling t temporary t')
    (mode? : Option Nat) :
    Installs w target t temporary (mode?.getD t.newFileMode)
      ((fill faults w target mode? temporary).run t') := by
  have hmode : t'.newFileMode = t.newFileMode := by
    obtain ⟨c, m, hsame⟩ := hfilling
    simp only [newFileMode, hsame.umask]
    rfl
  simp only [fill, run_bind, run_get]
  cases mode? with
  | none =>
    rw [hmode]
    exact writeAndMove_installs faults w target hfree hfilling _
  | some m =>
    cases hpermissions : faults .setPermissions with
    | some e =>
      simp only [Option.isSome_some, if_true, run_bind, run_change_of_some hpermissions]
      exact ⟨fun _ => WriteError.noConfusion, hfilling⟩
    | none =>
      simp only [Option.isSome_some, if_true, run_bind, run_put_of_none hpermissions]
      exact writeAndMove_installs faults w target hfree ⟨_, _, hfilling.set _ _⟩ _

/-- The install either fails and leaves the tree as it was, or puts the text in the place of the
target, with the mode that was found or else that of new files. -/
theorem install_cases (t : FileTree) :
    let r := (install faults w target).run t
    (∃ e, r.1 = .error e ∧ ∀ path, e ≠ .conflict path) ∧ Same t r.2 ∨
      r.1 = .ok () ∧ ∃ mode?, optional (faults.call .stat (target.mode t)) = .ok mode? ∧
        Installed target t w.content (mode?.getD t.newFileMode) r.2 := by
  simp only [install, run_bind, run_tryCatch, run_modify, run_throw, Target.mode?,
    run_of_io (run_noneIfNotFound (run_ask _ _)), run_of_io (run_ask _ _)]
  cases hmode : optional (faults.call .stat (target.mode t)) with
  | error e => exact .inl ⟨⟨_, rfl, fun _ => WriteError.noConfusion⟩, .refl t⟩
  | ok mode? =>
    simp only [Except.mapError]
    cases hcreate : faults.call .createTemporary (target.temporary t) with
    | error e => exact .inl ⟨⟨_, rfl, fun _ => WriteError.noConfusion⟩, .refl t⟩
    | ok temporary =>
      have hfree : t.get? temporary = none := by
        rw [Faults.call] at hcreate
        split at hcreate
        · cases hcreate
        · exact Target.get?_temporary hcreate
      have hinstalls := fill_installs faults w target hfree
        ⟨_, _, .refl (t.set temporary (.file (.text "") t.newFileMode))⟩ mode?
      generalize hfill : (fill faults w target mode? temporary).run
        (t.set temporary (.file (.text "") t.newFileMode)) = r at hinstalls
      simp only [hfill]
      obtain ⟨e | ⟨⟩, t'⟩ := r
      · obtain ⟨hconflict, c, m, hsame⟩ := hinstalls
        exact .inl ⟨⟨e, rfl, hconflict⟩, Same.erase hfree hsame⟩
      · exact .inr ⟨rfl, mode?, rfl, hinstalls⟩

variable {faults w}

theorem Target.place_cases {found : Option (Location × Entry)} {l : Location}
    (hfound : optional (faults.call .canonicalize (t.lookup w.path)) = .ok found)
    (hplace : (Target.of w.path found).place t' = .ok l) :
    (∃ e, t.lookup w.path = .ok (l, e)) ∨ found = none ∧ t'.place w.path = .ok l := by
  cases found with
  | none => exact .inr ⟨rfl, hplace⟩
  | some there =>
    obtain ⟨l', e⟩ := there
    obtain rfl := Except.ok.inj hplace
    exact .inl ⟨e, of_optional_call hfound⟩

inductive Performs (faults : Faults) (w : FileWrite) (t : FileTree) :
    Except WriteError WriteOutcome × FileTree → Prop where
  /-- The text that was found has settled it. -/
  | settled {r : Except WriteError WriteOutcome} (h : settled? w (current faults w t) = some r) :
      Performs faults w t (r, t)
  | failed {e : WriteError} {t' : FileTree} (h : settled? w (current faults w t) = none)
      (hconflict : ∀ path, e ≠ .conflict path)
      (hadds : Adds (lineage (Target.directoryPath w.path)) t t') :
      Performs faults w t (.error e, t')
  | written {found : Option (Location × Entry)} {t₁ t' : FileTree} {mode? : Option Nat}
      (h : settled? w (current faults w t) = none)
      (hfound : optional (faults.call .canonicalize (t.lookup w.path)) = .ok found)
      (hadds : Adds (lineage (Target.directoryPath w.path)) t t₁)
      (hmode : optional (faults.call .stat ((Target.of w.path found).mode t₁)) = .ok mode?)
      (hinstalled : Installed (.of w.path found) t₁ w.content (mode?.getD t₁.newFileMode) t') :
      Performs faults w t (.ok .written, t')

theorem performs (faults : Faults) (w : FileWrite) (t : FileTree) :
    Performs faults w t ((perform faults w).run t) := by
  cases hsettled : settled? w (current faults w t) with
  | some r =>
    rw [run_perform_settled hsettled]
    exact .settled hsettled
  | none =>
    rw [run_perform_unsettled hsettled]
    cases hfound : optional (faults.call .canonicalize (t.lookup w.path)) with
    | error e => exact .failed hsettled nofun (.refl _ t)
    | ok found =>
      have hadds := Target.makeDirectories_onlyAdds faults w.path found t
      simp only
      generalize hmake : ((Target.of w.path found).makeDirectories faults).run t = made at hadds
      obtain ⟨e | ⟨⟩, t₁⟩ := made
      · exact .failed hsettled nofun hadds
      · simp only
        rcases install_cases faults w (.of w.path found) t₁ with
          ⟨⟨e, herror, hconflict⟩, hsame⟩ | ⟨hok, mode?, hmode, hinstalled⟩
        · generalize (install faults w (.of w.path found)).run t₁ = r at herror hsame
          obtain ⟨_, t₂⟩ := r
          obtain rfl := herror
          exact .failed hsettled hconflict (hadds.trans (hsame.adds _))
        · generalize (install faults w (.of w.path found)).run t₁ = r at hok hinstalled
          obtain ⟨_, t₂⟩ := r
          obtain rfl := hok
          exact .written hsettled hfound hadds hmode hinstalled

end FileWrite
end RowTypes
