import RowTypes.Proofs.Actions
import RowTypes.Proofs.Walking
import RowTypes.FileWrite

/-! What a write does to a tree, whichever of its calls fail. A write that fails leaves each file
as it was, and one that goes through has put its text in one place. -/

namespace RowTypes

namespace FileTree

variable {t : FileTree}

/-! A name that nothing has -/

theorem le_foldl_max (a : Nat) (ns : List Nat) :
    a ≤ ns.foldl max a ∧ ∀ n ∈ ns, n ≤ ns.foldl max a := by
  induction ns generalizing a with
  | nil => exact ⟨Nat.le_refl a, nofun⟩
  | cons b ns ih =>
    obtain ⟨hfirst, hrest⟩ := ih (max a b)
    rw [List.foldl_cons]
    refine ⟨Nat.le_trans (Nat.le_max_left a b) hfirst, fun n hn => ?_⟩
    rcases List.mem_cons.1 hn with rfl | hn
    · exact Nat.le_trans (Nat.le_max_right a n) hfirst
    · exact hrest n hn

theorem get?_unusedName (t : FileTree) (l : Location) : t.get? (l ++ [t.unusedName]) = none := by
  rw [get?, List.lookup_eq_none_iff]
  rintro ⟨l', e⟩ hmem
  rw [bne_iff_ne]
  intro hl
  have hlength : t.unusedName.length ∈ t.entries.flatMap fun e => e.1.map String.length := by
    refine List.mem_flatMap.2 ⟨_, hmem, List.mem_map.2 ⟨_, ?_, rfl⟩⟩
    rw [← hl]
    exact List.mem_append_right l (List.mem_singleton_self _)
  have hle := (le_foldl_max 0 _).2 _ hlength
  rw [unusedName, String.length_ofList, List.length_cons, List.length_replicate] at hle
  omega

/-! Places beside a file -/

theorem Same.set {t' : FileTree} (h : Same t t') (l : Location) (e : Entry) :
    Same (t.set l e) (t'.set l e) where
  get? l' := by
    by_cases hl : l' = l
    · rw [hl, get?_set_self, get?_set_self]
    · rw [get?_set_of_ne _ _ hl, get?_set_of_ne _ _ hl, h.get?]
  workingDirectory := h.workingDirectory
  umask := h.umask

theorem same_set_set (t : FileTree) (l : Location) (e e' : Entry) :
    Same (t.set l e') ((t.set l e).set l e') where
  get? l' := by
    by_cases hl : l' = l
    · rw [hl, get?_set_self, get?_set_self]
    · rw [get?_set_of_ne _ _ hl, get?_set_of_ne _ _ hl, get?_set_of_ne _ _ hl]
  workingDirectory := rfl
  umask := rfl

theorem Same.erase {t' : FileTree} {l : Location} {e : Entry} (hfree : t.get? l = none)
    (h : Same (t.set l e) t') : Same t (t'.erase l) where
  get? l' := by
    by_cases hl : l' = l
    · rw [hl, get?_erase_self, hfree]
    · rw [get?_erase_of_ne _ hl, h.get?, get?_set_of_ne _ _ hl]
  workingDirectory := h.workingDirectory
  umask := h.umask

theorem grows_set_of_none {l : Location} (hfree : t.get? l = none) (e : Entry) :
    Grows t (t.set l e) where
  entry l' e' he' := by
    have hl : l' ≠ l := fun h => by rw [h, hfree] at he'; exact nomatch he'
    exact ⟨e', by rw [get?_set_of_ne _ _ hl, he'], .refl e'⟩
  workingDirectory := rfl
  umask := rfl

theorem grows_set_file {l : Location} {c : Content} {m : Nat} (hl : t.get? l = some (.file c m))
    (c' : Content) (m' : Nat) : Grows t (t.set l (.file c' m')) where
  entry l' e' he' := by
    by_cases h : l' = l
    · subst h
      obtain rfl := Option.some.inj (hl.symm.trans he')
      exact ⟨_, get?_set_self .., trivial⟩
    · exact ⟨e', by rw [get?_set_of_ne _ _ h, he'], .refl e'⟩
  workingDirectory := rfl
  umask := rfl

end FileTree

namespace FileWrite
open FileTree

/-! Calls that may fail -/

def Faults.call {α : Type} (faults : Faults) (c : Call) (r : Except FileError α) :
    Except FileError α :=
  match faults c with
  | some e => .error e
  | none => r

def optional {α : Type} : Except FileError α → Except FileError (Option α)
  | .ok x => .ok (some x)
  | .error .notFound => .ok none
  | .error e => .error e

variable {faults : Faults} {w : FileWrite} {target : Target} {t : FileTree}

theorem of_optional_call {α : Type} {c : Call} {r : Except FileError α} {x : α}
    (h : optional (faults.call c r) = .ok (some x)) : r = .ok x := by
  rw [Faults.call] at h
  split at h
  · rename_i e _
    cases e <;> exact nomatch h
  · rcases r with e | x'
    · cases e <;> exact nomatch h
    · rw [Option.some.inj (Except.ok.inj h)]

theorem run_of_io {α : Type} {a : Action α} {r : Except FileError α} {t' : FileTree}
    (h : a.run t = (r, t')) : (io a).run t = (r.mapError .io, t') := by
  have h : a t = (r, t') := h
  change io a t = _
  rw [io, h]
  cases r <;> rfl

theorem run_ask {α : Type} (c : Call) (f : FileTree → Except FileError α) :
    (ask faults c f).run t = (faults.call c (f t), t) := by
  change (match faults c with
    | some e => ((.error e : Except FileError α), t)
    | none => (f t, t)) = _
  rw [Faults.call]
  cases faults c <;> rfl

theorem run_noneIfNotFound {α : Type} {a : Action α} {r : Except FileError α} {t' : FileTree}
    (h : a.run t = (r, t')) : (noneIfNotFound a).run t = (optional r, t') := by
  have h : a t = (r, t') := h
  change noneIfNotFound a t = _
  rw [noneIfNotFound, h]
  rcases r with e | x
  · cases e <;> rfl
  · rfl

theorem run_change (c : Call) (f : FileTree → Except FileError FileTree) :
    (change faults c f).run t =
      match faults.call c (f t) with
      | .ok t' => (.ok (), t')
      | .error e => (.error e, t) := by
  rw [Faults.call]
  change (match faults c with
    | some e => ((.error e : Except FileError Unit), t)
    | none =>
      match f t with
      | .ok t' => (.ok (), t')
      | .error e => (.error e, t)) = _
  cases faults c <;> rfl

theorem run_change_of_some {c : Call} {e : FileError} (h : faults c = some e)
    (f : FileTree → Except FileError FileTree) :
    (io (change faults c f)).run t = (.error (.io e), t) := by
  have hrun : (change faults c f).run t = (.error e, t) := by rw [run_change, Faults.call, h]
  exact run_of_io hrun

theorem run_change_of_none {c : Call} (h : faults c = none)
    {f : FileTree → Except FileError FileTree} {t' : FileTree} (hf : f t = .ok t') :
    (io (change faults c f)).run t = (.ok (), t') := by
  have hrun : (change faults c f).run t = (.ok (), t') := by
    rw [run_change, Faults.call, h]
    simp only [hf]
  exact run_of_io hrun

theorem run_put_of_none {c : Call} (h : faults c = none) (l : Location) (e : Entry) :
    (io (change faults c fun t => .ok (t.set l e))).run t = (.ok (), t.set l e) :=
  run_change_of_none h rfl

/-! The calls that put a text in its place -/

def fillError? (faults : Faults) (path : String) (hasMode : Bool) : Option WriteError :=
  (if hasMode then (faults .setPermissions).map .io else none).or <|
    ((faults .write).map .io).or ((faults .persist).map (.persist path))

def keptMode (faults : Faults) (path : String) (mode : Except FileError Nat) :
    Except WriteError (Option Nat) :=
  match optional (faults.call .stat mode) with
  | .error e => .error (.io e)
  | .ok mode? =>
    match ((faults .createTemporary).map .io).or (fillError? faults path mode?.isSome) with
    | some e => .error e
    | none => .ok mode?

/-- Where a text goes, and the temporary file that takes it there. -/
structure Target.Leads (target : Target) (t : FileTree) (l temporary : Location) : Prop where
  temporary_eq : target.temporary t = .ok temporary
  isFree : t.get? temporary = none
  place_eq : ∀ t', Grows t t' → target.place t' = .ok l
  notDirectory : t.isDirectoryAt l = false

section Install

variable (faults w) {l temporary : Location}

theorem moveTo_same {t' : FileTree} {c : Content} {m : Nat} (h : target.Leads t l temporary)
    (ht' : Same (t.set temporary (.file c m)) t') :
    ∃ t'', moveTo temporary target t' = .ok t'' ∧ Same (t.set l (.file c m)) t'' := by
  have hplace : target.place t' = .ok l :=
    h.place_eq t' ((grows_set_of_none h.isFree _).trans ht'.grows)
  have hget : t'.get? temporary = some (.file c m) := by rw [ht'.get?, get?_set_self]
  have herased : Same t (t'.erase temporary) := Same.erase h.isFree ht'
  have hdir : (t'.erase temporary).isDirectoryAt l = false := by
    rw [herased.isDirectoryAt]
    exact h.notDirectory
  refine ⟨(t'.erase temporary).set l (.file c m), ?_, herased.set l _⟩
  simp only [moveTo, hplace, bind, Except.bind, hget, replace, hdir, Bool.false_eq_true, if_false]

theorem Leads.same_set {t' : FileTree} {e : Entry} (ht' : Same (t.set temporary e) t')
    (e' : Entry) : Same (t.set temporary e') (t'.set temporary e') :=
  (same_set_set t temporary e e').trans (ht'.set temporary e')

theorem run_writeAndMove {t' : FileTree} {e : Entry} (h : target.Leads t l temporary)
    (ht' : Same (t.set temporary e) t') (mode : Nat) :
    ∃ t'', (writeAndMove faults w target mode temporary).run t' =
        (match ((faults .write).map WriteError.io).or
            ((faults .persist).map (.persist w.path)) with
          | some e => .error e
          | none => .ok (), t'') ∧
      match ((faults .write).map WriteError.io).or
          ((faults .persist).map (.persist w.path)) with
      | some _ => ∃ e, Same (t.set temporary e) t''
      | none => Same (t.set l (.file (.text w.content) mode)) t'' := by
  simp only [writeAndMove, run_bind, run_tryCatch]
  cases hwrite : faults .write with
  | some e => exact ⟨t', by rw [run_change_of_some hwrite]; rfl, _, ht'⟩
  | none =>
    have hfilled := Leads.same_set ht' (.file (.text w.content) mode)
    simp only [run_put_of_none hwrite]
    cases hpersist : faults .persist with
    | some e => exact ⟨_, by simp only [run_change_of_some hpersist]; rfl, _, hfilled⟩
    | none =>
      obtain ⟨t'', hmove, hsame⟩ := moveTo_same h hfilled
      exact ⟨t'', by simp only [run_change_of_none hpersist hmove]; rfl, hsame⟩

theorem run_fill {t' : FileTree} {e : Entry} (h : target.Leads t l temporary)
    (ht' : Same (t.set temporary e) t') (mode? : Option Nat) :
    ∃ t'', (fill faults w target mode? temporary).run t' =
        (match fillError? faults w.path mode?.isSome with
          | some e => .error e
          | none => .ok (), t'') ∧
      match fillError? faults w.path mode?.isSome with
      | some _ => ∃ e, Same (t.set temporary e) t''
      | none => Same (t.set l (.file (.text w.content) (mode?.getD t.newFileMode))) t'' := by
  have hmode : t'.newFileMode = t.newFileMode := by
    simp only [newFileMode, ht'.umask]
    rfl
  obtain ⟨t'', hrest⟩ := run_writeAndMove faults w h ht' t.newFileMode
  simp only [fill, fillError?, run_bind, run_get]
  cases mode? with
  | none => 
    rw [hmode]
    exact ⟨t'', hrest⟩
  | some m =>
    cases hpermissions : faults .setPermissions with
    | some e => 
      exact ⟨t', by simp only [Option.isSome_some, if_true, run_bind, run_change_of_some hpermissions]; rfl, _, ht'⟩
    | none =>
      obtain ⟨t'', hrest⟩ := run_writeAndMove faults w h
        (Leads.same_set ht' (.file (.text "") m)) m
      refine ⟨t'', ?_, hrest.2⟩
      simp only [Option.isSome_some, if_true, run_bind, run_put_of_none hpermissions]
      exact hrest.1

theorem run_install (h : target.Leads t l temporary) :
    ∃ t', (install faults w target).run t =
        ((keptMode faults w.path (target.mode t)).map fun _ => (), t') ∧
      match keptMode faults w.path (target.mode t) with
      | .error _ => Same t t'
      | .ok mode? =>
        Same (t.set l (.file (.text w.content) (mode?.getD t.newFileMode))) t' := by
  rw [keptMode]
  simp only [install, run_bind, run_tryCatch, run_modify, run_throw, Target.mode?,
    run_of_io (run_noneIfNotFound (run_ask _ _)), run_of_io (run_ask _ _)]
  cases hmode : optional (faults.call .stat (target.mode t)) with
  | error e => exact ⟨t, rfl, .refl t⟩
  | ok mode? =>
    simp only [Except.mapError]
    rw [Faults.call, h.temporary_eq]
    cases hcreate : faults .createTemporary with
    | some e => exact ⟨t, rfl, .refl t⟩
    | none =>
      simp only [Option.map_none, Option.none_or]
      obtain ⟨t'', hrun, hsame⟩ := run_fill faults w h
        (.refl (t.set temporary (.file (.text "") t.newFileMode))) mode?
      rw [hrun]
      cases hfill : fillError? faults w.path mode?.isSome with
      | some e =>
        rw [hfill] at hsame
        obtain ⟨e', hsame⟩ := hsame
        exact ⟨t''.erase temporary, rfl, Same.erase h.isFree hsame⟩
      | none =>
        rw [hfill] at hsame
        exact ⟨t'', rfl, hsame⟩

variable {faults w}

/-! The whole of a write -/

def current (faults : Faults) (w : FileWrite) (t : FileTree) : Except FileError (Option String) :=
  optional (faults.call .read (t.read w.path))

def settled? (w : FileWrite) :
    Except FileError (Option String) → Option (Except WriteError WriteOutcome)
  | .error e => some (.error (.io e))
  | .ok now =>
    if now ≠ w.expected then some (.error (.conflict w.path))
    else if now = some w.content then some (.ok .unchanged)
    else none

theorem settled?_eq_none {found : Except FileError (Option String)} :
    settled? w found = none ↔ found = .ok w.expected ∧ w.expected ≠ some w.content := by
  cases found with
  | error e => simp [settled?]
  | ok now =>
    rw [settled?]
    by_cases hconflict : now = w.expected
    · subst hconflict
      simp
    · simp [hconflict]

def early? (faults : Faults) (w : FileWrite) (current : Except FileError (Option String)) :
    Option (Except WriteError WriteOutcome) :=
  (settled? w current).or
    (((faults .canonicalize).or (faults .createDirectories)).map fun e => .error (.io e))

/-- What comes of a write that finds a text or nothing, and a target with a mode or without. -/
def verdict (faults : Faults) (w : FileWrite) (current : Except FileError (Option String))
    (mode : Except FileError Nat) : Except WriteError WriteOutcome :=
  (early? faults w current).getD ((keptMode faults w.path mode).map fun _ => .written)

theorem settled?_ne_written (current : Except FileError (Option String)) :
    settled? w current ≠ some (.ok .written) := by
  cases current with
  | error e => exact nofun
  | ok now =>
    rw [settled?]
    split
    · exact nofun
    · split <;> exact nofun

theorem early?_ne_written (current : Except FileError (Option String)) :
    early? faults w current ≠ some (.ok .written) := by
  intro h
  rw [early?] at h
  rcases Option.or_eq_some_iff.1 h with hsettled | ⟨-, hfault⟩
  · exact settled?_ne_written _ hsettled
  · obtain ⟨e, -, he⟩ := Option.map_eq_some_iff.1 hfault
    cases he

theorem exists_early? {e : FileError} (h : faults .createDirectories = some e)
    (current : Except FileError (Option String)) : ∃ r, early? faults w current = some r := by
  rw [← Option.isSome_iff_exists, early?, h]
  cases settled? w current <;> cases faults .canonicalize <;> rfl

theorem run_perform_settled {r : Except WriteError WriteOutcome}
    (h : settled? w (current faults w t) = some r) : (perform faults w).run t = (r, t) := by
  simp only [perform, run_bind, run_of_io (run_noneIfNotFound (run_ask _ _))]
  rw [← current]
  cases hcurrent : current faults w t with
  | error e =>
    rw [hcurrent] at h
    rw [← Option.some.inj h]
    rfl
  | ok now =>
    rw [hcurrent, settled?] at h
    simp only [Except.mapError]
    split at h
    · rename_i hconflict
      rw [if_pos hconflict, ← Option.some.inj h]
      rfl
    · rename_i hconflict
      split at h
      · rename_i hunchanged
        rw [if_neg hconflict, if_pos hunchanged, ← Option.some.inj h]
        rfl
      · cases h

theorem run_perform_unsettled (h : settled? w (current faults w t) = none) :
    (perform faults w).run t =
      match optional (faults.call .canonicalize (t.lookup w.path)) with
      | .error e => (.error (.io e), t)
      | .ok found =>
        match ((Target.of w.path found).makeDirectories faults).run t with
        | (.error e, t₁) => (.error (.io e), t₁)
        | (.ok (), t₁) =>
          match (install faults w (.of w.path found)).run t₁ with
          | (.error e, t₂) => (.error e, t₂)
          | (.ok (), t₂) => (.ok .written, t₂) := by
  simp only [perform, run_bind, run_of_io (run_noneIfNotFound (run_ask _ _))]
  rw [← current]
  cases hcurrent : current faults w t with
  | error e =>
    rw [hcurrent] at h
    cases h
  | ok now =>
    rw [hcurrent, settled?] at h
    simp only [Except.mapError]
    split at h
    · cases h
    rename_i hconflict
    split at h
    · cases h
    rename_i hunchanged
    rw [if_neg hconflict, if_neg hunchanged]
    simp only [run_bind, run_of_io (run_noneIfNotFound (run_ask _ _))]
    cases optional (faults.call .canonicalize (t.lookup w.path)) with
    | error e => rfl
    | ok found =>
      generalize hmake : ((Target.of w.path found).makeDirectories faults).run t = made
      obtain ⟨e | ⟨⟩, t₁⟩ := made
      · simp only [Except.mapError, run_of_io hmake, hmake]
      · simp only [Except.mapError, run_of_io hmake, hmake]
        generalize (install faults w (Target.of w.path found)).run t₁ = installed
        obtain ⟨e | ⟨⟩, t₂⟩ := installed <;> rfl

theorem run_makeDirectories_target (faults : Faults) (target : Target) (t : FileTree) :
    (target.makeDirectories faults).run t =
      match faults .createDirectories with
      | some e => (.error e, t)
      | none =>
        match target with
        | .existing _ => (.ok (), t)
        | .new path => (makeDirectories faults (lineage (Target.directoryPath path))).run t := by
  unfold Target.makeDirectories
  rw [run_bind, run_ask, Faults.call]
  cases faults .createDirectories with
  | some e => rfl
  | none => cases target <;> rfl

theorem createDirectories_of_run {t₁ : FileTree}
    (h : (target.makeDirectories faults).run t = (.ok (), t₁)) :
    faults .createDirectories = none := by
  rw [run_makeDirectories_target] at h
  cases hfault : faults .createDirectories with
  | some e =>
    rw [hfault] at h
    cases h
  | none => rfl

theorem run_perform_blocked (hcanonicalize : faults .canonicalize ≠ some .notFound)
    {found : Option (Location × Entry)} (hfound : optional (t.lookup w.path) = .ok found)
    {e : FileError}
    (hdirectories : ((Target.of w.path found).makeDirectories faults).run t = (.error e, t)) :
    (perform faults w).run t =
      ((early? faults w (current faults w t)).getD (.error (.io e)), t) := by
  cases hsettled : settled? w (current faults w t) with
  | some r => rw [run_perform_settled hsettled, early?, hsettled, Option.some_or, Option.getD_some]
  | none =>
    rw [run_perform_unsettled hsettled, early?, hsettled, Option.none_or]
    cases hfault : faults .canonicalize with
    | some e' =>
      have hcall : optional (faults.call .canonicalize (t.lookup w.path)) = .error e' := by
        rw [Faults.call, hfault]
        cases e' <;> first | rfl | exact absurd hfault hcanonicalize
      rw [hcall]
      rfl
    | none =>
      rw [Faults.call, hfault]
      simp only [hfound, hdirectories, Option.none_or]
      rw [run_makeDirectories_target] at hdirectories
      cases hmake : faults .createDirectories with
      | some e' =>
        rw [hmake] at hdirectories
        rw [Except.error.inj (Prod.mk.inj hdirectories).1]
        rfl
      | none => rfl

/-- Only a write that goes through puts the text in its place. Otherwise what it leaves behind is
at most the directories it has made. -/
theorem run_perform (hcanonicalize : faults .canonicalize ≠ some .notFound)
    {found : Option (Location × Entry)} (hfound : optional (t.lookup w.path) = .ok found)
    (htarget : Target.of w.path found = target) {t₁ : FileTree}
    (hdirectories : (target.makeDirectories faults).run t = (.ok (), t₁))
    (h : target.Leads t₁ l temporary) :
    ∃ t', (perform faults w).run t = (verdict faults w (current faults w t) (target.mode t₁), t') ∧
      match verdict faults w (current faults w t) (target.mode t₁) with
      | .ok .written => ∃ mode, Same (t₁.set l (.file (.text w.content) mode)) t'
      | _ => Same t t' ∨ Same t₁ t' := by
  subst htarget
  have hmake := createDirectories_of_run hdirectories
  cases hsettled : settled? w (current faults w t) with
  | some r =>
    have hverdict : verdict faults w (current faults w t) (Target.mode t₁ (.of w.path found)) = r := by
      rw [verdict, early?, hsettled]
      rfl
    refine ⟨t, by rw [run_perform_settled hsettled, hverdict], ?_⟩
    rw [hverdict]
    split
    · rename_i hwritten
      exact absurd hsettled (settled?_ne_written _)
    · exact .inl (.refl t)
  | none =>
    rw [run_perform_unsettled hsettled, verdict, early?, hsettled, Option.none_or, hmake]
    cases hfault : faults .canonicalize with
    | some e =>
      have hcall : optional (faults.call .canonicalize (t.lookup w.path)) = .error e := by
        rw [Faults.call, hfault]
        cases e <;> first | rfl | exact absurd hfault hcanonicalize
      rw [hcall]
      exact ⟨t, rfl, .inl (.refl t)⟩
    | none =>
      rw [Faults.call, hfault]
      simp only [hfound, hdirectories]
      obtain ⟨t', hrun, hsame⟩ := run_install faults w h
      simp only [hrun]
      cases hkept : keptMode faults w.path (Target.mode t₁ _) with
      | error e =>
        rw [hkept] at hsame
        exact ⟨t', rfl, .inr hsame⟩
      | ok mode? =>
        rw [hkept] at hsame
        exact ⟨t', rfl, _, hsame⟩

theorem leads_existing {c : Content} {m : Nat} (hl : t.get? l = some (.file c m)) :
    (Target.existing l).Leads t l (l.dropLast ++ [t.unusedName]) where
  temporary_eq := rfl
  isFree := get?_unusedName t l.dropLast
  place_eq _ _ := rfl
  notDirectory := by rw [isDirectoryAt, hl]

theorem run_perform_existing (hcanonicalize : faults .canonicalize ≠ some .notFound) {c : Content}
    {m : Nat} (hlookup : t.lookup w.path = .ok (l, .file c m)) :
    ∃ t', (perform faults w).run t = (verdict faults w (current faults w t) (.ok m), t') ∧
      match verdict faults w (current faults w t) (.ok m) with
      | .ok .written => ∃ mode, Same (t.set l (.file (.text w.content) mode)) t'
      | _ => Same t t' := by
  have hget := get?_of_lookup hlookup
  have hfound : optional (t.lookup w.path) = .ok (some (l, .file c m)) := by
    rw [hlookup]
    rfl
  have hmake := run_makeDirectories_target faults (.existing l) t
  cases hfault : faults .createDirectories with
  | some e =>
    rw [hfault] at hmake
    obtain ⟨r, hearly⟩ := exists_early? (w := w) hfault (current faults w t)
    have hrun := run_perform_blocked (w := w) hcanonicalize hfound hmake
    rw [hearly, Option.getD_some] at hrun
    rw [verdict, hearly, Option.getD_some]
    refine ⟨t, hrun, ?_⟩
    split
    · exact absurd hearly (early?_ne_written _)
    · exact .refl t
  | none =>
    rw [hfault] at hmake
    have hmode : Target.mode t (.of w.path (some (l, .file c m))) = .ok m := by
      simp only [Target.of, Target.mode, hget]
    obtain ⟨t', hrun, hsame⟩ := run_perform (w := w) hcanonicalize hfound rfl hmake
      (leads_existing hget)
    rw [hmode] at hrun hsame
    refine ⟨t', hrun, ?_⟩
    split at hsame
    · exact hsame
    · rw [or_self] at hsame
      exact hsame

end Install

end FileWrite
end RowTypes
