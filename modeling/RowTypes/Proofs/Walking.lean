import Mathlib.Data.List.Basic
import RowTypes.FileTree.Operations

/-! Where paths lead in a tree that has grown. Directories and links stay and files stay files,
so a path that led somewhere leads there again, and what was in the way of a path still is. -/

namespace RowTypes

def Entry.Becomes : Entry → Entry → Prop
  | .file _ _, .file _ _ => True
  | e, e' => e = e'

namespace Entry

theorem Becomes.refl (e : Entry) : e.Becomes e := by cases e <;> first | rfl | trivial

theorem Becomes.trans {e e' e'' : Entry} (h : e.Becomes e') (h' : e'.Becomes e'') :
    e.Becomes e'' := by
  cases e <;> cases e' <;> simp only [Becomes, reduceCtorEq] at h
  · cases e'' <;> simp only [Becomes, reduceCtorEq] at h'
    trivial
  · rw [h]
    exact h'
  · rw [h]
    exact h'

theorem Becomes.directory {m : Nat} {e : Entry} (h : (directory m).Becomes e) : e = .directory m :=
  Eq.symm h

theorem Becomes.link {target : String} {e : Entry} (h : (link target).Becomes e) :
    e = .link target :=
  Eq.symm h

theorem Becomes.file {c : Content} {m : Nat} {e : Entry} (h : (file c m).Becomes e) :
    ∃ c' m', e = .file c' m' := by
  cases e with
  | file c' m' => exact ⟨c', m', rfl⟩
  | directory m' => cases h
  | link target => cases h

theorem Becomes.ne_link {e e' : Entry} (h : e.Becomes e')
    (hlink : ∀ target, e ≠ Entry.link target) (target : String) : e' ≠ Entry.link target := by
  rintro rfl
  cases e with
  | file c m => cases h
  | directory m => cases h
  | link other => exact hlink other rfl

end Entry

namespace FileTree

/-- The same entries, seen from the same directory. -/
structure Same (t t' : FileTree) : Prop where
  get? : ∀ l, t'.get? l = t.get? l
  workingDirectory : t'.workingDirectory = t.workingDirectory
  umask : t'.umask = t.umask

/-- All that was there is there, if need be with another text. -/
structure Grows (t t' : FileTree) : Prop where
  entry : ∀ l e, t.get? l = some e → ∃ e', t'.get? l = some e' ∧ e.Becomes e'
  workingDirectory : t'.workingDirectory = t.workingDirectory
  umask : t'.umask = t.umask

/-- Each entry lies in a directory, and so does the place from which paths start. -/
structure Closed (t : FileTree) : Prop where
  root : t.isDirectoryAt [] = true
  workingDirectory : t.isDirectoryAt t.workingDirectory = true
  above : ∀ l e, t.get? l = some e → t.isDirectoryAt l.dropLast = true

variable {t t' t'' : FileTree}

theorem Same.refl (t : FileTree) : Same t t := ⟨fun _ => rfl, rfl, rfl⟩

theorem Same.trans (h : Same t t') (h' : Same t' t'') : Same t t'' :=
  ⟨fun l => (h'.get? l).trans (h.get? l), h'.workingDirectory.trans h.workingDirectory,
    h'.umask.trans h.umask⟩

theorem Same.grows (h : Same t t') : Grows t t' where
  entry l e he := ⟨e, (h.get? l).trans he, .refl e⟩
  workingDirectory := h.workingDirectory
  umask := h.umask

theorem Grows.trans (h : Grows t t') (h' : Grows t' t'') : Grows t t'' where
  entry l e he := by
    obtain ⟨e', he', hbecomes⟩ := h.entry l e he
    obtain ⟨e'', he'', hbecomes'⟩ := h'.entry l e' he'
    exact ⟨e'', he'', hbecomes.trans hbecomes'⟩
  workingDirectory := h'.workingDirectory.trans h.workingDirectory
  umask := h'.umask.trans h.umask

theorem Grows.isDirectoryAt (h : Grows t t') {l : Location} (hl : t.isDirectoryAt l = true) :
    t'.isDirectoryAt l = true := by
  unfold FileTree.isDirectoryAt at hl ⊢
  split at hl
  · rename_i m hdir
    obtain ⟨e', he', hbecomes⟩ := h.entry l _ hdir
    rw [he', hbecomes.directory]
  · cases hl

theorem isDirectoryAt_eq_true {l : Location} :
    t.isDirectoryAt l = true ↔ ∃ m, t.get? l = some (.directory m) := by
  rw [FileTree.isDirectoryAt]
  cases t.get? l with
  | none => simp
  | some e => cases e <;> simp

theorem get?_ne_none_of_isDirectoryAt {l : Location} (h : t.isDirectoryAt l = true) :
    t.get? l ≠ none := by
  obtain ⟨m, hm⟩ := isDirectoryAt_eq_true.1 h
  rw [hm]
  exact nofun

theorem get?_ne_link_of_isDirectoryAt {l : Location} (h : t.isDirectoryAt l = true)
    (target : String) : t.get? l ≠ some (.link target) := by
  obtain ⟨m, hm⟩ := isDirectoryAt_eq_true.1 h
  rw [hm]
  exact nofun

theorem Grows.isDirectoryAt_eq (h : Grows t t') {l : Location} (hl : t.get? l ≠ none) :
    t'.isDirectoryAt l = t.isDirectoryAt l := by
  obtain ⟨e, he⟩ := Option.ne_none_iff_exists'.1 hl
  obtain ⟨e', he', hbecomes⟩ := h.entry l e he
  rw [FileTree.isDirectoryAt, FileTree.isDirectoryAt, he, he']
  cases e with
  | file c m =>
    obtain ⟨c', m', rfl⟩ := hbecomes.file
    rfl
  | directory m => rw [hbecomes.directory]
  | link target => rw [hbecomes.link]

theorem Closed.dropLast (h : Closed t) {l : Location} (hl : t.get? l ≠ none) :
    t.get? l.dropLast ≠ none := by
  obtain ⟨e, he⟩ := Option.ne_none_iff_exists'.1 hl
  exact get?_ne_none_of_isDirectoryAt (h.above l e he)

theorem closed_of_entries (hroot : t.isDirectoryAt [] = true)
    (hworking : t.isDirectoryAt t.workingDirectory = true)
    (hentries : ∀ entry ∈ t.entries, t.isDirectoryAt entry.1.dropLast = true) : Closed t where
  root := hroot
  workingDirectory := hworking
  above l e hl := by
    rw [get?, List.lookup_eq_some_iff] at hl
    obtain ⟨before, after, hsplit, -⟩ := hl
    exact hentries (l, e) (by rw [hsplit]; simp)

theorem Closed.origin (h : Closed t) (path : String) : t.isDirectoryAt (t.origin path) = true := by
  rw [FileTree.origin]
  split
  · exact h.root
  · exact h.workingDirectory

def found (t : FileTree) (l : Location) : Found :=
  match t.get? l with
  | none => .free l
  | some e => .entry l e

theorem found_of_none {l : Location} (h : t.get? l = none) : t.found l = .free l := by
  rw [found, h]

theorem found_of_some {l : Location} {e : Entry} (h : t.get? l = some e) :
    t.found l = .entry l e := by
  rw [found, h]

theorem of_found_eq_free {l l' : Location} (h : t.found l = .free l') :
    l = l' ∧ t.get? l = none := by
  rw [found] at h
  split at h
  · exact ⟨Found.free.inj h, by assumption⟩
  · exact nomatch h

/-! One step of a walk -/

section Step

variable {follow : Bool} {links : Nat} {here : Location} {name : String} {rest : List String}

theorem walk_nil : t.walk follow links here [] =
    match t.get? here with
    | some e => .ok (.entry here e)
    | none => .error .notFound := by
  cases links <;> rfl

theorem walk_cons : t.walk follow links here (name :: rest) =
    if !t.isDirectoryAt here then .error .notADirectory
    else if name = "." then t.walk follow links here rest
    else if name = ".." then t.walk follow links here.dropLast rest
    else match t.get? (here ++ [name]) with
      | none => if rest = [] then .ok (.free (here ++ [name])) else .error .notFound
      | some (.link target) =>
        if rest = [] ∧ follow = false then .ok (.entry (here ++ [name]) (.link target))
        else match links with
          | 0 => .error .filesystemLoop
          | links + 1 => t.walk follow links (if Path.isAbsolute target then [] else here)
              (steps target ++ rest)
      | some _ => t.walk follow links (here ++ [name]) rest := by
  cases links <;> rfl

theorem walk_of_not_isDirectoryAt (h : t.isDirectoryAt here = false) :
    t.walk follow links here (name :: rest) = .error .notADirectory := by
  rw [walk_cons, h]
  rfl

theorem walk_dot (h : t.isDirectoryAt here = true) :
    t.walk follow links here ("." :: rest) = t.walk follow links here rest := by
  rw [walk_cons, h]
  rfl

theorem walk_up (h : t.isDirectoryAt here = true) :
    t.walk follow links here (".." :: rest) = t.walk follow links here.dropLast rest := by
  rw [walk_cons, h]
  rfl

variable (h : t.isDirectoryAt here = true) (hdot : name ≠ ".") (hup : name ≠ "..")

include h hdot hup

theorem walk_name : t.walk follow links here (name :: rest) =
    match t.get? (here ++ [name]) with
      | none => if rest = [] then .ok (.free (here ++ [name])) else .error .notFound
      | some (.link target) =>
        if rest = [] ∧ follow = false then .ok (.entry (here ++ [name]) (.link target))
        else match links with
          | 0 => .error .filesystemLoop
          | links + 1 => t.walk follow links (if Path.isAbsolute target then [] else here)
              (steps target ++ rest)
      | some _ => t.walk follow links (here ++ [name]) rest := by
  rw [walk_cons, h, if_neg (by simp), if_neg hdot, if_neg hup]

theorem walk_none (hget : t.get? (here ++ [name]) = none) :
    t.walk follow links here (name :: rest) =
      if rest = [] then .ok (.free (here ++ [name])) else .error .notFound := by
  rw [walk_name h hdot hup, hget]

theorem walk_last_link {target : String} (hget : t.get? (here ++ [name]) = some (.link target)) :
    t.walk false links here [name] = .ok (.entry (here ++ [name]) (.link target)) := by
  rw [walk_name h hdot hup, hget]
  exact if_pos ⟨rfl, rfl⟩

theorem walk_link {target : String} (hget : t.get? (here ++ [name]) = some (.link target))
    (hgo : ¬(rest = [] ∧ follow = false)) :
    t.walk follow (links + 1) here (name :: rest) =
      t.walk follow links (if Path.isAbsolute target then [] else here) (steps target ++ rest) := by
  rw [walk_name h hdot hup, hget]
  exact if_neg hgo

theorem walk_loop {target : String} (hget : t.get? (here ++ [name]) = some (.link target))
    (hgo : ¬(rest = [] ∧ follow = false)) :
    t.walk follow 0 here (name :: rest) = .error .filesystemLoop := by
  rw [walk_name h hdot hup, hget]
  exact if_neg hgo

theorem walk_into {e : Entry} (hget : t.get? (here ++ [name]) = some e)
    (hlink : ∀ target, e ≠ .link target) :
    t.walk follow links here (name :: rest) = t.walk follow links (here ++ [name]) rest := by
  rw [walk_name h hdot hup, hget]
  cases e with
  | link target => exact absurd rfl (hlink target)
  | file c m => rfl
  | directory m => rfl

theorem walk_last : t.walk false links here [name] =
    .ok (t.found (here ++ [name])) := by
  cases hget : t.get? (here ++ [name]) with
  | none => rw [walk_none h hdot hup hget, if_pos rfl, found_of_none hget]
  | some e =>
    rw [found_of_some hget]
    cases e with
    | link target => rw [walk_last_link h hdot hup hget]
    | file c m => rw [walk_into h hdot hup hget nofun, walk_nil, hget]
    | directory m => rw [walk_into h hdot hup hget nofun, walk_nil, hget]

theorem walk_last_of_ne_link (hlink : ∀ target, t.get? (here ++ [name]) ≠ some (.link target)) :
    t.walk follow links here [name] = .ok (t.found (here ++ [name])) := by
  cases hget : t.get? (here ++ [name]) with
  | none => rw [walk_none h hdot hup hget, if_pos rfl, found_of_none hget]
  | some e =>
    rw [walk_into h hdot hup hget fun target he => hlink target (he ▸ hget), walk_nil, hget,
      found_of_some hget]

theorem walk_file_ne {c : Content} {n m : Nat} (hget : t.get? (here ++ [name]) = some (.file c n))
    (l : Location) : t.walk follow links here (name :: rest) ≠ .ok (.entry l (.directory m)) := by
  intro hwalk
  rw [walk_into h hdot hup hget fun _ => Entry.noConfusion] at hwalk
  cases rest with
  | nil =>
    rw [walk_nil, hget] at hwalk
    cases (Found.entry.inj (Except.ok.inj hwalk)).2
  | cons next rest =>
    rw [walk_of_not_isDirectoryAt (by rw [FileTree.isDirectoryAt, hget])] at hwalk
    cases hwalk

end Step

/-- The steps that a walk may take. -/
theorem walk_induction (t : FileTree) (follow : Bool)
    {motive : Nat → Location → List String → Prop}
    (nil : ∀ links here, motive links here [])
    (blocked : ∀ links here name rest, t.isDirectoryAt here = false →
      motive links here (name :: rest))
    (dot : ∀ links here rest, t.isDirectoryAt here = true → motive links here rest →
      motive links here ("." :: rest))
    (up : ∀ links here rest, t.isDirectoryAt here = true → motive links here.dropLast rest →
      motive links here (".." :: rest))
    (missing : ∀ links here name rest, t.isDirectoryAt here = true → name ≠ "." → name ≠ ".." →
      t.get? (here ++ [name]) = none → motive links here (name :: rest))
    (lastLink : ∀ links here name target, t.isDirectoryAt here = true → name ≠ "." →
      name ≠ ".." → t.get? (here ++ [name]) = some (.link target) → follow = false →
      motive links here [name])
    (loop : ∀ here name rest target, t.isDirectoryAt here = true → name ≠ "." → name ≠ ".." →
      t.get? (here ++ [name]) = some (.link target) → ¬(rest = [] ∧ follow = false) →
      motive 0 here (name :: rest))
    (link : ∀ links here name rest target, t.isDirectoryAt here = true → name ≠ "." →
      name ≠ ".." → t.get? (here ++ [name]) = some (.link target) →
      ¬(rest = [] ∧ follow = false) →
      motive links (if Path.isAbsolute target then [] else here) (steps target ++ rest) →
      motive (links + 1) here (name :: rest))
    (into : ∀ links here name rest e, t.isDirectoryAt here = true → name ≠ "." → name ≠ ".." →
      t.get? (here ++ [name]) = some e → (∀ target, e ≠ .link target) →
      motive links (here ++ [name]) rest → motive links here (name :: rest))
    (links : Nat) (here : Location) (names : List String) : motive links here names := by
  have hnames : ∀ links, (∀ here name rest target, t.isDirectoryAt here = true → name ≠ "." →
      name ≠ ".." → t.get? (here ++ [name]) = some (.link target) →
      ¬(rest = [] ∧ follow = false) → motive links here (name :: rest)) →
      ∀ here names, motive links here names := by
    intro links hlink here names
    induction names generalizing here with
    | nil => exact nil links here
    | cons name rest ih =>
      by_cases hdir : t.isDirectoryAt here = true
      · by_cases hdot : name = "."
        · exact hdot ▸ dot links here rest hdir (ih here)
        by_cases hup : name = ".."
        · exact hup ▸ up links here rest hdir (ih here.dropLast)
        cases hget : t.get? (here ++ [name]) with
        | none => exact missing links here name rest hdir hdot hup hget
        | some e =>
          cases e with
          | file c m => exact into links here name rest _ hdir hdot hup hget nofun (ih _)
          | directory m => exact into links here name rest _ hdir hdot hup hget nofun (ih _)
          | link target =>
            by_cases hlast : rest = [] ∧ follow = false
            · obtain ⟨rfl, hfollow⟩ := hlast
              exact lastLink links here name target hdir hdot hup hget hfollow
            · exact hlink here name rest target hdir hdot hup hget hlast
      · exact blocked links here name rest (by simpa using hdir)
  induction links generalizing here names with
  | zero => exact hnames 0 loop here names
  | succ links ih =>
    exact hnames (links + 1) (fun here name rest target hdir hdot hup hget hlast =>
      link links here name rest target hdir hdot hup hget hlast (ih _ _)) here names

/-! A walk reaches what is there -/

section Reach

variable {follow : Bool} {links : Nat} {here : Location} {names : List String} {l : Location}

theorem walk_get? {e : Entry} (h : t.walk follow links here names = .ok (.entry l e)) :
    t.get? l = some e := by
  induction links, here, names using walk_induction t follow with
  | nil links here =>
    rw [walk_nil] at h
    split at h
    · rename_i e' he'
      obtain ⟨rfl, rfl⟩ := Found.entry.inj (Except.ok.inj h)
      exact he'
    · exact nomatch h
  | blocked links here name rest hdir => exact nomatch (walk_of_not_isDirectoryAt hdir).symm.trans h
  | dot links here rest hdir ih => exact ih ((walk_dot hdir).symm.trans h)
  | up links here rest hdir ih => exact ih ((walk_up hdir).symm.trans h)
  | missing links here name rest hdir hdot hup hget =>
    rw [walk_none hdir hdot hup hget] at h
    split at h
    · exact nomatch Except.ok.inj h
    · exact nomatch h
  | lastLink links here name target hdir hdot hup hget hfollow =>
    subst hfollow
    rw [walk_last_link hdir hdot hup hget] at h
    obtain ⟨rfl, rfl⟩ := Found.entry.inj (Except.ok.inj h)
    exact hget
  | loop here name rest target hdir hdot hup hget hgo =>
    exact nomatch (walk_loop hdir hdot hup hget hgo).symm.trans h
  | link links here name rest target hdir hdot hup hget hgo ih =>
    exact ih ((walk_link hdir hdot hup hget hgo).symm.trans h)
  | into links here name rest e' hdir hdot hup hget hlink ih =>
    exact ih ((walk_into hdir hdot hup hget hlink).symm.trans h)

theorem walk_free (h : t.walk follow links here names = .ok (.free l)) :
    t.get? l = none ∧ t.isDirectoryAt l.dropLast = true := by
  induction links, here, names using walk_induction t follow with
  | nil links here =>
    rw [walk_nil] at h
    split at h
    · exact nomatch Except.ok.inj h
    · exact nomatch h
  | blocked links here name rest hdir => exact nomatch (walk_of_not_isDirectoryAt hdir).symm.trans h
  | dot links here rest hdir ih => exact ih ((walk_dot hdir).symm.trans h)
  | up links here rest hdir ih => exact ih ((walk_up hdir).symm.trans h)
  | missing links here name rest hdir hdot hup hget =>
    rw [walk_none hdir hdot hup hget] at h
    split at h
    · obtain rfl := Found.free.inj (Except.ok.inj h)
      exact ⟨hget, by simpa using hdir⟩
    · exact nomatch h
  | lastLink links here name target hdir hdot hup hget hfollow =>
    subst hfollow
    rw [walk_last_link hdir hdot hup hget] at h
    exact nomatch Except.ok.inj h
  | loop here name rest target hdir hdot hup hget hgo =>
    exact nomatch (walk_loop hdir hdot hup hget hgo).symm.trans h
  | link links here name rest target hdir hdot hup hget hgo ih =>
    exact ih ((walk_link hdir hdot hup hget hgo).symm.trans h)
  | into links here name rest e' hdir hdot hup hget hlink ih =>
    exact ih ((walk_into hdir hdot hup hget hlink).symm.trans h)

theorem walk_free_follow (h : t.walk follow links here names = .ok (.free l)) :
    t.walk true links here names = .ok (.free l) := by
  induction links, here, names using walk_induction t follow with
  | nil links here =>
    rw [walk_nil] at h ⊢
    exact h
  | blocked links here name rest hdir => exact nomatch (walk_of_not_isDirectoryAt hdir).symm.trans h
  | dot links here rest hdir ih => rw [walk_dot hdir, ih ((walk_dot hdir).symm.trans h)]
  | up links here rest hdir ih => rw [walk_up hdir, ih ((walk_up hdir).symm.trans h)]
  | missing links here name rest hdir hdot hup hget =>
    rw [walk_none hdir hdot hup hget] at h ⊢
    exact h
  | lastLink links here name target hdir hdot hup hget hfollow =>
    subst hfollow
    rw [walk_last_link hdir hdot hup hget] at h
    exact nomatch Except.ok.inj h
  | loop here name rest target hdir hdot hup hget hgo =>
    exact nomatch (walk_loop hdir hdot hup hget hgo).symm.trans h
  | link links here name rest target hdir hdot hup hget hgo ih =>
    rw [walk_link hdir hdot hup hget (by simp), ih ((walk_link hdir hdot hup hget hgo).symm.trans h)]
  | into links here name rest e' hdir hdot hup hget hlink ih =>
    rw [walk_into hdir hdot hup hget hlink, ih ((walk_into hdir hdot hup hget hlink).symm.trans h)]

theorem walk_ne_link (hclosed : Closed t) (hhere : ∀ target, t.get? here ≠ some (.link target))
    (target : String) : t.walk true links here names ≠ .ok (.entry l (.link target)) := by
  intro h
  induction links, here, names using walk_induction t true with
  | nil links here =>
    rw [walk_nil] at h
    split at h
    · rename_i e he
      obtain ⟨rfl, rfl⟩ := Found.entry.inj (Except.ok.inj h)
      exact hhere target he
    · cases h
  | blocked links here name rest hdir => cases (walk_of_not_isDirectoryAt hdir).symm.trans h
  | dot links here rest hdir ih => exact ih hhere ((walk_dot hdir).symm.trans h)
  | up links here rest hdir ih =>
    obtain ⟨m, hm⟩ := isDirectoryAt_eq_true.1 hdir
    exact ih (get?_ne_link_of_isDirectoryAt (hclosed.above here _ hm)) ((walk_up hdir).symm.trans h)
  | missing links here name rest hdir hdot hup hget =>
    rw [walk_none hdir hdot hup hget] at h
    split at h
    · cases Except.ok.inj h
    · cases h
  | lastLink links here name target' hdir hdot hup hget hfollow => cases hfollow
  | loop here name rest target' hdir hdot hup hget hgo =>
    cases (walk_loop hdir hdot hup hget hgo).symm.trans h
  | link links here name rest target' hdir hdot hup hget hgo ih =>
    refine ih (get?_ne_link_of_isDirectoryAt ?_) ((walk_link hdir hdot hup hget hgo).symm.trans h)
    split
    · exact hclosed.root
    · exact hdir
  | into links here name rest e hdir hdot hup hget hlink ih =>
    refine ih (fun target' he => hlink target' ?_) ((walk_into hdir hdot hup hget hlink).symm.trans h)
    exact Option.some.inj (hget.symm.trans he)

end Reach

/-! A walk that goes on -/

section Append

variable {links : Nat} {here : Location} {names : List String}

theorem walk_append {l : Location} {e : Entry}
    (h : t.walk true links here names = .ok (.entry l e)) :
    ∃ left, ∀ (follow : Bool) (name : String) (more : List String),
      t.walk follow links here (names ++ name :: more) = t.walk follow left l (name :: more) := by
  induction links, here, names using walk_induction t true with
  | nil links here =>
    rw [walk_nil] at h
    split at h
    · obtain ⟨rfl, rfl⟩ := Found.entry.inj (Except.ok.inj h)
      exact ⟨links, fun _ _ _ => rfl⟩
    · exact nomatch h
  | blocked links here name rest hdir => exact nomatch (walk_of_not_isDirectoryAt hdir).symm.trans h
  | dot links here rest hdir ih =>
    obtain ⟨left, hleft⟩ := ih ((walk_dot hdir).symm.trans h)
    exact ⟨left, fun follow name more => by rw [List.cons_append, walk_dot hdir, hleft]⟩
  | up links here rest hdir ih =>
    obtain ⟨left, hleft⟩ := ih ((walk_up hdir).symm.trans h)
    exact ⟨left, fun follow name more => by rw [List.cons_append, walk_up hdir, hleft]⟩
  | missing links here name rest hdir hdot hup hget =>
    rw [walk_none hdir hdot hup hget] at h
    split at h
    · exact nomatch Except.ok.inj h
    · exact nomatch h
  | lastLink links here name target hdir hdot hup hget hfollow => exact nomatch hfollow
  | loop here name rest target hdir hdot hup hget hgo =>
    exact nomatch (walk_loop hdir hdot hup hget hgo).symm.trans h
  | link links here name rest target hdir hdot hup hget hgo ih =>
    obtain ⟨left, hleft⟩ := ih ((walk_link hdir hdot hup hget hgo).symm.trans h)
    refine ⟨left, fun follow next more => ?_⟩
    rw [List.cons_append, walk_link hdir hdot hup hget (by simp), ← List.append_assoc, hleft]
  | into links here name rest e' hdir hdot hup hget hlink ih =>
    obtain ⟨left, hleft⟩ := ih ((walk_into hdir hdot hup hget hlink).symm.trans h)
    refine ⟨left, fun follow next more => ?_⟩
    rw [List.cons_append, walk_into hdir hdot hup hget hlink, hleft]

theorem walk_append_error {error : FileError} (h : t.walk true links here names = .error error)
    (hother : error ≠ .notFound) (follow : Bool) (next : String) (more : List String) :
    t.walk follow links here (names ++ next :: more) = .error error := by
  induction links, here, names using walk_induction t true with
  | nil links here =>
    rw [walk_nil] at h
    split at h
    · exact nomatch h
    · exact absurd (Except.error.inj h).symm hother
  | blocked links here name rest hdir =>
    rw [walk_of_not_isDirectoryAt hdir] at h
    rw [List.cons_append, walk_of_not_isDirectoryAt hdir, h]
  | dot links here rest hdir ih =>
    rw [List.cons_append, walk_dot hdir, ih ((walk_dot hdir).symm.trans h)]
  | up links here rest hdir ih =>
    rw [List.cons_append, walk_up hdir, ih ((walk_up hdir).symm.trans h)]
  | missing links here name rest hdir hdot hup hget =>
    rw [walk_none hdir hdot hup hget] at h
    split at h
    · exact nomatch h
    · exact absurd (Except.error.inj h).symm hother
  | lastLink links here name target hdir hdot hup hget hfollow => exact nomatch hfollow
  | loop here name rest target hdir hdot hup hget hgo =>
    rw [walk_loop hdir hdot hup hget hgo] at h
    rw [List.cons_append, walk_loop hdir hdot hup hget (by simp), h]
  | link links here name rest target hdir hdot hup hget hgo ih =>
    rw [List.cons_append, walk_link hdir hdot hup hget (by simp), ← List.append_assoc,
      ih ((walk_link hdir hdot hup hget hgo).symm.trans h)]
  | into links here name rest e' hdir hdot hup hget hlink ih =>
    rw [List.cons_append, walk_into hdir hdot hup hget hlink,
      ih ((walk_into hdir hdot hup hget hlink).symm.trans h)]

theorem walk_prefix {follow : Bool} {next : String} {more : List String} {l : Location} {e : Entry}
    (h : t.walk follow links here (names ++ next :: more) = .ok (.entry l e)) :
    ∃ d m, t.walk true links here names = .ok (.entry d (.directory m)) := by
  have hhere : ∀ links here, t.isDirectoryAt here = true →
      ∃ d m, t.walk true links here [] = .ok (.entry d (.directory m)) := by
    intro links here hdir
    obtain ⟨m, hm⟩ := isDirectoryAt_eq_true.1 hdir
    exact ⟨here, m, by rw [walk_nil, hm]⟩
  generalize hall : names ++ next :: more = all at h
  induction links, here, all using walk_induction t follow generalizing names with
  | nil links here => exact absurd hall (by simp)
  | blocked links here name rest hdir => exact nomatch (walk_of_not_isDirectoryAt hdir).symm.trans h
  | dot links here rest hdir ih =>
    rcases List.append_eq_cons_iff.1 hall with ⟨rfl, -⟩ | ⟨names, rfl, rfl⟩
    · exact hhere links here hdir
    · rw [walk_dot hdir]
      exact ih rfl ((walk_dot hdir).symm.trans h)
  | up links here rest hdir ih =>
    rcases List.append_eq_cons_iff.1 hall with ⟨rfl, -⟩ | ⟨names, rfl, rfl⟩
    · exact hhere links here hdir
    · rw [walk_up hdir]
      exact ih rfl ((walk_up hdir).symm.trans h)
  | missing links here name rest hdir hdot hup hget =>
    rw [walk_none hdir hdot hup hget] at h
    split at h
    · exact nomatch Except.ok.inj h
    · exact nomatch h
  | lastLink links here name target hdir hdot hup hget hfollow =>
    rcases List.append_eq_cons_iff.1 hall with ⟨rfl, -⟩ | ⟨names, rfl, hnil⟩
    · exact hhere links here hdir
    · exact absurd hnil.symm (by simp)
  | loop here name rest target hdir hdot hup hget hgo =>
    exact nomatch (walk_loop hdir hdot hup hget hgo).symm.trans h
  | link links here name rest target hdir hdot hup hget hgo ih =>
    rcases List.append_eq_cons_iff.1 hall with ⟨rfl, -⟩ | ⟨names, rfl, rfl⟩
    · exact hhere _ here hdir
    · rw [walk_link hdir hdot hup hget (by simp)]
      exact ih (List.append_assoc ..) ((walk_link hdir hdot hup hget hgo).symm.trans h)
  | into links here name rest e' hdir hdot hup hget hlink ih =>
    rcases List.append_eq_cons_iff.1 hall with ⟨rfl, -⟩ | ⟨names, rfl, rfl⟩
    · exact hhere links here hdir
    · rw [walk_into hdir hdot hup hget hlink]
      exact ih rfl ((walk_into hdir hdot hup hget hlink).symm.trans h)

theorem walk_concat_dot {l : Location} {e : Entry} :
    t.walk true links here (names ++ ["."]) = .ok (.entry l e) ↔
      (∃ m, e = .directory m) ∧ t.walk true links here names = .ok (.entry l e) := by
  constructor
  · intro h
    obtain ⟨d, m, hwalk⟩ := walk_prefix h
    have hget := walk_get? hwalk
    obtain ⟨left, hleft⟩ := walk_append hwalk
    rw [hleft, walk_dot (isDirectoryAt_eq_true.2 ⟨m, hget⟩), walk_nil, hget] at h
    obtain ⟨rfl, rfl⟩ := Found.entry.inj (Except.ok.inj h)
    exact ⟨⟨m, rfl⟩, hwalk⟩
  · rintro ⟨⟨m, rfl⟩, hwalk⟩
    have hget := walk_get? hwalk
    obtain ⟨left, hleft⟩ := walk_append hwalk
    rw [hleft, walk_dot (isDirectoryAt_eq_true.2 ⟨m, hget⟩), walk_nil, hget]

theorem walk_filter {before : List String} {l : Location} {e : Entry}
    (h : t.walk true links here (before ++ names) = .ok (.entry l e)) {follow : Bool}
    {more : List String} (hmore : ¬(more = [] ∧ follow = false)) :
    t.walk follow links here (before ++ names.filter (· ≠ ".") ++ more) =
      t.walk follow links here (before ++ names ++ more) := by
  have hgo : ∀ rest : List String, ¬(rest ++ more = [] ∧ follow = false) := fun rest hrest =>
    hmore ⟨(List.append_eq_nil_iff.1 hrest.1).2, hrest.2⟩
  generalize hall : before ++ names = all at h
  induction links, here, all using walk_induction t true generalizing before names with
  | nil links here =>
    obtain ⟨rfl, rfl⟩ := List.append_eq_nil_iff.1 hall
    rfl
  | blocked links here name rest hdir => exact nomatch (walk_of_not_isDirectoryAt hdir).symm.trans h
  | dot links here rest hdir ih =>
    have h := (walk_dot hdir).symm.trans h
    rcases List.append_eq_cons_iff.1 hall with ⟨rfl, rfl⟩ | ⟨before, rfl, rfl⟩
    · rw [List.filter_cons_of_neg (by simp), List.nil_append, List.cons_append, walk_dot hdir]
      exact ih (List.nil_append _) h
    · simp only [List.cons_append, walk_dot hdir]
      exact ih rfl h
  | up links here rest hdir ih =>
    have h := (walk_up hdir).symm.trans h
    rcases List.append_eq_cons_iff.1 hall with ⟨rfl, rfl⟩ | ⟨before, rfl, rfl⟩
    · rw [List.filter_cons_of_pos (by simp)]
      simp only [List.nil_append, List.cons_append, walk_up hdir]
      exact ih (List.nil_append _) h
    · simp only [List.cons_append, walk_up hdir]
      exact ih rfl h
  | missing links here name rest hdir hdot hup hget =>
    rw [walk_none hdir hdot hup hget] at h
    split at h
    · exact nomatch Except.ok.inj h
    · exact nomatch h
  | lastLink links here name target hdir hdot hup hget hfollow => exact nomatch hfollow
  | loop here name rest target hdir hdot hup hget hlast =>
    exact nomatch (walk_loop hdir hdot hup hget hlast).symm.trans h
  | link links here name rest target hdir hdot hup hget hlast ih =>
    have h := (walk_link hdir hdot hup hget hlast).symm.trans h
    rcases List.append_eq_cons_iff.1 hall with ⟨rfl, rfl⟩ | ⟨before, rfl, rfl⟩
    · rw [List.filter_cons_of_pos (by simpa using hdot)]
      simp only [List.nil_append, List.cons_append]
      rw [walk_link hdir hdot hup hget (hgo _), walk_link hdir hdot hup hget (hgo _),
        ← List.append_assoc, ← List.append_assoc]
      exact ih rfl h
    · simp only [List.cons_append]
      rw [walk_link hdir hdot hup hget (hgo _), walk_link hdir hdot hup hget (hgo _)]
      have hih := ih (List.append_assoc (steps target) before names) h
      simp only [List.append_assoc] at hih ⊢
      exact hih
  | into links here name rest e' hdir hdot hup hget hlink ih =>
    have h := (walk_into hdir hdot hup hget hlink).symm.trans h
    rcases List.append_eq_cons_iff.1 hall with ⟨rfl, rfl⟩ | ⟨before, rfl, rfl⟩
    · rw [List.filter_cons_of_pos (by simpa using hdot)]
      simp only [List.nil_append, List.cons_append, walk_into hdir hdot hup hget hlink]
      exact ih (List.nil_append _) h
    · simp only [List.cons_append, walk_into hdir hdot hup hget hlink]
      exact ih rfl h

end Append

/-! A walk in a tree that has grown -/

namespace Grows

variable (h : Grows t t') {follow : Bool} {links : Nat} {here : Location} {names : List String}

include h

theorem link {l : Location} {target : String} (hl : t.get? l = some (.link target)) :
    t'.get? l = some (.link target) := by
  obtain ⟨e', he', hbecomes⟩ := h.entry l _ hl
  rw [he', hbecomes.link]

theorem walk {l : Location} {e : Entry}
    (hwalk : t.walk follow links here names = .ok (.entry l e)) :
    ∃ e', t'.walk follow links here names = .ok (.entry l e') ∧ e.Becomes e' := by
  induction links, here, names using walk_induction t follow with
  | nil links here =>
    rw [walk_nil] at hwalk
    split at hwalk
    · rename_i e₁ he₁
      obtain ⟨rfl, rfl⟩ := Found.entry.inj (Except.ok.inj hwalk)
      obtain ⟨e', he', hbecomes⟩ := h.entry here e₁ he₁
      exact ⟨e', by rw [walk_nil, he'], hbecomes⟩
    · exact nomatch hwalk
  | blocked links here name rest hdir =>
    exact nomatch (walk_of_not_isDirectoryAt hdir).symm.trans hwalk
  | dot links here rest hdir ih =>
    rw [walk_dot (h.isDirectoryAt hdir)]
    exact ih ((walk_dot hdir).symm.trans hwalk)
  | up links here rest hdir ih =>
    rw [walk_up (h.isDirectoryAt hdir)]
    exact ih ((walk_up hdir).symm.trans hwalk)
  | missing links here name rest hdir hdot hup hget =>
    rw [walk_none hdir hdot hup hget] at hwalk
    split at hwalk
    · exact nomatch Except.ok.inj hwalk
    · exact nomatch hwalk
  | lastLink links here name target hdir hdot hup hget hfollow =>
    subst hfollow
    rw [walk_last_link hdir hdot hup hget] at hwalk
    obtain ⟨rfl, rfl⟩ := Found.entry.inj (Except.ok.inj hwalk)
    exact ⟨_, walk_last_link (h.isDirectoryAt hdir) hdot hup (h.link hget), .refl _⟩
  | loop here name rest target hdir hdot hup hget hgo =>
    exact nomatch (walk_loop hdir hdot hup hget hgo).symm.trans hwalk
  | link links here name rest target hdir hdot hup hget hgo ih =>
    rw [walk_link (h.isDirectoryAt hdir) hdot hup (h.link hget) hgo]
    exact ih ((walk_link hdir hdot hup hget hgo).symm.trans hwalk)
  | into links here name rest e₁ hdir hdot hup hget hlink ih =>
    obtain ⟨e', he', hbecomes⟩ := h.entry _ e₁ hget
    rw [walk_into (h.isDirectoryAt hdir) hdot hup he' (hbecomes.ne_link hlink)]
    exact ih ((walk_into hdir hdot hup hget hlink).symm.trans hwalk)

/-- What was missing is still missing, or there is now what has its place. -/
theorem walk_free {l : Location} (hwalk : t.walk follow links here names = .ok (.free l))
    (hlink : ∀ target, t'.get? l ≠ some (.link target)) :
    t'.walk follow links here names = .ok (t'.found l) := by
  induction links, here, names using walk_induction t follow with
  | nil links here =>
    rw [walk_nil] at hwalk
    split at hwalk
    · exact nomatch Except.ok.inj hwalk
    · exact nomatch hwalk
  | blocked links here name rest hdir =>
    exact nomatch (walk_of_not_isDirectoryAt hdir).symm.trans hwalk
  | dot links here rest hdir ih =>
    rw [walk_dot (h.isDirectoryAt hdir), ih ((walk_dot hdir).symm.trans hwalk)]
  | up links here rest hdir ih =>
    rw [walk_up (h.isDirectoryAt hdir), ih ((walk_up hdir).symm.trans hwalk)]
  | missing links here name rest hdir hdot hup hget =>
    rw [walk_none hdir hdot hup hget] at hwalk
    split at hwalk
    · rename_i hrest
      subst hrest
      obtain rfl := Found.free.inj (Except.ok.inj hwalk)
      exact walk_last_of_ne_link (h.isDirectoryAt hdir) hdot hup hlink
    · exact nomatch hwalk
  | lastLink links here name target hdir hdot hup hget hfollow =>
    subst hfollow
    rw [walk_last_link hdir hdot hup hget] at hwalk
    exact nomatch Except.ok.inj hwalk
  | loop here name rest target hdir hdot hup hget hgo =>
    exact nomatch (walk_loop hdir hdot hup hget hgo).symm.trans hwalk
  | link links here name rest target hdir hdot hup hget hgo ih =>
    rw [walk_link (h.isDirectoryAt hdir) hdot hup (h.link hget) hgo]
    exact ih ((walk_link hdir hdot hup hget hgo).symm.trans hwalk)
  | into links here name rest e₁ hdir hdot hup hget hnot ih =>
    obtain ⟨e', he', hbecomes⟩ := h.entry _ e₁ hget
    rw [walk_into (h.isDirectoryAt hdir) hdot hup he' (hbecomes.ne_link hnot)]
    exact ih ((walk_into hdir hdot hup hget hnot).symm.trans hwalk)

theorem walk_error (hclosed : Closed t) {error : FileError} (hhere : t.get? here ≠ none)
    (hwalk : t.walk follow links here names = .error error) (hother : error ≠ .notFound) :
    t'.walk follow links here names = .error error := by
  induction links, here, names using walk_induction t follow with
  | nil links here =>
    rw [walk_nil] at hwalk
    split at hwalk
    · exact nomatch hwalk
    · exact absurd (Except.error.inj hwalk).symm hother
  | blocked links here name rest hdir =>
    rw [walk_of_not_isDirectoryAt hdir] at hwalk
    rw [walk_of_not_isDirectoryAt ((h.isDirectoryAt_eq hhere).trans hdir), hwalk]
  | dot links here rest hdir ih =>
    rw [walk_dot (h.isDirectoryAt hdir), ih hhere ((walk_dot hdir).symm.trans hwalk)]
  | up links here rest hdir ih =>
    rw [walk_up (h.isDirectoryAt hdir),
      ih (hclosed.dropLast hhere) ((walk_up hdir).symm.trans hwalk)]
  | missing links here name rest hdir hdot hup hget =>
    rw [walk_none hdir hdot hup hget] at hwalk
    split at hwalk
    · exact nomatch hwalk
    · exact absurd (Except.error.inj hwalk).symm hother
  | lastLink links here name target hdir hdot hup hget hfollow =>
    subst hfollow
    rw [walk_last_link hdir hdot hup hget] at hwalk
    exact nomatch hwalk
  | loop here name rest target hdir hdot hup hget hgo =>
    rw [walk_loop hdir hdot hup hget hgo] at hwalk
    rw [walk_loop (h.isDirectoryAt hdir) hdot hup (h.link hget) hgo, hwalk]
  | link links here name rest target hdir hdot hup hget hgo ih =>
    rw [walk_link (h.isDirectoryAt hdir) hdot hup (h.link hget) hgo]
    refine ih ?_ ((walk_link hdir hdot hup hget hgo).symm.trans hwalk)
    split
    · exact get?_ne_none_of_isDirectoryAt hclosed.root
    · exact hhere
  | into links here name rest e₁ hdir hdot hup hget hnot ih =>
    obtain ⟨e', he', hbecomes⟩ := h.entry _ e₁ hget
    rw [walk_into (h.isDirectoryAt hdir) hdot hup he' (hbecomes.ne_link hnot)]
    exact ih (by rw [hget]; exact nofun) ((walk_into hdir hdot hup hget hnot).symm.trans hwalk)

end Grows

/-! What paths lead to -/

theorem lookup_eq_ok {path : String} {l : Location} {e : Entry} :
    t.lookup path = .ok (l, e) ↔ t.resolve true path = .ok (.entry l e) := by
  rw [lookup]
  split <;> simp_all

theorem resolve_of_lookup_error {path : String} {error : FileError}
    (h : t.lookup path = .error error) (hother : error ≠ .notFound) :
    t.resolve true path = .error error := by
  rw [lookup] at h
  split at h
  · exact nomatch h
  · exact absurd (Except.error.inj h).symm hother
  · rename_i hresolve
    rw [hresolve, Except.error.inj h]

theorem get?_of_lookup {path : String} {l : Location} {e : Entry}
    (h : t.lookup path = .ok (l, e)) : t.get? l = some e := by
  rw [lookup_eq_ok, resolve] at h
  split at h
  · exact nomatch h
  · exact walk_get? h

theorem Grows.lookup (h : Grows t t') {path : String} {l : Location} {e : Entry}
    (hlookup : t.lookup path = .ok (l, e)) :
    ∃ e', t'.lookup path = .ok (l, e') ∧ t'.get? l = some e' ∧ e.Becomes e' := by
  rw [lookup_eq_ok, resolve] at hlookup
  split at hlookup
  · exact nomatch hlookup
  · rename_i hpath
    obtain ⟨e', he', hbecomes⟩ := h.walk hlookup
    have horigin : t'.origin path = t.origin path := by simp only [origin, h.workingDirectory]
    refine ⟨e', ?_, walk_get? he', hbecomes⟩
    rw [lookup_eq_ok, resolve, if_neg hpath, horigin, he']

theorem Grows.resolve_free (h : Grows t t') {follow : Bool} {path : String} {l : Location}
    (hresolve : t.resolve follow path = .ok (.free l))
    (hlink : ∀ target, t'.get? l ≠ some (.link target)) :
    t'.resolve follow path = .ok (t'.found l) := by
  rw [resolve] at hresolve
  split at hresolve
  · exact nomatch hresolve
  · rename_i hpath
    have horigin : t'.origin path = t.origin path := by simp only [origin, h.workingDirectory]
    rw [resolve, if_neg hpath, horigin, h.walk_free hresolve hlink]

theorem lookup_ne_link (hclosed : Closed t) {path : String} {l : Location} {e : Entry}
    (h : t.lookup path = .ok (l, e)) (target : String) : e ≠ .link target := by
  rintro rfl
  rw [lookup_eq_ok, resolve] at h
  split at h
  · cases h
  · exact walk_ne_link hclosed (get?_ne_link_of_isDirectoryAt (hclosed.origin path)) target h

theorem read_of_lookup {path : String} {l : Location} {s : String} {m : Nat}
    (h : t.lookup path = .ok (l, .file (.text s) m)) : t.read path = .ok s := by
  rw [read, h]
  rfl

theorem exists_of_read {path s : String} (h : t.read path = .ok s) :
    ∃ l m, t.lookup path = .ok (l, .file (.text s) m) := by
  rw [read] at h
  cases hlookup : t.lookup path with
  | error e => rw [hlookup] at h; exact nomatch h
  | ok found =>
    rw [hlookup] at h
    obtain ⟨l, e⟩ := found
    cases e with
    | file c m =>
      cases c with
      | text s' =>
        obtain rfl := Except.ok.inj h
        exact ⟨l, m, rfl⟩
      | binary bytes => exact nomatch h
    | directory m => exact nomatch h
    | link target => exact nomatch h

/-! A tree with the same entries -/

namespace Same

variable (h : Same t t')

include h

theorem isDirectoryAt (l : Location) : t'.isDirectoryAt l = t.isDirectoryAt l := by
  simp only [FileTree.isDirectoryAt, h.get?]

theorem walk (follow : Bool) (links : Nat) (here : Location) (names : List String) :
    t'.walk follow links here names = t.walk follow links here names := by
  induction links, here, names using walk_induction t follow with
  | nil links here => rw [walk_nil, walk_nil, h.get?]
  | blocked links here name rest hdir =>
    rw [walk_of_not_isDirectoryAt hdir,
      walk_of_not_isDirectoryAt ((h.isDirectoryAt here).trans hdir)]
  | dot links here rest hdir ih =>
    rw [walk_dot hdir, walk_dot ((h.isDirectoryAt here).trans hdir), ih]
  | up links here rest hdir ih =>
    rw [walk_up hdir, walk_up ((h.isDirectoryAt here).trans hdir), ih]
  | missing links here name rest hdir hdot hup hget =>
    rw [walk_none hdir hdot hup hget,
      walk_none ((h.isDirectoryAt here).trans hdir) hdot hup ((h.get? _).trans hget)]
  | lastLink links here name target hdir hdot hup hget hfollow =>
    rw [hfollow, walk_last_link hdir hdot hup hget,
      walk_last_link ((h.isDirectoryAt here).trans hdir) hdot hup ((h.get? _).trans hget)]
  | loop here name rest target hdir hdot hup hget hgo =>
    rw [walk_loop hdir hdot hup hget hgo,
      walk_loop ((h.isDirectoryAt here).trans hdir) hdot hup ((h.get? _).trans hget) hgo]
  | link links here name rest target hdir hdot hup hget hgo ih =>
    rw [walk_link hdir hdot hup hget hgo, walk_link ((h.isDirectoryAt here).trans hdir) hdot hup
      ((h.get? _).trans hget) hgo, ih]
  | into links here name rest e hdir hdot hup hget hnot ih =>
    rw [walk_into hdir hdot hup hget hnot, walk_into ((h.isDirectoryAt here).trans hdir) hdot hup
      ((h.get? _).trans hget) hnot, ih]

theorem resolve (follow : Bool) (path : String) :
    t'.resolve follow path = t.resolve follow path := by
  simp only [FileTree.resolve, origin, h.workingDirectory, h.walk]

theorem lookup (path : String) : t'.lookup path = t.lookup path := by
  simp only [FileTree.lookup, h.resolve]

end Same

end FileTree
end RowTypes
