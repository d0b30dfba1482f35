import RowTypes.Generation.Run
import RowTypes.Proofs.Actions
import RowTypes.Proofs.Jobs

/-! What a run knows when it begins to write: the files as they were read, each in a tree that
it found on the way, and the types that the server's answers give. -/

namespace RowTypes

/-! A file that was read -/

namespace SourceFile

variable {path content : String} {file : SourceFile}

theorem of_extract (h : extract path content = .ok file) :
    file.path = path ∧ file.content = content := by
  rw [extract] at h
  split at h
  · cases h
    exact ⟨rfl, rfl⟩
  · cases hscan : Tag.scan content with
    | error e =>
      rw [hscan] at h
      exact nomatch h
    | ok tags =>
      rw [hscan] at h
      cases h
      exact ⟨rfl, rfl⟩

theorem of_load {t : FileTree} (h : load t path = .ok file) :
    file.path = path ∧ t.read path = .ok file.content ∧
      extract path file.content = .ok file := by
  rw [load] at h
  split at h
  · exact nomatch h
  · rename_i content hread
    split at h
    · exact nomatch h
    · rename_i file' hextract
      obtain rfl := Except.ok.inj h
      obtain ⟨hpath, rfl⟩ := of_extract hextract
      exact ⟨hpath, hread, hextract⟩

end SourceFile

namespace Generation

variable {o : Options} {s : Surroundings} {w w₁ : World} {p : Prepared}

/-! Questions leave the tree as it is -/

def KeepsTree {ε α : Type} (x : ExceptT ε (StateM World) α) : Prop :=
  ∀ w, (x.run w).2.tree = w.tree

namespace KeepsTree

variable {ε α β : Type}

theorem pure (a : α) : KeepsTree (Pure.pure a : ExceptT ε (StateM World) α) := fun _ => rfl

theorem throw (e : ε) : KeepsTree (MonadExcept.throw e : ExceptT ε (StateM World) α) := fun _ => rfl

theorem bind {x : ExceptT ε (StateM World) α} {f : α → ExceptT ε (StateM World) β}
    (hx : KeepsTree x) (hf : ∀ a, KeepsTree (f a)) : KeepsTree (x >>= f) := by
  intro w
  rw [run_bind]
  have htree := hx w
  generalize x.run w = r at htree
  obtain ⟨_ | a, w₁⟩ := r
  · exact htree
  · exact (hf a w₁).trans htree

end KeepsTree

theorem askGit_keepsTree {α : Type} (ask : FileTree → Git → Except GitError α × Git) :
    KeepsTree (askGit ask) := by
  intro w
  change (askGit ask w).2.tree = w.tree
  rw [askGit]
  rcases ask w.tree w.git with ⟨_ | a, git⟩ <;> rfl

theorem checkClean_keepsTree (o : Options) (point : CleanPoint) : KeepsTree (checkClean o point) := by
  rw [checkClean]
  split
  · exact askGit_keepsTree _
  · exact .pure ()

theorem changedFiles_keepsTree (o : Options) : KeepsTree (changedFiles o) := by
  rw [changedFiles]
  split
  · exact .pure none
  · rw [map_eq_pure_bind]
    exact (askGit_keepsTree _).bind fun paths => .pure (some paths)

theorem filter_keepsTree (o : Options) : KeepsTree (filter o) := by
  rw [filter]
  split
  · exact .pure _
  · exact .throw _

theorem findFiles_keepsTree (o : Options) : KeepsTree (findFiles o) :=
  (checkClean_keepsTree o .before).bind fun _ => (filter_keepsTree o).bind fun _ =>
    (changedFiles_keepsTree o).bind fun _ => .bind (fun _ => rfl) fun _ => .pure _

theorem stopIf_keepsTree (cancelled : Bool) : KeepsTree (stopIf cancelled) := by
  cases cancelled
  · exact .pure ()
  · exact .throw _

theorem describe_keepsTree (o : Options) (s : Surroundings) (texts : List String) :
    KeepsTree (describe o s texts) := by
  refine (stopIf_keepsTree _).bind fun _ => ?_
  split
  · exact .throw _
  · exact .throw _
  · split
    · exact .throw _
    · exact (stopIf_keepsTree _).bind fun _ => .pure _

theorem describeFiles_keepsTree (o : Options) (s : Surroundings) (readings : List ReadResult) :
    KeepsTree (describeFiles o s readings) := by
  refine .bind ?_ fun _ => .bind (fun _ => rfl) fun _ => .bind (fun _ => rfl) fun _ => .pure _
  rw [typesFor]
  split
  · exact .pure _
  · exact describe_keepsTree o s _

/-! What an action that succeeds has found -/

theorem of_findFiles {paths : List String} (h : (findFiles o).run w = (.ok paths, w₁)) :
    w₁.tree = w.tree ∧ ∃ wanted only,
      paths = Discovery.discover w.tree o.rootDirectory wanted only := by
  have htree : w₁.tree = w.tree := by
    have := findFiles_keepsTree o w
    rwa [h] at this
  obtain ⟨_, w₂, hclean, h₂⟩ := of_run_bind h
  obtain ⟨wanted, w₃, hfilter, h₃⟩ := of_run_bind h₂
  obtain ⟨only, w₄, honly, h₄⟩ := of_run_bind h₃
  cases h₄
  exact ⟨htree, wanted, only, htree ▸ rfl⟩

theorem of_stopIf {cancelled : Bool} (h : (stopIf cancelled).run w = (.ok (), w₁)) :
    cancelled = false ∧ w = w₁ := by
  rw [stopIf] at h
  split at h
  · exact nomatch h
  · rename_i hrunning
    cases h
    exact ⟨by simpa using hrunning, rfl⟩

theorem of_describe {texts : List String} {types : String → Except String QueryTypes}
    (h : (describe o s texts).run w = (.ok types, w₁)) :
    w₁ = w ∧ ∃ catalog, s.server.loadCatalog = .ok catalog ∧
      types = typesOf (inference o catalog)
        (Describing.run (max 1 o.database.describeConcurrency) (answer s)
          (s.describing texts.length) texts) := by
  obtain ⟨_, w', hconnecting, hserver⟩ := of_run_bind h
  obtain ⟨-, rfl⟩ := of_stopIf hconnecting
  split at hserver
  · exact nomatch hserver
  · exact nomatch hserver
  · split at hserver
    · exact nomatch hserver
    · rename_i catalog hcatalog
      obtain ⟨_, w'', hdescribed, htypes⟩ := of_run_bind hserver
      obtain ⟨-, rfl⟩ := of_stopIf hdescribed
      cases htypes
      exact ⟨rfl, catalog, hcatalog, rfl⟩

/-! What was read -/

def readingAfter (paths : List String) (t : FileTree) (events : List Work.Event) :
    List ReadJob × FileTree :=
  Work.run ReadJob.step events (paths.map .waiting, t)

/-- How a run gets to the point where it begins to write. -/
structure Prepares (o : Options) (s : Surroundings) (w : World) (p : Prepared) (w₁ : World)
    (paths : List String) : Prop where
  discovered : ∃ wanted only, paths = Discovery.discover w.tree o.rootDirectory wanted only
  readings : p.readings =
    (readingAfter paths w.tree (s.readingSteps paths.length)).1.filterMap ReadJob.result?
  tree : w₁.tree = (readingAfter paths w.tree (s.readingSteps paths.length)).2
  types : sqlTexts p.readings ≠ [] → ∃ catalog, s.server.loadCatalog = .ok catalog ∧
    p.types = typesOf (inference o catalog)
      (Describing.run (max 1 o.database.describeConcurrency) (answer s)
        (s.describing (sqlTexts p.readings).length) (sqlTexts p.readings))

theorem exists_prepares (h : (prepare o s).run w = (.ok p, w₁)) :
    ∃ paths, ((findFiles o).run w).1 = .ok paths ∧ Prepares o s w p w₁ paths := by
  obtain ⟨readings, w₂, hread, hdescribe⟩ := of_run_bind h
  obtain ⟨paths, w₃, hfind, h₃⟩ := of_run_bind hread
  obtain ⟨htree, hdiscovered⟩ := of_findFiles hfind
  obtain ⟨_, w₄, hreadings, h₄⟩ := of_run_bind h₃
  cases hreadings
  cases h₄
  obtain ⟨types, w₅, htypes, h₅⟩ := of_run_bind hdescribe
  cases h₅
  refine ⟨paths, congrArg Prod.fst hfind, hdiscovered, htree ▸ rfl, ?_, fun htexts => ?_⟩
  · rw [typesFor] at htypes
    split at htypes
    · cases htypes
      exact htree ▸ rfl
    · rw [(of_describe htypes).1]
      exact htree ▸ rfl
  · rw [typesFor, if_neg htexts] at htypes
    exact (of_describe htypes).2

theorem prepares (h : (prepare o s).run w = (.ok p, w₁)) : ∃ paths, Prepares o s w p w₁ paths := by
  obtain ⟨paths, -, h⟩ := exists_prepares h
  exact ⟨paths, h⟩

/-! The files of a run -/

section Readings

variable {paths : List String} {t : FileTree}

theorem exists_path (paths : List String) (t : FileTree) (events : List Work.Event) {n : Nat}
    {job : ReadJob} (h : (readingAfter paths t events).1[n]? = some job) :
    ∃ path, paths[n]? = some path ∧ (job = .waiting path ∨ ∃ r, job = .done (path, r)) := by
  refine Work.job_invariant (P := fun n job => ∃ path, paths[n]? = some path ∧
    (job = .waiting path ∨ ∃ r, job = .done (path, r)))
    (fun n job hjob => ?_) (fun n job t hjob => ?_) n job h
  · rw [List.getElem?_map, Option.map_eq_some_iff] at hjob
    obtain ⟨path, hpath, rfl⟩ := hjob
    exact ⟨path, hpath, .inl rfl⟩
  · obtain ⟨path, hpath, rfl | ⟨r, rfl⟩⟩ := hjob
    · exact ⟨path, hpath, .inr ⟨_, rfl⟩⟩
    · exact ⟨path, hpath, .inr ⟨r, rfl⟩⟩

theorem readingAfter_step (paths : List String) (t : FileTree) (before : List Work.Event)
    (n : Nat) : (readingAfter paths t (before ++ [.step n])).2 = (readingAfter paths t before).2 := by
  have hrun : readingAfter paths t (before ++ [.step n]) =
      Work.run ReadJob.step [.step n] (readingAfter paths t before) := Work.run_append before _ _
  rw [hrun]
  obtain ⟨jobs, t'⟩ := readingAfter paths t before
  cases hjob : jobs[n]? with
  | none => simp only [Work.run, hjob]
  | some job => rw [Work.run_step hjob, ReadJob.step_tree]

theorem Prepares.jobs (h : Prepares o s w p w₁ paths) :
    (readingAfter paths w.tree (s.readingSteps paths.length)).1 = p.readings.map .done := by
  rw [h.readings]
  refine Work.eq_map_filterMap ReadJob.result?_done fun job hjob => ReadJob.exists_done ?_
  have hlength : (paths.map ReadJob.waiting).length = paths.length := List.length_map _
  rw [readingAfter, Surroundings.readingSteps, ← hlength] at hjob
  refine Work.rank_run_inOrder ReadJob.rank_step (fun job hjob => ?_) hjob
  obtain ⟨path, -, rfl⟩ := List.mem_map.1 hjob
  exact Nat.le_refl 1

/-- Each result is what was read in the tree as it was when the file had its turn. -/
theorem Prepares.exists_reading (h : Prepares o s w p w₁ paths) {n : Nat} {r : ReadResult}
    (hr : p.readings[n]? = some r) :
    paths[n]? = some r.1 ∧ ∃ before after, s.readingSteps paths.length = before ++ .step n :: after ∧
      r.2 = SourceFile.load (readingAfter paths w.tree before).2 r.1 := by
  have hdone : (readingAfter paths w.tree (s.readingSteps paths.length)).1[n]? =
      some (.done r) := by
    rw [h.jobs, List.getElem?_map, hr]
    rfl
  obtain ⟨path, hpath, hjob | ⟨r', hjob⟩⟩ := exists_path _ _ _ hdone
  · exact nomatch hjob
  obtain rfl := ReadJob.done.inj hjob
  refine ⟨hpath, ?_⟩
  have hwaiting : (paths.map ReadJob.waiting)[n]? = some (.waiting path) := by
    rw [List.getElem?_map, hpath]
    rfl
  obtain ⟨before, after, last, hsteps, hlast, hne, hstep⟩ :=
    Work.exists_step hwaiting (by exact nofun) hdone
  obtain ⟨path', hpath', rfl | ⟨r'', rfl⟩⟩ := exists_path paths w.tree before hlast
  · obtain rfl := Option.some.inj (hpath.symm.trans hpath')
    refine ⟨before, after, hsteps, ?_⟩
    exact (Prod.mk.inj (ReadJob.done.inj hstep)).2.symm
  · exact absurd hstep hne

theorem Prepares.map_fst (h : Prepares o s w p w₁ paths) : p.readings.map Prod.fst = paths := by
  refine List.ext_getElem? fun n => ?_
  have hlength : p.readings.length = paths.length := by
    have := congrArg List.length h.jobs
    rw [List.length_map, readingAfter, Work.length_run, List.length_map] at this
    exact this.symm
  rw [List.getElem?_map]
  cases hr : p.readings[n]? with
  | none =>
    rw [List.getElem?_eq_none_iff, hlength] at hr
    rw [List.getElem?_eq_none_iff.2 hr]
    rfl
  | some r => exact (h.exists_reading hr).1.symm

end Readings

end Generation
end RowTypes
