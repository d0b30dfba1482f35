import RowTypes.Proofs.Accounting
import RowTypes.Proofs.Elsewhere

/-! What comes of the writing of a file is what would come of it alone, whatever the order of the
steps, as long as each text goes to a place of its own. No step finds anything in its own place but
what was there in the beginning, and of the directories it needs only more or fewer are there. -/

namespace RowTypes

open FileTree FileWrite Companion

namespace FilePlan

variable {homes places : Location → Prop} {faults : Faults} {defaultType : String} {p : FilePlan}
  {t t' : FileTree} {w : FileWrite} {l : Location}

def write? (defaultType : String) (t : FileTree) (p : FilePlan) : Option FileWrite :=
  match FileWrite.plan t p.file p.declarations p.failed defaultType with
  | .ok w => w
  | .error _ => none

theorem write?_eq_some : p.write? defaultType t = some w ↔
    FileWrite.plan t p.file p.declarations p.failed defaultType = .ok (some w) := by
  unfold write?
  cases FileWrite.plan t p.file p.declarations p.failed defaultType <;> simp

theorem exists_write {d : Declaration} {path : String} (hsql : p.file.isSqlFile = true)
    (hd : p.declarations.head? = some d) (hpath : path? p.file.path = some path)
    {expected : Option String} (hread : t.readIfExists path = .ok expected) :
    ∃ w, p.write? defaultType t = some w ∧ w.path = path := by
  refine ⟨⟨path, expected, render d p.file.path defaultType⟩, write?_eq_some.2 ?_, rfl⟩
  rw [FileWrite.plan, hsql]
  simp only [if_true, hd, hpath, hread]
  rfl

theorem readIfExists_missing {path : String} :
    t.readIfExists path = .ok none ↔ t.lookup path = .error .notFound := by
  rw [FileTree.readIfExists, FileTree.read]
  rcases t.lookup path with e | ⟨l, (c | b) | m | target⟩
  · cases e <;> simp [bind, Except.bind]
  all_goals exact ⟨(fun h => by cases h), (fun h => by cases h)⟩

theorem readIfExists_text {path s : String} :
    t.readIfExists path = .ok (some s) ↔ t.read path = .ok s := by
  rw [FileTree.readIfExists]
  rcases t.read path with e | s'
  · cases e <;> simp
  · simp

theorem readIfExists_of_goes {path : String} (hgoes : t.Goes path l) :
    ∃ expected, t.readIfExists path = .ok expected := by
  cases hgoes with
  | existing hlookup => exact ⟨_, readIfExists_text.2 (read_of_lookup hlookup)⟩
  | new hmissing => exact ⟨none, readIfExists_missing.2 hmissing⟩

theorem goes_cases (hread : t.read p.file.path = .ok p.file.content)
    (hw : p.write? defaultType t = some w) :
    (∃ l s m, t.lookup w.path = .ok (l, .file (.text s) m)) ∨
      ∃ dir name, Beside p.file.path w.path dir name := by
  cases isWrite_of_plan (write?_eq_some.1 hw) with
  | inline hinline =>
    obtain ⟨l, m, hlookup⟩ := exists_of_read hread
    exact .inl ⟨l, _, m, hlookup⟩
  | companion hsql hd hpath expected => exact .inr (exists_beside (hasFile_of_read hread) hpath)

theorem readIfExists_of_write (hread : t.read p.file.path = .ok p.file.content)
    (hw : p.write? defaultType t = some w) : t.readIfExists w.path = .ok w.expected := by
  have hplan := write?_eq_some.1 hw
  cases hsql : p.file.isSqlFile with
  | false =>
    rw [plan_inline hsql] at hplan
    obtain rfl := of_inlineWrite? (Except.ok.inj hplan)
    exact readIfExists_text.2 hread
  | true =>
    rw [FileWrite.plan, hsql] at hplan
    simp only [if_true] at hplan
    split at hplan
    · rename_i d path hd hpath
      cases hexpected : t.readIfExists path with
      | error e =>
        rw [hexpected] at hplan
        cases hplan
      | ok expected =>
        rw [hexpected] at hplan
        obtain rfl := Option.some.inj (Except.ok.inj hplan)
        exact hexpected
    · cases Except.ok.inj hplan

theorem exists_goes (hclosed : t.Closed) (hread : t.read p.file.path = .ok p.file.content)
    (hw : p.write? defaultType t = some w) (hcompanion : ¬t.Dangling w.path)
    (hdirectory : ¬t.Dangling (Target.directoryPath w.path)) : ∃ l, t.Goes w.path l := by
  have hexpected := readIfExists_of_write hread hw
  cases htext : w.expected with
  | some s =>
    obtain ⟨l, m, hlookup⟩ := exists_of_read (readIfExists_text.1 (htext ▸ hexpected))
    exact ⟨l, .existing hlookup⟩
  | none =>
    have hmissing := readIfExists_missing.1 (htext ▸ hexpected)
    rcases goes_cases hread hw with ⟨l, s, m, hlookup⟩ | ⟨dir, name, b⟩
    · exact nomatch hmissing.symm.trans hlookup
    · obtain ⟨home, hhome, hfree⟩ := home_of_missing b (hasFile_of_read hread) hclosed hmissing
        hcompanion hdirectory
      exact ⟨_, .new hmissing hhome b.fileName?_eq hfree⟩

theorem getLast?_ne_of_goes (hread : t.read p.file.path = .ok p.file.content)
    (hw : p.write? defaultType t = some w) (hgoes : t.Goes w.path l) (hfree : t.get? l = none) :
    l.getLast? ≠ some directory := by
  rcases goes_cases hread hw with ⟨l', s, m, hlookup⟩ | ⟨dir, name, b⟩
  · cases hgoes with
    | existing hthere =>
      rw [get?_of_lookup hthere] at hfree
      exact nomatch hfree
    | new hmissing => exact nomatch hmissing.symm.trans hlookup
  · exact hgoes.getLast?_ne b hfree

theorem plan_eq (h : OnlyAt homes places t t') (hspared : Spared places t) (hclosed : t.Closed)
    (hread : t.read p.file.path = .ok p.file.content)
    (hgoes : ∀ w, p.write? defaultType t = some w → ∃ l, t.Goes w.path l)
    (hplaces : ∀ w, p.write? defaultType t = some w → ∀ l, t.Goes w.path l →
      t'.get? l = t.get? l) :
    FileWrite.plan t' p.file p.declarations p.failed defaultType =
      FileWrite.plan t p.file p.declarations p.failed defaultType := by
  cases hsql : p.file.isSqlFile with
  | false => rw [plan_inline hsql, plan_inline hsql]
  | true =>
    rw [FileWrite.plan, FileWrite.plan, hsql]
    simp only [if_true]
    split
    · rename_i d path hd hpath
      have hfile := hasFile_of_read hread
      obtain ⟨dir, name, b⟩ := exists_beside hfile hpath
      have hwritten {expected} : t.readIfExists path = .ok expected →
          ∃ w, p.write? defaultType t = some w ∧ w.path = path := exists_write hsql hd hpath
      have hlookup : t'.lookup path = t.lookup path := by
        refine h.lookup_eq b hspared hfile hclosed (fun hmissing => ?_) fun l hl => ?_
        · obtain ⟨w, hw, rfl⟩ := hwritten (readIfExists_missing.2 hmissing)
          exact hgoes w hw
        · obtain ⟨expected, hexpected⟩ := readIfExists_of_goes hl
          obtain ⟨w, hw, rfl⟩ := hwritten hexpected
          exact hplaces w hw l hl
      simp only [FileTree.readIfExists, FileTree.read, hlookup]
    · rfl

theorem perform_eq (h : OnlyAt homes places t t') (hspared : Spared places t)
    (hread : t.read p.file.path = .ok p.file.content) (hw : p.write? defaultType t = some w)
    (hhonest : ∀ c, faults c ≠ some .notFound) (hgoes : t.Goes w.path l)
    (hplace : t'.get? l = t.get? l)
    (hhomes : ∀ home, homes home → t.get? home = none → t.Home w.path home →
      making faults w.path = none) :
    ((perform faults w).run t').1 = ((perform faults w).run t).1 ∧
      OnlyAt (fun home => home.getLast? = some directory ∧ t.Home w.path home ∧
        making faults w.path = none) (· = l) t' ((perform faults w).run t').2 := by
  have hfile := hasFile_of_read hread
  have hcurrent : t'.lookup w.path = t.lookup w.path →
      current faults w t' = current faults w t := fun hlookup => by
    simp only [current, FileTree.read, hlookup]
  cases hgoes with
  | existing hlookup =>
    have hlookup' := h.grows.lookup_eq hlookup hplace
    obtain ⟨_, hrun, -⟩ := run_perform_over (w := w) (hhonest _) hlookup
    obtain ⟨_, hrun', hchange⟩ := run_perform_over (w := w) (hhonest _) hlookup'
    rw [hrun, hrun', hcurrent (hlookup'.trans hlookup.symm)]
    exact ⟨rfl, hchange.mono (fun _ _ => False.elim) fun _ => id⟩
  | new hmissing hhome hname hfree =>
    rcases goes_cases hread hw with ⟨l, s, m, hlookup⟩ | ⟨dir, name, b⟩
    · cases hmissing.symm.trans hlookup
    have hlookup' := h.lookup_eq_new b hspared hfile (.new hmissing hhome hname hfree) hplace
    obtain rfl := Option.some.inj (b.fileName?_eq.symm.trans hname)
    obtain ⟨_, hrun, -⟩ := run_perform_new hhonest b hfile hhome hfree
    obtain ⟨_, hrun', hchange⟩ := run_perform_new hhonest b (h.grows.hasFile hfile)
      (h.keeps_home b hspared hfile hhome) (hplace.trans hfree)
    rw [hrun, hrun', hcurrent hlookup']
    refine ⟨?_, hchange.mono (fun home hnone hmade => ?_) fun _ => id⟩
    swap
    · obtain ⟨rfl, hmaking⟩ := hmade
      exact ⟨Home.getLast?_eq b hfile hhome (h.grows.get?_eq_none hnone), hhome, hmaking⟩
    rcases h.home_cases b hspared hfile hhome with
      ⟨⟨m, hdir⟩, hdir'⟩ | ⟨hnone, hnone' | ⟨hmade, hdir'⟩⟩
    · rw [if_pos hdir', if_pos (isDirectoryAt_eq_true.2 ⟨m, get?_of_lookup hdir⟩)]
    · rw [isDirectoryAt, isDirectoryAt, hnone, hnone']
    · rw [hhomes _ hmade hnone hhome, ite_self, ite_self]

def writes (defaultType : String) (t : FileTree) (plans : List FilePlan) : List FileWrite :=
  plans.filterMap (write? defaultType t)

end FilePlan

/-- Each text goes to a place of its own, and no path to one ends in a link that leads nowhere.
No fault says that something is missing which is there, and whether a directory can be made does
not depend on the write for which it is made. -/
structure Separate (faults : WriteJob.Faults) (ws : List FileWrite) (t : FileTree) : Prop where
  distinct : ws.Pairwise fun w w' => ∀ l, t.Goes w.path l → ¬t.Goes w'.path l
  leading : ∀ w ∈ ws, ¬t.Dangling w.path ∧ ¬t.Dangling (Target.directoryPath w.path)
  found : ∀ w ∈ ws, ∀ c, faults w.path c ≠ some .notFound
  agreeing : ∀ w ∈ ws, ∀ w' ∈ ws, ∀ home, t.get? home = none → t.Home w.path home →
    t.Home w'.path home → making (faults w.path) w.path = making (faults w'.path) w'.path

section Writes

variable {faults : WriteJob.Faults} {defaultType : String} {t₀ : FileTree} {plans : List FilePlan}
  {p p' : FilePlan} {m n : Nat} {w w' : FileWrite} {l : Location}

theorem FilePlan.mem_writes (hp : plans[n]? = some p) (hw : p.write? defaultType t₀ = some w) :
    w ∈ FilePlan.writes defaultType t₀ plans :=
  List.mem_filterMap.2 ⟨p, List.mem_of_getElem? hp, hw⟩

theorem Separate.apart (hseparate : Separate faults (FilePlan.writes defaultType t₀ plans) t₀)
    (hne : n ≠ m) (hp : plans[n]? = some p)
    (hp' : plans[m]? = some p') (hw : p.write? defaultType t₀ = some w)
    (hw' : p'.write? defaultType t₀ = some w') (hgoes : t₀.Goes w.path l) : ¬t₀.Goes w'.path l := by
  have hpairs := List.pairwise_iff_getElem.1 (List.pairwise_filterMap.1 hseparate.distinct)
  obtain ⟨hn, rfl⟩ := List.getElem?_eq_some_iff.1 hp
  obtain ⟨hm, rfl⟩ := List.getElem?_eq_some_iff.1 hp'
  rcases Nat.lt_or_gt_of_ne hne with hlt | hlt
  · exact hpairs n m hn hm hlt w hw w' hw' l hgoes
  · exact fun hgoes' => hpairs m n hm hn hlt w' hw' w hw l hgoes' hgoes

end Writes

namespace WriteJob

variable {faults : Faults} {defaultType : String} {t₀ t : FileTree} {plans : List FilePlan}
  {p : FilePlan} {jobs : List WriteJob} {job : WriteJob} {n : Nat} {w : FileWrite} {l : Location}

def begun (faults : Faults) (defaultType : String) (t : FileTree) (p : FilePlan) : WriteJob :=
  (step faults defaultType (.waiting p) t).1

def alone (faults : Faults) (defaultType : String) (t : FileTree) (p : FilePlan) : WriteJob :=
  (step faults defaultType (begun faults defaultType t p) t).1

theorem alone_done (faults : Faults) (defaultType : String) (t : FileTree) (p : FilePlan) :
    ∃ r, alone faults defaultType t p = .done r := by
  refine exists_done (Nat.le_zero.1 ?_)
  have hfirst := rank_step faults defaultType (.waiting p) t
  have hsecond := rank_step faults defaultType (begun faults defaultType t p) t
  rw [begun] at hsecond
  rw [alone, begun]
  have : rank (.waiting p) = 2 := rfl
  omega

inductive Stage (faults : Faults) (defaultType : String) (t₀ : FileTree) (p : FilePlan) :
    WriteJob → Prop where
  | waiting : Stage faults defaultType t₀ p (.waiting p)
  | begun : Stage faults defaultType t₀ p (begun faults defaultType t₀ p)
  | alone : Stage faults defaultType t₀ p (alone faults defaultType t₀ p)

def Homes (faults : Faults) (ws : List FileWrite) (t₀ : FileTree) (home : Location) : Prop :=
  home.getLast? = some directory ∧
    ∃ w ∈ ws, t₀.Home w.path home ∧ making (faults w.path) w.path = none

def Places (defaultType : String) (t₀ : FileTree) (plans : List FilePlan) (jobs : List WriteJob)
    (l : Location) : Prop :=
  ∃ (n : Nat) (p : FilePlan) (w : FileWrite) (r : WriteResult), plans[n]? = some p ∧
    p.write? defaultType t₀ = some w ∧ jobs[n]? = some (.done r) ∧ t₀.Goes w.path l

/-- Each job is as far as it would be by itself, and the tree has changed where others write. -/
structure Independent (faults : Faults) (defaultType : String) (t₀ : FileTree)
    (plans : List FilePlan) (jobs : List WriteJob) (t : FileTree) : Prop where
  stage : ∀ (n : Nat) job, jobs[n]? = some job →
    ∃ p, plans[n]? = some p ∧ Stage faults defaultType t₀ p job
  tree : OnlyAt (Homes faults (FilePlan.writes defaultType t₀ plans) t₀)
    (Places defaultType t₀ plans jobs) t₀ t

theorem step_of_not_write {job : WriteJob} (hwaiting : ∀ p, job ≠ .waiting p)
    (hwrite : ∀ path w, job ≠ .planned path (some w)) (t t' : FileTree) :
    step faults defaultType job t' = ((step faults defaultType job t).1, t') := by
  cases job with
  | waiting p => exact absurd rfl (hwaiting p)
  | planned path w =>
    cases w with
    | none => rfl
    | some w => exact absurd rfl (hwrite path w)
  | done r => rfl

theorem begun_eq (faults : Faults) (defaultType : String) (t : FileTree) (p : FilePlan) :
    begun faults defaultType t p =
      match FileWrite.plan t p.file p.declarations p.failed defaultType with
      | .ok w => .planned p.file.path w
      | .error e => .done (p.file.path, .error (.io e)) :=
  congrArg Prod.fst (step_waiting p)

theorem begun_ne_waiting (faults : Faults) (defaultType : String) (t : FileTree) (p p' : FilePlan) :
    begun faults defaultType t p ≠ .waiting p' := by
  rw [begun_eq]
  split <;> exact nofun

theorem write?_of_begun {path : String}
    (h : begun faults defaultType t₀ p = .planned path (some w)) :
    p.write? defaultType t₀ = some w := by
  rw [begun_eq] at h
  split at h
  · rename_i w' hplan
    obtain ⟨-, rfl⟩ := WriteJob.planned.inj h
    exact FilePlan.write?_eq_some.2 hplan
  · exact nomatch h

section Steps

variable (hclosed : t₀.Closed) (hread : ∀ p ∈ plans, t₀.read p.file.path = .ok p.file.content)
  (hseparate : Separate faults (FilePlan.writes defaultType t₀ plans) t₀)

include hread in
theorem spared_places : Spared (Places defaultType t₀ plans jobs) t₀ := by
  rintro l hfree hlast ⟨n, p, w, r, hp, hw, -, hgoes⟩
  exact FilePlan.getLast?_ne_of_goes (hread p (List.mem_of_getElem? hp)) hw hgoes hfree hlast

theorem places_set {job' : WriteJob} (hjob : jobs[n]? = some job)
    (hdone : ∀ r, job = .done r → job' = .done r) (hl : Places defaultType t₀ plans jobs l) :
    Places defaultType t₀ plans (jobs.set n job') l := by
  obtain ⟨m, p', w, r, hp', hw, hr, hgoes⟩ := hl
  by_cases hm : n = m
  · subst hm
    refine ⟨n, p', w, r, hp', hw, ?_, hgoes⟩
    rw [List.getElem?_set_self (List.getElem?_eq_some_iff.1 hjob).1,
      hdone r (Option.some.inj (hjob.symm.trans hr))]
  · exact ⟨m, p', w, r, hp', hw, by rw [List.getElem?_set_ne hm, hr], hgoes⟩

include hclosed hread hseparate in
theorem exists_goes (hp : plans[n]? = some p) (hw : p.write? defaultType t₀ = some w) :
    ∃ l, t₀.Goes w.path l :=
  FilePlan.exists_goes hclosed (hread p (List.mem_of_getElem? hp)) hw
    (hseparate.leading w (FilePlan.mem_writes hp hw)).1
    (hseparate.leading w (FilePlan.mem_writes hp hw)).2

namespace Independent

variable (h : Independent faults defaultType t₀ plans jobs t) (hp : plans[n]? = some p)

include h

theorem stage_set {job' : WriteJob} (hp : plans[n]? = some p)
    (hstage : Stage faults defaultType t₀ p job') :
    ∀ (m : Nat) job, (jobs.set n job')[m]? = some job →
      ∃ p, plans[m]? = some p ∧ Stage faults defaultType t₀ p job := by
  intro m job hm
  rw [List.getElem?_set] at hm
  split at hm
  · rename_i hnm
    subst hnm
    split at hm
    · obtain rfl := Option.some.inj hm
      exact ⟨p, hp, hstage⟩
    · exact nomatch hm
  · exact h.stage m job hm

theorem set {job' : WriteJob} (hp : plans[n]? = some p) (hjob : jobs[n]? = some job)
    (hdone : ∀ r, job = .done r → job' = .done r) (hstage : Stage faults defaultType t₀ p job') :
    Independent faults defaultType t₀ plans (jobs.set n job') t where
  stage := h.stage_set hp hstage
  tree := h.tree.mono (fun _ _ => id) fun _ => places_set hjob hdone

include hread hseparate

theorem get?_eq (hp : plans[n]? = some p) (hw : p.write? defaultType t₀ = some w)
    (hjob : ∀ r, jobs[n]? ≠ some (.done r)) (hgoes : t₀.Goes w.path l) : t.get? l = t₀.get? l := by
  refine h.tree.get?_eq (fun hfree hhome => ?_) ?_
  · exact FilePlan.getLast?_ne_of_goes (hread p (List.mem_of_getElem? hp)) hw hgoes hfree hhome.1
  · rintro ⟨m, p', w', r, hp', hw', hdone, hgoes'⟩
    have hne : n ≠ m := by
      rintro rfl
      exact hjob r hdone
    exact hseparate.apart hne hp hp' hw hw' hgoes hgoes'

include hclosed

theorem step_waiting_eq (hp : plans[n]? = some p) (hjob : jobs[n]? = some (.waiting p)) :
    step faults defaultType (.waiting p) t = (begun faults defaultType t₀ p, t) := by
  rw [step_waiting, FilePlan.plan_eq h.tree (spared_places hread) hclosed
    (hread p (List.mem_of_getElem? hp)) (fun w hw => exists_goes hclosed hread hseparate hp hw)
    fun w hw l => h.get?_eq hread hseparate hp hw (by rw [hjob]; exact nofun)]
  exact congrArg (·, t) (begun_eq faults defaultType t₀ p).symm

/-- A write comes to what it would come to alone, and only adds its own directory and its text. -/
theorem step_planned_eq {path : String} (hp : plans[n]? = some p)
    (hbegun : begun faults defaultType t₀ p = .planned path (some w))
    (hjob : jobs[n]? = some (.planned path (some w))) :
    Independent faults defaultType t₀ plans
      (jobs.set n (step faults defaultType (.planned path (some w)) t).1)
      (step faults defaultType (.planned path (some w)) t).2 := by
  have hw := write?_of_begun hbegun
  have hmem := FilePlan.mem_writes hp hw
  obtain ⟨l, hgoes⟩ := exists_goes hclosed hread hseparate hp hw
  have hplace := h.get?_eq hread hseparate hp hw (by rw [hjob]; exact nofun) hgoes
  have hmade : ∀ home, Homes faults (FilePlan.writes defaultType t₀ plans) t₀ home →
      t₀.get? home = none → t₀.Home w.path home → making (faults w.path) w.path = none := by
    rintro home ⟨-, w', hw', hhome', hmaking⟩ hfree hhome
    exact (hseparate.agreeing w hmem w' hw' home hfree hhome hhome').trans hmaking
  obtain ⟨hresult, hchange⟩ := FilePlan.perform_eq h.tree (spared_places hread)
    (hread p (List.mem_of_getElem? hp)) hw (hseparate.found w hmem) hgoes hplace hmade
  have hnext : (step faults defaultType (.planned path (some w)) t).1 =
      alone faults defaultType t₀ p := by
    rw [alone, hbegun, step_planned, step_planned, hresult]
  have hdone : ∃ r, (step faults defaultType (.planned path (some w)) t).1 = .done r := by
    rw [hnext]
    exact alone_done ..
  obtain ⟨r, hr⟩ := hdone
  refine ⟨h.stage_set hp (hnext ▸ .alone), ?_⟩
  have hbefore := h.tree.mono (fun _ _ => id) fun l (hl : Places defaultType t₀ plans jobs l) =>
    show Places defaultType t₀ plans
      (jobs.set n (step faults defaultType (.planned path (some w)) t).1) l from
      places_set hjob nofun hl
  refine hbefore.trans ?_
  rw [step_planned] at hr ⊢
  refine hchange.mono (fun home _ hmade => ⟨hmade.1, w, hmem, hmade.2⟩) fun l' hl' => ?_
  subst hl'
  refine ⟨n, p, w, r, hp, hw, ?_, hgoes⟩
  rw [List.getElem?_set_self (List.getElem?_eq_some_iff.1 hjob).1, hr]

theorem step (hjob : jobs[n]? = some job) :
    Independent faults defaultType t₀ plans (jobs.set n (WriteJob.step faults defaultType job t).1)
      (WriteJob.step faults defaultType job t).2 := by
  obtain ⟨p, hp, hstage⟩ := h.stage n job hjob
  cases hstage with
  | waiting =>
    rw [h.step_waiting_eq hclosed hread hseparate hp hjob]
    exact h.set hp hjob nofun .begun
  | begun =>
    by_cases hwrite : ∃ path w, WriteJob.begun faults defaultType t₀ p = .planned path (some w)
    · obtain ⟨path, w, hbegun⟩ := hwrite
      rw [hbegun] at hjob ⊢
      exact h.step_planned_eq hclosed hread hseparate hp hbegun hjob
    · rw [step_of_not_write (begun_ne_waiting faults defaultType t₀ p)
        (fun path w hbegun => hwrite ⟨path, w, hbegun⟩) t₀ t]
      exact h.set hp hjob (fun r hr => by rw [hr]; rfl) .alone
  | alone =>
    obtain ⟨r, hr⟩ := alone_done faults defaultType t₀ p
    have hstage : Stage faults defaultType t₀ p (.done r) := hr ▸ .alone
    rw [hr] at hjob ⊢
    exact h.set hp hjob (fun _ => id) hstage

end Independent

theorem independent_start :
    Independent faults defaultType t₀ plans (plans.map .waiting) t₀ where
  stage n job hjob := by
    rw [List.getElem?_map, Option.map_eq_some_iff] at hjob
    obtain ⟨p, hp, rfl⟩ := hjob
    exact ⟨p, hp, .waiting⟩
  tree := (Same.refl t₀).onlyAt

include hclosed hread hseparate

theorem independent_run {events : List Work.Event} (hquiet : ∀ e, .edit e ∉ events) :
    Independent faults defaultType t₀ plans
      (Work.run (step faults defaultType) events (plans.map .waiting, t₀)).1
      (Work.run (step faults defaultType) events (plans.map .waiting, t₀)).2 :=
  Work.run_invariant independent_start (fun e he => absurd he (hquiet e))
    fun _ _ _ _ h hjob => h.step hclosed hread hseparate hjob

theorem run_eq_map_alone {events : List Work.Event} (hquiet : ∀ e, .edit e ∉ events) :
    (Work.run (step faults defaultType) (events ++ Work.inOrder 2 plans.length)
      (plans.map .waiting, t₀)).1 = plans.map (alone faults defaultType t₀) := by
  have hevents : ∀ e, .edit e ∉ events ++ Work.inOrder 2 plans.length := fun e he =>
    (List.mem_append.1 he).elim (hquiet e) (Work.edit_not_mem_inOrder 2 _ e)
  have h := independent_run hclosed hread hseparate hevents
  refine Work.eq_map (by rw [Work.length_run, List.length_map]) fun n job hjob => ?_
  obtain ⟨p, hp, hstage⟩ := h.stage n job hjob
  have hrank : rank job = 0 := by
    rw [← List.length_map (f := WriteJob.waiting)] at hjob
    refine Work.rank_run_inOrder (rank_step faults defaultType) (fun job hjob => ?_)
      (List.mem_of_getElem? hjob)
    obtain ⟨p, -, rfl⟩ := List.mem_map.1 hjob
    exact Nat.le_refl 2
  refine ⟨p, hp, ?_⟩
  cases hstage with
  | waiting => exact nomatch hrank
  | begun =>
    obtain ⟨r, hr⟩ := exists_done hrank
    rw [alone, hr]
    rfl
  | alone => rfl

end Steps

end WriteJob
end RowTypes
