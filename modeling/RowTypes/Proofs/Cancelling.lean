import RowTypes.Proofs.Stopping

/-! Runs that are cancelled before they begin to write. A run with a query looks for the last time
when it has all answers, and so ends without a write. A run without one never looks. -/

namespace RowTypes

namespace Surroundings

/-- Whoever finds the run cancelled, it stays so until it is to be written. -/
def StaysCancelled (s : Surroundings) : Prop :=
  ∀ c, s.isCancelled c = true → s.isCancelled .described = true

def uncancelled (s : Surroundings) : Surroundings := { s with isCancelled := fun _ => false }

end Surroundings

namespace Generation

variable {o : Options} {s : Surroundings} {ps : Panics} {w w₁ : World} {p : Prepared}
  {readings : List ReadResult}

/-- The run gets to read its files, and there is no query in them. -/
def FindsNoQuery (ps : Panics) (o : Options) (s : Surroundings) (w : World) : Prop :=
  ∃ readings w₁, (readFilesWith ps o s).run w = (.ok readings, w₁) ∧ sqlTexts readings = []

def BeginsToWrite (ps : Panics) (o : Options) (s : Surroundings) (w : World) : Prop :=
  ∃ p w₁, (prepareWith ps o s).run w = (.ok p, w₁)

theorem describeFiles_of_nil (h : sqlTexts readings = []) (o : Options) (s : Surroundings) :
    describeFiles o s readings = describeFiles o s.uncancelled readings := by
  simp only [describeFiles, typesFor, h, if_true]

theorem exists_describeFiles_of_nil (h : sqlTexts readings = []) (o : Options) (s : Surroundings)
    (w : World) : ∃ p w₁, (describeFiles o s readings).run w = (.ok p, w₁) := by
  simp only [describeFiles, typesFor, h, if_true]
  exact ⟨_, _, rfl⟩

theorem describe_cancelled (hcancelled : s.isCancelled .described = true) (o : Options)
    (texts : List String) (w : World) :
    ∃ e, ((describe o s texts).run w).1 = .error e ∧
      (e = .cancelled ∨ ((describe o s.uncancelled texts).run w).1 = .error e) := by
  cases hconnecting : s.isCancelled .connecting with
  | true => exact ⟨.cancelled, by simp only [describe, hconnecting]; rfl, .inl rfl⟩
  | false =>
    simp only [describe, hconnecting, hcancelled, Surroundings.uncancelled]
    rcases s.server.connect o.database.connectionTimeout with (_ | _) | ⟨⟩
    · exact ⟨_, rfl, .inr rfl⟩
    · exact ⟨_, rfl, .inr rfl⟩
    · rcases s.server.loadCatalog with e | catalog
      · exact ⟨_, rfl, .inr rfl⟩
      · exact ⟨.cancelled, rfl, .inl rfl⟩

theorem describeFiles_cancelled (hcancelled : s.isCancelled .described = true)
    (h : sqlTexts readings ≠ []) (o : Options) (w : World) :
    ∃ e, ((describeFiles o s readings).run w).1 = .error e ∧
      (e = .cancelled ∨ ((describeFiles o s.uncancelled readings).run w).1 = .error e) := by
  obtain ⟨e, hfails, hcause⟩ := describe_cancelled hcancelled o (sqlTexts readings) w
  refine ⟨e, ?_, hcause.imp_right fun hcause => ?_⟩
  · simp only [describeFiles, typesFor, h, if_false]
    exact run_bind_of_error hfails _
  · simp only [describeFiles, typesFor, h, if_false]
    exact run_bind_of_error hcause _

theorem running_of_describe {texts : List String} {types : String → Except String QueryTypes}
    (h : (describe o s texts).run w = (.ok types, w₁)) : s.isCancelled .described = false := by
  by_contra hcancelled
  obtain ⟨e, hfails, -⟩ := describe_cancelled (by simpa using hcancelled) o texts w
  rw [h] at hfails
  exact nomatch hfails

theorem answer_of_prepare (hstays : s.StaysCancelled) (h : (prepare o s).run w = (.ok p, w₁))
    {sql : String} (hsql : sql ∈ sqlTexts p.readings) : answer s sql = s.server.describe sql := by
  obtain ⟨readings, w₂, -, hdescribe⟩ := of_run_bind h
  obtain ⟨types, w₃, htypes, h₃⟩ := of_run_bind hdescribe
  obtain rfl : p.readings = readings := by cases h₃; rfl
  rw [typesFor, if_neg (List.ne_nil_of_mem hsql)] at htypes
  have hrunning : s.isCancelled (.describing sql) = false := by
    by_contra hcut
    have hdescribed := hstays (.describing sql) (by simpa using hcut)
    rw [running_of_describe htypes] at hdescribed
    cases hdescribed
  rw [answer, hrunning]
  rfl

/-! The run as a whole -/

theorem prepareWith_of_nil (hread : (readFilesWith ps o s).run w = (.ok readings, w₁))
    (hnone : sqlTexts readings = []) :
    (prepareWith ps o s).run w = (prepareWith ps o s.uncancelled).run w := by
  have hread' : (readFilesWith ps o s.uncancelled).run w = (.ok readings, w₁) := hread
  rw [prepareWith, prepareWith, run_bind, run_bind, hread, hread']
  simp only [describeFiles_of_nil hnone o s]

theorem beginsToWrite_of_findsNoQuery (h : FindsNoQuery ps o s w) : BeginsToWrite ps o s w := by
  obtain ⟨readings, w₁, hread, hnone⟩ := h
  obtain ⟨p, w₂, hdescribe⟩ := exists_describeFiles_of_nil hnone o s w₁
  refine ⟨p, w₂, ?_⟩
  simp only [prepareWith, run_bind, hread, run_attempt, hdescribe]
  rfl

/-- A cancelled run that finds a query, or does not get to read its files, has no answers. -/
theorem prepareWith_cancelled (hcancelled : s.isCancelled .described = true)
    (h : ¬ FindsNoQuery ps o s w) :
    ∃ stop, ((prepareWith ps o s).run w).1 = .error stop ∧
      (stop = .error .cancelled ∨ ((prepareWith ps o s.uncancelled).run w).1 = .error stop) := by
  have hsame : (readFilesWith ps o s.uncancelled).run w = (readFilesWith ps o s).run w := rfl
  simp only [prepareWith, run_bind, hsame]
  cases hread : (readFilesWith ps o s).run w with
  | mk result w₁ =>
  cases result with
  | error stop => exact ⟨stop, rfl, .inr rfl⟩
  | ok readings =>
    obtain ⟨e, hfails, hcause⟩ := describeFiles_cancelled hcancelled
      (fun hnone => h ⟨readings, w₁, hread, hnone⟩) o w₁
    refine ⟨.error e, ?_, hcause.imp (congrArg Stop.error) fun hcause => ?_⟩
    · simp only [run_attempt, hfails]
      rfl
    · simp only [run_attempt, hcause]
      rfl

theorem findsNoQuery_of_beginsToWrite (hcancelled : s.isCancelled .described = true)
    (h : BeginsToWrite ps o s w) : FindsNoQuery ps o s w := by
  by_contra hquery
  obtain ⟨p, w₁, hprepared⟩ := h
  obtain ⟨stop, hfails, -⟩ := prepareWith_cancelled hcancelled hquery
  rw [hprepared] at hfails
  exact nomatch hfails

/-- If a run is cancelled before it begins to write, then it begins to write if and only if it
finds no query, and then it goes on as if nothing had been. Otherwise it ends as cancelled or with
what ends it anyway, and leaves the tree as it was. In no run is a query that was cut short taken
for one that has failed. -/
theorem cancelled_run_writes_iff (hstays : s.StaysCancelled) :
    (s.isCancelled .described = true →
      (BeginsToWrite ps o s w ↔ FindsNoQuery ps o s w) ∧
      (BeginsToWrite ps o s w →
        (runWith ps o s w).result = (runWith ps o s.uncancelled w).result ∧
        (runWith ps o s w).world = (runWith ps o s.uncancelled w).world) ∧
      (¬ BeginsToWrite ps o s w → ∃ stop, (runWith ps o s w).result = .error stop ∧
        (stop = .error .cancelled ∨ (runWith ps o s.uncancelled w).result = .error stop) ∧
        Untouched s w.tree (runWith ps o s w).world.tree)) ∧
    ∀ p w₁, (prepare o s).run w = (.ok p, w₁) → ∀ sql ∈ sqlTexts p.readings,
      answer s sql = s.server.describe sql := by
  refine ⟨fun hcancelled => ⟨⟨findsNoQuery_of_beginsToWrite hcancelled,
    beginsToWrite_of_findsNoQuery⟩, fun hbegins => ?_, fun hends => ?_⟩,
    fun p w₁ h sql hsql => answer_of_prepare hstays h hsql⟩
  · obtain ⟨readings, w₁, hread, hnone⟩ := findsNoQuery_of_beginsToWrite hcancelled hbegins
    have hsame : (generateWith ps o s).run w = (generateWith ps o s.uncancelled).run w := by
      rw [generateWith, generateWith, run_bind, run_bind, prepareWith_of_nil hread hnone]
      rfl
    exact ⟨congrArg Prod.fst hsame, congrArg Prod.snd hsame⟩
  · obtain ⟨stop, hfails, hcause⟩ := prepareWith_cancelled hcancelled
      fun hnone => hends (beginsToWrite_of_findsNoQuery hnone)
    refine ⟨stop, run_bind_of_error hfails _, hcause.imp_right fun hcause =>
      run_bind_of_error hcause _, ?_⟩
    rcases reads_or_writes ps o s w with ⟨-, -, -, htree⟩ | ⟨p, w₁, hprepared, -⟩
    · exact htree
    · exact absurd ⟨p, w₁, hprepared⟩ hends

/-- The file has a query, so the cancelled run does not get to its write. -/
theorem cancelled_run_of_editedFile :
    (Surroundings.quiet plainServer true).StaysCancelled ∧
      ¬ BeginsToWrite .none (plainOptions ["*"]) (.quiet plainServer true) editedFile ∧
      ∃ stop, (runWith .none (plainOptions ["*"]) (.quiet plainServer true) editedFile).result =
        .error stop := by
  have hstays : (Surroundings.quiet plainServer true).StaysCancelled := fun _ _ => rfl
  have hquery : ¬ FindsNoQuery .none (plainOptions ["*"]) (.quiet plainServer true) editedFile := by
    rintro ⟨readings, w₁, hread, hnone⟩
    have hsome : (match ((readFilesWith .none (plainOptions ["*"]) (.quiet plainServer true)).run
        editedFile).1 with
      | .ok readings => sqlTexts readings
      | .error _ => [""]) ≠ [] := by decide +kernel
    rw [hread] at hsome
    exact hsome hnone
  obtain ⟨hwrites, -, hends⟩ :=
    (@cancelled_run_writes_iff (plainOptions ["*"]) _ .none editedFile hstays).1 rfl
  have hreads := fun hbegins => hquery (hwrites.1 hbegins)
  obtain ⟨stop, hstop, -⟩ := hends hreads
  exact ⟨hstays, hreads, stop, hstop⟩

/-- A run that is cancelled before it starts drops a block that nothing needs any more. -/
theorem cancelled_run_changes_file :
    (∀ c, (Surroundings.quiet plainServer true).isCancelled c = true) ∧
      ((run (plainOptions ["*"]) (.quiet plainServer true) staleFile).result.toOption.map
        Report.changed) = some ["./a"] ∧
      (run (plainOptions ["*"]) (.quiet plainServer true) staleFile).world.tree.read "a" =
        .ok "a\n" :=
  ⟨fun _ => rfl, by decide +kernel⟩

end Generation
end RowTypes
