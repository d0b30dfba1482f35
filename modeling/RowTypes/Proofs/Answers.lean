import Mathlib.Data.List.Perm.Basic
import RowTypes.Proofs.Conflicts
import RowTypes.Proofs.Discovered

/-! The answers to the texts of a run. In whatever order they are sent and answered, each text
is sent once and has its own answer in the end, so that the types of a query depend on nothing but
its text. -/

namespace RowTypes

namespace Describing

variable {limit : Nat} {answer : String → Except DescribeError Description} {texts : List String}
  {d : Describing}

/-- Each text is either still to be sent, or sent, or answered, and nothing is so twice. -/
structure Kept (limit : Nat) (answer : String → Except DescribeError Description)
    (texts : List String) (d : Describing) : Prop where
  perm : (d.answered.map Prod.fst ++ (d.sent ++ d.waiting)).Perm texts.eraseDups
  sent_le : d.sent.length ≤ limit
  answered : ∀ a ∈ d.answered, a.2 = answer a.1

theorem kept_start : Kept limit answer texts (start texts) where
  perm := by simp [start]
  sent_le := Nat.zero_le limit
  answered := nofun

theorem Kept.step (h : Kept limit answer texts d) (event : Event) :
    Kept limit answer texts (step limit answer d event) := by
  obtain ⟨waiting, sent, answered⟩ := d
  cases event with
  | send =>
    cases waiting with
    | nil => exact h
    | cons text rest =>
      simp only [Describing.step]
      split
      · rename_i hlimit
        refine ⟨?_, ?_, h.answered⟩
        · simpa only [List.append_assoc, List.singleton_append] using h.perm
        · simpa [Nat.succ_le_iff] using hlimit
      · exact h
  | answer n =>
    simp only [Describing.step]
    split
    · exact h
    · rename_i text htext
      obtain ⟨hlt, rfl⟩ := List.getElem?_eq_some_iff.1 htext
      refine ⟨?_, ?_, fun a ha => ?_⟩
      · refine List.Perm.trans ?_ h.perm
        rw [List.map_append, List.append_assoc]
        refine List.Perm.append_left _ ?_
        rw [List.map_singleton, List.singleton_append, ← List.cons_append]
        exact (List.getElem_cons_eraseIdx_perm hlt).append_right waiting
      · exact Nat.le_trans (List.length_eraseIdx_le ..) h.sent_le
      · rcases List.mem_append.1 ha with ha | ha
        · exact h.answered a ha
        · rw [List.mem_singleton.1 ha]

theorem kept_foldl (events : List Event) :
    Kept limit answer texts (events.foldl (Describing.step limit answer) (start texts)) := by
  suffices h : ∀ d, Kept limit answer texts d →
      Kept limit answer texts (events.foldl (Describing.step limit answer) d) from
    h _ kept_start
  induction events with
  | nil => exact fun d h => h
  | cons event events ih => exact fun d h => ih _ (h.step event)

theorem run_perm (events : List Event) :
    ((run limit answer events texts).map Prod.fst).Perm texts.eraseDups := by
  have h := (kept_foldl events : Kept limit answer texts _).perm
  rw [run, finish, List.map_append, List.map_map]
  simpa [Function.comp_def] using h

theorem eq_of_mem_run {events : List Event} {a : String × Except DescribeError Description}
    (h : a ∈ run limit answer events texts) : a.2 = answer a.1 := by
  rcases List.mem_append.1 h with h | h
  · exact (kept_foldl events).answered a h
  · obtain ⟨text, -, rfl⟩ := List.mem_map.1 h
    rfl

theorem lookup_run (events : List Event) (sql : String) :
    (run limit answer events texts).lookup sql =
      if sql ∈ texts then some (answer sql) else none := by
  have hmem : sql ∈ (run limit answer events texts).map Prod.fst ↔ sql ∈ texts := by
    rw [(run_perm events).mem_iff, List.mem_eraseDups]
  cases hlookup : (run limit answer events texts).lookup sql with
  | none =>
    rw [List.lookup_eq_none_iff] at hlookup
    rw [if_neg]
    rw [← hmem, List.mem_map]
    rintro ⟨a, ha, rfl⟩
    exact absurd rfl (bne_iff_ne.1 (hlookup a ha))
  | some found =>
    obtain ⟨before, after, hrun, -⟩ := List.lookup_eq_some_iff.1 hlookup
    have hfound : (sql, found) ∈ run limit answer events texts := by
      rw [hrun]
      exact List.mem_append_right _ List.mem_cons_self
    rw [if_pos (hmem.1 (List.mem_map_of_mem hfound)), ← eq_of_mem_run hfound]

end Describing

def Options.atOnce (o : Options) (describeConcurrency : Nat) : Options :=
  { o with database := { o.database with describeConcurrency } }

namespace Generation

variable {o : Options} {s s' : Surroundings} {w w' w₁ w₁' : World} {p p' : Prepared}

def answerTypes (i : Inference) (sql : String) :
    Except DescribeError Description → Except String QueryTypes
  | .ok d => (i.infer sql d).mapError InferenceError.message
  | .error e => .error e.message

theorem typesOf_run (i : Inference) (limit : Nat)
    (answer : String → Except DescribeError Description) (events : List Describing.Event)
    (texts : List String) (sql : String) :
    typesOf i (Describing.run limit answer events texts) sql =
      if sql ∈ texts then answerTypes i sql (answer sql)
      else .error RunError.cancelled.message := by
  rw [typesOf, Describing.lookup_run]
  by_cases h : sql ∈ texts
  · rw [if_pos h, if_pos h]
    cases answer sql <;> rfl
  · rw [if_neg h, if_neg h]

theorem mem_sqlTexts {file : SourceFile} (hfile : file ∈ p.sources) {q : QueryRecord}
    (hq : q ∈ file.queries) : q.sql ∈ sqlTexts p.readings :=
  List.mem_map_of_mem (List.mem_flatMap.2 ⟨file, hfile, hq⟩)

theorem Prepares.types_eq {paths : List String} (h : Prepares o s w p w₁ paths) {sql : String}
    (hsql : sql ∈ sqlTexts p.readings) :
    ∃ catalog, s.server.loadCatalog = .ok catalog ∧
      p.types sql = answerTypes (inference o catalog) sql (answer s sql) := by
  obtain ⟨catalog, hcatalog, htypes⟩ := h.types (List.ne_nil_of_mem hsql)
  exact ⟨catalog, hcatalog, by rw [htypes, typesOf_run, if_pos hsql]⟩

def queryFailures (types : String → Except String QueryTypes) (file : SourceFile) :
    List QueryFailure :=
  (queryResults types file).filterMap QueryResult.failure?

theorem queryFailures_ofResults (p : Prepared) (written : List WriteResult) :
    (Report.ofResults p.readings p.results written).queryFailures =
      p.sources.flatMap (queryFailures p.types) :=
  List.filterMap_flatMap ..

/-! A file by itself -/

theorem Prepares.extract_eq {paths : List String} (h : Prepares o s w p w₁ paths)
    {file : SourceFile} (hfile : file ∈ p.sources) :
    SourceFile.extract file.path file.content = .ok file := by
  obtain ⟨n, hn⟩ := List.getElem?_of_mem (exists_source h hfile).1
  obtain ⟨-, before, after, -, hload⟩ := h.exists_reading hn
  exact (SourceFile.of_load hload.symm).2.2

theorem eq_of_text {paths paths' : List String} {n : Nat} (h : Prepares o s w p w₁ paths)
    (h' : Prepares (o.atOnce n) s' w' p' w₁' paths')
    (hcatalog : s'.server.loadCatalog = s.server.loadCatalog)
    (hanswer : ∀ sql, answer s' sql = answer s sql) {file file' : SourceFile}
    (hfile : file ∈ p.sources) (hfile' : file' ∈ p'.sources) (hpath : file'.path = file.path)
    (htext : file'.content = file.content) :
    file' = file ∧ queryResults p'.types file' = queryResults p.types file := by
  have hextract := h'.extract_eq hfile'
  rw [hpath, htext, h.extract_eq hfile] at hextract
  obtain rfl := Except.ok.inj hextract
  refine ⟨rfl, List.map_congr_left fun q hq => ?_⟩
  obtain ⟨catalog, hloaded, htypes⟩ := h.types_eq (mem_sqlTexts hfile hq)
  obtain ⟨catalog', hloaded', htypes'⟩ := h'.types_eq (mem_sqlTexts hfile' hq)
  rw [hcatalog, hloaded] at hloaded'
  obtain rfl := Except.ok.inj hloaded'
  rw [htypes, htypes', hanswer]
  rfl

theorem filePlan_congr {types types' : String → Except String QueryTypes} {file : SourceFile}
    (h : queryResults types' file = queryResults types file) :
    filePlan types' file = filePlan types file := by
  simp only [filePlan, h]

end Generation
end RowTypes
