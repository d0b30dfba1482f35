import RowTypes.Proofs.FixedPoint
import RowTypes.Proofs.Interfaces

/-! What a new block takes over from the old one. Each name to which a failed query refers keeps
the declaration that the old block has for it, unless a new declaration takes the name. -/

namespace RowTypes.TypedSource
open Tag Block

def reference? (q : QueryRecord) : Option String :=
  q.typeArguments.bind fun a => Reference.name? a.text

theorem isIdentifier_reference {q : QueryRecord} {name : String} (h : reference? q = some name) :
    isIdentifier name = true := by
  obtain ⟨a, -, ha⟩ := Option.bind_eq_some_iff.1 h
  exact Reference.isIdentifier_of_name? ha

/-- Takes over the entry for one more name, unless the name is among `names` or has been taken
over before. -/
def carryOver (find : String → Option String) (names : List String)
    (found : List (String × String)) (name : String) : List (String × String) :=
  if name ∈ names ∨ name ∈ found.map Prod.fst then found
  else
    match find name with
    | some text => found ++ [(name, text)]
    | none => found

theorem carried_eq (block : List Char) (ds : List Declaration) (failed : List QueryRecord) :
    carried block ds failed = (failed.filterMap reference?).foldl
      (carryOver (fun name => (interface? block name).map String.ofList)
        (ds.map Declaration.name)) [] := by
  rw [carried, List.foldl_filterMap]
  refine congrArg (fun f => failed.foldl f []) (funext fun found => funext fun q => ?_)
  cases hq : reference? q with
  | none =>
    rw [reference?] at hq
    simp only [hq]
  | some name =>
    rw [reference?] at hq
    have hds : ds.any (·.name = name) = true ↔ name ∈ ds.map Declaration.name := by simp
    have hfound : found.any (·.1 = name) = true ↔ name ∈ found.map Prod.fst := by
      rw [List.any_eq_true, List.mem_map]
      simp
    simp only [hq, carryOver, hds, hfound]
    cases interface? block name <;> rfl

def takenOver (es : List (String × String)) (names refs : List String) : List (String × String) :=
  refs.foldl (carryOver (es.lookup ·) names) []

theorem carryOver_congr {find find' : String → Option String} {names : List String}
    {found : List (String × String)} {name : String} (h : name ∉ names → find' name = find name) :
    carryOver find' names found name = carryOver find names found name := by
  by_cases hn : name ∈ names
  · simp only [carryOver, hn, true_or, if_true]
  · simp only [carryOver, h hn]

theorem foldl_carryOver_congr {find find' : String → Option String} {names refs : List String}
    (h : ∀ name ∈ refs, name ∉ names → find' name = find name) (found : List (String × String)) :
    refs.foldl (carryOver find' names) found = refs.foldl (carryOver find names) found := by
  induction refs generalizing found with
  | nil => rfl
  | cons name refs ih =>
    rw [List.forall_mem_cons] at h
    rw [List.foldl_cons, List.foldl_cons, carryOver_congr h.1, ih h.2]

theorem carried_ofTexts {es : List (String × String)} (h : ∀ e ∈ es, Declares e)
    (ds : List Declaration) (failed : List QueryRecord) :
    carried (ofTexts (es.map Prod.snd)).toList ds failed =
      takenOver es (ds.map Declaration.name) (failed.filterMap reference?) := by
  rw [carried_eq]
  refine foldl_carryOver_congr (fun name hname _ => ?_) []
  obtain ⟨q, -, hq⟩ := List.mem_filterMap.1 hname
  rw [interface?_ofTexts (isIdentifier_reference hq) h]
  cases es.lookup name with
  | none => rfl
  | some text => simp

section TakenOver

variable {es found : List (String × String)} {names refs : List String}

structure Sound (es : List (String × String)) (names : List String)
    (found : List (String × String)) : Prop where
  entries : ∀ e ∈ found, es.lookup e.1 = some e.2
  names : ∀ e ∈ found, e.1 ∉ names
  nodup : (found.map Prod.fst).Nodup

theorem Sound.carryOver (h : Sound es names found) (name : String) :
    Sound es names (carryOver (es.lookup ·) names found name) := by
  rw [TypedSource.carryOver]
  split
  · exact h
  · rename_i hfree
    rw [not_or] at hfree
    cases hlookup : es.lookup name with
    | none => exact h
    | some text =>
      refine ⟨?_, ?_, ?_⟩
      · simpa [or_imp, forall_and, hlookup] using fun a b => h.entries (a, b)
      · simpa [or_imp, forall_and, hfree.1] using fun a b => h.names (a, b)
      · rw [List.map_append, List.nodup_append]
        refine ⟨h.nodup, by simp, ?_⟩
        intro a ha b hb hab
        rw [List.map_singleton, List.mem_singleton] at hb
        exact hfree.2 (by rwa [hab, hb] at ha)

theorem Sound.foldl (h : Sound es names found) (refs : List String) :
    Sound es names (refs.foldl (TypedSource.carryOver (es.lookup ·) names) found) := by
  induction refs generalizing found with
  | nil => exact h
  | cons name refs ih => exact ih (h.carryOver name)

theorem takenOver_sound (es : List (String × String)) (names refs : List String) :
    Sound es names (takenOver es names refs) :=
  have h : Sound es names [] := ⟨by simp, by simp, List.nodup_nil⟩
  h.foldl refs

theorem lookup_carryOver (h : Sound es names found) {name : String} (hn : name ∉ names)
    (ref : String) :
    (carryOver (es.lookup ·) names found ref).lookup name =
      if name = ref then es.lookup name else found.lookup name := by
  have hnone {m : String} (hm : m ∉ found.map Prod.fst) : found.lookup m = none := by
    rw [List.lookup_eq_none_iff]
    intro e he
    have : m ≠ e.1 := fun heq => hm (heq ▸ List.mem_map_of_mem he)
    simpa using this
  rw [carryOver]
  split
  · rename_i htaken
    split
    · rename_i heq
      subst heq
      -- the name was taken over before, as the entry that it has
      obtain ⟨e, he, rfl⟩ := List.mem_map.1 (htaken.resolve_left hn)
      cases hfound : found.lookup e.1 with
      | none => simpa using List.lookup_eq_none_iff.1 hfound e he
      | some text =>
        obtain ⟨l₁, l₂, hl, -⟩ := List.lookup_eq_some_iff.1 hfound
        exact (h.entries (e.1, text) (by rw [hl]; simp)).symm
    · rfl
  · rename_i hfree
    rw [not_or] at hfree
    cases hlookup : es.lookup ref with
    | none =>
      simp only
      split
      · rename_i heq
        rw [heq, hlookup, hnone hfree.2]
      · rfl
    | some text =>
      simp only [List.lookup_append]
      by_cases heq : name = ref
      · subst heq
        simp [hnone hfree.2, hlookup]
      · have hne : (name == ref) = false := beq_eq_false_iff_ne.2 heq
        simp [List.lookup_cons, hne, heq]

theorem lookup_takenOver {name : String} (hn : name ∉ names) (href : name ∈ refs) :
    (takenOver es names refs).lookup name = es.lookup name := by
  have hfold (found : List (String × String)) (h : Sound es names found) :
      (refs.foldl (carryOver (es.lookup ·) names) found).lookup name =
        if name ∈ refs then es.lookup name else found.lookup name := by
    clear href
    induction refs generalizing found with
    | nil => rfl
    | cons ref refs ih =>
      rw [List.foldl_cons, ih _ (h.carryOver ref), lookup_carryOver h hn]
      by_cases heq : name = ref <;> by_cases hmem : name ∈ refs <;> simp [heq, hmem]
  rw [takenOver, hfold [] ⟨by simp, by simp, List.nodup_nil⟩, if_pos href]

theorem takenOver_declares (h : ∀ e ∈ es, Declares e) (names refs : List String) :
    ∀ e ∈ takenOver es names refs, Declares e := by
  intro e he
  obtain ⟨l₁, l₂, hl, -⟩ := List.lookup_eq_some_iff.1 ((takenOver_sound es names refs).entries e he)
  exact h e (by rw [hl]; simp)

end TakenOver

/-! The entries of a block and of the next one -/

/-- The entries of the block in a text, which are none if there is no block. -/
structure HasEntries (content : List Char) (es : List (String × String)) : Prop where
  declares : ∀ e ∈ es, Declares e
  block : match Block.find? content with
    | some cut => cut.middle = (ofTexts (es.map Prod.snd)).toList
    | none => es = []

theorem HasEntries.keptFrom {content : List Char} {es : List (String × String)}
    (h : HasEntries content es) (ds : List Declaration) (failed : List QueryRecord) :
    keptFrom content ds failed =
      takenOver es (ds.map Declaration.name) (failed.filterMap reference?) := by
  have hblock := h.block
  rw [TypedSource.keptFrom]
  cases hfind : Block.find? content with
  | some cut =>
    rw [hfind] at hblock
    simp only [hblock]
    exact carried_ofTexts h.declares ds failed
  | none =>
    rw [hfind] at hblock
    subst hblock
    have hsound := takenOver_sound [] (ds.map Declaration.name) (failed.filterMap reference?)
    cases htaken : takenOver [] (ds.map Declaration.name) (failed.filterMap reference?) with
    | nil => rfl
    | cons e found =>
      rw [htaken] at hsound
      exact absurd (hsound.entries e List.mem_cons_self) (by simp)

theorem hasEntries_layout {l : Layout} (hl : l.Valid) {es : List (String × String)}
    (h : ∀ e ∈ es, Declares e) : HasEntries (l.text (es.map Prod.snd)) es := by
  refine ⟨h, ?_⟩
  rw [hl.find? fun t ht => ?_]
  obtain ⟨e, he, rfl⟩ := List.mem_map.1 ht
  exact (h e he).entry

def entriesOf (defaultType : String) (ds : List Declaration) : List (String × String) :=
  ds.map fun d => (d.name, d.render defaultType "  ")

theorem entriesOf_names (defaultType : String) (ds : List Declaration) :
    (entriesOf defaultType ds).map Prod.fst = ds.map Declaration.name := by
  rw [entriesOf, List.map_map]
  rfl

theorem entriesOf_declares {defaultType : String} (hd : isIdentifier defaultType = true)
    {ds : List Declaration} (hplain : ∀ d ∈ ds, d.Plain)
    (hneutral : ∀ d ∈ ds, d.Neutral defaultType) : ∀ e ∈ entriesOf defaultType ds, Declares e := by
  intro e he
  obtain ⟨d, hmem, rfl⟩ := List.mem_map.1 he
  exact ⟨defaultType, d, hd, hplain d hmem, hneutral d hmem, rfl⟩

def nextEntriesOf (es : List (String × String)) (ds : List Declaration)
    (failed : List QueryRecord) (defaultType : String) : List (String × String) :=
  entriesOf defaultType ds ++ takenOver es (ds.map Declaration.name) (failed.filterMap reference?)

theorem HasEntries.nextEntries {content : List Char} {es : List (String × String)}
    (h : HasEntries content es) (ds : List Declaration) (failed : List QueryRecord)
    (defaultType : String) : nextEntries content ds failed defaultType =
      (nextEntriesOf es ds failed defaultType).map Prod.snd := by
  rw [TypedSource.nextEntries, h.keptFrom, nextEntriesOf, List.map_append, entriesOf, List.map_map]
  rfl

section Next

variable {es : List (String × String)} {ds : List Declaration} {failed : List QueryRecord}
  {defaultType : String}

variable (failed) in
theorem nextEntriesOf_declares (h : ∀ e ∈ es, Declares e)
    (hd : isIdentifier defaultType = true) (hplain : ∀ d ∈ ds, d.Plain)
    (hneutral : ∀ d ∈ ds, d.Neutral defaultType) :
    ∀ e ∈ nextEntriesOf es ds failed defaultType, Declares e :=
  List.forall_mem_append.2
    ⟨entriesOf_declares hd hplain hneutral, takenOver_declares h _ _⟩

theorem lookup_nextEntriesOf {name : String} (hn : name ∉ ds.map Declaration.name)
    (href : name ∈ failed.filterMap reference?) :
    (nextEntriesOf es ds failed defaultType).lookup name = es.lookup name := by
  have hnone : (entriesOf defaultType ds).lookup name = none := by
    rw [List.lookup_eq_none_iff]
    intro e he
    have hmem := List.mem_map_of_mem (f := Prod.fst) he
    rw [entriesOf_names] at hmem
    have : name ≠ e.1 := fun heq => hn (by rwa [heq])
    simpa using this
  rw [nextEntriesOf, List.lookup_append, hnone, lookup_takenOver hn href]
  rfl

theorem takenOver_again (es : List (String × String)) (ds : List Declaration)
    (failed : List QueryRecord) (defaultType : String) :
    takenOver (nextEntriesOf es ds failed defaultType) (ds.map Declaration.name)
        (failed.filterMap reference?) =
      takenOver es (ds.map Declaration.name) (failed.filterMap reference?) :=
  foldl_carryOver_congr (fun _ href hn => lookup_nextEntriesOf hn href) []

end Next

/-- What is taken over can be read back: no query has failed, or nothing in the old block and
the new declarations reads as the header of another declaration. -/
def Readable (content : List Char) (ds : List Declaration) (failed : List QueryRecord)
    (defaultType : String) : Prop :=
  failed = [] ∨ ((∀ d ∈ ds, d.Neutral defaultType) ∧ ∃ es, HasEntries content es)

section Readable

variable {content : List Char} {ds : List Declaration} {failed : List QueryRecord}
  {defaultType : String}

theorem Readable.kept (h : Readable content ds failed defaultType) :
    ∀ e ∈ keptFrom content ds failed, EntryText e.2 := by
  rcases h with rfl | ⟨-, es, hes⟩
  · simp [keptFrom_nil]
  · rw [hes.keptFrom]
    exact fun e he => (takenOver_declares hes.declares _ _ e he).entry

theorem Readable.again (h : Readable content ds failed defaultType)
    (hd : isIdentifier defaultType = true) (hplain : ∀ d ∈ ds, d.Plain) {l : Layout}
    (hl : l.Valid) {out : List Char}
    (hout : out = l.text (nextEntries content ds failed defaultType))
    {failed' : List QueryRecord}
    (hrefs : failed'.filterMap reference? = failed.filterMap reference?)
    (hfailed : failed = [] → failed' = []) (ds' : List Declaration) :
    (∀ e ∈ keptFrom out ds' failed', EntryText e.2) ∧
      (ds'.map Declaration.name = ds.map Declaration.name →
        keptFrom out ds' failed' = keptFrom content ds failed) := by
  rcases h with rfl | ⟨hneutral, es, hes⟩
  · rw [hfailed rfl, keptFrom_nil, keptFrom_nil]
    exact ⟨by simp, fun _ => rfl⟩
  · have hdeclares := nextEntriesOf_declares failed hes.declares hd hplain hneutral
    have hnext := hasEntries_layout hl hdeclares
    rw [← hes.nextEntries, ← hout] at hnext
    rw [hnext.keptFrom, hrefs]
    refine ⟨fun e he => (takenOver_declares hnext.declares _ _ e he).entry, fun hnames => ?_⟩
    rw [hnames, takenOver_again, hes.keptFrom]

end Readable

end RowTypes.TypedSource
