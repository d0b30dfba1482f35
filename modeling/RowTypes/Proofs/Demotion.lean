import RowTypes.Proofs.NullableTables
import RowTypes.Proofs.NullExtension

/-! The walk over a query demotes every table that an outer join extends by nulls. Each part of the
walk is compared with the same part of the scoping rules: it finds the tables that the part reads,
demotes those that its joins extend, and changes what it knows of names that the part declares
alone. In a recursive expression some tables are still to be found when its own name is read. They
are carried along as pending until the set operation that holds them is demoted as a whole. -/

namespace RowTypes.Sql

section Names

theorem lastPart_append {before part : List Char} (hb : before = [] ∨ before.getLast? = some '.')
    (hp : '.' ∉ part) : lastPart (before ++ part) = part := by
  have inside : ∀ c ∈ part.reverse, (decide (c ≠ '.')) = true := by
    intro c hc
    have : c ≠ '.' := fun h => hp (h ▸ List.mem_reverse.mp hc)
    simpa using this
  rw [lastPart, List.reverse_append, List.takeWhile_append_of_pos inside, List.reverse_append,
    List.reverse_reverse]
  rcases hb with rfl | hb
  · rfl
  · obtain ⟨front, rfl⟩ := List.getLast?_eq_some_iff.mp hb
    simp

theorem written_eq_append_display (path : List Ident) {name : Ident}
    (h : path.getLast? = some name) :
    ∃ before, ((path.map Ident.display).intersperse ['.']).flatten = before ++ name.display ∧
      (before = [] ∨ before.getLast? = some '.') := by
  induction path with
  | nil => simp at h
  | cons first rest ih =>
    cases rest with
    | nil => exact ⟨[], by simp_all⟩
    | cons second rest =>
      obtain ⟨before, hw, hb⟩ := ih (by simpa using h)
      refine ⟨first.display ++ '.' :: before, ?_, Or.inr ?_⟩
      · simp only [List.map_cons, List.intersperse_cons_cons, List.flatten_cons] at hw ⊢
        simp [hw]
      · rcases hb with rfl | hb
        · simp
        · simp [List.getLast?_append, List.getLast?_cons, hb]

theorem escape_of_not_mem {cs : List Char} (h : '"' ∉ cs) (before : Char) :
    Ident.escape '"' before cs = cs := by
  induction cs generalizing before with
  | nil => simp [Ident.escape]
  | cons c cs ih =>
    simp only [List.mem_cons, not_or] at h
    rw [Ident.escape.eq_def]
    simp [Ne.symm h.1, ih h.2]

theorem undouble_of_not_mem {cs : List Char} (h : '"' ∉ cs) : undouble cs = cs := by
  induction cs with
  | nil => simp [undouble]
  | cons c cs ih =>
    simp only [List.mem_cons, not_or] at h
    rw [undouble]
    · rw [ih h.2]
    · rintro rest ⟨⟩
      exact absurd rfl h.1

theorem tableName_eq_folded {path : List Ident} {name : Ident} (hl : path.getLast? = some name)
    (hn : name.isPlain = true) : tableName path = name.folded := by
  obtain ⟨value, quote⟩ := name
  simp only [Ident.isPlain, Bool.and_eq_true, Bool.or_eq_true, decide_eq_true_eq] at hn
  obtain ⟨⟨hquote, hperiod⟩, hdouble⟩ := hn
  obtain ⟨before, hw, hb⟩ := written_eq_append_display path hl
  rcases hquote with rfl | rfl
  · have hp : lastPart (before ++ value.toList) = value.toList := lastPart_append hb hperiod
    simp only [tableName, hw, Ident.display, hp, Ident.folded]
    split
    · next rest heq => exact absurd (heq ▸ List.mem_cons_self) hdouble
    · rw [String.ofList_toList]
  · have hd : Ident.display ⟨value, some '"'⟩ = '"' :: (value.toList ++ ['"']) := by
      simp [Ident.display, escape_of_not_mem hdouble]
    have hp : lastPart (before ++ '"' :: (value.toList ++ ['"'])) =
        '"' :: (value.toList ++ ['"']) := lastPart_append hb (by simp [hperiod])
    simp only [tableName, hw, hd, hp]
    simp [undouble_of_not_mem hdouble, Ident.folded, String.ofList_toList]

end Names

section Scopes

variable {s : Scope} {name t : String} {declared tables : List String}

theorem lookup_cons_of_ne {α : Type} {name key : String} (h : name ≠ key) (value : α)
    (entries : List (String × α)) :
    ((key, value) :: entries).lookup name = entries.lookup name := by
  rw [List.lookup_cons, beq_eq_false_iff_ne.mpr h]

theorem Scope.reads_cons (s : Scope) (name self : String) (tables : List String) :
    Scope.reads ((self, tables) :: s) name = if name = self then tables else s.reads name := by
  by_cases h : name = self
  · simp [reads, h]
  · rw [reads, lookup_cons_of_ne h, if_neg h, reads]

theorem Scope.of_mem_forget (h : t ∈ (s.forget declared).reads name) :
    t = name ∨ name ∉ declared ∧ t ∈ s.reads name := by
  induction s with
  | nil => exact .inl (List.mem_singleton.mp h)
  | cons entry s ih =>
    obtain ⟨self, tables⟩ := entry
    rw [forget, List.map_cons, reads_cons] at h
    rw [reads_cons]
    by_cases hself : name = self
    · subst hself
      rw [if_pos rfl] at h ⊢
      split at h
      · cases h
      · exact .inr ⟨‹_›, h⟩
    · rw [if_neg hself] at h ⊢
      exact ih h

theorem Scope.of_mem_opening {recursive : Bool} {ctes : List Cte}
    (h : t ∈ (s.opening recursive ctes).reads name) : t ∈ s.reads name := by
  rw [opening] at h
  split at h
  · induction ctes with
    | nil => exact h
    | cons c ctes ih =>
      rw [List.map_cons, List.cons_append, reads_cons] at h
      split at h
      · cases h
      · exact ih h
  · exact h

end Scopes

section Walks

variable {s : Scope} {w v u : Walk} {pending declared declared' : List String}

def Walk.Covers (w : Walk) (s : Scope) (pending : List String) : Prop :=
  ∀ name, ∀ t ∈ s.reads name, t ∈ w.reads name ∨ t ∈ pending

/-- A later walk that knows the same of names other than those `declared`. -/
structure Walk.Keeps (w v : Walk) (declared : List String) : Prop where
  nullable : ∀ t ∈ w.nullable, t ∈ v.nullable
  lookup : ∀ name, name ∉ declared → v.ctes.lookup name = w.ctes.lookup name

theorem Walk.Keeps.refl : w.Keeps w [] := ⟨fun _ => id, fun _ _ => rfl⟩

theorem Walk.Keeps.append (h : w.Keeps v declared) (k : v.Keeps u declared') :
    w.Keeps u (declared ++ declared') := by
  refine ⟨fun t ht => k.nullable t (h.nullable t ht), fun name hn => ?_⟩
  simp only [List.mem_append, not_or] at hn
  rw [k.lookup name hn.2, h.lookup name hn.1]

theorem Walk.keeps_demote (tables : List String) : w.Keeps (w.demote tables) [] :=
  ⟨fun t ht => by simp [demote, ht], fun _ _ => rfl⟩

theorem Walk.Keeps.demote (h : w.Keeps v declared) (tables : List String) :
    w.Keeps (v.demote tables) declared := by
  simpa using h.append (keeps_demote tables)

theorem Walk.keeps_bind (cte : String) (tables : List String) :
    w.Keeps (w.bind cte tables) [cte] :=
  ⟨fun _ => id, fun _ hn => lookup_cons_of_ne (by simpa using hn) tables w.ctes⟩

theorem Walk.mem_reads {name t : String} :
    t ∈ w.reads name ↔ t ∈ (w.ctes.lookup name).getD [] ∨ t = name := by
  simp [Walk.reads]

theorem Walk.Covers.forget (h : w.Covers s pending) (hk : w.Keeps v declared) :
    v.Covers (s.forget declared) pending := by
  intro name t ht
  rcases Scope.of_mem_forget ht with rfl | ⟨hn, ht⟩
  · exact .inl (mem_reads.mpr (.inr rfl))
  · rw [mem_reads, hk.lookup name hn, ← mem_reads]
    exact h name t ht

theorem Walk.Covers.opening (h : w.Covers s pending) (recursive : Bool) (ctes : List Cte) :
    w.Covers (s.opening recursive ctes) pending :=
  fun name t ht => h name t (Scope.of_mem_opening ht)

theorem Walk.Covers.mono {more : List String} (h : w.Covers s pending)
    (hm : ∀ t ∈ pending, t ∈ more) : w.Covers s more :=
  fun name t ht => (h name t ht).imp id (hm t)

theorem Walk.Covers.inside {recursive : Bool} {name : Ident} {q : Query} {self : List String}
    (h : w.Covers s pending) (hs : ∀ t ∈ self, t = name.folded ∨ t ∈ pending) :
    w.Covers (s.inside recursive name q self) pending := by
  rw [Scope.inside]
  split
  · intro other t ht
    rw [Scope.reads_cons] at ht
    split at ht
    · next heq => exact (hs t ht).imp (fun h => mem_reads.mpr (.inr (heq ▸ h))) id
    · exact h other t ht
  · exact h

theorem Walk.Covers.bind {tables found : List String} (h : w.Covers s pending) (cte : String)
    (ht : ∀ t ∈ tables, t ∈ found ∨ t ∈ pending) :
    (w.bind cte found).Covers ((cte, tables) :: s) pending := by
  intro name t hr
  rw [Scope.reads_cons] at hr
  by_cases hc : name = cte
  · rw [if_pos hc] at hr
    refine (ht t hr).imp (fun hf => mem_reads.mpr (.inl ?_)) id
    simpa [Walk.bind, hc] using hf
  · rw [if_neg hc] at hr
    refine (h name t hr).imp (fun hw => ?_) id
    rw [mem_reads] at hw ⊢
    simpa only [Walk.bind, lookup_cons_of_ne hc] using hw

end Walks

/-- What a walk over a part of a query finds: the tables that the part reads, and
those that its outer joins extend, apart from what is yet to be found. -/
structure Finds (pending : List String) (w v : Walk)
    (declared tables found extended : List String) : Prop where
  keeps : w.Keeps v declared
  tables : ∀ t ∈ tables, t ∈ found ∨ t ∈ pending
  extended : ∀ t ∈ extended, t ∈ v.nullable ∨ t ∈ pending

section Parts

variable {pending declared tables found extended : List String} {w v u : Walk}

theorem Finds.nothing : Finds pending w w [] [] [] [] := ⟨.refl, by simp, by simp⟩

theorem Finds.append {declared' tables' found' extended' : List String}
    (h : Finds pending w v declared tables found extended)
    (k : Finds pending v u declared' tables' found' extended') :
    Finds pending w u (declared ++ declared') (tables ++ tables') (NameSet.union found found')
      (extended ++ extended') := by
  refine ⟨h.keeps.append k.keeps, fun t ht => ?_, fun t ht => ?_⟩
  · rcases List.mem_append.mp ht with ht | ht
    · exact (h.tables t ht).imp (fun h => NameSet.mem_union.mpr (Or.inl h)) id
    · exact (k.tables t ht).imp (fun h => NameSet.mem_union.mpr (Or.inr h)) id
  · rcases List.mem_append.mp ht with ht | ht
    · exact (h.extended t ht).imp (k.keeps.nullable t) id
    · exact k.extended t ht

theorem Finds.demote (h : Finds pending w v declared tables found extended)
    (demoted : List String) : Finds pending w (v.demote demoted) declared tables found extended :=
  ⟨h.keeps.demote demoted, h.tables,
    fun t ht => (h.extended t ht).imp ((Walk.keeps_demote demoted).nullable t) id⟩

theorem JoinKind.mem_demotes {kind : JoinKind} {seen joined seen' joined' : List String}
    (hs : ∀ t ∈ seen, t ∈ seen' ∨ t ∈ pending) (hj : ∀ t ∈ joined, t ∈ joined' ∨ t ∈ pending) :
    ∀ t ∈ kind.nullExtended seen joined,
      t ∈ kind.outerSide.demotes seen' joined' ∨ t ∈ pending := by
  intro t ht
  rw [nullExtended] at ht
  split at ht
  · cases ht
  · next hseen =>
    rw [mem_demotes_iff, and_iff_right (Bool.eq_false_iff.mpr hseen)]
    rcases List.mem_append.mp ht with ht | ht <;> split at ht
    · exact (hs t ht).imp (fun h => .inr ⟨‹_›, h⟩) id
    · cases ht
    · exact (hj t ht).imp (fun h => .inl ⟨‹_›, h⟩) id
    · cases ht

theorem Walk.Covers.table {s : Scope} (hc : w.Covers s pending) (path : List Ident) :
    ∀ t ∈ s.readsPath path, t ∈ w.reads (tableName path) ∨ t ∈ pending := by
  intro t ht
  rw [Scope.readsPath] at ht
  split at ht
  · cases ht
  · next name hl =>
    split at ht
    · cases ht
    · next hplain =>
      rw [tableName_eq_folded hl (by simpa using hplain)]
      split at ht
      · exact hc _ t ht
      · exact .inl (mem_reads.mpr (.inr (List.mem_singleton.mp ht)))

end Parts

mutual

theorem Query.nullable_of_isUnion (w : Walk) : (q : Query) → q.isUnion = true →
    ∀ t ∈ (q.walk w).2, t ∈ (q.walk w).1.nullable
  | .mk _ ctes body, h => Body.nullable_of_isUnion (walkCtes w ctes) body h

theorem Body.nullable_of_isUnion (w : Walk) : (b : Body) → b.isUnion = true →
    ∀ t ∈ (b.walk w).2, t ∈ (b.walk w).1.nullable
  | .setOperation l r, _ => by
    intro t ht
    exact NameSet.mem_union.mpr (Or.inr ht)
  | .query q, h => Query.nullable_of_isUnion w q h

end

/-- The walk over an expression finds its tables although what its own name reads is
not known yet: the tables of a set operation are demoted as a whole. -/
theorem Cte.finds (recursive : Bool) {s : Scope} {pending : List String} {w : Walk} (name : Ident)
    {q : Query}
    (walk : ∀ (s : Scope) (pending : List String), w.Covers s pending →
      Finds pending w (q.walk w).1 q.declared (q.tables s) (q.walk w).2 (q.extended s))
    (hc : w.Covers s pending) :
    let tables := Cte.tables recursive s (.mk name q)
    Finds pending w (q.walk w).1 q.declared tables (q.walk w).2
      (q.extended (s.inside recursive name q (name.folded :: tables))) := by
  intro tables
  have first := walk (s.inside recursive name q [name.folded]) pending (hc.inside (by simp))
  refine ⟨first.keeps, first.tables, ?_⟩
  by_cases hu : recursive && q.isUnion
  · -- the tables that the first pass has found are those that are pending in the second
    have known : w.Covers s ((q.walk w).2 ++ pending) :=
      hc.mono fun t ht => List.mem_append.mpr (Or.inr ht)
    have own : ∀ t ∈ name.folded :: tables, t = name.folded ∨ t ∈ (q.walk w).2 ++ pending := by
      intro t ht
      rcases List.mem_cons.mp ht with rfl | ht
      · exact Or.inl rfl
      · exact Or.inr (List.mem_append.mpr (first.tables t ht))
    have second := walk (s.inside recursive name q (name.folded :: tables)) _ (known.inside own)
    intro t ht
    rcases second.extended t ht with h | h
    · exact Or.inl h
    · rcases List.mem_append.mp h with h | h
      · exact Or.inl (q.nullable_of_isUnion w (Bool.and_eq_true_iff.mp hu).2 t h)
      · exact Or.inr h
  · have hself (self : List String) : s.inside recursive name q self = s := if_neg hu
    rw [hself] at first ⊢
    exact first.extended

mutual

theorem Query.finds {s : Scope} {pending : List String} {w : Walk} : (q : Query) →
    w.Covers s pending →
    Finds pending w (q.walk w).1 q.declared (q.tables s) (q.walk w).2 (q.extended s)
  | .mk recursive ctes body, hc => by
    obtain ⟨keeps, covers, extended⟩ := ctes_find recursive ctes (hc.opening recursive ctes)
    have inner := Body.finds body covers
    refine ⟨keeps.append inner.keeps, inner.tables, ?_⟩
    intro t ht
    rcases List.mem_append.mp ht with ht | ht
    · exact (extended t ht).imp (inner.keeps.nullable t) id
    · exact inner.extended t ht

theorem ctes_find {s : Scope} {pending : List String} {w : Walk} (recursive : Bool) :
    (ctes : List Cte) → w.Covers s pending →
    w.Keeps (walkCtes w ctes) (cteDeclared ctes) ∧
      (walkCtes w ctes).Covers (scopeBehind recursive s ctes) pending ∧
      ∀ t ∈ cteExtended recursive s ctes, t ∈ (walkCtes w ctes).nullable ∨ t ∈ pending
  | [], hc => ⟨.refl, hc, by simp [cteExtended]⟩
  | .mk name q :: rest, hc => by
    have first := Cte.finds recursive name (fun _ _ => Query.finds q) hc
    have bound := (hc.forget first.keeps).bind name.folded first.tables
    obtain ⟨keeps, covers, extended⟩ := ctes_find recursive rest bound
    have step := (Walk.keeps_bind name.folded (q.walk w).2).append keeps
    refine ⟨first.keeps.append step, covers, ?_⟩
    intro t ht
    rcases List.mem_append.mp ht with ht | ht
    · exact (first.extended t ht).imp (step.nullable t) id
    · exact extended t ht

theorem Body.finds {s : Scope} {pending : List String} {w : Walk} : (b : Body) →
    w.Covers s pending →
    Finds pending w (b.walk w).1 b.declared (b.tables s) (b.walk w).2 (b.extended s)
  | .select (.mk _ sources _ _ _), hc => sources_find sources hc
  | .query q, hc => Query.finds q hc
  | .setOperation l r, hc =>
    have left := Body.finds l hc
    have right := Body.finds r (hc.forget left.keeps)
    (left.append right).demote _
  | .table, _ => .nothing
  | .values, _ => .nothing
  | .modification _, _ => .nothing

theorem sources_find {s : Scope} {pending : List String} {w : Walk} :
    (sources : List FromItem) → w.Covers s pending →
    Finds pending w (walkSources w sources).1 (sourceDeclared sources) (sourceTables s sources)
      (walkSources w sources).2 (sourceExtended s sources)
  | [], _ => .nothing
  | item :: rest, hc =>
    have first := FromItem.finds item hc
    first.append (sources_find rest (hc.forget first.keeps))

theorem FromItem.finds {s : Scope} {pending : List String} {w : Walk} :
    (item : FromItem) → w.Covers s pending →
    Finds pending w (item.walk w).1 item.declared (item.tables s) (item.walk w).2
      (item.extended s)
  | .mk relation joins, hc => by
    have first := Relation.finds relation hc
    have behind := joins_find joins (hc.forget first.keeps) first.tables
    refine ⟨first.keeps.append behind.keeps, behind.tables, ?_⟩
    intro t ht
    rcases List.mem_append.mp ht with ht | ht
    · exact (first.extended t ht).imp (behind.keeps.nullable t) id
    · exact behind.extended t ht

theorem joins_find {s : Scope} {pending seen found : List String} {w : Walk} :
    (joins : List Join) → w.Covers s pending → (∀ t ∈ seen, t ∈ found ∨ t ∈ pending) →
    Finds pending w (walkJoins w found joins).1 (joinDeclared joins)
      (seen ++ joinedTables s joins) (walkJoins w found joins).2 (joinExtended s seen joins)
  | [], _, hs =>
    ⟨.refl, by simpa [joinedTables, walkJoins] using hs, by simp [joinExtended]⟩
  | .mk kind relation :: rest, hc, hs => by
    have joined := Relation.finds relation hc
    have keeps := joined.keeps.demote (kind.outerSide.demotes found (relation.walk w).2)
    have both : ∀ t ∈ seen ++ relation.tables s,
        t ∈ NameSet.union found (relation.walk w).2 ∨ t ∈ pending := by
      intro t ht
      rcases List.mem_append.mp ht with ht | ht
      · exact (hs t ht).imp (fun h => NameSet.mem_union.mpr (Or.inl h)) id
      · exact (joined.tables t ht).imp (fun h => NameSet.mem_union.mpr (Or.inr h)) id
    have behind := joins_find rest (hc.forget keeps) both
    refine ⟨keeps.append behind.keeps, ?_, fun t ht => ?_⟩
    · simpa only [walkJoins, joinedTables, List.append_assoc] using behind.tables
    · simp only [joinExtended, List.mem_append, or_assoc] at ht
      rcases ht with ht | ht | ht
      · exact ((joined.demote _).extended t ht).imp (behind.keeps.nullable t) id
      · refine (JoinKind.mem_demotes hs joined.tables t ht).imp (fun h => ?_) id
        exact behind.keeps.nullable t (NameSet.mem_union.mpr (Or.inr h))
      · exact behind.extended t ht

theorem Relation.finds {s : Scope} {pending : List String} {w : Walk} :
    (r : Relation) → w.Covers s pending →
    Finds pending w (r.walk w).1 r.declared (r.tables s) (r.walk w).2 (r.extended s)
  | .table path, hc => ⟨.refl, hc.table path, by simp [Relation.extended]⟩
  | .derived q, hc => Query.finds q hc
  | .nested item, hc => FromItem.finds item hc
  | .other, _ => .nothing

end

theorem Walk.covers_start : Walk.start.Covers [] [] :=
  fun _ _ ht => .inl (mem_reads.mpr (.inr (List.mem_singleton.mp ht)))

theorem Query.mem_nullableTables {q : Query} {t : String} (ht : t ∈ q.extended []) :
    t ∈ q.nullableTables :=
  ((Query.finds q Walk.covers_start).extended t ht).resolve_right List.not_mem_nil

theorem Analysis.isNullableTable_ofQuery {q : Query} {t : String} (h : t ∈ q.nullableTables) :
    (Analysis.ofQuery q).isNullableTable t = true := by
  obtain ⟨recursive, ctes, body⟩ := q
  rw [isNullableTable, decide_eq_true_eq, ofQuery.eq_def]
  exact NameSet.mem_union.mpr (Or.inr h)

theorem Analysis.ofText_of_parsed {sql : String} {statements : List Statement}
    (h : statementsOfText? sql = some statements) : ofText sql = ofStatements statements := by
  rw [ofText, h]

theorem Analysis.ofStatements_of_ne {statements : List Statement}
    (h : ∀ q, statements ≠ [.query q]) : ofStatements statements = .empty := by
  unfold ofStatements
  split
  · next q => exact absurd rfl (h q)
  · rfl

end RowTypes.Sql

namespace RowTypes.Inference
open Sql (Analysis)

theorem getElem?_columnsFrom (i : Inference) (a : Analysis) (count index : Nat)
    (ds : List ColumnDescription) (k : Nat) :
    (i.columnsFrom a count index ds)[k]? = ds[k]?.map (i.column a count (index + k)) := by
  induction ds generalizing index k with
  | nil => simp [columnsFrom]
  | cons d ds ih =>
    cases k with
    | zero => simp [columnsFrom]
    | succ k =>
      rw [columnsFrom, List.getElem?_cons_succ, List.getElem?_cons_succ, ih]
      congr 2
      omega

theorem notNull_column (i : Inference) (a : Analysis) (count index : Nat)
    (d : ColumnDescription) :
    (i.column a count index d).notNull = isNotNull a (i.source? d) index count :=
  rfl

theorem infer_eq (i : Inference) (sql : String) (d : Description) :
    (∃ e, i.policy = .strict ∧ i.firstUnknown? d.columns = some e ∧ i.infer sql d = .error e) ∨
      i.infer sql d = .ok (i.types sql d) := by
  rw [infer]
  split
  · next e hp hu => exact Or.inl ⟨e, hp, hu, rfl⟩
  · exact Or.inr rfl

theorem isNotNull_of_isNullableTable {a : Analysis} {info : ColumnInfo}
    (h : a.isNullableTable info.table = true) (index count : Nat) :
    isNotNull a (some info) index count = false := by
  simp [isNotNull, h]

theorem isNotNull_empty (info : ColumnInfo) (index count : Nat) :
    isNotNull .empty (some info) index count = info.notNull := by
  simp [isNotNull, Analysis.empty, Analysis.isNullableTable, Analysis.isRefined]

/-- For a text that is a single query, each column of a table that one of its outer
joins extends by nulls is one that may be null, whatever the catalog says. For any
other text of SQL the catalog decides. -/
theorem infer_extended {i : Inference} {sql : String} {d : Description}
    {statements : List Sql.Statement} (hs : Sql.statementsOfText? sql = some statements) :
    (∃ e, i.policy = .strict ∧ i.firstUnknown? d.columns = some e ∧ i.infer sql d = .error e) ∨
      ∃ types, i.infer sql d = .ok types ∧
        ∀ (k : Nat) (desc : ColumnDescription) (info : ColumnInfo),
          d.columns[k]? = some desc → i.source? desc = some info →
          ∃ c : Column, types.columns[k]? = some c ∧
            (∀ q, statements = [.query q] → info.table ∈ q.extended [] → c.notNull = false) ∧
            ((∀ q, statements ≠ [.query q]) → c.notNull = info.notNull) := by
  refine (i.infer_eq sql d).imp id fun hi => ⟨_, hi, fun k desc info hd hinfo => ?_⟩
  refine ⟨i.column (.ofText sql) d.columns.length k desc, ?_, ?_, ?_⟩
  · simp [types, getElem?_columnsFrom, hd]
  · rintro q rfl ht
    have demoted := Analysis.isNullableTable_ofQuery (Sql.Query.mem_nullableTables ht)
    rw [notNull_column, Analysis.ofText_of_parsed hs, hinfo]
    exact isNotNull_of_isNullableTable demoted k d.columns.length
  · intro hn
    rw [notNull_column, Analysis.ofText_of_parsed hs, Analysis.ofStatements_of_ne hn, hinfo]
    exact isNotNull_empty info k d.columns.length

def sampleInference (table : String) : Inference where
  catalog :=
    ⟨[(⟨1, 1⟩, ⟨"public", table, "x", 23, true⟩)],
      [(23, ⟨23, "int4", "integer", .base, none, none, []⟩)]⟩
  samples := []
  overrides := []
  policy := .strict

def sampleDescription : Description := ⟨[⟨"x", 23, some 1, some 1⟩], []⟩

/-- The name of the first table has a period in it, and the inner `q` hides the outer one only
behind the place where that is read. -/
def sampleQuery : String :=
  "with q as (select x from \"p.r\" left join b on true) " ++
  "select x from q, (with q as (select 1) select 1 from q) s"

theorem infer_extended_sample :
    ∃ q, Sql.statementsOfText? sampleQuery = some [.query q] ∧ "b" ∈ q.extended [] ∧
      ∃ types, (sampleInference "b").infer sampleQuery sampleDescription = .ok types ∧
        ∃ c : Column, types.columns[0]? = some c ∧ c.notNull = false := by
  have h : ((Sql.statementsOfText? sampleQuery).bind Sql.soleQuery?).any
      (fun q => "b" ∈ q.extended []) = true := by
    unfold sampleQuery
    rw [Sql.statementsOfText?_eq, String.toList_append, String.toList_ofList,
      String.toList_ofList]
    decide +kernel
  obtain ⟨q, hs, h⟩ := Sql.exists_soleQuery h
  have hb := of_decide_eq_true h
  refine ⟨q, hs, hb, ?_⟩
  have all := infer_extended (i := sampleInference "b") (d := sampleDescription) hs
  rcases all with ⟨e, _, he, _⟩ | ⟨types, hi, columns⟩
  · have none : (sampleInference "b").firstUnknown? sampleDescription.columns = none := by
      decide +kernel
    simp [none] at he
  · obtain ⟨c, hc, demoted, _⟩ := columns 0 ⟨"x", 23, some 1, some 1⟩
      ⟨"public", "b", "x", 23, true⟩ rfl rfl
    exact ⟨types, hi, c, hc, demoted q rfl hb⟩

/-- The text of a modification is not looked into. -/
theorem modification_not_demoted :
    ¬ ∀ (i : Inference) (sql : String) (d : Description) (statement : Sql.Statement)
        (types : QueryTypes) (k : Nat) (desc : ColumnDescription) (info : ColumnInfo)
        (c : Column), Sql.statementsOfText? sql = some [statement] →
        i.infer sql d = .ok types → d.columns[k]? = some desc → i.source? desc = some info →
        info.table ∈ statement.extended → types.columns[k]? = some c → c.notNull = false := by
  intro all
  let sql := "delete from t using u left join v on true returning v.x"
  have h : ((Sql.statementsOfText? sql).any fun statements => decide (statements.length = 1 ∧
      ∀ statement ∈ statements, "v" ∈ statement.extended)) = true := by
    rw [Sql.statementsOfText?_eq, String.toList_ofList]
    decide +kernel
  obtain ⟨statements, hs, h⟩ := (Option.any_eq_true _ _).mp h
  obtain ⟨hlength, h⟩ := of_decide_eq_true h
  obtain ⟨statement, rfl⟩ := List.length_eq_one_iff.1 hlength
  have hv : ((sampleInference "v").types sql sampleDescription).columns[0]? =
      some ⟨"x", true, "int4", "integer", .number, some "public.v.x"⟩ := by
    decide +kernel
  exact absurd (all (sampleInference "v") sql sampleDescription statement _ 0 _ _ _ hs rfl rfl
    rfl (h statement List.mem_cons_self) hv) (by decide)

end RowTypes.Inference
