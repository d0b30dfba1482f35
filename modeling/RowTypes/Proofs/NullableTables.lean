import RowTypes.Sql.Analysis

/-! The tables that the walk over a query demotes are just those that one of its joins or set
operations may leave null. A query is taken as the list of its parts in the order of the text:
the tables that it names, the joins, the set operations and the expressions of its `WITH` lists.
As long as no expression is declared behind a mention of its name, a name means the same at every
place, so that the walk knows at each of them what it would know in the end. -/

namespace RowTypes.Sql

namespace JoinKind

/-- Whether a row of the left operand may have no partner and still be in the join. -/
def extendsRight (k : JoinKind) : Bool :=
  match k.operator with
  | .left | .leftOuter | .outerApply | .fullOuter => true
  | _ => false

def extendsLeft (k : JoinKind) : Bool :=
  match k.operator with
  | .right | .rightOuter | .fullOuter => true
  | _ => false

/-- A left or right join without the word `OUTER`, behind the word `GLOBAL`. -/
def isOverlooked (k : JoinKind) : Bool :=
  k.global && (k.operator = .left || k.operator = .right)

theorem outerSide_eq (k : JoinKind) :
    k.outerSide =
      match k.isOverlooked, k.extendsLeft, k.extendsRight with
      | true, _, _ | false, false, false => .neither
      | false, false, true => .right
      | false, true, false => .left
      | false, true, true => .both := by
  obtain ⟨operator, natural, global⟩ := k
  revert natural global
  cases operator <;> decide +kernel

theorem mem_demotes_iff {k : JoinKind} {seen joined : List String} {t : String} :
    t ∈ k.outerSide.demotes seen joined ↔ k.isOverlooked = false ∧
      (k.extendsRight = true ∧ t ∈ joined ∨ k.extendsLeft = true ∧ t ∈ seen) := by
  rw [outerSide_eq]
  cases k.isOverlooked <;> cases k.extendsLeft <;> cases k.extendsRight <;>
    simp [OuterSide.demotes, or_comm]

end JoinKind

def FromItem.behind : FromItem → Join → FromItem
  | .mk relation joins, join => .mk relation (joins ++ [join])

/-! Names -/

mutual

/-- The names of the tables that a query refers to. Those in its `WITH` list count for the
expressions, not for the query. -/
def Query.references : Query → List String
  | .mk _ _ body => Body.references body

def Body.references : Body → List String
  | .select (.mk _ sources _ _ _) => sourceReferences sources
  | .query q => Query.references q
  | .setOperation l r => Body.references l ++ Body.references r
  | .table | .values | .modification _ => []

def sourceReferences : List FromItem → List String
  | [] => []
  | item :: rest => FromItem.references item ++ sourceReferences rest

def FromItem.references : FromItem → List String
  | .mk relation joins => Relation.references relation ++ joinedReferences joins

def joinedReferences : List Join → List String
  | [] => []
  | .mk _ relation :: rest => Relation.references relation ++ joinedReferences rest

def Relation.references : Relation → List String
  | .table path => [tableName path]
  | .derived q => Query.references q
  | .nested item => FromItem.references item
  | .other => []

end

theorem joinedReferences_append (joins rest : List Join) :
    joinedReferences (joins ++ rest) = joinedReferences joins ++ joinedReferences rest := by
  induction joins with
  | nil => rfl
  | cons join joins ih =>
    obtain ⟨kind, relation⟩ := join
    rw [List.cons_append, joinedReferences, ih, joinedReferences, List.append_assoc]

theorem FromItem.references_behind (item : FromItem) (kind : JoinKind) (relation : Relation) :
    (item.behind (.mk kind relation)).references = item.references ++ relation.references := by
  obtain ⟨first, joins⟩ := item
  simp only [behind, references, joinedReferences_append, joinedReferences, List.append_nil,
    List.append_assoc]

/-! Parts -/

inductive Part where
  /-- A table is named. -/
  | table (name : String)
  /-- What stands in front of a join, and what is joined to it. -/
  | join (left : FromItem) (kind : JoinKind) (right : Relation)
  | setOperation (left right : Body)
  /-- An expression of a `WITH` list is declared. -/
  | expression (c : Cte)

mutual

def Query.parts : Query → List Part
  | .mk _ ctes body => cteParts ctes ++ Body.parts body

def cteParts : List Cte → List Part
  | [] => []
  | .mk name q :: rest => Query.parts q ++ .expression (.mk name q) :: cteParts rest

def Body.parts : Body → List Part
  | .select (.mk _ sources _ _ _) => sourceParts sources
  | .query q => Query.parts q
  | .setOperation l r => Body.parts l ++ Body.parts r ++ [.setOperation l r]
  | .table | .values | .modification _ => []

def sourceParts : List FromItem → List Part
  | [] => []
  | item :: rest => FromItem.parts item ++ sourceParts rest

def FromItem.parts : FromItem → List Part
  | .mk relation joins => Relation.parts relation ++ joinParts (.mk relation []) joins

def joinParts (left : FromItem) : List Join → List Part
  | [] => []
  | .mk kind relation :: rest =>
    Relation.parts relation ++
      .join left kind relation :: joinParts (left.behind (.mk kind relation)) rest

def Relation.parts : Relation → List Part
  | .table path => [.table (tableName path)]
  | .derived q => Query.parts q
  | .nested item => FromItem.parts item
  | .other => []

end

namespace Part

def name? : Part → Option String
  | table name => some name
  | expression c => some c.name.folded
  | join .. | setOperation .. => none

/-- An expression is not declared behind a mention of its name. -/
def MayPrecede (p : Part) : Part → Prop
  | expression c => p.name? ≠ some c.name.folded
  | table _ | join .. | setOperation .. => True

instance (p p' : Part) : Decidable (p.MayPrecede p') := by
  cases p' <;> unfold MayPrecede <;> infer_instance

def references : Part → List String
  | table _ => []
  | join left _ right => left.references ++ right.references
  | setOperation l r => l.references ++ r.references
  | expression c => c.query.references

end Part

/-- Each name of an expression is declared once, and before it is used. -/
def Query.DeclaresFirst (q : Query) : Prop := q.parts.Pairwise Part.MayPrecede

instance (q : Query) : Decidable q.DeclaresFirst :=
  inferInstanceAs (Decidable (List.Pairwise ..))

/-! Reading -/

/-- The tables that are read where some names are referred to: those named, and all that the
query of an expression reads whose name is among them. -/
inductive Reads (parts : List Part) : List String → String → Prop where
  | table {names : List String} {name : String} : name ∈ names → Reads parts names name
  | expression {names : List String} {c : Cte} {t : String} : .expression c ∈ parts →
      c.name.folded ∈ names → Reads parts c.query.references t → Reads parts names t

/-- A part may leave null what one of its operands reads. -/
def Part.Extends (parts : List Part) (t : String) : Part → Prop
  | join left kind right =>
    kind.extendsRight = true ∧ Reads parts right.references t ∨
      kind.extendsLeft = true ∧ Reads parts left.references t
  | setOperation l r => Reads parts l.references t ∨ Reads parts r.references t
  | table _ | expression _ => False

/-- One of the parts may leave the table null. -/
def MayBeNull (parts : List Part) (t : String) : Prop := ∃ p ∈ parts, p.Extends parts t

def Part.isOverlooked : Part → Bool
  | join _ kind _ => kind.isOverlooked
  | table _ | setOperation .. | expression _ => false

def IsMarked (parts : List Part) (t : String) : Prop :=
  ∃ p ∈ parts, p.isOverlooked = false ∧ p.Extends parts t

section Reading

variable {parts done more : List Part} {names names' : List String} {t : String}

theorem Reads.mono (h : Reads parts names t) (hparts : parts ⊆ more) (hnames : names ⊆ names') :
    Reads more names' t := by
  induction h generalizing names' with
  | table hname => exact .table (hnames hname)
  | expression hc hname _ ih => exact .expression (hparts hc) (hnames hname) (ih fun _ => id)

theorem reads_nil : ¬Reads parts [] t := by
  intro h
  cases h with
  | table hname => exact nomatch hname
  | expression _ hname _ => exact nomatch hname

theorem reads_append : Reads parts (names ++ names') t ↔ Reads parts names t ∨ Reads parts names' t := by
  constructor
  · intro h
    cases h with
    | table hname => exact (List.mem_append.1 hname).imp .table .table
    | expression hc hname h =>
      exact (List.mem_append.1 hname).imp (.expression hc · h) (.expression hc · h)
  · rintro (h | h)
    · exact h.mono (fun _ => id) (List.subset_append_left ..)
    · exact h.mono (fun _ => id) (List.subset_append_right ..)

theorem Part.Extends.mono {p : Part} (h : p.Extends parts t) (hparts : parts ⊆ more) :
    p.Extends more t := by
  cases p with
  | table | expression => exact h
  | join left kind right =>
    exact h.imp (And.imp_right (·.mono hparts fun _ => id)) (And.imp_right (·.mono hparts fun _ => id))
  | setOperation l r => exact h.imp (·.mono hparts fun _ => id) (·.mono hparts fun _ => id)

theorem IsMarked.mono (h : IsMarked parts t) (hparts : parts ⊆ more) : IsMarked more t := by
  obtain ⟨p, hp, hseen, hextends⟩ := h
  exact ⟨p, hparts hp, hseen, hextends.mono hparts⟩

/-! What has been read stays what it is -/

def Closed (parts : List Part) : Prop := ∀ p ∈ parts, ∀ name ∈ p.references, .table name ∈ parts

theorem Closed.append (hdone : Closed done) (hmore : Closed more) : Closed (done ++ more) := by
  intro p hp name hname
  rcases List.mem_append.1 hp with hp | hp
  · exact List.mem_append_left _ (hdone p hp name hname)
  · exact List.mem_append_right _ (hmore p hp name hname)

variable (hordered : (done ++ more).Pairwise Part.MayPrecede) (hclosed : Closed done)

include hordered hclosed in
/-- No later part changes what is read by names that have been mentioned. -/
theorem reads_done (hnames : ∀ name ∈ names, .table name ∈ done) :
    Reads (done ++ more) names t ↔ Reads done names t := by
  refine ⟨fun h => ?_, fun h => h.mono (List.subset_append_left ..) fun _ => id⟩
  induction h with
  | table hname => exact .table hname
  | @expression names c t hc hname _ ih =>
    have hdone : .expression c ∈ done := by
      refine (List.mem_append.1 hc).resolve_right fun hmore => ?_
      exact (List.pairwise_append.1 hordered).2.2 _ (hnames _ hname) _ hmore rfl
    exact .expression hdone hname (ih (hclosed _ hdone))

include hordered hclosed in
theorem extends_done {p : Part} (hnames : ∀ name ∈ p.references, .table name ∈ done) :
    p.Extends (done ++ more) t ↔ p.Extends done t := by
  cases p with
  | table | expression => exact Iff.rfl
  | join left kind right =>
    rw [Part.references, List.forall_mem_append] at hnames
    rw [Part.Extends, Part.Extends, reads_done hordered hclosed hnames.1,
      reads_done hordered hclosed hnames.2]
  | setOperation l r =>
    rw [Part.references, List.forall_mem_append] at hnames
    rw [Part.Extends, Part.Extends, reads_done hordered hclosed hnames.1,
      reads_done hordered hclosed hnames.2]

theorem isMarked_concat {p : Part} (hordered : (done ++ [p]).Pairwise Part.MayPrecede)
    (hclosed : Closed done) (hnames : ∀ name ∈ p.references, .table name ∈ done) :
    IsMarked (done ++ [p]) t ↔ IsMarked done t ∨ p.isOverlooked = false ∧ p.Extends done t := by
  simp only [IsMarked, List.mem_append, List.mem_singleton, or_and_right, exists_or,
    exists_eq_left]
  refine or_congr (exists_congr fun p' => and_congr_right fun hp' => and_congr_right fun _ => ?_)
    (and_congr_right fun _ => extends_done hordered hclosed hnames)
  exact extends_done hordered hclosed (hclosed p' hp')

end Reading

/-! The parts of a query name all that they refer to -/

structure Covers (parts : List Part) (names : List String) : Prop where
  closed : Closed parts
  named : ∀ name ∈ names, .table name ∈ parts

section Covering

variable {parts parts' : List Part} {names names' : List String} {p : Part}

theorem Covers.nil : Covers [] [] := ⟨nofun, nofun⟩

theorem Covers.table (name : String) : Covers [.table name] [name] where
  closed := by
    intro p hp name' hname
    rw [List.mem_singleton.1 hp] at hname
    exact nomatch hname
  named := by
    intro name' hname
    rw [List.mem_singleton.1 hname]
    exact List.mem_singleton_self _

theorem Covers.append (h : Covers parts names) (h' : Covers parts' names') :
    Covers (parts ++ parts') (names ++ names') where
  closed := h.closed.append h'.closed
  named := List.forall_mem_append.2
    ⟨fun name hname => List.mem_append_left _ (h.named name hname),
      fun name hname => List.mem_append_right _ (h'.named name hname)⟩

theorem Covers.concat (h : Covers parts names) (hp : p.references ⊆ names) :
    Covers (parts ++ [p]) names where
  closed := by
    intro p' hp' name hname
    refine List.mem_append_left _ ?_
    rcases List.mem_append.1 hp' with hp' | hp'
    · exact h.closed p' hp' name hname
    · rw [List.mem_singleton.1 hp'] at hname
      exact h.named name (hp hname)
  named := fun name hname => List.mem_append_left _ (h.named name hname)

theorem Covers.forget (h : Covers parts names) : Covers parts [] := ⟨h.closed, nofun⟩

end Covering

mutual

theorem Query.covers : (q : Query) → Covers q.parts q.references
  | .mk _ ctes body => (cteParts_covers ctes).append (Body.covers body)

theorem cteParts_covers : (ctes : List Cte) → Covers (cteParts ctes) []
  | [] => .nil
  | .mk name q :: rest => by
    have hq := ((Query.covers q).concat (p := .expression (.mk name q)) fun _ => id).forget
    simpa [cteParts] using hq.append (cteParts_covers rest)

theorem Body.covers : (b : Body) → Covers b.parts b.references
  | .select (.mk _ sources _ _ _) => sourceParts_covers sources
  | .query q => Query.covers q
  | .setOperation l r =>
    ((Body.covers l).append (Body.covers r)).concat (p := .setOperation l r) fun _ => id
  | .table => .nil
  | .values => .nil
  | .modification _ => .nil

theorem sourceParts_covers : (sources : List FromItem) →
    Covers (sourceParts sources) (sourceReferences sources)
  | [] => .nil
  | item :: rest => (FromItem.covers item).append (sourceParts_covers rest)

theorem FromItem.covers : (item : FromItem) → Covers item.parts item.references
  | .mk relation joins => by
    have hfirst : Covers relation.parts (FromItem.mk relation []).references := by
      simpa [FromItem.references, joinedReferences] using Relation.covers relation
    have h := joinParts_covers joins hfirst
    simpa [FromItem.parts, FromItem.references, joinedReferences] using h

theorem joinParts_covers {left : FromItem} {parts : List Part} : (joins : List Join) →
    Covers parts left.references →
    Covers (parts ++ joinParts left joins) (left.references ++ joinedReferences joins)
  | [], h => by simpa [joinParts, joinedReferences] using h
  | .mk kind relation :: rest, h => by
    have hjoin := (h.append (Relation.covers relation)).concat
      (p := .join left kind relation) fun _ => id
    rw [← FromItem.references_behind left kind] at hjoin
    have hrest := joinParts_covers rest hjoin
    rw [FromItem.references_behind] at hrest
    simpa [joinParts, joinedReferences] using hrest

theorem Relation.covers : (r : Relation) → Covers r.parts r.references
  | .table path => .table (tableName path)
  | .derived q => Query.covers q
  | .nested item => FromItem.covers item
  | .other => .nil

end

/-! The walk -/

/-- The walk knows what the parts declare and what they may leave null. -/
structure Walk.Knows (w : Walk) (done : List Part) : Prop where
  expression : ∀ c, .expression c ∈ done → ∃ tables, w.ctes.lookup c.name.folded = some tables ∧
    ∀ t, t ∈ tables ↔ Reads done c.query.references t
  declared : ∀ name tables, w.ctes.lookup name = some tables →
    ∃ c, .expression c ∈ done ∧ c.name.folded = name
  nullable : ∀ t, t ∈ w.nullable ↔ IsMarked done t

/-- Behind the parts that are done, the walk over others finds what the given names read, and
knows of these parts too. -/
structure FindsExactly (done parts : List Part) (names : List String)
    (found : Walk × List String) : Prop where
  knows : found.1.Knows (done ++ parts)
  tables : ∀ t, t ∈ found.2 ↔ Reads (done ++ parts) names t

section Walks

theorem ordered_append {done parts parts' : List Part}
    (h : (done ++ (parts ++ parts')).Pairwise Part.MayPrecede) :
    (done ++ parts).Pairwise Part.MayPrecede ∧
      (done ++ parts ++ parts').Pairwise Part.MayPrecede := by
  rw [← List.append_assoc] at h
  exact ⟨(List.pairwise_append.1 h).1, h⟩

variable {w : Walk} {done parts parts' : List Part} {names names' : List String}

theorem Walk.knows_start : Walk.start.Knows [] where
  expression := nofun
  declared := nofun
  nullable _ := ⟨nofun, fun ⟨_, hp, _⟩ => nomatch hp⟩

theorem Walk.Knows.concat (h : w.Knows done) {p : Part} (hp : ∀ c, p ≠ .expression c)
    (hordered : (done ++ [p]).Pairwise Part.MayPrecede) (hclosed : Closed done)
    (hnames : ∀ name ∈ p.references, .table name ∈ done) {tables : List String}
    (htables : ∀ t, t ∈ tables ↔ p.isOverlooked = false ∧ p.Extends done t) :
    (w.demote tables).Knows (done ++ [p]) where
  expression c hc := by
    have hdone : .expression c ∈ done :=
      (List.mem_append.1 hc).resolve_right fun hc => hp c (List.mem_singleton.1 hc).symm
    obtain ⟨found, hlookup, hfound⟩ := h.expression c hdone
    refine ⟨found, hlookup, fun t => (hfound t).trans ?_⟩
    exact (reads_done hordered hclosed (hclosed _ hdone)).symm
  declared name found hlookup := by
    obtain ⟨c, hc, hname⟩ := h.declared name found hlookup
    exact ⟨c, List.mem_append_left _ hc, hname⟩
  nullable t := by
    rw [Walk.demote, NameSet.mem_union, h.nullable, htables,
      isMarked_concat hordered hclosed hnames]

theorem Walk.Knows.bind (h : w.Knows done) {c : Cte}
    (hordered : (done ++ [Part.expression c]).Pairwise Part.MayPrecede) (hclosed : Closed done)
    (hnames : ∀ name ∈ c.query.references, .table name ∈ done) {tables : List String}
    (htables : ∀ t, t ∈ tables ↔ Reads done c.query.references t) :
    (w.bind c.name.folded tables).Knows (done ++ [Part.expression c]) where
  expression c' hc' := by
    rcases List.mem_append.1 hc' with hdone | hc'
    · have hne : c'.name.folded ≠ c.name.folded := fun heq => by
        refine (List.pairwise_append.1 hordered).2.2 _ hdone _ (List.mem_singleton_self _) ?_
        rw [Part.name?, heq]
      obtain ⟨found, hlookup, hfound⟩ := h.expression c' hdone
      refine ⟨found, ?_, fun t => (hfound t).trans ?_⟩
      · rw [Walk.bind, List.lookup_cons, beq_eq_false_iff_ne.2 hne, hlookup]
      · exact (reads_done hordered hclosed (hclosed _ hdone)).symm
    · obtain rfl := Part.expression.inj (List.mem_singleton.1 hc')
      refine ⟨tables, by simp [Walk.bind], fun t => (htables t).trans ?_⟩
      exact (reads_done hordered hclosed hnames).symm
  declared name found hlookup := by
    by_cases hname : name = c.name.folded
    · exact ⟨c, List.mem_append_right _ (List.mem_singleton_self _), hname.symm⟩
    · rw [Walk.bind, List.lookup_cons, beq_eq_false_iff_ne.2 hname] at hlookup
      obtain ⟨c', hc', hname'⟩ := h.declared name found hlookup
      exact ⟨c', List.mem_append_left _ hc', hname'⟩
  nullable t := by
    rw [isMarked_concat hordered hclosed hnames, ← h.nullable]
    exact (or_iff_left And.right).symm

theorem Walk.Knows.mem_reads (h : w.Knows done) (name t : String) :
    t ∈ w.reads name ↔ Reads done [name] t := by
  rw [Walk.reads, NameSet.mem_insert]
  constructor
  · rintro (ht | rfl)
    · cases hlookup : w.ctes.lookup name with
      | none => simp [hlookup] at ht
      | some tables =>
        obtain ⟨c, hc, rfl⟩ := h.declared name tables hlookup
        obtain ⟨found, hfound, hreads⟩ := h.expression c hc
        rw [hfound, Option.getD_some, hreads] at ht
        exact .expression hc (List.mem_singleton_self _) ht
    · exact .table (List.mem_singleton_self _)
  · intro hreads
    cases hreads with
    | table hname => exact .inr (List.mem_singleton.1 hname)
    | expression hc hname hreads =>
      obtain ⟨found, hfound, hfound'⟩ := h.expression _ hc
      rw [List.mem_singleton.1 hname] at hfound
      exact .inl (by rw [hfound, Option.getD_some, hfound']; exact hreads)

theorem FindsExactly.nothing (h : w.Knows done) : FindsExactly done [] [] (w, []) where
  knows := by rwa [List.append_nil]
  tables t := ⟨nofun, fun h => absurd h reads_nil⟩

theorem FindsExactly.table {name : String} (h : w.Knows done)
    (hordered : (done ++ [Part.table name]).Pairwise Part.MayPrecede) (hclosed : Closed done) :
    FindsExactly done [.table name] [name] (w, w.reads name) :=
  have hnone : ∀ t, t ∈ ([] : List String) ↔
      (Part.table name).isOverlooked = false ∧ (Part.table name).Extends done t :=
    fun _ => iff_of_false List.not_mem_nil And.right
  have hw := h.concat (p := .table name) (fun _ => nofun) hordered hclosed (fun _ => nofun) hnone
  ⟨hw, hw.mem_reads name⟩

theorem FindsExactly.append {found found' : Walk × List String} (hclosed : Closed done)
    (hcovers : Covers parts names)
    (hordered : (done ++ (parts ++ parts')).Pairwise Part.MayPrecede)
    (h : FindsExactly done parts names found)
    (h' : FindsExactly (done ++ parts) parts' names' found') :
    FindsExactly done (parts ++ parts') (names ++ names')
      (found'.1, NameSet.union found.2 found'.2) where
  knows := by
    rw [← List.append_assoc]
    exact h'.knows
  tables t := by
    rw [← List.append_assoc] at hordered ⊢
    rw [NameSet.mem_union, h.tables, h'.tables, reads_append,
      reads_done hordered (hclosed.append hcovers.closed)
        fun name hname => List.mem_append_right _ (hcovers.named name hname)]

theorem FindsExactly.demote {p : Part} {tables demoted : List String} (hclosed : Closed done)
    (hcovers : Covers parts names) (hp : ∀ c, p ≠ .expression c)
    (hordered : (done ++ (parts ++ [p])).Pairwise Part.MayPrecede) (hnames : p.references ⊆ names)
    (h : FindsExactly done parts names (w, tables))
    (hdemoted : ∀ t, t ∈ demoted ↔ p.isOverlooked = false ∧ p.Extends (done ++ parts) t) :
    FindsExactly done (parts ++ [p]) names (w.demote demoted, tables) := by
  rw [← List.append_assoc] at hordered
  have hdone := hclosed.append hcovers.closed
  have hnamed : ∀ name ∈ names, .table name ∈ done ++ parts :=
    fun name hname => List.mem_append_right _ (hcovers.named name hname)
  constructor
  · rw [← List.append_assoc]
    exact h.knows.concat hp hordered hdone (fun name hname => hnamed name (hnames hname)) hdemoted
  · intro t
    rw [← List.append_assoc, reads_done hordered hdone hnamed, h.tables]

end Walks

mutual

theorem Query.findsExactly {w : Walk} {done : List Part} : (q : Query) →
    (done ++ q.parts).Pairwise Part.MayPrecede → Closed done → w.Knows done →
    FindsExactly done q.parts q.references (q.walk w)
  | .mk _ ctes body, hordered, hclosed, hw => by
    obtain ⟨hdeclared, hordered⟩ := ordered_append hordered
    have hctes := walkCtes_knows ctes hdeclared hclosed hw
    have hdone := hclosed.append (cteParts_covers ctes).closed
    have hbody := Body.findsExactly body hordered hdone hctes
    constructor
    · rw [Query.parts, ← List.append_assoc]
      exact hbody.knows
    · rw [Query.parts, ← List.append_assoc]
      exact hbody.tables

theorem walkCtes_knows {w : Walk} {done : List Part} : (ctes : List Cte) →
    (done ++ cteParts ctes).Pairwise Part.MayPrecede → Closed done → w.Knows done →
    (walkCtes w ctes).Knows (done ++ cteParts ctes)
  | [], _, _, hw => by rwa [cteParts, List.append_nil]
  | .mk name q :: rest, hordered, hclosed, hw => by
    have hassoc : done ++ cteParts (.mk name q :: rest) =
        done ++ q.parts ++ [.expression (.mk name q)] ++ cteParts rest := by
      simp [cteParts]
    rw [hassoc] at hordered ⊢
    have hbound := (List.pairwise_append.1 hordered).1
    have hq := Query.findsExactly q (List.pairwise_append.1 hbound).1 hclosed hw
    have hcovers : Covers (done ++ q.parts) q.references :=
      ⟨hclosed.append (Query.covers q).closed,
        fun name hname => List.mem_append_right _ ((Query.covers q).named name hname)⟩
    exact walkCtes_knows rest hordered (hcovers.concat fun _ => id).closed
      (hq.knows.bind hbound hcovers.closed hcovers.named hq.tables)

theorem Body.findsExactly {w : Walk} {done : List Part} : (b : Body) →
    (done ++ b.parts).Pairwise Part.MayPrecede → Closed done → w.Knows done →
    FindsExactly done b.parts b.references (b.walk w)
  | .select (.mk _ sources _ _ _), hordered, hclosed, hw =>
    walkSources_findsExactly sources hordered hclosed hw
  | .query q, hordered, hclosed, hw => Query.findsExactly q hordered hclosed hw
  | .setOperation l r, hordered, hclosed, hw => by
    have hboth := (ordered_append hordered).1
    obtain ⟨hleft, hright⟩ := ordered_append hboth
    have hl := Body.findsExactly l hleft hclosed hw
    have hr := Body.findsExactly r hright (hclosed.append (Body.covers l).closed) hl.knows
    have hfound := hl.append hclosed (Body.covers l) hboth hr
    exact hfound.demote (p := .setOperation l r) hclosed
      ((Body.covers l).append (Body.covers r)) nofun hordered (fun _ => id)
      fun t => (hfound.tables t).trans (reads_append.trans (and_iff_right rfl).symm)
  | .table, _, _, hw => .nothing hw
  | .values, _, _, hw => .nothing hw
  | .modification _, _, _, hw => .nothing hw

theorem walkSources_findsExactly {w : Walk} {done : List Part} : (sources : List FromItem) →
    (done ++ sourceParts sources).Pairwise Part.MayPrecede → Closed done → w.Knows done →
    FindsExactly done (sourceParts sources) (sourceReferences sources) (walkSources w sources)
  | [], _, _, hw => .nothing hw
  | item :: rest, hordered, hclosed, hw => by
    obtain ⟨hfirst, hbehind⟩ := ordered_append hordered
    have hitem := FromItem.findsExactly item hfirst hclosed hw
    have hrest := walkSources_findsExactly rest hbehind
      (hclosed.append (FromItem.covers item).closed) hitem.knows
    exact hitem.append hclosed (FromItem.covers item) hordered hrest

theorem FromItem.findsExactly {w : Walk} {done : List Part} : (item : FromItem) →
    (done ++ item.parts).Pairwise Part.MayPrecede → Closed done → w.Knows done →
    FindsExactly done item.parts item.references (item.walk w)
  | .mk relation joins, hordered, hclosed, hw => by
    have hfirst : (FromItem.mk relation []).references = relation.references := by
      rw [FromItem.references, joinedReferences, List.append_nil]
    have h := Relation.findsExactly relation (ordered_append hordered).1 hclosed hw
    have hcovers := Relation.covers relation
    rw [← hfirst] at h hcovers
    have hjoins := walkJoins_findsExactly joins hordered hclosed hcovers h
    rw [hfirst] at hjoins
    exact hjoins

theorem walkJoins_findsExactly {w : Walk} {done parts : List Part} {left : FromItem}
    {seen : List String} : (joins : List Join) →
    (done ++ (parts ++ joinParts left joins)).Pairwise Part.MayPrecede → Closed done →
    Covers parts left.references → FindsExactly done parts left.references (w, seen) →
    FindsExactly done (parts ++ joinParts left joins) (left.references ++ joinedReferences joins)
      (walkJoins w seen joins)
  | [], _, _, _, h => by simpa [joinParts, joinedReferences, walkJoins] using h
  | .mk kind relation :: rest, hordered, hclosed, hcovers, h => by
    have hassoc : parts ++ joinParts left (.mk kind relation :: rest) =
        parts ++ relation.parts ++ [.join left kind relation] ++
          joinParts (left.behind (.mk kind relation)) rest := by
      simp [joinParts]
    rw [hassoc] at hordered ⊢
    have hjoin := (ordered_append hordered).1
    have hboth := (ordered_append hjoin).1
    have hdone := hclosed.append hcovers.closed
    have hr := Relation.findsExactly relation (ordered_append hboth).2 hdone h.knows
    have hdemoted : ∀ t, t ∈ kind.outerSide.demotes seen (relation.walk w).2 ↔
        (Part.join left kind relation).isOverlooked = false ∧
          (Part.join left kind relation).Extends (done ++ (parts ++ relation.parts)) t := by
      intro t
      rw [JoinKind.mem_demotes_iff, Part.isOverlooked, Part.Extends, ← List.append_assoc,
        hr.tables, h.tables, reads_done (ordered_append hboth).2 hdone
          fun name hname => List.mem_append_right _ (hcovers.named name hname)]
    have hfound := h.append hclosed hcovers hboth hr
    have hcovers := hcovers.append (Relation.covers relation)
    have hfound := hfound.demote (p := .join left kind relation) hclosed hcovers nofun hjoin
      (fun _ => id) hdemoted
    have hcovers := hcovers.concat (p := .join left kind relation) fun _ => id
    rw [← FromItem.references_behind left kind] at hfound hcovers
    have hrest := walkJoins_findsExactly rest hordered hclosed hcovers hfound
    rwa [FromItem.references_behind, List.append_assoc left.references] at hrest

theorem Relation.findsExactly {w : Walk} {done : List Part} : (r : Relation) →
    (done ++ r.parts).Pairwise Part.MayPrecede → Closed done → w.Knows done →
    FindsExactly done r.parts r.references (r.walk w)
  | .table _, hordered, hclosed, hw => .table hw hordered hclosed
  | .derived q, hordered, hclosed, hw => Query.findsExactly q hordered hclosed hw
  | .nested item, hordered, hclosed, hw => FromItem.findsExactly item hordered hclosed hw
  | .other, _, _, hw => .nothing hw

end

theorem Query.mem_nullableTables_iff_isMarked {q : Query} (hordered : q.DeclaresFirst)
    {t : String} : t ∈ q.nullableTables ↔ IsMarked q.parts t :=
  have hordered : ([] ++ q.parts).Pairwise Part.MayPrecede := hordered
  (q.findsExactly hordered (fun _ hp => nomatch hp) Walk.knows_start).knows.nullable t

def statementsOf? (cs : List Char) : Option (List Statement) :=
  match Token.readAll false cs.length cs with
  | none => none
  | some tokens =>
    match statements (tokens.length + 1) tokens with
    | .ok (statements, _) => some statements
    | .error _ => none

theorem statementsOfText?_eq (sql : String) : statementsOfText? sql = statementsOf? sql.toList :=
  rfl

def soleQuery? : List Statement → Option Query
  | [.query q] => some q
  | _ => none

theorem exists_soleQuery {sql : String} {holds : Query → Bool}
    (h : ((statementsOfText? sql).bind soleQuery?).any holds = true) :
    ∃ q, statementsOfText? sql = some [.query q] ∧ holds q = true := by
  obtain ⟨q, hq, h⟩ := (Option.any_eq_true _ _).mp h
  obtain ⟨statements, hs, hq⟩ := Option.bind_eq_some_iff.1 hq
  unfold soleQuery? at hq
  split at hq
  · exact ⟨q, Option.some.inj hq ▸ hs, h⟩
  · cases hq

namespace Analysis

theorem mem_nullableTables_iff_isMarked (t : String) : (q : Query) → q.DeclaresFirst →
    (t ∈ (ofQuery q).nullableTables ↔ IsMarked q.parts t)
  | .mk recursive ctes body, hordered => by
    rw [ofQuery.eq_def]
    simp only [NameSet.mem_union, Query.mem_nullableTables_iff_isMarked hordered]
    refine or_iff_right_of_imp fun hinner => ?_
    cases body with
    | query q =>
      have hparts : q.parts.Sublist (Query.mk recursive ctes (.query q)).parts :=
        List.sublist_append_right ..
      have hmarked := (mem_nullableTables_iff_isMarked t q (hordered.sublist hparts)).1 hinner
      exact hmarked.mono hparts.subset
    | select s =>
      cases s
      exact absurd hinner List.not_mem_nil
    | setOperation | table | values | modification => exact absurd hinner List.not_mem_nil

/-- The tables that may be null are those that a join or a set operation may leave null: what the
right operand of a left join reads, the left operand of a right join, and either operand of a
full join or of a set operation, wherever they stand. Joins that are overlooked leave none. -/
theorem mem_nullableTables_iff (t : String) (q : Query) (hordered : q.DeclaresFirst) :
    (t ∈ (ofQuery q).nullableTables ↔
      ∃ p ∈ q.parts, p.isOverlooked = false ∧ p.Extends q.parts t) ∧
    ((∀ p ∈ q.parts, p.isOverlooked = false) →
      (t ∈ (ofQuery q).nullableTables ↔ MayBeNull q.parts t)) := by
  have hmarked := mem_nullableTables_iff_isMarked t q hordered
  refine ⟨hmarked, fun hall => hmarked.trans (exists_congr fun p => and_congr_right fun hp => ?_)⟩
  exact and_iff_right (hall p hp)

def chainedJoins : String :=
  "with a as (select t.x from t), b as (select a.x from a join u on true) " ++
    "select v.x from v left join b on true, w right join y on true"

theorem mem_nullableTables_chained :
    ∃ q, statementsOfText? chainedJoins = some [.query q] ∧ q.DeclaresFirst ∧
      (∀ p ∈ q.parts, p.isOverlooked = false) ∧
      MayBeNull q.parts "t" ∧ MayBeNull q.parts "w" ∧ ¬MayBeNull q.parts "y" := by
  have h : ((statementsOfText? chainedJoins).bind soleQuery?).any (fun q =>
      q.DeclaresFirst ∧ (∀ p ∈ q.parts, p.isOverlooked = false) ∧
        "t" ∈ (ofQuery q).nullableTables ∧ "w" ∈ (ofQuery q).nullableTables ∧
        "y" ∉ (ofQuery q).nullableTables) = true := by
    unfold chainedJoins
    rw [statementsOfText?_eq, String.toList_append, String.toList_ofList, String.toList_ofList]
    decide +kernel
  obtain ⟨q, hs, h⟩ := exists_soleQuery h
  obtain ⟨hordered, hall, ht, hw, hy⟩ := of_decide_eq_true h
  have hexact (t : String) := (mem_nullableTables_iff t q hordered).2 hall
  exact ⟨q, hs, hordered, hall, (hexact "t").1 ht, (hexact "w").1 hw,
    fun hy' => hy ((hexact "y").2 hy')⟩

def globalJoin : String := "select b.x from a global left join b on true"

theorem globalJoin_not_marked :
    ¬ ∀ (sql : String) (q : Query), statementsOfText? sql = some [.query q] → q.DeclaresFirst →
      ∀ t, t ∈ (ofQuery q).nullableTables ↔ MayBeNull q.parts t := by
  intro all
  have h : ((statementsOfText? globalJoin).bind soleQuery?).any (fun q =>
      q.DeclaresFirst ∧ "b" ∉ (ofQuery q).nullableTables ∧ q.parts.any fun
        | .join _ kind right => kind.extendsRight && right.references.contains "b"
        | _ => false) = true := by
    unfold globalJoin
    rw [statementsOfText?_eq, String.toList_ofList]
    decide +kernel
  obtain ⟨q, hs, h⟩ := exists_soleQuery h
  obtain ⟨hordered, hb, h⟩ := of_decide_eq_true h
  obtain ⟨p, hp, h⟩ := List.any_eq_true.1 h
  cases p with
  | join left kind right =>
    simp only [Bool.and_eq_true, List.contains_eq_mem, decide_eq_true_eq] at h
    exact hb ((all _ q hs hordered "b").2 ⟨_, hp, .inl ⟨h.1, .table h.2⟩⟩)
  | table | setOperation | expression => exact Bool.noConfusion h

end Analysis

end RowTypes.Sql
