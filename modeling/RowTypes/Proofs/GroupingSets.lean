import Mathlib.Data.List.Sections
import Mathlib.Data.List.Sublists
import RowTypes.Proofs.Demotion

/-! The grouping sets of a query, and the rows that they give. Each set gives a row for each of its
groups, and leaves null in it the columns that other sets group by. So a column is null in some row
if it is missing from a set, although the table has no null in it. The inference takes no notice of
sets: the catalog decides, as it does for rows that are not grouped. -/

namespace RowTypes.Sql

/-! Grouping sets -/

def GroupItem.sets : GroupItem → List (List Expr)
  | .expr e => [[e]]
  | .rollup parts => parts.inits.map List.flatten
  | .cube parts => parts.sublists.map List.flatten
  | .groupingSets sets => sets

/-- The grouping sets of a `GROUP BY` list: one set of each item, in every combination. -/
def groupingSets (items : List GroupItem) : List (List Expr) :=
  (items.map GroupItem.sets).sections.map List.flatten

def GroupItem.isPlain : GroupItem → Bool
  | .expr _ => true
  | _ => false

section Rows

variable {Col Value : Type} (column? : Expr → Option Col) (c : Col)

/-- The column `c` is among the expressions. `column?` tells the columns that expressions stand
for. -/
def Groups (set : List Expr) : Prop := some c ∈ set.map column?

def IsLeftOut (sets : List (List Expr)) : Prop :=
  (∃ set ∈ sets, Groups column? c set) ∧ ∃ set ∈ sets, ¬Groups column? c set

variable {c}

open Classical in
/-- What `set` leaves of a row: null in each column that only other sets group by. -/
noncomputable def leave (sets : List (List Expr)) (set : List Expr) (row : Col → Option Value) :
    Col → Option Value :=
  fun c => if (∃ other ∈ sets, Groups column? c other) ∧ ¬Groups column? c set then none else row c

/-- The rows of a grouped query, before its `HAVING` clause and with what they have in the columns
of the `FROM` list. The set without expressions has a row even if there is no input. -/
def IsRow (sets : List (List Expr)) (input : List (Col → Option Value)) (r : Col → Option Value) :
    Prop :=
  ∃ set ∈ sets, (∃ row ∈ input, r = leave column? sets set row) ∨
    set = [] ∧ input = [] ∧ r = fun _ => none

variable {column?}

theorem exists_row_null_iff {sets : List (List Expr)} {input : List (Col → Option Value)}
    (hinput : input ≠ []) (hvalues : ∀ row ∈ input, row c ≠ none) :
    (∃ r, IsRow column? sets input r ∧ r c = none) ↔ IsLeftOut column? c sets := by
  constructor
  · rintro ⟨r, ⟨set, hset, ⟨row, hrow, rfl⟩ | ⟨-, hnone, -⟩⟩, hnull⟩
    · by_contra hleft
      rw [leave, if_neg fun h => hleft ⟨h.1, set, hset, h.2⟩] at hnull
      exact hvalues row hrow hnull
    · exact absurd hnone hinput
  · rintro ⟨hgrouped, set, hset, hlacks⟩
    obtain ⟨row, hrow⟩ := List.exists_mem_of_ne_nil _ hinput
    exact ⟨_, ⟨set, hset, .inl ⟨row, hrow, rfl⟩⟩, if_pos ⟨hgrouped, hlacks⟩⟩

end Rows

/-! Grouped queries -/

mutual

def Query.groupItems : Query → List GroupItem
  | .mk _ _ body => Body.groupItems body

def Body.groupItems : Body → List GroupItem
  | .select (.mk _ _ _ (.items items) _) => items
  | .query q => Query.groupItems q
  | _ => []

end

namespace Analysis

theorem refinement_grouped {hasCtes : Bool} {tables : List String} {projection : List SelectItem}
    {sources : List FromItem} {selection having : Option Expr} {items : List GroupItem}
    (h : items ≠ []) :
    refinement hasCtes tables (.mk projection sources selection (.items items) having) = none := by
  obtain ⟨item, items, rfl⟩ := List.exists_cons_of_ne_nil h
  simp [refinement, Grouping.isEmpty]

theorem refined_ofQuery_grouped : (q : Query) → q.groupItems ≠ [] → (ofQuery q).refined = none
  | .mk _ _ body, h => by
    rw [Query.groupItems] at h
    rw [ofQuery.eq_def]
    cases body with
    | query q => exact refined_ofQuery_grouped q h
    | select s =>
      obtain ⟨projection, sources, selection, grouping, having⟩ := s
      cases grouping with
      | items items => exact refinement_grouped h
      | all => exact absurd rfl h
    | setOperation | table | values | modification => exact absurd rfl h

theorem allNullable_ofQuery (q : Query) : (ofQuery q).allNullable = false := by
  obtain ⟨_, ctes, body⟩ := q
  rw [ofQuery.eq_def]
  cases body with
  | query q => exact allNullable_ofQuery q
  | select s =>
    obtain ⟨projection, sources, selection, grouping, having⟩ := s
    rfl
  | setOperation | table | values | modification => rfl

end Analysis

end RowTypes.Sql

namespace RowTypes.Inference
open Sql (Analysis Expr)

theorem isNotNull_grouped {q : Sql.Query} (hq : q.groupItems ≠ []) (info : ColumnInfo)
    (index count : Nat) :
    isNotNull (.ofQuery q) (some info) index count = true ↔
      info.notNull = true ∧ info.table ∉ (Analysis.ofQuery q).nullableTables := by
  simp [isNotNull, Analysis.allNullable_ofQuery, Analysis.isRefined,
    Analysis.refined_ofQuery_grouped q hq, Analysis.isNullableTable, and_comm]

theorem isNotNull_unparsed (sql : String) (info : ColumnInfo) (index count : Nat) :
    isNotNull (.unparsed sql) (some info) index count = true ↔
      info.notNull = true ∧ Analysis.mentionsOuterJoin false sql.toList = false := by
  simp [isNotNull, Analysis.unparsed, Analysis.empty, Analysis.isRefined,
    Analysis.isNullableTable, and_comm]

/-- Whether a column of a grouped query is null or not is read from the catalog, unless joins and
set operations may leave it null. For a text that cannot be read, such as one with nested grouping
sets, it is the same but for the words of an outer join. Yet there are rows with null in the column
just if it is left out of a grouping set. -/
theorem infer_grouped (i : Inference) (sql : String) (d : Description) :
    (∃ e, i.policy = .strict ∧ i.firstUnknown? d.columns = some e ∧ i.infer sql d = .error e) ∨
      ∃ types, i.infer sql d = .ok types ∧
        ∀ (k : Nat) (desc : ColumnDescription) (info : ColumnInfo),
          d.columns[k]? = some desc → i.source? desc = some info →
          ∃ c : Column, types.columns[k]? = some c ∧
            (Sql.statementsOfText? sql = none →
              (c.notNull = true ↔
                info.notNull = true ∧ Analysis.mentionsOuterJoin false sql.toList = false)) ∧
            ∀ q, Sql.statementsOfText? sql = some [.query q] → q.groupItems ≠ [] →
              (c.notNull = true ↔
                info.notNull = true ∧ info.table ∉ (Analysis.ofQuery q).nullableTables) ∧
              ∀ (Col Value : Type) (column? : Expr → Option Col) (shown : Nat → Col)
                  (input : List (Col → Option Value)), input ≠ [] →
                (∀ row ∈ input, row (shown k) ≠ none) →
                ((∃ r, Sql.IsRow column? (Sql.groupingSets q.groupItems) input r ∧
                    r (shown k) = none) ↔
                  Sql.IsLeftOut column? (shown k) (Sql.groupingSets q.groupItems)) := by
  refine (i.infer_eq sql d).imp id fun hi => ⟨_, hi, fun k desc info hd hinfo => ?_⟩
  refine ⟨i.column (.ofText sql) d.columns.length k desc, ?_, fun hs => ?_, fun q hs hq => ?_⟩
  · simp [types, getElem?_columnsFrom, hd]
  · rw [notNull_column, hinfo, Analysis.ofText, hs]
    exact isNotNull_unparsed sql info k d.columns.length
  · rw [notNull_column, hinfo, Analysis.ofText_of_parsed hs, Analysis.ofStatements]
    exact ⟨isNotNull_grouped hq info k d.columns.length,
      fun _ _ _ _ _ hinput hvalues => Sql.exists_row_null_iff hinput hvalues⟩

def groupedQuery : String := "select x from t group by rollup (x)"

def nestedSets : String := "select x from t group by grouping sets (cube (x))"

def sampleColumn? : Expr → Option ColumnKey
  | .column _ => some ⟨1, 1⟩
  | _ => none

theorem exists_groupedQuery :
    ∃ q, Sql.statementsOfText? groupedQuery = some [.query q] ∧
      (∃ item ∈ q.groupItems, item.isPlain = false) ∧
      Sql.groupingSets q.groupItems = [[], [.column [⟨"x", none⟩]]] ∧
      "t" ∉ (Analysis.ofQuery q).nullableTables := by
  have h : ((Sql.statementsOfText? groupedQuery).bind Sql.soleQuery?).any (fun q =>
      (∃ item ∈ q.groupItems, item.isPlain = false) ∧
        Sql.groupingSets q.groupItems = [[], [.column [⟨"x", none⟩]]] ∧
        "t" ∉ (Analysis.ofQuery q).nullableTables) = true := by
    unfold groupedQuery
    rw [Sql.statementsOfText?_eq, String.toList_ofList]
    decide +kernel
  obtain ⟨q, hs, h⟩ := Sql.exists_soleQuery h
  exact ⟨q, hs, of_decide_eq_true h⟩

theorem infer_grouped_rollup :
    (∃ q types, Sql.statementsOfText? groupedQuery = some [.query q] ∧
      (sampleInference "t").infer groupedQuery sampleDescription = .ok types ∧
      (∃ c : Column, types.columns[0]? = some c ∧ c.notNull = true) ∧
      ∃ r, Sql.IsRow sampleColumn? (Sql.groupingSets q.groupItems) [fun _ => some 7] r ∧
        r ⟨1, 1⟩ = none) ∧
    ∃ types, (sampleInference "t").infer nestedSets sampleDescription = .ok types ∧
      ∃ c : Column, types.columns[0]? = some c ∧ c.notNull = true := by
  have known : (sampleInference "t").firstUnknown? sampleDescription.columns = none := by
    decide +kernel
  constructor
  · obtain ⟨q, hs, ⟨item, hitem, -⟩, hsets, htable⟩ := exists_groupedQuery
    rcases infer_grouped (sampleInference "t") groupedQuery sampleDescription with
      ⟨e, _, he, _⟩ | ⟨types, hi, columns⟩
    · simp [known] at he
    · obtain ⟨c, hc, -, grouped⟩ := columns 0 ⟨"x", 23, some 1, some 1⟩
        ⟨"public", "t", "x", 23, true⟩ rfl rfl
      obtain ⟨flag, rows⟩ := grouped q hs (List.ne_nil_of_mem hitem)
      refine ⟨q, types, hs, hi, ⟨c, hc, flag.2 ⟨rfl, htable⟩⟩, ?_⟩
      refine (rows ColumnKey Nat sampleColumn? (fun _ => ⟨1, 1⟩) _ (by simp) (by simp)).2 ?_
      rw [hsets]
      simp [Sql.IsLeftOut, Sql.Groups, sampleColumn?]
  · have hs : Sql.statementsOfText? nestedSets = none := by
      have h : (Sql.statementsOfText? nestedSets).isNone = true := by
        unfold nestedSets
        rw [Sql.statementsOfText?_eq, String.toList_ofList]
        decide +kernel
      exact Option.isNone_iff_eq_none.1 h
    rcases infer_grouped (sampleInference "t") nestedSets sampleDescription with
      ⟨e, _, he, _⟩ | ⟨types, hi, columns⟩
    · simp [known] at he
    · obtain ⟨c, hc, unparsed, -⟩ := columns 0 ⟨"x", 23, some 1, some 1⟩
        ⟨"public", "t", "x", 23, true⟩ rfl rfl
      exact ⟨types, hi, c, hc, (unparsed hs).2 ⟨rfl, by decide +kernel⟩⟩

/-- A column that is missing from a set is still taken for one that is never null. -/
theorem grouped_not_demoted :
    ¬ ∀ (i : Inference) (sql : String) (d : Description) (q : Sql.Query) (types : QueryTypes)
        (k : Nat) (desc : ColumnDescription) (info : ColumnInfo) (c : Column)
        (column? : Expr → Option ColumnKey) (key : ColumnKey),
        Sql.statementsOfText? sql = some [.query q] →
        (∃ item ∈ q.groupItems, item.isPlain = false) → i.infer sql d = .ok types →
        d.columns[k]? = some desc → desc.table = some key.table → desc.number = some key.number →
        i.source? desc = some info →
        (∃ set ∈ Sql.groupingSets q.groupItems, ¬Sql.Groups column? key set) →
        types.columns[k]? = some c → c.notNull = false := by
  intro all
  obtain ⟨q, hs, ⟨item, hitem, hplain⟩, hsets, htable⟩ := exists_groupedQuery
  have hflag : ((sampleInference "t").column (.ofText groupedQuery) 1 0
      ⟨"x", 23, some 1, some 1⟩).notNull = true := by
    rw [notNull_column, Analysis.ofText_of_parsed hs]
    exact (isNotNull_grouped (List.ne_nil_of_mem hitem) ⟨"public", "t", "x", 23, true⟩ 0 1).2
      ⟨rfl, htable⟩
  have hlacks : ∃ set ∈ Sql.groupingSets q.groupItems, ¬Sql.Groups sampleColumn? ⟨1, 1⟩ set := by
    rw [hsets]
    exact ⟨[], List.mem_cons_self, List.not_mem_nil⟩
  have hnullable := all (sampleInference "t") groupedQuery sampleDescription q _ 0 _ _ _
    sampleColumn? ⟨1, 1⟩ hs ⟨item, hitem, hplain⟩ rfl rfl rfl rfl rfl hlacks rfl
  exact absurd (hflag.symm.trans hnullable) (by decide)

end RowTypes.Inference
