import Mathlib.Data.List.Forall2
import RowTypes.Proofs.TypeChains

/-! Columns of unknown type under the two policies. The columns of a query are gone through one
at a time. Both policies do the same up to the first column of unknown type; there the strict one
stops, and the lenient one goes on with a warning. -/

namespace RowTypes

theorem HostType.isUnknown_iff {h : HostType} :
    h.isUnknown = true ↔ ∃ depth, h = arrays depth .unknown := by
  constructor
  · intro hu
    induction h with
    | unknown => exact ⟨0, rfl⟩
    | array element ih =>
      obtain ⟨depth, rfl⟩ := ih hu
      exact ⟨depth + 1, rfl⟩
    | _ => cases hu
  · rintro ⟨depth, rfl⟩
    induction depth with
    | zero => rfl
    | succ depth ih => exact ih

namespace Inference
open Sql (Analysis)

def under (i : Inference) (policy : UnknownPolicy) : Inference := { i with policy := policy }

def unknowns (i : Inference) (ds : List ColumnDescription) : List ColumnDescription :=
  ds.filter fun d => (i.typeOfOid d.type).1.isUnknown

def unknownError (i : Inference) (d : ColumnDescription) : InferenceError :=
  match i.catalog.type? d.type with
  | some t => .unknownType d.name t.regtype
  | none => .unknownOid d.type

def unknownWarning (i : Inference) (d : ColumnDescription) : String :=
  "Column " ++ d.name ++ " of type " ++ (i.typeOfOid d.type).2 ++ " has no known TypeScript type"

section Policy

variable (i : Inference) (policy : UnknownPolicy)

/-! The policy decides no type -/

theorem typeWithin_under (n : Nat) (t : TypeInfo) :
    (i.under policy).typeWithin n t = i.typeWithin n t := by
  induction n generalizing t with
  | zero => rfl
  | succ n ih => simp only [typeWithin, ih]; rfl

@[simp] theorem typeOfOid_under (oid : Oid) :
    (i.under policy).typeOfOid oid = i.typeOfOid oid := by
  simp only [typeOfOid, typeOf, typeWithin_under]
  rfl

@[simp] theorem column_under (a : Analysis) (count index : Nat) (d : ColumnDescription) :
    (i.under policy).column a count index d = i.column a count index d := by
  simp only [column, typeOfOid_under]
  rfl

@[simp] theorem unknowns_under (ds : List ColumnDescription) :
    (i.under policy).unknowns ds = i.unknowns ds := by
  simp only [unknowns, typeOfOid_under]

end Policy

/-! One column at a time -/

/-- What the columns up to some place have given. -/
structure Progress where
  columns : List Column
  /-- The tables that they come from, unless these are read from the query's text. -/
  tables : List String
  warnings : List String

def Progress.start : Progress := ⟨[], [], []⟩

def Progress.add (i : Inference) (a : Analysis) (count : Nat) (p : Progress)
    (d : ColumnDescription) : Progress :=
  let c := i.column a count p.columns.length d
  { columns := p.columns ++ [c]
    tables :=
      match i.source? d with
      | some info =>
        if info.table ∉ p.tables ∧ a.tables = [] then p.tables ++ [info.table] else p.tables
      | none => p.tables
    warnings := if c.hostType.isUnknown then p.warnings ++ [warning c] else p.warnings }

def Progress.step (i : Inference) (a : Analysis) (count : Nat) (p : Progress)
    (d : ColumnDescription) : Except InferenceError Progress :=
  if (i.typeOfOid d.type).1.isUnknown = true ∧ i.policy = .strict then .error (i.unknownError d)
  else .ok (p.add i a count d)

def Progress.finish (i : Inference) (a : Analysis) (params : List Oid) (p : Progress) :
    QueryTypes :=
  ⟨p.columns, params.map i.param, if a.tables = [] then p.tables else a.tables, p.warnings⟩

section Run

variable {i : Inference} {a : Analysis} {count : Nat} {p : Progress} {d : ColumnDescription}
  {ds : List ColumnDescription}

theorem hostType_column (i : Inference) (a : Analysis) (count index : Nat)
    (d : ColumnDescription) : (i.column a count index d).hostType = (i.typeOfOid d.type).1 := rfl

theorem warning_column (i : Inference) (a : Analysis) (count index : Nat) (d : ColumnDescription) :
    warning (i.column a count index d) = i.unknownWarning d := rfl

theorem step_of_known (h : (i.typeOfOid d.type).1.isUnknown = false) :
    p.step i a count d = .ok (p.add i a count d) := by
  rw [Progress.step, if_neg]
  simp [h]

theorem step_of_unknown (h : (i.typeOfOid d.type).1.isUnknown = true) (hp : i.policy = .strict) :
    p.step i a count d = .error (i.unknownError d) := by
  rw [Progress.step, if_pos ⟨h, hp⟩]

theorem step_of_lenient (hp : i.policy = .lenient) :
    p.step i a count d = .ok (p.add i a count d) := by
  rw [Progress.step, if_neg]
  simp [hp]

theorem unknowns_cons_of_known (h : (i.typeOfOid d.type).1.isUnknown = false) :
    i.unknowns (d :: ds) = i.unknowns ds :=
  List.filter_cons_of_neg (by simp [h])

theorem unknowns_cons_of_unknown (h : (i.typeOfOid d.type).1.isUnknown = true) :
    i.unknowns (d :: ds) = d :: i.unknowns ds :=
  List.filter_cons_of_pos h

theorem foldlM_step_lenient (hp : i.policy = .lenient) (p : Progress) :
    ds.foldlM (Progress.step i a count) p = .ok (ds.foldl (Progress.add i a count) p) := by
  induction ds generalizing p with
  | nil => rfl
  | cons d ds ih =>
    rw [List.foldlM_cons, step_of_lenient hp, List.foldl_cons, ← ih]
    rfl

theorem foldlM_step_strict (hp : i.policy = .strict) (p : Progress) :
    ds.foldlM (Progress.step i a count) p =
      match i.unknowns ds with
      | [] => .ok (ds.foldl (Progress.add i a count) p)
      | d :: _ => .error (i.unknownError d) := by
  induction ds generalizing p with
  | nil => rfl
  | cons d ds ih =>
    rw [List.foldlM_cons]
    cases hu : (i.typeOfOid d.type).1.isUnknown with
    | true =>
      rw [step_of_unknown hu hp, unknowns_cons_of_unknown hu]
      rfl
    | false =>
      rw [step_of_known hu, unknowns_cons_of_known hu, List.foldl_cons, ← ih]
      rfl

theorem columns_foldl_add (p : Progress) :
    (ds.foldl (Progress.add i a count) p).columns =
      p.columns ++ i.columnsFrom a count p.columns.length ds := by
  induction ds generalizing p with
  | nil => rw [columnsFrom, List.append_nil]; rfl
  | cons d ds ih =>
    rw [List.foldl_cons, ih, columnsFrom]
    simp [Progress.add]

theorem warnings_foldl_add (p : Progress) :
    (ds.foldl (Progress.add i a count) p).warnings =
      p.warnings ++ (i.unknowns ds).map i.unknownWarning := by
  induction ds generalizing p with
  | nil => simp [unknowns]
  | cons d ds ih =>
    rw [List.foldl_cons, ih]
    cases hu : (i.typeOfOid d.type).1.isUnknown with
    | true => simp [Progress.add, hostType_column, hu, unknowns_cons_of_unknown, warning_column]
    | false => simp [Progress.add, hostType_column, hu, unknowns_cons_of_known]

theorem tables_foldl_add (ha : a.tables = []) (p : Progress) :
    (ds.foldl (Progress.add i a count) p).tables =
      (ds.filterMap fun d => (i.source? d).map ColumnInfo.table).foldl
        (fun ts t => if t ∈ ts then ts else ts ++ [t]) p.tables := by
  induction ds generalizing p with
  | nil => rfl
  | cons d ds ih =>
    rw [List.foldl_cons, ih]
    cases hs : i.source? d with
    | none => simp [Progress.add, hs]
    | some info =>
      by_cases ht : info.table ∈ p.tables <;> simp [Progress.add, hs, ht, ha]

theorem firstUnknown?_eq (i : Inference) (ds : List ColumnDescription) :
    i.firstUnknown? ds = (i.unknowns ds).head?.map i.unknownError := by
  induction ds with
  | nil => rfl
  | cons d ds ih =>
    simp only [firstUnknown?]
    cases hu : (i.typeOfOid d.type).1.isUnknown with
    | false => rw [unknowns_cons_of_known hu, ← ih]; rfl
    | true =>
      rw [unknowns_cons_of_unknown hu, List.head?_cons, Option.map_some, unknownError]
      cases ht : i.catalog.type? d.type <;> simp [typeOfOid, ht]

theorem warnings_columnsFrom (i : Inference) (a : Analysis) (count index : Nat)
    (ds : List ColumnDescription) :
    ((i.columnsFrom a count index ds).filter (·.hostType.isUnknown)).map warning =
      (i.unknowns ds).map i.unknownWarning := by
  induction ds generalizing index with
  | nil => rfl
  | cons d ds ih =>
    rw [columnsFrom, List.filter_cons, hostType_column]
    cases hu : (i.typeOfOid d.type).1.isUnknown with
    | true =>
      rw [if_pos rfl, unknowns_cons_of_unknown hu, List.map_cons, List.map_cons, ih, warning_column]
    | false => rw [if_neg Bool.false_ne_true, unknowns_cons_of_known hu, ih]

theorem finish_foldl_add (i : Inference) (sql : String) (d : Description) :
    (d.columns.foldl (Progress.add i (.ofText sql) d.columns.length) .start).finish i (.ofText sql)
      d.params = i.types sql d := by
  simp only [Progress.finish, types, columns_foldl_add, warnings_foldl_add, warnings_columnsFrom,
    Progress.start, List.nil_append, List.length_nil, QueryTypes.mk.injEq, true_and, and_true]
  by_cases ha : (Analysis.ofText sql).tables = []
  · rw [if_pos ha, if_pos ha, tables_foldl_add ha]
    rfl
  · rw [if_neg ha, if_neg ha]

end Run

/-- The types of a query are found by going through its columns, one after the other. -/
theorem infer_eq_foldlM (i : Inference) (sql : String) (d : Description) :
    i.infer sql d =
      (d.columns.foldlM (Progress.step i (.ofText sql) d.columns.length) .start).map
        (Progress.finish i (.ofText sql) d.params) := by
  rw [infer, firstUnknown?_eq]
  cases hp : i.policy with
  | lenient =>
    rw [foldlM_step_lenient hp, Except.map, finish_foldl_add]
  | strict =>
    rw [foldlM_step_strict hp]
    cases i.unknowns d.columns with
    | nil => simp only [Except.map, finish_foldl_add]; rfl
    | cons d ds => rfl

theorem columnsFrom_under (i : Inference) (policy : UnknownPolicy) (a : Analysis)
    (count index : Nat) (ds : List ColumnDescription) :
    (i.under policy).columnsFrom a count index ds = i.columnsFrom a count index ds := by
  induction ds generalizing index with
  | nil => rfl
  | cons d ds ih => rw [columnsFrom, columnsFrom, column_under, ih]

theorem param_under (i : Inference) (policy : UnknownPolicy) :
    (i.under policy).param = i.param := by
  funext oid
  rw [param, typeOfOid_under, param]

theorem types_under (i : Inference) (policy : UnknownPolicy) (sql : String) (d : Description) :
    (i.under policy).types sql d = i.types sql d := by
  simp only [types, columnsFrom_under, param_under]
  rfl

theorem infer_lenient (i : Inference) (sql : String) (d : Description) :
    (i.under .lenient).infer sql d = .ok (i.types sql d) := by
  rw [infer_eq_foldlM, foldlM_step_lenient rfl, Except.map, finish_foldl_add, types_under]

theorem infer_strict (i : Inference) (sql : String) (d : Description) :
    (i.under .strict).infer sql d =
      match i.unknowns d.columns with
      | [] => .ok (i.types sql d)
      | first :: _ => .error (i.unknownError first) := by
  rw [infer_eq_foldlM, foldlM_step_strict rfl, unknowns_under]
  cases i.unknowns d.columns with
  | nil => rw [Except.map, finish_foldl_add, types_under]
  | cons first rest => rfl

theorem columnsFrom_described (i : Inference) (a : Analysis) (count index : Nat)
    (ds : List ColumnDescription) :
    List.Forall₂ (fun desc c =>
        c.name = desc.name ∧ (c.hostType, c.regtype) = i.typeOfOid desc.type)
      ds (i.columnsFrom a count index ds) := by
  induction ds generalizing index with
  | nil => exact .nil
  | cons d ds ih => exact .cons ⟨rfl, rfl⟩ (ih _)

/-- The lenient policy finds the types of every query, with a warning for each column of unknown
type. The strict one finds the same where there is no such column, and otherwise says what is wrong
with the first of them. The parameters decide nothing. -/
theorem policies_agree (i : Inference) (sql : String) (d : Description) :
    (∀ desc, desc ∈ i.unknowns d.columns ↔
      desc ∈ d.columns ∧ ∃ depth, (i.typeOfOid desc.type).1 = HostType.arrays depth .unknown) ∧
    ∃ types, (i.under .lenient).infer sql d = .ok types ∧
      List.Forall₂ (fun desc c => c.name = desc.name ∧
        (c.hostType, c.regtype) = i.typeOfOid desc.type) d.columns types.columns ∧
      types.warnings = (i.unknowns d.columns).map i.unknownWarning ∧
      ((∃ strict, (i.under .strict).infer sql d = .ok strict) ↔ i.unknowns d.columns = []) ∧
      (i.unknowns d.columns = [] →
        (i.under .strict).infer sql d = .ok types ∧ types.warnings = []) ∧
      (∀ first rest, i.unknowns d.columns = first :: rest →
        (i.catalog.type? first.type = none →
          (i.under .strict).infer sql d = .error (.unknownOid first.type)) ∧
        ∀ t, i.catalog.type? first.type = some t →
          (i.under .strict).infer sql d = .error (.unknownType first.name t.regtype)) ∧
      ∀ policy params e, (i.under policy).infer sql ⟨d.columns, params⟩ = .error e ↔
        (i.under policy).infer sql d = .error e := by
  have hwarnings : (i.types sql d).warnings = (i.unknowns d.columns).map i.unknownWarning :=
    warnings_columnsFrom ..
  refine ⟨fun desc => ?_, i.types sql d, infer_lenient i sql d, columnsFrom_described .., hwarnings,
    ?_, ?_, ?_, ?_⟩
  · rw [unknowns, List.mem_filter, HostType.isUnknown_iff]
  · rw [infer_strict]
    cases i.unknowns d.columns <;> simp
  · intro hnone
    rw [infer_strict, hwarnings, hnone]
    exact ⟨rfl, rfl⟩
  · intro first rest hfirst
    rw [infer_strict, hfirst]
    refine ⟨fun ht => ?_, fun t ht => ?_⟩ <;> simp only [unknownError, ht]
  · intro policy params e
    cases policy with
    | lenient => rw [infer_lenient, infer_lenient]; simp
    | strict =>
      rw [infer_strict, infer_strict]
      cases i.unknowns d.columns <;> simp

/-- An array of points, of which the catalog knows nothing but the name, behind a column whose type
it does not list. -/
example :
    let i : Inference := ⟨⟨[], [(600, ⟨600, "point", "point", .base, none, none, []⟩),
      (1017, ⟨1017, "_point", "point[]", .base, some 600, none, []⟩)]⟩, [], [], .strict⟩
    i.unknowns [⟨"a", 1, none, none⟩, ⟨"b", 1017, none, none⟩] =
      [⟨"a", 1, none, none⟩, ⟨"b", 1017, none, none⟩] := by
  decide

end Inference
end RowTypes
