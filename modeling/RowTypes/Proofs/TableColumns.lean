import Mathlib.Data.List.Induction
import Mathlib.Data.List.Nodup
import Mathlib.Data.List.Sort
import RowTypes.Database.Catalog

/-! The columns of a table by its name. Of the rows of a catalog the last one under each key is
kept, so that no two columns of a table have the same number. Their order is therefore settled by
these numbers alone, in whatever order the rows came and are gone through. -/

namespace RowTypes

namespace Keyed

variable {κ α : Type} [DecidableEq κ] {key key' : κ} {value : α} {entries : List (κ × α)}

theorem mem_map_fst_put :
    key' ∈ (put key value entries).map Prod.fst ↔ key' = key ∨ key' ∈ entries.map Prod.fst := by
  induction entries with
  | nil => simp [put]
  | cons entry rest ih =>
    obtain ⟨k, v⟩ := entry
    rw [put]
    split_ifs with hk
    · simp [hk]
    · rw [List.map_cons, List.mem_cons, ih, List.map_cons, List.mem_cons]
      exact or_left_comm

theorem nodup_put (h : (entries.map Prod.fst).Nodup) :
    ((put key value entries).map Prod.fst).Nodup := by
  induction entries with
  | nil => exact List.nodup_singleton key
  | cons entry rest ih =>
    obtain ⟨k, v⟩ := entry
    obtain ⟨hk, hrest⟩ := List.nodup_cons.1 h
    rw [put]
    split_ifs with heq
    · rw [← heq]
      exact h
    · rw [List.map_cons, List.nodup_cons]
      refine ⟨fun hmem => ?_, ih hrest⟩
      exact (mem_map_fst_put.1 hmem).elim heq hk

theorem mem_iff_lookup (h : (entries.map Prod.fst).Nodup) :
    (key, value) ∈ entries ↔ entries.lookup key = some value := by
  induction entries with
  | nil => simp
  | cons entry rest ih =>
    obtain ⟨k, v⟩ := entry
    obtain ⟨hk, hrest⟩ := List.nodup_cons.1 h
    rw [List.mem_cons, ih hrest, List.lookup_cons]
    by_cases heq : key = k
    · subst heq
      have hnone : rest.lookup key ≠ some value := fun hsome =>
        hk (List.mem_map.2 ⟨(key, value), (ih hrest).2 hsome, rfl⟩)
      simp [hnone, eq_comm]
    · simp [heq, beq_eq_false_iff_ne.2 heq]

end Keyed

namespace Catalog

abbrev Row := ColumnKey × ColumnInfo

def ofRows (rows : List Row) : Catalog :=
  rows.foldl (fun c row => c.insertColumn row.1 row.2) empty

def last? (rows : List Row) (key : ColumnKey) : Option ColumnInfo := rows.reverse.lookup key

/-- The catalog has the columns of the rows, and goes through them in some order. -/
def Lists (c : Catalog) (rows : List Row) : Prop := c.columns.Perm (ofRows rows).columns

def NamesTables (c : Catalog) : Prop :=
  ∀ row ∈ c.columns, ∀ row' ∈ c.columns, row.1.table = row'.1.table →
    row.2.schema = row'.2.schema ∧ row.2.table = row'.2.table

instance (c : Catalog) : Decidable (NamesTables c) :=
  inferInstanceAs (Decidable (∀ row ∈ c.columns, ∀ row' ∈ c.columns, _ → _ ∧ _))

def written : Option String → String → String
  | none, name => name
  | some schema, name => schema ++ "." ++ name

/-- The name is that of the table of a column, and so is the schema, if it is given. -/
def Fits (schema : Option String) (name : String) (info : ColumnInfo) : Prop :=
  info.table = name ∧ ∀ s ∈ schema, info.schema = s

def FitsTable (rows : List Row) (schema : Option String) (name : String) (oid : Oid) : Prop :=
  ∃ key info, last? rows key = some info ∧ key.table = oid ∧ Fits schema name info

def Unambiguous (rows : List Row) (schema : Option String) (name : String) : Prop :=
  ∀ oid oid', FitsTable rows schema name oid → FitsTable rows schema name oid' → oid = oid'

variable {c : Catalog} {rows rows' : List Row} {schema : Option String} {name table : String}
  {key : ColumnKey} {info : ColumnInfo}

/-! What a catalog lists -/

theorem columns_ofRows_concat (rows : List Row) (row : Row) :
    (ofRows (rows ++ [row])).columns = Keyed.put row.1 row.2 (ofRows rows).columns := by
  rw [ofRows, List.foldl_append]
  rfl

theorem nodup_ofRows (rows : List Row) : ((ofRows rows).columns.map Prod.fst).Nodup := by
  induction rows using List.reverseRecOn with
  | nil => exact List.nodup_nil
  | append_singleton rows row ih =>
    rw [columns_ofRows_concat]
    exact Keyed.nodup_put ih

theorem lookup_ofRows (rows : List Row) (key : ColumnKey) :
    (ofRows rows).columns.lookup key = last? rows key := by
  induction rows using List.reverseRecOn with
  | nil => rfl
  | append_singleton rows row ih =>
    obtain ⟨k, v⟩ := row
    have hlast : last? (rows ++ [(k, v)]) key = if key = k then some v else last? rows key := by
      rw [last?, List.reverse_append, List.reverse_singleton, List.singleton_append,
        List.lookup_cons, last?]
      by_cases h : key = k
      · simp [h]
      · simp [h, beq_eq_false_iff_ne.2 h]
    rw [columns_ofRows_concat, Keyed.lookup_put, ih, hlast]

theorem Lists.nodup (h : c.Lists rows) : (c.columns.map Prod.fst).Nodup :=
  (h.map Prod.fst).nodup_iff.2 (nodup_ofRows rows)

theorem Lists.mem_iff (h : c.Lists rows) :
    (key, info) ∈ c.columns ↔ last? rows key = some info := by
  rw [List.Perm.mem_iff h, Keyed.mem_iff_lookup (nodup_ofRows rows), lookup_ofRows]

/-! The name of a table -/

theorem splitName_written (hname : '.' ∉ name.toList) (hschema : ∀ s ∈ schema, '.' ∉ s.toList) :
    splitName (written schema name) = (schema, name) := by
  have hrest {cs : List Char} (h : '.' ∉ cs) (rest : List Char) :
      (cs ++ rest).dropWhile (· ≠ '.') = rest.dropWhile (· ≠ '.') ∧
        (cs ++ rest).takeWhile (· ≠ '.') = cs ++ rest.takeWhile (· ≠ '.') := by
    have hall : ∀ x ∈ cs, decide (x ≠ '.') = true := fun x hx =>
      decide_eq_true fun heq => h (heq ▸ hx)
    exact ⟨List.dropWhile_append_of_pos hall, List.takeWhile_append_of_pos hall⟩
  cases schema with
  | none =>
    have hdrop := (hrest hname []).1
    rw [List.append_nil, List.dropWhile_nil] at hdrop
    simp only [splitName, written, hdrop]
  | some schema =>
    have hcs : (written (some schema) name).toList = schema.toList ++ '.' :: name.toList := by
      simp [written]
    obtain ⟨hdrop, htake⟩ := hrest (hschema schema rfl) ('.' :: name.toList)
    simp only [splitName, hcs, hdrop, htake]
    simp

theorem fits_iff : fits schema name info = true ↔ Fits schema name info := by
  cases schema <;> simp [fits, Fits]

/-! The columns that a name fits -/

def fitting (c : Catalog) (schema : Option String) (name : String) : List Row :=
  c.columns.filter fun row => fits schema name row.2

def byNumber (rows : List Row) : List Row :=
  rows.mergeSort fun a b => decide (a.1.number ≤ b.1.number)

theorem any_ne_head_iff {α : Type} [DecidableEq α] (xs : List α) :
    (xs.any fun x => xs.head? ≠ some x) = true ↔ ∃ x ∈ xs, ∃ y ∈ xs, x ≠ y := by
  cases xs with
  | nil => simp
  | cons first rest =>
    constructor
    · intro h
      obtain ⟨x, hx, hne⟩ := List.any_eq_true.1 h
      exact ⟨first, List.mem_cons_self, x, hx, by simpa using hne⟩
    · rintro ⟨x, hx, y, hy, hne⟩
      refine List.any_eq_true.2 ?_
      by_cases hfirst : first = x
      · exact ⟨y, hy, by simpa [hfirst] using hne⟩
      · exact ⟨x, hx, by simpa using hfirst⟩

theorem tableColumns_of_ne (hsplit : splitName table = (schema, name)) {row row' : Row}
    (hrow : row ∈ c.fitting schema name) (hrow' : row' ∈ c.fitting schema name)
    (hne : row.1.table ≠ row'.1.table) : c.tableColumns table = [] := by
  have hany := (any_ne_head_iff ((c.fitting schema name).map fun e => e.1.table)).2
    ⟨_, List.mem_map_of_mem hrow, _, List.mem_map_of_mem hrow', hne⟩
  rw [tableColumns, hsplit]
  exact if_pos hany

theorem tableColumns_of_eq (hsplit : splitName table = (schema, name))
    (h : ∀ row ∈ c.fitting schema name, ∀ row' ∈ c.fitting schema name,
      row.1.table = row'.1.table) :
    c.tableColumns table = (byNumber (c.fitting schema name)).map Prod.snd := by
  rw [tableColumns, hsplit]
  refine if_neg fun hany => ?_
  obtain ⟨x, hx, y, hy, hne⟩ := (any_ne_head_iff _).1 hany
  obtain ⟨row, hrow, rfl⟩ := List.mem_map.1 hx
  obtain ⟨row', hrow', rfl⟩ := List.mem_map.1 hy
  exact hne (h row hrow row' hrow')

theorem mem_byNumber {rows : List Row} {row : Row} : row ∈ byNumber rows ↔ row ∈ rows :=
  List.mem_mergeSort

theorem pairwise_byNumber (hkeys : (rows.map Prod.fst).Nodup)
    (h : ∀ row ∈ rows, ∀ row' ∈ rows, row.1.table = row'.1.table) :
    (byNumber rows).Pairwise fun a b => a.1.number < b.1.number := by
  have hsorted : (byNumber rows).Pairwise fun a b => a.1.number ≤ b.1.number := by
    refine (List.pairwise_mergeSort ?_ ?_ rows).imp of_decide_eq_true
    · exact fun a b c hab hbc =>
        decide_eq_true (le_trans (of_decide_eq_true hab) (of_decide_eq_true hbc))
    · exact fun a b => by simpa using le_total a.1.number b.1.number
  have hdistinct : (byNumber rows).Pairwise fun a b => a.1 ≠ b.1 := by
    rw [← List.pairwise_map]
    exact ((List.mergeSort_perm rows _).map Prod.fst).nodup_iff.2 hkeys
  refine (hsorted.and hdistinct).imp_of_mem fun {a b} ha hb hab => ?_
  refine lt_of_le_of_ne hab.1 fun hnumber => hab.2 ?_
  have htable := h a (mem_byNumber.1 ha) b (mem_byNumber.1 hb)
  calc a.1 = ⟨a.1.table, a.1.number⟩ := rfl
    _ = ⟨b.1.table, b.1.number⟩ := by rw [htable, hnumber]

theorem eq_of_mem_iff {found found' : List Row}
    (h : found.Pairwise fun a b => a.1.number < b.1.number)
    (h' : found'.Pairwise fun a b => a.1.number < b.1.number)
    (hmem : ∀ row, row ∈ found ↔ row ∈ found') : found = found' := by
  have hirrefl {rows : List Row} (hrows : rows.Pairwise fun a b => a.1.number < b.1.number) :
      rows.Nodup := hrows.imp fun hlt heq => by rw [heq] at hlt; exact lt_irrefl _ hlt
  refine List.Perm.eq_of_pairwise (fun a b _ _ hab hba => ?_) h h'
    ((List.perm_ext_iff_of_nodup (hirrefl h) (hirrefl h')).2 hmem)
  exact absurd (hab.trans hba) (lt_irrefl _)

section Listed

variable (h : c.Lists rows)

include h

theorem Lists.mem_fitting : (key, info) ∈ c.fitting schema name ↔
    last? rows key = some info ∧ Fits schema name info := by
  rw [fitting, List.mem_filter, h.mem_iff, fits_iff]

theorem Lists.table_eq (hone : Unambiguous rows schema name) :
    ∀ row ∈ c.fitting schema name, ∀ row' ∈ c.fitting schema name,
      row.1.table = row'.1.table := by
  rintro ⟨key, info⟩ hrow ⟨key', info'⟩ hrow'
  obtain ⟨hlast, hfits⟩ := h.mem_fitting.1 hrow
  obtain ⟨hlast', hfits'⟩ := h.mem_fitting.1 hrow'
  exact hone _ _ ⟨key, info, hlast, rfl, hfits⟩ ⟨key', info', hlast', rfl, hfits'⟩

theorem Lists.tableColumns_cases (hsplit : splitName table = (schema, name)) :
    ¬Unambiguous rows schema name ∧ c.tableColumns table = [] ∨
      Unambiguous rows schema name ∧
        c.tableColumns table = (byNumber (c.fitting schema name)).map Prod.snd ∧
        (byNumber (c.fitting schema name)).Pairwise fun a b => a.1.number < b.1.number := by
  by_cases hone : Unambiguous rows schema name
  · have htable := h.table_eq hone
    refine .inr ⟨hone, tableColumns_of_eq hsplit htable, pairwise_byNumber ?_ htable⟩
    exact h.nodup.sublist (List.filter_sublist.map Prod.fst)
  · refine .inl ⟨hone, ?_⟩
    simp only [Unambiguous, not_forall] at hone
    obtain ⟨oid, oid', ⟨key, info, hlast, rfl, hfits⟩, ⟨key', info', hlast', rfl, hfits'⟩, hne⟩ :=
      hone
    exact tableColumns_of_ne hsplit (h.mem_fitting.2 ⟨hlast, hfits⟩)
      (h.mem_fitting.2 ⟨hlast', hfits'⟩) hne

/-- Neither the order of the rows nor that of the catalog matters, as long as the same row is the
last one under each key. -/
theorem Lists.tableColumns_eq (hsplit : splitName table = (schema, name)) {c' : Catalog}
    (h' : c'.Lists rows') (hlast : ∀ key, last? rows' key = last? rows key) :
    c'.tableColumns table = c.tableColumns table := by
  have hsame : Unambiguous rows' schema name ↔ Unambiguous rows schema name := by
    simp only [Unambiguous, FitsTable, hlast]
  have hmem (row : Row) : row ∈ byNumber (c'.fitting schema name) ↔
      row ∈ byNumber (c.fitting schema name) := by
    rw [mem_byNumber, mem_byNumber, h'.mem_fitting, h.mem_fitting, hlast]
  rcases h.tableColumns_cases hsplit with ⟨htwo, hnil⟩ | ⟨hone, heq, hsorted⟩
  · rcases h'.tableColumns_cases hsplit with ⟨-, hnil'⟩ | ⟨hone', -⟩
    · rw [hnil', hnil]
    · exact absurd (hsame.1 hone') htwo
  · rcases h'.tableColumns_cases hsplit with ⟨htwo', -⟩ | ⟨-, heq', hsorted'⟩
    · exact absurd (hsame.2 hone) htwo'
    · rw [heq', heq, eq_of_mem_iff hsorted' hsorted hmem]

variable (hnames : c.NamesTables)

include hnames

theorem Lists.fits_of_fitsTable (hlast : last? rows key = some info)
    (hfits : FitsTable rows schema name key.table) : Fits schema name info := by
  obtain ⟨key', info', hlast', htable, hname, hschema⟩ := hfits
  obtain ⟨hsame, htablename⟩ := hnames _ (h.mem_iff.2 hlast) _ (h.mem_iff.2 hlast') htable.symm
  exact ⟨htablename.trans hname, fun s hs => hsame.trans (hschema s hs)⟩

theorem Lists.fitting_schema
    (hone : Unambiguous rows none name) (hinfo : (key, info) ∈ c.fitting none name) :
    c.fitting (some info.schema) name = c.fitting none name := by
  refine List.filter_congr fun ⟨key', info'⟩ hrow => ?_
  rw [Bool.eq_iff_iff, fits_iff, fits_iff]
  refine ⟨fun hfits => ⟨hfits.1, nofun⟩, fun hfits => ⟨hfits.1, fun s hs => ?_⟩⟩
  have hrow' : (key', info') ∈ c.fitting none name := h.mem_fitting.2 ⟨h.mem_iff.1 hrow, hfits⟩
  rw [← Option.some.inj hs]
  exact (hnames _ hrow _ (List.mem_of_mem_filter hinfo) (h.table_eq hone _ hrow' _ hinfo)).1

end Listed

/-- A name that fits two tables has no columns. Any other has the columns of the table that it fits,
all of them and each once, by rising numbers. They are the same for all rows of which the same ones
are the last under their keys, and in whatever order the catalog goes through them. A table that is
found by its name alone is found with its schema in front as well. -/
theorem tableColumns_of_rows (h : c.Lists rows) (hnames : c.NamesTables) (hname : '.' ∉ name.toList)
    (hschema : ∀ s ∈ schema, '.' ∉ s.toList) :
    (¬Unambiguous rows schema name → c.tableColumns (written schema name) = []) ∧
    (Unambiguous rows schema name →
      ∃ found : List Row, c.tableColumns (written schema name) = found.map Prod.snd ∧
        (found.Pairwise fun a b => a.1.number < b.1.number) ∧
        ∀ key info, (key, info) ∈ found ↔
          last? rows key = some info ∧ FitsTable rows schema name key.table) ∧
    (∀ rows' c', Lists c' rows' → (∀ key, last? rows' key = last? rows key) →
      c'.tableColumns (written schema name) = c.tableColumns (written schema name)) ∧
    ∀ info ∈ c.tableColumns name, '.' ∉ info.schema.toList →
      c.tableColumns (written (some info.schema) name) = c.tableColumns name := by
  have hsplit := splitName_written hname hschema
  refine ⟨?_, ?_, fun rows' c' h' hlast => h.tableColumns_eq hsplit h' hlast, ?_⟩
  · intro htwo
    rcases h.tableColumns_cases hsplit with ⟨-, hnil⟩ | ⟨hone, -⟩
    · exact hnil
    · exact absurd hone htwo
  · intro hone
    rcases h.tableColumns_cases hsplit with ⟨htwo, -⟩ | ⟨-, heq, hsorted⟩
    · exact absurd hone htwo
    · refine ⟨_, heq, hsorted, fun key info => ?_⟩
      rw [mem_byNumber, h.mem_fitting]
      refine and_congr_right fun hlast => ⟨fun hfits => ⟨key, info, hlast, rfl, hfits⟩, ?_⟩
      exact h.fits_of_fitsTable hnames hlast
  · intro info hinfo hdot
    have halone : splitName (written none name) = (none, name) := splitName_written hname nofun
    rw [written] at halone
    rcases h.tableColumns_cases halone with ⟨-, hnil⟩ | ⟨hone, heq, -⟩
    · rw [hnil] at hinfo
      exact nomatch hinfo
    · rw [heq] at hinfo
      obtain ⟨⟨key, info⟩, hrow, rfl⟩ := List.mem_map.1 hinfo
      have hfitting := h.fitting_schema hnames hone (mem_byNumber.1 hrow)
      have hqualified : splitName (written (some info.schema) name) = (some info.schema, name) :=
        splitName_written hname fun s hs => Option.some.inj hs ▸ hdot
      rw [tableColumns_of_eq hqualified (hfitting.symm ▸ h.table_eq hone), hfitting, heq]

def userId : ColumnInfo := ⟨"public", "users", "id", 23, true⟩

def userEmail : ColumnInfo := ⟨"public", "users", "email", 25, false⟩

def userRows : List Row :=
  [(⟨100, 2⟩, userEmail), (⟨100, 1⟩, { userId with notNull := false }), (⟨100, 1⟩, userId)]

def users : Catalog := ⟨(ofRows userRows).columns.reverse, []⟩

theorem tableColumns_of_users :
    Lists users userRows ∧ NamesTables users ∧ '.' ∉ "users".toList ∧
      Unambiguous userRows none "users" ∧
      users.tableColumns "users" = [userId, userEmail] ∧
      users.tableColumns "public.users" = [userId, userEmail] := by
  have h : Lists users userRows := List.reverse_perm _
  have hnames : NamesTables users := by decide
  have hname : '.' ∉ "users".toList := by decide
  have hrow {key : ColumnKey} {info : ColumnInfo} (hlast : last? userRows key = some info) :
      key = ⟨100, 1⟩ ∧ info = userId ∨ key = ⟨100, 2⟩ ∧ info = userEmail := by
    simpa [users, userRows, ofRows, insertColumn, empty, Keyed.put] using h.mem_iff.2 hlast
  have htable {oid : Oid} (hfits : FitsTable userRows none "users" oid) : oid = 100 := by
    obtain ⟨key, info, hlast, rfl, -⟩ := hfits
    rcases hrow hlast with ⟨rfl, -⟩ | ⟨rfl, -⟩ <;> rfl
  have hone : Unambiguous userRows none "users" := fun _ _ hoid hoid' =>
    (htable hoid).trans (htable hoid').symm
  have hschema : ∀ s ∈ (none : Option String), '.' ∉ s.toList := by simp
  obtain ⟨-, hfound, -, hqualified⟩ := tableColumns_of_rows h hnames hname hschema
  obtain ⟨found, heq, hsorted, hmem⟩ := hfound hone
  have hlisted : found = [(⟨100, 1⟩, userId), (⟨100, 2⟩, userEmail)] := by
    refine eq_of_mem_iff hsorted (by decide) ?_
    rintro ⟨key, info⟩
    rw [hmem]
    constructor
    · rintro ⟨hlast, -⟩
      simpa using hrow hlast
    · intro hmem
      have hlast : last? userRows ⟨100, 1⟩ = some userId := by decide
      have hfits : FitsTable userRows none "users" 100 := ⟨_, _, hlast, rfl, rfl, by simp⟩
      rcases List.mem_pair.1 hmem with heq | heq <;> cases heq
      · exact ⟨hlast, hfits⟩
      · exact ⟨by decide, hfits⟩
  have hcolumns : users.tableColumns "users" = [userId, userEmail] := by
    rw [hlisted] at heq
    exact heq
  refine ⟨h, hnames, hname, hone, hcolumns, ?_⟩
  rw [← hcolumns]
  exact hqualified userId (by rw [hcolumns]; exact List.mem_cons_self) (by decide)

end Catalog
end RowTypes
