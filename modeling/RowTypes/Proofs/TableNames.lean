import Mathlib.Data.List.Basic
import Mathlib.Data.List.TakeWhile
import Mathlib.Tactic.SplitIfs
import RowTypes.Proofs.Demotion

/-! The name of a table is taken from the written form of its whole path, that of a common table
expression from its identifier. The two agree on an identifier if and only if its written form is
one part, with no period in it, and reads back as the identifier: a bare one always, one in double
quotes unless it has a period or two double quotes side by side. Where they agree on all names of a
query, the analysis goes by the names that the catalog has. -/

namespace RowTypes.Sql

/-! Lower case -/

section LowerCase
open Text

theorem toNat_ofNat_cases (m : Nat) : (Char.ofNat m).toNat = m ∨ (Char.ofNat m).toNat = 0 := by
  by_cases h : m.isValidChar
  · rw [Char.ofNat, dif_pos h]
    exact .inl rfl
  · rw [Char.ofNat, dif_neg h]
    exact .inr rfl

theorem shift_ne_period {c : Char} (hc : 0x80 ≤ c.toNat) : shift toLowerShifts c ≠ '.' := by
  have table : toLowerShifts.all (fun row => 0x2e < row.1 + row.2.2.2) = true := by decide
  unfold shift
  dsimp only
  split
  · rename_i a b step delta hfind
    have hmem := List.all_eq_true.1 table _ (List.mem_of_find?_eq_some hfind)
    have hrange := List.find?_some hfind
    simp only [decide_eq_true_eq, Bool.and_eq_true] at hmem hrange
    intro hperiod
    have hcode := toNat_ofNat_cases (c.toNat + delta).toNat
    rw [hperiod, show '.'.toNat = 0x2e from rfl] at hcode
    omega
  · rintro rfl
    exact absurd hc (by decide)

theorem toLower_eq_period {c : Char} (hc : c.toNat < 0x80) (h : c.toLower = '.') : c = '.' := by
  have table : ∀ n < 0x80, (Char.ofNat n).toLower = '.' → Char.ofNat n = '.' := by decide
  have := table c.toNat hc
  rw [Char.ofNat_toNat] at this
  exact this h

theorem lowerChar_period {c : Char} (h : '.' ∈ lowerChar c) : c = '.' := by
  unfold lowerChar at h
  split_ifs at h with hascii hdot
  · exact toLower_eq_period hascii (List.mem_singleton.1 h).symm
  · exact absurd h (by decide)
  · exact absurd (List.mem_singleton.1 h).symm (shift_ne_period (Nat.not_lt.1 hascii))

theorem lowerChar_length_pos (c : Char) : 0 < (lowerChar c).length := by
  unfold lowerChar
  split_ifs <;> exact Nat.succ_pos _

theorem period_mem_lowerFrom {cs : List Char} {inWord : Bool} (h : '.' ∈ lowerFrom inWord cs) :
    '.' ∈ cs := by
  induction cs generalizing inWord with
  | nil => exact h
  | cons c cs ih =>
    rw [lowerFrom] at h
    rcases List.mem_append.1 h with h | h
    · split at h
      · exact absurd h (by decide)
      · exact List.mem_cons.2 (.inl (lowerChar_period h).symm)
    · exact List.mem_cons_of_mem _ (ih h)

theorem length_le_lowerFrom (inWord : Bool) (cs : List Char) :
    cs.length ≤ (lowerFrom inWord cs).length := by
  induction cs generalizing inWord with
  | nil => exact Nat.le_refl 0
  | cons c cs ih =>
    rw [lowerFrom, List.length_append, List.length_cons]
    have hrest := ih (if isCaseIgnorable c then inWord else isCased c)
    have hpos := lowerChar_length_pos c
    split
    · rw [List.length_singleton]
      omega
    · omega

theorem period_mem_lowerCase {s : String} (h : '.' ∈ (lowerCase s).toList) : '.' ∈ s.toList := by
  rw [lowerCase, String.toList_ofList] at h
  exact period_mem_lowerFrom h

theorem length_le_lowerCase (s : String) : s.toList.length ≤ (lowerCase s).toList.length := by
  rw [lowerCase, String.toList_ofList]
  exact length_le_lowerFrom false s.toList

end LowerCase

/-! Quoted identifiers -/

def HasPair (cs : List Char) : Prop := ['"', '"'] <:+: cs

instance (cs : List Char) : Decidable (HasPair cs) := inferInstanceAs (Decidable (_ <:+: _))

theorem hasPair_cons_quote (cs : List Char) : HasPair ('"' :: '"' :: cs) := ⟨[], cs, rfl⟩

theorem hasPair_cons_iff {c : Char} {cs : List Char} (h : c ≠ '"' ∨ cs.head? ≠ some '"') :
    HasPair (c :: cs) ↔ HasPair cs := by
  rw [HasPair, List.infix_cons_iff, HasPair]
  refine or_iff_right fun hprefix => ?_
  obtain ⟨rfl, hcs⟩ := List.cons_prefix_cons.1 hprefix
  obtain ⟨rest, rfl⟩ := hcs
  exact h.elim (· rfl) (· rfl)

theorem undouble_cons {c : Char} {cs : List Char} (h : c ≠ '"' ∨ cs.head? ≠ some '"') :
    undouble (c :: cs) = c :: undouble cs := by
  rw [undouble]
  rintro rest rfl rfl
  exact h.elim (· rfl) (· rfl)

theorem head?_escape (before : Char) {cs : List Char} (h : cs.head? ≠ some '"') :
    (Ident.escape '"' before cs).head? ≠ some '"' := by
  cases cs with
  | nil => simp [Ident.escape]
  | cons c cs =>
    have hc : c ≠ '"' := fun hc => h (by rw [hc]; rfl)
    rw [Ident.escape.eq_def]
    simp [hc]

theorem exists_undouble_escape (before : Char) {c : Char} {cs : List Char}
    (h : c ≠ '"' ∨ cs.head? ≠ some '"') : ∃ behind,
    undouble (Ident.escape '"' before (c :: cs)) = c :: undouble (Ident.escape '"' behind cs) := by
  by_cases hc : c = '"'
  · subst hc
    have hcs : cs.head? ≠ some '"' := h.resolve_left (· rfl)
    by_cases hback : before = '\\'
    · refine ⟨'\\', ?_⟩
      rw [Ident.escape.eq_def]
      simp only [hback, if_true]
      exact undouble_cons (.inr (head?_escape _ hcs))
    · refine ⟨'"', ?_⟩
      have hescape : Ident.escape '"' before ('"' :: cs) =
          '"' :: '"' :: Ident.escape '"' '"' cs := by
        rw [Ident.escape.eq_def]
        simp only [hback, if_true, if_false]
        cases cs with
        | nil => rw [Ident.escape]
        | cons d ds =>
          have hd : d ≠ '"' := fun hd => hcs (by rw [hd]; rfl)
          exact if_neg hd
      rw [hescape, undouble]
  · refine ⟨c, ?_⟩
    rw [Ident.escape.eq_def]
    simp only [hc, if_false]
    exact undouble_cons (.inl hc)

theorem exists_undouble_escape_pair (before : Char) (cs : List Char) : ∃ behind,
    undouble (Ident.escape '"' before ('"' :: '"' :: cs)) =
      '"' :: undouble (Ident.escape '"' behind cs) := by
  by_cases hback : before = '\\'
  · refine ⟨'\\', ?_⟩
    rw [hback, Ident.escape.eq_def]
    simp only [if_true]
    rw [Ident.escape.eq_def]
    simp only [if_true]
    rw [undouble]
  · refine ⟨'"', ?_⟩
    rw [Ident.escape.eq_def]
    simp only [hback, if_true, if_false]
    rw [undouble]

theorem undouble_escape (before : Char) (cs : List Char) :
    (¬HasPair cs → undouble (Ident.escape '"' before cs) = cs) ∧
      (HasPair cs → (undouble (Ident.escape '"' before cs)).length < cs.length) := by
  induction hn : cs.length using Nat.strongRecOn generalizing before cs with
  | _ n ih =>
  cases cs with
  | nil =>
    rw [Ident.escape, undouble]
    exact ⟨fun _ => rfl, fun h => absurd h (by decide)⟩
  | cons c cs =>
    rw [List.length_cons] at hn
    by_cases hpair : c ≠ '"' ∨ cs.head? ≠ some '"'
    · obtain ⟨behind, hread⟩ := exists_undouble_escape before hpair
      obtain ⟨hsame, hshort⟩ := ih cs.length (by omega) behind cs rfl
      rw [hread, hasPair_cons_iff hpair]
      refine ⟨fun h => by rw [hsame h], fun h => ?_⟩
      have := hshort h
      rw [List.length_cons]
      omega
    · obtain ⟨hc, hcs⟩ := not_or.1 hpair
      obtain ⟨ds, rfl⟩ := List.head?_eq_some_iff.1 (Decidable.of_not_not hcs)
      obtain rfl := Decidable.of_not_not hc
      obtain ⟨behind, hread⟩ := exists_undouble_escape_pair before ds
      rw [List.length_cons] at hn
      obtain ⟨hsame, hshort⟩ := ih ds.length (by omega) behind ds rfl
      refine ⟨fun h => absurd (hasPair_cons_quote ds) h, fun _ => ?_⟩
      rw [hread, List.length_cons]
      by_cases h : HasPair ds
      · have := hshort h
        omega
      · rw [hsame h]
        omega

/-! Written forms -/

theorem mem_escape_iff {quote c : Char} (hc : c ≠ quote) (before : Char) (cs : List Char) :
    c ∈ Ident.escape quote before cs ↔ c ∈ cs := by
  fun_induction Ident.escape quote before cs <;> simp_all

theorem length_le_escape (quote before : Char) (cs : List Char) :
    cs.length ≤ (Ident.escape quote before cs).length := by
  fun_induction Ident.escape quote before cs <;>
    simp only [List.length_cons, List.length_nil] at * <;> omega

theorem period_not_mem_lastPart (cs : List Char) : '.' ∉ lastPart cs := by
  rw [lastPart, List.mem_reverse]
  intro h
  simpa using List.mem_takeWhile_imp h

theorem mem_of_mem_undouble {c : Char} {cs : List Char} (h : c ∈ undouble cs) : c ∈ cs := by
  fun_induction undouble cs with
  | case1 cs ih =>
    rcases List.mem_cons.1 h with rfl | h
    · exact List.mem_cons_self
    · exact List.mem_cons_of_mem _ (List.mem_cons_of_mem _ (ih h))
  | case2 d ds _ ih =>
    rcases List.mem_cons.1 h with rfl | h
    · exact List.mem_cons_self
    · exact List.mem_cons_of_mem _ (ih h)
  | case3 => exact h

theorem period_not_mem_tableName (path : List Ident) : '.' ∉ (tableName path).toList := by
  have hpart := period_not_mem_lastPart ((path.map Ident.display).intersperse ['.']).flatten
  have lower {cs : List Char} (hcs : '.' ∉ cs) : '.' ∉ (lowerCase (String.ofList cs)).toList := by
    intro h
    have := period_mem_lowerCase h
    rw [String.toList_ofList] at this
    exact hcs this
  rw [tableName]
  split
  · rename_i rest hrest
    rw [hrest] at hpart
    split
    · rw [String.toList_ofList]
      exact fun h =>
        hpart (List.mem_cons_of_mem _ (List.dropLast_subset _ (mem_of_mem_undouble h)))
    · exact lower hpart
  · exact lower hpart

/-! Identifiers that are read -/

def Ident.IsSpelled (i : Ident) : Prop :=
  match i.quote with
  | none => ∀ c ∈ i.value.toList, Token.continuesWord c = true
  | some quote => quote = '"' ∨ quote = '\''

namespace Token

def IsSpelled : Token → Prop
  | word name _ => name.IsSpelled
  | _ => True

theorem isSpelled_wordToken (cs : List Char) : (wordToken cs).1.IsSpelled := by
  simp only [wordToken, bare, IsSpelled, Ident.IsSpelled, String.toList_ofList]
  exact fun c hc => List.mem_takeWhile_imp hc

theorem isSpelled_numeric (cs : List Char) : (numeric cs).1.IsSpelled := by
  unfold numeric
  dsimp only
  split_ifs <;> trivial

theorem isSpelled_operator? {cs rest : List Char} {t : Token} (h : operator? cs = some (t, rest)) :
    t.IsSpelled := by
  have extended {s : String} (h : operator?.extend s cs = some (t, rest)) : t.IsSpelled := by
    unfold operator?.extend at h
    dsimp only at h
    split at h <;> cases h <;> trivial
  have broken {more : List Char} (h : operator?.broken more = some (t, rest)) : t.IsSpelled := by
    unfold operator?.broken at h
    split at h <;> cases h
    trivial
  unfold operator? at h
  split at h
  · split at h
    · split at h
      · exact extended h
      · exact broken h
    · exact broken h
  · exact extended h
  · cases h

theorem isSpelled_dollar? {cs rest : List Char} {t : Token} (h : dollar? cs = some (t, rest)) :
    t.IsSpelled := by
  unfold dollar? at h
  dsimp only at h
  split at h
  · obtain ⟨r, -, hr⟩ := Option.map_eq_some_iff.1 h
    cases hr
    trivial
  · cases h
    trivial

theorem eq_of_read {r : Token × List Char} {t : Token} {rest : List Char}
    (h : some (r.map some id) = some (some t, rest)) : t = r.1 := by
  cases h
  rfl

theorem isSpelled_plain {after : Bool} {c : Char} {cs rest : List Char} {t : Token}
    (h : next?.plain after c cs = some (some t, rest)) : t.IsSpelled := by
  unfold next?.plain at h
  split_ifs at h
  · rw [eq_of_read h]
    exact isSpelled_wordToken _
  · cases h
    trivial
  · rw [eq_of_read h]
    exact isSpelled_numeric _
  · cases h
  · split at h
    · cases h
      trivial
    · obtain ⟨⟨u, behind⟩, hr, heq⟩ := Option.map_eq_some_iff.1 h
      cases heq
      exact isSpelled_operator? hr
  · split at h <;> cases h <;> trivial

theorem isSpelled_next? {after : Bool} {cs rest : List Char} {t : Token}
    (h : next? after cs = some (some t, rest)) : t.IsSpelled := by
  have mapped {α : Type} {f : α → Option Token × List Char} {read : Option α}
      (hf : ∀ a t, (f a).1 = some t → t.IsSpelled) (h : read.map f = some (some t, rest)) :
      t.IsSpelled := by
    obtain ⟨a, -, ha⟩ := Option.map_eq_some_iff.1 h
    exact hf a t (by rw [ha])
  unfold next? at h
  split at h
  · cases h
  · exact mapped (by rintro a _ ⟨⟩; trivial) h
  · exact mapped (by rintro a _ ⟨⟩; exact .inl rfl) h
  · cases h
  · exact mapped (by rintro a _ ⟨⟩) h
  · obtain ⟨r, hr, heq⟩ := Option.map_eq_some_iff.1 h
    cases heq
    exact isSpelled_dollar? hr
  · split_ifs at h
    · exact mapped (by rintro a _ ⟨⟩; trivial) h
    · exact mapped (by rintro a _ ⟨⟩; trivial) h
    · exact isSpelled_plain h
  · split_ifs at h
    · exact mapped (by rintro a _ ⟨⟩; trivial) h
    · exact isSpelled_plain h
  · exact isSpelled_plain h

theorem isSpelled_readAll {after : Bool} {fuel : Nat} {cs : List Char} {tokens : List Token}
    (h : readAll after fuel cs = some tokens) : ∀ t ∈ tokens, t.IsSpelled := by
  fun_induction readAll after fuel cs generalizing tokens with
  | case1 => cases h; nofun
  | case2 => cases h
  | case3 => cases h
  | case4 after fuel cs hcs rest hnext ih => exact ih h
  | case5 after fuel cs hcs t rest hnext ih =>
    obtain ⟨ts, hts, rfl⟩ := Option.map_eq_some_iff.1 h
    exact List.forall_mem_cons.2 ⟨isSpelled_next? hnext, ih hts⟩

end Token

def Ident.IsRead (i : Ident) : Prop :=
  ∃ (sql : String) (before tokens rest : List Token),
    Token.ofText? sql = some (before ++ tokens) ∧ Parse.identifier tokens = .ok (i, rest)

theorem Ident.IsRead.isSpelled {i : Ident} (h : i.IsRead) : i.IsSpelled := by
  obtain ⟨sql, before, tokens, rest, htext, hread⟩ := h
  cases tokens with
  | nil => cases hread
  | cons t tokens =>
    have ht := Token.isSpelled_readAll htext t (by simp)
    cases t with
    | word name key =>
      cases hread
      exact ht
    | string value =>
      cases hread
      exact .inr rfl
    | _ => cases hread

/-! Names that agree -/

namespace Ident

/-- The identifier can be read back from its written form, as the last part of a path: it has no
period, and no quotes or double ones, but no two of them side by side between. -/
def Survives (i : Ident) : Prop :=
  '.' ∉ i.value.toList ∧
    match i.quote with
    | none => '"' ∉ i.value.toList
    | some quote => quote = '"' ∧ ¬HasPair i.value.toList

instance (i : Ident) : Decidable i.Survives := by
  unfold Survives
  cases i.quote <;> infer_instance

theorem IsSpelled.survives {i : Ident} (h : i.IsSpelled) (hquote : i.quote = none) :
    i.Survives := by
  have hword : ∀ c ∈ i.value.toList, Token.continuesWord c = true := by
    rw [IsSpelled, hquote] at h
    exact h
  rw [Survives, hquote]
  exact ⟨fun hc => absurd (hword _ hc) (by decide), fun hc => absurd (hword _ hc) (by decide)⟩

end Ident

theorem lastPart_written {path : List Ident} {last : Ident} (hl : path.getLast? = some last)
    (hperiod : '.' ∉ last.display) :
    lastPart ((path.map Ident.display).intersperse ['.']).flatten = last.display := by
  obtain ⟨before, hwritten, hbefore⟩ := written_eq_append_display path hl
  rw [hwritten, lastPart_append hbefore hperiod]

theorem tableName_of_quoted {path : List Ident} {last : Ident} (hl : path.getLast? = some last)
    (hquote : last.quote = some '"') (hperiod : '.' ∉ last.value.toList) :
    tableName path =
      String.ofList (undouble (Ident.escape '"' '\x00' last.value.toList)) := by
  have hdisplay : last.display =
      '"' :: (Ident.escape '"' '\x00' last.value.toList ++ ['"']) := by
    rw [Ident.display, hquote]
    rfl
  have hwritten := lastPart_written hl (by
    rw [hdisplay, List.mem_cons, List.mem_append, mem_escape_iff (by decide)]
    simpa using hperiod)
  rw [tableName]
  simp only [hwritten, hdisplay]
  rw [if_pos (by simp), List.dropLast_concat]

theorem tableName_of_single {path : List Ident} {last : Ident} (hl : path.getLast? = some last)
    (hquote : last.quote = some '\'') (hperiod : '.' ∉ last.value.toList) :
    last.value.toList.length < (tableName path).toList.length := by
  have hdisplay : last.display =
      '\'' :: (Ident.escape '\'' '\x00' last.value.toList ++ ['\'']) := by
    rw [Ident.display, hquote]
    rfl
  have hwritten := lastPart_written hl (by
    rw [hdisplay, List.mem_cons, List.mem_append, mem_escape_iff (by decide)]
    simpa using hperiod)
  have hescape := length_le_escape '\'' '\x00' last.value.toList
  rw [tableName]
  simp only [hwritten, hdisplay]
  refine Nat.lt_of_lt_of_le ?_ (length_le_lowerCase _)
  rw [String.toList_ofList, List.length_cons, List.length_append]
  omega

theorem tableName_of_survives {path : List Ident} {last : Ident} (hl : path.getLast? = some last)
    (hs : last.Survives) : tableName path = last.folded := by
  obtain ⟨value, quote⟩ := last
  cases quote with
  | none =>
    have hplain : '.' ∉ value.toList ∧ '"' ∉ value.toList := hs
    exact tableName_eq_folded hl (by simpa [Ident.isPlain] using hplain)
  | some quote =>
    obtain ⟨hperiod, rfl, hpair⟩ := hs
    rw [tableName_of_quoted hl rfl hperiod, (undouble_escape '\x00' value.toList).1 hpair,
      String.ofList_toList]
    rfl

theorem tableName_eq_folded_iff {path : List Ident} {last : Ident}
    (hl : path.getLast? = some last) (hlast : last.IsSpelled) :
    tableName path = last.folded ↔ last.Survives := by
  refine ⟨fun heq => ?_, tableName_of_survives hl⟩
  obtain ⟨value, quote⟩ := last
  cases quote with
  | none => exact hlast.survives rfl
  | some quote =>
    have hperiod : '.' ∉ value.toList := fun h => period_not_mem_tableName path (heq ▸ h)
    rcases hlast with rfl | rfl
    · refine ⟨hperiod, rfl, fun hpair => ?_⟩
      rw [tableName_of_quoted hl rfl hperiod] at heq
      have hchars := congrArg String.toList heq
      rw [String.toList_ofList, Ident.folded] at hchars
      have hshort := (undouble_escape '\x00' value.toList).2 hpair
      rw [hchars] at hshort
      exact absurd hshort (Nat.lt_irrefl _)
    · have hlong := tableName_of_single hl rfl hperiod
      rw [heq] at hlong
      exact absurd hlong (Nat.lt_irrefl _)

/-! Queries under the names of the catalog -/

mutual

def Query.paths : Query → List (List Ident)
  | .mk _ ctes body => ctePaths ctes ++ Body.paths body

def ctePaths : List Cte → List (List Ident)
  | [] => []
  | .mk _ q :: rest => Query.paths q ++ ctePaths rest

def Body.paths : Body → List (List Ident)
  | .select (.mk _ sources _ _ _) => sourcePaths sources
  | .query q => Query.paths q
  | .setOperation l r => Body.paths l ++ Body.paths r
  | .table | .values | .modification _ => []

def sourcePaths : List FromItem → List (List Ident)
  | [] => []
  | item :: rest => FromItem.paths item ++ sourcePaths rest

def FromItem.paths : FromItem → List (List Ident)
  | .mk relation joins => Relation.paths relation ++ joinPaths joins

def joinPaths : List Join → List (List Ident)
  | [] => []
  | .mk _ relation :: rest => Relation.paths relation ++ joinPaths rest

def Relation.paths : Relation → List (List Ident)
  | .table path => [path]
  | .derived q => Query.paths q
  | .nested item => FromItem.paths item
  | .other => []

end

section Naming

variable (nameOf : List Ident → String)

mutual

/-- The tables that a query reads, where they go by the names that `nameOf` gives them. -/
def Query.walkBy (w : Walk) : Query → Walk × List String
  | .mk _ ctes body => Body.walkBy (walkCtesBy w ctes) body

def walkCtesBy (w : Walk) : List Cte → Walk
  | [] => w
  | .mk name q :: rest =>
    let (w, tables) := Query.walkBy w q
    walkCtesBy (w.bind name.folded tables) rest

def Body.walkBy (w : Walk) : Body → Walk × List String
  | .select (.mk _ sources _ _ _) => walkSourcesBy w sources
  | .query q => Query.walkBy w q
  | .setOperation l r =>
    let (w, left) := Body.walkBy w l
    let (w, right) := Body.walkBy w r
    let tables := NameSet.union left right
    (w.demote tables, tables)
  | .table | .values | .modification _ => (w, [])

def walkSourcesBy (w : Walk) : List FromItem → Walk × List String
  | [] => (w, [])
  | item :: rest =>
    let (w, tables) := FromItem.walkBy w item
    let (w, more) := walkSourcesBy w rest
    (w, NameSet.union tables more)

def FromItem.walkBy (w : Walk) : FromItem → Walk × List String
  | .mk relation joins =>
    let (w, seen) := Relation.walkBy w relation
    walkJoinsBy w seen joins

def walkJoinsBy (w : Walk) (seen : List String) : List Join → Walk × List String
  | [] => (w, seen)
  | .mk kind relation :: rest =>
    let (w, joined) := Relation.walkBy w relation
    walkJoinsBy (w.demote (kind.outerSide.demotes seen joined)) (NameSet.union seen joined) rest

def Relation.walkBy (w : Walk) : Relation → Walk × List String
  | .table path => (w, w.reads (nameOf path))
  | .derived q => Query.walkBy w q
  | .nested item => FromItem.walkBy w item
  | .other => (w, [])

end

def Relation.nameBy? : Relation → Option String
  | .table path => some (nameOf path)
  | _ => none

def namedTablesBy (sources : List FromItem) : List String :=
  NameSet.union [] (sources.flatMap fun item =>
    (item.relation :: item.joins.map Join.relation).filterMap (Relation.nameBy? nameOf))

def Analysis.ofQueryBy : Query → Analysis
  | .mk recursive ctes body =>
    let inner := match body with
      | .select (.mk projection sources selection grouping having) =>
        let tables := namedTablesBy nameOf sources
        { empty with
          tables, constants := constantItems projection
          refined := refinement (!ctes.isEmpty) tables
            (.mk projection sources selection grouping having) }
      | .query q => ofQueryBy q
      | _ => empty
    { inner with
      nullableTables := NameSet.union inner.nullableTables
        ((Query.mk recursive ctes body).walkBy nameOf .start).1.nullable }

variable {nameOf}

mutual

/-- A walk depends on the names alone that it meets. -/
theorem Query.walkBy_eq {w : Walk} : (q : Query) →
    (∀ path ∈ q.paths, nameOf path = tableName path) → q.walkBy nameOf w = q.walk w
  | .mk _ ctes body, h => by
    rw [Query.paths, List.forall_mem_append] at h
    rw [Query.walkBy, Query.walk, walkCtesBy_eq ctes h.1, Body.walkBy_eq body h.2]

theorem walkCtesBy_eq {w : Walk} : (ctes : List Cte) →
    (∀ path ∈ ctePaths ctes, nameOf path = tableName path) →
    walkCtesBy nameOf w ctes = walkCtes w ctes
  | [], _ => rfl
  | .mk name q :: rest, h => by
    rw [ctePaths, List.forall_mem_append] at h
    rw [walkCtesBy, walkCtes, Query.walkBy_eq q h.1]
    exact walkCtesBy_eq rest h.2

theorem Body.walkBy_eq {w : Walk} : (b : Body) → (∀ path ∈ b.paths, nameOf path = tableName path) →
    b.walkBy nameOf w = b.walk w
  | .select (.mk _ sources _ _ _), h => walkSourcesBy_eq sources h
  | .query q, h => Query.walkBy_eq q h
  | .setOperation l r, h => by
    rw [Body.paths, List.forall_mem_append] at h
    rw [Body.walkBy, Body.walk, Body.walkBy_eq l h.1]
    dsimp only
    rw [Body.walkBy_eq r h.2]
  | .table, _ | .values, _ | .modification _, _ => rfl

theorem walkSourcesBy_eq {w : Walk} : (sources : List FromItem) →
    (∀ path ∈ sourcePaths sources, nameOf path = tableName path) →
    walkSourcesBy nameOf w sources = walkSources w sources
  | [], _ => rfl
  | item :: rest, h => by
    rw [sourcePaths, List.forall_mem_append] at h
    rw [walkSourcesBy, walkSources, FromItem.walkBy_eq item h.1]
    dsimp only
    rw [walkSourcesBy_eq rest h.2]

theorem FromItem.walkBy_eq {w : Walk} : (item : FromItem) →
    (∀ path ∈ item.paths, nameOf path = tableName path) → item.walkBy nameOf w = item.walk w
  | .mk relation joins, h => by
    rw [FromItem.paths, List.forall_mem_append] at h
    rw [FromItem.walkBy, FromItem.walk, Relation.walkBy_eq relation h.1]
    exact walkJoinsBy_eq joins h.2

theorem walkJoinsBy_eq {w : Walk} {seen : List String} : (joins : List Join) →
    (∀ path ∈ joinPaths joins, nameOf path = tableName path) →
    walkJoinsBy nameOf w seen joins = walkJoins w seen joins
  | [], _ => rfl
  | .mk kind relation :: rest, h => by
    rw [joinPaths, List.forall_mem_append] at h
    rw [walkJoinsBy, walkJoins, Relation.walkBy_eq relation h.1]
    exact walkJoinsBy_eq rest h.2

theorem Relation.walkBy_eq {w : Walk} : (r : Relation) →
    (∀ path ∈ r.paths, nameOf path = tableName path) → r.walkBy nameOf w = r.walk w
  | .table path, h => by
    rw [Relation.walkBy, Relation.walk, h path (List.mem_singleton.2 rfl)]
  | .derived q, h => Query.walkBy_eq q h
  | .nested item, h => FromItem.walkBy_eq item h
  | .other, _ => rfl

end

theorem Relation.nameBy?_eq {r : Relation} (h : ∀ path ∈ r.paths, nameOf path = tableName path) :
    r.nameBy? nameOf = r.tableName? := by
  cases r with
  | table path => rw [nameBy?, tableName?, h path (List.mem_singleton.2 rfl)]
  | _ => rfl

theorem joinPaths_eq (joins : List Join) :
    joinPaths joins = (joins.map Join.relation).flatMap Relation.paths := by
  induction joins with
  | nil => rfl
  | cons join joins ih =>
    obtain ⟨kind, relation⟩ := join
    rw [joinPaths, ih]
    rfl

theorem sourcePaths_eq (sources : List FromItem) :
    sourcePaths sources = sources.flatMap fun item =>
      (item.relation :: item.joins.map Join.relation).flatMap Relation.paths := by
  induction sources with
  | nil => rfl
  | cons item sources ih =>
    obtain ⟨relation, joins⟩ := item
    rw [sourcePaths, ih, FromItem.paths, joinPaths_eq]
    rfl

theorem namedTablesBy_eq {sources : List FromItem}
    (h : ∀ path ∈ sourcePaths sources, nameOf path = tableName path) :
    namedTablesBy nameOf sources = namedTables sources := by
  rw [sourcePaths_eq] at h
  rw [namedTablesBy, namedTables]
  rw [List.flatMap_def, List.flatMap_def]
  congr 2
  refine List.map_congr_left fun item hitem => List.filterMap_congr fun r hr => ?_
  refine Relation.nameBy?_eq fun path hpath => h path ?_
  exact List.mem_flatMap.2 ⟨item, hitem, List.mem_flatMap.2 ⟨r, hr, hpath⟩⟩

theorem Analysis.ofQueryBy_eq : (q : Query) → (∀ path ∈ q.paths, nameOf path = tableName path) →
    ofQueryBy nameOf q = ofQuery q
  | .mk _ ctes body, h => by
    have hbody : ∀ path ∈ body.paths, nameOf path = tableName path := fun path hpath =>
      h path (List.mem_append_right _ hpath)
    rw [ofQueryBy.eq_def, ofQuery.eq_def]
    dsimp only
    rw [Query.walkBy_eq _ h]
    cases body with
    | select s =>
      obtain ⟨projection, sources, selection, grouping, having⟩ := s
      dsimp only
      rw [namedTablesBy_eq hbody]
      rfl
    | query q =>
      dsimp only
      rw [ofQueryBy_eq q hbody]
      rfl
    | _ => rfl

end Naming

def catalogName (path : List Ident) : String := (path.getLast?.map Ident.folded).getD ""

/-- A table goes by the name of its identifier just if the identifier survives, and just then does
it read what is registered under that. A bare identifier always survives. The analysis of a query
whose names all do is the one under the names of the catalog. -/
theorem names_agree_iff (q : Query) :
    (∀ (path : List Ident) (last : Ident), path.getLast? = some last → last.IsRead →
      (tableName path = last.folded ↔ last.Survives)) ∧
    (∀ i : Ident, i.IsRead →
      ((∀ (w : Walk) (tables : List String), w.ctes.lookup i.folded = some tables →
        ∀ t ∈ tables, t ∈ ((Relation.table [i]).walk w).2) ↔ i.Survives)) ∧
    (∀ i : Ident, i.IsRead → i.quote = none → i.Survives) ∧
    ((∀ path ∈ q.paths, ∀ last ∈ path.getLast?, last.Survives) →
      Analysis.ofQuery q = Analysis.ofQueryBy catalogName q) := by
  refine ⟨fun path last hl hread => tableName_eq_folded_iff hl hread.isSpelled, fun i hread => ?_,
    fun i hread => hread.isSpelled.survives, fun hq => (Analysis.ofQueryBy_eq q ?_).symm⟩
  · have hlast : [i].getLast? = some i := rfl
    rw [← tableName_eq_folded_iff hlast hread.isSpelled]
    refine ⟨fun h => ?_, fun heq w tables hw t ht => ?_⟩
    · -- an expression of this name that reads a table of this name
      have hmem := h ⟨[(i.folded, [i.folded])], []⟩ [i.folded] (by simp) i.folded (by simp)
      rw [Relation.walk, Walk.mem_reads] at hmem
      by_contra hne
      rw [lookup_cons_of_ne hne] at hmem
      exact hmem.elim List.not_mem_nil (hne ∘ Eq.symm)
    · rw [Relation.walk, Walk.reads, heq, hw]
      exact NameSet.mem_insert.2 (.inl ht)
  · intro path hpath
    rw [catalogName]
    cases hl : path.getLast? with
    | none =>
      rw [List.getLast?_eq_none_iff.1 hl]
      decide
    | some last => exact (tableName_of_survives hl (hq path hpath last hl)).symm

def quotedName : String := "select * from public.\"My\"\"Table\""

theorem names_agree_quoted :
    ∃ i : Ident, i.folded = "My\"Table" ∧ i.IsRead ∧ i.Survives ∧
      tableName [⟨"public", none⟩, i] = "My\"Table" ∧
      (∀ (w : Walk) (tables : List String), w.ctes.lookup "My\"Table" = some tables →
        ∀ t ∈ tables, t ∈ ((Relation.table [i]).walk w).2) ∧
      (∃ bare : Ident, bare.quote = none ∧ bare.IsRead ∧ bare.Survives) ∧
      ∃ q, statementsOfText? quotedName = some [.query q] ∧
        (∀ path ∈ q.paths, ∀ last ∈ path.getLast?, last.Survives) ∧
        Analysis.ofQuery q = Analysis.ofQueryBy catalogName q := by
  have hread : Ident.IsRead ⟨"My\"Table", some '"'⟩ :=
    ⟨"\"My\"\"Table\"", [], [.word ⟨"My\"Table", some '"'⟩ ""], [], by decide +kernel, rfl⟩
  have hsurvives : Ident.Survives ⟨"My\"Table", some '"'⟩ := by decide +kernel
  have hother : Ident.IsRead ⟨"Other", none⟩ :=
    ⟨"Other", [], [.word ⟨"Other", none⟩ "OTHER"], [], by decide +kernel, rfl⟩
  have h : ((statementsOfText? quotedName).bind soleQuery?).any (fun q =>
      decide (∀ path ∈ q.paths, ∀ last ∈ path.getLast?, last.Survives)) = true := by
    decide +kernel
  obtain ⟨q, hs, h⟩ := exists_soleQuery h
  obtain ⟨same, reads, plain, analysis⟩ := names_agree_iff q
  refine ⟨_, rfl, hread, hsurvives, (same _ _ rfl hread).2 hsurvives,
    (reads _ hread).2 hsurvives, ⟨_, rfl, hother, plain _ hother rfl⟩, q, hs, of_decide_eq_true h,
    analysis (of_decide_eq_true h)⟩

/-- A name with a period is cut at the period although it is quoted. -/
theorem names_differ_at_period :
    ¬ ∀ (path : List Ident) (last : Ident), path.getLast? = some last → last.IsRead →
      tableName path = last.folded := by
  intro all
  have hread : Ident.IsRead ⟨"a.b", some '"'⟩ :=
    ⟨"\"a.b\"", [], [.word ⟨"a.b", some '"'⟩ ""], [], by decide +kernel, rfl⟩
  refine period_not_mem_tableName [⟨"a.b", some '"'⟩] ?_
  rw [all [⟨"a.b", some '"'⟩] ⟨"a.b", some '"'⟩ rfl hread]
  decide

end RowTypes.Sql
