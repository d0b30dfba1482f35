import Mathlib.Tactic.SplitIfs
import RowTypes.Declaration

/-! What is written for a property tells its column. A text between quotes ends at the first quote
that is not escaped, so it is read in one way from any text that it begins. The last character of
a type tells whether that is a word, an enum or an array. -/

namespace RowTypes

section Quoted

theorem escapeLiteral_append_inj {a b x y : List Char}
    (h : escapeLiteral a ++ '\'' :: x = escapeLiteral b ++ '\'' :: y) : a = b ∧ x = y := by
  induction a generalizing b with
  | nil =>
    cases b with
    | nil => exact ⟨rfl, (List.cons.inj h).2⟩
    | cons d b =>
      rw [escapeLiteral, escapeLiteral] at h
      split at h
      · exact absurd (List.cons.inj h).1 (by decide)
      · rename_i hd
        exact absurd (.inr (List.cons.inj h).1.symm) hd
  | cons c a ih =>
    cases b with
    | nil =>
      rw [escapeLiteral, escapeLiteral] at h
      split at h
      · exact absurd (List.cons.inj h).1 (by decide)
      · rename_i hc
        exact absurd (.inr (List.cons.inj h).1) hc
    | cons d b =>
      -- an escaped character cannot be one that stands for itself, for that is no backslash
      suffices c = d ∧ escapeLiteral a ++ '\'' :: x = escapeLiteral b ++ '\'' :: y by
        obtain ⟨rfl, hrest⟩ := this
        obtain ⟨rfl, hxy⟩ := ih hrest
        exact ⟨rfl, hxy⟩
      rw [escapeLiteral, escapeLiteral] at h
      split_ifs at h with hc hd hd
      · exact List.cons.inj (List.cons.inj h).2
      · exact absurd (.inl (List.cons.inj h).1.symm) hd
      · exact absurd (.inl (List.cons.inj h).1) hc
      · exact List.cons.inj h

theorem quoteLiteral_append_inj {a b : String} {x y : List Char}
    (h : (quoteLiteral a).toList ++ x = (quoteLiteral b).toList ++ y) : a = b ∧ x = y := by
  simp only [toList_quoteLiteral, List.cons_append, List.append_assoc,
    List.nil_append] at h
  obtain ⟨hab, hxy⟩ := escapeLiteral_append_inj (List.cons.inj h).2
  exact ⟨String.toList_injective hab, hxy⟩

end Quoted

namespace HostType

/-- Every part of the type could be determined, and none has a configured text. -/
def isDetermined : HostType → Bool
  | array element => element.isDetermined
  | custom _ | unknown => false
  | _ => true

variable {d : String} {t t' : HostType}

/-! Words -/

def word? : HostType → Option String
  | number => some "number"
  | string => some "string"
  | boolean => some "boolean"
  | bigint => some "bigint"
  | date => some "Date"
  | json => some "unknown"
  | buffer => some "Buffer"
  | union [] => some "never"
  | array _ | union (_ :: _) | custom _ | unknown => none

def ofWord (w : String) : HostType :=
  match w with
  | "number" => number
  | "string" => string
  | "boolean" => boolean
  | "bigint" => bigint
  | "Date" => date
  | "unknown" => json
  | "Buffer" => buffer
  | _ => union []

theorem render_of_word? {w : String} (h : t.word? = some w) : t.render d = w := by
  unfold word? at h
  split at h <;> cases h <;> rfl

theorem ofWord_of_word? {w : String} (h : t.word? = some w) : ofWord w = t := by
  unfold word? at h
  split at h <;> cases h <;> rfl

theorem word?_getLast? {w : String} (h : t.word? = some w) :
    w.toList.getLast?.any (fun c => c.isAlpha && c ≠ 'l') = true := by
  unfold word? at h
  split at h <;> cases h <;> decide

/-! Enums -/

def alternatives (labels : List String) : List Char :=
  labels.flatMap fun l => " | ".toList ++ (quoteLiteral l).toList

theorem render_union (l : String) (ls : List String) :
    ((union (l :: ls)).render d).toList = (quoteLiteral l).toList ++ alternatives ls := by
  rw [render, String.toList_intercalate]
  · induction ls generalizing l with
    | nil => simp [alternatives]
    | cons m ls ih =>
      have h := ih m
      simp only [List.map_cons] at h ⊢
      rw [List.intercalate_cons_cons, h]
      simp [alternatives]
  · nofun

theorem alternatives_injective : Function.Injective alternatives := by
  intro ls ls' h
  induction ls generalizing ls' with
  | nil =>
    cases ls' with
    | nil => rfl
    | cons l' ls' => simp [alternatives] at h
  | cons l ls ih =>
    cases ls' with
    | nil => simp [alternatives] at h
    | cons l' ls' =>
      simp only [alternatives, List.flatMap_cons, List.append_assoc,
        List.append_cancel_left_eq] at h
      obtain ⟨rfl, hrest⟩ := quoteLiteral_append_inj h
      rw [ih hrest]

theorem getLast?_alternatives (l : String) (ls : List String) :
    ((quoteLiteral l).toList ++ alternatives ls).getLast? = some '\'' := by
  induction ls generalizing l with
  | nil => simp [alternatives, toList_quoteLiteral, List.getLast?_cons]
  | cons m ls ih =>
    have hsplit : (quoteLiteral l).toList ++ alternatives (m :: ls) =
        ((quoteLiteral l).toList ++ " | ".toList) ++
          ((quoteLiteral m).toList ++ alternatives ls) := by
      simp [alternatives]
    rw [hsplit, List.getLast?_append, ih m]
    rfl

/-! The last character -/

def mark? : HostType → Option Char
  | array element => if element.isEnclosed then some '>' else some ']'
  | union (_ :: _) => some '\''
  | _ => none

theorem getLast?_of_mark? {c : Char} (h : t.mark? = some c) :
    (t.render d).toList.getLast? = some c := by
  unfold mark? at h
  split at h
  · rename_i element
    rw [render]
    split at h <;> rename_i he <;> cases h
    · rw [if_pos he, String.toList_append, List.getLast?_append]
      rfl
    · rw [if_neg he, String.toList_append, List.getLast?_append]
      rfl
  · cases h
    rw [render_union, getLast?_alternatives]
  · cases h

theorem word_or_mark (h : t.isDetermined = true) :
    (∃ w, t.word? = some w) ∨ ∃ c, t.mark? = some c ∧ c.isAlpha = false := by
  cases t with
  | array element =>
    refine .inr ?_
    rw [mark?]
    split
    · exact ⟨'>', rfl, rfl⟩
    · exact ⟨']', rfl, rfl⟩
  | union labels =>
    cases labels with
    | nil => exact .inl ⟨_, rfl⟩
    | cons l ls => exact .inr ⟨'\'', rfl, rfl⟩
  | custom | unknown => exact nomatch h
  | _ => exact .inl ⟨_, rfl⟩

theorem getLast?_ne (h : t.isDetermined = true) : (t.render d).toList.getLast? ≠ some 'l' := by
  intro hl
  rcases word_or_mark h with ⟨w, hw⟩ | ⟨c, hc, halpha⟩
  · have := word?_getLast? hw
    rw [render_of_word? hw] at hl
    rw [hl] at this
    exact nomatch this
  · rw [getLast?_of_mark? hc] at hl
    cases hl
    exact nomatch halpha

theorem mark?_eq (h : t.isDetermined = true) (h' : t'.isDetermined = true)
    (heq : t.render d = t'.render d) : t = t' ∨ ∃ c, t.mark? = some c ∧ t'.mark? = some c := by
  rcases word_or_mark h with ⟨w, hw⟩ | ⟨c, hc, halpha⟩ <;>
    rcases word_or_mark h' with ⟨w', hw'⟩ | ⟨c', hc', halpha'⟩
  · rw [render_of_word? hw, render_of_word? hw'] at heq
    rw [← ofWord_of_word? hw, ← ofWord_of_word? hw', heq]
    exact .inl rfl
  · have := word?_getLast? hw
    rw [← render_of_word? (d := d) hw, heq, getLast?_of_mark? hc'] at this
    simp [halpha'] at this
  · have := word?_getLast? hw'
    rw [← render_of_word? (d := d) hw', ← heq, getLast?_of_mark? hc] at this
    simp [halpha] at this
  · have hlast := getLast?_of_mark? (d := d) hc
    rw [heq, getLast?_of_mark? hc'] at hlast
    exact .inr ⟨c, hc, hlast ▸ hc'⟩

theorem eq_of_render_eq (h : t.isDetermined = true) (h' : t'.isDetermined = true)
    (heq : t.render d = t'.render d) : t = t' := by
  induction t generalizing t' with
  | array element ih =>
    obtain rfl | ⟨c, hc, hc'⟩ := mark?_eq h h' heq
    · rfl
    cases t' with
    | array element' =>
      rw [isDetermined] at h h'
      rw [mark?] at hc hc'
      rw [render, render] at heq
      split_ifs at hc hc' heq with he he'
      · rw [ih h h' (by simpa using heq)]
      · exact absurd (hc'.trans hc.symm) (by decide)
      · exact absurd (hc'.trans hc.symm) (by decide)
      · rw [ih h h' (by simpa using heq)]
    | union labels =>
      cases labels with
      | nil => exact nomatch hc'
      | cons l ls =>
        simp only [mark?] at hc hc'
        split_ifs at hc <;> exact absurd (hc'.trans hc.symm) (by decide)
    | _ => exact nomatch hc'
  | union labels =>
    obtain rfl | ⟨c, hc, hc'⟩ := mark?_eq h h' heq
    · rfl
    cases labels with
    | nil => exact nomatch hc
    | cons l ls =>
      cases t' with
      | array element' =>
        simp only [mark?] at hc hc'
        split_ifs at hc' <;> exact absurd (hc'.trans hc.symm) (by decide)
      | union labels' =>
        cases labels' with
        | nil => exact nomatch hc'
        | cons l' ls' =>
          have hlist := congrArg String.toList heq
          rw [render_union, render_union] at hlist
          obtain ⟨rfl, hrest⟩ := quoteLiteral_append_inj hlist
          rw [alternatives_injective hrest]
      | _ => exact nomatch hc'
  | _ =>
    obtain rfl | ⟨c, hc, -⟩ := mark?_eq h h' heq
    · rfl
    · exact nomatch hc

end HostType

/-! Names -/

theorem exists_of_isIdentifier {s : String} (h : isIdentifier s = true) :
    ∃ c cs, s.toList = c :: cs ∧ c ≠ '\'' ∧ ∀ e ∈ c :: cs, decide (e ≠ ':') = true := by
  unfold isIdentifier at h
  split at h
  · cases h
  · rename_i c cs hcs
    rw [Bool.and_eq_true, List.all_eq_true] at h
    refine ⟨c, cs, hcs, ?_, ?_⟩
    · rintro rfl
      exact absurd h.1 (by decide)
    · intro e hmem
      rw [decide_eq_true_eq]
      rintro rfl
      rcases List.mem_cons.1 hmem with rfl | hmem
      · exact absurd h.1 (by decide)
      · exact absurd (h.2 _ hmem) (by decide)

theorem identifier_append_ne {a b : String} (ha : isIdentifier a = true) (x y : List Char) :
    a.toList ++ x ≠ (quoteLiteral b).toList ++ y := by
  obtain ⟨c, cs, hcs, hne, -⟩ := exists_of_isIdentifier ha
  rw [hcs, toList_quoteLiteral]
  exact fun h => hne (List.cons.inj h).1

theorem identifier_append_inj {a b : String} (ha : isIdentifier a = true)
    (hb : isIdentifier b = true) {x y : List Char}
    (h : a.toList ++ ':' :: x = b.toList ++ ':' :: y) : a = b ∧ x = y := by
  have before {s : String} (hs : isIdentifier s = true) (z : List Char) :
      (s.toList ++ ':' :: z).takeWhile (· ≠ ':') = s.toList := by
    obtain ⟨c, cs, hcs, -, hcolon⟩ := exists_of_isIdentifier hs
    rw [hcs, List.takeWhile_append_of_pos hcolon, List.takeWhile_cons_of_neg (by simp),
      List.append_nil]
  have hname : a.toList = b.toList := by rw [← before ha x, ← before hb y, h]
  rw [hname, List.append_cancel_left_eq] at h
  exact ⟨String.toList_injective hname, (List.cons.inj h).2⟩

theorem propertyName_append_inj {a b : String} {x y : List Char}
    (h : (propertyName a).toList ++ ':' :: x = (propertyName b).toList ++ ':' :: y) :
    a = b ∧ x = y := by
  unfold propertyName at h
  split_ifs at h with ha hb hb
  · exact identifier_append_inj ha hb h
  · exact absurd h (identifier_append_ne ha _ _)
  · exact absurd h.symm (identifier_append_ne hb _ _)
  · obtain ⟨rfl, hrest⟩ := quoteLiteral_append_inj h
    exact ⟨rfl, (List.cons.inj hrest).2⟩

theorem propertyName_injective : Function.Injective propertyName := fun a b h =>
  (propertyName_append_inj (x := []) (y := []) (by rw [h])).1

namespace Column

variable {d : String} {c c' : Column}

theorem propertyType_inj (h : c.hostType.isDetermined = true) (h' : c'.hostType.isDetermined = true)
    (heq : c.propertyType d = c'.propertyType d) :
    c.notNull = c'.notNull ∧ c.hostType = c'.hostType := by
  have null {t t' : HostType} (ht : t.isDetermined = true) :
      t.render d ≠ t'.render d ++ " | null" := by
    intro h
    apply HostType.getLast?_ne (d := d) ht
    rw [h, String.toList_append, List.getLast?_append]
    rfl
  unfold propertyType at heq
  cases hn : c.notNull <;> cases hn' : c'.notNull <;>
    simp only [hn, hn', if_true, Bool.false_eq_true, if_false] at heq
  · exact ⟨rfl, HostType.eq_of_render_eq h h' (by simpa using heq)⟩
  · exact absurd heq.symm (null h')
  · exact absurd heq (null h)
  · exact ⟨rfl, HostType.eq_of_render_eq h h' heq⟩

end Column

/-- Types without an undetermined or a configured part are written alike only if they are equal, and
so are names. Hence two columns of such types have the same property if and only if grouping takes
them for the same. -/
theorem properties_eq_iff (defaultType : String) :
    (∀ t t' : HostType, t.isDetermined = true → t'.isDetermined = true →
      (t.render defaultType = t'.render defaultType ↔ t = t')) ∧
    Function.Injective propertyName ∧
    ∀ c c' : Column, c.hostType.isDetermined = true → c'.hostType.isDetermined = true →
      (propertyName c.name ++ ": " ++ c.propertyType defaultType =
        propertyName c'.name ++ ": " ++ c'.propertyType defaultType ↔ c.shape = c'.shape) := by
  refine ⟨fun t t' h h' => ⟨HostType.eq_of_render_eq h h', fun heq => by rw [heq]⟩,
    propertyName_injective, fun c c' h h' => ⟨fun heq => ?_, fun heq => ?_⟩⟩
  · have hlist := congrArg String.toList heq
    simp only [String.toList_append, List.append_assoc] at hlist
    obtain ⟨hname, hrest⟩ := propertyName_append_inj hlist
    have htype : c.propertyType defaultType = c'.propertyType defaultType :=
      String.toList_injective (List.cons.inj hrest).2
    obtain ⟨hnull, ht⟩ := Column.propertyType_inj h h' htype
    rw [Column.shape, Column.shape, hname, hnull, ht]
  · obtain ⟨hname, hnull, ht⟩ := ShapeColumn.mk.inj heq
    rw [Column.propertyType, Column.propertyType, hname, hnull, ht]

def moodColumn (labels : List String) : Column :=
  ⟨"mood?", false, "_mood", "mood[]", .array (.union labels), none⟩

/-- One label can look like two, but is not written like them. -/
theorem properties_eq_iff_moods :
    (moodColumn ["a' | 'b"]).hostType.isDetermined = true ∧
      (moodColumn ["a", "b"]).hostType.isDetermined = true ∧
      propertyName "mood?" ++ ": " ++ (moodColumn ["a' | 'b"]).propertyType "unknown" ≠
        propertyName "mood?" ++ ": " ++ (moodColumn ["a", "b"]).propertyType "unknown" ∧
      (moodColumn ["a' | 'b"]).hostType.render "unknown" ≠
        (moodColumn ["a", "b"]).hostType.render "unknown" := by
  obtain ⟨types, -, columns⟩ := properties_eq_iff "unknown"
  refine ⟨rfl, rfl, fun h => ?_, fun h => ?_⟩
  · have := (columns (moodColumn ["a' | 'b"]) (moodColumn ["a", "b"]) rfl rfl).1 h
    exact absurd this (by decide)
  · exact absurd ((types _ _ rfl rfl).1 h) (by decide)

end RowTypes
