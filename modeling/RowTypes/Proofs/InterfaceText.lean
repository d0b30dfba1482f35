import RowTypes.Proofs.BlockText
import RowTypes.Proofs.Headers

/-! The text of a declaration around its header. Where neither its comment nor its properties
read as the header of an interface, nothing but its own header does. -/

namespace RowTypes.Block

theorem interfaceHeader_letters {name : String} (hn : isIdentifier name = true)
    {cs rest : List Char} (h : afterInterfaceHeader name cs = some rest) :
    ∃ u, '\x7b' ∉ u ∧ 'f' ∈ u ∧ u.head? = some 'e' ∧ cs = u ++ '\x7b' :: rest ∧
      ∀ f, afterInterfaceHeader name (u ++ '\x7b' :: f) = some f := by
  obtain ⟨b₁, b₂, b₃, h₁, n₁, h₂, n₂, h₃, rfl⟩ := (afterInterfaceHeader_eq_some hn).1 h
  have hbrace {b : List Char} (hb : Blank b) : '\x7b' ∉ b := fun hm =>
    absurd (hb '\x7b' hm) (by decide)
  have hname : '\x7b' ∉ name.toList := fun hm => absurd (identifier_parts hn _ hm) (by decide)
  refine ⟨"export".toList ++ (b₁ ++ ("interface".toList ++ (b₂ ++ (name.toList ++ b₃)))),
    ?_, ?_, rfl, by simp only [List.append_assoc], ?_⟩
  · simp only [List.mem_append, not_or]
    exact ⟨by decide, hbrace h₁, by decide, hbrace h₂, hname, hbrace h₃⟩
  · simp
  · intro f
    refine (afterInterfaceHeader_eq_some hn).2 ⟨b₁, b₂, b₃, h₁, n₁, h₂, n₂, h₃, ?_⟩
    simp only [List.append_assoc]

section Interface

variable {name : String} (hn : isIdentifier name = true)

include hn

theorem interfaceHeader_blank {c : Char} (hc : Text.isBlank c = true) (cs : List Char) :
    afterInterfaceHeader name (c :: cs) = none := by
  cases h : afterInterfaceHeader name (c :: cs) with
  | none => rfl
  | some rest =>
    obtain ⟨u, -, -, hhead, hu, -⟩ := interfaceHeader_letters hn h
    obtain ⟨u, rfl⟩ := List.head?_eq_some_iff.1 hhead
    obtain ⟨rfl, -⟩ := List.cons.inj hu
    exact absurd hc (by decide)

theorem headerless_of_not_mem_letter {w : List Char} (h : 'f' ∉ w) :
    Headerless (afterInterfaceHeader name) w := by
  rintro a b rfl
  cases hb : afterInterfaceHeader name b with
  | none => rfl
  | some rest =>
    obtain ⟨u, -, hf, -, rfl, -⟩ := interfaceHeader_letters hn hb
    exact absurd (by simp [hf]) h

theorem Headerless.blank_cons {c : Char} (hc : Text.isBlank c = true) {w : List Char}
    (hw : Headerless (afterInterfaceHeader name) w) :
    Headerless (afterInterfaceHeader name) (c :: w) := by
  intro a b hab
  cases a with
  | nil =>
    rw [← List.nil_append b, ← hab]
    exact interfaceHeader_blank hn hc w
  | cons d a => exact hw a b (List.cons.inj hab).2

theorem Headerless.append_brace {v w : List Char}
    (hv : Headerless (afterInterfaceHeader name) (v ++ ['\x7b']))
    (hw : Headerless (afterInterfaceHeader name) w) :
    Headerless (afterInterfaceHeader name) (v ++ '\x7b' :: w) := by
  intro a b hab
  cases hb : afterInterfaceHeader name b with
  | none => rfl
  | some rest =>
    obtain ⟨u, hu, -, hhead, rfl, hread⟩ := interfaceHeader_letters hn hb
    rcases List.append_eq_append_iff.1 hab with ⟨m, rfl, hm⟩ | ⟨m, rfl, hm⟩
    · cases m with
      | nil =>
        obtain ⟨u, rfl⟩ := List.head?_eq_some_iff.1 hhead
        simp at hm
      | cons d m =>
        obtain ⟨-, rfl⟩ := List.cons.inj hm
        have := hw m (u ++ '\x7b' :: rest) rfl
        rw [hread] at this
        cases this
    · rcases List.append_eq_append_iff.1 hm with ⟨n, rfl, hn'⟩ | ⟨n, rfl, hn'⟩
      · cases n with
        | nil =>
          have := hv a (u ++ '\x7b' :: []) (by simp)
          rw [hread] at this
          cases this
        | cons d n =>
          obtain ⟨rfl, -⟩ := List.cons.inj hn'
          have := hv a (u ++ '\x7b' :: (n ++ ['\x7b'])) (by simp)
          rw [hread] at this
          cases this
      · cases n with
        | nil =>
          have := hv a (m ++ [] ++ '\x7b' :: []) (by simp)
          rw [hread] at this
          cases this
        | cons d n =>
          obtain ⟨rfl, -⟩ := List.cons.inj hn'
          simp at hu

/-! The header of a declaration -/

def lastWord (cs : List Char) : List Char :=
  (cs.reverse.dropWhile Text.isBlank).takeWhile (!Text.isBlank ·)

omit hn in
theorem lastWord_append {v w b : List Char} (hv : v.getLast?.all Text.isBlank = true)
    (hne : w ≠ []) (hw : ∀ c ∈ w, Text.isBlank c = false) (hb : Blank b) :
    lastWord (v ++ (w ++ b)) = w.reverse := by
  obtain ⟨w', c, rfl⟩ := (List.eq_nil_or_concat w).resolve_left hne
  rw [List.concat_eq_append] at hw ⊢
  have hc : Text.isBlank c = false := hw c (by simp)
  have hreverse : (v ++ (w' ++ [c] ++ b)).reverse =
      b.reverse ++ ((w' ++ [c]).reverse ++ v.reverse) := by
    simp only [List.reverse_append, List.append_assoc]
  rw [lastWord, hreverse, dropWhile_append_stop (fun d hd => hb d (List.mem_reverse.1 hd))
    (by simp [hc])]
  refine takeWhile_append_stop (fun d hd => ?_) ?_
  · simp [hw d (List.mem_reverse.1 hd)]
  · rw [List.head?_reverse]
    simpa using hv

omit hn in
theorem append_cons_eq_concat {x y w : List Char} {c : Char} (hw : c ∉ w)
    (h : x ++ c :: y = w ++ [c]) : x = w ∧ y = [] := by
  rcases List.append_eq_append_iff.1 h with ⟨m, rfl, hm⟩ | ⟨m, rfl, hm⟩
  · cases m with
    | nil => simpa using hm
    | cons d m =>
      obtain ⟨rfl, -⟩ := List.cons.inj hm
      simp at hw
  · cases m with
    | nil => simpa using hm.symm
    | cons d m => simp at hm

def interfaceLine (other : String) : String := "export interface " ++ (other ++ " ")

omit hn in
theorem interfaceLine_toList (other : String) : (interfaceLine other).toList =
    "export interface ".toList ++ (other.toList ++ " ".toList) := by
  change ("export interface " ++ (other ++ " ")).toList = _
  rw [String.toList_append, String.toList_append]

theorem headerless_interfaceLine {other : String} (ho : isIdentifier other = true)
    (hne : other ≠ name) :
    Headerless (afterInterfaceHeader name) ("\n  ".toList ++ ((interfaceLine other).toList ++ ['\x7b'])) := by
  intro a b hab
  cases hb : afterInterfaceHeader name b with
  | none => rfl
  | some rest =>
    have hword {n : String} (h : isIdentifier n = true) :
        n.toList ≠ [] ∧ ∀ c ∈ n.toList, Text.isBlank c = false := by
      refine ⟨fun hnil => by simp [isIdentifier, hnil] at h, fun c hc => ?_⟩
      exact isBlank_identifierPart (identifier_parts h c hc)
    obtain ⟨b₁, b₂, b₃, h₁, n₁, h₂, n₂, h₃, rfl⟩ := (afterInterfaceHeader_eq_some hn).1 hb
    have hbrace : '\x7b' ∉ "\n  ".toList ++ (interfaceLine other).toList := by
      simp only [interfaceLine_toList, List.mem_append, not_or]
      exact ⟨by decide, by decide, fun hm => absurd (identifier_parts ho _ hm) (by decide),
        by decide⟩
    obtain ⟨htext, -⟩ := append_cons_eq_concat (c := '\x7b') (y := rest)
      (x := (a ++ ("export".toList ++ (b₁ ++ ("interface".toList ++ b₂)))) ++ (name.toList ++ b₃))
      hbrace (by simp only [List.append_assoc] at hab ⊢; exact hab.symm)
    -- both headers end in the same word
    have hread := lastWord_append (v := a ++ ("export".toList ++ (b₁ ++ ("interface".toList ++ b₂))))
      (b := b₃) ?_ (hword hn).1 (hword hn).2 h₃
    · have hline := lastWord_append (v := "\n  export interface ".toList) (b := " ".toList)
        (by decide) (hword ho).1 (hword ho).2 (List.all_eq_true.1 (by decide))
      have hsplit : "\n  ".toList ++ (interfaceLine other).toList =
          "\n  export interface ".toList ++ (other.toList ++ " ".toList) := by
        have hline : "\n  export interface ".toList =
            "\n  ".toList ++ "export interface ".toList := rfl
        rw [interfaceLine_toList, ← List.append_assoc]
        exact congrArg (· ++ (other.toList ++ " ".toList)) hline.symm
      rw [htext, hsplit, hline, List.reverse_inj] at hread
      exact absurd (String.toList_injective hread) hne
    · obtain ⟨b₂, c, rfl⟩ := (List.eq_nil_or_concat b₂).resolve_left n₂
      rw [List.concat_eq_append] at h₂ ⊢
      simp only [← List.append_assoc, List.getLast?_concat, Option.all_some]
      exact h₂ c (by simp)

end Interface

end RowTypes.Block

namespace RowTypes
open Block

/-! The parts of a declaration -/

theorem not_infix_append_cons {m v w : List Char} {c : Char} (hc : c ∉ m) (hv : ¬m <:+: v)
    (hw : ¬m <:+: w) : ¬m <:+: v ++ c :: w := by
  have hne : m ≠ [] := by
    rintro rfl
    exact hv List.nil_infix
  rintro ⟨s, t, h⟩
  rw [List.append_assoc] at h
  rcases List.append_eq_append_iff.1 h with ⟨x, rfl, hx⟩ | ⟨x, rfl, hx⟩
  · rcases List.append_eq_append_iff.1 hx with ⟨y, rfl, -⟩ | ⟨y, rfl, hy⟩
    · exact hv ⟨s, y, by simp⟩
    · cases y with
      | nil => exact hv ⟨s, [], by simp⟩
      | cons d y =>
        obtain ⟨rfl, -⟩ := List.cons.inj hy
        simp at hc
  · cases x with
    | nil =>
      obtain ⟨d, m, rfl⟩ := List.exists_cons_of_ne_nil hne
      obtain ⟨rfl, -⟩ := List.cons.inj hx
      simp at hc
    | cons d x =>
      obtain ⟨-, rfl⟩ := List.cons.inj hx
      exact hw ⟨x, t, by simp⟩

/-- A query whose comment has no header of an interface and begins no other comment. -/
structure NeutralQuery (sql : String) : Prop where
  header : ∀ name, isIdentifier name = true →
    Headerless (afterInterfaceHeader name) (queryDoc sql).toList
  comment : ¬['/', '*', '*'] <:+: (queryDoc sql).toList

namespace Declaration

/-- A declaration whose comments and properties do not read as the header of the interface
`name`. -/
structure Silent (defaultType name : String) (d : Declaration) : Prop where
  queries : ∀ q ∈ d.queries, Headerless (afterInterfaceHeader name) (queryDoc q.sql).toList
  properties : ∀ c ∈ d.columns,
    Headerless (afterInterfaceHeader name) (property defaultType "  " c).toList

structure Neutral (defaultType : String) (d : Declaration) : Prop where
  queries : ∀ q ∈ d.queries, NeutralQuery q.sql
  properties : ∀ c ∈ d.columns, ∀ name, isIdentifier name = true →
    Headerless (afterInterfaceHeader name) (property defaultType "  " c).toList

theorem Neutral.silent {defaultType : String} {d : Declaration} (h : d.Neutral defaultType)
    {name : String} (hn : isIdentifier name = true) : d.Silent defaultType name where
  queries q hq := (h.queries q hq).header name hn
  properties c hc := h.properties c hc name hn

def commentItem (doc : String) : String := "   * - \x60" ++ doc ++ "\x60\n"

def commentInside (d : Declaration) : String :=
  match d.queries.map fun q => queryDoc q.sql with
  | [single] => " - query: \x60" ++ single ++ "\x60 "
  | many => "\n   * queries:\n" ++ String.join (many.map commentItem) ++ "   "

theorem queriesDoc_eq (d : Declaration) :
    d.queriesDoc "  " = "  /**" ++ (d.commentInside ++ "*/\n") := by
  apply String.toList_injective
  rw [queriesDoc, commentInside]
  generalize (d.queries.map fun q => queryDoc q.sql) = docs
  have hitem : (fun q => "  " ++ " * - \x60" ++ q ++ "\x60\n") = commentItem := by
    funext q
    apply String.toList_injective
    simp [commentItem]
  rw [hitem]
  split
  · simp
  · simp

theorem commentInside_of {P : List Char → Prop} (hclear : ∀ w, '\x7b' ∉ w → '/' ∉ w → P w)
    (hjoin : ∀ c, c = '\x60' ∨ c = ':' → ∀ v w, P v → P w → P (v ++ c :: w))
    (hline : ∀ w, P w → P ('\n' :: w)) {d : Declaration}
    (hq : ∀ q ∈ d.queries, P (queryDoc q.sql).toList) : P d.commentInside.toList := by
  have hdocs : ∀ doc ∈ d.queries.map fun q => queryDoc q.sql, P doc.toList := by
    intro doc hdoc
    obtain ⟨q, hmem, rfl⟩ := List.mem_map.1 hdoc
    exact hq q hmem
  have hquoted (v w : List Char) {doc : String} (hv : '\x7b' ∉ v ∧ '/' ∉ v)
      (hdoc : P doc.toList) (hw : P w) : P (v ++ '\x60' :: (doc.toList ++ '\x60' :: w)) :=
    hjoin _ (.inl rfl) _ _ (hclear _ hv.1 hv.2) (hjoin _ (.inl rfl) _ _ hdoc hw)
  have hitems (docs : List String) (h : ∀ doc ∈ docs, P doc.toList) :
      P ('\n' :: (String.join (docs.map commentItem) ++ "   ").toList) := by
    induction docs with
    | nil => exact hclear _ (by decide) (by decide)
    | cons doc docs ih =>
      rw [List.forall_mem_cons] at h
      have := hline _ (hquoted "   * - ".toList _ (by decide) h.1 (ih h.2))
      simpa [commentItem] using this
  rw [commentInside]
  generalize (d.queries.map fun q => queryDoc q.sql) = docs at hdocs
  split
  · rename_i single
    have := hquoted " - query: ".toList " ".toList (by decide)
      (hdocs single (by simp)) (hclear _ (by decide) (by decide))
    simpa using this
  · have := hjoin ':' (.inr rfl) "\n   * queries".toList _ (hclear _ (by decide) (by decide))
      (hitems docs hdocs)
    simpa using this

theorem headerless_commentInside {name : String} (hn : isIdentifier name = true) {d : Declaration}
    (h : ∀ q ∈ d.queries, Headerless (afterInterfaceHeader name) (queryDoc q.sql).toList) :
    Headerless (afterInterfaceHeader name) d.commentInside.toList := by
  refine commentInside_of (fun w hw _ => headerless_of_not_mem (local_interfaceHeader hn) hw) ?_
    (fun w hw => Headerless.blank_cons hn (by decide) hw) h
  rintro c (rfl | rfl) v w hv hw
  · exact hv.append_cons (local_interfaceHeader hn) (by decide) hw
  · exact hv.append_cons (local_interfaceHeader hn) (by decide) hw

theorem commentInside_opens {d : Declaration}
    (h : ∀ q ∈ d.queries, ¬['/', '*', '*'] <:+: (queryDoc q.sql).toList) :
    ¬['/', '*', '*'] <:+: d.commentInside.toList := by
  refine commentInside_of (P := fun w => ¬['/', '*', '*'] <:+: w) ?_ ?_ ?_ h
  · intro w _ hw hm
    exact hw (hm.subset (by simp))
  · rintro c (rfl | rfl) v w hv hw
    · exact not_infix_append_cons (by decide) hv hw
    · exact not_infix_append_cons (by decide) hv hw
  · intro w hw
    exact not_infix_append_cons (v := []) (by decide) (by decide) hw

theorem commentInside_end (d : Declaration) : ∃ w, d.commentInside.toList = w ++ [' '] := by
  have hblanks : "   ".toList = "  ".toList ++ [' '] := rfl
  have hquote : "\x60 ".toList = ['\x60'] ++ [' '] := rfl
  rw [commentInside]
  split
  · exact ⟨_, by rw [String.toList_append, hquote, ← List.append_assoc]⟩
  · exact ⟨_, by rw [String.toList_append, hblanks, ← List.append_assoc]⟩

/-! The rest of a declaration -/

def body (defaultType : String) (d : Declaration) : String :=
  String.intercalate "\n" (d.columns.map (property defaultType "  ")) ++ "\n  \x7d"

theorem render_toList (defaultType : String) (d : Declaration) :
    (d.render defaultType "  ").toList = "  ".toList ++ '/' :: ("**".toList ++
      (d.commentInside.toList ++ '*' :: '/' :: ("\n  ".toList ++ ((interfaceLine d.name).toList ++
        '\x7b' :: (d.body defaultType).toList)))) := by
  rw [render, queriesDoc_eq, interfaceLine_toList, body]
  simp

theorem property_toList (defaultType : String) (c : Column) :
    ∃ w, (property defaultType "  " c).toList = "\n    ".toList ++ '/' :: w := by
  refine ⟨("** " ++ c.doc ++ " */\n    " ++ propertyName c.name ++ ": " ++
    c.propertyType defaultType).toList, ?_⟩
  unfold property
  simp

theorem headerless_properties {name : String} (hn : isIdentifier name = true)
    {defaultType : String} {cs : List Column} (h : ∀ c ∈ cs,
      Headerless (afterInterfaceHeader name) (property defaultType "  " c).toList) :
    Headerless (afterInterfaceHeader name)
      (String.intercalate "\n" (cs.map (property defaultType "  "))).toList := by
  have hl := local_interfaceHeader hn
  induction cs with
  | nil => exact headerless_of_not_mem hl (by simp)
  | cons c cs ih =>
    rw [List.forall_mem_cons] at h
    cases cs with
    | nil => simpa using h.1
    | cons c' cs =>
      have hrest := ih h.2
      obtain ⟨w, hw⟩ := property_toList defaultType c'
      obtain ⟨v, hv⟩ : ∃ v, (String.intercalate "\n"
          ((c' :: cs).map (property defaultType "  "))).toList = "\n    ".toList ++ '/' :: v := by
        rw [String.toList_intercalate, List.map_cons, List.map_cons, List.map_map]
        cases cs with
        | nil => exact ⟨w, by simpa using hw⟩
        | cons c'' cs => exact ⟨_, by simp [hw]; rfl⟩
      rw [hv] at hrest
      -- the slash of the next comment cuts the texts apart
      have := (h.1.append_of_not_mem hl (w := "\n\n    ".toList) (by decide)).append_cons hl
        (c := '/') (by decide) (hrest.of_infix hl (v := v) ⟨"\n    ".toList ++ ['/'], [], by simp⟩)
      have hjoin : (String.intercalate "\n"
          ((c :: c' :: cs).map (property defaultType "  "))).toList =
          (property defaultType "  " c).toList ++ "\n".toList ++ (String.intercalate "\n"
            ((c' :: cs).map (property defaultType "  "))).toList := by
        simp [String.toList_intercalate]
      rw [hjoin, hv]
      simpa using this

theorem headerless_body {name : String} (hn : isIdentifier name = true) {defaultType : String}
    {d : Declaration} (h : d.Silent defaultType name) :
    Headerless (afterInterfaceHeader name) (d.body defaultType).toList := by
  rw [body, String.toList_append]
  exact (headerless_properties hn h.properties).append_of_not_mem (local_interfaceHeader hn)
    (by decide)

theorem headerless_render {name : String} (hn : isIdentifier name = true) {defaultType : String}
    {d : Declaration} (h : d.Silent defaultType name) (hd : isIdentifier d.name = true)
    (hne : d.name ≠ name) {v : List Char} (hv : Headerless (afterInterfaceHeader name) v) :
    Headerless (afterInterfaceHeader name) (v ++ '\n' :: (d.render defaultType "  ").toList) := by
  have hl := local_interfaceHeader hn
  have hline := Headerless.append_brace hn
    (v := "\n  ".toList ++ (interfaceLine d.name).toList) (w := (d.body defaultType).toList)
    (by simpa using headerless_interfaceLine hn hd hne) (headerless_body hn h)
  have hopening := (headerless_of_not_mem hl (w := ['*']) (by decide)).append_cons hl (c := '*')
    (by decide) (headerless_commentInside hn h.queries)
  have hcomment := (hopening.append_of_not_mem hl (w := ['*']) (by decide)).append_cons hl
    (c := '/') (by decide) hline
  have := (hv.append_of_not_mem hl (w := "\n  ".toList) (by decide)).append_cons hl (c := '/')
    (by decide) hcomment
  rw [render_toList]
  simpa using this

end Declaration
end RowTypes
