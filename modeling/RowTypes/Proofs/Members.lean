import RowTypes.Proofs.Interfaces

/-! The members of an interface, read back from its text line by line. A comment on an interface or
on a member is read past, since what it quotes has no line feed in it. -/

namespace RowTypes

/-! Text on one line -/

theorem mem_replaceAll {old new cs : List Char} {c : Char} (h : c ∈ replaceAll old new cs) :
    c ∈ new ∨ c ∈ cs := by
  fun_induction replaceAll old new cs with
  | case1 => exact .inr h
  | case2 d rest _ ih =>
    rcases List.mem_append.1 h with h | h
    · exact .inl h
    · exact (ih h).imp_right fun hm => List.mem_cons_of_mem _ (List.mem_of_mem_drop hm)
  | case3 d rest _ ih =>
    rcases List.mem_cons.1 h with rfl | h
    · exact .inr List.mem_cons_self
    · exact (ih h).imp_right (List.mem_cons_of_mem _)

theorem mem_cutMiddle {cs : List Char} {c : Char} (h : c ∈ cutMiddle cs) :
    c ∈ "... [truncated] ...".toList ∨ c ∈ cs := by
  rw [cutMiddle] at h
  split at h
  · rw [List.mem_append, List.mem_append] at h
    rcases h with (h | h) | h
    · exact .inr (List.mem_of_mem_take h)
    · exact .inl h
    · exact .inr (List.mem_of_mem_drop h)
  · exact .inr h

theorem Text.isBlank_of_mem_words {cs w : List Char} (hw : w ∈ words cs) :
    ∀ c ∈ w, isBlank c = false := by
  have hsplit : ∀ v ∈ cs.splitOnP isBlank, ∀ c ∈ v, isBlank c = false := by
    clear hw
    induction cs with
    | nil => simp
    | cons d cs ih =>
      rw [List.splitOnP_cons_eq_if_modifyHead]
      split
      · simpa using ih
      · rename_i hd
        cases hcs : cs.splitOnP isBlank with
        | nil => simp
        | cons v vs =>
          rw [hcs, List.forall_mem_cons] at ih
          rw [List.modifyHead_cons, List.forall_mem_cons]
          refine ⟨?_, ih.2⟩
          rw [List.forall_mem_cons]
          exact ⟨Bool.not_eq_true _ ▸ hd, ih.1⟩
  exact hsplit w (List.mem_of_mem_filter hw)

theorem mem_flatten_intersperse {α : Type} {s : List α} {ws : List (List α)} {a : α}
    (h : a ∈ (ws.intersperse s).flatten) : a ∈ s ∨ ∃ w ∈ ws, a ∈ w := by
  induction ws with
  | nil => simp at h
  | cons w ws ih =>
    cases ws with
    | nil => exact .inr ⟨w, by simpa using h⟩
    | cons v ws =>
      rw [List.intersperse_cons_cons, List.flatten_cons, List.flatten_cons, List.mem_append,
        List.mem_append] at h
      rcases h with h | h | h
      · exact .inr ⟨w, List.mem_cons_self, h⟩
      · exact .inl h
      · exact (ih h).imp_right fun ⟨u, hu, ha⟩ => ⟨u, List.mem_cons_of_mem _ hu, ha⟩

theorem lineFeed_not_mem_queryDoc (sql : String) : '\n' ∉ (queryDoc sql).toList := by
  intro h
  rw [queryDoc, String.toList_ofList, escapeDoc] at h
  have h := (mem_replaceAll h).resolve_left (by decide)
  have h := (mem_replaceAll h).resolve_left (by decide)
  have h := (mem_cutMiddle h).resolve_left (by decide)
  obtain ⟨w, hw, hmem⟩ := (mem_flatten_intersperse h).resolve_left (by decide)
  exact absurd (Text.isBlank_of_mem_words hw _ hmem) (by decide)

theorem lineFeed_not_mem_escapeLiteral {cs : List Char} (h : '\n' ∉ cs) :
    '\n' ∉ escapeLiteral cs := by
  induction cs with
  | nil => exact h
  | cons c cs ih =>
    rw [List.mem_cons, not_or] at h
    rw [escapeLiteral]
    split
    · simp [h.1, ih h.2]
    · simp [h.1, ih h.2]

theorem lineFeed_not_mem_quoteLiteral {s : String} (h : '\n' ∉ s.toList) :
    '\n' ∉ (quoteLiteral s).toList := by
  simp [quoteLiteral, lineFeed_not_mem_escapeLiteral h]

theorem lineFeed_not_mem_identifier {name : String} (h : isIdentifier name = true) :
    '\n' ∉ name.toList := fun hm => absurd (Block.identifier_parts h _ hm) (by decide)

theorem lineFeed_not_mem_propertyName {name : String} (h : Unbroken name) :
    '\n' ∉ (propertyName name).toList := by
  rw [propertyName]
  split
  · rename_i hn
    exact lineFeed_not_mem_identifier hn
  · exact lineFeed_not_mem_quoteLiteral h.1

theorem lineFeed_not_mem_intercalate {s : String} (hs : '\n' ∉ s.toList) {ts : List String}
    (h : ∀ t ∈ ts, '\n' ∉ t.toList) : '\n' ∉ (String.intercalate s ts).toList := by
  intro hm
  rw [String.toList_intercalate, List.intercalate] at hm
  obtain ⟨w, hw, hmem⟩ := (mem_flatten_intersperse hm).resolve_left hs
  obtain ⟨t, ht, rfl⟩ := List.mem_map.1 hw
  exact h t ht hmem

theorem HostType.lineFeed_not_mem_render {t : HostType} (ht : t.Plain) {defaultType : String}
    (hd : isIdentifier defaultType = true) : '\n' ∉ (t.render defaultType).toList := by
  induction t with
  | array element ih =>
    rw [render]
    split <;> simp [ih ht]
  | union labels =>
    cases labels with
    | nil => simp [render]
    | cons l ls =>
      refine lineFeed_not_mem_intercalate (by decide) ?_
      rw [List.forall_mem_map]
      exact fun l hl => lineFeed_not_mem_quoteLiteral (ht l hl).1
  | custom text => cases ht
  | unknown => exact lineFeed_not_mem_identifier hd
  | _ => simp [render]

theorem Column.lineFeed_not_mem_propertyType {c : Column} (hc : c.Plain) {defaultType : String}
    (hd : isIdentifier defaultType = true) : '\n' ∉ (c.propertyType defaultType).toList := by
  have htype := HostType.lineFeed_not_mem_render hc.hostType hd
  rw [propertyType]
  split
  · exact htype
  · simp [htype]

theorem Column.lineFeed_not_mem_doc {c : Column} (hc : c.Plain) : '\n' ∉ c.doc.toList := by
  refine lineFeed_not_mem_intercalate (by decide) ?_
  have hsource : ∀ s ∈ c.source.toList, '\n' ∉ s.toList := fun s hs =>
    (hc.source s (Option.mem_toList.1 hs)).1
  have hregtype := hc.regtype.1
  intro t ht
  rw [List.mem_append, List.mem_append] at ht
  rcases ht with (ht | ht) | ht
  · obtain ⟨s, hs, rfl⟩ := List.mem_map.1 ht
    simp [hsource s hs]
  · split at ht
    · rw [List.mem_singleton.1 ht]
      decide
    · cases ht
  · rw [List.mem_singleton.1 ht]
    simp [hregtype]

/-! The lines of an interface -/

namespace Block

def isMemberLine (line : List Char) : Bool :=
  "    ".toList.isPrefixOf line && (line.drop 4).head? != some '/'

def memberLines (text : List Char) : List String :=
  ((text.splitOn '\n').filter isMemberLine).map fun line => String.ofList (line.drop 4)

/-- The members that the block of a text has for an interface. -/
def membersOf? (content : List Char) (name : String) : Option (List String) := do
  let cut ← find? content
  let text ← interface? cut.middle name
  return memberLines text

theorem memberLines_line {line : List Char} (h : '\n' ∉ line) (rest : List Char) :
    memberLines (line ++ '\n' :: rest) =
      if isMemberLine line then String.ofList (line.drop 4) :: memberLines rest
      else memberLines rest := by
  rw [memberLines, List.splitOn_append_cons_self_of_not_mem h, List.filter_cons]
  split <;> rfl

theorem memberLines_skip {line : List Char} (h : '\n' ∉ line) (hm : isMemberLine line = false)
    (rest : List Char) : memberLines (line ++ '\n' :: rest) = memberLines rest := by
  rw [memberLines_line h, if_neg (by simp [hm])]

theorem memberLines_last {line : List Char} (h : '\n' ∉ line) (hm : isMemberLine line = false) :
    memberLines line = [] := by
  rw [memberLines, List.splitOn_eq_singleton h]
  simp [hm]

end Block

namespace Declaration
open Block

def member (defaultType : String) (c : Column) : String :=
  propertyName c.name ++ ": " ++ c.propertyType defaultType

def members (defaultType : String) (d : Declaration) : List String :=
  d.columns.map (member defaultType)

def queryLines (docs : List String) : String :=
  String.join (docs.map fun q => "  " ++ " * - \x60" ++ q ++ "\x60\n")

theorem memberLines_queryLines {docs : List String} (h : ∀ q ∈ docs, '\n' ∉ q.toList)
    (rest : List Char) : memberLines ((queryLines docs).toList ++ rest) = memberLines rest := by
  induction docs with
  | nil => simp [queryLines]
  | cons q docs ih =>
    rw [List.forall_mem_cons] at h
    have hline : '\n' ∉ "   * - \x60".toList ++ q.toList ++ ['\x60'] := by simp [h.1]
    have := memberLines_skip hline rfl ((queryLines docs).toList ++ rest)
    rw [ih h.2] at this
    simpa [queryLines] using this

theorem memberLines_queriesDoc (d : Declaration) (rest : List Char) :
    memberLines ((d.queriesDoc "  ").toList ++ rest) = memberLines rest := by
  rw [queriesDoc]
  have hdocs : ∀ q ∈ d.queries.map fun q => queryDoc q.sql, '\n' ∉ q.toList := by
    rw [List.forall_mem_map]
    exact fun q _ => lineFeed_not_mem_queryDoc q.sql
  generalize (d.queries.map fun q => queryDoc q.sql) = docs at hdocs
  split
  · rename_i single
    have hline : '\n' ∉ "  /** - query: \x60".toList ++ single.toList ++ "\x60 */".toList := by
      simp [hdocs single (by simp)]
    simpa using memberLines_skip hline rfl rest
  · have hlast := memberLines_skip (show '\n' ∉ "   */".toList by decide) rfl rest
    have htitle := memberLines_skip (show '\n' ∉ "   * queries:".toList by decide) rfl
      ((queryLines docs).toList ++ ("   */".toList ++ '\n' :: rest))
    have hopen := memberLines_skip (show '\n' ∉ "  /**".toList by decide) rfl
      ("   * queries:".toList ++ '\n' :: ((queryLines docs).toList ++
        ("   */".toList ++ '\n' :: rest)))
    rw [htitle, memberLines_queryLines hdocs, hlast] at hopen
    simpa [queryLines] using hopen

theorem propertyName_head (name : String) :
    (propertyName name).toList.head?.any (· != '/') = true := by
  rw [propertyName]
  split
  · rename_i hn
    unfold isIdentifier at hn
    split at hn
    · cases hn
    · rename_i c cs hname
      rw [Bool.and_eq_true] at hn
      rw [hname, List.head?_cons, Option.any_some, bne_iff_ne]
      rintro rfl
      exact absurd hn.1 (by decide)
  · simp [quoteLiteral]

section Property

variable {c : Column} (hc : c.Plain) {defaultType : String} (hd : isIdentifier defaultType = true)

include hc hd

theorem memberLines_property {line : List Char} (hline : '\n' ∉ line)
    (hm : isMemberLine line = false) (rest : List Char) :
    memberLines (line ++ ((property defaultType "  " c).toList ++ '\n' :: rest)) =
      member defaultType c :: memberLines rest := by
  have hdoc : '\n' ∉ "    /** ".toList ++ c.doc.toList ++ " */".toList := by
    simp [Column.lineFeed_not_mem_doc hc]
  have hmember : '\n' ∉ "    ".toList ++ (member defaultType c).toList := by
    simp [member, lineFeed_not_mem_propertyName hc.name,
      Column.lineFeed_not_mem_propertyType hc hd]
  have his : isMemberLine ("    ".toList ++ (member defaultType c).toList) = true := by
    have hhead := propertyName_head c.name
    obtain ⟨k, ks, hk⟩ : ∃ k ks, (propertyName c.name).toList = k :: ks := by
      cases h : (propertyName c.name).toList with
      | nil => simp [h] at hhead
      | cons k ks => exact ⟨k, ks, rfl⟩
    simp only [hk, List.head?_cons, Option.any_some] at hhead
    simpa [isMemberLine, member, hk] using hhead
  have := memberLines_skip hline hm ("    /** ".toList ++ c.doc.toList ++ " */".toList ++
    '\n' :: ("    ".toList ++ (member defaultType c).toList ++ '\n' :: rest))
  rw [memberLines_skip hdoc rfl, memberLines_line hmember, if_pos his] at this
  refine (congrArg memberLines ?_).trans (this.trans ?_)
  · unfold property member
    simp
  · rw [List.drop_left' (by decide), String.ofList_toList]

end Property

theorem memberLines_properties {cs : List Column} (hcs : ∀ c ∈ cs, c.Plain) {defaultType : String}
    (hd : isIdentifier defaultType = true) {line : List Char} (hline : '\n' ∉ line)
    (hm : isMemberLine line = false) :
    memberLines (line ++ ((String.intercalate "\n" (cs.map (property defaultType "  "))).toList ++
      '\n' :: "  \x7d".toList)) = cs.map (member defaultType) := by
  have hlast : memberLines "  \x7d".toList = [] := memberLines_last (by decide) rfl
  rw [String.toList_intercalate]
  induction cs generalizing line with
  | nil =>
    have := memberLines_skip hline hm "  \x7d".toList
    rw [hlast] at this
    simpa using this
  | cons c cs ih =>
    rw [List.forall_mem_cons] at hcs
    cases cs with
    | nil =>
      have := memberLines_property hcs.1 hd hline hm "  \x7d".toList
      rw [hlast] at this
      simpa using this
    | cons c' cs =>
      have hrest := ih hcs.2 (show '\n' ∉ ([] : List Char) by simp) rfl
      have := memberLines_property hcs.1 hd hline hm ([] ++ ((List.intercalate "\n".toList
        ((List.map (property defaultType "  ") (c' :: cs)).map String.toList)) ++
          '\n' :: "  \x7d".toList))
      rw [hrest] at this
      simpa using this

theorem memberLines_render {d : Declaration} (h : d.Plain) {defaultType : String}
    (hd : isIdentifier defaultType = true) :
    memberLines (d.render defaultType "  ").toList = d.members defaultType := by
  have hline : '\n' ∉ "  export interface ".toList ++ d.name.toList ++ " \x7b".toList := by
    simp [lineFeed_not_mem_identifier h.name]
  have hbody := memberLines_properties h.columns hd hline rfl
  have := memberLines_queriesDoc d
    ("  export interface ".toList ++ d.name.toList ++ " \x7b".toList ++
      ((String.intercalate "\n" (d.columns.map (property defaultType "  "))).toList ++
        '\n' :: "  \x7d".toList))
  rw [hbody] at this
  simpa [render, members] using this

end Declaration
end RowTypes
