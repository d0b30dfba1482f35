import RowTypes.Proofs.QuietText

/-! The text of a block. Where names, labels and origins contain no line feed and no end of a
comment, a declaration is quiet text, whatever stands in its queries. -/

namespace RowTypes

def Unbroken (s : String) : Prop := '\n' ∉ s.toList ∧ ¬['*', '/'] <:+: s.toList

def HostType.Plain : HostType → Prop
  | array element => element.Plain
  | union labels => ∀ l ∈ labels, Unbroken l
  | custom _ => False
  | _ => True

structure Column.Plain (c : Column) : Prop where
  name : Unbroken c.name
  regtype : Unbroken c.regtype
  source : ∀ s ∈ c.source, Unbroken s
  hostType : c.hostType.Plain

structure Declaration.Plain (d : Declaration) : Prop where
  name : isIdentifier d.name = true
  columns : ∀ c ∈ d.columns, c.Plain

/-! A weaker condition, which is enough for the scan -/

def HostType.Scannable : HostType → Prop
  | array element => element.Scannable
  | union labels => ∀ l ∈ labels, '\n' ∉ l.toList
  | custom _ => False
  | _ => True

/-- A column whose name stays on its line, and whose type and origin end no comment. -/
structure Column.Scannable (c : Column) : Prop where
  name : '\n' ∉ c.name.toList
  regtype : ¬['*', '/'] <:+: c.regtype.toList
  source : ∀ s ∈ c.source, ¬['*', '/'] <:+: s.toList
  hostType : c.hostType.Scannable

theorem HostType.Plain.scannable {t : HostType} (h : t.Plain) : t.Scannable := by
  induction t with
  | array element ih => exact ih h
  | union labels => exact fun l hl => (h l hl).1
  | custom text => exact h
  | _ => trivial

theorem Column.Plain.scannable {c : Column} (h : c.Plain) : c.Scannable where
  name := h.name.1
  regtype := h.regtype.2
  source s hs := (h.source s hs).2
  hostType := h.hostType.scannable

/-! What may stand in a comment -/

/-- Text that ends no comment, and would end none behind an asterisk. -/
structure Endless (w : List Char) : Prop where
  inside : ¬['*', '/'] <:+: w
  head : w.head? ≠ some '/'

theorem endless_of_not_mem {w : List Char} (h : '/' ∉ w) : Endless w := by
  constructor
  · rintro ⟨a, b, rfl⟩
    simp at h
  · intro hw
    obtain ⟨v, rfl⟩ := List.head?_eq_some_iff.1 hw
    simp at h

theorem infix_cons_iff {c : Char} {w : List Char} :
    ['*', '/'] <:+: c :: w ↔ (c = '*' ∧ w.head? = some '/') ∨ ['*', '/'] <:+: w := by
  rw [List.infix_cons_iff, List.cons_prefix_cons]
  cases w with
  | nil => simp
  | cons d w => simp [List.cons_prefix_cons, eq_comm]

theorem Endless.append {v w : List Char} (hv : Endless v) (hw : Endless w) : Endless (v ++ w) := by
  constructor
  · obtain ⟨hv, -⟩ := hv
    induction v with
    | nil => exact hw.inside
    | cons c v ih =>
      rw [infix_cons_iff, not_or] at hv
      rw [List.cons_append, infix_cons_iff, not_or]
      refine ⟨?_, ih hv.2⟩
      rintro ⟨hc, hd⟩
      cases v with
      | nil => exact hw.head hd
      | cons d v => exact hv.1 ⟨hc, hd⟩
  · cases v with
    | nil => exact hw.head
    | cons c v => exact hv.head

theorem Endless.cons {c : Char} {w : List Char} (hs : c ≠ '*') (hc : c ≠ '/')
    (hw : ¬['*', '/'] <:+: w) : Endless (c :: w) := by
  refine ⟨?_, by simpa using hc⟩
  rw [infix_cons_iff]
  simpa [hs] using hw

theorem Endless.backtick {w : List Char} (hw : ¬['*', '/'] <:+: w) : Endless ('\x60' :: w) :=
  .cons (by decide) (by decide) hw

theorem endless_flatten {ws : List (List Char)} (h : ∀ w ∈ ws, Endless w) : Endless ws.flatten := by
  induction ws with
  | nil => exact endless_of_not_mem (by simp)
  | cons w ws ih =>
    rw [List.flatten_cons]
    exact (h w List.mem_cons_self).append (ih fun v hv => h v (List.mem_cons_of_mem _ hv))

theorem head?_replaceAll {c d : Char} (hne : c ≠ d) {old new cs : List Char}
    (h : (replaceAll old (c :: new) cs).head? = some d) : cs.head? = some d := by
  cases cs with
  | nil => simp [replaceAll] at h
  | cons c cs =>
    rw [replaceAll] at h
    split at h
    · exact absurd (Option.some.inj h) hne
    · exact h

theorem replaceAll_endOfComment (cs : List Char) :
    ¬['*', '/'] <:+: replaceAll ['*', '/'] ['*', '\\', '/'] cs := by
  fun_induction replaceAll ['*', '/'] ['*', '\\', '/'] cs with
  | case1 => simp
  | case2 c rest h ih =>
    simp only [List.cons_append, List.nil_append, infix_cons_iff]
    simpa using ih
  | case3 c rest h ih =>
    rw [infix_cons_iff, not_or]
    refine ⟨?_, ih⟩
    rintro ⟨rfl, hd⟩
    obtain ⟨rest, rfl⟩ := List.head?_eq_some_iff.1 (head?_replaceAll (by decide) hd)
    simp at h

theorem queryDoc_endless (sql : String) : ¬['*', '/'] <:+: (queryDoc sql).toList := by
  rw [queryDoc, String.toList_ofList]
  exact replaceAll_endOfComment _

theorem Column.doc_endless {c : Column} (hc : c.Scannable) : Endless c.doc.toList := by
  have regtype : Endless ("regtype: \x60" ++ c.regtype ++ "\x60").toList := by
    have := (Endless.backtick hc.regtype).append (endless_of_not_mem (w := ['\x60']) (by decide))
    have := (endless_of_not_mem (w := "regtype: ".toList) (by decide)).append this
    simpa using this
  have source : ∀ s ∈ c.source, Endless ("column: \x60" ++ s ++ "\x60").toList := by
    intro s hs
    have := (Endless.backtick (hc.source s hs)).append
      (endless_of_not_mem (w := ['\x60']) (by decide))
    have := (endless_of_not_mem (w := "column: ".toList) (by decide)).append this
    simpa using this
  have comma : Endless ", ".toList := endless_of_not_mem (by decide)
  have notNull : Endless "not null: \x60true\x60".toList := endless_of_not_mem (by decide)
  rw [Column.doc, String.toList_intercalate]
  cases hs : c.source with
  | none =>
    cases c.notNull with
    | false => simpa using regtype
    | true => simpa using notNull.append (comma.append regtype)
  | some s =>
    have hsource := source s (by simp [hs])
    cases c.notNull with
    | false => simpa using hsource.append (comma.append regtype)
    | true => simpa using hsource.append (comma.append (notNull.append (comma.append regtype)))

/-! Declarations are quiet -/

namespace Quiet

theorem marks {f m w : List Char} (hm : m.all isMark = true) (hw : Quiet f w) :
    Quiet f (m ++ w) := by
  induction m with
  | nil => exact hw
  | cons c m ih =>
    rw [List.all_cons, Bool.and_eq_true] at hm
    exact .mark hm.1 (ih hm.2)

theorem plainWord {f v w : List Char} (hv : v.head?.any Code.startsWord = true)
    (hall : v.all Code.continuesWord = true) (hsql : v ≠ Tag.word)
    (hcont : (Tag.look (w ++ f)).continuesWord = false) (hw : Quiet f w) : Quiet f (v ++ w) := by
  cases v with
  | nil => exact hw
  | cons c v =>
    refine .word (by simpa using hv) ?_ hcont (fun h => absurd h hsql) hw
    exact fun d hd => List.all_eq_true.1 hall d (List.mem_cons_of_mem _ hd)

theorem identifier {f w : List Char} {name : String} (hn : isIdentifier name = true)
    (hcont : (Tag.look (w ++ f)).continuesWord = false)
    (hopen : (Tag.look (w ++ f)).opensTag = false) (hw : Quiet f w) :
    Quiet f (name.toList ++ w) := by
  unfold isIdentifier at hn
  split at hn
  · cases hn
  · rename_i c v hname
    rw [Bool.and_eq_true, List.all_eq_true] at hn
    rw [hname, List.cons_append]
    refine .word ?_ ?_ hcont (fun _ => hopen) hw
    · have := hn.1
      simp only [isIdentifierStart, Code.startsWord, Bool.or_eq_true] at this ⊢
      exact .inl this
    · intro d hd
      have := hn.2 d hd
      simp only [isIdentifierPart, Char.isAlphanum, Code.continuesWord, Code.startsWord,
        Bool.or_eq_true] at this ⊢
      grind

theorem literal {f w : List Char} {s : String} (hs : '\n' ∉ s.toList) (hw : Quiet f w) :
    Quiet f ((quoteLiteral s).toList ++ w) := by
  have := Quiet.quoted hs hw
  simpa [quoteLiteral] using this

end Quiet

theorem quiet_labels {ls : List String} (hl : ∀ l ∈ ls, '\n' ∉ l.toList) {f w : List Char}
    (hw : Quiet f w) :
    Quiet f ((String.intercalate " | " (ls.map quoteLiteral)).toList ++ w) := by
  rw [String.toList_intercalate]
  induction ls with
  | nil => simpa using hw
  | cons l ls ih =>
    have hl' := fun l h => hl l (List.mem_cons_of_mem _ h)
    have hfirst := hl l List.mem_cons_self
    cases ls with
    | nil => simpa using Quiet.literal hfirst hw
    | cons l' ls =>
      have bar : " | ".toList.all isMark = true := by decide
      have := Quiet.literal hfirst (Quiet.marks bar (ih hl'))
      simpa using this

theorem quiet_hostType {t : HostType} (ht : t.Scannable) {defaultType : String}
    (hd : isIdentifier defaultType = true) {f w : List Char}
    (hcont : (Tag.look (w ++ f)).continuesWord = false)
    (hopen : (Tag.look (w ++ f)).opensTag = false) (hw : Quiet f w) :
    Quiet f ((t.render defaultType).toList ++ w) := by
  induction t generalizing w with
  | array element ih =>
    rw [HostType.render]
    split
    · have inner := ih ht (w := '>' :: w) rfl rfl (.mark (by decide) hw)
      have := Quiet.plainWord (v := "Array".toList) (by decide) (by decide) (by decide) rfl
        (.mark (c := '<') (by decide) inner)
      simpa using this
    · have brackets : "[]".toList.all isMark = true := by decide
      have := ih ht (w := "[]".toList ++ w) rfl rfl (.marks brackets hw)
      simpa using this
  | union labels =>
    cases labels with
    | nil => exact Quiet.plainWord (v := "never".toList) (by decide) (by decide) (by decide) hcont hw
    | cons l ls => exact quiet_labels ht hw
  | custom text => cases ht
  | unknown => exact Quiet.identifier hd hcont hopen hw
  | number => exact Quiet.plainWord (v := "number".toList) (by decide) (by decide) (by decide) hcont hw
  | string => exact Quiet.plainWord (v := "string".toList) (by decide) (by decide) (by decide) hcont hw
  | boolean => exact Quiet.plainWord (v := "boolean".toList) (by decide) (by decide) (by decide) hcont hw
  | bigint => exact Quiet.plainWord (v := "bigint".toList) (by decide) (by decide) (by decide) hcont hw
  | date => exact Quiet.plainWord (v := "Date".toList) (by decide) (by decide) (by decide) hcont hw
  | json => exact Quiet.plainWord (v := "unknown".toList) (by decide) (by decide) (by decide) hcont hw
  | buffer => exact Quiet.plainWord (v := "Buffer".toList) (by decide) (by decide) (by decide) hcont hw

theorem all_isMark_of_isBlank {w : List Char} (hw : w.all Code.isBlank = true) :
    w.all isMark = true := by
  rw [List.all_eq_true] at hw ⊢
  intro c hc
  have hblank := hw c hc
  simp only [Code.isBlank, Bool.or_eq_true, decide_eq_true_eq] at hblank
  rcases hblank with (((rfl | rfl) | rfl) | rfl) | rfl <;> decide

theorem opensTag_blank {w : List Char} (hw : w.all Code.isBlank = true) (f : List Char) :
    (Tag.look (w ++ f)).opensTag = (Tag.look f).opensTag := by
  have hdrop : (w ++ f).dropWhile Code.isBlank = f.dropWhile Code.isBlank := by
    rw [List.dropWhile_append_of_pos (List.all_eq_true.1 hw)]
  rw [Tag.look, hdrop]
  rfl

namespace Declaration

theorem exists_property (indent : String) (c : Column) (defaultType : String) :
    ∃ v, (property defaultType indent c).toList =
      '\n' :: (indent.toList ++ "  ".toList) ++ '/' :: v := by
  refine ⟨("** " ++ c.doc ++ " */\n" ++ indent ++ "  " ++ propertyName c.name ++ ": " ++
    c.propertyType defaultType).toList, ?_⟩
  unfold property
  simp

section Indent

variable {indent : String} (hindent : indent.toList.all Code.isBlank = true)
include hindent

theorem endless_indent : Endless indent.toList :=
  endless_of_not_mem fun h => by simpa [Code.isBlank] using List.all_eq_true.1 hindent _ h

theorem quiet_property {c : Column} (hc : c.Scannable) {defaultType : String}
    (hd : isIdentifier defaultType = true) {f w : List Char}
    (hopen : (Tag.look ('\n' :: w ++ f)).opensTag = false) (hw : Quiet f w) :
    Quiet f ((property defaultType indent c).toList ++ '\n' :: w) := by
  have line : Quiet f ('\n' :: w) := .mark (by decide) hw
  have type : Quiet f ((c.propertyType defaultType).toList ++ '\n' :: w) := by
    rw [Column.propertyType]
    split
    · exact quiet_hostType hc.hostType hd rfl hopen line
    · have bar : " | ".toList.all isMark = true := by decide
      have null := Quiet.plainWord (f := f) (v := "null".toList) (by decide) (by decide) (by decide)
        rfl line
      have := quiet_hostType hc.hostType hd rfl rfl (Quiet.marks bar null)
      simpa using this
  have colon : ": ".toList.all isMark = true := by decide
  have key : Quiet f ((propertyName c.name).toList ++
      (": ".toList ++ ((c.propertyType defaultType).toList ++ '\n' :: w))) := by
    rw [propertyName]
    split
    · rename_i hn
      exact Quiet.identifier hn rfl rfl (Quiet.marks colon type)
    · exact Quiet.literal hc.name (Quiet.marks colon type)
  have gap : ('\n' :: (indent.toList ++ "  ".toList)).all isMark = true := by
    rw [List.all_cons, List.all_append, all_isMark_of_isBlank hindent]
    decide
  have doc : Endless ("* ".toList ++ (c.doc.toList ++ [' '])) :=
    (endless_of_not_mem (by decide)).append
      ((Column.doc_endless hc).append (endless_of_not_mem (by decide)))
  have := Quiet.marks gap (Quiet.comment doc.inside (Quiet.marks gap key))
  unfold property
  simpa using this

theorem quiet_properties {cs : List Column} (hcs : ∀ c ∈ cs, c.Scannable) {defaultType : String}
    (hd : isIdentifier defaultType = true) {f w : List Char}
    (hopen : (Tag.look ('\n' :: w ++ f)).opensTag = false) (hw : Quiet f w) :
    Quiet f ((String.intercalate "\n" (cs.map (property defaultType indent))).toList ++ '\n' :: w) := by
  rw [String.toList_intercalate]
  induction cs with
  | nil => exact .mark (by decide) hw
  | cons c cs ih =>
    have hfirst := hcs c List.mem_cons_self
    have hrest := fun c h => hcs c (List.mem_cons_of_mem _ h)
    cases cs with
    | nil => simpa using quiet_property hindent hfirst hd hopen hw
    | cons c' cs =>
      have rest := ih hrest
      have := quiet_property (f := f) hindent hfirst hd ?_ rest
      · simpa using this
      · have hblank : ('\n' :: '\n' :: (indent.toList ++ "  ".toList)).all Code.isBlank = true := by
          rw [List.all_cons, List.all_cons, List.all_append, hindent]
          decide
        obtain ⟨v, hv⟩ := exists_property indent c' defaultType
        have hslash : ∀ u, (Tag.look ('\n' :: '\n' :: (indent.toList ++ "  ".toList) ++
            '/' :: u)).opensTag = false := fun u => opensTag_blank hblank ('/' :: u)
        cases cs <;> simpa [hv] using hslash _

theorem quiet_queriesDoc (d : Declaration) {f w : List Char} (hw : Quiet f w) :
    Quiet f ((queriesDoc indent d).toList ++ w) := by
  have line : Quiet f ('\n' :: w) := .mark (by decide) hw
  have hdocs : ∀ q ∈ d.queries.map fun q => queryDoc q.sql, ¬['*', '/'] <:+: q.toList := by
    intro q hq
    obtain ⟨r, -, rfl⟩ := List.mem_map.1 hq
    exact queryDoc_endless r.sql
  rw [queriesDoc]
  generalize (d.queries.map fun q => queryDoc q.sql) = docs at hdocs
  split
  · rename_i single
    have doc : Endless ("* - query: ".toList ++ ('\x60' :: single.toList ++ "\x60 ".toList)) :=
      (endless_of_not_mem (by decide)).append ((Endless.backtick (hdocs single (by simp))).append
        (endless_of_not_mem (by decide)))
    have := Quiet.marks (all_isMark_of_isBlank hindent) (Quiet.comment doc.inside line)
    simpa using this
  · have item : ∀ q ∈ docs, Endless (indent ++ " * - \x60" ++ q ++ "\x60\n").toList := by
      intro q hq
      have := (endless_indent hindent).append
        ((endless_of_not_mem (w := " * - ".toList) (by decide)).append
          ((Endless.backtick (hdocs q hq)).append (endless_of_not_mem (w := "\x60\n".toList)
            (by decide))))
      simpa using this
    have items : Endless (String.join (docs.map fun q => indent ++ " * - \x60" ++ q ++ "\x60\n")).toList := by
      rw [String.toList_join, List.flatMap_def, List.map_map]
      refine endless_flatten fun w hw => ?_
      obtain ⟨q, hq, rfl⟩ := List.mem_map.1 hw
      exact item q hq
    have heading : Endless ("*\n".toList ++ (indent.toList ++ " * queries:\n".toList)) :=
      (endless_of_not_mem (by decide)).append
        ((endless_indent hindent).append (endless_of_not_mem (by decide)))
    have doc := heading.append
      (items.append ((endless_indent hindent).append (endless_of_not_mem (w := " ".toList) (by decide))))
    have := Quiet.marks (all_isMark_of_isBlank hindent) (Quiet.comment doc.inside line)
    simpa using this

theorem quiet_render_indented {d : Declaration} (hname : isIdentifier d.name = true)
    (hcolumns : ∀ c ∈ d.columns, c.Scannable) {defaultType : String}
    (hd : isIdentifier defaultType = true) (f : List Char) :
    Quiet f (d.render defaultType indent).toList := by
  have space : " ".toList.all isMark = true := by decide
  have properties : Quiet ('\x7d' :: ([] ++ f))
      ((String.intercalate "\n" (d.columns.map (property defaultType indent))).toList ++
        '\n' :: indent.toList) := by
    refine quiet_properties hindent hcolumns hd ?_ ?_
    · exact opensTag_blank (w := '\n' :: indent.toList) (by rw [List.all_cons, hindent]; rfl) ('\x7d' :: f)
    · have := Quiet.marks (all_isMark_of_isBlank hindent) (.nil ('\x7d' :: ([] ++ f)))
      rwa [List.append_nil] at this
  have body := Quiet.braces properties (.nil f)
  have name := Quiet.identifier hname (w := " ".toList ++ _) rfl rfl (Quiet.marks space body)
  have inter := Quiet.plainWord (v := "interface".toList) (w := " ".toList ++ _) (by decide)
    (by decide) (by decide) rfl (Quiet.marks space name)
  have export' := Quiet.plainWord (v := "export".toList) (w := " ".toList ++ _) (by decide)
    (by decide) (by decide) rfl (Quiet.marks space inter)
  have := quiet_queriesDoc hindent d (Quiet.marks (all_isMark_of_isBlank hindent) export')
  simpa [render] using this

end Indent

theorem quiet_render {d : Declaration} (h : d.Plain) {defaultType : String}
    (hd : isIdentifier defaultType = true) (f : List Char) :
    Quiet f (d.render defaultType "  ").toList :=
  quiet_render_indented (by decide) h.name (fun c hc => (h.columns c hc).scannable) hd f

end Declaration

namespace Block

def EntryText (text : String) : Prop :=
  ∃ defaultType d, isIdentifier defaultType = true ∧ Declaration.Plain d ∧
    text = d.render defaultType "  "

theorem quiet_entries {texts : List String} (h : ∀ t ∈ texts, EntryText t) (f : List Char) :
    Quiet f (entries texts).toList := by
  rw [entries, String.toList_join, List.flatMap_def, List.map_map]
  induction texts with
  | nil => exact .nil f
  | cons t texts ih =>
    have rest := ih fun t h' => h t (List.mem_cons_of_mem _ h')
    obtain ⟨defaultType, d, hd, hplain, rfl⟩ := h t List.mem_cons_self
    have := (Declaration.quiet_render hplain hd _).append (.mark (c := '\n') (by decide) rest)
    have := Quiet.mark (c := '\n') (by decide) this
    simpa using this

def inner (texts : List String) : List Char :=
  ("\n  " ++ header ++ "\n").toList ++ (entries texts).toList

theorem inner_cons (texts : List String) : ∃ v, inner texts = '\n' :: v := by
  refine ⟨("  " ++ header ++ "\n").toList ++ (entries texts).toList, ?_⟩
  unfold inner
  simp

theorem ofTexts_toList (texts : List String) :
    (ofTexts texts).toList =
      "export declare namespace queries ".toList ++ '\x7b' :: (inner texts ++ ['\x7d']) := by
  have hbeginning : beginning.toList =
      "export declare namespace queries ".toList ++
        '\x7b' :: ("\n  " ++ header ++ "\n").toList := by
    unfold beginning Reference.space header
    repeat rw [String.toList_append]
    repeat rw [String.toList_ofList]
    rfl
  unfold inner
  rw [ofTexts, String.toList_append, String.toList_append, hbeginning]
  simp only [List.append_assoc, List.cons_append]
  rfl

theorem toList_ofTexts (texts : List String) :
    (ofTexts texts).toList =
      "export declare namespace queries \x7b\n  // Generated by pgtypegen\n".toList ++
        (texts.flatMap (fun t => '\n' :: (t.toList ++ ['\n'])) ++ ['\x7d']) := by
  have hbeginning : beginning.toList =
      "export declare namespace queries \x7b\n  // Generated by pgtypegen\n".toList := by
    unfold beginning Reference.space header
    repeat rw [String.toList_append]
    repeat rw [String.toList_ofList]
    rfl
  have hentry (t : String) : ("\n" ++ t ++ "\n").toList = '\n' :: (t.toList ++ ['\n']) := by
    rw [String.toList_append, String.toList_append, List.append_assoc]
    rfl
  rw [ofTexts, String.toList_append, String.toList_append, hbeginning, entries, String.toList_join,
    List.append_assoc, List.flatMap_map]
  simp only [hentry]
  rfl

theorem quiet_inner {texts : List String} (h : ∀ t ∈ texts, EntryText t) (f : List Char) :
    Quiet f (inner texts) := by
  have gap : "\n  ".toList.all isMark = true := by decide
  have hbody : '\n' ∉ " Generated by pgtypegen".toList := by decide
  have := Quiet.marks gap (Quiet.lineComment hbody (quiet_entries h f))
  unfold inner header
  simpa using this

end Block
end RowTypes
