import Mathlib.Data.List.DropRight
import RowTypes.Proofs.Frame
import RowTypes.Proofs.InterfaceText
import RowTypes.Proofs.Rescan

/-! A block says itself where it ends. Whatever its queries, names and labels contain, each comment
and each literal in it ends where it was meant to, and the first brace that closes the block is its
last character. So it is found in any text that has no other header in front, and taking it out
again leaves the text as it was before. -/

namespace RowTypes.Block

theorem closeBrace_more {inside : Inside} {depth : Nat} {cs body after : List Char}
    (h : closeBrace inside depth cs = some (body, after)) (w : List Char) :
    closeBrace inside depth (cs ++ w) = some (body, after ++ w) := by
  fun_induction closeBrace inside depth cs generalizing body
  case case1 => cases h
  case case4 depth cs hslash ih =>
    -- nothing is found behind a last character, so there is one that is no slash
    cases cs with
    | nil => cases h
    | cons d cs =>
      have hd : d ≠ '/' := fun hd => hslash cs (by rw [hd])
      rw [List.cons_append, closeBrace.eq_def]
      simp_all
      grind
  case case12 depth cs hslash hstar ih =>
    cases cs with
    | nil => cases h
    | cons d cs =>
      have hd : d ≠ '/' := fun hd => hslash cs (by rw [hd])
      have hd' : d ≠ '*' := fun hd => hstar cs (by rw [hd])
      rw [List.cons_append, closeBrace.eq_def]
      simp_all
      grind
  all_goals (rw [List.cons_append, closeBrace.eq_def]; simp_all <;> grind)

theorem closeBrace_inner {texts : List String} (h : ∀ t ∈ texts, EntryText t) {v : List Char}
    (hv : v <+: inner texts) : closeBrace .code 1 v = none := by
  have hclose : closeBrace .code 1 (inner texts ++ ['\x7d']) = some (inner texts ++ ['\x7d'], []) :=
    closeBrace_quiet (quiet_inner h []) Nat.one_pos (by rw [closeBrace.eq_def]; rfl)
  obtain ⟨u, hu⟩ := hv
  cases hfound : closeBrace .code 1 v with
  | none => rfl
  | some found =>
    have hmore := closeBrace_more hfound (u ++ ['\x7d'])
    rw [← List.append_assoc, hu, hclose] at hmore
    have hafter := (Prod.mk.inj (Option.some.inj hmore)).2
    exact absurd hafter.symm (by simp)

end RowTypes.Block

namespace RowTypes.Declaration
open Block

theorem commentInside_endless (d : Declaration) : ¬['*', '/'] <:+: '*' :: d.commentInside.toList := by
  rw [infix_cons_iff, not_or]
  constructor
  · rintro ⟨-, hhead⟩
    rw [commentInside] at hhead
    split at hhead <;> simp at hhead
  · refine commentInside_of (P := fun w => ¬['*', '/'] <:+: w) ?_ ?_ ?_
      fun q _ => queryDoc_endless q.sql
    · intro w _ hw hm
      exact hw (hm.subset (by simp))
    · rintro c (rfl | rfl) v w hv hw
      · exact not_infix_append_cons (by decide) hv hw
      · exact not_infix_append_cons (by decide) hv hw
    · intro w hw
      exact not_infix_append_cons (v := []) (by decide) (by decide) hw

theorem exists_queriesDoc (d : Declaration) : ∃ inside,
    (d.queriesDoc "  ").toList = "  /*".toList ++ (inside ++ "*/\n".toList) ∧
      Encloses .blockComment inside "*/".toList := by
  refine ⟨'*' :: d.commentInside.toList, ?_, encloses_comment d.commentInside_endless⟩
  rw [queriesDoc_eq]
  simp

theorem exists_property_comment {c : Column} (hc : c.Plain) (defaultType : String) : ∃ inside,
    (property defaultType "  " c).toList = "\n    /*".toList ++ (inside ++ ("*/\n    ".toList ++
      ((propertyName c.name).toList ++ (": ".toList ++ (c.propertyType defaultType).toList)))) ∧
      Encloses .blockComment inside "*/".toList := by
  have doc : Endless ("* ".toList ++ (c.doc.toList ++ [' '])) :=
    (endless_of_not_mem (by decide)).append
      ((Column.doc_endless hc.scannable).append (endless_of_not_mem (by decide)))
  refine ⟨_, ?_, encloses_comment doc.inside⟩
  unfold property
  simp

end RowTypes.Declaration

namespace RowTypes.Block
open Declaration

variable {defaultType : String} {ds : List Declaration}

theorem entryText_render (hd : isIdentifier defaultType = true) (hds : ∀ d ∈ ds, d.Plain) :
    ∀ t ∈ ds.map (Declaration.render defaultType "  "), EntryText t := by
  intro t ht
  obtain ⟨d, hmem, rfl⟩ := List.mem_map.1 ht
  exact ⟨defaultType, d, hd, hds d hmem, rfl⟩

/-- A block of plain declarations is found where it stands, from its first to its last character,
behind any text without the header of one and in front of any text. Its last character is the
first brace that closes it, and no comment or literal in it ends before or behind its end. -/
theorem find?_render (hd : isIdentifier defaultType = true) (hds : ∀ d ∈ ds, d.Plain)
    {before : List Char} (hbefore : findHeader afterNamespaceHeader before = none)
    (after : List Char) :
    find? (before ++ ((render defaultType ds).toList ++ after)) =
        some ⟨before, (render defaultType ds).toList, after⟩ ∧
      (∃ head inside, (render defaultType ds).toList = head ++ '\x7b' :: (inside ++ ['\x7d']) ∧
        '\x7b' ∉ head ∧ ∀ v, v <+: inside → closeBrace .code 1 v = none) ∧
      (∀ d ∈ ds, (∃ inside,
          (d.queriesDoc "  ").toList = "  /*".toList ++ (inside ++ "*/\n".toList) ∧
          Encloses .blockComment inside "*/".toList) ∧
        ∀ c ∈ d.columns, ∃ inside, (property defaultType "  " c).toList =
            "\n    /*".toList ++ (inside ++ ("*/\n    ".toList ++ ((propertyName c.name).toList ++
              (": ".toList ++ (c.propertyType defaultType).toList)))) ∧
          Encloses .blockComment inside "*/".toList) ∧
      ∀ s : String, ∃ inside, (quoteLiteral s).toList = '\'' :: (inside ++ ['\'']) ∧
        Encloses (.quoted '\'') inside ['\''] := by
  have hentries := entryText_render hd hds
  refine ⟨?_, ?_, fun d hmem => ⟨d.exists_queriesDoc, fun c hc => ?_⟩, fun s => ?_⟩
  · exact Tag.find?_ofTexts (headerless_of_findHeader local_namespaceHeader hbefore) hentries after
  · exact ⟨_, _, ofTexts_toList _, by decide +kernel, fun v hv => closeBrace_inner hentries hv⟩
  · exact exists_property_comment ((hds d hmem).columns c hc) defaultType
  · exact ⟨_, toList_quoteLiteral s, encloses_literal s.toList⟩

/-- A declaration whose query, column and labels hold what opens and closes braces, comments and
literals. -/
def braced : Declaration where
  name := "A"
  shape := []
  columns := [⟨"it's \x7b", true, "text", "text", .union ["\x7d", "'/*"], none⟩]
  params := []
  queries := [⟨"a.ts", ⟨0, 0⟩, 1, "select '*/ \x7d // \x60", none, 0, .sqlFile, 0⟩]

theorem braced_plain : ∀ d ∈ [braced], d.Plain := by
  rw [List.forall_mem_singleton]
  refine ⟨by decide, ?_⟩
  rw [braced, List.forall_mem_singleton]
  refine ⟨?_, ?_, nofun, ?_⟩
  · unfold Unbroken
    decide +kernel
  · unfold Unbroken
    decide +kernel
  · unfold HostType.Plain Unbroken
    decide +kernel

theorem find?_braced :
    isIdentifier "unknown" = true ∧ (∀ d ∈ [braced], d.Plain) ∧
    findHeader afterNamespaceHeader "const a = \x7b '\n".toList = none ∧
    find? ("const a = \x7b '\n".toList ++ ((render "unknown" [braced]).toList ++ "\x7d".toList)) =
      some ⟨"const a = \x7b '\n".toList, (render "unknown" [braced]).toList, "\x7d".toList⟩ := by
  have hd : isIdentifier "unknown" = true := by decide
  have hbefore : findHeader afterNamespaceHeader "const a = \x7b '\n".toList = none := by
    decide +kernel
  exact ⟨hd, braced_plain, hbefore, (find?_render hd braced_plain hbefore "\x7d".toList).1⟩

end RowTypes.Block

/-! Taking a block out again -/

namespace RowTypes.TypedSource
open Block

variable {content : List Char}

theorem header_infix_ofTexts (texts : List String) : header.toList <:+: (ofTexts texts).toList := by
  rw [ofTexts_toList]
  unfold Block.inner
  rw [String.toList_append, String.toList_append]
  exact ⟨"export declare namespace queries ".toList ++ '\x7b' :: "\n  ".toList,
    "\n".toList ++ ((entries texts).toList ++ ['\x7d']), by simp⟩

def trimmed (content : List Char) : List Char := content.rdropWhile (· = '\n')

theorem trimmed_separator (content : List Char) :
    trimmed (content ++ separator content) = trimmed content := by
  have hline : ∀ cs : List Char, trimmed (cs ++ ['\n']) = trimmed cs := fun cs =>
    List.rdropWhile_concat_pos _ _ _ (by decide)
  rcases separator_cases content with h | h <;> rw [h]
  · exact hline content
  · have htwo : content ++ ['\n', '\n'] = content ++ ['\n'] ++ ['\n'] := by simp
    rw [htwo, hline, hline]

/-- Once a block of plain declarations has been put behind a text, a run without declarations takes
it out again. What is left is the text, with one line feed at its end or with nothing if it
consisted of line feeds, and the next such run leaves it alone. -/
theorem render_appendBlock_nil {defaultType : String} (hd : isIdentifier defaultType = true)
    {ds : List Declaration} (hds : ∀ d ∈ ds, d.Plain)
    (hcontent : findHeader afterNamespaceHeader content = none) (defaultType' : String) :
    let left := if trimmed content = [] then [] else trimmed content ++ ['\n']
    render (appendBlock content (Block.render defaultType ds)) [] [] defaultType' = left ∧
      render left [] [] defaultType' = left := by
  have hheaderless := headerless_of_findHeader local_namespaceHeader hcontent
  have hbrace : '\x7b' ∉ separator content := by
    rcases separator_cases content with h | h <;> rw [h] <;> decide
  have hfind : Block.find? (appendBlock content (Block.render defaultType ds)) =
      some ⟨content ++ separator content, (Block.render defaultType ds).toList, ['\n']⟩ := by
    have happend : appendBlock content (Block.render defaultType ds) =
        (content ++ separator content) ++ ((Block.render defaultType ds).toList ++ ['\n']) := by
      simp [appendBlock, separator]
    rw [happend]
    exact Tag.find?_ofTexts (hheaderless.append_of_not_mem local_namespaceHeader hbrace)
      (entryText_render hd hds) _
  have hinfix : isInfix header.toList (Block.render defaultType ds).toList = true :=
    isInfix_iff.2 (header_infix_ofTexts _)
  have hblank : ['\n'].all Text.isBlank = true := by decide
  constructor
  · have hremove : removeBlock
        ⟨content ++ separator content, (Block.render defaultType ds).toList, ['\n']⟩ =
        if trimmed content = [] then [] else trimmed content ++ ['\n'] := by
      rw [← trimmed_separator content, removeBlock, if_pos hblank]
      rfl
    rw [← hremove, render, hfind]
    simp only [carried, List.foldl_nil, and_self, if_true, hinfix]
  · refine render_headerless_nil ?_
    split
    · exact headerless_of_not_mem local_namespaceHeader (by simp)
    · have hprefix : trimmed content <+: content := List.rdropWhile_prefix _ _
      exact (hheaderless.of_infix local_namespaceHeader hprefix.isInfix).append_of_not_mem
        local_namespaceHeader (by decide)

theorem render_appendBlock_braced :
    isIdentifier "unknown" = true ∧ (∀ d ∈ [braced], d.Plain) ∧
    findHeader afterNamespaceHeader "a\n\n\n".toList = none ∧
    render (appendBlock "a\n\n\n".toList (Block.render "unknown" [braced])) [] [] "unknown" =
      "a\n".toList := by
  have hd : isIdentifier "unknown" = true := by decide
  have hcontent : findHeader afterNamespaceHeader "a\n\n\n".toList = none := by
    decide +kernel
  exact ⟨hd, braced_plain, hcontent, (render_appendBlock_nil hd braced_plain hcontent "unknown").1⟩

end RowTypes.TypedSource
