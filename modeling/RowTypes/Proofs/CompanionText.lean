import RowTypes.Companion
import RowTypes.Proofs.Headers
import RowTypes.Proofs.Naming
import RowTypes.Proofs.PathLiteral
import RowTypes.Proofs.PathText

/-! The text of a companion in the eyes of the scan for tags. The scan passes it from line to line,
as long as nothing in it ends a comment or a literal too early. -/

namespace RowTypes

open Code Tag

/-- From any state the scan passes the text in front of `f`. -/
def Glides (w f : List Char) : Prop := ∀ b, ∃ b', Passes b w f b'

theorem Quiet.glides {f w : List Char} (h : Quiet f w) : Glides w f := fun b => h.passes b

namespace Glides

theorem nil (f : List Char) : Glides [] f := fun b => ⟨b, .nil b f⟩

theorem append {v w f : List Char} (hv : Glides v (w ++ f)) (hw : Glides w f) :
    Glides (v ++ w) f := by
  intro b
  obtain ⟨b₁, h₁⟩ := hv b
  obtain ⟨b₂, h₂⟩ := hw b₁
  exact ⟨b₂, h₁.append h₂⟩

theorem scan_eq {w : List Char} (h : Glides w []) : Tag.scan (String.ofList w) = .ok [] := by
  obtain ⟨b', hpasses⟩ := h .operator
  have := (hpasses .start [] rfl).1
  rw [List.append_nil] at this
  rw [Tag.scan, String.toList_ofList, this, scanFrom]

end Glides

/-! Code without anything of a query in it -/

inductive Fragment where
  | none
  | word (v : List Char)
  | literal (v : List Char)

namespace Fragment

def text : Fragment → List Char
  | none => []
  | word v => v
  | literal v => '\'' :: v

def begin (c : Char) : Option Fragment :=
  if startsWord c then some (word [c])
  else if c = '\'' then some (literal [])
  else if isMark c || c = '\x7b' || c = '\x7d' then some none
  else .none

def read (c : Char) : Fragment → Option Fragment
  | none => begin c
  | word v =>
    if continuesWord c then some (word (v ++ [c]))
    else if v = Tag.word ∧ c ≠ ':' then .none
    else begin c
  | literal v =>
    if c = '\'' then some none
    else if c = '\n' ∨ c = '\\' then .none
    else some (literal (v ++ [c]))

def Valid : Fragment → Prop
  | none => True
  | word v => ∃ c u, v = c :: u ∧ startsWord c = true ∧ ∀ d ∈ u, continuesWord d = true
  | literal v => '\n' ∉ v ∧ '\\' ∉ v ∧ '\'' ∉ v

end Fragment

/-- Whether a text, read behind a fragment, is made of words, marks and literals without escapes,
and ends with a whole piece that is no word. -/
def isCode : Fragment → List Char → Bool
  | .none, [] => true
  | _, [] => false
  | x, c :: cs =>
    match x.read c with
    | .none => false
    | some y => isCode y cs

theorem escapeLiteral_eq_self {s : List Char} (hb : '\\' ∉ s) (hq : '\'' ∉ s) :
    escapeLiteral s = s := by
  induction s with
  | nil => rfl
  | cons c s ih =>
    rw [List.mem_cons, not_or] at hb hq
    rw [escapeLiteral, if_neg (not_or.2 ⟨Ne.symm hb.1, Ne.symm hq.1⟩), ih hb.2 hq.2]

theorem glides_literal {s : List Char} (hn : '\n' ∉ s) (hb : '\\' ∉ s) (hq : '\'' ∉ s)
    (f : List Char) : Glides ('\'' :: (s ++ ['\''])) f := by
  have := (Quiet.quoted hn (.nil f)).glides
  rwa [escapeLiteral_eq_self hb hq] at this

theorem glides_begin {c : Char} {cs f : List Char}
    (hrest : ∀ y : Fragment, y.Valid → isCode y cs = true → Glides (y.text ++ cs) f)
    (h : isCode .none (c :: cs) = true) : Glides (c :: cs) f := by
  rw [isCode, Fragment.read, Fragment.begin] at h
  split at h
  · exact nomatch h
  · rename_i y hy
    split_ifs at hy with hword hquote hmark
    · cases hy
      exact hrest (.word [c]) ⟨c, [], rfl, hword, nofun⟩ h
    · cases hy
      subst hquote
      exact hrest (.literal []) ⟨by simp, by simp, by simp⟩ h
    · cases hy
      refine Glides.append (v := [c]) (fun b => ⟨b.read c, ?_⟩) (hrest .none trivial h)
      simp only [Bool.or_eq_true, decide_eq_true_eq] at hmark
      rcases hmark with (hmark | hbrace) | hbrace
      · exact passes_mark hmark b _
      · exact passes_brace (.inl hbrace) b _
      · exact passes_brace (.inr hbrace) b _

theorem glides_of_isCode {x : Fragment} (hx : x.Valid) {cs : List Char} (h : isCode x cs = true)
    (f : List Char) : Glides (x.text ++ cs) f := by
  induction cs generalizing x with
  | nil =>
    cases x with
    | none => exact .nil f
    | _ => exact nomatch h
  | cons c cs ih =>
    have hbegin := @glides_begin c cs f fun y hy h => ih hy h
    cases x with
    | none => exact hbegin h
    | word v =>
      obtain ⟨d, u, rfl, hd, hu⟩ := hx
      rw [isCode, Fragment.read] at h
      by_cases hc : continuesWord c = true
      · rw [if_pos hc] at h
        have hword : Fragment.Valid (.word (d :: u ++ [c])) := by
          refine ⟨d, u ++ [c], rfl, hd, fun e he => ?_⟩
          rcases List.mem_append.1 he with he | he
          · exact hu e he
          · rwa [List.mem_singleton.1 he]
        simpa [Fragment.text] using ih hword h
      · rw [if_neg hc] at h
        split_ifs at h with hsql
        refine Glides.append (fun b => ⟨.operand, ?_⟩) (hbegin h)
        refine passes_word hd hu ?_ (fun hword => ?_) b
        · simpa [look] using hc
        · have hcolon : c = ':' := by
            by_contra hne
            exact hsql ⟨hword, hne⟩
          subst hcolon
          rfl
    | literal v =>
      obtain ⟨hn, hb, hq⟩ := hx
      rw [isCode, Fragment.read] at h
      split_ifs at h with hclose hbreak
      · subst hclose
        have := (glides_literal hn hb hq (cs ++ f)).append (ih (x := .none) trivial h)
        simpa [Fragment.text] using this
      · rw [not_or] at hbreak
        have hliteral : Fragment.Valid (.literal (v ++ [c])) := by
          simp only [Fragment.Valid, List.mem_append, List.mem_singleton, not_or]
          exact ⟨⟨hn, Ne.symm hbreak.1⟩, ⟨hb, Ne.symm hbreak.2⟩, hq, Ne.symm hclose⟩
        simpa [Fragment.text] using ih hliteral h

theorem glides_code {w : List Char} (h : isCode .none w = true) (f : List Char) : Glides w f :=
  glides_of_isCode (x := .none) trivial h f

-- a text written out is known by its characters, which need not be decoded to look at them
theorem glides_written (s : String) {w : List Char} (hs : s = String.ofList w)
    (h : isCode .none w = true) (f : List Char) : Glides s.toList f := by
  rw [hs, String.toList_ofList]
  exact glides_code h f

theorem glides_identifier {name : String} (hn : isIdentifier name = true) {f : List Char}
    (hcont : (look f).continuesWord = false) (hopen : (look f).opensTag = false) :
    Glides name.toList f := by
  have := (Quiet.identifier (w := []) hn hcont hopen (.nil f)).glides
  rwa [List.append_nil] at this

/-! Lines -/

/-- A line that the scan passes, unless what could belong to a tag comes behind it. -/
structure Line (l : String) : Prop where
  glides : ∀ f, (look f).opensTag = false → Glides (l.toList ++ ['\n']) f
  opens : (look l.toList).opensTag = false

theorem line_of_isCode {l : String} (h : isCode .none (l.toList ++ ['\n']) = true)
    (hopen : (look l.toList).opensTag = false) : Line l := ⟨fun f _ => glides_code h f, hopen⟩

theorem line_written (l : String) {w : List Char} (hl : l = String.ofList w)
    (h : isCode .none (w ++ ['\n']) = true) (hopen : (look w).opensTag = false) : Line l := by
  rw [← String.toList_ofList (l := w), ← hl] at h hopen
  exact line_of_isCode h hopen

theorem line_spelled {l : String} {w : List Char} (hl : l.toList = w)
    (h : isCode .none (w ++ ['\n']) = true) (hopen : (look w).opensTag = false) : Line l := by
  rw [← hl] at h hopen
  exact line_of_isCode h hopen

theorem opensTag_append {v f : List Char} (hv : (look v).opensTag = false)
    (hf : (look f).opensTag = false) : (look (v ++ f)).opensTag = false := by
  simp only [look, List.dropWhile_append] at hv hf ⊢
  split
  · exact hf
  · rename_i hne
    obtain ⟨c, w, hc⟩ := List.exists_cons_of_ne_nil (by rwa [List.isEmpty_iff] at hne)
    rw [hc] at hv ⊢
    exact hv

namespace Companion

theorem unlines_toList (ls : List String) :
    (unlines ls).toList = (ls.map fun l => l.toList ++ ['\n']).flatten := by
  rw [unlines, String.toList_join, List.flatMap_def, List.map_map]
  congr 2
  funext l
  simp

theorem unlines_append (ls ms : List String) :
    (unlines (ls ++ ms)).toList = (unlines ls).toList ++ (unlines ms).toList := by
  simp only [unlines_toList, List.map_append, List.flatten_append]

theorem unlines_cons (l : String) (ls : List String) :
    (unlines (l :: ls)).toList = l.toList ++ '\n' :: (unlines ls).toList := by
  simp [unlines_toList]

theorem opensTag_unlines {ls : List String} (h : ∀ l ∈ ls, Line l) {f : List Char}
    (hf : (look f).opensTag = false) : (look ((unlines ls).toList ++ f)).opensTag = false := by
  induction ls with
  | nil => exact hf
  | cons l ls ih =>
    have hrest := ih fun l hl => h l (List.mem_cons_of_mem _ hl)
    rw [unlines_cons, List.append_assoc]
    exact opensTag_append (h l List.mem_cons_self).opens
      ((opensTag_blank (w := ['\n']) (by decide) _).trans hrest)

theorem glides_unlines {ls : List String} (h : ∀ l ∈ ls, Line l) {f : List Char}
    (hf : (look f).opensTag = false) : Glides (unlines ls).toList f := by
  induction ls with
  | nil => exact .nil f
  | cons l ls ih =>
    have hrest := fun l hl => h l (List.mem_cons_of_mem _ hl)
    have := ((h l List.mem_cons_self).glides _ (opensTag_unlines hrest hf)).append (ih hrest)
    rw [unlines_cons]
    simpa using this

/-! The comment above an accessor -/

def isEndless (w : List Char) : Bool := w.all (· ≠ '/') || w.all (· ≠ '*') && w.head? ≠ some '/'

theorem endless_of_isEndless {w : List Char} (h : isEndless w = true) : Endless w := by
  have not_mem {c : Char} (hc : w.all (· ≠ c) = true) : c ∉ w := fun hmem => by
    simpa using List.all_eq_true.1 hc c hmem
  rw [isEndless, Bool.or_eq_true, Bool.and_eq_true] at h
  rcases h with h | ⟨h, hhead⟩
  · exact endless_of_not_mem (not_mem h)
  · refine ⟨?_, of_decide_eq_true hhead⟩
    rintro ⟨a, b, rfl⟩
    exact not_mem h (by simp)

theorem endless_written (s : String) {w : List Char} (hs : s = String.ofList w)
    (h : isEndless w = true) : Endless s.toList := by
  rw [hs, String.toList_ofList]
  exact endless_of_isEndless h

theorem isPrefix_dropAllAtEnd (suffix cs : List Char) : dropAllAtEnd suffix cs <+: cs := by
  fun_induction dropAllAtEnd suffix cs with
  | case1 cs h ih => exact ih.trans (List.take_prefix _ _)
  | case2 => exact List.prefix_rfl

theorem replaceAll_quote {cs : List Char} (h : ¬['*', '/'] <:+: cs) :
    ¬['*', '/'] <:+: replaceAll ['\''] ['\\', '\''] cs := by
  fun_induction replaceAll ['\''] ['\\', '\''] cs with
  | case1 => exact h
  | case2 c rest hquote ih =>
    have hrest : ¬['*', '/'] <:+: rest := fun h' => h (h'.trans (List.suffix_cons ..).isInfix)
    simp only [List.cons_append, List.nil_append, infix_cons_iff]
    simpa using ih hrest
  | case3 c rest hquote ih =>
    rw [infix_cons_iff, not_or] at h ⊢
    refine ⟨?_, ih h.2⟩
    rintro ⟨hc, hslash⟩
    exact h.1 ⟨hc, head?_replaceAll (by decide) hslash⟩

theorem cell_endless {c : Column} (hc : ¬['*', '/'] <:+: c.name.toList) : Endless (cell c).toList := by
  rw [cell]
  split
  · rename_i hname
    have hslash : '/' ∉ c.name.toList := fun h =>
      absurd (Block.identifier_parts hname _ h) (by decide)
    have := (endless_of_not_mem (w := "r.".toList) (by decide)).append (endless_of_not_mem hslash)
    simpa using this
  · have hquoted := Endless.cons (c := '\'') (by decide) (by decide) (replaceAll_quote hc)
    have := (endless_of_not_mem (w := "r[".toList) (by decide)).append
      (hquoted.append (endless_of_not_mem (w := "']".toList) (by decide)))
    simpa using this

theorem intercalate_endless {texts : List String} (h : ∀ t ∈ texts, Endless t.toList) :
    Endless (String.intercalate ", " texts).toList := by
  rw [String.toList_intercalate]
  have comma : Endless ", ".toList := endless_of_not_mem (by decide)
  induction texts with
  | nil => exact endless_of_not_mem (by simp)
  | cons t ts ih =>
    have hfirst := h t List.mem_cons_self
    have hrest := ih fun t ht => h t (List.mem_cons_of_mem _ ht)
    cases ts with
    | nil => simpa using hfirst
    | cons u ts => simpa using hfirst.append (comma.append hrest)

theorem endless_splice {before after w : List Char} (hbefore : Endless before) (hw : Endless w)
    (hafter : Endless after) : Endless (before ++ (w ++ after)) :=
  hbefore.append (hw.append hafter)

section Accessor

variable {d : Declaration} {fileName : String} {a : Access}

def IsAccess (d : Declaration) (a : Access) : Prop := a = .sync d.name ∨ a = .async d.name

theorem accessorDoc_endless (ha : IsAccess d a) (hname : isIdentifier d.name = true)
    (hfile : '/' ∉ fileName.toList) (hcolumns : ∀ c ∈ d.columns, ¬['*', '/'] <:+: c.name.toList) :
    ∀ l ∈ accessorDoc d fileName a, Endless (l.toList ++ ['\n']) := by
  have file := endless_of_not_mem hfile
  have name : Endless d.name.toList := endless_of_not_mem fun h =>
    absurd (Block.identifier_parts hname _ h) (by decide)
  have query : Endless ('\x60' ::
      ((d.queries.head?.map fun q => queryDoc q.sql).getD "").toList) := by
    refine Endless.backtick ?_
    cases d.queries.head? with
    | none => decide
    | some q => exact queryDoc_endless q.sql
  have path : Endless (dropAllAtEnd ".sql".toList fileName.toList) :=
    endless_of_not_mem fun h => hfile ((isPrefix_dropAllAtEnd _ _).subset h)
  have cells : Endless (String.intercalate ", " (d.columns.map cell)).toList := by
    refine intercalate_endless fun t ht => ?_
    obtain ⟨c, hc, rfl⟩ := List.mem_map.1 ht
    exact cell_endless (hcolumns c hc)
  have mode : Endless a.mode.toList := by
    rcases ha with rfl | rfl
    · exact endless_written "synchronously" rfl (by decide)
    · exact endless_written "asynchronously" rfl (by decide)
  have reader : Endless a.reader.toList := by
    rcases ha with rfl | rfl
    · exact endless_written "readFileSync" rfl (by decide)
    · exact endless_written "readFile" rfl (by decide)
  have kind : Endless a.kind.toList := by
    rcases ha with rfl | rfl
    · exact endless_written "Sync" rfl (by decide)
    · exact endless_written "Async" rfl (by decide)
  have call : Endless a.call.toList := by
    rcases ha with rfl | rfl
    · have := endless_splice (endless_written "get" rfl (by decide)) name
        (endless_written "QuerySync()" rfl (by decide))
      simpa only [Access.sync, String.toList_append, List.append_assoc] using this
    · have := endless_splice (endless_written "await get" rfl (by decide)) name
        (endless_written "QueryAsync()" rfl (by decide))
      simpa only [Access.async, String.toList_append, List.append_assoc] using this
  have fixed (l : String) {w : List Char} (hl : l = String.ofList w)
      (h : isEndless (w ++ ['\n']) = true) : Endless (l.toList ++ ['\n']) := by
    rw [hl, String.toList_ofList]
    exact endless_of_isEndless h
  simp only [accessorDoc, List.forall_mem_cons, List.not_mem_nil, false_imp_iff, implies_true,
    and_true]
  refine ⟨?_, ?_, fixed _ rfl (by decide), ?_, fixed _ rfl (by decide),
    fixed _ rfl (by decide), fixed _ rfl (by decide), fixed _ rfl (by decide), ?_,
    fixed _ rfl (by decide), fixed _ rfl (by decide), fixed _ rfl (by decide),
    fixed _ rfl (by decide), ?_, fixed _ rfl (by decide), ?_, fixed _ rfl (by decide),
    fixed _ rfl (by decide)⟩
  · have := endless_splice
      (endless_written " * Helper which reads the file system " rfl (by decide)) mode
      (endless_splice (endless_written " to get a query object for ../" rfl (by decide)) file
        (fixed "." rfl (by decide)))
    simpa only [String.toList_append, List.append_assoc] using this
  · have hopen : " * (query: \x60".toList = " * (query: ".toList ++ ['\x60'] :=
      String.toList_append (s := " * (query: ") (t := "\x60")
    have := (endless_written " * (query: " rfl (by decide)).append
      (query.append (fixed "\x60)" rfl (by decide)))
    simpa only [String.toList_append, List.append_assoc, hopen, List.cons_append,
      List.nil_append] using this
  · have uses := (endless_written
      " * Uses \x60fs\x60 by default and caches the result so the disk is only accessed once. "
      rfl (by decide)).append (endless_written "You can pass in a custom \x60" rfl (by decide))
    have := endless_splice uses reader
      (fixed "\x60 function for use-cases where disk access is not possible." rfl (by decide))
    simpa only [String.toList_append, List.append_assoc] using this
  · have := endless_splice (endless_written " * import \x7bget" rfl (by decide)) name
      (endless_splice (endless_written "Query" rfl (by decide)) kind
        (endless_splice (endless_written "\x7d from './path/to/" rfl (by decide)) path
          (endless_splice (endless_written ".sql" rfl (by decide))
            (endless_of_isEndless (w := []) rfl) (fixed "'" rfl (by decide)))))
    simpa only [String.toList_append, List.append_assoc, String.toList_ofList,
      List.nil_append] using this
  · have := endless_splice (endless_written " *   const result = await pool.query(" rfl (by decide))
      call (fixed ")" rfl (by decide))
    simpa only [String.toList_append, List.append_assoc] using this
  · have := endless_splice (endless_written " *   return result.rows.map(r => [" rfl (by decide))
      cells (fixed "])" rfl (by decide))
    simpa only [String.toList_append, List.append_assoc] using this

theorem glides_accessorDoc (ha : IsAccess d a) (hname : isIdentifier d.name = true)
    (hfile : '/' ∉ fileName.toList) (hcolumns : ∀ c ∈ d.columns, ¬['*', '/'] <:+: c.name.toList)
    (f : List Char) :
    Glides (unlines (["/**"] ++ accessorDoc d fileName a ++ [" */"])).toList f := by
  have inside : Endless (unlines (accessorDoc d fileName a)).toList := by
    rw [unlines_toList]
    refine endless_flatten fun w hw => ?_
    obtain ⟨l, hl, rfl⟩ := List.mem_map.1 hw
    exact accessorDoc_endless ha hname hfile hcolumns l hl
  have body : Endless ("*\n".toList ++ ((unlines (accessorDoc d fileName a)).toList ++ [' '])) :=
    endless_splice (endless_of_isEndless (by decide)) inside (endless_of_isEndless (by decide))
  have := (Quiet.comment body.inside (.mark (c := '\n') (by decide) (.nil f))).glides
  simpa [unlines_append, unlines_cons, unlines_toList] using this

end Accessor

/-! The code -/

def isSettled (w : List Char) : Bool :=
  (w.dropWhile isBlank).head?.any fun c => c ≠ '<' && c ≠ '\x60'

theorem opensTag_of_isSettled {w : List Char} (h : isSettled w = true) (f : List Char) :
    (look (w ++ f)).opensTag = false := by
  rw [isSettled, Option.any_eq_true] at h
  obtain ⟨c, hc, hne⟩ := h
  obtain ⟨v, hv⟩ := List.head?_eq_some_iff.1 hc
  simp only [Bool.and_eq_true, decide_eq_true_eq] at hne
  rw [look, List.dropWhile_append, hv]
  simp [hne.1, hne.2]

theorem opensTag_written (s : String) {w : List Char} (hs : s = String.ofList w)
    (h : isSettled w = true) (f : List Char) : (look (s.toList ++ f)).opensTag = false := by
  rw [hs, String.toList_ofList]
  exact opensTag_of_isSettled h f

theorem isIdentifier_around {first name rest : String} (hfirst : isIdentifier first = true)
    (hname : isIdentifier name = true) (hrest : rest.toList.all isIdentifierPart = true) :
    isIdentifier (first ++ name ++ rest) = true := by
  have hmore : ∀ c ∈ name.toList ++ rest.toList, isIdentifierPart c = true := fun c hc =>
    (List.mem_append.1 hc).elim (Block.identifier_parts hname c) (List.all_eq_true.1 hrest c)
  exact Declaration.isIdentifier_append hfirst hmore (by simp)

theorem glides_number (n : Nat) (f : List Char) :
    Glides ("params['$" ++ toString n ++ "']").toList f := by
  have hdigit {c : Char} (hc : c.isDigit = false) : c ∉ (toString n).toList := fun h => by
    rw [Declaration.digits_isDigit n c h] at hc
    exact nomatch hc
  have clean {c : Char} (hc : c.isDigit = false) (hd : c ≠ '$') : c ∉ '$' :: (toString n).toList := by
    rw [List.mem_cons, not_or]
    exact ⟨hd, hdigit hc⟩
  have literal := glides_literal (clean (c := '\n') (by decide) (by decide))
    (clean (by decide) (by decide)) (clean (by decide) (by decide)) (']' :: f)
  have := (glides_written "params[" rfl (by decide) _).append
    (literal.append (glides_written "]" rfl (by decide) f))
  simpa using this

theorem glides_numbers (ps : List (Nat × Param)) (f : List Char) :
    Glides (String.intercalate ", " (ps.map fun (i, _) =>
      "params['$" ++ toString i ++ "']")).toList f := by
  rw [String.toList_intercalate]
  induction ps with
  | nil => exact .nil f
  | cons p ps ih =>
    cases ps with
    | nil => simpa using glides_number p.1 f
    | cons q ps =>
      have := (glides_number p.1 _).append ((glides_written ", " rfl (by decide) _).append ih)
      simpa using this

section Accessor

variable {d : Declaration} {a : Access}

theorem isIdentifier_getterOf (ha : IsAccess d a) (hname : isIdentifier d.name = true) :
    isIdentifier ("get" ++ d.name ++ ("Query" ++ a.kind)) = true := by
  refine isIdentifier_around (by decide) hname ?_
  rcases ha with rfl | rfl
  · exact (by decide : ("Query" ++ "Sync").toList.all isIdentifierPart = true)
  · exact (by decide : ("Query" ++ "Async").toList.all isIdentifierPart = true)

theorem isIdentifier_options {kind : String} (hkind : kind = "Sync" ∨ kind = "Async")
    (hname : isIdentifier d.name = true) :
    isIdentifier ("Get" ++ d.name ++ ("Query" ++ kind ++ "Options")) = true := by
  refine isIdentifier_around (by decide) hname ?_
  rcases hkind with rfl | rfl <;> decide

theorem glides_result (ha : IsAccess d a) (hname : isIdentifier d.name = true) (f : List Char) :
    Glides a.result.toList f := by
  rcases ha with rfl | rfl
  · have := (glides_written "TaggedTemplateLiteralInvocationType<" rfl (by decide) _).append
      ((glides_identifier hname rfl rfl).append (glides_written ">" rfl (by decide) f))
    simpa only [Access.sync, String.toList_append, List.append_assoc] using this
  · have := (glides_written "Promise<TaggedTemplateLiteralInvocationType<" rfl (by decide) _).append
        ((glides_identifier hname rfl rfl).append (glides_written ">>" rfl (by decide) f))
    simpa only [Access.async, String.toList_append, List.append_assoc] using this

theorem accessorCode_lines (ha : IsAccess d a) (hname : isIdentifier d.name = true) :
    ∀ l ∈ accessorCode d a, Line l := by
  have params : ∀ l ∈ if d.params = [] then [] else ["  params,"], Line l := by
    split
    · nofun
    · rw [List.forall_mem_singleton]
      exact line_written _ rfl (by decide) (by decide)
  simp only [accessorCode, List.forall_mem_append, List.forall_mem_cons, List.not_mem_nil,
    false_imp_iff, implies_true, and_true]
  refine ⟨⟨⟨?_, ?_⟩, params⟩, ?_, ?_, line_written _ rfl (by decide) (by decide), ?_,
    line_written _ rfl (by decide) (by decide)⟩
  · refine ⟨fun f _ => ?_, ?_⟩
    · have arrow (g : List Char) : Glides a.arrow.toList g := by
        rcases ha with rfl | rfl
        · exact glides_written "" rfl (by decide) g
        · exact glides_written "async " rfl (by decide) g
      have hword : "export const get".toList = "export const ".toList ++ "get".toList :=
        String.toList_append (s := "export const ") (t := "get")
      have := (glides_written "export const " rfl (by decide) _).append
        ((glides_identifier (isIdentifier_getterOf ha hname) rfl rfl).append
          ((glides_written " = " rfl (by decide) _).append
            ((arrow _).append (glides_code (w := "(\x7b".toList ++ ['\n']) (by decide) f))))
      simpa only [String.toList_append, List.append_assoc, hword] using this
    · simp only [String.toList_append, List.append_assoc]
      exact opensTag_written _ rfl (by decide) _
  · rcases ha with rfl | rfl
    · exact line_spelled (l := "  " ++ "readFileSync" ++ " = " ++ "defaultReadFileSync" ++ ",") (by
          repeat rewrite [String.toList_append]
          repeat rewrite [String.toList_ofList]
          rfl) (by decide) (by decide)
    · exact line_spelled (l := "  " ++ "readFile" ++ " = " ++ "defaultReadFileAsync" ++ ",") (by
          repeat rewrite [String.toList_append]
          repeat rewrite [String.toList_ofList]
          rfl) (by decide) (by decide)
  · have hkind : a.kind = "Sync" ∨ a.kind = "Async" := ha.imp (congrArg Access.kind) (congrArg Access.kind)
    have hword : "\x7d: Get".toList = "\x7d: ".toList ++ "Get".toList :=
      String.toList_append (s := "\x7d: ") (t := "Get")
    refine ⟨fun f _ => ?_, ?_⟩
    · have brace := glides_written "\x7d: " rfl (by decide)
      have result := glides_result ha hname
      have last := glides_code (w := " => (\x7b".toList ++ ['\n']) (by decide) f
      have options := isIdentifier_options hkind hname
      split
      · have := (brace _).append ((glides_identifier options rfl rfl).append
          ((glides_written " = \x7b\x7d" rfl (by decide) _).append
            ((glides_written "): " rfl (by decide) _).append ((result _).append last))))
        simpa only [String.toList_append, List.append_assoc, hword] using this
      · have := (brace _).append ((glides_identifier options rfl rfl).append
          ((glides_written "" rfl (by decide) _).append
            ((glides_written "): " rfl (by decide) _).append ((result _).append last))))
        simpa only [String.toList_append, List.append_assoc, hword] using this
    · simp only [String.toList_append, List.append_assoc]
      exact opensTag_written _ rfl (by decide) _
  · rcases ha with rfl | rfl
    · exact line_spelled (l := "  sql: " ++ "readFileSync(sqlPath).toString()" ++ ",") (by
          repeat rewrite [String.toList_append]
          repeat rewrite [String.toList_ofList]
          rfl) (by decide) (by decide)
    · exact line_spelled (l := "  sql: " ++ "(await readFile(sqlPath)).toString()" ++ ",") (by
          repeat rewrite [String.toList_append]
          repeat rewrite [String.toList_ofList]
          rfl) (by decide) (by decide)
  · refine ⟨fun f _ => ?_, ?_⟩
    · have := (glides_written "  values: [" rfl (by decide) _).append
        ((glides_numbers (numbered d.params) _).append
          (glides_code (w := "],".toList ++ ['\n']) (by decide) f))
      simpa only [String.toList_append, List.append_assoc] using this
    · simp only [String.toList_append, List.append_assoc]
      exact opensTag_written _ rfl (by decide) _

variable {fileName defaultType : String}

theorem opensTag_accessor (d : Declaration) (fileName : String) (a : Access) (f : List Char) :
    (look ((accessor d fileName a).toList ++ f)).opensTag = false := by
  rw [accessor, List.append_assoc, List.append_assoc, List.singleton_append, unlines_cons,
    List.append_assoc]
  exact opensTag_of_isSettled (by decide) _

theorem glides_accessor (ha : IsAccess d a) (hname : isIdentifier d.name = true)
    (hfile : '/' ∉ fileName.toList) (hcolumns : ∀ c ∈ d.columns, ¬['*', '/'] <:+: c.name.toList)
    {f : List Char} (hf : (look f).opensTag = false) :
    Glides (accessor d fileName a).toList f := by
  rw [accessor, unlines_append]
  exact (glides_accessorDoc ha hname hfile hcolumns _).append
    (glides_unlines (accessorCode_lines ha hname) hf)

/-! What stands in front of the path and behind it -/

theorem isIdentifier_paramsName (hname : isIdentifier d.name = true) :
    isIdentifier ("Get" ++ d.name ++ "QueryParams") = true :=
  isIdentifier_around (by decide) hname (by decide)

theorem line_param (hd : isIdentifier defaultType = true) {p : Param}
    (hp : p.hostType.Scannable) (i : Nat) :
    Line ("  $" ++ toString i ++ ": " ++ p.hostType.render defaultType) := by
  have hnumber : isIdentifier ("$" ++ toString i) = true :=
    Declaration.isIdentifier_append (by decide : isIdentifier "$" = true)
      (Declaration.isIdentifierPart_digits i) (by simp)
  have hword : "  $".toList = "  ".toList ++ "$".toList :=
    String.toList_append (s := "  ") (t := "$")
  refine ⟨fun f hf => ?_, ?_⟩
  · have hopen : (look (['\n'] ++ f)).opensTag = false :=
      (opensTag_blank (by decide) f).trans hf
    have type := (quiet_hostType hp hd (w := ['\n']) rfl hopen (.mark (by decide) (.nil f))).glides
    have := (glides_written "  " rfl (by decide) _).append
      ((glides_identifier hnumber rfl rfl).append
        ((glides_written ": " rfl (by decide) _).append type))
    simpa only [String.toList_append, List.append_assoc, hword] using this
  · simp only [String.toList_append, List.append_assoc]
    exact opensTag_of_isSettled (by decide) _

theorem interface_toList :
    "export interface Get".toList = "export interface ".toList ++ "Get".toList :=
  String.toList_append (s := "export interface ") (t := "Get")

theorem paramsInterface_lines (hname : isIdentifier d.name = true)
    (hd : isIdentifier defaultType = true) (hparams : ∀ p ∈ d.params, p.hostType.Scannable) :
    ∀ l ∈ paramsInterface defaultType d, Line l := by
  rw [paramsInterface]
  split
  · nofun
  · simp only [List.forall_mem_append, List.forall_mem_cons, List.not_mem_nil, false_imp_iff,
      implies_true, and_true]
    refine ⟨⟨⟨line_of_isCode (by decide) (by decide), ?_⟩, fun l hl => ?_⟩,
      line_of_isCode (by decide) (by decide)⟩
    · have hlast : "QueryParams \x7b".toList = "QueryParams".toList ++ " \x7b".toList :=
        String.toList_append (s := "QueryParams") (t := " \x7b")
      refine ⟨fun f _ => ?_, ?_⟩
      · have := (glides_written "export interface " rfl (by decide) _).append
          ((glides_identifier (isIdentifier_paramsName hname) rfl rfl).append
            (glides_code (w := " \x7b".toList ++ ['\n']) (by decide) f))
        simpa only [String.toList_append, List.append_assoc, interface_toList, hlast] using this
      · simp only [String.toList_append, List.append_assoc]
        exact opensTag_written _ rfl (by decide) _
    · obtain ⟨⟨i, p⟩, hp, rfl⟩ := List.mem_map.1 hl
      exact line_param hd (hparams p (List.of_mem_zip hp).2) i

theorem optionsInterface_lines {kind method : String} (hkind : kind = "Sync" ∨ kind = "Async")
    (hmethod : Line ("  " ++ method)) (hname : isIdentifier d.name = true) :
    ∀ l ∈ optionsInterface d kind method, Line l := by
  simp only [optionsInterface, List.forall_mem_append, List.forall_mem_cons, List.not_mem_nil,
    false_imp_iff, implies_true, and_true]
  refine ⟨⟨⟨line_of_isCode (by decide) (by decide), ?_, hmethod⟩, ?_⟩,
    line_of_isCode (by decide) (by decide)⟩
  · have hlast : "Options \x7b".toList = "Options".toList ++ " \x7b".toList :=
      String.toList_append (s := "Options") (t := " \x7b")
    refine ⟨fun f _ => ?_, ?_⟩
    · have := (glides_written "export interface " rfl (by decide) _).append
        ((glides_identifier (isIdentifier_options hkind hname) rfl rfl).append
          (glides_code (w := " \x7b".toList ++ ['\n']) (by decide) f))
      simpa only [String.toList_append, List.append_assoc, interface_toList, hlast] using this
    · simp only [String.toList_append, List.append_assoc]
      exact opensTag_written _ rfl (by decide) _
  · split
    · nofun
    · have hword : "  params: Get".toList = "  params: ".toList ++ "Get".toList :=
        String.toList_append (s := "  params: ") (t := "Get")
      rw [List.forall_mem_singleton]
      refine ⟨fun f hf => ?_, ?_⟩
      · have := (glides_written "  params: " rfl (by decide) _).append
          ((glides_identifier (isIdentifier_paramsName hname) rfl
            ((opensTag_blank (by decide) f).trans hf)).append
            (glides_code (w := ['\n']) (by decide) f))
        simpa only [String.toList_append, List.append_assoc, hword] using this
      · simp only [String.toList_append, List.append_assoc]
        exact opensTag_written _ rfl (by decide) _

theorem glides_behindPath (hname : isIdentifier d.name = true)
    (hd : isIdentifier defaultType = true) (hparams : ∀ p ∈ d.params, p.hostType.Scannable) :
    Glides (behindPath d defaultType).toList [] := by
  have sync : Line ("  " ++ "readFileSync?: (filepath: string) => FileContent") :=
    line_spelled (by
      rewrite [String.toList_append, String.toList_ofList, String.toList_ofList]
      rfl) (by decide) (by decide)
  have async : Line ("  " ++ "readFile?: (filepath: string) => Promise<FileContent>") :=
    line_spelled (by
      rewrite [String.toList_append, String.toList_ofList, String.toList_ofList]
      rfl) (by decide) (by decide)
  rw [behindPath]
  refine glides_unlines ?_ rfl
  simp only [List.forall_mem_append]
  refine ⟨⟨⟨⟨⟨⟨?_, paramsInterface_lines hname hd hparams⟩,
    optionsInterface_lines (.inl rfl) sync hname⟩, optionsInterface_lines (.inr rfl) async hname⟩,
    ?_⟩, ?_⟩, ?_⟩
  -- what is left has nothing of the query in it
  all_goals
    simp only [cachedReader, List.forall_mem_cons, List.not_mem_nil, false_imp_iff, implies_true,
      and_true]
    and_intros <;> first
      | exact line_written _ rfl (by decide) (by decide)
      | exact line_spelled (by
          repeat rewrite [String.toList_append]
          repeat rewrite [String.toList_ofList]
          rfl) (by decide) (by decide)

theorem line_declaration (hname : isIdentifier d.name = true)
    (hcolumns : ∀ c ∈ d.columns, c.Scannable) (hd : isIdentifier defaultType = true) :
    Line (d.render defaultType "") := by
  refine ⟨fun f _ => ?_, ?_⟩
  · exact ((Declaration.quiet_render_indented (by decide) hname hcolumns hd (['\n'] ++ f)).append
      (.mark (by decide) (.nil f))).glides
  · rw [Declaration.render, Declaration.queriesDoc]
    split <;> simp only [String.toList_append, List.append_assoc, String.toList_empty,
      List.nil_append]
    · exact opensTag_of_isSettled (by decide) _
    · exact opensTag_of_isSettled (by decide) _

theorem glides_imports (hdeclaration : Line (d.render defaultType "")) {f : List Char}
    (hf : (look f).opensTag = false) :
    Glides (unlines [
      "import \x7bTaggedTemplateLiteralInvocationType\x7d from 'slonik'",
      "import * as path from 'path'",
      "import * as fs from 'fs'",
      "",
      d.render defaultType "",
      ""]).toList f := by
  refine glides_unlines ?_ hf
  simp only [List.forall_mem_cons, List.not_mem_nil, false_imp_iff, implies_true, and_true]
  refine ⟨?_, ?_, ?_, ?_, hdeclaration, ?_⟩ <;>
    exact line_written _ rfl (by decide) (by decide)

theorem glides_beforePath (hname : isIdentifier d.name = true)
    (hd : isIdentifier defaultType = true) (hfile : '/' ∉ fileName.toList)
    (hcolumns : ∀ c ∈ d.columns, c.Scannable ∧ ¬['*', '/'] <:+: c.name.toList) {f : List Char}
    (hf : (look f).opensTag = false) : Glides (beforePath d fileName defaultType).toList f := by
  have names := fun c hc => (hcolumns c hc).2
  have async := glides_accessor (a := .async d.name) (.inr rfl) hname hfile names hf
  have line := (glides_written "\n" rfl (by decide) _).append async
  have sync := (glides_accessor (a := .sync d.name) (.inl rfl) hname hfile names (by
    rw [List.append_assoc, opensTag_blank (by decide)]
    exact opensTag_accessor ..)).append line
  have := (glides_imports (line_declaration hname (fun c hc => (hcolumns c hc).1) hd) (by
    rw [List.append_assoc]
    exact opensTag_accessor ..)).append sync
  simpa only [beforePath, String.toList_append, List.append_assoc] using this

end Accessor

/-- Nothing in the declaration ends a comment or a literal of its companion too early. -/
structure Embeddable (d : Declaration) : Prop where
  columns : ∀ c ∈ d.columns, c.Scannable ∧ ¬['*', '/'] <:+: c.name.toList
  params : ∀ p ∈ d.params, p.hostType.Scannable

section Companion

theorem exists_behindPath (d : Declaration) (defaultType : String) :
    ∃ rest, (behindPath d defaultType).toList = ')' :: '\n' :: rest := by
  rw [behindPath]
  simp only [List.cons_append, unlines_cons]
  exact ⟨_, rfl⟩

variable {d : Declaration} {sqlPath fileName defaultType : String}

theorem glides_pathLiteral (h : fileName.toList.all Text.isLiteral = true) (f : List Char) :
    Glides (pathLiteral fileName).toList f := by
  have clean {c : Char} (hc : Text.isLiteral c = false) (hd : c ∉ "../".toList) :
      c ∉ ("../" ++ fileName).toList := by
    rw [String.toList_append, List.mem_append, not_or]
    refine ⟨hd, fun hmem => ?_⟩
    rw [List.all_eq_true.1 h c hmem] at hc
    exact nomatch hc
  have := glides_literal (clean (c := '\n') (by decide) (by decide))
    (clean (by decide) (by decide)) (clean (by decide) (by decide)) f
  simpa [pathLiteral] using this

/-- If nothing in the declaration and in the name of the file needs an escape that it does not get,
the companion can be scanned and has no tags. What stands in front of the path of the file can be
scanned in any case, and what is read as that path is the path if and only if the name needs no
escape. -/
theorem companion_readable (hfile : Path.fileName? sqlPath = some fileName)
    (hname : isIdentifier d.name = true) (hd : isIdentifier defaultType = true) :
    (Embeddable d → fileName.toList.all Text.isLiteral = true →
      Tag.scan (render d sqlPath defaultType) = .ok []) ∧
    ∃ after, (render d sqlPath defaultType).toList = (beforePath d fileName defaultType).toList ++
        ("const sqlPath = path.join(__dirname, '".toList ++ after) ∧
      (Embeddable d → Tag.scan (beforePath d fileName defaultType) = .ok []) ∧
      (Text.literalValue? after = some (Text.utf16 ("../" ++ fileName).toList) ↔
        fileName.toList.all Text.isLiteral = true) := by
  have hslash := Path.slash_not_mem_fileName? hfile
  have hrender : render d sqlPath defaultType =
      beforePath d fileName defaultType ++ "const sqlPath = path.join(__dirname, " ++
        pathLiteral fileName ++ behindPath d defaultType := by
    rw [render, hfile]
    rfl
  have hbefore (h : Embeddable d) {f : List Char} (hf : (look f).opensTag = false) :=
    glides_beforePath hname hd hslash h.columns hf
  refine ⟨fun hembeddable hliteral => ?_, ('.' :: '.' :: '/' :: fileName.toList) ++
    '\'' :: (behindPath d defaultType).toList, ?_, fun hembeddable => ?_, ?_⟩
  · have code := (glides_written "const sqlPath = path.join(__dirname, " rfl (by decide) _).append
      ((glides_pathLiteral hliteral _).append (glides_behindPath hname hd hembeddable.params))
    have := (hbefore hembeddable (by
      rw [List.append_assoc]
      exact opensTag_written _ rfl (by decide) _)).append code
    have hscan := this.scan_eq
    rw [hrender]
    simpa only [← String.toList_append, String.ofList_toList, ← String.append_assoc] using hscan
  · have hquote : "const sqlPath = path.join(__dirname, '".toList =
        "const sqlPath = path.join(__dirname, ".toList ++ ['\''] := by decide +kernel
    have hopen : "'../".toList = ['\'', '.', '.', '/'] := by decide
    have hclose : "'".toList = ['\''] := by decide
    simp only [hrender, pathLiteral, String.toList_append, List.append_assoc, hquote, hopen, hclose,
      List.cons_append, List.nil_append]
  · simpa only [String.ofList_toList] using (hbefore hembeddable (f := []) rfl).scan_eq
  · obtain ⟨rest, hrest⟩ := exists_behindPath d defaultType
    have hiff := Text.literalValue?_eq_utf16_iff ("../" ++ fileName).toList rest
    rw [hrest]
    simpa [Text.isLiteral] using hiff

def testTable : Declaration where
  name := "TestTable"
  shape := []
  columns := [⟨"?column?", true, "int4", "integer", .number, some "public.test_table.a"⟩]
  params := [⟨"integer", .number⟩]
  queries := [⟨"src/test-table.sql", ⟨0, 0⟩, 1, "select a from test_table where a = $1", none, 0,
    .sqlFile, 1⟩]

theorem testTable_embeddable : Embeddable testTable where
  columns := by
    rw [testTable, List.forall_mem_singleton]
    have regtype : Endless "integer".toList := endless_of_isEndless (by decide)
    have source : Endless "public.test_table.a".toList := endless_of_isEndless (by decide)
    have name : Endless "?column?".toList := endless_of_isEndless (by decide)
    refine ⟨⟨by decide, regtype.inside, fun s hs => ?_, trivial⟩, name.inside⟩
    rw [← Option.some.inj hs]
    exact source.inside
  params := by
    rw [testTable, List.forall_mem_singleton]
    trivial

theorem testTable_readable :
    Path.fileName? "src/test-table.sql" = some "test-table.sql" ∧
      isIdentifier testTable.name = true ∧ isIdentifier "unknown" = true ∧
      Tag.scan (render testTable "src/test-table.sql" "unknown") = .ok [] := by
  have hfile : Path.fileName? "src/test-table.sql" = some "test-table.sql" := by decide +kernel
  have hname : isIdentifier testTable.name = true := by decide
  have hd : isIdentifier "unknown" = true := by decide
  exact ⟨hfile, hname, hd, (companion_readable hfile hname hd).1 testTable_embeddable (by decide)⟩

theorem scanFrom_openLiteral (b : Before) (p : Place) (rest : List Char) :
    scanFrom b p ('\'' :: ')' :: '\n' :: rest) = .error ⟨.string, p.line⟩ := by
  rw [scanFrom_cons]
  rfl

/-- A quote in the name of the file ends the literal with its path, and the next quote opens another
one, which does not end on its line. -/
theorem companion_not_readable :
    Path.fileName? "it's.sql" = some "it's.sql" ∧ isIdentifier testTable.name = true ∧
      isIdentifier "unknown" = true ∧ Embeddable testTable ∧
      ∃ e, Tag.scan (render testTable "it's.sql" "unknown") = .error e := by
  have hfile : Path.fileName? "it's.sql" = some "it's.sql" := by decide +kernel
  have hname : isIdentifier testTable.name = true := by decide
  have hd : isIdentifier "unknown" = true := by decide
  refine ⟨hfile, hname, hd, testTable_embeddable, ?_⟩
  obtain ⟨rest, hrest⟩ := exists_behindPath testTable "unknown"
  have name := glides_identifier (by decide : isIdentifier "sql" = true) (f := '\'' :: ')' :: '\n' :: rest) rfl rfl
  have path := (glides_literal (s := "../it".toList) (by decide) (by decide) (by decide) _).append
    ((glides_written "s." rfl (by decide) _).append name)
  have code := (glides_written "const sqlPath = path.join(__dirname, " rfl (by decide)
    _).append path
  have before := (glides_beforePath hname hd (by decide : '/' ∉ "it's.sql".toList)
    testTable_embeddable.columns (by
      rw [List.append_assoc]
      exact opensTag_written _ rfl (by decide) _)).append code
  obtain ⟨b, hpasses⟩ := before .operator
  have hscan := (hpasses .start _ rfl).1
  rw [scanFrom_openLiteral] at hscan
  have hliteral : (pathLiteral "it's.sql").toList = '\'' :: ("../it".toList ++ ['\'']) ++
      ("s.".toList ++ ("sql".toList ++ ['\''])) := by decide
  refine ⟨_, Eq.trans (congrArg (scanFrom .operator .start) ?_) hscan⟩
  rw [render, hfile, Option.getD_some]
  simp only [String.toList_append, hliteral, hrest, List.append_assoc, List.cons_append,
    List.nil_append]

end Companion

end Companion
end RowTypes
