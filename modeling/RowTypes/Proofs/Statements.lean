import RowTypes.Proofs.Literals

/-! Source texts made of statements: literals, paths and tags, each before a semicolon, with blanks
and comments between them. The scan finds the tags and nothing else, whatever stands in the
literals and comments. Blanks are those of code; another blank is a letter to the scan. -/

namespace RowTypes

theorem QuotedText.closes (s : QuotedText) : Code.Closes [.quoted 0 s.quote] s.body := by
  intro stack p f hs
  obtain ⟨e, outer, rfl⟩ := Code.exists_cons_of_map_eq hs
  obtain ⟨he, ho⟩ := List.cons.inj hs
  obtain rfl := List.map_eq_nil_iff.1 ho
  cases e <;> cases he
  rw [s.skim_body, Code.skim.eq_1]

theorem RegexText.closes (r : RegexText) : Code.Closes [.regex 0 false] r.body := by
  intro stack p f hs
  obtain ⟨e, outer, rfl⟩ := Code.exists_cons_of_map_eq hs
  obtain ⟨he, ho⟩ := List.cons.inj hs
  obtain rfl := List.map_eq_nil_iff.1 ho
  cases e <;> cases he
  rw [r.skim_body, Code.skim.eq_1]

namespace Tag
open Code

structure WordText where
  first : Char
  rest : List Char
  starts : Code.startsWord first = true := by decide
  continues : rest.all Code.continuesWord = true := by decide

def WordText.text (w : WordText) : List Char := w.first :: w.rest

inductive Gap where
  | blank (c : Char) (h : Code.isBlank c = true)
  | lineComment (body : List Char) (h : '\n' ∉ body)
  | blockComment (body : List Char) (h : ¬['*', '/'] <:+: body)

def Gap.text : Gap → List Char
  | .blank c _ => [c]
  | .lineComment body _ => '/' :: '/' :: (body ++ ['\n'])
  | .blockComment body _ => '/' :: '*' :: (body ++ ['*', '/'])

def gapText (gs : List Gap) : List Char := gs.flatMap Gap.text

def pathText (ws : List WordText) : List Char := ws.flatMap fun w => '.' :: w.text

def receiverText (ws : List WordText) : List Char := ws.flatMap fun w => w.text ++ ['.']

/-- What stands before a semicolon. A word of a path may be `sql`, and so may the whole path. -/
inductive Item where
  | quoted (s : QuotedText)
  | template (t : TemplateText) (h : t.Valid)
  | regex (r : RegexText)
  | path (w : WordText) (ws : List WordText)
  | tag (receiver : List WordText) (gap : List Char) (hgap : gap.all Code.isBlank = true)
      (t : TemplateText) (h : t.Valid)

namespace Item

def text : Item → List Char
  | quoted s => s.text
  | template t _ => '\x60' :: t.text
  | regex r => r.text
  | path w ws => w.text ++ pathText ws
  | tag receiver gap _ t _ => receiverText receiver ++ (Tag.word ++ (gap ++ '\x60' :: t.text))

def tags (p : Place) : Item → List Tag
  | tag receiver gap _ t _ =>
    let start := p.after (receiverText receiver)
    let tagEnd := start.after Tag.word
    let template := tagEnd.after gap
    [⟨tagEnd.offset, none, ⟨template.offset, (template.after ('\x60' :: t.text)).offset⟩,
      start.line, String.ofList (t.cooked 0), t.interpolations⟩]
  | _ => []

end Item

structure Statement where
  gaps : List Gap
  item : Item

def Statement.text (s : Statement) : List Char := gapText s.gaps ++ (s.item.text ++ [';'])

structure SourceText where
  statements : List Statement
  gaps : List Gap

def SourceText.text (s : SourceText) : List Char :=
  s.statements.flatMap Statement.text ++ gapText s.gaps

def tagsOf (p : Place) : List Statement → List Tag
  | [] => []
  | s :: ss => s.item.tags (p.after (gapText s.gaps)) ++ tagsOf (p.after s.text) ss

theorem passes_gap (g : Gap) (f : List Char) : Passes .operator g.text f .operator := by
  cases g with
  | blank c h =>
    have hmark : isMark c = true := by
      simp only [isBlank, Bool.or_eq_true, decide_eq_true_eq] at h
      rcases h with (((rfl | rfl) | rfl) | rfl) | rfl <;> decide
    have hread : Before.operator.read c = .operator := by simp [Before.read, h]
    have := passes_mark hmark .operator f
    rwa [hread] at this
  | lineComment body h =>
    have hcomment := passes_lineComment (f := '\n' :: f) h .operator rfl
    have hbreak : Passes .operator ['\n'] f .operator := passes_mark (by decide) .operator f
    have := hcomment.append hbreak
    simpa [Gap.text] using this
  | blockComment body h => exact passes_comment h .operator f

theorem passes_gaps (gs : List Gap) (f : List Char) :
    Passes .operator (gapText gs) f .operator := by
  induction gs with
  | nil => exact Passes.nil .operator f
  | cons g gs ih => exact (passes_gap g _).append ih

theorem passes_wordText (w : WordText) (b : Before) {c : Char} (hc : c = '.' ∨ c = ';')
    (f : List Char) : Passes b w.text (c :: f) .operand := by
  have hcont : (look (c :: f)).continuesWord = false := by rcases hc with rfl | rfl <;> rfl
  have hopen : (look (c :: f)).opensTag = false := by rcases hc with rfl | rfl <;> rfl
  exact passes_word w.starts (List.all_eq_true.1 w.continues) hcont (fun _ => hopen) b

theorem passes_path (w : WordText) (ws : List WordText) (b : Before) (f : List Char) :
    Passes b (w.text ++ pathText ws) (';' :: f) .operand := by
  induction ws generalizing w b with
  | nil =>
    rw [pathText, List.flatMap_nil, List.append_nil]
    exact passes_wordText w b (.inr rfl) f
  | cons v ws ih =>
    have hdot := (passes_mark (c := '.') (by decide) .operand _).append (ih v .operator)
    exact (passes_wordText w b (.inl rfl) _).append hdot

theorem passes_receiver (ws : List WordText) (f : List Char) :
    Passes .operator (receiverText ws) f .operator := by
  induction ws with
  | nil => exact Passes.nil .operator f
  | cons w ws ih =>
    have hdot : Passes .operand ['.'] (receiverText ws ++ f) .operator :=
      passes_mark (by decide) .operand _
    exact ((passes_wordText w .operator (.inl rfl) _).append hdot).append ih

theorem passes_regex (r : RegexText) (f : List Char) :
    Passes .operator r.text (';' :: f) .operator := by
  refine passes_of_next fun p g hg => ?_
  have hcomment : (look (r.body ++ r.flags ++ g)).makesComment = false := by
    have hfirst := r.noComment
    obtain ⟨c, w, hbody⟩ := List.exists_cons_of_ne_nil r.body_ne_nil
    rw [← RegexText.body, hbody] at hfirst
    simpa [hbody, look] using hfirst
  exact next_regex (by decide) r.closes hcomment (List.all_eq_true.1 r.areFlags)
    (by rw [hg]; rfl) p

theorem scanFrom_item (i : Item) (p : Place) (f : List Char) :
    ∃ b, scanFrom .operator p (i.text ++ ';' :: f) =
      (scanFrom b (p.after i.text) (';' :: f)).map (i.tags p ++ ·) := by
  have hplain {w : List Char} {b : Before} (hw : Passes .operator w (';' :: f) b) :
      scanFrom .operator p (w ++ ';' :: f) =
        (scanFrom b (p.after w) (';' :: f)).map ([] ++ ·) := by
    rw [(hw p _ rfl).1]
    cases scanFrom b (p.after w) (';' :: f) <;> rfl
  cases i with
  | quoted s => exact ⟨_, hplain (passes_of_next fun p g _ => next_quoted s.isQuote s.closes p)⟩
  | template t h => exact ⟨_, hplain (passes_of_next fun p g _ => next_template (t.cooks h 0) p)⟩
  | regex r => exact ⟨_, hplain (passes_regex r f)⟩
  | path w ws => exact ⟨_, hplain (passes_path w ws .operator f)⟩
  | tag receiver gap hgap t h =>
    have htag : TagText.Valid ⟨⟨gap, none⟩, t.text, t.cooked 0, 0 + t.interpolations⟩ :=
      ⟨⟨List.all_eq_true.1 hgap, by simp⟩, t.cooks h 0⟩
    have hreceiver := (passes_receiver receiver _ p (Tag.word ++ (gap ++ '\x60' :: t.text) ++
      ';' :: f) rfl).1
    refine ⟨.operand, ?_⟩
    rw [Item.text, List.append_assoc, hreceiver]
    refine (scanFrom_tag htag .operator _ _).trans ?_
    simp only [TagText.tag, TagText.text, TagText.heading, HeadingText.text, HeadingText.span,
      Option.map_none, Item.tags, Place.after_append, Nat.zero_add]
    rfl

theorem scanFrom_semicolon (b : Before) (p : Place) (f : List Char) :
    scanFrom b p (';' :: f) = scanFrom .operator (p.next ';') f := by
  have hread : b.read ';' = .operator := by cases b <;> rfl
  have h := (passes_mark (c := ';') (by decide) b f p f rfl).1
  rwa [hread] at h

theorem scanFrom_statements (ss : List Statement) (p : Place) (f : List Char) :
    scanFrom .operator p (ss.flatMap Statement.text ++ f) =
      (scanFrom .operator (p.after (ss.flatMap Statement.text)) f).map (tagsOf p ss ++ ·) := by
  induction ss generalizing p with
  | nil =>
    rw [List.flatMap_nil, List.nil_append, Place.after_nil]
    cases scanFrom .operator p f <;> rfl
  | cons s ss ih =>
    have hgaps := (passes_gaps s.gaps (s.item.text ++ ';' :: (ss.flatMap Statement.text ++ f)) p
      _ rfl).1
    obtain ⟨b, hitem⟩ := scanFrom_item s.item (p.after (gapText s.gaps))
      (ss.flatMap Statement.text ++ f)
    have htext : (s :: ss).flatMap Statement.text ++ f =
        gapText s.gaps ++ (s.item.text ++ ';' :: (ss.flatMap Statement.text ++ f)) := by
      simp [Statement.text]
    have hplace : ((p.after (gapText s.gaps)).after s.item.text).next ';' = p.after s.text := by
      simp [Statement.text]
    rw [htext, hgaps, hitem, scanFrom_semicolon, hplace, ih, tagsOf, List.flatMap_cons,
      Place.after_append]
    cases scanFrom .operator ((p.after s.text).after (ss.flatMap Statement.text)) f with
    | error e => rfl
    | ok ts => simp [Except.map]

/-- The scan of statements finds their tags, in their order and at their places, and no others. -/
theorem scan_source (s : SourceText) :
    scan (String.ofList s.text) = .ok (tagsOf .start s.statements) := by
  have hgaps := (passes_gaps s.gaps [] (Place.start.after (s.statements.flatMap Statement.text)) []
    rfl).1
  rw [List.append_nil, scanFrom.eq_1] at hgaps
  rw [scan, String.toList_ofList, SourceText.text, scanFrom_statements, hgaps]
  simp [Except.map]

/-- A blank that is none in code is a letter to the scan, and hides the word behind it. -/
theorem scan_behind_other_blank :
    Text.isBlank '\u00a0' = true ∧ Code.isBlank '\u00a0' = false ∧
      scan "x;\u00a0sql\x60a\x60;" = .ok [] ∧
      scan "x; sql\x60a\x60;" = .ok [⟨6, none, ⟨6, 9⟩, 1, "a", 0⟩] := by
  refine ⟨by decide, by decide, by decide +kernel, by decide +kernel⟩

end Tag
end RowTypes
