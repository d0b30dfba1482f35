import Mathlib.Data.List.Forall2
import RowTypes.Proofs.Pieces

/-! Tags with other type arguments. New ones take the place of the old ones, or stand right
behind the word `sql` if there were none. All else of the text is kept, and the scan finds
the same tags in it, each with its new type arguments. -/

namespace RowTypes

theorem exists_of_forall₂ {α β : Type} {R : α → β → Prop} {as : List α} {bs : List β}
    (h : List.Forall₂ R as bs) : ∀ b ∈ bs, ∃ a ∈ as, R a b := by
  induction h with
  | nil => simp
  | cons hr _ ih =>
    intro b hb
    rcases List.mem_cons.1 hb with rfl | hb
    · exact ⟨_, List.mem_cons_self, hr⟩
    · obtain ⟨a, ha, hr⟩ := ih b hb
      exact ⟨a, List.mem_cons_of_mem _ ha, hr⟩

end RowTypes

namespace RowTypes.Tag

/-- Whether a text is type arguments from its first character to its last. -/
def Accepted (args : List Char) : Prop := typeArguments? args = some (args, [])

namespace HeadingText

def setArgs (new : List Char) : HeadingText → HeadingText
  | ⟨gap, none⟩ => ⟨[], some ⟨new, gap⟩⟩
  | ⟨gap, some a⟩ => ⟨gap, some ⟨new, a.gap⟩⟩

def lead : HeadingText → List Char
  | ⟨_, none⟩ => []
  | ⟨gap, some _⟩ => gap

def typed (h : HeadingText) : List Char := (h.args.map Arguments.text).getD []

def tail : HeadingText → List Char
  | ⟨gap, none⟩ => gap
  | ⟨_, some a⟩ => a.gap

theorem text_eq (h : HeadingText) : h.text = h.lead ++ (h.typed ++ h.tail) := by
  obtain ⟨gap, args⟩ := h
  cases args <;> simp [text, lead, typed, tail]

theorem setArgs_text (new : List Char) (h : HeadingText) :
    (h.setArgs new).text = h.lead ++ (new ++ h.tail) := by
  obtain ⟨gap, args⟩ := h
  cases args <;> simp [text, lead, tail, setArgs]

theorem setArgs_args (new : List Char) (h : HeadingText) :
    (h.setArgs new).args.map Arguments.text = some new := by
  obtain ⟨gap, args⟩ := h
  cases args <;> rfl

theorem Valid.setArgs {h : HeadingText} (hv : h.Valid) {new : List Char} (hnew : Accepted new) :
    (h.setArgs new).Valid := by
  obtain ⟨gap, args⟩ := h
  cases args with
  | none =>
    refine ⟨by simp [HeadingText.setArgs], ?_⟩
    rintro a ⟨rfl⟩
    exact ⟨hnew, hv.blank⟩
  | some a =>
    refine ⟨hv.blank, ?_⟩
    rintro a' ⟨rfl⟩
    exact ⟨hnew, (hv.args a rfl).blank⟩

theorem span_getD (p : Place) (h : HeadingText) :
    (h.span p).getD ⟨p.offset, p.offset⟩ =
      ⟨(p.after h.lead).offset, (p.after h.lead).offset + Text.size h.typed⟩ := by
  obtain ⟨gap, args⟩ := h
  cases args <;> simp [span, lead, typed, Place.after_offset]

end HeadingText

namespace TagText

def setArgs (t : TagText) : Option (List Char) → TagText
  | none => t
  | some new => ⟨t.toHeadingText.setArgs new, t.body, t.sql, t.params⟩

theorem Valid.setArgs {t : TagText} (ht : t.Valid) {new : Option (List Char)}
    (hnew : ∀ args ∈ new, Accepted args) : (t.setArgs new).Valid := by
  cases new with
  | none => exact ht
  | some args => exact ⟨ht.heading.setArgs (hnew args rfl), ht.cooked⟩

def tail (t : TagText) : List Char := t.toHeadingText.tail ++ '\x60' :: t.body

theorem text_eq (t : TagText) :
    t.text = word ++ t.lead ++ (t.typed ++ t.tail) := by
  simp [text, heading, tail, HeadingText.text_eq]

theorem setArgs_text (t : TagText) (new : Option (List Char)) :
    (t.setArgs new).text = word ++ t.lead ++ (new.getD t.typed ++ t.tail) := by
  cases new with
  | none => exact t.text_eq
  | some args => simp [text, heading, tail, setArgs, HeadingText.setArgs_text]

theorem setArgs_tail (t : TagText) (new : Option (List Char)) :
    (t.setArgs new).body = t.body ∧ (t.setArgs new).sql = t.sql ∧
      (t.setArgs new).params = t.params := by
  cases new <;> exact ⟨rfl, rfl, rfl⟩

end TagText

/-- The pieces with new type arguments for some of their tags, of which `args` is told where
they stand in the text. -/
def retag (args : Tag → Option (List Char)) (p : Place) : List Piece → List Piece
  | [] => []
  | .plain w :: ps => .plain w :: retag args (p.after w) ps
  | .tag t :: ps => .tag (t.setArgs (args (t.tag p))) :: retag args (p.after t.text) ps

theorem look_cons {c : Char} (hc : Code.isBlank c = false) (f g : List Char) :
    look (c :: f) = look (c :: g) := by
  simp [look, hc]

theorem look_tag (t t' : TagText) (f g : List Char) : look (t.text ++ f) = look (t'.text ++ g) :=
  look_cons (by decide) _ _

theorem look_retag (args : Tag → Option (List Char)) (p : Place) (ps : List Piece)
    (f : List Char) : look (texts (retag args p ps) ++ f) = look (texts ps ++ f) := by
  induction ps generalizing p with
  | nil => rfl
  | cons q ps ih =>
    cases q with
    | plain w =>
      simp only [retag, texts_cons, Piece.text, List.append_assoc]
      exact look_append w (ih _)
    | tag t =>
      simp only [retag, texts_cons, Piece.text, List.append_assoc]
      exact look_tag _ _ _ _

theorem Reads.retag {f : List Char} {b b' : Code.Before} {ps : List Piece}
    {args : Tag → Option (List Char)} (h : Reads f b ps b') (p : Place)
    (hargs : ∀ t ∈ tags p ps, ∀ new ∈ args t, Accepted new) :
    Reads f b (retag args p ps) b' := by
  induction h generalizing p with
  | nil b => exact .nil b
  | plain hw _ ih => exact .plain (hw.congr (look_retag ..)) (ih _ hargs)
  | tag ht _ ih =>
    refine .tag (ht.setArgs (hargs _ List.mem_cons_self)) (ih _ ?_)
    exact fun t h => hargs t (List.mem_cons_of_mem _ h)

/-! What the new text has in common with the old one -/

def Stands (content : List Char) (t : Tag) (x : TagText) : Prop :=
  ∃ a b, content = a ++ (x.text ++ b) ∧ t = x.tag (Place.start.after a)

theorem start_after_offset (a : List Char) : (Place.start.after a).offset = Text.size a := by
  rw [Place.after_offset]
  exact Nat.zero_add _

theorem size_pos {w : List Char} (hw : w ≠ []) : 0 < Text.size w := by
  obtain ⟨c, w, rfl⟩ := List.exists_cons_of_ne_nil hw
  have := c.utf8Size_pos
  rw [Text.size_cons]
  omega

theorem Stands.template {content : List Char} {t : Tag} {x : TagText} (h : Stands content t x) :
    Text.slice t.template content = '\x60' :: x.body := by
  obtain ⟨a, b, rfl, rfl⟩ := h
  have hcontent : a ++ (x.text ++ b) = (a ++ word ++ x.heading) ++ ('\x60' :: x.body ++ b) := by
    simp [TagText.text]
  have hspan : (x.tag (Place.start.after a)).template =
      ⟨Text.size (a ++ word ++ x.heading),
        Text.size (a ++ word ++ x.heading) + Text.size ('\x60' :: x.body)⟩ := by
    simp only [TagText.tag, TagText.text, ← Place.after_append, start_after_offset,
      Text.size_append, Nat.add_assoc]
  rw [hcontent, hspan, Text.slice_append]

theorem Stands.typeArguments {content : List Char} {t : Tag} {x : TagText}
    (h : Stands content t x) :
    t.typeArguments.map (Text.slice · content) = x.args.map Arguments.text := by
  obtain ⟨a, b, rfl, rfl⟩ := h
  obtain ⟨⟨gap, args⟩, body, sql, params⟩ := x
  cases args with
  | none => rfl
  | some args =>
    have hspan : Span.mk ((Place.start.after a).after word |>.after gap).offset
        (((Place.start.after a).after word |>.after gap).after args.text).offset =
        ⟨Text.size (a ++ word ++ gap), Text.size (a ++ word ++ gap) + Text.size args.text⟩ := by
      simp only [← Place.after_append, start_after_offset, Text.size_append]
    have hcontent : a ++ (TagText.text ⟨⟨gap, some args⟩, body, sql, params⟩ ++ b) =
        (a ++ word ++ gap) ++ (args.text ++ (args.gap ++ '\x60' :: body ++ b)) := by
      simp [TagText.text, TagText.heading, HeadingText.text]
    simp only [TagText.tag, HeadingText.span, Option.map_some, hspan, hcontent]
    rw [Text.slice_append]

theorem Stands.sql {content : List Char} {t : Tag} {x : TagText} (h : Stands content t x) :
    t.sql = String.ofList x.sql ∧ t.paramCount = x.params := by
  obtain ⟨a, b, rfl, rfl⟩ := h
  exact ⟨rfl, rfl⟩

theorem Reads.exists_stands {f : List Char} {b b' : Code.Before} {ps : List Piece}
    (h : Reads f b ps b') {a c : List Char} {t : Tag} (ht : t ∈ tags (Place.start.after a) ps) :
    ∃ x : TagText, x.Valid ∧ x.text <:+: texts ps ∧ Stands (a ++ (texts ps ++ c)) t x := by
  induction h generalizing a with
  | nil => simp [Tag.tags] at ht
  | @plain b b' b'' w ps _ _ ih =>
    rw [Tag.tags, ← Place.after_append] at ht
    obtain ⟨x, hx, hinfix, hstands⟩ := ih ht
    refine ⟨x, hx, hinfix.trans (List.suffix_append ..).isInfix, ?_⟩
    simpa [Piece.text] using hstands
  | @tag b b' x ps hx _ ih =>
    rw [Tag.tags, ← Place.after_append] at ht
    rcases List.mem_cons.1 ht with rfl | ht
    · refine ⟨x, hx, (List.prefix_append ..).isInfix, a, texts ps ++ c, ?_, rfl⟩
      simp [Piece.text]
    · obtain ⟨y, hy, hinfix, hstands⟩ := ih ht
      refine ⟨y, hy, hinfix.trans (List.suffix_append ..).isInfix, ?_⟩
      simpa [Piece.text] using hstands

/-- Two texts whose pieces are the same but for the type arguments of tags and for what holds
no tag. -/
inductive Retagged (args : Tag → Option (List Char)) : Place → List Piece → List Piece → Prop where
  | nil (p : Place) : Retagged args p [] []
  | plain {p : Place} {ps qs : List Piece} (v w : List Char) :
      Retagged args (p.after v) ps qs → Retagged args p (.plain v :: ps) (.plain w :: qs)
  | tag {p : Place} {ps qs : List Piece} {t : TagText} :
      t.Valid → Retagged args (p.after t.text) ps qs →
        Retagged args p (.tag t :: ps) (.tag (t.setArgs (args (t.tag p))) :: qs)

theorem Reads.retagged {f : List Char} {b b' : Code.Before} {ps : List Piece}
    (h : Reads f b ps b') (args : Tag → Option (List Char)) (p : Place) :
    Retagged args p ps (Tag.retag args p ps) := by
  induction h generalizing p with
  | nil => exact .nil p
  | plain _ _ ih => exact .plain _ _ (ih _)
  | tag ht _ ih => exact .tag ht (ih _)

theorem Retagged.append {args : Tag → Option (List Char)} {p : Place} {ps ps' qs qs' : List Piece}
    (h : Retagged args p ps ps') (hq : Retagged args (p.after (texts ps)) qs qs') :
    Retagged args p (ps ++ qs) (ps' ++ qs') := by
  induction h with
  | nil => exact hq
  | plain v w _ ih => exact .plain v w (ih (by simpa [Piece.text] using hq))
  | tag ht _ ih => exact .tag ht (ih (by simpa [Piece.text] using hq))

theorem Retagged.tags {args : Tag → Option (List Char)} {ps qs : List Piece}
    {a a' b b' : List Char} (h : Retagged args (Place.start.after a) ps qs) :
    List.Forall₂ (fun t t' => ∃ x : TagText, x.Valid ∧ Stands (a ++ (texts ps ++ b)) t x ∧
        Stands (a' ++ (texts qs ++ b')) t' (x.setArgs (args t)))
      (tags (Place.start.after a) ps) (tags (Place.start.after a') qs) := by
  generalize hp : Place.start.after a = p at h
  induction h generalizing a a' with
  | nil => exact .nil
  | @plain p ps qs v w _ ih =>
    have := @ih (a ++ v) (a' ++ w) (by rw [Place.after_append, hp])
    simpa only [texts_cons, Piece.text, List.append_assoc, Tag.tags, Place.after_append]
      using this
  | @tag p ps qs t ht _ ih =>
    have := @ih (a ++ t.text) (a' ++ (t.setArgs (args (t.tag p))).text)
      (by rw [Place.after_append, hp])
    simp only [texts_cons, Piece.text, List.append_assoc, Tag.tags, Place.after_append] at this ⊢
    refine .cons ⟨t, ht, ⟨a, _, rfl, by rw [hp]⟩, a', _, rfl, rfl⟩ this

end RowTypes.Tag
