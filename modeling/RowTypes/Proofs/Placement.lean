import RowTypes.Proofs.Edits
import RowTypes.Proofs.Layout

/-! A source text with a block in its place. Any block of plain declarations can stand there,
and any type arguments in the tags around it. -/

namespace RowTypes.Tag
open Code Block TypedSource

theorem Reads.scan {b : Before} {ps : List Piece} (h : Reads [] .operator ps b) :
    scanFrom .operator .start (texts ps) = .ok (tags .start ps) := by
  have := h.scanFrom_eq .start
  rw [List.append_nil] at this
  rw [this, scanFrom.eq_def]
  simp [Except.map]

theorem afterNamespaceHeader_firstLine (g : List Char) :
    afterNamespaceHeader (firstLine ++ g) = some g := by
  have hblank : Blank [' '] := by simp only [Blank, List.mem_singleton, forall_eq]; decide
  refine afterNamespaceHeader_eq_some.2 ⟨[' '], [' '], [' '], [' '], hblank, by simp, hblank,
    by simp, hblank, by simp, hblank, ?_⟩
  rfl

theorem find?_ofTexts {before : List Char} (h : Headerless afterNamespaceHeader before)
    {entries : List String} (he : ∀ t ∈ entries, EntryText t) (after : List Char) :
    Block.find? (before ++ ((ofTexts entries).toList ++ after)) =
      some ⟨before, (ofTexts entries).toList, after⟩ := by
  have hclose : closeBrace .code 1 (inner entries ++ ('\x7d' :: after)) =
      some (inner entries ++ ['\x7d'], after) := by
    refine closeBrace_quiet (quiet_inner he []) Nat.one_pos ?_
    rw [closeBrace.eq_def]
    rfl
  have htext : before ++ ((ofTexts entries).toList ++ after) =
      before ++ (firstLine ++ (inner entries ++ ('\x7d' :: after))) := by
    rw [ofTexts_firstLine]
    simp only [List.append_assoc, List.cons_append, List.nil_append]
  have hfind : findHeader afterNamespaceHeader (before ++ ((ofTexts entries).toList ++ after)) =
      some (before, firstLine, inner entries ++ ('\x7d' :: after)) := by
    rw [htext]
    refine findHeader_append (by decide) (afterNamespaceHeader_firstLine _) ?_
    intro a b hab hb
    refine namespaceHeader_append hb ?_
    rintro a' c rfl
    exact h (a ++ a') c (by rw [hab, List.append_assoc])
  simp only [Block.find?, findBraced, hfind, hclose, Option.bind_eq_bind, Option.bind_some,
    ← ofTexts_firstLine]
  rfl

structure Layout where
  front : List Piece
  /-- Text right before the block that the scan does not tell apart from it. -/
  stub : List Char
  back : List Piece

namespace Layout

def before (l : Layout) : List Char := texts l.front ++ l.stub

def pieces (l : Layout) (entries : List String) : List Piece :=
  l.front ++ .plain (l.stub ++ (ofTexts entries).toList) :: l.back

def text (l : Layout) (entries : List String) : List Char :=
  l.before ++ ((ofTexts entries).toList ++ texts l.back)

theorem texts_pieces (l : Layout) (entries : List String) :
    texts (l.pieces entries) = l.text entries := by
  simp [pieces, text, before, Piece.text]

def behind (l : Layout) (entries : List String) : Place :=
  Place.start.after (l.before ++ (ofTexts entries).toList)

theorem tags_pieces (l : Layout) (entries : List String) :
    tags .start (l.pieces entries) = tags .start l.front ++ tags (l.behind entries) l.back := by
  simp [pieces, behind, before, tags_append, Tag.tags]

structure Valid (l : Layout) : Prop where
  front : ∃ b, Reads (l.stub ++ ['e']) .operator l.front b ∧ Stub b l.stub
  back : ∃ b, Reads [] .operand l.back b
  headerless : Headerless afterNamespaceHeader l.before

theorem look_block (w : List Char) (entries : List String) (f : List Char) :
    look (w ++ ((ofTexts entries).toList ++ f)) = look (w ++ ['e']) := by
  refine look_append w ?_
  rw [ofTexts_toList]
  exact look_cons (by decide) _ _

theorem Valid.reads {l : Layout} (h : l.Valid) {entries : List String}
    (he : ∀ t ∈ entries, EntryText t) : ∃ b, Reads [] .operator (l.pieces entries) b := by
  obtain ⟨b, hfront, hstub⟩ := h.front
  obtain ⟨b', hback⟩ := h.back
  refine ⟨b', Reads.append (hfront.congr ?_) (.plain (passes_block hstub he _) hback)⟩
  simp only [texts_cons, Piece.text, List.append_assoc, List.append_nil]
  exact look_block ..

theorem Valid.scan {l : Layout} (h : l.Valid) {entries : List String}
    (he : ∀ t ∈ entries, EntryText t) :
    scanFrom .operator .start (l.text entries) = .ok (tags .start (l.pieces entries)) := by
  obtain ⟨b, hreads⟩ := h.reads he
  rw [← texts_pieces]
  exact hreads.scan

theorem Valid.find? {l : Layout} (h : l.Valid) {entries : List String}
    (he : ∀ t ∈ entries, EntryText t) :
    Block.find? (l.text entries) = some ⟨l.before, (ofTexts entries).toList, texts l.back⟩ :=
  find?_ofTexts h.headerless he _

end Layout

/-! New type arguments around a block -/

theorem afterNamespaceHeader_cons_of_ne {c : Char} (hc : c ≠ 'e') (cs : List Char) :
    afterNamespaceHeader (c :: cs) = none := by
  cases h : afterNamespaceHeader (c :: cs) with
  | none => rfl
  | some rest =>
    obtain ⟨u, -, hu, -⟩ := namespaceHeader_letters h
    exact absurd (List.cons.inj hu).1 hc

theorem headerless_cons_of_ne {c : Char} (hc : c ≠ 'e') {w : List Char}
    (hw : Headerless afterNamespaceHeader w) : Headerless afterNamespaceHeader (c :: w) := by
  intro a b hab
  cases a with
  | nil =>
    rw [← List.nil_append b, ← hab]
    exact afterNamespaceHeader_cons_of_ne hc w
  | cons d a => exact hw a b (List.cons.inj hab).2

def Clear (args : List Char) : Prop :=
  ∃ inside, args = '<' :: (inside ++ ['>']) ∧ Headerless afterNamespaceHeader inside

theorem headerless_retag {args : Tag → Option (List Char)} {p : Place} {ps : List Piece}
    {v w : List Char} (h : Headerless afterNamespaceHeader (v ++ (texts ps ++ w)))
    (hargs : ∀ t ∈ tags p ps, ∀ new ∈ args t, Clear new) :
    Headerless afterNamespaceHeader (v ++ (texts (retag args p ps) ++ w)) := by
  induction ps generalizing p v with
  | nil => exact h
  | cons q ps ih =>
    cases q with
    | plain u =>
      have := ih (p := p.after u) (v := v ++ u) (by simpa [Piece.text] using h) hargs
      simpa [retag, Piece.text] using this
    | tag t =>
      have hrest := fun t' h' => hargs t' (List.mem_cons_of_mem _ h')
      cases hnew : args (t.tag p) with
      | none =>
        have := ih (p := p.after t.text) (v := v ++ t.text) (by simpa [Piece.text] using h) hrest
        simpa [retag, Piece.text, TagText.setArgs, hnew] using this
      | some new =>
        -- the brackets cut the text in front of the tag, the new arguments and the text behind
        obtain ⟨inside, rfl, hinside⟩ := hargs (t.tag p) List.mem_cons_self new hnew
        have hold : v ++ (texts (.tag t :: ps) ++ w) =
            (v ++ (word ++ t.lead)) ++ (t.typed ++ (t.tail ++ (texts ps ++ w))) := by
          simp [Piece.text, t.text_eq]
        rw [hold] at h
        have hbefore := h.of_infix local_namespaceHeader (v := v ++ (word ++ t.lead))
          (List.prefix_append ..).isInfix
        have hbehind := ih (p := p.after t.text) (v := t.tail)
          (h.of_infix local_namespaceHeader ⟨v ++ (word ++ t.lead) ++ t.typed, [], by simp⟩) hrest
        have := hbefore.append_cons local_namespaceHeader (c := '<') (by decide)
          (hinside.append_cons local_namespaceHeader (c := '>') (by decide) hbehind)
        simpa [retag, Piece.text, TagText.setArgs_text, hnew] using this

namespace Layout

def retag (args : Tag → Option (List Char)) (entries : List String) (l : Layout) : Layout where
  front := Tag.retag args .start l.front
  stub := l.stub
  back := Tag.retag args (l.behind entries) l.back

theorem Valid.retag {l : Layout} (h : l.Valid) {args : Tag → Option (List Char)}
    {entries : List String}
    (haccepted : ∀ t ∈ tags .start (l.pieces entries), ∀ new ∈ args t, Accepted new)
    (hclear : ∀ t ∈ tags .start l.front, ∀ new ∈ args t, Clear new) :
    (l.retag args entries).Valid := by
  rw [tags_pieces] at haccepted
  obtain ⟨b, hfront, hstub⟩ := h.front
  obtain ⟨b', hback⟩ := h.back
  refine ⟨⟨b, hfront.retag _ fun t ht => haccepted t (List.mem_append_left _ ht), hstub⟩,
    ⟨b', hback.retag _ fun t ht => haccepted t (List.mem_append_right _ ht)⟩, ?_⟩
  exact @headerless_retag _ _ _ [] _ h.headerless hclear

theorem Valid.retagged {l : Layout} (h : l.Valid) (args : Tag → Option (List Char))
    (entries entries' : List String) :
    Retagged args .start (l.pieces entries) ((l.retag args entries).pieces entries') := by
  obtain ⟨b, hfront, -⟩ := h.front
  obtain ⟨b', hback⟩ := h.back
  have hbehind : (Place.start.after (texts l.front)).after (l.stub ++ (ofTexts entries).toList) =
      l.behind entries := by
    simp [behind, before]
  refine (hfront.retagged args .start).append (.plain _ _ ?_)
  rw [hbehind]
  exact hback.retagged args _

def segments (args : Tag → Option (List Char)) (entries entries' : List String) (l : Layout) :
    List Segment :=
  pieceSegments args .start l.front ++ (.keep l.stub ::
    .swap (ofTexts entries).toList (ofTexts entries').toList ::
      pieceSegments args (l.behind entries) l.back)

theorem segments_olds (args : Tag → Option (List Char)) (entries entries' : List String)
    (l : Layout) : olds (l.segments args entries entries') = l.text entries := by
  simp [segments, text, before, pieceSegments_olds, Segment.old]

theorem segments_news (args : Tag → Option (List Char)) (entries entries' : List String)
    (l : Layout) :
    news (l.segments args entries entries') = (l.retag args entries).text entries' := by
  simp [segments, text, before, retag, pieceSegments_news, Segment.new]

theorem behind_offset (l : Layout) (entries : List String) :
    (l.behind entries).offset = Text.size (texts l.front) + Text.size l.stub +
      Text.size (ofTexts entries).toList := by
  rw [behind, start_after_offset, before, Text.size_append, Text.size_append]

def blockEdit (entries entries' : List String) (l : Layout) : TypedSource.Edit :=
  ⟨Cut.span ⟨l.before, (ofTexts entries).toList, texts l.back⟩, (ofTexts entries').toList⟩

theorem segments_edits (args : Tag → Option (List Char)) (entries entries' : List String)
    (l : Layout) :
    edits 0 (l.segments args entries entries') =
      (tags .start l.front).filterMap (tagEdit args) ++ l.blockEdit entries entries' ::
        (tags (l.behind entries) l.back).filterMap (tagEdit args) := by
  have hfront := pieceSegments_edits args .start l.front
  have hback := pieceSegments_edits args (l.behind entries) l.back
  rw [behind_offset] at hback
  rw [segments, edits_append, pieceSegments_olds, edits, edits, ← hback]
  change edits 0 (pieceSegments args .start l.front) = _ at hfront
  rw [hfront]
  simp [blockEdit, Cut.span, before]

theorem segments_ordered (args : Tag → Option (List Char)) (entries entries' : List String)
    (l : Layout) : Ordered (edits 0 (l.segments args entries entries')) := by
  have hfront := pieceSegments_ordered args .start l.front
  have hfront_lt := pieceSegments_start_lt args .start l.front
  have hback := pieceSegments_ordered args (l.behind entries) l.back
  have hback_le : ∀ e ∈ edits (l.behind entries).offset (pieceSegments args (l.behind entries) l.back),
      (l.behind entries).offset ≤ e.span.start := edits_start_le
  have hblock : 0 < Text.size (ofTexts entries).toList := by
    refine size_pos ?_
    rw [ofTexts_toList]
    simp
  rw [behind_offset] at hback hback_le
  rw [segments, edits_append, pieceSegments_olds, edits, edits]
  refine ordered_append hfront ?_ (n := Text.size (texts l.front)) ?_ ?_
  · simp only [Nat.zero_add]
    refine List.pairwise_cons.2 ⟨fun e he => ?_, hback⟩
    have := hback_le e he
    simp only
    omega
  · intro e he
    have := hfront_lt e he
    simpa [Place.start] using this
  · intro e he
    rcases List.mem_cons.1 he with rfl | he
    · simp only
      omega
    · have := hback_le e (by simpa using he)
      omega

theorem apply_edits {args : Tag → Option (List Char)} {entries entries' : List String} {l : Layout}
    {es : List TypedSource.Edit}
    (h : es.Perm ((tags .start (l.pieces entries)).filterMap (tagEdit args))) :
    apply (es ++ [l.blockEdit entries entries']) (l.text entries) =
      (l.retag args entries).text entries' := by
  rw [← l.segments_olds args entries entries', ← segments_news args entries entries']
  refine TypedSource.apply_edits ?_ (l.segments_ordered args entries entries')
  rw [segments_edits]
  refine (h.append_right _).trans ?_
  rw [tags_pieces, List.filterMap_append, List.append_assoc]
  refine List.Perm.append_left _ ?_
  exact List.perm_append_comm

end Layout
end RowTypes.Tag
