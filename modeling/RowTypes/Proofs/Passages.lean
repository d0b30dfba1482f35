import RowTypes.Proofs.Frame

/-! The passages of a text that are not code: comments, strings, regular expressions and template
literals, as the scan delimits them. Where a letter of code stands can be told from the text in
front of it alone: the scan of that text comes to its end, and the end is not that of a line comment
or a regular expression, which would go on. -/

namespace RowTypes.Tag
open Code TypedSource

inductive Kind where
  | lineComment
  | blockComment
  | string
  | regex
  | template
deriving DecidableEq, Repr

def Kind.goesOn : Kind → Bool
  | lineComment | regex => true
  | _ => false

structure Passage where
  kind : Kind
  span : Span
deriving DecidableEq, Repr

/-- What the step that begins with `c` reads as a whole, unless it reads a word, a tag or a single
character. -/
def kind? (b : Before) (c : Char) (following : Option Char) : Option Kind :=
  if c = '/' ∧ following = some '/' then some .lineComment
  else if c = '/' ∧ following = some '*' then some .blockComment
  else if c = '/' ∧ b ≠ .operand then some .regex
  else if c = '\'' ∨ c = '"' then some .string
  else if c = '\x60' then some .template
  else none

def Reading.passage? (b : Before) (p : Place) (c : Char) (following : Option Char) (r : Reading) :
    Option Passage :=
  match r.tag with
  | some t => some ⟨.template, t.template⟩
  | none => (kind? b c following).map (⟨·, ⟨p.offset, r.place.offset⟩⟩)

/-- The passages of a text that the scan reads from `p` on. The type arguments of a tag are not
looked into. -/
def passages (b : Before) (p : Place) : List Char → List Passage
  | [] => []
  | c :: cs =>
    match _step : next b p c cs with
    | .error _ => []
    | .ok r => (r.passage? b p c cs.head?).toList ++ passages r.before r.place r.rest
termination_by cs => cs.length
decreasing_by exact next_rest_lt _step

inductive Takes (b : Before) (p : Place) : Char → List Char → Reading → Option Kind → Prop where
  | lineComment {w f : List Char} (hw : '\n' ∉ w) (hf : (look f).endsLine = true) :
      Takes b p '/' ('/' :: w ++ f) ⟨none, b, p.after ('/' :: '/' :: w), f⟩ (some .lineComment)
  | blockComment {body f : List Char} (hbody : Closes [.blockComment 0] body) :
      Takes b p '/' ('*' :: body ++ f) ⟨none, b, p.after ('/' :: '*' :: body), f⟩
        (some .blockComment)
  | regex {body flags f : List Char} (hb : b ≠ .operand) (hbody : Closes [.regex 0 false] body)
      (hc : (look (body ++ flags ++ f)).makesComment = false)
      (hflags : ∀ c ∈ flags, continuesWord c = true) (hf : (look f).continuesWord = false) :
      Takes b p '/' (body ++ flags ++ f) ⟨none, .operator, p.after ('/' :: (body ++ flags)), f⟩
        (some .regex)
  | string {c : Char} {body f : List Char} (hc : c = '\'' ∨ c = '"')
      (hbody : Closes [.quoted 0 c] body) :
      Takes b p c (body ++ f) ⟨none, .operand, p.after (c :: body), f⟩ (some .string)
  | template {body text f : List Char} {count : Nat} (hbody : Template.Cooks 0 body text count) :
      Takes b p '\x60' (body ++ f) ⟨none, .operand, p.after ('\x60' :: body), f⟩ (some .template)
  | tag {t : TagText} {f : List Char} (ht : t.Valid) :
      Takes b p 's' ('q' :: 'l' :: (t.heading ++ '\x60' :: t.body) ++ f)
        ⟨some (t.tag p), .operand, p.after t.text, f⟩ none
  | word {c : Char} {w f : List Char} (hc : startsWord c = true)
      (hw : ∀ d ∈ w, continuesWord d = true) (hf : (look f).continuesWord = false)
      (hsql : c :: w = word → heading? .start f = none) :
      Takes b p c (w ++ f) ⟨none, .operand, p.after (c :: w), f⟩ none
  | mark {c : Char} {f : List Char}
      (hc : c = '/' → b = .operand ∧ (look f).makesComment = false) (hq : ¬(c = '\'' ∨ c = '"'))
      (ht : c ≠ '\x60') (hw : startsWord c = false) :
      Takes b p c f ⟨none, b.read c, p.next c, f⟩ none

section Steps

variable {b : Before} {p : Place} {c : Char} {cs : List Char} {r : Reading}

theorem takes_of_next (h : next b p c cs = .ok r) : Takes b p c cs r (kind? b c cs.head?) := by
  unfold next at h
  rw [kind?]
  by_cases hl : c = '/' ∧ cs.head? = some '/'
  · rw [if_pos hl] at h ⊢
    cases h
    obtain ⟨rfl, hl⟩ := hl
    obtain ⟨cs, rfl⟩ := List.head?_eq_some_iff.1 hl
    have hend : (look (cs.dropWhile (· ≠ '\n'))).endsLine = true := by
      have := head?_dropWhile_all (p := (· ≠ '\n')) cs
      simpa [look] using this
    have htake : '\n' ∉ cs.takeWhile (· ≠ '\n') := fun h => by simpa using of_mem_takeWhile _ h
    have := Takes.lineComment (b := b) (p := p) htake hend
    simpa using this
  rw [if_neg hl] at h ⊢
  by_cases hb : c = '/' ∧ cs.head? = some '*'
  · rw [if_pos hb] at h ⊢
    obtain ⟨k, hk, rfl⟩ := map_eq_ok.1 h
    obtain ⟨body, hcs, hp, hclosed⟩ := skim_closed hk
    obtain ⟨rfl, hb⟩ := hb
    obtain ⟨cs, rfl⟩ := List.head?_eq_some_iff.1 hb
    rw [List.tail_cons] at hcs
    rw [hp, hcs]
    exact .blockComment hclosed
  rw [if_neg hb] at h ⊢
  by_cases hr : c = '/' ∧ b ≠ .operand
  · rw [if_pos hr] at h ⊢
    obtain ⟨k, hk, rfl⟩ := map_eq_ok.1 h
    obtain ⟨body, hcs, hp, hclosed⟩ := skim_closed hk
    obtain ⟨rfl, hr⟩ := hr
    have hrest := List.takeWhile_append_dropWhile (p := continuesWord) (l := k.rest)
    have hlook : (look cs).makesComment = false :=
      look_of_head?_ne (fun h => hl ⟨rfl, h⟩) (fun h => hb ⟨rfl, h⟩)
    have htakes := Takes.regex (p := p) hr hclosed
      (by rwa [List.append_assoc, hrest, ← hcs]) of_mem_takeWhile
      (look_of_all (head?_dropWhile_all k.rest))
    rwa [List.append_assoc, hrest, ← hcs, ← List.cons_append, Place.after_append, Place.after_cons,
      ← hp] at htakes
  rw [if_neg hr] at h ⊢
  by_cases hq : c = '\'' ∨ c = '"'
  · rw [if_pos hq] at h ⊢
    obtain ⟨k, hk, rfl⟩ := map_eq_ok.1 h
    obtain ⟨body, hcs, hp, hclosed⟩ := skim_closed hk
    rw [hcs, hp]
    exact .string hq hclosed
  rw [if_neg hq] at h ⊢
  by_cases ht : c = '\x60'
  · rw [if_pos ht] at h ⊢
    obtain ⟨t, hk, rfl⟩ := map_eq_ok.1 h
    obtain ⟨body, hcs, hp, hcooks⟩ := Template.cook_closed hk
    subst ht
    rw [hcs, hp]
    exact .template hcooks
  rw [if_neg ht] at h ⊢
  by_cases hw : startsWord c = true
  · rw [if_pos hw] at h
    have hn : next b p c cs = .ok r := by rw [next_startsWord hw]; exact h
    rcases next_startsWord_cases hw hn with ⟨t, hvalid, hcs, ht'⟩ | ⟨rfl, hsql⟩
    · have htext : t.text = 's' :: ('q' :: 'l' :: (t.heading ++ '\x60' :: t.body)) := rfl
      rw [htext, List.cons_append] at hcs
      obtain ⟨rfl, hrest⟩ := List.cons.inj hcs
      rw [hrest, ht']
      exact .tag hvalid
    · have htakes := Takes.word (b := b) (p := p) hw of_mem_takeWhile
        (look_of_all (head?_dropWhile_all (p := continuesWord) cs)) hsql
      rwa [List.takeWhile_append_dropWhile] at htakes
  · rw [if_neg hw] at h
    cases h
    refine .mark ?_ hq ht (by simpa using hw)
    rintro rfl
    refine ⟨by simpa using hr, look_of_head?_ne (fun h => hl ⟨rfl, h⟩) fun h => hb ⟨rfl, h⟩⟩

end Steps

/-! A step that has less text in front of it -/

theorem skim_of_closes {stack : List Enclosure} {w x : List Char} (h : Closes stack (w ++ x))
    (hx : x ≠ []) (stack' : List Enclosure)
    (hstack : stack'.map Enclosure.unlined = stack.map Enclosure.unlined) (p : Place) :
    ∃ e, skim stack' p w = .error e := by
  cases hk : skim stack' p w with
  | error e => exact ⟨e, rfl⟩
  | ok k =>
    obtain ⟨body, rfl, -, hbody⟩ := skim_closed hk
    have hmore := hbody stack' p (k.rest ++ x) rfl
    have hself := h stack' p [] hstack
    rw [List.append_nil, List.append_assoc, hmore] at hself
    have hrest := congrArg Cursor.rest (Except.ok.inj hself)
    exact absurd (List.append_eq_nil_iff.1 hrest).2 hx

theorem cook_of_cooks {w x text : List Char} {params count : Nat}
    (h : Template.Cooks params (w ++ x) text count) (hx : x ≠ []) (line : Nat) (p : Place) :
    ∃ e, Template.cook line params p w = .error e := by
  cases hk : Template.cook line params p w with
  | error e => exact ⟨e, rfl⟩
  | ok t =>
    obtain ⟨body, rfl, -, hbody⟩ := Template.cook_closed hk
    have hmore := hbody line p (t.rest ++ x)
    have hself := h line p []
    rw [List.append_nil, List.append_assoc, hmore] at hself
    have hrest := congrArg Template.Cooked.rest (Except.ok.inj hself)
    exact absurd (List.append_eq_nil_iff.1 hrest).2 hx

/-- How the step that begins with `c` goes if nothing follows `w`, where it has led to `r` in
front of `f`. -/
inductive Shortened (b : Before) (p : Place) (c : Char) (w f : List Char) (r : Reading) : Prop where
  /-- It ends within `w`. -/
  | within (v : List Char) (hrest : r.rest = v ++ f)
      (hown : next b p c w = .ok { r with rest := v })
      (hclosed : v = [] → ∀ k ∈ kind? b c w.head?, k.goesOn = false)
  /-- It reads less of a word. -/
  | word (htag : r.tag = none) (hkind : kind? b c w.head? = none)
      (hbehind : (p.after (c :: w)).offset < r.place.offset)
      (hown : next b p c w = .ok ⟨none, .operand, p.after (c :: w), []⟩)
  /-- It does not come to the end of a passage. -/
  | inside (x : Passage) (hx : r.passage? b p c w.head? = some x)
      (hstart : x.span.start < (p.after (c :: w)).offset)
      (hstop : (p.after (c :: w)).offset < x.span.stop)
      (hown : (∃ e, next b p c w = .error e) ∨
        ∃ b', next b p c w = .ok ⟨none, b', p.after (c :: w), []⟩ ∧
          ∃ k, kind? b c w.head? = some k ∧ k.goesOn = true)
  /-- It does not come to the end of the type arguments of a tag. -/
  | arguments (t : Tag) (ht : r.tag = some t)
      (hstart : (argumentSpan t).start < (p.after (c :: w)).offset)
      (hstop : (p.after (c :: w)).offset < (argumentSpan t).stop)

theorem cut_cases {u v w f : List Char} (h : w ++ f = u ++ v) :
    (∃ x, w = u ++ x ∧ v = x ++ f) ∨ ∃ x, x ≠ [] ∧ u = w ++ x ∧ f = x ++ v := by
  rcases List.append_eq_append_iff.1 h with ⟨x, rfl, rfl⟩ | ⟨x, rfl, rfl⟩
  · by_cases hx : x = []
    · subst hx
      exact .inl ⟨[], by simp, by simp⟩
    · exact .inr ⟨x, hx, rfl, rfl⟩
  · exact .inl ⟨x, rfl, rfl⟩

section Shorter

variable {b : Before} {p : Place} {c : Char} {w f v x : List Char} {r : Reading}

theorem look_of_ne_nil (hv : v ≠ []) : (look (v ++ f)).endsLine = (look v).endsLine ∧
    (look (v ++ f)).continuesWord = (look v).continuesWord ∧
      (look (v ++ f)).makesComment = (look v).makesComment := by
  obtain ⟨c, v, rfl⟩ := List.exists_cons_of_ne_nil hv
  exact ⟨rfl, rfl, rfl⟩

theorem makesComment_of_append (h : (look (v ++ f)).makesComment = false) :
    (look v).makesComment = false := by
  by_cases hv : v = []
  · subst hv
    rfl
  · rwa [(look_of_ne_nil hv).2.2] at h

theorem passage?_of_tag {t : Tag} (h : r.tag = some t) (following : Option Char) :
    r.passage? b p c following = some ⟨.template, t.template⟩ := by
  rw [Reading.passage?, h]

theorem kind?_append (b : Before) (c : Char) (w : List Char) (hf : f.head? = some 'e') :
    kind? b c (w ++ f).head? = kind? b c w.head? := by
  cases w with
  | nil => simp [kind?, hf]
  | cons d w => rfl

theorem passage?_append (r : Reading) (b : Before) (p : Place) (c : Char) (w : List Char)
    (hf : f.head? = some 'e') :
    r.passage? b p c (w ++ f).head? = r.passage? b p c w.head? := by
  rw [Reading.passage?, Reading.passage?, kind?_append b c w hf]

/-! Passages that are not closed -/

theorem next_blockComment_open (h : Closes [.blockComment 0] (w ++ x)) (hx : x ≠ []) (p : Place) :
    ∃ e, next b p '/' ('*' :: w) = .error e := by
  obtain ⟨e, he⟩ := skim_of_closes h hx [.blockComment p.line] rfl ((p.next '/').next '*')
  exact ⟨e, by simp [next, he, Except.map]⟩

theorem next_regex_open (hb : b ≠ .operand) (h : Closes [.regex 0 false] (w ++ x)) (hx : x ≠ [])
    (hc : (look w).makesComment = false) (p : Place) : ∃ e, next b p '/' w = .error e := by
  obtain ⟨e, he⟩ := skim_of_closes h hx [.regex p.line false] rfl (p.next '/')
  obtain ⟨hslash, hstar⟩ := head?_ne_of_look hc
  refine ⟨e, ?_⟩
  rw [next, if_neg (fun h => hslash h.2), if_neg (fun h => hstar h.2), if_pos ⟨rfl, hb⟩, he]
  rfl

theorem next_string_open (hc : c = '\'' ∨ c = '"') (h : Closes [.quoted 0 c] (w ++ x)) (hx : x ≠ [])
    (p : Place) : ∃ e, next b p c w = .error e := by
  obtain ⟨e, he⟩ := skim_of_closes h hx [.quoted p.line c] rfl (p.next c)
  refine ⟨e, ?_⟩
  rcases hc with rfl | rfl <;> simp [next, he, Except.map]

theorem next_template_open {text : List Char} {count : Nat}
    (h : Template.Cooks 0 (w ++ x) text count) (hx : x ≠ []) (p : Place) :
    ∃ e, next b p '\x60' w = .error e := by
  obtain ⟨e, he⟩ := cook_of_cooks h hx p.line (p.next '\x60')
  exact ⟨e, by simp [next, he, Except.map]⟩

theorem next_tag_open {t : HeadingText} (ht : t.Valid) {text : List Char} {count : Nat}
    (h : Template.Cooks 0 (w ++ x) text count) (hx : x ≠ []) (p : Place) :
    ∃ e, next b p 's' ('q' :: 'l' :: (t.text ++ '\x60' :: w)) = .error e := by
  have hw : ∀ d ∈ ['q', 'l'], continuesWord d = true := List.all_eq_true.1 (by decide)
  have hhead := heading_head ht w
  have htail : 'q' :: 'l' :: (t.text ++ '\x60' :: w) = ['q', 'l'] ++ (t.text ++ '\x60' :: w) := rfl
  obtain ⟨e, he⟩ := cook_of_cooks h hx ((p.after word).after t.text).line
    (((p.after word).after t.text).next '\x60')
  refine ⟨e, ?_⟩
  rw [htail, next_startsWord (by decide), takeWhile_append_stop hw hhead,
    dropWhile_append_stop hw hhead, if_pos (show ['s', 'q', 'l'] = word from rfl), heading?_text ht]
  simp only [List.tail_cons]
  rw [show ['s', 'q', 'l'] = word from rfl, he]
  rfl

theorem Shortened.of_kind {k : Kind} (htag : r.tag = none) (hkind : kind? b c w.head? = some k)
    (hx : x ≠ []) (hplace : r.place = p.after (c :: (w ++ x)))
    (hown : (∃ e, next b p c w = .error e) ∨
      ∃ b', next b p c w = .ok ⟨none, b', p.after (c :: w), []⟩ ∧ k.goesOn = true) :
    Shortened b p c w f r := by
  have hsize := size_pos hx
  have hc := size_pos (List.cons_ne_nil c w)
  refine .inside ⟨k, p.offset, r.place.offset⟩ (by rw [Reading.passage?, htag, hkind]; rfl) ?_ ?_ ?_
  · rw [Place.after_offset]
    exact Nat.lt_add_of_pos_right hc
  · rw [hplace, Place.after_offset, Place.after_offset, ← List.cons_append, Text.size_append]
    simp only
    omega
  · simpa [hkind] using hown

theorem exists_cons_of_ne {d : Char} {u : List Char} (h : d :: u = w ++ x) (hx : x.head? = some 'e')
    (hd : d ≠ 'e') : ∃ w', w = d :: w' ∧ u = w' ++ x := by
  cases w with
  | nil =>
    rw [List.nil_append] at h
    rw [← h] at hx
    exact absurd (Option.some.inj hx) hd
  | cons d' w =>
    obtain ⟨rfl, rfl⟩ := List.cons.inj h
    exact ⟨w, rfl, rfl⟩

theorem heading?_of_append (h : heading? p (v ++ f) = none) : heading? p v = none := by
  cases hk : heading? p v with
  | none => rfl
  | some k =>
    obtain ⟨t, g, ht, rfl, -⟩ := heading?_eq_some hk
    rw [List.append_assoc, List.cons_append, heading?_text ht] at h
    cases h

theorem arguments_of_heading {t : TagText} (ht : t.Valid) {y : List Char} (hy : y.head? = some 'e')
    (htext : t.heading = v ++ y) (p : Place) :
    (argumentSpan (t.tag p)).start < (p.after (word ++ v)).offset ∧
      (p.after (word ++ v)).offset < (argumentSpan (t.tag p)).stop := by
  obtain ⟨⟨gap, args⟩, body, sql, params⟩ := t
  obtain ⟨⟨hgap, hargs⟩, -⟩ := ht
  have not_blank {z : List Char} (hz : ∀ c ∈ z, isBlank c = true) : z.head? ≠ some 'e' :=
    fun hhead => absurd (hz _ (List.mem_of_mem_head? hhead)) (by decide)
  rw [argumentSpan_tag, Place.after_offset, Text.size_append]
  cases args with
  | none =>
    change gap = v ++ y at htext
    exact absurd hy (not_blank fun c hc => hgap c (htext ▸ List.mem_append_right _ hc))
  | some a =>
    change gap ++ (a.text ++ a.gap) = v ++ y at htext
    obtain ⟨hclosed, hbehind⟩ := hargs a rfl
    obtain ⟨args, hopen⟩ := typeArguments?_head hclosed
    obtain ⟨z, hgapz, rfl⟩ | ⟨u, hu, rfl, hrest⟩ := cut_cases htext
    · cases z with
      | nil =>
        rw [hopen] at hy
        cases hy
      | cons d z => exact absurd hy (not_blank (z := d :: z) fun c hc => hgap c (by simp_all))
    · obtain ⟨z, hz, rfl⟩ | ⟨z, hz, rfl, hgapz⟩ := cut_cases hrest
      · have hne : z ≠ [] := by
          rintro rfl
          exact not_blank hbehind hy
        have hlead : HeadingText.lead ⟨gap, some a⟩ = gap := rfl
        have htyped : HeadingText.typed ⟨gap, some a⟩ = u ++ z := hz
        have hu := size_pos hu
        have hne := size_pos hne
        simp only [hlead, htyped, Text.size_append]
        constructor <;> omega
      · exact absurd hy (not_blank fun c hc => hbehind c (hgapz ▸ List.mem_append_right _ hc))

theorem shortened_of_tag {t : TagText} (ht : t.Valid) (hf : f.head? = some 'e') {g : List Char}
    (h : w ++ f = 'q' :: 'l' :: (t.heading ++ '\x60' :: t.body) ++ g) :
    Shortened b p 's' w f ⟨some (t.tag p), .operand, p.after t.text, g⟩ := by
  obtain ⟨v, rfl, rfl⟩ | ⟨x, hx, hux, hfx⟩ := cut_cases h
  · exact .within v rfl (next_tag ht p v) fun _ => nofun
  · have hhead : x.head? = some 'e' := by
      rw [← hf, hfx, List.head?_append_of_ne_nil _ hx]
    obtain ⟨w₁, rfl, hql⟩ := exists_cons_of_ne hux hhead (by decide)
    obtain ⟨w₂, rfl, hrest⟩ := exists_cons_of_ne hql hhead (by decide)
    obtain ⟨y, rfl, hy⟩ | ⟨y, hy, hheading, rfl⟩ := cut_cases hrest.symm
    · obtain ⟨y, rfl, hbody⟩ := exists_cons_of_ne hy hhead (by decide)
      have hsize := size_pos hx
      have htick := Char.utf8Size_pos '\x60'
      have hcooked := ht.cooked
      rw [hbody] at hcooked
      refine .inside ⟨.template, (t.tag p).template⟩ rfl ?_ ?_
        (.inl (next_tag_open ht.heading hcooked hx p))
      · simp only [TagText.tag, word, Place.after_offset, Text.size_append, Text.size_cons,
          Text.size_nil]
        omega
      · simp only [TagText.tag, TagText.text, word, hbody, Place.after_offset, Text.size_append,
          Text.size_cons, Text.size_nil]
        omega
    · rw [List.head?_append_of_ne_nil _ hy] at hhead
      obtain ⟨hstart, hstop⟩ := arguments_of_heading ht hhead hheading p
      exact .arguments (t.tag p) rfl hstart hstop

/-- A step in front of a letter of code, and without it. -/
theorem shortened_of_next (hf : f.head? = some 'e') (h : next b p c (w ++ f) = .ok r) :
    Shortened b p c w f r := by
  have htakes := takes_of_next h
  rw [kind?_append b c w hf] at htakes
  generalize hcs : w ++ f = cs at htakes
  generalize hk : kind? b c w.head? = k at htakes
  have hletter : (look f).continuesWord = true := by simp [look, hf]; decide
  have hhead {x g : List Char} (hx : x ≠ []) (hfx : f = x ++ g) : x.head? = some 'e' := by
    rw [← hf, hfx, List.head?_append_of_ne_nil _ hx]
  cases htakes with
  | @lineComment u g hu hend =>
    obtain ⟨v, rfl, rfl⟩ | ⟨x, hx, hux, hfx⟩ := cut_cases hcs
    · have hv : v ≠ [] := by
        rintro rfl
        simp [look, hf] at hend
      rw [(look_of_ne_nil hv).1] at hend
      exact .within v rfl (next_lineComment hu hend p) fun hnil => absurd hnil hv
    · refine .of_kind rfl hk hx (by rw [hux]) (.inr ⟨b, ?_, rfl⟩)
      obtain ⟨w, rfl, rfl⟩ := exists_cons_of_ne hux (hhead hx hfx) (by decide)
      have hw : '\n' ∉ w := fun hmem => hu (List.mem_append_left _ hmem)
      have hnext := @next_lineComment b [] w hw rfl p
      rwa [List.append_nil] at hnext
  | @blockComment body g hbody =>
    obtain ⟨v, rfl, rfl⟩ | ⟨x, hx, hux, hfx⟩ := cut_cases hcs
    · exact .within v rfl (next_blockComment hbody p) fun _ => by rw [hk]; rintro _ ⟨⟩; rfl
    · refine .of_kind rfl hk hx (by rw [hux]) (.inl ?_)
      obtain ⟨w, rfl, rfl⟩ := exists_cons_of_ne hux (hhead hx hfx) (by decide)
      exact next_blockComment_open hbody hx p
  | @regex body flags g hb hbody hc hflags hstop =>
    obtain ⟨v, rfl, rfl⟩ | ⟨x, hx, hux, hfx⟩ := cut_cases hcs
    · have hv : v ≠ [] := by
        rintro rfl
        rw [List.nil_append, hletter] at hstop
        cases hstop
      rw [(look_of_ne_nil hv).2.1] at hstop
      rw [← List.append_assoc] at hc
      exact .within v rfl (next_regex hb hbody (makesComment_of_append hc) hflags hstop p)
        fun hnil => absurd hnil hv
    · refine .of_kind rfl hk hx (by rw [hux]) ?_
      have hw : (look w).makesComment = false := by
        rw [hux, List.append_assoc] at hc
        exact makesComment_of_append hc
      obtain ⟨flags', rfl, rfl⟩ | ⟨y, hy, rfl, rfl⟩ := cut_cases hux.symm
      · have hflags' : ∀ c ∈ flags', continuesWord c = true := fun c hmem =>
          hflags c (List.mem_append_left _ hmem)
        have hnext := next_regex (f := []) hb hbody (by rwa [List.append_nil]) hflags'
          rfl p
        rw [List.append_nil] at hnext
        exact .inr ⟨_, hnext, rfl⟩
      · exact .inl (next_regex_open hb hbody hy hw p)
  | @string _ body g hc hbody =>
    obtain ⟨v, rfl, rfl⟩ | ⟨x, hx, rfl, hfx⟩ := cut_cases hcs
    · exact .within v rfl (next_quoted hc hbody p) fun _ => by rw [hk]; rintro _ ⟨⟩; rfl
    · exact .of_kind rfl hk hx rfl (.inl (next_string_open hc hbody hx p))
  | @template body text g count hbody =>
    obtain ⟨v, rfl, rfl⟩ | ⟨x, hx, rfl, hfx⟩ := cut_cases hcs
    · exact .within v rfl (next_template hbody p) fun _ => by rw [hk]; rintro _ ⟨⟩; rfl
    · exact .of_kind rfl hk hx rfl (.inl (next_template_open hbody hx p))
  | tag ht => exact shortened_of_tag ht hf hcs
  | @word _ u g hc hu hstop hsql =>
    obtain ⟨v, rfl, rfl⟩ | ⟨x, hx, rfl, hfx⟩ := cut_cases hcs
    · have hv : v ≠ [] := by
        rintro rfl
        rw [List.nil_append, hletter] at hstop
        cases hstop
      rw [(look_of_ne_nil hv).2.1] at hstop
      exact .within v rfl (next_word hc hu hstop (fun hword => heading?_of_append (hsql hword)) p)
        fun hnil => absurd hnil hv
    · have hu : ∀ d ∈ w, continuesWord d = true := fun d hd => hu d (List.mem_append_left _ hd)
      have hnext := @next_word b [] c w hc hu rfl (fun _ => rfl) p
      rw [List.append_nil] at hnext
      refine .word rfl hk ?_ hnext
      have hsize := size_pos hx
      rw [Place.after_offset, Place.after_offset, ← List.cons_append, Text.size_append]
      omega
  | @mark _ g hc hq ht hw =>
    subst hcs
    refine .within w rfl (next_other ?_ hq ht hw p) fun _ => by simp [hk]
    exact fun hslash => ⟨(hc hslash).1, makesComment_of_append (hc hslash).2⟩

end Shorter

/-! Where the passages stand -/

section Bounds

variable {b : Before} {p : Place} {c : Char} {cs : List Char} {r : Reading} {x : Passage}
  {ts : List Tag}

theorem passages_cons (h : next b p c cs = .ok r) : passages b p (c :: cs) =
    (r.passage? b p c cs.head?).toList ++ passages r.before r.place r.rest := by
  rw [passages]
  split
  · rename_i he
    rw [h] at he
    cases he
  · rename_i hr
    rw [h] at hr
    cases hr
    rfl

theorem offset_of_next (h : next b p c cs = .ok r) :
    p.offset < r.place.offset ∧ (r.place.after r.rest).offset = (p.after (c :: cs)).offset := by
  obtain ⟨w, rfl, hplace⟩ := next_text h
  rw [hplace, ← Place.after_append, Place.after_offset p (c :: w), List.cons_append]
  exact ⟨Nat.lt_add_of_pos_right (size_pos (List.cons_ne_nil c w)), rfl⟩

theorem tag_of_next (h : next b p c cs = .ok r) {t : Tag} (ht : r.tag = some t) :
    t.InOrder ∧ t.template.stop = r.place.offset := by
  rcases next_cases h with ⟨x, -, -, hr⟩ | ⟨w, -, htag, -, -⟩
  · rw [hr] at ht ⊢
    cases ht
    exact ⟨inOrder_tag p x, rfl⟩
  · rw [htag] at ht
    cases ht

theorem passage?_bounds (h : next b p c cs = .ok r)
    (hx : r.passage? b p c cs.head? = some x) :
    p.offset ≤ x.span.start ∧ x.span.start < x.span.stop ∧ x.span.stop = r.place.offset := by
  rcases next_cases h with ⟨t, -, -, hr⟩ | ⟨w, -, htag, -, -⟩
  · rw [Reading.passage?, hr] at hx
    cases hx
    have hword : (t.tag p).tagEnd = p.offset + 3 := tag_tagEnd t p
    have horder := inOrder_tag p t
    have hargs := horder.args
    have hclosed := horder.closed
    have htemplate := horder.template
    refine ⟨?_, horder.full, by rw [hr]; rfl⟩
    simp only
    omega
  · rw [Reading.passage?, htag] at hx
    obtain ⟨k, -, rfl⟩ := Option.map_eq_some_iff.1 hx
    exact ⟨Nat.le_refl _, (offset_of_next h).1, rfl⟩

theorem passages_bounds (hx : x ∈ passages b p cs) :
    p.offset ≤ x.span.start ∧ x.span.start < x.span.stop ∧ x.span.stop ≤ (p.after cs).offset := by
  fun_induction passages b p cs with
  | case1 => cases hx
  | case2 => cases hx
  | case3 b p c cs r hr ih =>
    obtain ⟨hlt, hend⟩ := offset_of_next hr
    have hle : r.place.offset ≤ (r.place.after r.rest).offset := by
      rw [Place.after_offset]
      exact Nat.le_add_right ..
    rcases List.mem_append.1 hx with hx | hx
    · obtain ⟨hstart, hfull, hstop⟩ := passage?_bounds hr (Option.mem_toList.1 hx)
      exact ⟨hstart, hfull, by omega⟩
    · obtain ⟨hstart, hfull, hstop⟩ := ih hx
      exact ⟨by omega, hfull, by omega⟩

theorem tagEnd_of_scan (h : scanFrom b p cs = .ok ts) : ∀ t ∈ ts, p.offset + 3 ≤ t.tagEnd := by
  obtain ⟨ps, -, rfl⟩ := exists_tags h
  exact tagEnd_ge

end Bounds

/-! What stands in front of a letter of code -/

/-- The scan comes to the end of the text, with nothing that would go on. -/
def EndsInCode (b : Before) (p : Place) (w : List Char) : Prop :=
  (∃ ts, scanFrom b p w = .ok ts) ∧
    ∀ x ∈ passages b p w, x.span.stop = (p.after w).offset → x.kind.goesOn = false

section Ends

variable {b : Before} {p : Place} {c : Char} {w : List Char} {r : Reading}

theorem endsInCode_nil (b : Before) (p : Place) : EndsInCode b p [] := by
  refine ⟨⟨[], by rw [scanFrom]⟩, ?_⟩
  rw [passages]
  exact fun x hx => absurd hx List.not_mem_nil

theorem endsInCode_cons (h : next b p c w = .ok r)
    (hclosed : r.rest = [] → ∀ x ∈ r.passage? b p c w.head?, x.kind.goesOn = false) :
    EndsInCode b p (c :: w) ↔ EndsInCode r.before r.place r.rest := by
  have hend := (offset_of_next h).2
  constructor
  · rintro ⟨⟨ts, hts⟩, hpassages⟩
    obtain ⟨r', ts', hr', hscan, -⟩ := scanFrom_eq_ok hts
    rw [h] at hr'
    cases hr'
    refine ⟨⟨ts', hscan⟩, fun x hx hstop => hpassages x ?_ (hstop.trans hend)⟩
    rw [passages_cons h]
    exact List.mem_append_right _ hx
  · rintro ⟨⟨ts, hts⟩, hpassages⟩
    refine ⟨⟨r.tag.toList ++ ts, ?_⟩, fun x hx hstop => ?_⟩
    · rw [scanFrom_cons, h]
      change (scanFrom r.before r.place r.rest).map _ = _
      rw [hts]
      rfl
    · rw [passages_cons h] at hx
      rcases List.mem_append.1 hx with hx | hx
      · obtain ⟨-, -, hbehind⟩ := passage?_bounds h (Option.mem_toList.1 hx)
        rw [hbehind, ← hend, Place.after_offset] at hstop
        exact hclosed (Text.eq_nil_of_size (by omega)) x (Option.mem_toList.1 hx)
      · exact hpassages x hx (hstop.trans hend.symm)

theorem not_endsInCode_of_error {e : Unterminated} (h : next b p c w = .error e) :
    ¬EndsInCode b p (c :: w) := by
  rintro ⟨⟨ts, hts⟩, -⟩
  obtain ⟨r, -, hr, -⟩ := scanFrom_eq_ok hts
  rw [h] at hr
  cases hr

theorem not_endsInCode_of_goesOn {b' : Before} {k : Kind}
    (h : next b p c w = .ok ⟨none, b', p.after (c :: w), []⟩) (hk : kind? b c w.head? = some k)
    (hgoesOn : k.goesOn = true) : ¬EndsInCode b p (c :: w) := by
  rintro ⟨-, hpassages⟩
  rw [passages_cons h, Reading.passage?, hk] at hpassages
  have hfalse := hpassages _ (List.mem_append_left _ (Option.mem_toList.2 rfl)) rfl
  rw [hgoesOn] at hfalse
  cases hfalse

end Ends

inductive Placed (b : Before) (p : Place) (w f : List Char) (ts : List Tag) : Prop where
  | code (hown : EndsInCode b p w)
      (hpassages : ∀ x ∈ passages b p (w ++ f),
        x.span.stop ≤ (p.after w).offset ∨ (p.after w).offset ≤ x.span.start)
      (htags : ∀ t ∈ ts,
        t.template.stop ≤ (p.after w).offset ∨ (p.after w).offset + 3 ≤ t.tagEnd)
  | inside (hown : ¬EndsInCode b p w) (x : Passage) (hx : x ∈ passages b p (w ++ f))
      (hstart : x.span.start < (p.after w).offset) (hstop : (p.after w).offset < x.span.stop)
  | arguments (t : Tag) (ht : t ∈ ts) (hstart : (argumentSpan t).start < (p.after w).offset)
      (hstop : (p.after w).offset < (argumentSpan t).stop)
      (hpassages : ∀ x ∈ passages b p (w ++ f),
        x.span.stop ≤ (p.after w).offset ∨ (p.after w).offset ≤ x.span.start)

section Placing

variable {b : Before} {p : Place} {c : Char} {w f : List Char} {r : Reading} {ts : List Tag}

theorem mem_passages_cons (hf : f.head? = some 'e') (hr : next b p c (w ++ f) = .ok r)
    {x : Passage} : x ∈ passages b p (c :: w ++ f) ↔
      r.passage? b p c w.head? = some x ∨ x ∈ passages r.before r.place r.rest := by
  rw [List.cons_append, passages_cons hr, passage?_append r b p c w hf, List.mem_append,
    Option.mem_toList]

theorem stop_of_passage? (hf : f.head? = some 'e') (hr : next b p c (w ++ f) = .ok r) {x : Passage}
    (hx : r.passage? b p c w.head? = some x) : x.span.stop = r.place.offset := by
  rw [← passage?_append r b p c w hf] at hx
  exact (passage?_bounds hr hx).2.2

theorem Placed.of_within (hf : f.head? = some 'e') (hr : next b p c (w ++ f) = .ok r)
    {v : List Char} (hrest : r.rest = v ++ f) (hown : next b p c w = .ok { r with rest := v })
    (hclosed : v = [] → ∀ k ∈ kind? b c w.head?, k.goesOn = false)
    (h : Placed r.before r.place v f ts) : Placed b p (c :: w) f (r.tag.toList ++ ts) := by
  have hend : (r.place.after v).offset = (p.after (c :: w)).offset := (offset_of_next hown).2
  have hle : r.place.offset ≤ (p.after (c :: w)).offset := by
    rw [← hend, Place.after_offset]
    exact Nat.le_add_right ..
  have hends : EndsInCode b p (c :: w) ↔ EndsInCode r.before r.place v := by
    refine endsInCode_cons hown fun hnil x hx => ?_
    rw [Option.mem_def, Reading.passage?] at hx
    split at hx
    · cases hx
      rfl
    · obtain ⟨k, hk, rfl⟩ := Option.map_eq_some_iff.1 hx
      exact hclosed hnil k hk
  have hpassages {P : Passage → Prop}
      (hfirst : ∀ x : Passage, x.span.stop ≤ (p.after (c :: w)).offset → P x)
      (hbehind : ∀ x ∈ passages r.before r.place (v ++ f), P x) :
      ∀ x ∈ passages b p (c :: w ++ f), P x := by
    intro x hx
    rcases (mem_passages_cons hf hr).1 hx with hx | hx
    · exact hfirst x (stop_of_passage? hf hr hx ▸ hle)
    · exact hbehind x (hrest ▸ hx)
  have hmem {x : Passage} (hx : x ∈ passages r.before r.place (v ++ f)) :
      x ∈ passages b p (c :: w ++ f) := (mem_passages_cons hf hr).2 (.inr (hrest ▸ hx))
  cases h with
  | code hcode hbefore htags =>
    rw [hend] at hbefore htags
    refine .code (hends.2 hcode) (hpassages (fun _ => .inl) hbefore) fun t ht => ?_
    rcases List.mem_append.1 ht with ht | ht
    · exact .inl (stop_of_passage? hf hr (passage?_of_tag (Option.mem_toList.1 ht) _) ▸ hle)
    · exact htags t ht
  | inside hopen x hx hstart hstop =>
    rw [hend] at hstart hstop
    exact .inside (fun h => hopen (hends.1 h)) x (hmem hx) hstart hstop
  | arguments t ht hstart hstop hbefore =>
    rw [hend] at hstart hstop hbefore
    exact .arguments t (List.mem_append_right _ ht) hstart hstop (hpassages (fun _ => .inl) hbefore)

theorem placed_of_scan (hf : f.head? = some 'e') (h : scanFrom b p (w ++ f) = .ok ts) :
    Placed b p w f ts := by
  induction hn : w.length using Nat.strong_induction_on generalizing b p w ts with
  | _ n ih =>
  subst hn
  cases w with
  | nil =>
    exact .code (endsInCode_nil b p) (fun x hx => .inr (passages_bounds hx).1) fun t ht =>
      .inr (tagEnd_of_scan h t ht)
  | cons c w =>
    obtain ⟨r, ts, hr, hscan, rfl⟩ := scanFrom_eq_ok h
    have hbehind {x : Passage} (hx : x ∈ passages r.before r.place r.rest) :
        r.place.offset ≤ x.span.start := (passages_bounds hx).1
    cases shortened_of_next hf hr with
    | within v hrest hown hclosed =>
      rw [hrest] at hscan
      exact .of_within hf hr hrest hown hclosed (ih v.length (next_rest_lt hown) hscan rfl)
    | word htag hkind hlt hown =>
      have hends : EndsInCode b p (c :: w) := by
        refine (endsInCode_cons hown fun _ x hx => ?_).2 (endsInCode_nil ..)
        rw [Reading.passage?, hkind] at hx
        cases hx
      refine .code hends (fun x hx => ?_) fun t ht => ?_
      · rcases (mem_passages_cons hf hr).1 hx with hx | hx
        · rw [Reading.passage?, htag, hkind] at hx
          cases hx
        · exact .inr (hlt.le.trans (hbehind hx))
      · rcases List.mem_append.1 ht with ht | ht
        · rw [htag] at ht
          cases ht
        · have := tagEnd_of_scan hscan t ht
          exact .inr (by omega)
    | inside x hx hstart hstop hown =>
      refine .inside ?_ x ((mem_passages_cons hf hr).2 (.inl hx)) hstart hstop
      rcases hown with ⟨e, he⟩ | ⟨b', hown, k, hk, hgoesOn⟩
      · exact not_endsInCode_of_error he
      · exact not_endsInCode_of_goesOn hown hk hgoesOn
    | arguments t ht hstart hstop =>
      obtain ⟨horder, hstop'⟩ := tag_of_next hr ht
      have htemplate := horder.template
      have hfull := horder.full
      refine .arguments t (List.mem_append_left _ (Option.mem_toList.2 ht)) hstart hstop
        fun x hx => .inr ?_
      rcases (mem_passages_cons hf hr).1 hx with hx | hx
      · rw [passage?_of_tag ht] at hx
        cases hx
        exact hstop.le.trans htemplate
      · have := hbehind hx
        omega

end Placing

end RowTypes.Tag
