import Mathlib.Tactic.ByContra
import RowTypes.Proofs.ByteReader

/-! The reader of bytes goes through strings, comments, regular expressions and template literals
as they are gone through in the characters. Of a character outside of ASCII it may take the bytes
one by one, or begin behind the first of them. -/

namespace RowTypes.Code

def Enclosure.Plain : Enclosure → Prop
  | quoted _ quote => quote.val < 0x80
  | template _ | expression .. | regex .. | blockComment _ | lineComment => True

/-- The step inside of it that reads a character outside of ASCII changes nothing. -/
def Enclosure.Absorbs (e : Enclosure) : Prop :=
  ∀ outer l c d, 0x80 ≤ c.val → step e outer l c d = .one (e :: outer)

def Step.stack : Step → List Enclosure
  | one stack | two stack => stack
  | broken => []

theorem ne_of_wide {c : Char} (hc : 0x80 ≤ c.val) (d : Char) (hd : d.val < 0x80) : c ≠ d := by
  rintro rfl
  exact UInt32.not_lt.2 hc hd

theorem absorbs_quoted {l : Nat} {quote : Char} (hquote : quote.val < 0x80) :
    (Enclosure.quoted l quote).Absorbs := by
  intro outer l' c d hc
  have h := ne_of_wide hc
  simp [step, h '\\' (by decide), h '\n' (by decide), h quote hquote]

theorem absorbs_template (l : Nat) : (Enclosure.template l).Absorbs := by
  intro outer l' c d hc
  have h := ne_of_wide hc
  simp [step, h '\\' (by decide), h '\x60' (by decide), h '$' (by decide)]

theorem absorbs_regex (l : Nat) (inClass : Bool) : (Enclosure.regex l inClass).Absorbs := by
  intro outer l' c d hc
  have h := ne_of_wide hc
  simp [step, h '\\' (by decide), h '\n' (by decide), h '[' (by decide), h ']' (by decide),
    h '/' (by decide)]

theorem startsWord_wide {c : Char} (hc : 0x80 ≤ c.val) : startsWord c = true := by
  simp [startsWord, hc]

theorem continuesWord_wide {c : Char} (hc : 0x80 ≤ c.val) : continuesWord c = true := by
  rw [continuesWord, startsWord_wide hc, Bool.true_or]

theorem isBlank_wide {c : Char} (hc : 0x80 ≤ c.val) : isBlank c = false := by
  have h := ne_of_wide hc
  simp [isBlank, h ' ' (by decide), h '\t' (by decide), h '\n' (by decide), h '\x0c' (by decide),
    h '\r' (by decide)]

theorem Before.read_wide {c : Char} (hc : 0x80 ≤ c.val) (b : Before) :
    b.read c = if b = .flags then .flags else .operand := by
  simp [Before.read, continuesWord_wide hc, isBlank_wide hc]

theorem step_expression_wide {c : Char} (hc : 0x80 ≤ c.val) (l depth : Nat) (b : Before)
    (outer : List Enclosure) (l' : Nat) (d : Option Char) :
    step (.expression l depth b) outer l' c d = .one (.expression l depth (b.read c) :: outer) := by
  have h := ne_of_wide hc
  simp [step, h '/' (by decide), h '\'' (by decide), h '"' (by decide), h '\x60' (by decide),
    h '\x7b' (by decide), h '\x7d' (by decide)]

theorem step_wide {e : Enclosure} (he : e.Plain) :
    ∃ e' : Enclosure, e'.Absorbs ∧
      ∀ outer l c d, 0x80 ≤ c.val → step e outer l c d = .one (e' :: outer) := by
  have habsorbs (h : e.Absorbs) : ∃ e' : Enclosure, e'.Absorbs ∧
      ∀ outer l c d, 0x80 ≤ c.val → step e outer l c d = .one (e' :: outer) := ⟨e, h, h⟩
  cases e with
  | quoted => exact habsorbs (absorbs_quoted he)
  | template => exact habsorbs (absorbs_template _)
  | regex => exact habsorbs (absorbs_regex _ _)
  | blockComment =>
    refine habsorbs fun outer l c d hc => ?_
    simp [step, ne_of_wide hc '*' (by decide)]
  | lineComment =>
    refine habsorbs fun outer l c d hc => ?_
    simp [step, ne_of_wide hc '\n' (by decide)]
  | expression l depth b =>
    refine ⟨.expression l depth (if b = .flags then .flags else .operand), ?_, ?_⟩
    · intro outer l' c d hc
      rw [step_expression_wide hc, Before.read_wide hc]
      cases b <;> rfl
    · intro outer l' c d hc
      rw [step_expression_wide hc, Before.read_wide hc]

theorem ascii_of_step {e : Enclosure} {outer : List Enclosure} {l : Nat} {c : Char}
    {d : Option Char} (he : e.Plain) (h : ∀ stack, step e outer l c d ≠ .one stack) :
    c.val < 0x80 := by
  by_contra hc
  obtain ⟨e', -, hwide⟩ := step_wide he
  exact h _ (hwide outer l c d (UInt32.not_lt.1 hc))

theorem step_following {d d' : Option Char} (h : ∀ x : Char, x.val < 0x80 → (d = some x ↔ d' = some x))
    (e : Enclosure) (outer : List Enclosure) (l : Nat) (c : Char) :
    step e outer l c d = step e outer l c d' := by
  have hslash := h '/' (by decide)
  have hstar := h '*' (by decide)
  have hbrace := h '\x7b' (by decide)
  cases e <;> simp only [step, hslash, hstar, hbrace]

theorem step_plain {e : Enclosure} {outer : List Enclosure} (h : ∀ x ∈ e :: outer, x.Plain)
    (l : Nat) (c : Char) (d : Option Char) : ∀ x ∈ (step e outer l c d).stack, x.Plain := by
  rw [List.forall_mem_cons] at h
  obtain ⟨he, houter⟩ := h
  have hquote (hc : c = '\'' ∨ c = '"') : (Enclosure.quoted l c).Plain := by
    rcases hc with rfl | rfl
    · exact (by decide : '\''.val < 0x80)
    · exact (by decide : '"'.val < 0x80)
  fun_cases step e outer l c d <;> simp_all +zetaDelta [Step.stack, Enclosure.Plain]

theorem step_two {e : Enclosure} {outer stack : List Enclosure} {l : Nat} {c : Char}
    {d : Option Char} (he : e.Plain) (h : step e outer l c d = .two stack) :
    (∃ x : Char, d = some x ∧ x.val < 0x80) ∨ stack = e :: outer ∧ e.Absorbs := by
  revert h
  fun_cases step e outer l c d <;> intro h <;> try cases h
  case case3 hopen => exact .inl ⟨_, hopen.2, by decide⟩
  case case5 hline => exact .inl ⟨_, hline.2, by decide⟩
  case case6 hblock => exact .inl ⟨_, hblock.2, by decide⟩
  case case24 hclose => exact .inl ⟨_, hclose.2, by decide⟩
  -- the others are the escapes
  case case1 => exact .inr ⟨rfl, absorbs_template _⟩
  case case14 => exact .inr ⟨rfl, absorbs_quoted he⟩
  case case18 => exact .inr ⟨rfl, absorbs_regex _ _⟩

end RowTypes.Code

namespace RowTypes.Bytes
open Code (Before Enclosure)

def lift {α β : Type} (f : α → β) : Except Unterminated α → Except Fault β
  | .error u => .error (.unterminated u)
  | .ok a => .ok (f a)

section Agreement

variable {text : List UInt8} {p : Place} {c : Char} {cs : List Char} {pos : Nat}

theorem skim_absorbed {e : Enclosure} {outer : List Enclosure} (he : e.Absorbs) (pos : Nat)
    (d : Char) (hd : letter? text pos = some d) (hwide : 0x80 ≤ d.val) :
    skim text (e :: outer) pos = skim text (e :: outer) (pos + 1) := by
  rw [skim_letter hd, he outer _ d _ hwide]

theorem At.skim_wide (h : At text p (c :: cs)) (hc : 0x80 ≤ c.val) {e : Enclosure} (he : e.Plain)
    {outer stack : List Enclosure} {l : Nat} {d : Option Char}
    (hstep : Code.step e outer l c d = .one stack) :
    skim text (e :: outer) p.offset = skim text stack (p.next c).offset := by
  obtain ⟨e', habsorbs, hwide⟩ := Code.step_wide he
  rw [hwide outer l c d hc] at hstep
  obtain rfl := Code.Step.one.inj hstep
  obtain ⟨x, hx, hx'⟩ := h.exists_wide_letter hc
  rw [skim_letter hx, hwide outer _ x _ hx']
  exact h.behind (skim_absorbed habsorbs)

theorem At.step_eq (h : At text p (c :: cs)) (hc : c.val < 0x80) (e : Enclosure)
    (outer : List Enclosure) :
    Code.step e outer (Bytes.lineAt text p.offset) c (letter? text (p.offset + 1)) =
      Code.step e outer p.line c cs.head? := by
  rw [h.lineAt, ← next_ascii p hc]
  exact Code.step_following (fun x hx => h.next.letter?_eq_iff hx) e outer p.line c

theorem skim_eq {stack : List Enclosure} (hat : At text p cs) (hstack : ∀ e ∈ stack, e.Plain) :
    skim text stack p.offset = lift (·.place.offset) (Code.skim stack p cs) := by
  fun_induction Code.skim stack p cs with
  | case1 p cs => rw [skim]; rfl
  | case2 e outer p => rw [skim_end hat.letter?_end]; rfl
  | case3 e outer p c cs stack hstep ih =>
    have hplain := Code.step_plain hstack p.line c cs.head?
    rw [hstep] at hplain
    rw [← ih hat.next hplain]
    by_cases hc : c.val < 0x80
    · rw [skim_letter (hat.letter?_ascii hc), hat.step_eq hc, hstep, next_ascii p hc]
    · exact hat.skim_wide (UInt32.not_lt.1 hc) (hstack e List.mem_cons_self) hstep
  | case4 e outer p c stack hstep =>
    have hc := Code.ascii_of_step (hstack e List.mem_cons_self) (by rw [hstep]; simp)
    obtain ⟨x, hx, -⟩ | ⟨rfl, -⟩ := Code.step_two (hstack e List.mem_cons_self) hstep
    · cases hx
    · have hbehind := hat.next.letter?_nil 1
      rw [next_ascii p hc] at hbehind
      rw [skim_letter (hat.letter?_ascii hc), hat.step_eq hc, hstep]
      exact skim_end hbehind
  | case5 e outer p c stack d cs hstep ih =>
    have hc := Code.ascii_of_step (hstack e List.mem_cons_self) (by rw [hstep]; simp)
    have hplain := Code.step_plain hstack p.line c (d :: cs).head?
    rw [hstep] at hplain
    -- behind an escape the reader may stand inside of `d`
    have hbehind : skim text stack ((p.next c).offset + 1) =
        skim text stack ((p.next c).next d).offset := by
      obtain ⟨x, hx, hascii⟩ | ⟨rfl, habsorbs⟩ := Code.step_two (hstack e List.mem_cons_self) hstep
      · cases hx
        rw [next_ascii _ hascii]
      · exact hat.next.behind (skim_absorbed habsorbs)
    rw [next_ascii p hc] at hbehind
    rw [skim_letter (hat.letter?_ascii hc), hat.step_eq hc, hstep, ← ih hat.next.next hplain,
      ← hbehind]
  | case6 e outer p c cs hstep =>
    have hc := Code.ascii_of_step (hstack e List.mem_cons_self) (by rw [hstep]; simp)
    rw [skim_letter (hat.letter?_ascii hc), hat.step_eq hc, hstep]
    rfl

/-! Template literals -/

theorem lift_map {α β γ : Type} (f : β → γ) (g : α → β) (x : Except Unterminated α) :
    lift f (x.map g) = lift (f ∘ g) x := by
  cases x <;> rfl

theorem map_lift {α β γ : Type} (f : α → β) (g : β → γ) (x : Except Unterminated α) :
    (lift f x).map g = lift (g ∘ f) x := by
  cases x <;> rfl

theorem cook_wide (line params chunk : Nat) (bytes : List UInt8) (pos : Nat) (d : Char)
    (hd : letter? text pos = some d) (hwide : 0x80 ≤ d.val) :
    cook text line params chunk pos bytes = cook text line params chunk (pos + 1) bytes := by
  have hne := Code.ne_of_wide hwide
  rw [cook_letter hd, if_neg (hne '\x60' (by decide)), if_neg (hne '\\' (by decide)),
    if_neg fun h => hne '$' (by decide) h.1]

theorem isCookedEscape_wide (hc : 0x80 ≤ c.val) : Template.isCookedEscape c = false := by
  have hne := Code.ne_of_wide hc
  simp [Template.isCookedEscape, hne '\x60' (by decide), hne '$' (by decide), hne '\\' (by decide)]

theorem At.escaped {d : Char} (h : At text p (d :: cs)) : ∃ b, text[p.offset]? = some b ∧
    Template.isCookedEscape (Char.ofUInt8 b) = Template.isCookedEscape d ∧
      (Template.isCookedEscape d = true → [b] = Text.encode [d]) := by
  by_cases hd : d.val < 0x80
  · obtain ⟨b, hb, hletter⟩ := Text.utf8EncodeChar_ascii hd
    refine ⟨b, ?_, by rw [hletter], fun _ => by rw [Text.encode_cons, hb]; rfl⟩
    rw [← Nat.add_zero p.offset, h.getElem?, Text.encode_cons, hb]
    rfl
  · have hwide := UInt32.not_lt.1 hd
    obtain ⟨x, hx, hx'⟩ := h.exists_wide_letter hwide
    obtain ⟨b, hb, rfl⟩ := Option.map_eq_some_iff.1 hx
    refine ⟨b, hb, by rw [isCookedEscape_wide hx', isCookedEscape_wide hwide], fun h => ?_⟩
    rw [isCookedEscape_wide hwide] at h
    cases h

theorem At.cook_open {q : Place} {pending : List Char} (h : At text q (pending ++ '$' :: '\x7b' :: cs))
    (line params : Nat) (bytes : List UInt8) :
    cook text line params q.offset (q.after pending).offset bytes =
      (lift (·.place.offset) (Code.skim [.expression (q.after pending).line 0 .operator]
        ((q.after pending).after ['$', '\x7b']) cs)).bind fun stop =>
          if (q.after pending).offset < stop then
            cook text line (params + 1) stop stop (bytes ++ Text.encode pending ++
              Text.encode (Template.placeholder (params + 1)))
          else .error .standstill := by
  have hopen := h.after
  have hbrace : letter? text ((q.after pending).offset + 1) = some '\x7b' :=
    hopen.next.letter?_ascii (by decide)
  have hskim : skim text [.expression (q.after pending).line 0 .operator] _ = _ :=
    skim_eq (At.after (w := ['$', '\x7b']) hopen) (by simp [Enclosure.Plain])
  rw [← hskim, cook_letter (hopen.letter?_ascii (by decide)), if_neg (by decide),
    if_neg (by decide), if_pos ⟨rfl, hbrace⟩, h.slice, hopen.lineAt]
  rfl

theorem At.cook_escape {q : Place} {pending : List Char} {d : Char}
    (h : At text q (pending ++ '\\' :: d :: cs)) (line params : Nat) (bytes : List UInt8) :
    cook text line params q.offset (q.after pending).offset bytes =
      if Template.isCookedEscape d then
        cook text line params (((q.after pending).next '\\').next d).offset
          (((q.after pending).next '\\').next d).offset
          (bytes ++ Text.encode pending ++ Text.encode [d])
      else cook text line params q.offset (((q.after pending).next '\\').next d).offset bytes := by
  have hbehind := h.after.next
  obtain ⟨b, hb, hescape, hcooked⟩ := hbehind.escaped
  have hb : text[(q.after pending).offset + 1]? = some b := hb
  rw [cook_letter (h.after.letter?_ascii (by decide)), if_neg (by decide), if_pos rfl, hb]
  by_cases hd : Template.isCookedEscape d = true
  · have hascii : d.val < 0x80 := by
      by_contra hwide
      rw [isCookedEscape_wide (UInt32.not_lt.1 hwide)] at hd
      cases hd
    have hchunk : (q.after pending).offset + 2 = (((q.after pending).next '\\').next d).offset := by
      rw [next_ascii _ hascii]
      rfl
    simp only [hescape, hd, if_true, h.slice]
    rw [Except.bind, hchunk, hcooked hd]
  · simp only [hescape, hd, Bool.false_eq_true, if_false]
    exact hbehind.behind (f := fun pos => cook text line params q.offset pos bytes)
      (cook_wide line params q.offset bytes)

theorem At.cook_plain {q : Place} {pending : List Char} {c : Char}
    (h : At text q (pending ++ c :: cs)) (hback : c ≠ '\x60') (hslash : c ≠ '\\')
    (hopen : ¬(c = '$' ∧ cs.head? = some '\x7b')) (line params : Nat) (bytes : List UInt8) :
    cook text line params q.offset (q.after pending).offset bytes =
      cook text line params q.offset ((q.after pending).next c).offset bytes := by
  by_cases hc : c.val < 0x80
  · have hbrace := h.after.next.letter?_eq_iff (d := '\x7b') (by decide)
    rw [next_ascii _ hc] at hbrace ⊢
    rw [cook_letter (h.after.letter?_ascii hc), if_neg hback, if_neg hslash,
      if_neg fun hboth => hopen ⟨hboth.1, hbrace.1 hboth.2⟩]
  · exact h.after.across (f := fun pos => cook text line params q.offset pos bytes)
      (cook_wide line params q.offset bytes) (UInt32.not_lt.1 hc)

theorem cook_eq {line params : Nat} {q : Place} {pending : List Char} {bytes : List UInt8}
    (hat : At text q (pending ++ cs)) (hp : p = q.after pending) :
    cook text line params q.offset p.offset bytes =
      lift (fun t => ⟨bytes ++ Text.encode (pending ++ t.text), t.params, t.stop.offset⟩)
        (Template.cook line params p cs) := by
  fun_induction Template.cook line params p cs generalizing q pending bytes with
  | case1 params p =>
    subst hp
    rw [cook_end hat.after.letter?_end]
    rfl
  | case2 params p cs =>
    subst hp
    rw [cook_letter (hat.after.letter?_ascii (by decide)), if_pos rfl, hat.slice, lift,
      List.append_nil]
    rfl
  | case3 params p =>
    subst hp
    have hbehind := hat.after.next
    have hnone : text[(q.after pending).offset + 1]? = none := hbehind.getElem? 0
    have hend : letter? text ((q.after pending).offset + 2) = none := hbehind.letter?_nil 1
    rw [cook_letter (hat.after.letter?_ascii (by decide)), if_neg (by decide), if_pos rfl, hnone]
    exact cook_end hend
  | case4 params p d cs _ kept =>
    rename_i ih
    subst hp
    rw [hat.cook_escape, lift_map]
    by_cases hd : Template.isCookedEscape d = true
    · have hrest := @ih (((q.after pending).next '\\').next d) []
        (bytes ++ Text.encode pending ++ Text.encode [d]) hat.after.next.next rfl
      rw [if_pos hd, hrest]
      simp only [kept, hd, dif_pos, Function.comp_def, Template.Cooked.prepend,
        Text.encode_append, List.append_assoc, List.nil_append]
    · have hat' : At text q (pending ++ ['\\', d] ++ cs) := by simpa using hat
      rw [if_neg hd, @ih _ _ bytes hat' (by simp)]
      simp only [kept, hd, Bool.false_eq_true, dif_neg, not_false_eq_true, Function.comp_def,
        Template.Cooked.prepend, List.append_assoc]
  | case5 params p c cs _ _ hopen u hskim =>
    subst hp
    obtain ⟨rfl, hbrace⟩ := hopen
    obtain ⟨cs, rfl⟩ := List.head?_eq_some_iff.1 hbrace
    rw [List.tail_cons] at hskim
    rw [hat.cook_open, hskim]
    rfl
  | case6 params p c cs _ _ hopen k hskim ih =>
    subst hp
    obtain ⟨rfl, hbrace⟩ := hopen
    obtain ⟨cs, rfl⟩ := List.head?_eq_some_iff.1 hbrace
    rw [List.tail_cons] at hskim
    obtain ⟨body, rfl, hplace, -⟩ := Code.skim_closed hskim
    have hclose : At text k.place k.rest := by
      rw [hplace]
      exact (At.after (w := ['$', '\x7b']) hat.after).after
    have hlt : (q.after pending).offset < k.place.offset := by
      have := '$'.utf8Size_pos
      simp only [hplace, Place.after_offset, Text.size_cons]
      omega
    have hrest := @ih k.place []
      (bytes ++ Text.encode pending ++ Text.encode (Template.placeholder (params + 1))) hclose rfl
    rw [hat.cook_open, hskim, lift, Except.bind]
    simp only [hlt, if_true]
    rw [hrest, lift_map]
    simp only [Function.comp_def, Template.Cooked.prepend, Text.encode_append, List.append_assoc,
      List.nil_append]
  | case7 params p c cs hback hslash hopen ih =>
    subst hp
    have hat' : At text q (pending ++ [c] ++ cs) := by simpa using hat
    rw [hat.cook_plain hback hslash hopen, lift_map, ih hat' (by simp)]
    simp only [Function.comp_def, Template.Cooked.prepend, List.append_assoc]

end Agreement
end RowTypes.Bytes
