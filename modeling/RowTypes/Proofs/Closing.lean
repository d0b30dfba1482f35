import RowTypes.Source.Tag

/-! What closes a piece of source text stands in that piece alone. A comment, a string,
a regular expression, a template literal or a list of type arguments that has been read
up to its end is read in the same way at any other place and in front of any other
text. -/

namespace RowTypes

theorem map_fst_eq_some {α β γ : Type} {f : α → γ} {x : Option (α × β)} {c : γ} {b : β} :
    x.map (Prod.map f id) = some (c, b) ↔ ∃ a, x = some (a, b) ∧ f a = c := by
  cases x with
  | none => simp
  | some y =>
    obtain ⟨a, b'⟩ := y
    simp only [Option.map_some, Prod.map_apply, id_eq, Option.some.injEq, Prod.mk.injEq]
    constructor
    · rintro ⟨rfl, rfl⟩
      exact ⟨a, ⟨rfl, rfl⟩, rfl⟩
    · rintro ⟨a', ⟨rfl, rfl⟩, rfl⟩
      exact ⟨rfl, rfl⟩

theorem map_eq_ok {ε α β : Type} {f : α → β} {x : Except ε α} {b : β} :
    x.map f = .ok b ↔ ∃ a, x = .ok a ∧ f a = b := by
  cases x <;> simp [Except.map]

namespace Code

def Enclosure.unlined : Enclosure → Enclosure
  | template _ => template 0
  | expression _ depth before => expression 0 depth before
  | quoted _ quote => quoted 0 quote
  | regex _ inClass => regex 0 inClass
  | blockComment _ => blockComment 0
  | lineComment => lineComment

theorem Enclosure.unlined_unlined (e : Enclosure) : e.unlined.unlined = e.unlined := by
  cases e <;> rfl

theorem map_unlined_unlined (stack : List Enclosure) :
    (stack.map Enclosure.unlined).map Enclosure.unlined = stack.map Enclosure.unlined := by
  simp only [List.map_map]
  exact List.map_congr_left fun e _ => e.unlined_unlined

def Step.unlined : Step → Step
  | one stack => one (stack.map Enclosure.unlined)
  | two stack => two (stack.map Enclosure.unlined)
  | broken => broken

theorem Step.unlined_one (stack : List Enclosure) :
    (one stack).unlined = one (stack.map Enclosure.unlined) := rfl

theorem Step.unlined_two (stack : List Enclosure) :
    (two stack).unlined = two (stack.map Enclosure.unlined) := rfl

theorem Step.unlined_broken : broken.unlined = broken := rfl

theorem step_unlined (e : Enclosure) (outer : List Enclosure) (l l' : Nat) (c : Char)
    (d : Option Char) :
    (step e outer l c d).unlined =
      (step e.unlined (outer.map Enclosure.unlined) l' c d).unlined := by
  cases e <;> simp only [step, Enclosure.unlined, apply_ite Step.unlined, Step.unlined_one,
    Step.unlined_two, Step.unlined_broken, List.map_cons, map_unlined_unlined]

theorem step_congr {e e' : Enclosure} {outer outer' : List Enclosure} (l l' : Nat) (c : Char)
    (d : Option Char)
    (h : (e' :: outer').map Enclosure.unlined = (e :: outer).map Enclosure.unlined) :
    (step e' outer' l' c d).unlined = (step e outer l c d).unlined := by
  obtain ⟨he, ho⟩ := List.cons.inj h
  rw [step_unlined e' outer' l' 0, step_unlined e outer l 0, he, ho]

theorem step_one_congr {e e' : Enclosure} {outer outer' stack : List Enclosure} {l m : Nat}
    {c : Char} {d : Option Char}
    (h : (e' :: outer').map Enclosure.unlined = (e :: outer).map Enclosure.unlined)
    (hstep : step e outer l c d = .one stack) :
    ∃ stack', step e' outer' m c d = .one stack' ∧
      stack'.map Enclosure.unlined = stack.map Enclosure.unlined := by
  have hu := step_congr l m c d h
  rw [hstep] at hu
  generalize step e' outer' m c d = s at hu
  cases s with
  | one stack' => exact ⟨stack', rfl, Step.one.inj hu⟩
  | two => cases hu
  | broken => cases hu

theorem step_two_congr {e e' : Enclosure} {outer outer' stack : List Enclosure} {l m : Nat}
    {c : Char} {d : Option Char}
    (h : (e' :: outer').map Enclosure.unlined = (e :: outer).map Enclosure.unlined)
    (hstep : step e outer l c d = .two stack) :
    ∃ stack', step e' outer' m c d = .two stack' ∧
      stack'.map Enclosure.unlined = stack.map Enclosure.unlined := by
  have hu := step_congr l m c d h
  rw [hstep] at hu
  generalize step e' outer' m c d = s at hu
  cases s with
  | one => cases hu
  | two stack' => exact ⟨stack', rfl, Step.two.inj hu⟩
  | broken => cases hu

theorem step_one_nil {e : Enclosure} {outer : List Enclosure} {l : Nat} {c : Char}
    {d : Option Char} (h : step e outer l c d = .one []) (d' : Option Char) :
    step e outer l c d' = .one [] := by
  cases e with
  | expression =>
    simp only [step] at h ⊢
    by_cases hs : c = '/'
    · subst hs
      grind
    · simpa only [hs, false_and, if_false] using h
  | template =>
    simp only [step] at h ⊢
    by_cases hs : c = '$'
    · subst hs
      grind
    · simpa only [hs, false_and, if_false] using h
  | blockComment =>
    simp only [step] at h
    grind
  | _ => exact h

theorem skim_nil_eq_ok {stack : List Enclosure} {p : Place} {k : Cursor}
    (h : skim stack p [] = .ok k) : stack = [] := by
  cases stack with
  | nil => rfl
  | cons e outer => cases h

theorem exists_cons_of_map_eq {e : Enclosure} {outer stack : List Enclosure}
    (h : stack.map Enclosure.unlined = (e :: outer).map Enclosure.unlined) :
    ∃ e' outer', stack = e' :: outer' := by
  cases stack with
  | nil => cases h
  | cons e' outer' => exact ⟨e', outer', rfl⟩

/-- At the end of `body` all of `stack` is closed, and not before. -/
def Closes (stack : List Enclosure) (body : List Char) : Prop :=
  ∀ stack' p f, stack'.map Enclosure.unlined = stack.map Enclosure.unlined →
    skim stack' p (body ++ f) = .ok ⟨p.after body, f⟩

theorem skim_closed {stack : List Enclosure} {p : Place} {cs : List Char} {k : Cursor}
    (h : skim stack p cs = .ok k) :
    ∃ body, cs = body ++ k.rest ∧ k.place = p.after body ∧ Closes stack body := by
  fun_induction skim stack p cs with
  | case1 p cs =>
    cases h
    refine ⟨[], rfl, rfl, ?_⟩
    intro stack' p' f hs
    rw [List.map_eq_nil_iff.1 hs, List.nil_append, skim.eq_1]
    rfl
  | case2 => cases h
  | case3 e outer p c cs stack hstep ih =>
    obtain ⟨body, hcs, hp, hbody⟩ := ih h
    refine ⟨c :: body, by rw [hcs]; rfl, by simpa using hp, ?_⟩
    intro stack' p' f hs
    obtain ⟨e', outer', rfl⟩ := exists_cons_of_map_eq hs
    -- the step looks at the next character, which belongs to the body unless all is closed
    have same : step e outer p.line c (body ++ f).head? = .one stack := by
      cases body with
      | nil =>
        have hk := skim_nil_eq_ok (hbody stack p [] rfl)
        subst hk
        exact step_one_nil hstep _
      | cons d body => rw [← hstep, hcs]; rfl
    obtain ⟨stack₂, h₂, hs₂⟩ := step_one_congr (m := p'.line) hs same
    rw [List.cons_append, skim, h₂]
    exact hbody stack₂ (p'.next c) f hs₂
  | case4 => cases h
  | case5 e outer p c stack d cs hstep ih =>
    obtain ⟨body, hcs, hp, hbody⟩ := ih h
    refine ⟨c :: d :: body, by rw [hcs]; rfl, by simpa using hp, ?_⟩
    intro stack' p' f hs
    obtain ⟨e', outer', rfl⟩ := exists_cons_of_map_eq hs
    obtain ⟨stack₂, h₂, hs₂⟩ := step_two_congr (m := p'.line) hs hstep
    rw [List.cons_append, skim]
    simp only [List.head?_cons] at h₂
    simp only [List.cons_append, List.head?_cons, h₂]
    exact hbody stack₂ ((p'.next c).next d) f hs₂
  | case6 => cases h

end Code

namespace Template

theorem cook_backtick (line params : Nat) (p : Place) (cs : List Char) :
    cook line params p ('\x60' :: cs) = .ok ⟨[], params, p.next '\x60', cs⟩ := by
  rw [cook.eq_def]
  rfl

theorem cook_backslash (line params : Nat) (p : Place) (d : Char) (cs : List Char) :
    cook line params p ('\\' :: d :: cs) =
      (cook line params ((p.next '\\').next d) cs).map
        (Cooked.prepend (if isCookedEscape d then [d] else ['\\', d])) := by
  rw [cook.eq_def]
  rfl

theorem cook_expression {line params : Nat} {p : Place} {cs : List Char} {k : Code.Cursor}
    (h : Code.skim [.expression p.line 0 .operator] (p.after ['$', '\x7b']) cs = .ok k) :
    cook line params p ('$' :: '\x7b' :: cs) =
      (cook line (params + 1) k.place k.rest).map (Cooked.prepend (placeholder (params + 1))) := by
  rw [cook.eq_def]
  simp only [List.head?_cons, List.tail_cons, and_self, if_true]
  rw [if_neg (by decide), if_neg (by decide)]
  split
  next e he => rw [h] at he; cases he
  next k' hk => rw [h] at hk; cases hk; rfl

theorem cook_other {line params : Nat} {p : Place} {c : Char} {cs : List Char}
    (ht : c ≠ '\x60') (hb : c ≠ '\\') (hd : ¬(c = '$' ∧ cs.head? = some '\x7b')) :
    cook line params p (c :: cs) =
      (cook line params (p.next c) cs).map (Cooked.prepend [c]) := by
  rw [cook.eq_def]
  simp only [ht, hb, hd, if_false]

/-- At the end of `body` the template is closed. It stands for `text`, with `count` interpolations
when those before are counted in. -/
def Cooks (params : Nat) (body text : List Char) (count : Nat) : Prop :=
  ∀ line p f, cook line params p (body ++ f) = .ok ⟨text, count, p.after body, f⟩

theorem cook_closed {line params : Nat} {p : Place} {cs : List Char} {t : Cooked}
    (h : cook line params p cs = .ok t) :
    ∃ body, cs = body ++ t.rest ∧ t.stop = p.after body ∧ Cooks params body t.text t.params := by
  fun_induction cook line params p cs generalizing t with
  | case1 => cases h
  | case2 params p cs =>
    cases h
    refine ⟨['\x60'], rfl, rfl, ?_⟩
    intro line' p' f
    exact cook_backtick line' params p' f
  | case3 => cases h
  | case4 =>
    rename_i params p d cs _ _ ih
    obtain ⟨u, hu, rfl⟩ := map_prepend_eq_ok h
    obtain ⟨body, hcs, hp, hbody⟩ := ih hu
    refine ⟨'\\' :: d :: body, by rw [hcs]; rfl, hp, ?_⟩
    intro line' p' f
    rw [List.cons_append, List.cons_append, cook_backslash, hbody]
    rfl
  | case5 => cases h
  | case6 params p c cs ht hb hd k hk ih =>
    obtain ⟨u, hu, rfl⟩ := map_prepend_eq_ok h
    obtain ⟨body, hcs, hp, hbody⟩ := ih hu
    obtain ⟨inner, hin, hpin, hclosed⟩ := Code.skim_closed hk
    obtain ⟨rfl, hd⟩ := hd
    obtain ⟨cs, rfl⟩ := List.head?_eq_some_iff.1 hd
    rw [List.tail_cons] at hin
    refine ⟨'$' :: '\x7b' :: (inner ++ body), by simp [hin, hcs, Cooked.prepend], ?_, ?_⟩
    · simpa [Cooked.prepend, hpin] using hp
    · intro line' p' f
      have hk' := hclosed [.expression p'.line 0 .operator] (p'.after ['$', '\x7b']) (body ++ f) rfl
      rw [List.cons_append, List.cons_append, List.append_assoc, cook_expression hk', hbody]
      simp [Except.map, Cooked.prepend]
  | case7 params p c cs ht hb hd ih =>
    obtain ⟨u, hu, rfl⟩ := map_prepend_eq_ok h
    obtain ⟨body, hcs, hp, hbody⟩ := ih hu
    refine ⟨c :: body, by rw [hcs]; rfl, hp, ?_⟩
    intro line' p' f
    -- the closing backtick is still to come, so the next character is one of the body
    have hne : body ≠ [] := by
      rintro rfl
      have := hbody line p []
      rw [List.append_nil, cook] at this
      cases this
    obtain ⟨d, body, rfl⟩ := List.exists_cons_of_ne_nil hne
    have hd' : ¬(c = '$' ∧ (d :: body ++ f).head? = some '\x7b') := by simpa [hcs] using hd
    rw [List.cons_append, cook_other ht hb hd', hbody]
    rfl

end Template

namespace Tag

theorem closeAngle_quoted_end {q c : Char} {depth : Nat} {afterEquals : Bool} (cs : List Char)
    (hc : c = q ∨ c = '\n') :
    closeAngle (some q) depth afterEquals (c :: cs) =
      (closeAngle none depth false cs).map (.map (c :: ·) id) := by
  rw [closeAngle.eq_def]
  simp only [hc, if_true]

theorem closeAngle_quoted_escape {q : Char} {depth : Nat} {afterEquals : Bool} (d : Char)
    (cs : List Char) (hq : ¬('\\' = q ∨ '\\' = '\n')) :
    closeAngle (some q) depth afterEquals ('\\' :: d :: cs) =
      (closeAngle (some q) depth false cs).map (.map ('\\' :: d :: ·) id) := by
  rw [closeAngle.eq_def]
  simp only [hq, if_false, if_true]

theorem closeAngle_quoted_other {q c : Char} {depth : Nat} {afterEquals : Bool} (cs : List Char)
    (hc : ¬(c = q ∨ c = '\n')) (hb : c ≠ '\\') :
    closeAngle (some q) depth afterEquals (c :: cs) =
      (closeAngle (some q) depth false cs).map (.map (c :: ·) id) := by
  rw [closeAngle.eq_def]
  simp only [hc, hb, if_false]

theorem closeAngle_closed {quoted : Option Char} {depth : Nat} {afterEquals : Bool}
    {cs args rest : List Char} (h : closeAngle quoted depth afterEquals cs = some (args, rest))
    (f : List Char) : closeAngle quoted depth afterEquals (args ++ f) = some (args, f) := by
  fun_induction closeAngle quoted depth afterEquals cs generalizing args with
  | case1 => cases h
  | case2 depth afterEquals c cs q hc ih =>
    obtain ⟨args, hx, rfl⟩ := map_fst_eq_some.1 h
    rw [List.cons_append, closeAngle_quoted_end _ hc, ih hx]
    rfl
  | case3 => cases h
  | case4 depth afterEquals q d cs hq ih =>
    obtain ⟨args, hx, rfl⟩ := map_fst_eq_some.1 h
    rw [List.cons_append, List.cons_append, closeAngle_quoted_escape _ _ hq, ih hx]
    rfl
  | case5 depth afterEquals c cs q hc hb ih =>
    obtain ⟨args, hx, rfl⟩ := map_fst_eq_some.1 h
    rw [List.cons_append, closeAngle_quoted_other _ hc hb, ih hx]
    rfl
  | case6 depth afterEquals c cs hc =>
    cases h
    rw [List.cons_append, closeAngle, if_pos hc]
    rfl
  | case7 => cases h
  | case8 =>
    rename_i c cs hc hs _ _ ih
    obtain ⟨args, hx, rfl⟩ := map_fst_eq_some.1 h
    rw [List.cons_append, closeAngle, if_neg hc, if_neg hs]
    exact map_fst_eq_some.2 ⟨args, ih hx, rfl⟩

theorem typeArguments?_closed {cs args rest : List Char}
    (h : typeArguments? cs = some (args, rest)) (f : List Char) :
    typeArguments? (args ++ f) = some (args, f) := by
  unfold typeArguments? at h
  split at h
  · obtain ⟨args, hx, rfl⟩ := map_fst_eq_some.1 h
    exact map_fst_eq_some.2 ⟨args, closeAngle_closed hx f, rfl⟩
  · cases h

end Tag
end RowTypes
