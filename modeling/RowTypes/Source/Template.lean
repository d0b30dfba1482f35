import RowTypes.Source.Code

/-! The text that a template literal stands for. Each interpolation becomes a
numbered placeholder, and only the escapes that matter to SQL (of a backtick, a
dollar sign and a backslash) are undone. -/

namespace RowTypes.Template

structure Cooked where
  text : List Char
  /-- The number of interpolations. -/
  params : Nat
  /-- Behind the closing backtick. -/
  stop : Place
  rest : List Char

def Cooked.prepend (chars : List Char) (t : Cooked) : Cooked :=
  { t with text := chars ++ t.text }

def isCookedEscape (c : Char) : Bool := c = '\x60' || c = '$' || c = '\\'

def placeholder (n : Nat) : List Char := '$' :: (toString n).toList

/-- Reads from behind the opening backtick, which stands on line `line`;
`params` interpolations have been read before. -/
def cook (line params : Nat) (p : Place) : List Char → Except Unterminated Cooked
  | [] => .error ⟨.template, line⟩
  | c :: cs =>
    if c = '\x60' then .ok ⟨[], params, p.next c, cs⟩
    else if c = '\\' then
      match cs with
      | [] => .error ⟨.template, line⟩
      | d :: cs =>
        let kept := if isCookedEscape d then [d] else [c, d]
        (cook line params ((p.next c).next d) cs).map (Cooked.prepend kept)
    else if c = '$' ∧ cs.head? = some '\x7b' then
      match h : Code.skim [.expression p.line 0 .operator] (p.after ['$', '\x7b']) cs.tail with
      | .error e => .error e
      | .ok k =>
        (cook line (params + 1) k.place k.rest).map
          (Cooked.prepend (placeholder (params + 1)))
    else (cook line params (p.next c) cs).map (Cooked.prepend [c])
termination_by cs => cs.length
decreasing_by
  · simp only [List.length_cons]
    omega
  · have := Code.skim_rest_lt h
    have : cs.tail.length ≤ cs.length := by simp
    simp only [List.length_cons]
    omega
  · exact Nat.lt_succ_self _

theorem map_prepend_eq_ok {x : Except Unterminated Cooked} {kept : List Char} {t : Cooked}
    (h : x.map (Cooked.prepend kept) = .ok t) : ∃ u, x = .ok u ∧ t = u.prepend kept := by
  cases x with
  | error e => cases h
  | ok u => cases h; exact ⟨u, rfl, rfl⟩

theorem cook_rest_lt {line params p cs t} (h : cook line params p cs = .ok t) :
    t.rest.length < cs.length := by
  fun_induction cook line params p cs generalizing t with
  | case1 => cases h
  | case2 => cases h; exact Nat.lt_succ_self _
  | case3 => cases h
  | case4 =>
    rename_i ih
    obtain ⟨u, hu, rfl⟩ := map_prepend_eq_ok h
    have := ih hu
    exact Nat.lt_succ_of_lt (Nat.lt_succ_of_lt this)
  | case5 => cases h
  | case6 _ _ _ cs _ _ _ _ hk ih =>
    obtain ⟨u, hu, rfl⟩ := map_prepend_eq_ok h
    have := ih hu
    have := Code.skim_rest_lt hk
    have : cs.tail.length ≤ cs.length := by simp
    simp only [Cooked.prepend, List.length_cons]
    omega
  | case7 _ _ _ _ _ _ _ ih =>
    obtain ⟨u, hu, rfl⟩ := map_prepend_eq_ok h
    have := ih hu
    exact Nat.lt_succ_of_lt this

end RowTypes.Template
