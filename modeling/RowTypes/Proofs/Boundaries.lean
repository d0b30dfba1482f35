import RowTypes.Proofs.Statements

/-! Two source texts with a boundary between them. Nothing that is pending at the end of the first
one goes on behind the boundary, so the scan finds the tags of both, those of the second where the
second has come to stand. -/

namespace RowTypes

def Place.moved (bytes lines : Nat) (p : Place) : Place := ⟨bytes + p.offset, lines + p.line⟩

@[simp] theorem Place.moved_offset (bytes lines : Nat) (p : Place) :
    (p.moved bytes lines).offset = bytes + p.offset := rfl

@[simp] theorem Place.moved_line (bytes lines : Nat) (p : Place) :
    (p.moved bytes lines).line = lines + p.line := rfl

def Span.moved (bytes : Nat) (s : Span) : Span := ⟨bytes + s.start, bytes + s.stop⟩

theorem Place.after_moved (bytes lines : Nat) (p : Place) (w : List Char) :
    (p.moved bytes lines).after w = (p.after w).moved bytes lines := by
  induction w generalizing p with
  | nil => rfl
  | cons c w ih =>
    have hnext : (p.moved bytes lines).next c = (p.next c).moved bytes lines := by
      simp only [next, moved, Nat.add_assoc, mk.injEq, true_and]
      split <;> rfl
    rw [after_cons, after_cons, hnext, ih]

theorem Place.after_start (w : List Char) :
    start.after w = start.moved (Text.size w) (Text.lineFeeds w) := by
  have hoffset := after_offset start w
  have hline := after_line start w
  rw [Nat.add_comm] at hoffset hline
  rw [moved, ← hoffset, ← hline]

namespace Tag
open Code

def moved (bytes lines : Nat) (t : Tag) : Tag :=
  { t with
    tagEnd := bytes + t.tagEnd
    typeArguments := t.typeArguments.map (Span.moved bytes)
    template := t.template.moved bytes
    line := lines + t.line }

theorem TagText.tag_moved (t : TagText) (bytes lines : Nat) (p : Place) :
    t.tag (p.moved bytes lines) = (t.tag p).moved bytes lines := by
  obtain ⟨⟨gap, args⟩, body, sql, params⟩ := t
  cases args <;>
    simp [TagText.tag, HeadingText.span, Tag.moved, Span.moved, Place.after_moved]

theorem tags_moved (ps : List Piece) (bytes lines : Nat) (p : Place) :
    tags (p.moved bytes lines) ps = (tags p ps).map (Tag.moved bytes lines) := by
  induction ps generalizing p with
  | nil => rfl
  | cons q ps ih =>
    cases q with
    | plain w => rw [tags, tags, Place.after_moved, ih]
    | tag t => rw [tags, tags, Place.after_moved, ih, t.tag_moved, List.map_cons]

/-! Steps in front of more text -/

/-- A step that would end at the end of everything ends in front of `f`, and no word `sql` that
began no tag begins one there. -/
structure Bounds (f : List Char) : Prop where
  look : look f = look []
  heading : ∀ p cs, heading? p cs = none → heading? p (cs ++ f) = none

theorem bounds_nil : Bounds [] := ⟨rfl, fun p cs h => by rwa [List.append_nil]⟩

theorem Bounds.look_append {f : List Char} (hf : Bounds f) (w : List Char) :
    Tag.look (w ++ f) = Tag.look w := by
  rw [Tag.look_append w hf.look, List.append_nil]

def Piece.tag? (p : Place) : Piece → Option Tag
  | plain _ => none
  | tag t => some (t.tag p)

theorem tags_cons (p : Place) (q : Piece) (ps : List Piece) :
    tags p (q :: ps) = (q.tag? p).toList ++ tags (p.after q.text) ps := by
  cases q <;> rfl

theorem opensWord_of_not_startsWord {c : Char} (hc : startsWord c = false) (cs : List Char) :
    opensWord (c :: cs) = false := by
  have hne : (c :: cs).takeWhile continuesWord ≠ word := by
    intro h
    rw [List.takeWhile_cons] at h
    split at h
    · obtain ⟨rfl, -⟩ := List.cons.inj h
      exact Bool.noConfusion hc
    · cases h
  simp [opensWord, hne]

/-- The step that leads to `r` reads the piece `q`, at any place and in front of more text. -/
structure Reading.Covers (b : Before) (c : Char) (cs : List Char) (r : Reading) (q : Piece) :
    Prop where
  text : q.text ++ r.rest = c :: cs
  anywhere : ∀ p f, Bounds f →
    next b p c (cs ++ f) = .ok ⟨q.tag? p, r.before, p.after q.text, r.rest ++ f⟩

theorem covers_tag {t : TagText} (ht : t.Valid) {b : Before} {c : Char} {cs : List Char}
    {r : Reading} (hcs : c :: cs = t.text ++ r.rest) (hr : r.before = .operand) :
    r.Covers b c cs (.tag t) := by
  refine ⟨hcs.symm, fun p f _ => ?_⟩
  have htext : t.text = 's' :: ('q' :: 'l' :: (t.heading ++ '\x60' :: t.body)) := rfl
  rw [htext, List.cons_append] at hcs
  obtain ⟨rfl, rfl⟩ := List.cons.inj hcs
  rw [List.append_assoc, next_tag ht, hr]
  rfl

theorem exists_covers {b : Before} {p : Place} {c : Char} {cs : List Char} {r : Reading}
    (h : next b p c cs = .ok r) : ∃ q, r.Covers b c cs q := by
  cases hw : startsWord c with
  | true =>
    rcases next_startsWord_cases hw h with ⟨t, ht, hcs, hr⟩ | ⟨rfl, hsql⟩
    · exact ⟨.tag t, covers_tag ht hcs (congrArg Reading.before hr)⟩
    · refine ⟨.plain (c :: cs.takeWhile continuesWord), ?_, fun p' f hf => ?_⟩
      · rw [Piece.text, List.cons_append, List.takeWhile_append_dropWhile]
      · have hstop : (look (cs.dropWhile continuesWord ++ f)).continuesWord = false := by
          rw [hf.look_append]
          exact look_of_all (head?_dropWhile_all cs)
        have hnext : next b p' c (cs.takeWhile continuesWord ++
            (cs.dropWhile continuesWord ++ f)) = _ :=
          next_word hw of_mem_takeWhile hstop (fun hword => hf.heading _ _ (hsql hword)) p'
        rwa [← List.append_assoc, List.takeWhile_append_dropWhile] at hnext
  | false =>
    rcases next_cases h with ⟨t, ht, hcs, hr⟩ | ⟨w, hcs, -, -, hnext⟩
    · exact ⟨.tag t, covers_tag ht hcs (congrArg Reading.before hr)⟩
    · refine ⟨.plain (c :: w), by rw [hcs]; rfl, fun p' f hf => ?_⟩
      have := hnext (opensWord_of_not_startsWord hw cs) p' (r.rest ++ f) (hf.look_append _)
      rwa [← List.append_assoc, ← hcs] at this

theorem Reading.Covers.eq {b : Before} {p : Place} {c : Char} {cs : List Char} {r : Reading}
    {q : Piece} (hq : r.Covers b c cs q) (h : next b p c cs = .ok r) :
    r = ⟨q.tag? p, r.before, p.after q.text, r.rest⟩ := by
  have hself := hq.anywhere p [] bounds_nil
  rw [List.append_nil, List.append_nil, h] at hself
  exact Except.ok.inj hself

/-- A scan that succeeds comes to the end of its text at any other place and in front of more text
as well, with the same tags. -/
theorem scanFrom_bounded {b : Before} {p : Place} {cs : List Char} {ts : List Tag}
    (h : scanFrom b p cs = .ok ts) :
    ∃ ps b', tags p ps = ts ∧ ∀ p' f, Bounds f →
      scanFrom b p' (cs ++ f) = (scanFrom b' (p'.after cs) f).map (tags p' ps ++ ·) := by
  fun_induction stops b p cs generalizing ts with
  | case1 b p =>
    rw [scanFrom] at h
    cases h
    refine ⟨[], b, rfl, fun p' f _ => ?_⟩
    rw [List.nil_append, Place.after_nil, tags]
    cases scanFrom b p' f <;> rfl
  | case2 b p c cs e he =>
    obtain ⟨r, -, hr, -⟩ := scanFrom_eq_ok h
    rw [he] at hr
    cases hr
  | case3 b p c cs r hr ih =>
    obtain ⟨r', ts', hr', hs, rfl⟩ := scanFrom_eq_ok h
    rw [hr] at hr'
    cases hr'
    obtain ⟨ps, b', htags, hscan⟩ := ih hs
    obtain ⟨q, hq⟩ := exists_covers hr
    refine ⟨q :: ps, b', ?_, fun p' f hf => ?_⟩
    · rw [hq.eq hr] at htags ⊢
      rw [tags_cons, htags]
    · rw [List.cons_append, scanFrom_cons, hq.anywhere p' f hf, ← hq.text, Place.after_append,
        tags_cons]
      change (scanFrom r.before (p'.after q.text) (r.rest ++ f)).map _ = _
      rw [hscan _ f hf]
      cases scanFrom b' ((p'.after q.text).after r.rest) f <;> simp [Except.map]

/-! The boundary -/

/-- Two empty statements on lines of their own. The first line feed ends a comment or the quote of
a string, unless a backslash stands before it; then the second one does. -/
def boundary : List Char := ['\n', ';', '\n', ';', '\n']

theorem closeAngle_lineFeed (quoted : Option Char) (depth : Nat) (afterEquals : Bool)
    (f : List Char) : closeAngle quoted depth afterEquals ('\n' :: ';' :: f) = none := by
  have hsemicolon (afterEquals : Bool) : closeAngle none depth afterEquals (';' :: f) = none := by
    rw [closeAngle.eq_def]
    simp
  cases quoted with
  | none =>
    rw [closeAngle.eq_def]
    simp [hsemicolon]
  | some q => rw [closeAngle_quoted_end _ (.inr rfl), hsemicolon, Option.map_none]

theorem closeAngle_boundary {quoted : Option Char} {depth : Nat} {afterEquals : Bool}
    {cs : List Char} (h : closeAngle quoted depth afterEquals cs = none) (f : List Char) :
    closeAngle quoted depth afterEquals (cs ++ (boundary ++ f)) = none := by
  fun_induction closeAngle quoted depth afterEquals cs with
  | case1 => exact closeAngle_lineFeed ..
  | case2 depth afterEquals c cs q hc ih =>
    rw [Option.map_eq_none_iff] at h
    rw [List.cons_append, closeAngle_quoted_end _ hc, ih h, Option.map_none]
  | case3 depth afterEquals q hq =>
    -- the backslash takes the first line feed, so the string goes on to the second one
    have hescape : closeAngle (some q) depth afterEquals
        ('\\' :: '\n' :: ';' :: '\n' :: ';' :: '\n' :: f) = _ := closeAngle_quoted_escape '\n' _ hq
    have hsecond : closeAngle (some q) depth false (';' :: '\n' :: ';' :: '\n' :: f) = none := by
      by_cases hend : ';' = q ∨ ';' = '\n'
      · rw [closeAngle_quoted_end _ hend, closeAngle_lineFeed, Option.map_none]
      · rw [closeAngle_quoted_other _ hend (by decide), closeAngle_lineFeed, Option.map_none]
    rw [hsecond] at hescape
    exact hescape
  | case4 depth afterEquals q d cs hq ih =>
    rw [Option.map_eq_none_iff] at h
    rw [List.cons_append, List.cons_append, closeAngle_quoted_escape _ _ hq, ih h, Option.map_none]
  | case5 depth afterEquals c cs q hc hb ih =>
    rw [Option.map_eq_none_iff] at h
    rw [List.cons_append, closeAngle_quoted_other _ hc hb, ih h, Option.map_none]
  | case6 => cases h
  | case7 depth afterEquals c cs hc hs =>
    rw [List.cons_append, closeAngle, if_neg hc, if_pos hs]
  | case8 =>
    rename_i c cs hc hs _ _ ih
    rw [Option.map_eq_none_iff] at h
    rw [List.cons_append, closeAngle, if_neg hc, if_neg hs]
    exact Option.map_eq_none_iff.2 (ih h)

theorem typeArguments?_boundary {cs : List Char} (h : typeArguments? ('<' :: cs) = none)
    (f : List Char) : typeArguments? ('<' :: cs ++ (boundary ++ f)) = none := by
  rw [typeArguments?, Option.map_eq_none_iff] at h
  rw [List.cons_append, typeArguments?, closeAngle_boundary h, Option.map_none]

theorem heading?_angle_eq_none {gap : List Char} (hgap : ∀ c ∈ gap, isBlank c = true) (p : Place)
    (cs : List Char) :
    heading? p (gap ++ '<' :: cs) = none ↔
      ∀ args rest, typeArguments? ('<' :: cs) = some (args, rest) →
        (rest.dropWhile isBlank).head? ≠ some '\x60' := by
  have hskip : skipBlanks p (gap ++ '<' :: cs) = ⟨p.after gap, '<' :: cs⟩ :=
    skipBlanks_append p hgap rfl
  simp only [heading?, hskip, List.head?_cons, if_true]
  cases typeArguments? ('<' :: cs) with
  | none => simp
  | some found =>
    obtain ⟨args, rest⟩ := found
    by_cases hend : (rest.dropWhile isBlank).head? = some '\x60' <;> simp [skipBlanks, hend]

theorem bounds_boundary (f : List Char) : Bounds (boundary ++ f) where
  look := rfl
  heading := by
    intro p cs h
    by_cases hopen : (cs.dropWhile isBlank).head? = some '<'
    · obtain ⟨rest, hrest⟩ := List.head?_eq_some_iff.1 hopen
      have hblank : ∀ c ∈ cs.takeWhile isBlank, isBlank c = true := of_mem_takeWhile
      have hcs := List.takeWhile_append_dropWhile (p := isBlank) (l := cs)
      rw [hrest] at hcs
      rw [← hcs, heading?_angle_eq_none hblank] at h
      rw [← hcs, List.append_assoc, List.cons_append, heading?_angle_eq_none hblank]
      intro args more hargs
      cases hfound : typeArguments? ('<' :: rest) with
      | none =>
        have hnone := typeArguments?_boundary hfound f
        rw [List.cons_append, hargs] at hnone
        cases hnone
      | some found =>
        obtain ⟨args', more'⟩ := found
        have hclosed := typeArguments?_closed hfound (more' ++ (boundary ++ f))
        rw [← List.append_assoc, typeArguments?_append hfound, List.cons_append, hargs] at hclosed
        cases hclosed
        rw [List.dropWhile_append]
        split
        · exact fun hhead => Bool.noConfusion (congrArg (· == some '\x60') hhead)
        · rename_i hne
          rw [List.isEmpty_iff] at hne
          rw [List.head?_append_of_ne_nil _ hne]
          exact h args more' hfound
    · have hlook : look (cs ++ (boundary ++ f)) = look (cs ++ []) := Tag.look_append cs rfl
      rw [List.append_nil] at hlook
      refine heading?_eq_none p ?_
      rw [hlook]
      exact look_of_heading?_eq_none h hopen

theorem scanFrom_boundary (b : Before) (p : Place) (f : List Char) :
    scanFrom b p (boundary ++ f) = scanFrom .operator (p.after boundary) f := by
  have hfeed (b : Before) (p : Place) (f : List Char) :
      scanFrom b p ('\n' :: f) = scanFrom (b.read '\n') (p.next '\n') f :=
    (passes_mark (c := '\n') (by decide) b f p f rfl).1
  rw [boundary]
  simp only [List.cons_append, List.nil_append, hfeed, scanFrom_semicolon]
  rfl

/-- The scan of two texts with the boundary between them finds the tags of the first, and then
those of the second, moved by all that stands before it. -/
theorem scan_across_boundary {first second : String} {ts us : List Tag} (hfirst : scan first = .ok ts)
    (hsecond : scan second = .ok us) :
    scan (first ++ "\n;\n;\n" ++ second) =
      .ok (ts ++ us.map (Tag.moved (Text.size (first ++ "\n;\n;\n").toList)
        (Text.lineFeeds (first ++ "\n;\n;\n").toList))) := by
  obtain ⟨ps, b, hps, hfound⟩ := scanFrom_bounded hfirst
  obtain ⟨qs, b', hqs, hfound'⟩ := scanFrom_bounded hsecond
  have htext : (first ++ "\n;\n;\n" ++ second).toList =
      first.toList ++ (boundary ++ second.toList) := by
    simp [boundary]
  have hbefore : (first ++ "\n;\n;\n").toList = first.toList ++ boundary := by
    simp [boundary]
  have hend := hfound' (Place.start.after (first ++ "\n;\n;\n").toList) [] bounds_nil
  rw [List.append_nil, scanFrom.eq_1] at hend
  rw [scan, htext, hfound .start _ (bounds_boundary _), scanFrom_boundary, ← Place.after_append,
    ← hbefore, hend, hps, Place.after_start, tags_moved, hqs]
  simp [Except.map]

/-- A word `sql` in front of an angle bracket, with a quote and a backslash pending in a comment,
and then a regular expression with a backtick. -/
theorem scan_across_pending_quote :
    scan "sql\x60a\x60\nif (sql < b) // it's \\" = .ok [⟨3, none, ⟨3, 6⟩, 1, "a", 0⟩] ∧
      scan "/\x60/.test(sql<T>\x60b\x60)" = .ok [⟨12, some ⟨12, 15⟩, ⟨15, 18⟩, 1, "b", 0⟩] ∧
      scan ("sql\x60a\x60\nif (sql < b) // it's \\" ++ "\n;\n;\n" ++ "/\x60/.test(sql<T>\x60b\x60)") =
        .ok [⟨3, none, ⟨3, 6⟩, 1, "a", 0⟩, ⟨46, some ⟨46, 49⟩, ⟨49, 52⟩, 5, "b", 0⟩] := by
  have hfirst : scan "sql\x60a\x60\nif (sql < b) // it's \\" =
      .ok [⟨3, none, ⟨3, 6⟩, 1, "a", 0⟩] := by decide +kernel
  have hsecond : scan "/\x60/.test(sql<T>\x60b\x60)" =
      .ok [⟨12, some ⟨12, 15⟩, ⟨15, 18⟩, 1, "b", 0⟩] := by decide +kernel
  refine ⟨hfirst, hsecond, ?_⟩
  rw [scan_across_boundary hfirst hsecond]
  decide +kernel

end Tag
end RowTypes
