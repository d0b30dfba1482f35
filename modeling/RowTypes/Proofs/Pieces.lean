import RowTypes.Proofs.Stops

/-! A source text as a list of pieces, the tags and what stands between them. The scan of
the text goes from piece to piece. It still does when pieces change, as long as each one
looks the same to the piece before it. -/

namespace RowTypes.Tag

/-- Before any text that looks like `f`, the scan reads `w` and finds no tag in it. Its next
steps are those that it would take there. -/
def Passes (before : Code.Before) (w f : List Char) (after : Code.Before) : Prop :=
  ∀ p g, look g = look f →
    scanFrom before p (w ++ g) = scanFrom after (p.after w) g ∧
      stops after (p.after w) g <:+ stops before p (w ++ g)

theorem Passes.nil (b : Code.Before) (f : List Char) : Passes b [] f b :=
  fun _ _ _ => ⟨rfl, List.suffix_rfl⟩

theorem Passes.append {b b' b'' : Code.Before} {v w f : List Char} (hv : Passes b v (w ++ f) b')
    (hw : Passes b' w f b'') : Passes b (v ++ w) f b'' := by
  intro p g hg
  obtain ⟨hscan, hstops⟩ := hv p (w ++ g) (look_append w hg)
  obtain ⟨hscan', hstops'⟩ := hw (p.after v) g hg
  rw [List.append_assoc, Place.after_append]
  exact ⟨hscan.trans hscan', hstops'.trans hstops⟩

theorem Passes.congr {b b' : Code.Before} {w f g : List Char} (h : Passes b w f b')
    (hg : look g = look f) : Passes b w g b' :=
  fun p k hk => h p k (hk.trans hg)

theorem stops_cons {b : Code.Before} {p : Place} {c : Char} {cs : List Char} {r : Reading}
    (h : next b p c cs = .ok r) :
    stops b p (c :: cs) = (c :: cs) :: stops r.before r.place r.rest := by
  rw [stops]
  split
  next he => rw [h] at he; cases he
  next hk => rw [h] at hk; cases hk; rfl

theorem passes_of_next {b b' : Code.Before} {c : Char} {w f : List Char}
    (h : ∀ p g, look g = look f → next b p c (w ++ g) = .ok ⟨none, b', p.after (c :: w), g⟩) :
    Passes b (c :: w) f b' := by
  intro p g hg
  rw [List.cons_append]
  constructor
  · rw [scanFrom_cons, h p g hg]
    exact Reading.scan_none ..
  · rw [stops_cons (h p g hg)]
    exact List.suffix_cons ..

theorem stops_tag {t : TagText} (ht : t.Valid) (b : Code.Before) (p : Place) (f : List Char) :
    stops .operand (p.after t.text) f <:+ stops b p (t.text ++ f) := by
  have htext : t.text ++ f = 's' :: ('q' :: 'l' :: (t.heading ++ '\x60' :: t.body) ++ f) := rfl
  rw [htext, stops_cons (next_tag ht p f)]
  exact List.suffix_cons ..

theorem scanFrom_tag {t : TagText} (ht : t.Valid) (b : Code.Before) (p : Place) (f : List Char) :
    scanFrom b p (t.text ++ f) =
      (scanFrom .operand (p.after t.text) f).map (t.tag p :: ·) := by
  have htext : t.text ++ f = 's' :: ('q' :: 'l' :: (t.heading ++ '\x60' :: t.body) ++ f) := rfl
  rw [htext, scanFrom_cons, next_tag ht]
  exact Reading.scan_some ..

inductive Piece where
  | plain (text : List Char)
  | tag (t : TagText)

def Piece.text : Piece → List Char
  | plain w => w
  | tag t => t.text

def texts (ps : List Piece) : List Char := (ps.map Piece.text).flatten

@[simp] theorem texts_nil : texts [] = [] := rfl

@[simp] theorem texts_cons (q : Piece) (ps : List Piece) : texts (q :: ps) = q.text ++ texts ps := rfl

@[simp] theorem texts_append (ps qs : List Piece) : texts (ps ++ qs) = texts ps ++ texts qs := by
  simp [texts]

def tags (p : Place) : List Piece → List Tag
  | [] => []
  | .plain w :: ps => tags (p.after w) ps
  | .tag t :: ps => t.tag p :: tags (p.after t.text) ps

theorem tags_append (p : Place) (ps qs : List Piece) :
    tags p (ps ++ qs) = tags p ps ++ tags (p.after (texts ps)) qs := by
  induction ps generalizing p with
  | nil => rfl
  | cons q ps ih => cases q <;> simp [tags, ih, Piece.text]

inductive Reads (f : List Char) : Code.Before → List Piece → Code.Before → Prop where
  | nil (b : Code.Before) : Reads f b [] b
  | plain {b b' b'' : Code.Before} {w : List Char} {ps : List Piece} :
      Passes b w (texts ps ++ f) b' → Reads f b' ps b'' → Reads f b (.plain w :: ps) b''
  | tag {b b' : Code.Before} {t : TagText} {ps : List Piece} :
      t.Valid → Reads f .operand ps b' → Reads f b (.tag t :: ps) b'

theorem Reads.scanFrom_eq {f : List Char} {b b' : Code.Before} {ps : List Piece}
    (h : Reads f b ps b') (p : Place) :
    scanFrom b p (texts ps ++ f) = (scanFrom b' (p.after (texts ps)) f).map (tags p ps ++ ·) := by
  induction h generalizing p with
  | nil b =>
    simp only [texts_nil, List.nil_append, Place.after_nil, tags]
    cases scanFrom b p f <;> rfl
  | @plain b b' b'' w ps hw _ ih =>
    rw [texts_cons, Piece.text, List.append_assoc, (hw p _ rfl).1, ih, Place.after_append]
    rfl
  | @tag b b' t ps ht _ ih =>
    rw [texts_cons, Piece.text, List.append_assoc, scanFrom_tag ht, ih, Place.after_append]
    cases scanFrom b' ((p.after t.text).after (texts ps)) f <;> rfl

theorem Reads.stops {f : List Char} {b b' : Code.Before} {ps : List Piece}
    (h : Reads f b ps b') (p : Place) :
    stops b' (p.after (texts ps)) f <:+ stops b p (texts ps ++ f) := by
  induction h generalizing p with
  | nil b => exact List.suffix_rfl
  | @plain b b' b'' w ps hw _ ih =>
    rw [texts_cons, Piece.text, List.append_assoc, Place.after_append]
    exact (ih (p.after w)).trans (hw p _ rfl).2
  | @tag b b' t ps ht _ ih =>
    rw [texts_cons, Piece.text, List.append_assoc, Place.after_append]
    exact (ih (p.after t.text)).trans (stops_tag ht b p _)

theorem Reads.append {f : List Char} {b b' b'' : Code.Before} {ps qs : List Piece}
    (hp : Reads (texts qs ++ f) b ps b') (hq : Reads f b' qs b'') : Reads f b (ps ++ qs) b'' := by
  induction hp with
  | nil => exact hq
  | @plain b b' b'' w ps hw _ ih =>
    refine .plain ?_ (ih hq)
    change Passes b w (texts (ps ++ qs) ++ f) b'
    rwa [texts_append, List.append_assoc]
  | tag ht _ ih => exact .tag ht (ih hq)

theorem Reads.congr {f g : List Char} {b b' : Code.Before} {ps : List Piece}
    (h : Reads f b ps b') (hg : look g = look f) : Reads g b ps b' := by
  induction h with
  | nil b => exact .nil b
  | plain hw _ ih => exact .plain (hw.congr (look_append _ hg)) ih
  | tag ht _ ih => exact .tag ht ih

theorem exists_reads {b : Code.Before} {p : Place} {cs : List Char} {ts : List Tag}
    (h : scanFrom b p cs = .ok ts) (hw : ∀ s ∈ stops b p cs, opensWord s = false) :
    ∃ ps b', texts ps = cs ∧ Reads [] b ps b' ∧ tags p ps = ts := by
  fun_induction stops b p cs generalizing ts with
  | case1 b p =>
    rw [scanFrom] at h
    cases h
    exact ⟨[], b, rfl, .nil b, rfl⟩
  | case2 b p c cs e he =>
    obtain ⟨r, -, hr, -⟩ := scanFrom_eq_ok h
    rw [he] at hr
    cases hr
  | case3 b p c cs r hr ih =>
    obtain ⟨r', ts', hr', hs, rfl⟩ := scanFrom_eq_ok h
    rw [hr] at hr'
    cases hr'
    obtain ⟨ps, b', htexts, hreads, htags⟩ := ih hs fun s h => hw s (List.mem_cons_of_mem _ h)
    rcases next_cases hr with ⟨t, ht, hcs, hrt⟩ | ⟨w, hcs, htag, hp, hnext⟩
    · refine ⟨.tag t :: ps, b', by rw [hcs, ← htexts]; rfl, ?_, ?_⟩
      · refine .tag ht ?_
        rwa [hrt] at hreads
      · rw [hrt] at htags ⊢
        simp [tags, htags]
    · refine ⟨.plain (c :: w) :: ps, b', by rw [hcs, ← htexts]; rfl, ?_, ?_⟩
      · refine .plain (passes_of_next fun p' g hg => ?_) hreads
        refine hnext (hw _ List.mem_cons_self) p' g ?_
        rw [hg, List.append_nil, htexts]
      · rw [htag, ← htags, hp]
        rfl

theorem exists_valid_tags {b : Code.Before} {p : Place} {cs : List Char} {ts : List Tag}
    (h : scanFrom b p cs = .ok ts) :
    ∃ ps, texts ps = cs ∧ tags p ps = ts ∧ ∀ t, .tag t ∈ ps → t.Valid := by
  fun_induction stops b p cs generalizing ts with
  | case1 b p =>
    rw [scanFrom] at h
    cases h
    exact ⟨[], rfl, rfl, fun t ht => absurd ht List.not_mem_nil⟩
  | case2 b p c cs e he =>
    obtain ⟨r, -, hr, -⟩ := scanFrom_eq_ok h
    rw [he] at hr
    cases hr
  | case3 b p c cs r hr ih =>
    obtain ⟨r', ts', hr', hs, rfl⟩ := scanFrom_eq_ok h
    rw [hr] at hr'
    cases hr'
    obtain ⟨ps, htexts, htags, hvalid⟩ := ih hs
    rcases next_cases hr with ⟨t, ht, hcs, hrt⟩ | ⟨w, hcs, htag, hp, -⟩
    · refine ⟨.tag t :: ps, by rw [hcs, ← htexts]; rfl, ?_, ?_⟩
      · rw [hrt] at htags ⊢
        simp [tags, htags]
      · intro t' ht'
        rcases List.mem_cons.1 ht' with heq | ht'
        · cases heq
          exact ht
        · exact hvalid t' ht'
    · refine ⟨.plain (c :: w) :: ps, by rw [hcs, ← htexts]; rfl, ?_, ?_⟩
      · rw [htag, ← htags, hp]
        rfl
      · intro t ht
        exact hvalid t (by simpa using ht)

theorem exists_tags {b : Code.Before} {p : Place} {cs : List Char} {ts : List Tag}
    (h : scanFrom b p cs = .ok ts) : ∃ ps, texts ps = cs ∧ tags p ps = ts := by
  obtain ⟨ps, htexts, htags, -⟩ := exists_valid_tags h
  exact ⟨ps, htexts, htags⟩

theorem exists_of_mem_tags {p : Place} {ps : List Piece} {t : Tag} (h : t ∈ tags p ps) :
    ∃ x a b, .tag x ∈ ps ∧ texts ps = a ++ (x.text ++ b) ∧ t = x.tag (p.after a) := by
  induction ps generalizing p with
  | nil => simp [tags] at h
  | cons q ps ih =>
    cases q with
    | plain w =>
      obtain ⟨x, a, b, hx, htexts, rfl⟩ := ih h
      refine ⟨x, w ++ a, b, List.mem_cons_of_mem _ hx, ?_, by rw [Place.after_append]⟩
      rw [texts_cons, htexts, Piece.text, List.append_assoc]
    | tag y =>
      rcases List.mem_cons.1 h with rfl | h
      · exact ⟨y, [], texts ps, List.mem_cons_self, rfl, rfl⟩
      · obtain ⟨x, a, b, hx, htexts, rfl⟩ := ih h
        refine ⟨x, y.text ++ a, b, List.mem_cons_of_mem _ hx, ?_, by rw [Place.after_append]⟩
        rw [texts_cons, htexts, Piece.text, List.append_assoc]

end RowTypes.Tag
