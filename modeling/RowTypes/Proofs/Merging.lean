import RowTypes.Proofs.Headers
import RowTypes.Source.Reference

/-! Merged type arguments. Only the reference in front tells them apart from those before, so
merging again replaces the reference and nothing else, and the reference can be read back. -/

namespace RowTypes.Text

theorem exists_trimEnd (cs : List Char) :
    ∃ b, (∀ c ∈ b, isBlank c = true) ∧ cs = trimEnd cs ++ b := by
  refine ⟨(cs.reverse.takeWhile isBlank).reverse, fun c hc => ?_, ?_⟩
  · exact of_mem_takeWhile _ (List.mem_reverse.1 hc)
  · rw [trimEnd, ← List.reverse_append, List.takeWhile_append_dropWhile, List.reverse_reverse]

theorem exists_trimStart (cs : List Char) :
    ∃ b, (∀ c ∈ b, isBlank c = true) ∧ cs = b ++ trimStart cs :=
  ⟨cs.takeWhile isBlank, of_mem_takeWhile, List.takeWhile_append_dropWhile.symm⟩

theorem trim_infix (cs : List Char) : trim cs <:+: cs := by
  obtain ⟨a, -, ha⟩ := exists_trimStart cs
  obtain ⟨b, -, hb⟩ := exists_trimEnd (trimStart cs)
  refine ⟨a, b, ?_⟩
  rw [trim, List.append_assoc, ← hb, ← ha]

def Trimmed (cs : List Char) : Prop :=
  cs.head?.all (!isBlank ·) = true ∧ cs.getLast?.all (!isBlank ·) = true

theorem trimStart_of_head {w : List Char} (h : w.head?.all (!isBlank ·) = true) :
    trimStart w = w := by
  cases w with
  | nil => rfl
  | cons c w =>
    have hc : isBlank c = false := by simpa using h
    simp [trimStart, hc]

theorem trimEnd_of_getLast {cs : List Char} (h : cs.getLast?.all (!isBlank ·) = true) :
    trimEnd cs = cs := by
  have := trimStart_of_head (w := cs.reverse) (by rwa [List.head?_reverse])
  rw [trimEnd, ← trimStart, this, List.reverse_reverse]

theorem Trimmed.trim {cs : List Char} (h : Trimmed cs) : trim cs = cs := by
  rw [Text.trim, trimStart_of_head h.1, trimEnd_of_getLast h.2]

theorem getLast?_trimEnd (cs : List Char) : (trimEnd cs).getLast?.all (!isBlank ·) = true := by
  rw [trimEnd, List.getLast?_reverse]
  exact head?_dropWhile_all _

theorem trimmed_trim (cs : List Char) : Trimmed (trim cs) := by
  refine ⟨?_, getLast?_trimEnd _⟩
  obtain ⟨b, -, hb⟩ := exists_trimEnd (trimStart cs)
  have hhead : (trimStart cs).head?.all (!isBlank ·) = true := head?_dropWhile_all cs
  rw [trim]
  cases ht : trimEnd (trimStart cs) with
  | nil => rfl
  | cons c ds =>
    rw [hb, ht] at hhead
    exact hhead

theorem trimmed_of_all {cs : List Char} (h : ∀ c ∈ cs, isBlank c = false) : Trimmed cs := by
  constructor
  · cases hc : cs.head? with
    | none => rfl
    | some c => simp [h c (List.mem_of_head? hc)]
  · cases hc : cs.getLast? with
    | none => rfl
    | some c => simp [h c (List.mem_of_getLast? hc)]

theorem trimEnd_concat (cs : List Char) {c : Char} (hc : isBlank c = true) :
    trimEnd (cs ++ [c]) = trimEnd cs := by
  simp [trimEnd, hc]

theorem trim_append_right {a cs : List Char} (ha : ∀ c ∈ a, isBlank c = true) :
    trim (a ++ cs) = trim cs := by
  rw [trim, trim, trimStart, List.dropWhile_append_of_pos ha, ← trimStart]

end RowTypes.Text

namespace RowTypes.Reference

def isInert (c : Char) : Bool :=
  !(c = '\'' || c = '"' || c = '\x60' || opens c || closes c || c = '=' || c = '&' || c = '|')

/-- The quote and the depth behind a character, unless the text is cut there. -/
def turn (separator : Char) (quote : Option Char) (depth : Int) (before : Option Char) (c : Char) :
    Option (Option Char × Int) :=
  match quote with
  | some q => if c = q ∧ before ≠ some '\\' then some (none, depth) else some (some q, depth)
  | none =>
    if c = '\'' ∨ c = '"' ∨ c = '\x60' then some (some c, depth)
    else if opens c then some (none, depth + 1)
    else if c = '>' ∧ before = some '=' then some (none, depth)
    else if closes c then some (none, depth - 1)
    else if c = separator ∧ depth = 0 then none
    else some (none, depth)

theorem cut_cons (separator : Char) (q : Option Char) (depth : Int) (b : Option Char) (c : Char)
    (cs : List Char) :
    cut separator q depth b (c :: cs) =
      match turn separator q depth b c with
      | none => some ([], cs)
      | some s => (cut separator s.1 s.2 (some c) cs).map (.map (c :: ·) id) := by
  rw [cut.eq_def]
  unfold turn
  cases q <;> simp only <;> split_ifs <;> rfl

theorem turn_eq_none {separator : Char} {q : Option Char} {depth : Int} {b : Option Char} {c : Char}
    (h : turn separator q depth b c = none) : q = none ∧ depth = 0 ∧ c = separator := by
  unfold turn at h
  split at h
  · split_ifs at h
  · split_ifs at h with _ _ _ _ hs
    exact ⟨rfl, hs.2, hs.1⟩

theorem turn_separator {separator other : Char} {q : Option Char} {depth : Int} {b : Option Char}
    {c : Char} {s : Option Char × Int} (h : turn separator q depth b c = some s)
    (hn : turn other q depth b c ≠ none) : turn other q depth b c = some s := by
  unfold turn at h hn ⊢
  split at h
  · exact h
  · split_ifs at h hn ⊢ <;> first | exact h | exact absurd rfl hn

theorem cut_before {separator : Char} {depth : Int} {b e : Option Char} {cs : List Char}
    (hb : b ≠ some '=') (he : e ≠ some '=') :
    cut separator none depth b cs = cut separator none depth e cs := by
  cases cs with
  | nil => rfl
  | cons c cs =>
    have h (p : Prop) [Decidable p] : ¬(p ∧ b = some '=') ∧ ¬(p ∧ e = some '=') :=
      ⟨fun h => hb h.2, fun h => he h.2⟩
    simp only [cut, (h _).1, (h _).2, if_false]

theorem turn_inert {separator c : Char} (hs : separator = '&' ∨ separator = '|')
    (hc : isInert c = true) (depth : Int) (b : Option Char) :
    turn separator none depth b c = some (none, depth) := by
  simp only [isInert, Bool.not_eq_true', Bool.or_eq_false_iff, decide_eq_false_iff_not] at hc
  obtain ⟨⟨⟨⟨⟨⟨⟨hq, hd⟩, ht⟩, ho⟩, hcl⟩, he⟩, ha⟩, hp⟩ := hc
  have hsep : c ≠ separator := by
    rintro rfl
    exact hs.elim ha hp
  have hgt : c ≠ '>' := by
    rintro rfl
    simp [closes] at hcl
  simp [turn, hq, hd, ht, ho, hcl, hsep, hgt]

theorem cut_inert {separator : Char} {depth : Int} {b : Option Char} {w : List Char}
    (hs : separator = '&' ∨ separator = '|') (hw : ∀ c ∈ w, isInert c = true)
    (hb : b ≠ some '=') (cs : List Char) :
    cut separator none depth b (w ++ cs) =
      (cut separator none depth none cs).map (.map (w ++ ·) id) := by
  induction w generalizing b with
  | nil =>
    rw [List.nil_append, cut_before hb (e := none) (by simp)]
    cases cut separator none depth none cs <;> rfl
  | cons c w ih =>
    have hc := hw c List.mem_cons_self
    have he : some c ≠ some '=' := by
      rintro ⟨rfl⟩
      simp [isInert] at hc
    rw [List.cons_append, cut_cons, turn_inert hs hc]
    simp only
    rw [ih (fun d hd => hw d (List.mem_cons_of_mem _ hd)) he, Option.map_map]
    rfl

theorem cut_text {separator : Char} {q : Option Char} {depth : Int} {b : Option Char}
    {cs x y : List Char} (h : cut separator q depth b cs = some (x, y)) :
    cs = x ++ separator :: y := by
  induction cs generalizing q depth b x with
  | nil => cases h
  | cons c cs ih =>
    rw [cut_cons] at h
    split at h
    · rename_i ht
      cases h
      rw [(turn_eq_none ht).2.2]
      rfl
    · obtain ⟨x, hx, rfl⟩ := map_fst_eq_some.1 h
      rw [ih hx]
      rfl

theorem cut_append {separator : Char} {q : Option Char} {depth : Int} {b : Option Char}
    {cs x y : List Char} (h : cut separator q depth b cs = some (x, y)) (f : List Char) :
    cut separator q depth b (cs ++ f) = some (x, y ++ f) := by
  induction cs generalizing q depth b x with
  | nil => cases h
  | cons c cs ih =>
    rw [List.cons_append]
    rw [cut_cons] at h ⊢
    split at h
    · cases h
      rfl
    · obtain ⟨x, hx, rfl⟩ := map_fst_eq_some.1 h
      exact map_fst_eq_some.2 ⟨x, ih hx, rfl⟩

theorem cut_behind {q : Option Char} {depth : Int} {b : Option Char} {cs x y : List Char}
    (h : cut '&' q depth b cs = some (x, y)) (hn : cut '|' q depth b cs = none) :
    cut '|' none 0 none y = none := by
  induction cs generalizing q depth b x with
  | nil => cases h
  | cons c cs ih =>
    rw [cut_cons] at h hn
    split at hn
    · cases hn
    · rename_i s hs
      rw [Option.map_eq_none_iff] at hn
      split at h
      · rename_i ht
        cases h
        obtain ⟨rfl, rfl, rfl⟩ := turn_eq_none ht
        have hbar : turn '|' none 0 b '&' = some (none, 0) := by simp [turn, opens, closes]
        rw [hbar] at hs
        cases hs
        rwa [cut_before (e := none) (by simp) (by simp)] at hn
      · rename_i s' hs'
        obtain ⟨x, hx, rfl⟩ := map_fst_eq_some.1 h
        rw [turn_separator hs' (by rw [hs]; simp), Option.some.injEq] at hs
        subst hs
        exact ih hx hn

theorem cut_eq_none_of_append {separator : Char} {q : Option Char} {depth : Int} {b : Option Char}
    {cs f : List Char} (h : cut separator q depth b (cs ++ f) = none) :
    cut separator q depth b cs = none := by
  cases hc : cut separator q depth b cs with
  | none => rfl
  | some xy =>
    rw [cut_append hc] at h
    cases h

def kept (existing : Option String) : List Char :=
  match existing with
  | none => []
  | some text =>
    match cutTop '|' text.toList, cutTop '&' text.toList with
    | none, some (_, rest) => Text.trim rest
    | _, _ => []

def withMembers (name : String) (members : List Char) : String :=
  if members = [] then ofName name else ofName name ++ " & " ++ String.ofList members

theorem merge_eq (existing : Option String) (name : String) :
    merge existing name = withMembers name (kept existing) := by
  unfold merge withMembers kept
  cases existing with
  | none => rfl
  | some text =>
    simp only
    rcases cutTop '|' text.toList with _ | _ <;> rcases cutTop '&' text.toList with _ | ⟨_, _⟩ <;>
      rfl

theorem isInert_of_excludes {p : Char → Bool}
    (hp : ("'\"\x60<(\x7b[>)\x7d]=&|".toList.any p) = false) {c : Char} (h : p c = true) :
    isInert c = true := by
  by_contra hc
  have hmem : c ∈ "'\"\x60<(\x7b[>)\x7d]=&|".toList := by
    simp only [isInert, opens, closes, Bool.not_eq_true, Bool.not_eq_false', Bool.or_eq_true,
      decide_eq_true_eq, or_assoc] at hc
    simpa using hc
  exact absurd h (List.any_eq_false.mp hp c hmem)

theorem isInert_identifierPart {c : Char} (h : isIdentifierPart c = true) : isInert c = true :=
  isInert_of_excludes (by decide) h

theorem ofName_inert {name : String} (h : isIdentifier name = true) :
    ∀ c ∈ (ofName name).toList, isInert c = true := by
  have hspace : ∀ c ∈ (space ++ ".").toList, isInert c = true := List.all_eq_true.1 (by decide)
  rw [ofName, String.toList_append, List.forall_mem_append]
  exact ⟨hspace, fun c hc => isInert_identifierPart (Block.identifier_parts h c hc)⟩

theorem kept_trimmed (existing : Option String) : Text.Trimmed (kept existing) := by
  unfold kept
  split
  · exact ⟨rfl, rfl⟩
  · split
    · exact Text.trimmed_trim _
    · exact ⟨rfl, rfl⟩

theorem isInert_blank {c : Char} (h : Text.isBlank c = true) : isInert c = true :=
  isInert_of_excludes (by decide) h

theorem cut_kept (existing : Option String) : cut '|' none 0 none (kept existing) = none := by
  unfold kept
  split
  · rfl
  · split
    · rename_i rest hbar hand
      have hrest := cut_behind hand hbar
      obtain ⟨a, ha, hstart⟩ := Text.exists_trimStart rest
      obtain ⟨b, -, hb⟩ := Text.exists_trimEnd (Text.trimStart rest)
      rw [hstart, cut_inert (.inr rfl) (fun c hc => isInert_blank (ha c hc)) (by simp),
        Option.map_eq_none_iff, hb] at hrest
      exact cut_eq_none_of_append hrest
    · rfl

theorem withMembers_toList (name : String) {members : List Char} (h : members ≠ []) :
    (withMembers name members).toList =
      ((ofName name).toList ++ [' ']) ++ '&' :: ([' '] ++ members) := by
  rw [withMembers, if_neg h]
  simp

theorem cutTop_ofName {separator : Char} (hs : separator = '&' ∨ separator = '|') {name : String}
    (hn : isIdentifier name = true) : cutTop separator (ofName name).toList = none := by
  rw [cutTop, ← List.append_nil (ofName name).toList, cut_inert hs (ofName_inert hn) (by simp)]
  rfl

theorem cutTop_withMembers {name : String} (hn : isIdentifier name = true) {members : List Char}
    (h : members ≠ []) : cutTop '&' (withMembers name members).toList =
      some ((ofName name).toList ++ [' '], [' '] ++ members) := by
  have hfirst : ∀ c ∈ (ofName name).toList ++ [' '], isInert c = true :=
    List.forall_mem_append.2 ⟨ofName_inert hn, List.all_eq_true.1 (by decide)⟩
  rw [cutTop, withMembers_toList name h, cut_inert (.inl rfl) hfirst (by simp)]
  exact map_fst_eq_some.2 ⟨[], rfl, by simp⟩

theorem kept_withMembers {name : String} (hn : isIdentifier name = true) {members : List Char}
    (ht : Text.Trimmed members) (hbar : cut '|' none 0 none members = none) :
    kept (some (withMembers name members)) = members := by
  by_cases hm : members = []
  · subst hm
    have hname : withMembers name [] = ofName name := if_pos rfl
    simp only [kept, hname, cutTop_ofName (.inl rfl) hn, cutTop_ofName (.inr rfl) hn]
  · have hfirst : ∀ c ∈ (ofName name).toList ++ [' '], isInert c = true :=
      List.forall_mem_append.2 ⟨ofName_inert hn, List.all_eq_true.1 (by decide)⟩
    have hnone : cutTop '|' (withMembers name members).toList = none := by
      have hand : turn '|' none 0 none '&' = some (none, 0) := by simp [turn, opens, closes]
      rw [cutTop, withMembers_toList name hm, cut_inert (.inr rfl) hfirst (by simp), cut_cons, hand]
      simp only
      rw [cut_inert (.inr rfl) (List.all_eq_true.1 (by decide)) (by simp), hbar]
      rfl
    simp only [kept, hnone, cutTop_withMembers hn hm]
    rw [Text.trim_append_right (List.all_eq_true.1 (by decide)), ht.trim]

theorem merge_merge (existing : Option String) {name : String} (hn : isIdentifier name = true)
    (later : String) : merge (some (merge existing name)) later = merge existing later := by
  rw [merge_eq, merge_eq, merge_eq, kept_withMembers hn (kept_trimmed existing) (cut_kept existing)]

theorem ofName_notBlank {name : String} (hn : isIdentifier name = true) :
    ∀ c ∈ (ofName name).toList, Text.isBlank c = false := by
  have hall : (space ++ ".").toList.all (!Text.isBlank ·) = true := by decide
  have hspace : ∀ c ∈ (space ++ ".").toList, Text.isBlank c = false := fun c hc =>
    by simpa using List.all_eq_true.1 hall c hc
  rw [ofName, String.toList_append, List.forall_mem_append]
  exact ⟨hspace, fun c hc => Block.isBlank_identifierPart (Block.identifier_parts hn c hc)⟩

theorem ofName_cons (name : String) : ∃ v, (ofName name).toList = 'q' :: v := by
  rw [ofName, String.toList_append]
  exact ⟨"ueries.".toList ++ name.toList, rfl⟩

theorem merge_trimmed (existing : Option String) {name : String} (hn : isIdentifier name = true) :
    Text.Trimmed (merge existing name).toList := by
  have hname := Text.trimmed_of_all (ofName_notBlank hn)
  rw [merge_eq]
  by_cases hm : kept existing = []
  · rwa [withMembers, if_pos hm]
  · rw [withMembers_toList name hm]
    obtain ⟨v, hv⟩ := ofName_cons name
    refine ⟨by rw [hv]; rfl, ?_⟩
    obtain ⟨c, hc⟩ := Option.ne_none_iff_exists'.1 (mt List.getLast?_eq_none_iff.1 hm)
    have := (kept_trimmed existing).2
    rw [hc] at this
    simpa [List.getLast?_append, List.getLast?_cons, hc] using this

theorem isIdentifier_of_name? {text name : String} (h : name? text = some name) :
    isIdentifier name = true := by
  rw [name?] at h
  obtain ⟨cs, -, hname⟩ := Option.bind_eq_some_iff.1 h
  simp only at hname
  split at hname
  · rename_i hidentifier
    cases hname
    exact hidentifier
  · cases hname

theorem name?_merge (existing : Option String) {name : String} (hn : isIdentifier name = true) :
    name? (merge existing name) = some name := by
  have hname := Text.trimmed_of_all (ofName_notBlank hn)
  have hread : afterPrefix? (space ++ ".").toList (ofName name).toList = some name.toList := by
    rw [ofName, String.toList_append, afterPrefix?, if_pos (by simp)]
    simp
  obtain ⟨v, hv⟩ := ofName_cons name
  have hgap : Text.trim ((ofName name).toList ++ [' ']) = (ofName name).toList := by
    rw [Text.trim, Text.trimStart_of_head (by rw [hv]; rfl), Text.trimEnd_concat _ (by decide),
      Text.trimEnd_of_getLast hname.2]
  rw [merge_eq, name?]
  by_cases hm : kept existing = []
  · rw [withMembers, if_pos hm]
    simp only [cutTop_ofName (.inl rfl) hn, hname.trim, hread]
    simp [hn]
  · simp only [cutTop_withMembers hn hm, hgap, hread]
    simp [hn]

end RowTypes.Reference
