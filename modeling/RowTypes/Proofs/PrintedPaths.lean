import RowTypes.Git
import RowTypes.Proofs.Bytes
import RowTypes.Proofs.Merging

/-! The paths of an output of git, one on each line, and what is read of them. Git quotes a path
with a byte outside of ASCII in it, a control character, a quote or a backslash. The quotes are not
taken off again, and blanks at the ends of a line are lost. -/

namespace RowTypes.Git
open Text

def isEscaped (b : UInt8) : Bool := b < 0x20 || 0x7f ≤ b || b = 0x22 || b = 0x5c

def escapes : List (UInt8 × Char) :=
  [(0x07, 'a'), (0x08, 'b'), (0x09, 't'), (0x0a, 'n'), (0x0b, 'v'), (0x0c, 'f'), (0x0d, 'r'),
    (0x22, '"'), (0x5c, '\\')]

/-- A byte in a quoted path. Where no letter stands for it there are three octal digits. -/
def escape (b : UInt8) : List Char :=
  if isEscaped b then
    match escapes.lookup b with
    | some c => ['\\', c]
    | none => '\\' :: [b.toNat / 64, b.toNat / 8 % 8, b.toNat % 8].map Nat.digitChar
  else [Char.ofUInt8 b]

def printed (path : List Char) : List Char :=
  if (encode path).any isEscaped then '"' :: ((encode path).flatMap escape ++ ['"']) else path

def listing (paths : List String) : String :=
  String.ofList (paths.flatMap fun path => printed path.toList ++ ['\n'])

def readBack (path : String) : String := String.ofList (trim (printed path.toList))

def isOwn (c : Char) : Bool := ' ' ≤ c && c ≤ '~' && c ≠ '"' && c ≠ '\\'

/-- A path that is printed as it is, without blanks at its ends. -/
def Plain (path : String) : Prop := path.toList.all isOwn = true ∧ Trimmed path.toList

instance (cs : List Char) : Decidable (Trimmed cs) := inferInstanceAs (Decidable (_ ∧ _))

instance (path : String) : Decidable (Plain path) := inferInstanceAs (Decidable (_ ∧ _))

variable {c : Char} {path : List Char} {paths : List String}

/-! What is printed -/

theorem forall_byte {p : UInt8 → Prop} (h : ∀ n < 256, p (UInt8.ofNat n)) (b : UInt8) : p b := by
  have := h b.toNat b.toNat_lt
  rwa [UInt8.ofNat_toNat] at this

theorem isEscaped_eq (b : UInt8) : isEscaped b = !isOwn (Char.ofUInt8 b) := by
  have hall : ∀ n < 256, isEscaped (UInt8.ofNat n) = !isOwn (Char.ofUInt8 (UInt8.ofNat n)) := by
    decide +kernel
  exact forall_byte (p := fun b => isEscaped b = !isOwn (Char.ofUInt8 b)) hall b

theorem mem_escape {b : UInt8} (h : c ∈ escape b) : ' ' ≤ c ∧ c ≤ '~' := by
  have hall : ∀ n < 256, (escape (UInt8.ofNat n)).all (fun c => ' ' ≤ c && c ≤ '~') = true := by
    decide +kernel
  have hb := forall_byte (p := fun b => (escape b).all (fun c => ' ' ≤ c && c ≤ '~') = true) hall b
  simpa using List.all_eq_true.1 hb c h

theorem any_isEscaped_char (c : Char) : (String.utf8EncodeChar c).any isEscaped = !isOwn c := by
  by_cases hc : c.val < 0x80
  · obtain ⟨b, hb, rfl⟩ := utf8EncodeChar_ascii hc
    rw [hb, List.any_cons, List.any_nil, Bool.or_false, isEscaped_eq]
  · have hwide {d : Char} (hd : 0x80 ≤ d.val) : isOwn d = false := by
      have hlt : ¬d ≤ '~' := fun hle => absurd (UInt32.le_trans hd hle) (by decide)
      simp [isOwn, hlt]
    have hle := UInt32.not_lt.1 hc
    obtain ⟨b, bs, hbs⟩ := List.exists_cons_of_ne_nil (String.utf8EncodeChar_ne_nil (c := c))
    have hb : b ∈ String.utf8EncodeChar c := by rw [hbs]; exact List.mem_cons_self
    rw [hwide hle, hbs, List.any_cons, isEscaped_eq, hwide (le_of_mem_utf8EncodeChar hle hb)]
    rfl

theorem any_isEscaped_eq_false_iff :
    (encode path).any isEscaped = false ↔ ∀ c ∈ path, isOwn c = true := by
  simp [encode_eq, List.any_flatMap, any_isEscaped_char]

theorem printed_of_own (h : ∀ c ∈ path, isOwn c = true) : printed path = path := by
  rw [printed, any_isEscaped_eq_false_iff.2 h]
  rfl

theorem printed_of_not_own (h : ¬∀ c ∈ path, isOwn c = true) :
    printed path = '"' :: ((encode path).flatMap escape ++ ['"']) := by
  rw [printed, if_pos]
  rwa [← any_isEscaped_eq_false_iff, Bool.not_eq_false] at h

example : printed "é\t.ts".toList = "\"\\303\\251\\t.ts\"".toList := by decide +kernel

theorem mem_printed (h : c ∈ printed path) : ' ' ≤ c ∧ c ≤ '~' := by
  by_cases hown : ∀ c ∈ path, isOwn c = true
  · rw [printed_of_own hown] at h
    have := hown c h
    simp only [isOwn, Bool.and_eq_true, decide_eq_true_eq] at this
    exact this.1.1
  · rw [printed_of_not_own hown, List.mem_cons, List.mem_append, List.mem_flatMap,
      List.mem_singleton] at h
    rcases h with rfl | ⟨b, -, hb⟩ | rfl
    · decide
    · exact mem_escape hb
    · decide

theorem newline_not_mem_printed : '\n' ∉ printed path := fun h =>
  absurd (mem_printed h).1 (by decide)

theorem count_printed_of_not_own (h : ¬∀ c ∈ path, isOwn c = true) :
    path.count '"' + 2 ≤ (printed path).count '"' := by
  have hchar (c : Char) : [c].count '"' ≤ ((String.utf8EncodeChar c).flatMap escape).count '"' := by
    by_cases hc : c = '"'
    · subst hc
      decide +kernel
    · simp [hc]
  have hall (cs : List Char) : cs.count '"' ≤ ((encode cs).flatMap escape).count '"' := by
    induction cs with
    | nil => exact Nat.zero_le _
    | cons c cs ih =>
      rw [encode_cons, List.flatMap_append, List.count_append, ← List.singleton_append,
        List.count_append]
      exact Nat.add_le_add (hchar c) ih
  have := hall path
  rw [printed_of_not_own h, List.count_cons_self, List.count_append, List.count_singleton_self]
  omega

/-! What is read -/

theorem Plain.readBack {path : String} (h : Plain path) : readBack path = path := by
  rw [Git.readBack, printed_of_own (List.all_eq_true.1 h.1), h.2.trim, String.ofList_toList]

theorem toList_readBack_of_own {path : String} (h : ∀ c ∈ path.toList, isOwn c = true) :
    (readBack path).toList = trim path.toList := by
  rw [readBack, printed_of_own h, String.toList_ofList]

theorem toList_readBack_of_not_own {path : String} (h : ¬∀ c ∈ path.toList, isOwn c = true) :
    (readBack path).toList = printed path.toList := by
  have htrimmed : Trimmed (printed path.toList) := by
    rw [printed_of_not_own h]
    refine ⟨rfl, ?_⟩
    rw [← List.cons_append, List.getLast?_concat]
    rfl
  rw [readBack, htrimmed.trim, String.toList_ofList]

theorem eq_space_of_isBlank (hown : isOwn c = true) (hblank : isBlank c = true) : c = ' ' := by
  simp only [isOwn, isBlank, Bool.and_eq_true, Bool.or_eq_true, decide_eq_true_eq] at hown hblank
  have hle : 0x20 ≤ c.toNat := hown.1.1.1
  have hge : c.toNat ≤ 0x7e := hown.1.1.2
  exact Char.toNat_inj.1 (show c.toNat = 0x20 by omega)

theorem count_trim_lt (hown : ∀ c ∈ path, isOwn c = true) (h : ¬Trimmed path) :
    (trim path).count ' ' < path.count ' ' := by
  obtain ⟨a, ha, hstart⟩ := exists_trimStart path
  obtain ⟨b, hb, hend⟩ := exists_trimEnd (trimStart path)
  have hpath : path = a ++ (trim path ++ b) := by rw [trim, ← hend, ← hstart]
  have hspaces {w : List Char} (hw : ∀ c ∈ w, isBlank c = true) (hsub : w ⊆ path) :
      w.count ' ' = w.length :=
    List.count_eq_length.2 fun c hc => (eq_space_of_isBlank (hown c (hsub hc)) (hw c hc)).symm
  have hcount : path.count ' ' = a.length + ((trim path).count ' ' + b.length) := by
    conv_lhs => rw [hpath]
    rw [List.count_append, List.count_append, hspaces ha, hspaces hb]
    · rw [hpath]
      exact fun c hc => by simp [hc]
    · rw [hpath]
      exact fun c hc => by simp [hc]
  by_contra hle
  have hlength : a.length = 0 ∧ b.length = 0 := by omega
  rw [List.length_eq_zero_iff.1 hlength.1, List.length_eq_zero_iff.1 hlength.2, List.append_nil,
    List.nil_append] at hpath
  exact h (hpath ▸ trimmed_trim path)

theorem lines_listing : lines (listing paths) = (paths.map readBack).filter (· ≠ "") := by
  have hsplit : (listing paths).toList.splitOn '\n' =
      (paths.map fun path => printed path.toList) ++ [[]] := by
    rw [listing, String.toList_ofList]
    induction paths with
    | nil => rfl
    | cons path paths ih =>
      rw [List.flatMap_cons, List.append_assoc, List.singleton_append,
        List.splitOn_append_cons_self_of_not_mem newline_not_mem_printed, ih]
      rfl
  rw [lines, hsplit, List.map_append, List.map_map, List.filter_append]
  exact List.append_nil _

end RowTypes.Git
