import RowTypes.Proofs.ByteScan
import RowTypes.Proofs.Frame

/-! A source text can be taken apart at the positions of its tags. They lie between the characters
of the text, the word `sql` stands before the end of a tag, and blanks alone stand between its
parts. -/

namespace RowTypes

theorem Template.cook_getLast {line params : Nat} {p : Place} {cs : List Char} {t : Cooked}
    (h : cook line params p cs = .ok t) : ∃ inside, cs = inside ++ '\x60' :: t.rest := by
  fun_induction cook line params p cs generalizing t with
  | case1 | case3 | case5 => cases h
  | case2 => cases h; exact ⟨[], rfl⟩
  | case4 params p d cs _ kept =>
    rename_i ih
    obtain ⟨u, hu, rfl⟩ := map_prepend_eq_ok h
    obtain ⟨inside, hcs⟩ := ih hu
    exact ⟨'\\' :: d :: inside, by rw [hcs]; rfl⟩
  | case6 params p c cs _ _ hopen k hk ih =>
    obtain ⟨u, hu, rfl⟩ := map_prepend_eq_ok h
    obtain ⟨inside, hrest⟩ := ih hu
    obtain ⟨body, hbody, -⟩ := Code.skim_closed hk
    obtain ⟨cs, rfl⟩ := List.head?_eq_some_iff.1 hopen.2
    rw [List.tail_cons] at hbody
    exact ⟨c :: '\x7b' :: (body ++ inside), by rw [hbody, hrest]; simp [Cooked.prepend]⟩
  | case7 params p c cs _ _ _ ih =>
    obtain ⟨u, hu, rfl⟩ := map_prepend_eq_ok h
    obtain ⟨inside, hcs⟩ := ih hu
    exact ⟨c :: inside, by rw [hcs]; rfl⟩

theorem Template.Cooks.getLast {params count : Nat} {body text : List Char}
    (h : Cooks params body text count) : ∃ inside, body = inside ++ ['\x60'] := by
  have hbody := h 0 .start []
  rw [List.append_nil] at hbody
  exact cook_getLast hbody

namespace Bytes

/-- The characters `cs` stand from one position to the other, neither of which cuts a character. -/
def Holds (text : List UInt8) (start stop : Nat) (cs : List Char) : Prop :=
  stop = start + Text.size cs ∧ slice text start stop = .ok (Text.encode cs)

theorem At.holds {text : List UInt8} {p : Place} {w cs : List Char} (h : At text p (w ++ cs)) :
    Holds text p.offset (p.after w).offset w :=
  ⟨Place.after_offset .., h.slice⟩

def HoldsBlanks (text : List UInt8) (start stop : Nat) : Prop :=
  ∃ gap, (∀ c ∈ gap, Code.isBlank c = true) ∧ Holds text start stop gap

structure Safe (text : List UInt8) (t : Tag) : Prop where
  word : Holds text (t.tagEnd - 3) t.tagEnd Tag.word
  untyped : t.typeArguments = none → HoldsBlanks text t.tagEnd t.template.start
  typed : ∀ args ∈ t.typeArguments,
    HoldsBlanks text t.tagEnd args.start ∧
      (∃ inside, Holds text args.start args.stop ('<' :: inside ++ ['>'])) ∧
      HoldsBlanks text args.stop t.template.start
  template : ∃ inside, Holds text t.template.start t.template.stop ('\x60' :: inside ++ ['\x60'])

theorem At.safe {text : List UInt8} {p : Place} {x : Tag.TagText} {cs : List Char}
    (h : At text p (x.text ++ cs)) (hx : x.Valid) : Safe text (x.tag p) := by
  have hword : At text p (Tag.word ++ (x.heading ++ ('\x60' :: x.body ++ cs))) := by
    simpa [Tag.TagText.text] using h
  have hheading := hword.after
  have htemplate := hheading.after
  have hstop : p.after x.text = ((p.after Tag.word).after x.heading).after ('\x60' :: x.body) := by
    simp only [Tag.TagText.text, Place.after_append]
  obtain ⟨⟨hgap, hargs⟩, hcooked⟩ := hx
  constructor
  · have hend : (x.tag p).tagEnd - 3 = p.offset := by rw [Tag.tag_tagEnd, Nat.add_sub_cancel]
    rw [hend]
    exact hword.holds
  · intro hnone
    obtain ⟨⟨gap, args⟩, body, sql, params⟩ := x
    cases args with
    | none => exact ⟨gap, hgap, hheading.holds⟩
    | some args => cases hnone
  · rintro _ hsome
    obtain ⟨⟨gap, args⟩, body, sql, params⟩ := x
    cases args with
    | none => cases hsome
    | some args =>
      obtain ⟨typed, behind⟩ := args
      cases hsome
      obtain ⟨hclosed, hbehind⟩ := hargs _ rfl
      obtain ⟨inside, rfl⟩ := Tag.Accepted.brackets hclosed
      have hlead : At text (p.after Tag.word)
          (gap ++ ('<' :: (inside ++ ['>']) ++ (behind ++ ('\x60' :: body ++ cs)))) := by
        simpa [Tag.TagText.heading, Tag.HeadingText.text] using hheading
      refine ⟨⟨gap, hgap, hlead.holds⟩, ⟨inside, hlead.after.holds⟩, behind, hbehind, ?_⟩
      simpa [Tag.TagText.tag, Tag.TagText.heading, Tag.HeadingText.text] using
        hlead.after.after.holds
  · obtain ⟨inside, hbody⟩ := hcooked.getLast
    refine ⟨inside, ?_⟩
    have hholds := htemplate.holds
    rw [← hstop, hbody] at hholds
    exact hholds

/-- The reader of bytes never leaves the text, cuts a character, counts below zero or stands
still: it finds the tags that are found in the characters. The text can be taken apart at all of
their positions, and each tag ends before the next one begins. -/
theorem scan_safe (source : String) :
    scan source.toUTF8.data.toList = lift id (Tag.scan source) ∧
    ∀ ts, Tag.scan source = .ok ts → (∀ t ∈ ts, Safe source.toUTF8.data.toList t) ∧
      ts.Pairwise fun t u => t.template.stop + 3 ≤ u.tagEnd := by
  refine ⟨scan_eq source, fun ts hscan => ?_⟩
  obtain ⟨ps, htexts, rfl, hvalid⟩ := Tag.exists_valid_tags hscan
  refine ⟨fun t ht => ?_, Tag.tags_follow .start ps⟩
  obtain ⟨x, a, b, hx, hsplit, rfl⟩ := Tag.exists_of_mem_tags ht
  have hstart := at_start source.toList
  rw [Text.encode_toList, ← htexts, hsplit] at hstart
  exact hstart.after.safe (hvalid x hx)

def escapedText : String := "sql <A>\x60\\é\x60"

theorem scan_safe_escaped :
    ∃ t, Tag.scan escapedText = .ok [t] ∧ t.typeArguments = some ⟨4, 7⟩ ∧ t.template = ⟨7, 12⟩ ∧
      Safe escapedText.toUTF8.data.toList t := by
  have hscan : (Tag.scan escapedText).toOption =
      some [⟨3, some ⟨4, 7⟩, ⟨7, 12⟩, 1, "\\é", 0⟩] := by
    decide +kernel
  cases h : Tag.scan escapedText with
  | error u =>
    rw [h] at hscan
    cases hscan
  | ok ts =>
    rw [h] at hscan
    cases hscan
    exact ⟨_, rfl, rfl, rfl, ((scan_safe escapedText).2 _ h).1 _ (List.mem_singleton_self _)⟩

end Bytes
end RowTypes
