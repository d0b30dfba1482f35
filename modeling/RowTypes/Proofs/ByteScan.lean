import RowTypes.Proofs.ByteTemplates

/-! The reader of bytes finds the tags that are found in the characters. It goes through type
arguments and from one step of the scan to the next as they are gone through there. -/

namespace RowTypes.Bytes
open Code (Before Enclosure)

section Agreement

variable {text : List UInt8} {p : Place} {c : Char} {cs : List Char} {pos : Nat}

/-! Type arguments -/

theorem quotedEnd_wide {quote : Char} (hquote : quote.val < 0x80) (pos : Nat) (d : Char)
    (hd : letter? text pos = some d) (hwide : 0x80 ≤ d.val) :
    quotedEnd text quote pos = quotedEnd text quote (pos + 1) := by
  have hne := Code.ne_of_wide hwide
  rw [quotedEnd_letter hd, if_neg (not_or.2 ⟨hne quote hquote, hne '\n' (by decide)⟩),
    if_neg (hne '\\' (by decide))]

theorem angleEnd_wide (depth pos : Nat) (d : Char) (hd : letter? text pos = some d)
    (hwide : 0x80 ≤ d.val) : angleEnd text depth pos = angleEnd text depth (pos + 1) := by
  have hne := Code.ne_of_wide hwide
  rw [angleEnd_letter hd, if_neg (hne '<' (by decide)), if_neg (hne '>' (by decide)),
    if_neg (not_or.2 ⟨hne '\'' (by decide), hne '"' (by decide)⟩),
    if_neg (not_or.2 ⟨hne ';' (by decide), hne '\x60' (by decide)⟩)]

theorem At.followsEquals_next (h : At text p (c :: cs)) :
    followsEquals text (p.next c).offset = .ok (c = '=') := by
  by_cases hc : c.val < 0x80
  · rw [next_ascii p hc, followsEquals, h.letter?_ascii hc]
  · -- the byte before is the last one of the character
    have hwide := UInt32.not_lt.1 hc
    obtain ⟨n, hn⟩ := Nat.exists_eq_add_of_le' c.utf8Size_pos
    obtain ⟨d, hd, hd'⟩ := h.letter?_wide hwide (i := n) (by omega)
    have hstop : (p.next c).offset = p.offset + n + 1 := by rw [Place.next, hn]; rfl
    rw [hstop, followsEquals, hd]
    simp only [Code.ne_of_wide hwide '=' (by decide), Code.ne_of_wide hd' '=' (by decide)]

def angleFrom (text : List UInt8) (quoted : Option Char) (depth pos : Nat) :
    Except Fault (Option Nat) :=
  match quoted with
  | none => angleEnd text depth pos
  | some quote => angleEnd text depth (quotedEnd text quote pos + 1)

theorem map_offset {p p' : Place} {f : List Char → List Char}
    (hf : ∀ args, p.offset + Text.size (f args) = p'.offset + Text.size args)
    (x : Option (List Char × List Char)) :
    (x.map (Prod.map f id)).map (fun read => p.offset + Text.size read.1) =
      x.map fun read => p'.offset + Text.size read.1 := by
  cases x with
  | none => rfl
  | some read => exact congrArg some (hf read.1)

theorem next_offset (p : Place) (c : Char) (args : List Char) :
    p.offset + Text.size (c :: args) = (p.next c).offset + Text.size args :=
  (Nat.add_assoc ..).symm

theorem At.angleFrom_next {depth : Nat} {afterEquals : Bool} (h : At text p (c :: cs))
    (hequals : followsEquals text p.offset = .ok afterEquals)
    (hclose : ¬(c = '>' ∧ afterEquals = false ∧ depth ≤ 1)) (hstop : ¬(c = ';' ∨ c = '\x60')) :
    angleFrom text none depth p.offset =
      angleFrom text (if c = '\'' ∨ c = '"' then some c else none)
        (if c = '<' then depth + 1 else if c = '>' ∧ afterEquals = false then depth - 1 else depth)
        (p.next c).offset := by
  by_cases hc : c.val < 0x80
  · rw [next_ascii p hc]
    simp only [angleFrom, angleEnd_letter (h.letter?_ascii hc)]
    by_cases hlt : c = '<'
    · subst hlt
      rfl
    by_cases hgt : c = '>'
    · subst hgt
      rw [hequals]
      cases afterEquals with
      | true => rfl
      | false =>
        obtain ⟨k, rfl⟩ : ∃ k, depth = k + 2 :=
          Nat.exists_eq_add_of_le' (Nat.succ_le_of_lt (by simpa using hclose))
        rfl
    by_cases hquote : c = '\'' ∨ c = '"'
    · simp only [hlt, hgt, hquote, if_true, if_false, false_and]
    · simp only [hlt, hgt, hquote, hstop, if_false, false_and]
  · have hwide := UInt32.not_lt.1 hc
    have hne := Code.ne_of_wide hwide
    rw [if_neg (not_or.2 ⟨hne '\'' (by decide), hne '"' (by decide)⟩), if_neg (hne '<' (by decide)),
      if_neg fun h => hne '>' (by decide) h.1]
    exact h.across (angleEnd_wide depth) hwide

theorem plain_quote {quote : Char} (h : quote = '\'' ∨ quote = '"') :
    quote.val < 0x80 ∧ quote ≠ '=' := by
  rcases h with rfl | rfl <;> decide

theorem angleFrom_eq {quoted : Option Char} {depth : Nat} {afterEquals : Bool} (hat : At text p cs)
    (hdepth : 1 ≤ depth) (hquoted : ∀ quote ∈ quoted, quote = '\'' ∨ quote = '"')
    (hequals : quoted = none → followsEquals text p.offset = .ok afterEquals) :
    angleFrom text quoted depth p.offset =
      .ok ((Tag.closeAngle quoted depth afterEquals cs).map fun read =>
        p.offset + Text.size read.1) := by
  fun_induction Tag.closeAngle quoted depth afterEquals cs generalizing p with
  | case1 quoted =>
    cases quoted with
    | none => exact angleEnd_end hat.letter?_end
    | some quote =>
      rw [angleFrom, quotedEnd_end hat.letter?_end]
      exact angleEnd_end (hat.letter?_nil 1)
  | case2 depth afterEquals c cs quote hc ih =>
    obtain ⟨hascii, hne⟩ := plain_quote (hquoted quote rfl)
    have hc' : c.val < 0x80 := by
      rcases hc with rfl | rfl
      · exact hascii
      · decide
    have hplain : followsEquals text (p.next c).offset = .ok false := by
      rw [hat.followsEquals_next]
      rcases hc with rfl | rfl
      · simp [hne]
      · rfl
    have hrest := ih hat.next hdepth (fun _ h => by cases h) fun _ => hplain
    rw [map_offset (next_offset p c), ← hrest, next_ascii p hc']
    simp only [angleFrom, quotedEnd_letter (hat.letter?_ascii hc'), if_pos hc]
  | case3 depth afterEquals quote hc =>
    have hslash := hat.letter?_ascii (c := '\\') (by decide)
    have hbehind : letter? text (p.offset + 2) = none := hat.next.letter?_nil 1
    rw [angleFrom, quotedEnd_letter hslash, if_neg hc, if_pos rfl, quotedEnd_end hbehind]
    exact angleEnd_end (hat.next.letter?_nil 2)
  | case4 depth afterEquals quote d cs hc ih =>
    have hslash := hat.letter?_ascii (c := '\\') (by decide)
    have hrest := ih hat.next.next hdepth hquoted fun h => by cases h
    have hoffset : ∀ args, p.offset + Text.size ('\\' :: d :: args) =
        ((p.next '\\').next d).offset + Text.size args := by
      intro args
      rw [next_offset, next_offset]
    -- the reader may stand inside of `d` here
    have hbehind : quotedEnd text quote (p.offset + 2) = _ :=
      hat.next.behind (quotedEnd_wide (plain_quote (hquoted quote rfl)).1)
    rw [map_offset hoffset, ← hrest, angleFrom, quotedEnd_letter hslash, if_neg hc, if_pos rfl,
      hbehind, angleFrom]
  | case5 depth afterEquals c cs quote hc hslash ih =>
    have hrest := ih hat.next hdepth hquoted fun h => by cases h
    rw [map_offset (next_offset p c), ← hrest, angleFrom, angleFrom]
    by_cases hc' : c.val < 0x80
    · rw [quotedEnd_letter (hat.letter?_ascii hc'), if_neg hc, if_neg hslash, next_ascii p hc']
    · rw [hat.across (quotedEnd_wide (plain_quote (hquoted quote rfl)).1) (UInt32.not_lt.1 hc')]
  | case6 depth afterEquals c cs hc =>
    obtain ⟨rfl, rfl, hle⟩ := hc
    obtain rfl : depth = 1 := by omega
    rw [angleFrom, angleEnd_letter (hat.letter?_ascii (by decide)), if_neg (by decide), if_pos rfl,
      hequals rfl]
    rfl
  | case7 depth afterEquals c cs hc hstop =>
    have hc' : c.val < 0x80 := by rcases hstop with rfl | rfl <;> decide
    rw [angleFrom, angleEnd_letter (hat.letter?_ascii hc')]
    rcases hstop with rfl | rfl <;> rfl
  | case8 depth afterEquals c cs hc hstop quoted depth' =>
    rename_i ih
    have hdepth' : 1 ≤ depth' := by
      simp only [depth']
      split_ifs with hopen hclose
      · omega
      · have : ¬depth ≤ 1 := fun hle => hc ⟨hclose.1, hclose.2, hle⟩
        omega
      · exact hdepth
    have hquoted' : ∀ quote ∈ quoted, quote = '\'' ∨ quote = '"' := by
      simp only [quoted]
      split_ifs with hquote
      · rintro _ ⟨rfl⟩
        exact hquote
      · exact fun _ h => by cases h
    have hrest := ih hat.next hdepth' hquoted' fun _ => hat.followsEquals_next
    rw [map_offset (next_offset p c), ← hrest]
    exact hat.angleFrom_next (hequals rfl) hc hstop

theorem At.angleEnd_eq (h : At text p ('<' :: cs)) :
    angleEnd text 0 p.offset =
      .ok ((Tag.typeArguments? ('<' :: cs)).map fun read => p.offset + Text.size read.1) := by
  have hopen : angleFrom text none 1 (p.next '<').offset = _ :=
    angleFrom_eq h.next (Nat.le_refl 1) nofun fun _ => h.followsEquals_next
  rw [angleEnd_letter (h.letter?_ascii (by decide)), if_pos rfl, Tag.typeArguments?,
    map_offset (next_offset p '<')]
  exact hopen

theorem uniform_isBlank : Uniform Code.isBlank := fun _ _ hc hd =>
  (Code.isBlank_wide hc).trans (Code.isBlank_wide hd).symm

theorem uniform_continuesWord : Uniform Code.continuesWord := fun _ _ hc hd =>
  (Code.continuesWord_wide hc).trans (Code.continuesWord_wide hd).symm

theorem uniform_ne_lineFeed : Uniform (· ≠ '\n') := fun _ _ hc hd => by
  simp [Code.ne_of_wide hc '\n' (by decide), Code.ne_of_wide hd '\n' (by decide)]

theorem At.skipBlanks (h : At text p cs) :
    At text (Tag.skipBlanks p cs).place (Tag.skipBlanks p cs).rest := by
  rw [← List.takeWhile_append_dropWhile (p := Code.isBlank) (l := cs)] at h
  exact h.after

theorem At.skipWhile_isBlank (h : At text p cs) :
    Bytes.skipWhile text Code.isBlank p.offset = (Tag.skipBlanks p cs).place.offset :=
  h.skipWhile uniform_isBlank

theorem heading_eq (hat : At text p cs) :
    heading text p.offset =
      .ok ((Tag.heading? p cs).map fun k => (k.typeArguments, k.template.place.offset)) := by
  have hgap := hat.skipBlanks
  simp only [heading, Tag.heading?, hat.skipWhile_isBlank, hgap.letter?_eq_iff (d := '<') (by decide),
    hgap.letter?_eq_iff (d := '\x60') (by decide)]
  generalize Tag.skipBlanks p cs = gap at hgap ⊢
  split_ifs with hopen hquote
  · obtain ⟨inside, hrest⟩ := List.head?_eq_some_iff.1 hopen
    rw [hrest] at hgap
    rw [hgap.angleEnd_eq, hrest]
    cases hargs : Tag.typeArguments? ('<' :: inside) with
    | none => rfl
    | some read =>
      obtain ⟨args, rest⟩ := read
      rw [← Tag.typeArguments?_append hargs] at hgap
      have hstop := hgap.after
      have htemplate := hstop.skipBlanks.letter?_eq_iff (d := '\x60') (by decide)
      simp only [Except.map, Option.map_some, ← Place.after_offset, Option.bind_eq_bind,
        Option.bind_some, hstop.skipWhile_isBlank, htemplate]
      split_ifs <;> rfl
  · rfl
  · rfl

/-! Steps of the scan -/

theorem encode_injective {a b : List Char} (h : Text.encode a = Text.encode b) : a = b := by
  have hdecode := congrArg Text.decode? h
  rw [Text.decode?_encode, Text.decode?_encode, Option.some_inj] at hdecode
  exact String.ofList_injective hdecode

theorem At.of_skim {stack : List Enclosure} {k : Code.Cursor} (h : At text p cs)
    (hk : Code.skim stack p cs = .ok k) : At text k.place k.rest := by
  obtain ⟨body, rfl, hplace, -⟩ := Code.skim_closed hk
  rw [hplace]
  exact h.after

def Reading.ofCharacters (r : Tag.Reading) : Reading := ⟨r.tag, r.before, r.place.offset⟩

theorem At.template_eq (h : At text p ('\x60' :: cs)) :
    cook text p.line 0 (p.offset + 1) (p.offset + 1) [] =
      lift (fun t => ⟨Text.encode t.text, t.params, t.stop.offset⟩)
        (Template.cook p.line 0 (p.next '\x60') cs) :=
  cook_eq (show At text (p.next '\x60') ([] ++ cs) from h.next) rfl

theorem word_eq {before : Before} (hat : At text p (c :: cs)) (hc : Code.startsWord c = true) :
    word text p.offset = lift Reading.ofCharacters (Tag.next before p c cs) := by
  have hcontinues : Code.continuesWord c = true := by rw [Code.continuesWord, hc, Bool.true_or]
  have hname : (c :: cs).takeWhile Code.continuesWord = c :: cs.takeWhile Code.continuesWord :=
    List.takeWhile_cons_of_pos hcontinues
  have hrest : (c :: cs).dropWhile Code.continuesWord = cs.dropWhile Code.continuesWord :=
    List.dropWhile_cons_of_pos hcontinues
  have hbehind := hat.skipWhile uniform_continuesWord
  have hsplit := hat
  rw [← List.takeWhile_append_dropWhile (p := Code.continuesWord) (l := c :: cs), hname, hrest]
    at hsplit
  rw [hname] at hbehind
  rw [Tag.next_startsWord hc]
  generalize c :: cs.takeWhile Code.continuesWord = name at *
  generalize cs.dropWhile Code.continuesWord = rest at *
  have hheading := heading_eq hsplit.after
  simp only [word, hbehind, hsplit.slice, bind, Except.bind]
  by_cases hword : name = Tag.word
  · simp only [hword, if_true] at hheading ⊢
    rw [hheading]
    cases hk : Tag.heading? (p.after Tag.word) rest with
    | none => rfl
    | some k =>
      obtain ⟨head, f, -, rfl, rfl⟩ := Tag.heading?_eq_some hk
      subst hword
      have htemplate := hsplit.after.after
      simp only [Option.map_some, htemplate.lineAt, hat.lineAt, htemplate.template_eq, List.tail_cons]
      cases Template.cook ((p.after Tag.word).after head.text).line 0
        (((p.after Tag.word).after head.text).next '\x60') f with
      | error u => rfl
      | ok t =>
        simp only [lift, Text.decode?_encode]
        rfl
  · have hne : Text.encode name ≠ Text.encode Tag.word := fun h => hword (encode_injective h)
    simp only [hword, hne, if_false]
    rfl

theorem next_eq {before : Before} (hat : At text p (c :: cs)) {x : Char}
    (hx : letter? text p.offset = some x) :
    next text before p.offset x = lift Reading.ofCharacters (Tag.next before p c cs) := by
  by_cases hc : c.val < 0x80
  · obtain rfl : c = x := Option.some.inj ((hat.letter?_ascii hc).symm.trans hx)
    have hoffset := next_ascii p hc
    have hslash := hat.next.letter?_eq_iff (d := '/') (by decide)
    have hstar := hat.next.letter?_eq_iff (d := '*') (by decide)
    rw [hoffset] at hslash hstar
    by_cases hw : Code.startsWord c = true
    · rw [next_startsWord hw, word_eq hat hw]
    simp only [next, Tag.next, hslash, hstar, hat.lineAt]
    split_ifs with hline hblock hregex hquote htick
    · rw [hat.skipWhile uniform_ne_lineFeed]
      rfl
    · obtain ⟨rfl, hblock⟩ := hblock
      obtain ⟨cs, rfl⟩ := List.head?_eq_some_iff.1 hblock
      have hskim : skim text [.blockComment p.line] (p.offset + 2) = _ :=
        skim_eq (At.after (w := ['/', '*']) hat) (by simp [Enclosure.Plain])
      rw [hskim, map_lift, lift_map]
      rfl
    · have hskim : skim text [.regex p.line false] (p.next c).offset = _ :=
        skim_eq hat.next (by simp [Enclosure.Plain])
      rw [hoffset] at hskim
      rw [hskim]
      cases hk : Code.skim [.regex p.line false] (p.next c) cs with
      | error u => rfl
      | ok k =>
        simp only [lift, Except.map, (hat.next.of_skim hk).skipWhile uniform_continuesWord]
        rfl
    · have hskim : skim text [.quoted p.line c] (p.next c).offset = _ :=
        skim_eq hat.next (by simpa [Enclosure.Plain])
      rw [hoffset] at hskim
      rw [hskim, map_lift, lift_map]
      rfl
    · subst htick
      rw [hat.template_eq, map_lift, lift_map]
      rfl
    · rw [← hoffset]
      rfl
  · have hwide := UInt32.not_lt.1 hc
    obtain ⟨x', hx', hwide'⟩ := hat.exists_wide_letter hwide
    obtain rfl : x' = x := Option.some.inj (hx'.symm.trans hx)
    rw [next_startsWord (Code.startsWord_wide hwide'), word_eq hat (Code.startsWord_wide hwide)]

theorem scanFrom_eq {before : Before} (hat : At text p cs) :
    scanFrom text before p.offset = lift id (Tag.scanFrom before p cs) := by
  -- a step may read any number of characters, but reads one at least
  induction hn : cs.length using Nat.strongRecOn generalizing before p cs with
  | ind n ih =>
    subst hn
    cases cs with
    | nil =>
      rw [scanFrom_end hat.letter?_end, Tag.scanFrom]
      rfl
    | cons c cs =>
      obtain ⟨x, hx⟩ := hat.exists_letter
      rw [scanFrom_letter hx, next_eq hat hx, Tag.scanFrom_cons]
      cases hr : Tag.next before p c cs with
      | error u => rfl
      | ok r =>
        obtain ⟨w, rfl, hplace⟩ := Tag.next_text hr
        have hbehind : At text r.place r.rest := by
          rw [hplace]
          exact At.after (w := c :: w) hat
        have hlt : p.offset < r.place.offset := by
          have := c.utf8Size_pos
          rw [hplace, Place.after_offset, Text.size_cons]
          omega
        have hrest : scanFrom text r.before r.place.offset = _ :=
          ih _ (Tag.next_rest_lt hr) hbehind rfl
        simp only [lift, Except.bind, Reading.ofCharacters, hlt, if_true]
        rw [hrest, map_lift]
        exact (lift_map id _ _).symm

end Agreement

/-- The reader of bytes finds the tags that are found in the characters. All that stops it is a
construct that does not end. -/
theorem scan_eq (source : String) :
    scan source.toUTF8.data.toList = lift id (Tag.scan source) := by
  rw [← Text.encode_toList]
  exact scanFrom_eq (at_start source.toList)

end RowTypes.Bytes
