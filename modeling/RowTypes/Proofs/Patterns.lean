import Mathlib.Data.List.Basic
import RowTypes.FileFilter

/-! What a pattern followed by `/**` matches: everything below what the pattern itself matches. The
exception are the patterns made of `**/` alone, which are read as everything. -/

namespace RowTypes

namespace Glob

/-! What tokens match, one after the other -/

theorem matches_append {a b : Glob} {s : List UInt8} :
    (a.append b).Matches s ↔ ∃ s₁ s₂, s = s₁ ++ s₂ ∧ a.Matches s₁ ∧ b.Matches s₂ := by
  cases a <;> cases b <;> simp [append, Matches]

theorem matches_foldl {ts : List Token} {g : Glob} {s : List UInt8} :
    (ts.foldl (fun g t => t.glob.append g) g).Matches s ↔
      ∃ s₁ s₂, s = s₁ ++ s₂ ∧ (ofTokens ts).Matches s₁ ∧ g.Matches s₂ := by
  induction ts generalizing g s with
  | nil => simp [ofTokens, Matches]
  | cons t ts ih =>
    rw [List.foldl_cons, ih]
    simp only [show ofTokens (t :: ts) = ts.foldl (fun g t => t.glob.append g) (t.glob.append empty)
      from rfl, ih (g := t.glob.append empty), matches_append]
    constructor
    · rintro ⟨s₁, _, rfl, h₁, s₂, s₃, rfl, h₂, h₃⟩
      exact ⟨s₁ ++ s₂, s₃, by simp, ⟨s₁, s₂, rfl, h₁, s₂, [], by simp, h₂, rfl⟩, h₃⟩
    · rintro ⟨_, s₃, rfl, ⟨s₁, _, rfl, h₁, s₂, _, rfl, h₂, rfl⟩, h₃⟩
      exact ⟨s₁, s₂ ++ s₃, by simp, h₁, s₂, s₃, rfl, h₂, h₃⟩

theorem matches_ofTokens_cons {t : Token} {ts : List Token} {s : List UInt8} :
    (ofTokens (t :: ts)).Matches s ↔
      ∃ s₁ s₂, s = s₁ ++ s₂ ∧ (ofTokens ts).Matches s₁ ∧ t.glob.Matches s₂ := by
  rw [ofTokens, List.foldl_cons, matches_foldl]
  simp [matches_append, Matches]

theorem matches_slash {s : List UInt8} : slash.Matches s ↔ s = [0x2f] := by
  simp only [slash, ofByte, Matches, inRanges, List.any_cons, List.any_nil]
  constructor
  · rintro ⟨b, rfl, hb⟩
    have hb : 0x2f ≤ b ∧ b ≤ 0x2f := by simpa using hb
    rw [UInt8.le_antisymm hb.2 hb.1]
  · rintro rfl
    exact ⟨0x2f, rfl, by decide⟩

theorem matches_trailing {s : List UInt8} :
    Token.trailing.glob.Matches s ↔ ∃ r, s = 0x2f :: r := by
  simp [Token.glob, Matches, matches_slash]

/-! The patterns of `**/` alone -/

def onlyStars : List Char → Bool
  | '*' :: '*' :: '/' :: cs => cs.isEmpty || onlyStars cs
  | _ => false

/-! The pattern with `/**` behind it -/

def allBelow : List Char := ['/', '*', '*']

theorem readClass_append {first inRange : Bool} {ranges : List (Char × Char)} {cs : List Char}
    {found : List (Char × Char) × List Char}
    (h : readClass first inRange ranges cs = .ok found) (more : List Char) :
    readClass first inRange ranges (cs ++ more) = .ok (found.1, found.2 ++ more) := by
  induction cs generalizing first inRange ranges with
  | nil => cases h
  | cons c cs ih =>
    simp only [readClass, List.cons_append] at h ⊢
    split at h
    · rename_i hclose
      cases h
      rw [if_pos hclose]
    · rename_i hclose
      rw [if_neg hclose]
      split at h
      · rename_i hdash
        rw [if_pos hdash]
        exact ih h
      · rename_i hdash
        rw [if_neg hdash]
        split at h
        · rename_i hrange
          rw [if_pos hrange]
          split at h
          · exact ih h
          · split at h
            · cases h
            · rename_i hle
              simp only [if_neg hle]
              exact ih h
        · rename_i hrange
          rw [if_neg hrange]
          exact ih h

theorem classBody_append (cs : List Char) :
    classBody (cs ++ allBelow) = ((classBody cs).1, (classBody cs).2 ++ allBelow) := by
  cases cs with
  | nil => rfl
  | cons c cs =>
    simp only [classBody, List.cons_append]
    split <;> simp_all

theorem twoStars_append {nested : Bool} {previous : Option Char} {tokens : List Token}
    {rest : List Char} (hrest : rest ≠ []) (more : List Char) :
    twoStars nested previous tokens (rest ++ more) =
      ((twoStars nested previous tokens rest).1,
        (twoStars nested previous tokens rest).2 ++ more) := by
  obtain ⟨c, rest, rfl⟩ := List.exists_cons_of_ne_nil hrest
  by_cases hc : c = '/'
  · subst hc
    cases tokens with
    | nil => rfl
    | cons before others =>
      simp only [twoStars, List.cons_append]
      split <;> rfl
  · cases tokens with
    | nil => simp [twoStars, hc]
    | cons before others =>
      simp only [twoStars, List.cons_append]
      split_ifs
      · rfl
      · simp
      · simp

def Token.fill (t : Token) : Token → Token
  | leading => leading
  | trailing => trailing
  | _ => t

inductive TwoStars (nested : Bool) : List Token → List Char → List Token × List Char → Prop where
  | plain (tokens : List Token) (rest : List Char) :
      TwoStars nested tokens rest (.star :: .star :: tokens, rest)
  | leading : TwoStars nested [] [] ([.leading], [])
  | leadingSlash (rest : List Char) : TwoStars nested [] ('/' :: rest) ([.leading], rest)
  | fill (before : Token) (others : List Token) :
      TwoStars nested (before :: others) [] (Token.trailing.fill before :: others, [])
  | fillSlash (before : Token) (others : List Token) (rest : List Char) :
      TwoStars nested (before :: others) ('/' :: rest) (Token.between.fill before :: others, rest)
  | fillPart (before : Token) (others : List Token) (rest : List Char) (hnested : nested = true) :
      TwoStars nested (before :: others) rest (Token.trailing.fill before :: others, rest)

theorem twoStars_cons (nested : Bool) (previous : Option Char) (before : Token)
    (others : List Token) (rest : List Char) :
    twoStars nested previous (before :: others) rest =
      if previous ≠ some '/' ∧ ¬(nested ∧ (previous = some ',' ∨ previous = some '\x7b')) then
        (.star :: .star :: before :: others, rest)
      else
        match rest with
        | [] => (Token.trailing.fill before :: others, [])
        | '/' :: rest => (Token.between.fill before :: others, rest)
        | c :: _ =>
          if nested ∧ (c = ',' ∨ c = '\x7d') then (Token.trailing.fill before :: others, rest)
          else (.star :: .star :: before :: others, rest) := by
  cases before <;> rfl

theorem twoStars_cases (nested : Bool) (previous : Option Char) (tokens : List Token)
    (rest : List Char) : TwoStars nested tokens rest (twoStars nested previous tokens rest) := by
  cases tokens with
  | nil =>
    simp only [twoStars]
    split
    · exact .leading
    · exact .leadingSlash _
    · exact .plain _ _
  | cons before others =>
    rw [twoStars_cons]
    split_ifs
    · exact .plain _ _
    · split
      · exact .fill before others
      · exact .fillSlash before others _
      · split_ifs with hpart
        · exact .fillPart before others _ hpart.1
        · exact .plain _ _

def finish (tokens : List Token) : Glob := if tokens = [.leading] then anything else ofTokens tokens

def Bare (tokens : List Token) (frames : List Frame) (cs : List Char) : Prop :=
  frames = [] ∧ (tokens = [] ∧ onlyStars cs = true ∨
    tokens = [.leading] ∧ (cs = [] ∨ onlyStars cs = true))

/-- What is left of a pattern, once with and once without `/**` behind it: that adds a token, or
the pattern ends in two stars already. -/
inductive ReadsBelow (previous : Option Char) (tokens : List Token) (frames : List Frame)
    (cs : List Char) : Glob → Prop where
  | more (ts : List Token)
      (hread : read previous tokens frames (cs ++ allBelow) = .ok (ofTokens (.trailing :: ts)))
      (hbare : ts = [.leading] → Bare tokens frames cs) :
      ReadsBelow previous tokens frames cs (finish ts)
  | same (ts : List Token)
      (hread : read previous tokens frames (cs ++ allBelow) = .ok (finish ts))
      (hlast : ts = [.leading] ∨ ts.head? = some .trailing) :
      ReadsBelow previous tokens frames cs (finish ts)

section Reading

variable {previous previous' : Option Char} {tokens tokens' : List Token}
  {frames frames' : List Frame} {cs cs' : List Char} {g : Glob}

theorem ReadsBelow.step (h : ReadsBelow previous' tokens' frames' cs' g)
    (hread : read previous tokens frames (cs ++ allBelow) =
      read previous' tokens' frames' (cs' ++ allBelow))
    (hbare : Bare tokens' frames' cs' → Bare tokens frames cs) :
    ReadsBelow previous tokens frames cs g := by
  cases h with
  | more ts hread' hbare' => exact .more ts (hread.trans hread') fun hts => hbare (hbare' hts)
  | same ts hread' hlast => exact .same ts (hread.trans hread') hlast

theorem not_bare_cons {t : Token} (ht : t ≠ .leading) : ¬Bare (t :: tokens) frames cs := by
  rintro ⟨-, ⟨hnil, -⟩ | ⟨hcons, -⟩⟩
  · cases hnil
  · exact ht (List.cons.inj hcons).1

theorem ReadsBelow.step_cons {t : Token}
    (h : ReadsBelow previous' (t :: tokens') frames' cs' g) (ht : t ≠ .leading)
    (hread : read previous tokens frames (cs ++ allBelow) =
      read previous' (t :: tokens') frames' (cs' ++ allBelow)) :
    ReadsBelow previous tokens frames cs g :=
  h.step hread fun hbare => absurd hbare (not_bare_cons ht)

theorem not_bare_frame {f : Frame} : ¬Bare tokens (f :: frames) cs := fun h => nomatch h.1

def LeadingFirst (tokens : List Token) : Prop := ∀ ts, tokens = .leading :: ts → ts = []

theorem leadingFirst_nil : LeadingFirst [] := nofun

theorem leadingFirst_cons {t : Token} (ht : t ≠ .leading) : LeadingFirst (t :: tokens) :=
  fun _ hts => absurd (List.cons.inj hts).1 ht

theorem LeadingFirst.of_twoStars {nested : Bool} {found : List Token × List Char}
    (hleading : LeadingFirst tokens) (h : TwoStars nested tokens cs found) :
    LeadingFirst found.1 := by
  -- a token that is filled stays at the start
  have fill {before t : Token} {others : List Token} (ht : t ≠ .leading)
      (hleading : LeadingFirst (before :: others)) : LeadingFirst (t.fill before :: others) := by
    cases before with
    | leading => exact hleading
    | trailing => exact leadingFirst_cons nofun
    | _ => exact leadingFirst_cons ht
  cases h with
  | plain => exact leadingFirst_cons nofun
  | leading | leadingSlash => exact fun ts hts => (List.cons.inj hts).2.symm
  | fill | fillPart => exact fill nofun hleading
  | fillSlash => exact fill nofun hleading

theorem Bare.of_twoStars {found : List Token × List Char}
    (h : TwoStars (!frames.isEmpty) tokens cs found) (hcs : cs ≠ [])
    (hbare : Bare found.1 frames found.2) : Bare tokens frames ('*' :: '*' :: cs) := by
  obtain ⟨rfl, hbare⟩ := hbare
  refine ⟨rfl, ?_⟩
  cases h with
  | plain => simp at hbare
  | leading => exact absurd rfl hcs
  | leadingSlash rest => simpa [onlyStars] using hbare
  | fill => exact absurd rfl hcs
  | fillSlash before others rest =>
    cases before <;> simp_all [Token.fill, onlyStars]
  | fillPart before others rest hnested => simp at hnested

theorem readsBelow_twoStars (hleading : LeadingFirst tokens) :
    ReadsBelow previous tokens [] ['*', '*'] (finish (twoStars false previous tokens []).1) := by
  cases tokens with
  | nil =>
    refine .same [.leading] ?_ (.inl rfl)
    simp [allBelow, read, twoStars, finish]
  | cons before others =>
    by_cases hprevious : previous = some '/'
    · subst hprevious
      have hread : read (some '/') (before :: others) [] (['*', '*'] ++ allBelow) =
          .ok (finish (Token.trailing.fill (Token.between.fill before) :: others)) := by
        simp [allBelow, read, twoStars_cons, finish]
      have hfill :
          Token.trailing.fill (Token.between.fill before) = Token.trailing.fill before := by
        cases before <;> rfl
      rw [hfill] at hread
      rw [show (twoStars false (some '/') (before :: others) []).1 =
        Token.trailing.fill before :: others by simp [twoStars_cons]]
      refine .same _ hread ?_
      cases before with
      | leading => rw [hleading others rfl]; exact .inl rfl
      | _ => exact .inr rfl
    · rw [show (twoStars false previous (before :: others) []).1 =
        .star :: .star :: before :: others by simp [twoStars_cons, hprevious]]
      refine .more _ ?_ fun hts => by cases hts
      simp [allBelow, read, twoStars_cons, hprevious, Token.fill]

theorem read_class {ranges : List (Char × Char)} {rest : List Char}
    (h : readClass true false [] (classBody cs).2 = .ok (ranges, rest)) :
    read previous tokens frames ('[' :: cs) =
      read (some ']') (.oneOf (classBody cs).1 ranges :: tokens) frames rest := by
  rw [read]
  split
  · rename_i he
    rw [h] at he
    cases he
  · rename_i hok
    rw [h] at hok
    cases hok
    rfl

theorem readsBelow_of_read (hleading : LeadingFirst tokens)
    (h : read previous tokens frames cs = .ok g) : ReadsBelow previous tokens frames cs g := by
  fun_induction read previous tokens frames cs with
  | case1 previous tokens =>
    cases h
    refine .more tokens ?_ fun hts => ⟨rfl, .inr ⟨hts, .inl rfl⟩⟩
    simp [allBelow, read, twoStars_cons, Token.fill]
  | case2 => cases h
  | case3 previous tokens frames cs ih =>
    refine (ih (leadingFirst_cons nofun) h).step_cons nofun ?_
    rw [List.cons_append, read]
  | case4 previous tokens frames cs found ih =>
    have hstars : TwoStars (!frames.isEmpty) tokens cs found := twoStars_cases ..
    by_cases hcs : cs = []
    · subst hcs
      have hfound : found.2 = [] := List.eq_nil_of_length_eq_zero
        (Nat.le_zero.1 (twoStars_length (!frames.isEmpty) previous tokens []))
      rw [hfound] at h
      cases frames with
      | nil =>
        rw [read] at h
        cases h
        exact readsBelow_twoStars hleading
      | cons f frames =>
        rw [read] at h
        cases h
        nofun
    · refine (ih (hleading.of_twoStars hstars) h).step ?_ fun hbare => hbare.of_twoStars hstars hcs
      rw [List.cons_append, List.cons_append, read]
      simp only [twoStars_append hcs, List.length_append, Nat.add_lt_add_iff_right]
      rfl
  | case5 previous tokens frames cs hstar ih =>
    refine (ih (leadingFirst_cons nofun) h).step_cons nofun ?_
    rw [List.cons_append, read]
    intro cs' hcs
    cases cs with
    | nil => cases hcs
    | cons c cs => exact hstar cs (by rw [(List.cons.inj hcs).1])
  | case6 => cases h
  | case7 previous tokens frames cs _ ranges rest hclass ih =>
    refine (ih (leadingFirst_cons nofun) h).step_cons nofun ?_
    have hmore : readClass true false [] (classBody (cs ++ allBelow)).2 =
        .ok (ranges, rest ++ allBelow) := by
      rw [classBody_append]
      exact readClass_append hclass allBelow
    rw [List.cons_append, read_class hmore, classBody_append]
  | case8 previous tokens frames cs ih =>
    refine (ih leadingFirst_nil h).step ?_ fun hbare => absurd hbare not_bare_frame
    rw [List.cons_append, read]
  | case9 => cases h
  | case10 previous tokens cs f frames g ih =>
    refine (ih (leadingFirst_cons nofun) h).step_cons nofun ?_
    rw [List.cons_append, read]
  | case11 previous tokens cs ih =>
    refine (ih (leadingFirst_cons nofun) h).step_cons nofun ?_
    rw [List.cons_append, read]
  | case12 previous tokens cs f frames ih =>
    refine (ih leadingFirst_nil h).step ?_ fun hbare => absurd hbare not_bare_frame
    rw [List.cons_append, read]
  | case13 => cases h
  | case14 previous tokens frames c cs ih =>
    refine (ih (leadingFirst_cons nofun) h).step_cons nofun ?_
    rw [List.cons_append, List.cons_append, read]
  | case15 previous tokens frames c cs h1 h2 h3 h4 h5 h6 h7 h8 h9 ih =>
    refine (ih (leadingFirst_cons nofun) h).step_cons nofun ?_
    have hescape : c ≠ '\\' := by
      rintro rfl
      cases cs with
      | nil => exact h8 rfl rfl
      | cons c cs => exact h9 c cs rfl rfl
    rw [List.cons_append, read]
    all_goals simp_all

end Reading

/-! Whole patterns -/

/-- Behind a pattern, `/**` stands for all that is below what the pattern matches. Patterns of
`**/` alone are the exception. -/
theorem parse_below {pattern : String} {g : Glob} (h : parse pattern = .ok g)
    (hstars : onlyStars pattern.toList = false) :
    ∃ g', parse (pattern ++ "/**") = .ok g' ∧
      ∀ s r, g.Matches s → g'.Matches (s ++ 0x2f :: r) := by
  rw [parse] at h
  rw [parse, String.toList_append, show "/**".toList = allBelow from rfl]
  cases readsBelow_of_read leadingFirst_nil h with
  | more ts hread hbare =>
    refine ⟨_, hread, fun s r hs => ?_⟩
    have hts : ts ≠ [.leading] := by
      intro hts
      obtain ⟨-, ⟨-, htrue⟩ | ⟨hcons, -⟩⟩ := hbare hts
      · rw [hstars] at htrue
        cases htrue
      · cases hcons
    rw [finish, if_neg hts] at hs
    exact matches_ofTokens_cons.2 ⟨s, _, rfl, hs, matches_trailing.2 ⟨r, rfl⟩⟩
  | same ts hread hlast =>
    refine ⟨_, hread, fun s r hs => ?_⟩
    rw [finish] at hs ⊢
    split_ifs at hs ⊢ with hts
    · trivial
    · obtain ⟨ts, rfl⟩ : ∃ others, ts = .trailing :: others :=
        List.head?_eq_some_iff.1 (hlast.resolve_left hts)
      obtain ⟨s₁, s₂, rfl, hs₁, hs₂⟩ := matches_ofTokens_cons.1 hs
      obtain ⟨r', rfl⟩ := matches_trailing.1 hs₂
      exact matches_ofTokens_cons.2 ⟨s₁, 0x2f :: (r' ++ 0x2f :: r), by simp, hs₁,
        matches_trailing.2 ⟨_, rfl⟩⟩

theorem read_onlyStars {previous : Option Char} {tokens : List Token} {cs : List Char}
    (htokens : tokens = [] ∨ previous = some '/' ∧ tokens = [.leading])
    (h : onlyStars cs = true) : read previous tokens [] cs = .ok anything := by
  fun_induction onlyStars cs generalizing previous tokens with
  | case1 cs ih =>
    have hstep : read previous tokens [] ('*' :: '*' :: '/' :: cs) =
        read (some '/') [.leading] [] cs := by
      obtain rfl | ⟨rfl, rfl⟩ := htokens <;> simp [read, twoStars]
    rw [hstep]
    rcases (Bool.or_eq_true _ _).mp h with hnil | hrest
    · rw [List.isEmpty_iff.mp hnil, read, if_pos rfl]
    · exact ih (.inr ⟨rfl, rfl⟩) hrest
  | case2 => cases h

theorem parse_onlyStars {pattern : String} (h : onlyStars pattern.toList = true) :
    parse pattern = .ok anything :=
  read_onlyStars (.inl rfl) h

end Glob

namespace FileFilter
open Glob

variable {included excluded : List String} {wanted : FileFilter} {path : String}

theorem mem_of_globs {patterns : List String} {gs : List Glob} (h : globs patterns = .ok gs)
    {g : Glob} : g ∈ gs ↔ ∃ pattern ∈ patterns, parse pattern = .ok g := by
  induction patterns generalizing gs with
  | nil =>
    cases h
    simp
  | cons pattern patterns ih =>
    rw [globs] at h
    split at h
    · cases h
    · rename_i first hparse
      cases hrest : globs patterns with
      | error e => rw [hrest] at h; cases h
      | ok rest =>
        rw [hrest] at h
        cases h
        rw [List.mem_cons, ih hrest, List.exists_mem_cons_iff, hparse, Except.ok.injEq, eq_comm]

theorem anyMatch_iff {gs : List Glob} {path : String} :
    anyMatch gs path = true ↔ ∃ g ∈ gs, g.Matches (bytes path) := by
  simp [anyMatch, accepts_iff]

theorem directory?_eq_some {pattern before : String} :
    directory? pattern = some before ↔ pattern = before ++ "/**" := by
  rw [directory?]
  constructor
  · intro h
    split_ifs at h with hsuffix
    obtain ⟨cs, hcs⟩ := List.isSuffixOf_iff_suffix.1 hsuffix
    cases h
    rw [← String.toList_inj, String.toList_append, String.toList_ofList, ← hcs]
    simp
  · rintro rfl
    rw [String.toList_append]
    simp

theorem ofPatterns_eq_ok (h : ofPatterns included excluded = .ok wanted) :
    globs excluded = .ok wanted.excluded ∧
      globs (excluded.filterMap directory?) = .ok wanted.pruned := by
  rw [ofPatterns] at h
  cases hincluded : globs included with
  | error e => rw [hincluded] at h; cases h
  | ok gs =>
    cases hexcluded : globs excluded with
    | error e => rw [hincluded, hexcluded] at h; cases h
    | ok gs' =>
      cases hpruned : globs (excluded.filterMap directory?) with
      | error e => rw [hincluded, hexcluded, hpruned] at h; cases h
      | ok gs'' =>
        rw [hincluded, hexcluded, hpruned] at h
        cases h
        exact ⟨rfl, rfl⟩

def prunesAll (pattern : String) : Bool :=
  (directory? pattern).any fun before => onlyStars before.toList

/-- Whatever is below a directory that is left out is excluded. -/
theorem excluded_of_pruned (h : ofPatterns included excluded = .ok wanted)
    (hall : ∀ pattern ∈ excluded, prunesAll pattern = false) {below : String} {r : List UInt8}
    (hbelow : bytes below = bytes path ++ 0x2f :: r)
    (hpruned : anyMatch wanted.pruned path = true) : anyMatch wanted.excluded below = true := by
  obtain ⟨hexcluded, hdirectories⟩ := ofPatterns_eq_ok h
  obtain ⟨g, hg, hmatches⟩ := anyMatch_iff.1 hpruned
  obtain ⟨before, hbefore, hparse⟩ := (mem_of_globs hdirectories).1 hg
  obtain ⟨pattern, hmem, hdirectory⟩ := List.mem_filterMap.1 hbefore
  have hstars := hall pattern hmem
  rw [prunesAll, hdirectory, Option.any_some] at hstars
  obtain ⟨g', hparse', hall'⟩ := parse_below hparse hstars
  rw [← directory?_eq_some.1 hdirectory] at hparse'
  refine anyMatch_iff.2 ⟨g', (mem_of_globs hexcluded).2 ⟨pattern, hmem, hparse'⟩, ?_⟩
  rw [hbelow]
  exact hall' _ r hmatches

theorem pruned_of_prunesAll (h : ofPatterns included excluded = .ok wanted) {pattern : String}
    (hmem : pattern ∈ excluded) (hall : prunesAll pattern = true) (path : String) :
    anyMatch wanted.pruned path = true := by
  obtain ⟨before, hdirectory, hstars⟩ := Option.any_eq_true _ _ |>.1 hall
  exact anyMatch_iff.2 ⟨anything, (mem_of_globs (ofPatterns_eq_ok h).2).2 ⟨before,
    List.mem_filterMap.2 ⟨pattern, hmem, hdirectory⟩, parse_onlyStars hstars⟩, trivial⟩

end FileFilter
end RowTypes
