import RowTypes.Proofs.InterfaceText
import RowTypes.Proofs.Merging

/-! The interfaces of a block. The interface under a name is the first declaration that has
the name, from the comment above it to its closing brace. -/

namespace RowTypes.Block

/-! Where an interface begins -/

theorem lastLine_append {cs line : List Char} (h : '\n' ∉ line) :
    lastLine (cs ++ '\n' :: line) = (cs ++ ['\n'], line) := by
  have htake : ((cs ++ '\n' :: line).reverse.takeWhile (· ≠ '\n')).reverse = line := by
    rw [List.reverse_append, List.reverse_cons, List.append_assoc, List.singleton_append,
      takeWhile_append_stop (fun c hc => ?_) (by simp), List.reverse_reverse]
    have : c ≠ '\n' := fun he => h (by rwa [← he, ← List.mem_reverse])
    simpa using this
  have hlength : (cs ++ '\n' :: line).length - line.length = (cs ++ ['\n']).length := by
    simp only [List.length_append, List.length_cons, List.length_nil]
    omega
  have hcs : cs ++ '\n' :: line = (cs ++ ['\n']) ++ line := by simp
  simp only [lastLine, htake, hlength, Prod.mk.injEq, and_true]
  rw [hcs, List.take_left]

theorem beforeLast?_append (cs : List Char) {inside : List Char}
    (h : ¬['/', '*', '*'] <:+: inside) :
    beforeLast? ['/', '*', '*'] (cs ++ '/' :: '*' :: '*' :: inside) = some cs := by
  have hreverse : (cs ++ '/' :: '*' :: '*' :: inside).reverse =
      inside.reverse ++ (['*', '*', '/'] ++ cs.reverse) := by simp
  have hread : Reference.afterPrefix? ['*', '*', '/'] (['*', '*', '/'] ++ cs.reverse) =
      some cs.reverse := by
    simp [Reference.afterPrefix?]
  have hnone : ∀ a b, inside.reverse = a ++ b → b ≠ [] →
      Reference.afterPrefix? ['*', '*', '/'] (b ++ (['*', '*', '/'] ++ cs.reverse)) = none := by
    intro a b hab hb
    have hsuffix : ¬['*', '*', '/'] <:+: b := by
      intro hm
      refine h ?_
      have := hm.trans (List.IsSuffix.isInfix ⟨a, hab.symm⟩)
      have := List.reverse_infix.2 this
      simpa using this
    unfold Reference.afterPrefix?
    rw [if_neg]
    intro hp
    rcases b with _ | ⟨c, _ | ⟨d, _ | ⟨e, b⟩⟩⟩
    · exact hb rfl
    · simp at hp
    · simp at hp
    · have hmark : '*' = c ∧ '*' = d ∧ '/' = e := by simpa using hp
      obtain ⟨rfl, rfl, rfl⟩ := hmark
      exact hsuffix ⟨[], b, by simp⟩
  have hfind := findHeader_append (by simp) hread hnone
  change (findHeader (Reference.afterPrefix? ['*', '*', '/']) _).map _ = _
  rw [hreverse, hfind]
  exact congrArg some (List.reverse_reverse cs)

theorem unrelated_append (cs m : List Char) {t : List Char} (h : ¬['/', '*', '*'] <:+: t) :
    unrelated (cs ++ (m ++ '/' :: '*' :: '*' :: (t ++ ' ' :: '*' :: '/' :: '\n' :: [' ', ' ']))) =
      (lastLine (cs ++ m)).1 := by
  have hopens : ¬['/', '*', '*'] <:+: t ++ ' ' :: ['*', '/'] :=
    not_infix_append_cons (by decide) h (by decide)
  -- the text up to the line of the header, with and without the end of that line
  generalize habove : (cs ++ m) ++ '/' :: '*' :: '*' :: (t ++ ' ' :: ['*', '/']) = above
  have hbefore : cs ++ (m ++ '/' :: '*' :: '*' :: (t ++ ' ' :: '*' :: '/' :: '\n' :: [' ', ' '])) =
      above ++ '\n' :: [' ', ' '] := by
    rw [← habove]
    simp
  have hlast : above = ((cs ++ m) ++ '/' :: '*' :: '*' :: (t ++ " *".toList)) ++ ['/'] := by
    rw [← habove]
    simp
  have htrim : Text.trimEnd (above ++ ['\n']) = above := by
    rw [Text.trimEnd_concat above (by decide)]
    refine Text.trimEnd_of_getLast ?_
    rw [hlast, List.getLast?_concat]
    decide
  have hsuffix : "*/".toList.isSuffixOf above = true := by
    rw [List.isSuffixOf_iff_suffix, ← habove]
    exact ⟨(cs ++ m) ++ '/' :: '*' :: '*' :: (t ++ [' ']), by simp⟩
  have hopening : beforeLast? "/**".toList above = some (cs ++ m) := by
    have := beforeLast?_append (cs ++ m) hopens
    rwa [habove] at this
  rw [unrelated, hbefore, lastLine_append (by decide)]
  simp only [htrim, hsuffix, if_true, hopening]

/-! The declarations of a block -/

/-- The name and the text of a plain declaration in which nothing else reads as its header. -/
def Declares (e : String × String) : Prop :=
  ∃ defaultType d, isIdentifier defaultType = true ∧ Declaration.Plain d ∧
    Declaration.Neutral defaultType d ∧ e = (d.name, d.render defaultType "  ")

theorem Declares.entry {e : String × String} (h : Declares e) : EntryText e.2 := by
  obtain ⟨defaultType, d, hd, hplain, -, rfl⟩ := h
  exact ⟨defaultType, d, hd, hplain, rfl⟩

theorem entries_toList_cons (t : String) (texts : List String) :
    (entries (t :: texts)).toList = '\n' :: t.toList ++ '\n' :: (entries texts).toList := by
  simp [entries]

theorem entries_toList_append (ts ts' : List String) :
    (entries (ts ++ ts')).toList = (entries ts).toList ++ (entries ts').toList := by
  simp [entries]

section Find

variable {name : String} (hn : isIdentifier name = true)

include hn

theorem headerless_entries {texts : List String} (h : ∀ t ∈ texts, ∃ defaultType d,
      isIdentifier d.name = true ∧ d.name ≠ name ∧ Declaration.Silent defaultType name d ∧
        t = d.render defaultType "  ") {v : List Char}
    (hv : Headerless (afterInterfaceHeader name) v) :
    Headerless (afterInterfaceHeader name) (v ++ (entries texts).toList) := by
  induction texts generalizing v with
  | nil => simpa [entries] using hv
  | cons t texts ih =>
    rw [List.forall_mem_cons] at h
    obtain ⟨⟨defaultType, d, hd, hne, hsilent, rfl⟩, hrest⟩ := h
    have hfirst := Declaration.headerless_render hn hsilent hd hne hv
    have := ih hrest (hfirst.append_of_not_mem (local_interfaceHeader hn) (w := ['\n']) (by decide))
    rw [entries_toList_cons]
    simpa using this

theorem headerless_declared {es : List (String × String)} (h : ∀ e ∈ es, Declares e)
    (hne : ∀ e ∈ es, e.1 ≠ name) {v : List Char}
    (hv : Headerless (afterInterfaceHeader name) v) :
    Headerless (afterInterfaceHeader name) (v ++ (entries (es.map Prod.snd)).toList) := by
  refine headerless_entries hn (fun t ht => ?_) hv
  obtain ⟨e, he, rfl⟩ := List.mem_map.1 ht
  obtain ⟨defaultType, d, -, hplain, hneutral, heq⟩ := h e he
  rw [heq]
  exact ⟨defaultType, d, hplain.name, by simpa [heq] using hne e he, hneutral.silent hn, rfl⟩

theorem headerless_beginning : Headerless (afterInterfaceHeader name) beginning.toList :=
  headerless_of_not_mem_letter hn (by decide)

theorem Headerless.none_of_break {v a m w : List Char} {c : Char}
    (hv : Headerless (afterInterfaceHeader name) v) (hc : isHeaderChar c = false)
    (ham : v = a ++ m) : afterInterfaceHeader name (m ++ c :: w) = none := by
  cases h : afterInterfaceHeader name (m ++ c :: w) with
  | none => rfl
  | some rest =>
    obtain ⟨u, hu, -, hchars, hread⟩ := local_interfaceHeader hn _ _ h
    have hcu : c ∉ u := fun hm => by simp [hchars c hm] at hc
    rcases List.append_eq_append_iff.1 hu with ⟨n, rfl, hn'⟩ | ⟨n, rfl, -⟩
    · cases n with
      | nil =>
        have := hv a (m ++ []) (by simpa using ham)
        rw [← List.append_nil (m ++ []), hread] at this
        cases this
      | cons d n =>
        obtain ⟨rfl, -⟩ := List.cons.inj hn'
        simp at hcu
    · have := hv a (u ++ n) ham
      rw [hread] at this
      cases this

theorem findHeader_interfaceLine {v : List Char} (hv : Headerless (afterInterfaceHeader name) v)
    (rest : List Char) :
    findHeader (afterInterfaceHeader name)
        (v ++ '/' :: '\n' :: ' ' :: ' ' :: ((interfaceLine name).toList ++ '\x7b' :: rest)) =
      some (v ++ '/' :: '\n' :: [' ', ' '], (interfaceLine name).toList ++ ['\x7b'], rest) := by
  have hblank : Blank [' '] := by simp only [Blank, List.mem_singleton, forall_eq]; decide
  have hexport : "export interface ".toList =
      "export".toList ++ ([' '] ++ ("interface".toList ++ [' '])) := rfl
  have hspace : " ".toList = [' '] := rfl
  have hread : afterInterfaceHeader name ((interfaceLine name).toList ++ ['\x7b'] ++ rest) =
      some rest := by
    refine (afterInterfaceHeader_eq_some hn).2 ⟨[' '], [' '], [' '], hblank, by simp, hblank,
      by simp, hblank, ?_⟩
    rw [interfaceLine_toList, hexport, hspace]
    simp only [List.append_assoc, List.cons_append, List.nil_append]
  have htext : v ++ '/' :: '\n' :: ' ' :: ' ' :: ((interfaceLine name).toList ++ '\x7b' :: rest) =
      (v ++ '/' :: '\n' :: [' ', ' ']) ++ ((interfaceLine name).toList ++ ['\x7b'] ++ rest) := by
    simp
  rw [htext]
  refine findHeader_append (by simp) hread ?_
  intro a b hab hb
  rcases List.append_eq_append_iff.1 hab with ⟨m, rfl, hm⟩ | ⟨m, rfl, rfl⟩
  · cases m with
    | nil =>
      rw [List.nil_append] at hm
      rw [← hm]
      exact hv.none_of_break hn (a := v) (m := []) (by decide) (by simp)
    | cons c m =>
      obtain ⟨-, hm⟩ := List.cons.inj hm
      obtain ⟨d, b, rfl⟩ := List.exists_cons_of_ne_nil hb
      have hd : d ∈ ['\n', ' ', ' '] := by rw [hm]; simp
      have hblank : ['\n', ' ', ' '].all Text.isBlank = true := by decide
      exact interfaceHeader_blank hn (List.all_eq_true.1 hblank d hd) _
  · rw [List.append_assoc, List.cons_append]
    exact hv.none_of_break hn (by decide) rfl

omit hn in
theorem closeBrace_body {defaultType : String} (hd : isIdentifier defaultType = true)
    {d : Declaration} (h : d.Plain) (g : List Char) :
    closeBrace .code 1 ((d.body defaultType).toList ++ g) = some ((d.body defaultType).toList, g) := by
  have indent : "  ".toList.all isMark = true := by decide
  have hcolumns := fun c hc => (h.columns c hc).scannable
  have hquiet := Declaration.quiet_properties (f := '\x7d' :: g) (w := "  ".toList)
    (by decide : "  ".toList.all Code.isBlank = true) hcolumns hd rfl
    (by simpa using Quiet.marks (f := '\x7d' :: g) (w := []) indent (.nil _))
  have hlast : closeBrace .code 1 ('\x7d' :: g) = some (['\x7d'], g) := by
    rw [closeBrace.eq_def]
    rfl
  have hbody : (d.body defaultType).toList =
      ((String.intercalate "\n" (d.columns.map (Declaration.property defaultType "  "))).toList ++
        '\n' :: "  ".toList) ++ ['\x7d'] := by
    rw [Declaration.body, String.toList_append, List.append_assoc]
    rfl
  rw [hbody, List.append_assoc]
  exact closeBrace_quiet hquiet Nat.one_pos hlast

omit hn in
/-- What is read under the name of a declaration ends where the declaration does. Where it begins
depends on its comment. -/
theorem interface?_behind {defaultType : String} (hd : isIdentifier defaultType = true)
    {d : Declaration} (h : d.Plain)
    (hqueries : ∀ q ∈ d.queries, Headerless (afterInterfaceHeader d.name) (queryDoc q.sql).toList)
    {v : List Char} (hv : Headerless (afterInterfaceHeader d.name) v) (g : List Char) :
    interface? (v ++ '\n' :: ((d.render defaultType "  ").toList ++ g)) d.name =
      some ((v ++ '\n' :: (d.render defaultType "  ").toList).drop
        (unrelated (v ++ ("\n  ".toList ++ ("/**".toList ++ (d.commentInside.toList ++
          "*/\n  ".toList))))).length) := by
  have hl := local_interfaceHeader h.name
  have hopening := (headerless_of_not_mem hl (w := ['*']) (by decide)).append_cons hl (c := '*')
    (by decide) (Declaration.headerless_commentInside h.name hqueries)
  have hcomment := ((hv.append_of_not_mem hl (w := "\n  ".toList) (by decide)).append_cons hl
    (c := '/') (by decide) hopening).append_of_not_mem hl (w := ['*']) (by decide)
  have hfind := findHeader_interfaceLine h.name hcomment ((d.body defaultType).toList ++ g)
  have hfound : findBraced (afterInterfaceHeader d.name)
      (v ++ '\n' :: ((d.render defaultType "  ").toList ++ g)) =
      some ⟨v ++ ("\n  ".toList ++ ("/**".toList ++ (d.commentInside.toList ++ "*/\n  ".toList))),
        (interfaceLine d.name).toList ++ '\x7b' :: (d.body defaultType).toList, g⟩ := by
    have htext : v ++ '\n' :: ((d.render defaultType "  ").toList ++ g) =
        v ++ "\n  ".toList ++ '/' :: (['*'] ++ '*' :: d.commentInside.toList) ++ ['*'] ++
          '/' :: '\n' :: ' ' :: ' ' :: ((interfaceLine d.name).toList ++
            '\x7b' :: ((d.body defaultType).toList ++ g)) := by
      rw [Declaration.render_toList]
      simp
    rw [findBraced, htext, hfind]
    simp [closeBrace_body hd h]
  have hsplit : v ++ ("\n  ".toList ++ ("/**".toList ++ (d.commentInside.toList ++
      "*/\n  ".toList))) ++ ((interfaceLine d.name).toList ++
        '\x7b' :: (d.body defaultType).toList) =
      v ++ '\n' :: (d.render defaultType "  ").toList := by
    rw [Declaration.render_toList]
    simp
  simp only [interface?, hfound, Option.bind_eq_bind, Option.bind_some, hsplit]
  rfl

omit hn in
theorem interface?_render {defaultType : String} (hd : isIdentifier defaultType = true)
    {d : Declaration} (h : d.Plain) (hneutral : d.Neutral defaultType) {v : List Char}
    (hv : Headerless (afterInterfaceHeader d.name) v) (g : List Char) :
    interface? (v ++ '\n' :: ((d.render defaultType "  ").toList ++ g)) d.name =
      some (d.render defaultType "  ").toList := by
  have hqueries := (hneutral.silent h.name).queries
  have hopens := Declaration.commentInside_opens fun q hq => (hneutral.queries q hq).comment
  obtain ⟨w, hw⟩ := d.commentInside_end
  have hunrelated := unrelated_append v "\n  ".toList fun hm =>
    hopens (hw ▸ hm.trans (List.prefix_append ..).isInfix)
  have hline : lastLine (v ++ "\n  ".toList) = (v ++ ['\n'], "  ".toList) :=
    lastLine_append (by decide)
  rw [hline] at hunrelated
  have hcomment : "\n  ".toList ++ ("/**".toList ++ (d.commentInside.toList ++ "*/\n  ".toList)) =
      "\n  ".toList ++ '/' :: '*' :: '*' :: (w ++ ' ' :: '*' :: '/' :: '\n' :: [' ', ' ']) := by
    rw [hw]
    simp
  have hsplit : v ++ '\n' :: (d.render defaultType "  ").toList =
      (v ++ ['\n']) ++ (d.render defaultType "  ").toList := by simp
  rw [interface?_behind hd h hqueries hv g, hcomment, hunrelated, hsplit, List.drop_left]

theorem interface?_ofTexts {es : List (String × String)} (h : ∀ e ∈ es, Declares e) :
    interface? (ofTexts (es.map Prod.snd)).toList name = (es.lookup name).map String.toList := by
  have hofTexts : (ofTexts (es.map Prod.snd)).toList =
      beginning.toList ++ ((entries (es.map Prod.snd)).toList ++ ['\x7d']) := by
    rw [ofTexts, String.toList_append, String.toList_append, List.append_assoc]
    rfl
  rw [hofTexts]
  cases hlookup : es.lookup name with
  | none =>
    have hne : ∀ e ∈ es, e.1 ≠ name := by
      intro e he hname
      have := List.lookup_eq_none_iff.1 hlookup e he
      simp [hname] at this
    have hnone := (headerless_declared hn h hne (headerless_beginning hn)).append_of_not_mem
      (local_interfaceHeader hn) (w := ['\x7d']) (by decide)
    rw [List.append_assoc] at hnone
    simp [interface?, findBraced, findHeader_eq_none hnone]
  | some text =>
    obtain ⟨es₁, es₂, rfl, hfirst⟩ := List.lookup_eq_some_iff.1 hlookup
    have hne : ∀ e ∈ es₁, e.1 ≠ name := by
      intro e he hname
      have := hfirst e he
      simp [hname] at this
    obtain ⟨defaultType, d, hd, hplain, hneutral, he⟩ := h (name, text) (by simp)
    obtain ⟨rfl, rfl⟩ := Prod.mk.inj he
    have := interface?_render hd hplain hneutral (headerless_declared hn
      (fun e he => h e (List.mem_append_left _ he)) hne (headerless_beginning hn))
      ('\n' :: ((entries (es₂.map Prod.snd)).toList ++ ['\x7d']))
    rw [List.map_append, List.map_cons, entries_toList_append, entries_toList_cons, Option.map_some,
      ← this]
    simp only [List.append_assoc, List.cons_append]

end Find

end RowTypes.Block
