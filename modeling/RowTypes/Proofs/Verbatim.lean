import Mathlib.Data.List.Infix
import RowTypes.Proofs.Members

/-! A declaration read back from a block. It ends where it ends in the block, but its comment may
be cut: the comment is taken from the line of the last opening of one, which may stand in one of
the queries that it quotes. -/

namespace RowTypes.Block

def opening : List Char := ['/', '*', '*']

theorem exists_last_infix {mark cs : List Char} (hmark : mark ≠ []) (h : mark <:+: cs) :
    ∃ a b, cs = a ++ (mark ++ b) ∧ ¬mark <:+: b := by
  induction cs with
  | nil => exact absurd (List.infix_nil.1 h) hmark
  | cons c cs ih =>
    by_cases hcs : mark <:+: cs
    · obtain ⟨a, b, rfl, hb⟩ := ih hcs
      exact ⟨c :: a, b, rfl, hb⟩
    · obtain ⟨b, hb⟩ := (List.infix_cons_iff.1 h).resolve_right hcs
      obtain ⟨d, mark, rfl⟩ := List.exists_cons_of_ne_nil hmark
      obtain ⟨rfl, rfl⟩ := List.cons.inj hb
      exact ⟨[], b, rfl, fun hm => hcs (hm.trans (List.suffix_append ..).isInfix)⟩

theorem opening_split {w m t : List Char} (h : opening ++ w = m ++ (opening ++ t)) :
    m = [] ∧ w = t ∨ ∃ m', m = opening ++ m' ∧ w = m' ++ (opening ++ t) := by
  rcases m with _ | ⟨a, _ | ⟨b, _ | ⟨c, m⟩⟩⟩ <;>
    simp only [opening, List.cons_append, List.nil_append, List.cons.injEq] at h
  · exact .inl ⟨rfl, h.2.2.2⟩
  · exact absurd h.2.1 (by decide)
  · exact absurd h.2.2.1 (by decide)
  · obtain ⟨rfl, rfl, rfl, rfl⟩ := h
    exact .inr ⟨m, rfl, rfl⟩

end RowTypes.Block

namespace RowTypes.Declaration
open Block

variable {d : Declaration}

theorem lineFeed_not_mem_commentInside (h : d.queries.length = 1) :
    '\n' ∉ d.commentInside.toList := by
  obtain ⟨q, hq⟩ := List.length_eq_one_iff.1 h
  have hdoc := lineFeed_not_mem_queryDoc q.sql
  simp [commentInside, hq, hdoc]

theorem commentInside_several (h : d.queries.length ≠ 1) :
    (∃ u, d.commentInside.toList = '\n' :: u) ∧
      ∀ q ∈ d.queries, (queryDoc q.sql).toList <:+: d.commentInside.toList := by
  have hmany : d.commentInside = "\n   * queries:\n" ++
      String.join ((d.queries.map fun q => queryDoc q.sql).map commentItem) ++ "   " := by
    rw [commentInside]
    split
    · rename_i single hsingle
      have := congrArg List.length hsingle
      rw [List.length_map] at this
      exact absurd this h
    · rfl
  rw [hmany]
  refine ⟨⟨_, by simp; rfl⟩, fun q hq => ?_⟩
  obtain ⟨before, after, hsplit⟩ := List.append_of_mem hq
  refine ⟨("\n   * queries:\n" ++ String.join ((before.map fun q => queryDoc q.sql).map commentItem) ++
      "   * - \x60").toList, ("\x60\n" ++
      String.join ((after.map fun q => queryDoc q.sql).map commentItem) ++ "   ").toList, ?_⟩
  simp [hsplit, commentItem]

theorem lineFeed_not_mem_iff {w m t : List Char} (hw : d.commentInside.toList = w ++ [' '])
    (hsplit : opening ++ w = m ++ (opening ++ t)) (ht : ¬opening <:+: t) :
    '\n' ∉ m ↔ d.queries.length = 1 ∨ ∀ q ∈ d.queries, ¬opening <:+: (queryDoc q.sql).toList := by
  rcases opening_split hsplit with ⟨rfl, rfl⟩ | ⟨m, rfl, hm⟩
  · refine iff_of_true (by simp) ?_
    by_contra hcut
    simp only [not_or, not_forall, not_not] at hcut
    obtain ⟨hlength, q, hq, hopens⟩ := hcut
    have hinside := hopens.trans ((commentInside_several hlength).2 q hq)
    rw [hw] at hinside
    exact not_infix_append_cons (by decide) ht (by decide) hinside
  · have hinside : opening <:+: d.commentInside.toList := by
      rw [hw, hm]
      exact ⟨m, t ++ [' '], by simp⟩
    constructor
    · intro hline
      by_contra hcut
      obtain ⟨u, hu⟩ := (commentInside_several (not_or.1 hcut).1).1
      rw [hw, hm] at hu
      -- a comment on several queries begins with a line feed, which is no opening
      cases m with
      | nil => exact absurd (List.cons.inj hu).1 (by decide)
      | cons c m => exact hline (by simp [(List.cons.inj hu).1])
    · rintro (hlength | hdocs) hline
      · refine lineFeed_not_mem_commentInside hlength ?_
        rw [hw, hm]
        rcases List.mem_append.1 hline with h | h
        · exact absurd h (by decide)
        · simp [h]
      · exact commentInside_opens hdocs hinside

end RowTypes.Declaration

namespace RowTypes.Block
open Declaration

theorem exists_unrelated (d : Declaration) (v : List Char) : ∃ lost,
    lost <+: (d.queriesDoc "  ").toList ∧
    unrelated (v ++ ("\n  ".toList ++ ("/**".toList ++ (d.commentInside.toList ++
      "*/\n  ".toList)))) = v ++ '\n' :: lost ∧
    (lost = [] ↔
      d.queries.length = 1 ∨ ∀ q ∈ d.queries, ¬opening <:+: (queryDoc q.sql).toList) := by
  obtain ⟨w, hw⟩ := d.commentInside_end
  obtain ⟨m, t, hsplit, ht⟩ := exists_last_infix (by decide)
    (List.prefix_append opening w).isInfix
  have hunrelated := unrelated_append v ("\n  ".toList ++ m) ht
  have hsplit' : ∀ x, opening ++ (w ++ x) = m ++ (opening ++ (t ++ x)) := by
    intro x
    rw [← List.append_assoc, hsplit, List.append_assoc, List.append_assoc]
  have hcomment : "\n  ".toList ++ ("/**".toList ++ (d.commentInside.toList ++ "*/\n  ".toList)) =
      "\n  ".toList ++ m ++ '/' :: '*' :: '*' :: (t ++ ' ' :: '*' :: '/' :: '\n' :: [' ', ' ']) := by
    have := hsplit' (' ' :: "*/\n  ".toList)
    rw [hw, List.append_assoc, List.append_assoc]
    exact congrArg ("\n  ".toList ++ ·) this
  have hdoc : (d.queriesDoc "  ").toList =
      "  ".toList ++ (m ++ (opening ++ (t ++ " */\n".toList))) := by
    rw [queriesDoc_eq, ← hsplit']
    simp [hw, opening]
  rw [hcomment, hunrelated, ← lineFeed_not_mem_iff hw hsplit ht]
  by_cases hm : '\n' ∈ m
  · obtain ⟨m₁, m₂, rfl, hnot⟩ := exists_last_infix (by simp)
      ((List.singleton_infix_iff '\n' m).2 hm)
    refine ⟨' ' :: ' ' :: (m₁ ++ ['\n']), ?_, ?_, iff_of_false (by simp) (fun h => h hm)⟩
    · rw [hdoc]
      exact ⟨m₂ ++ (opening ++ (t ++ " */\n".toList)), by simp⟩
    · have hlast : lastLine (v ++ "\n  ".toList ++ m₁ ++ '\n' :: m₂) =
          (v ++ "\n  ".toList ++ m₁ ++ ['\n'], m₂) :=
        lastLine_append fun h => hnot ((List.singleton_infix_iff _ _).2 h)
      have htext : v ++ ("\n  ".toList ++ (m₁ ++ (['\n'] ++ m₂))) =
          v ++ "\n  ".toList ++ m₁ ++ '\n' :: m₂ := by simp
      rw [htext, hlast]
      simp
  · refine ⟨[], List.nil_prefix, ?_, iff_of_true rfl hm⟩
    have hline : '\n' ∉ ' ' :: ' ' :: m := by simpa using hm
    exact congrArg Prod.fst (lastLine_append hline)

variable {defaultType : String} {before after : List Declaration} {d : Declaration}

/-- In a block of plain declarations with names of their own, what is read under the name of one is
this declaration, and nothing of its neighbours, if no comment or property in front of its header
reads as that header. It is the whole of it exactly if its comment stands on one line or quotes
no query that opens a comment itself; otherwise lines at the beginning of the comment are lost. -/
theorem interface?_render_iff (hd : isIdentifier defaultType = true)
    (hplain : ∀ e ∈ before ++ d :: after, e.Plain)
    (hnames : ((before ++ d :: after).map Declaration.name).Nodup)
    (hbefore : ∀ e ∈ before, e.Silent defaultType d.name)
    (hqueries : ∀ q ∈ d.queries,
      Headerless (afterInterfaceHeader d.name) (queryDoc q.sql).toList) :
    (interface? (render defaultType (before ++ d :: after)).toList d.name =
        some (d.render defaultType "  ").toList ↔
      d.queries.length = 1 ∨ ∀ q ∈ d.queries, ¬opening <:+: (queryDoc q.sql).toList) ∧
    ∃ lost kept, (d.render defaultType "  ").toList = lost ++ kept ∧
      lost <+: (d.queriesDoc "  ").toList ∧
      interface? (render defaultType (before ++ d :: after)).toList d.name = some kept := by
  have hself : d.Plain := hplain d (by simp)
  have hn := hself.name
  let texts := before.map (Declaration.render defaultType "  ")
  have hheaderless : Headerless (afterInterfaceHeader d.name)
      (beginning.toList ++ (entries texts).toList) := by
    refine headerless_entries hn (fun t ht => ?_) (headerless_beginning hn)
    obtain ⟨e, he, rfl⟩ := List.mem_map.1 ht
    have hne : e.name ≠ d.name := by
      rw [List.map_append, List.map_cons] at hnames
      exact (List.nodup_append.1 hnames).2.2 _ (List.mem_map_of_mem he) _ List.mem_cons_self
    exact ⟨defaultType, e, (hplain e (List.mem_append_left _ he)).name, hne, hbefore e he, rfl⟩
  obtain ⟨lost, ⟨rest, hrest⟩, hunrelated, hwhole⟩ := exists_unrelated d
    (beginning.toList ++ (entries texts).toList)
  obtain ⟨tail, htail⟩ : ∃ tail, (d.render defaultType "  ").toList =
      (d.queriesDoc "  ").toList ++ tail := by
    rw [Declaration.render]
    simp only [String.append_assoc, String.toList_append]
    exact ⟨_, rfl⟩
  have hkept : (d.render defaultType "  ").toList = lost ++ (rest ++ tail) := by
    rw [htail, ← hrest, List.append_assoc]
  have hblock : (render defaultType (before ++ d :: after)).toList =
      (beginning.toList ++ (entries texts).toList) ++ '\n' ::
        ((d.render defaultType "  ").toList ++ '\n' ::
          ((entries (after.map (Declaration.render defaultType "  "))).toList ++ ['\x7d'])) := by
    rw [render, ofTexts, List.map_append, List.map_cons, String.toList_append, String.toList_append,
      entries_toList_append, entries_toList_cons]
    simp [texts]
  have hread : interface? (render defaultType (before ++ d :: after)).toList d.name =
      some (rest ++ tail) := by
    have hcut : (beginning.toList ++ (entries texts).toList) ++ '\n' :: (lost ++ (rest ++ tail)) =
        ((beginning.toList ++ (entries texts).toList) ++ '\n' :: lost) ++ (rest ++ tail) := by
      simp
    rw [hblock, interface?_behind hd hself hqueries hheaderless, hunrelated, hkept, hcut,
      List.drop_left]
  refine ⟨?_, lost, rest ++ tail, hkept, ⟨rest, hrest⟩, hread⟩
  rw [hread, ← hwhole, hkept]
  simp

def quoting (name : String) (sqls : List String) : Declaration where
  name := name
  shape := []
  columns := []
  params := []
  queries := sqls.map fun sql => ⟨"a.ts", ⟨0, 0⟩, 1, sql, none, 0, .sqlFile, 0⟩

theorem quoting_plain {name : String} (h : isIdentifier name = true) (sqls : List String) :
    (quoting name sqls).Plain where
  name := h
  columns := nofun

theorem quoting_toList (name : String) (sqls : List String) :
    ((quoting name sqls).render "unknown" "  ").toList =
      "  ".toList ++ '/' :: ("**".toList ++ ((quoting name sqls).commentInside.toList ++
        '*' :: '/' :: ("\n  ".toList ++ ((interfaceLine name).toList ++ "\x7b\n  \x7d".toList)))) := by
  rw [render_toList]
  simp [quoting, body]

theorem interface?_quoting :
    isIdentifier "unknown" = true ∧
    (∀ e ∈ [quoting "A_2" ["select b"]] ++ quoting "A" ["select a", "select /* a */ a"] :: [],
      e.Plain) ∧
    interface? (render "unknown" ([quoting "A_2" ["select b"]] ++
        quoting "A" ["select a", "select /* a */ a"] :: [])).toList "A" =
      some ((quoting "A" ["select a", "select /* a */ a"]).render "unknown" "  ").toList := by
  have hd : isIdentifier "unknown" = true := by decide
  have hplain : ∀ e ∈ [quoting "A_2" ["select b"]] ++
      quoting "A" ["select a", "select /* a */ a"] :: [], e.Plain := by
    intro e he
    rcases List.mem_pair.1 he with rfl | rfl
    · exact quoting_plain (by decide) _
    · exact quoting_plain (by decide) _
  have hsilent : ∀ e ∈ [quoting "A_2" ["select b"]], e.Silent "unknown" "A" := by
    rw [List.forall_mem_singleton]
    refine ⟨?_, nofun⟩
    simp only [quoting, List.map_cons, List.map_nil, List.forall_mem_singleton]
    exact headerless_of_not_mem (local_interfaceHeader (by decide)) (by decide +kernel)
  have hqueries : ∀ q ∈ (quoting "A" ["select a", "select /* a */ a"]).queries,
      Headerless (afterInterfaceHeader "A") (queryDoc q.sql).toList := by
    simp only [quoting, List.map_cons, List.map_nil, List.forall_mem_cons]
    exact ⟨headerless_of_not_mem (local_interfaceHeader (by decide)) (by decide +kernel),
      headerless_of_not_mem (local_interfaceHeader (by decide)) (by decide +kernel), nofun⟩
  refine ⟨hd, hplain, (interface?_render_iff hd hplain (by decide) hsilent hqueries).1.2 (.inr ?_)⟩
  simp only [quoting, List.map_cons, List.map_nil, List.forall_mem_cons]
  exact ⟨by decide +kernel, by decide +kernel, nofun⟩

/-- Lines are lost where one of several queries opens a comment itself, and the wrong place is read
where a query in front quotes the header. -/
theorem interface?_quoting_misread :
    isIdentifier "unknown" = true ∧ (∀ name ∈ ["A", "B"], ∀ sqls, (quoting name sqls).Plain) ∧
    interface? (render "unknown" [quoting "A" ["select a", "select /** a */ a"]]).toList "A" ≠
      some ((quoting "A" ["select a", "select /** a */ a"]).render "unknown" "  ").toList ∧
    interface? (render "unknown" [quoting "B" ["select 'export interface A \x7b'"],
        quoting "A" ["select a"]]).toList "A" ≠
      some ((quoting "A" ["select a"]).render "unknown" "  ").toList := by
  refine ⟨by decide, fun name hname sqls => quoting_plain ?_ sqls, ?_, ?_⟩
  · revert name
    decide
  -- the texts are taken apart, as long ones are slow to evaluate
  · rw [render, toList_ofTexts, List.map_singleton, List.flatMap_singleton, quoting_toList]
    repeat rw [String.toList_ofList]
    decide +kernel
  · rw [render, toList_ofTexts, List.map_cons, List.map_singleton, List.flatMap_cons,
      List.flatMap_singleton, quoting_toList, quoting_toList]
    repeat rw [String.toList_ofList]
    decide +kernel

end RowTypes.Block
