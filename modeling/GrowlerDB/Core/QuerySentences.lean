import GrowlerDB.Core.QueryParse

namespace GrowlerDB.Core
open Lib List Option Spanned Tree Nat

variable {std : TextStd}

variable {q : Query}

section

variable {field : Option String} {core rest : List Char}

lemma phraseSlop_pos (suffix : List Char) (i j : Nat) :
    (phraseSlop suffix i).toOption = (phraseSlop suffix j).toOption := by
  unfold phraseSlop
  split
  · rfl
  · split <;> rfl
  · rfl

lemma phraseNode_pos (i j : Nat) : (phraseNode field rest i).toOption = (phraseNode field rest j).toOption := by
  unfold phraseNode
  split
  · rfl
  · rename_i inner suffix _
    have hslop := phraseSlop_pos suffix i j
    unfold phraseOf
    -- the position only gets into the error
    cases hi : phraseSlop suffix i <;> cases hj : phraseSlop suffix j <;> rw [hi, hj] at hslop <;> cases hslop
    · rfl
    · dsimp only
      split_ifs <;> rfl

lemma rangeNode_pos (i j : Nat) : (rangeNode field core i).toOption = (rangeNode field core j).toOption := by
  unfold rangeNode
  split
  · rfl
  · split_ifs
    · rfl
    · split <;> rfl

lemma wordNode_pos (i j : Nat) : (wordNode field core i).toOption = (wordNode field core j).toOption := by
  unfold wordNode
  split
  · unfold fuzzyOf
    split
    · rfl
    · split_ifs <;> rfl
  · rfl

def otherNode (std : TextStd) (field : Option String) (core : List Char) (pos : Nat) : Except ParseError Query :=
  if 2 ≤ core.length ∧ core.head? = some '/' ∧ core.getLast? = some '/' then
    .ok (.regex field (String.ofList core.tail.dropLast))
  else match field with
    | some f => if isCidr std core then .ok (.ipCidr f (String.ofList core)) else wordNode field core pos
    | none => wordNode field core pos

lemma valueNode_other (hall : ¬ (field = none ∧ (core = "*".toList ∨ core = "*:*".toList)))
    (hphrase : ∀ rest, core ≠ '\x22' :: rest) (hclosed : ∀ rest, core ≠ '[' :: rest)
    (hopen : ∀ rest, core ≠ '\x7b' :: rest) : valueNode std field core pos = otherNode std field core pos := by
  unfold valueNode
  rw [if_neg hall]
  split
  · exact absurd rfl (hphrase _)
  · exact absurd rfl (hclosed _)
  · exact absurd rfl (hopen _)
  · rfl

lemma valueNode_pos (i j : Nat) :
    (valueNode std field core i).toOption = (valueNode std field core j).toOption := by
  by_cases hall : field = none ∧ (core = "*".toList ∨ core = "*:*".toList)
  · unfold valueNode
    rw [if_pos hall, if_pos hall]
  · by_cases hother : (∃ rest, core = '\x22' :: rest) ∨ (∃ rest, core = '[' :: rest) ∨ ∃ rest, core = '\x7b' :: rest
    · unfold valueNode
      rw [if_neg hall, if_neg hall]
      rcases hother with ⟨rest, rfl⟩ | ⟨rest, rfl⟩ | ⟨rest, rfl⟩
      · exact phraseNode_pos i j
      · exact rangeNode_pos i j
      · exact rangeNode_pos i j
    · simp only [not_or, not_exists] at hother
      rw [valueNode_other hall hother.1 hother.2.1 hother.2.2, valueNode_other hall hother.1 hother.2.1 hother.2.2]
      unfold otherNode
      cases field with
      | none =>
        dsimp only
        split_ifs
        · rfl
        · exact wordNode_pos i j
      | some f =>
        dsimp only
        split_ifs
        · rfl
        · rfl
        · exact wordNode_pos i j

lemma atomToQuery_pos (word : List Char) (i : Nat) : (atomToQuery std word i).toOption = atomQuery std word := by
  unfold atomQuery atomToQuery
  obtain ⟨field, value⟩ := splitField std word
  dsimp only
  obtain ⟨core, boost⟩ := stripBoost std value
  cases boost with
  | none => exact valueNode_pos i 0
  | some b =>
    dsimp only
    split_ifs
    · rw [toOption_map, toOption_map, valueNode_pos i 0]
    · rfl

lemma atomToQuery_ok {word : List Char} {i : Nat} :
    atomToQuery std word i = .ok q ↔ atomQuery std word = some q := by
  rw [← atomToQuery_pos word i]
  cases atomToQuery std word i <;> simp [Except.toOption]

end

variable {before : List Tok}

section

variable {group : Parse} {w : List Char} {left : List Spanned}

def Tok.opens : Tok → Bool
  | .term _ | .lparen | .not => true
  | .rparen | .and | .or => false

lemma nextClause_of_opens (h : s.tok.opens) : nextClause (s :: left) = some (s :: left) := by
  obtain ⟨tok, start⟩ := s
  cases tok <;> first | rfl | cases h

lemma bindsGroup_of_last {after : List Tok} (h : after.head? ≠ some .lparen) :
    bindsGroup std before after = false := by
  simp [bindsGroup, h]

lemma bindsGroup_of_nextClause (h : nextClause left = none) :
    bindsGroup std before (left.map tok) = false := by
  refine bindsGroup_of_last fun hhead => ?_
  cases left with
  | nil => cases hhead
  | cons s left =>
    have hopens : s.tok.opens := by
      rw [some.inj hhead]
      rfl
    simp [nextClause_of_opens hopens] at h

lemma clauseWith_atom (hw : atomQuery std w = some q)
    (hb : bindsGroup std [.term w] (left.map tok) = false) :
    clauseWith std group (⟨.term w, i⟩ :: left) = .ok (q, left) := by
  unfold clauseWith
  dsimp only
  split
  · rename_i field k inner hfield
    simp [bindsGroup, Tok.field, hfield] at hb
  · rw [atomToQuery_ok.mpr hw]
    rfl

lemma clauseWith_field (hw : fieldPrefix std w = some field) :
    clauseWith std group (⟨.term w, i⟩ :: ⟨.lparen, j⟩ :: left) =
      (group left).map (fun p => (applyFieldPrefix field p.1, p.2)) := by
  rw [clauseWith]
  simp [hw]

lemma parseGroup_closed {clause : Parse} {toks : List Spanned}
    (h : parseOrWith clause toks = .ok (q, ⟨.rparen, i⟩ :: left)) : parseGroup clause toks = .ok (q, left) := by
  rw [parseGroup, h]

end

namespace Tree

lemma toks_opens : {l : Level} → (e : Tree l) → ∃ t ts, e.toks = t :: ts ∧ t.opens
  | _, .atom w => ⟨_, _, rfl, rfl⟩
  | _, .group e => ⟨_, _, rfl, rfl⟩
  | _, .fieldGroup w e => ⟨_, _, rfl, rfl⟩
  | _, .plain c => c.toks_opens
  | _, .not c => ⟨_, _, rfl, rfl⟩
  | _, .single u => u.toks_opens
  | _, .and u written e => by
    obtain ⟨t, ts, hu, ht⟩ := u.toks_opens
    exact ⟨t, _, by rw [toks, hu]; rfl, ht⟩
  | _, .conj a => a.toks_opens
  | _, .or a e => by
    obtain ⟨t, ts, ha, ht⟩ := a.toks_opens
    exact ⟨t, _, by rw [toks, ha]; rfl, ht⟩

lemma takeNot_clause (c : Tree .clause) (h : ss.map tok = c.toks) :
    takeNot (ss ++ left) = (false, ss ++ left) := by
  have hhead : ∀ {t ts}, t ≠ .not → ss.map tok = t :: ts → takeNot (ss ++ left) = (false, ss ++ left) := by
    intro t ts hne hss
    obtain ⟨⟨tok, start⟩, ss, rfl, rfl, -⟩ := map_eq_cons_iff.mp hss
    cases tok <;> first | rfl | exact absurd rfl hne
  cases c with
  | _ => exact hhead (by simp) h

/-- How the parser reads a tree with `d` parentheses still allowed: it reads the tokens of the tree
and stops behind them. -/
def Read (std : TextStd) (d : Nat) : {l : Level} → Tree l → Prop
  | .clause, c => ∀ ss left, ss.map Spanned.tok = c.toks → bindsGroup std c.toks (left.map Spanned.tok) = false →
      ∃ q, c.parts std = ([q], []) ∧ parseClause std d (ss ++ left) = .ok (q, left)
  | .unary, u => ∀ ss left, ss.map Spanned.tok = u.toks → bindsGroup std u.toks (left.map Spanned.tok) = false →
      ∃ q, u.parts std = (if (takeNot (ss ++ left)).1 then ([], [q]) else ([q], [])) ∧
        parseClause std d (takeNot (ss ++ left)).2 = .ok (q, left)
  | .and, e => ∀ ss left n must mustNot, ss.map Spanned.tok = e.toks → nextClause left = none →
      (ss ++ left).length < n → andLoop (parseClause std d) n must mustNot (ss ++ left) =
        .ok (conjunction (must ++ (e.parts std).1) (mustNot ++ (e.parts std).2), left)
  | .or, e => ∀ ss left n shoulds, ss.map Spanned.tok = e.toks → nextClause left = none →
      nextAlternative left = none → (ss ++ left).length < n →
        orLoop (parseAnd (parseClause std d)) n shoulds (ss ++ left) =
          .ok (disjunction (shoulds ++ (e.parts std).1), left)

lemma Read.group {e : Tree .or} (h : e.Read std d) {ss left : List Spanned}
    (hss : ss.map tok = e.toks) :
    parseGroup (parseClause std d) (ss ++ ⟨.rparen, i⟩ :: left) = .ok (disjunction (e.parts std).1, left) :=
  parseGroup_closed (h ss (⟨.rparen, i⟩ :: left) _ [] hss rfl rfl (lt_succ_self _))

/-- The parser reads every well-formed tree that is not too deep. -/
lemma read : {l : Level} → (e : Tree l) → {d : Nat} → e.WellFormed std → e.depth ≤ d → e.Read std d
  | _, .atom w, d, hwf, _ => by
    intro ss left hss hb
    obtain ⟨q, hq⟩ := isSome_iff_exists.mp hwf
    obtain ⟨⟨_, i⟩, _, rfl, rfl, hnil⟩ := map_eq_cons_iff.mp hss
    obtain rfl := map_eq_nil_iff.mp hnil
    refine ⟨q, by rw [parts, hq]; rfl, ?_⟩
    cases d with
    | _ => exact clauseWith_atom hq hb
  | _, .group e, d, hwf, hd => by
    intro ss left hss _
    obtain ⟨d, rfl⟩ : ∃ k, d = k + 1 := ⟨d - 1, by simp only [depth] at hd; omega⟩
    have he := e.read hwf (le_of_succ_le_succ hd)
    obtain ⟨⟨_, i⟩, inner, rfl, rfl, hinner⟩ := map_eq_cons_iff.mp hss
    obtain ⟨se, close, rfl, hse, hclose⟩ := map_eq_append_iff.mp hinner
    obtain ⟨⟨_, k⟩, _, rfl, rfl, hnil⟩ := map_eq_cons_iff.mp hclose
    obtain rfl := map_eq_nil_iff.mp hnil
    refine ⟨_, rfl, ?_⟩
    rw [cons_append, append_assoc]
    exact he.group hse
  | _, .fieldGroup w e, d, hwf, hd => by
    intro ss left hss _
    obtain ⟨d, rfl⟩ : ∃ k, d = k + 1 := ⟨d - 1, by simp only [depth] at hd; omega⟩
    have he := e.read hwf.2 (le_of_succ_le_succ hd)
    obtain ⟨field, hfield⟩ := isSome_iff_exists.mp hwf.1
    obtain ⟨⟨_, i⟩, tail, rfl, rfl, htail⟩ := map_eq_cons_iff.mp hss
    obtain ⟨⟨_, j⟩, inner, rfl, rfl, hinner⟩ := map_eq_cons_iff.mp htail
    obtain ⟨se, close, rfl, hse, hclose⟩ := map_eq_append_iff.mp hinner
    obtain ⟨⟨_, k⟩, _, rfl, rfl, hnil⟩ := map_eq_cons_iff.mp hclose
    obtain rfl := map_eq_nil_iff.mp hnil
    refine ⟨_, by rw [parts, hfield, getD_some], ?_⟩
    rw [cons_append, cons_append, append_assoc, parseClause]
    exact (clauseWith_field hfield).trans (congrArg _ (he.group hse))
  | _, .plain c, d, hwf, hd => by
    intro ss left hss hb
    obtain ⟨q, hq, hparse⟩ := c.read hwf hd ss left hss hb
    rw [c.takeNot_clause hss]
    exact ⟨q, hq, hparse⟩
  | _, .not c, d, hwf, hd => by
    intro ss left hss hb
    obtain ⟨⟨_, i⟩, sc, rfl, rfl, hsc⟩ := map_eq_cons_iff.mp hss
    obtain ⟨t, ts, hc, -⟩ := c.toks_opens
    have hb : bindsGroup std c.toks (left.map tok) = false := by
      rw [toks, hc] at hb
      rwa [hc]
    obtain ⟨q, hq, hparse⟩ := c.read hwf hd sc left hsc hb
    exact ⟨q, by rw [parts, hq]; rfl, hparse⟩
  | _, .single u, d, hwf, hd => by
    intro ss left n must mustNot hss hlast hn
    obtain ⟨q, hq, hparse⟩ := u.read hwf hd ss left hss (bindsGroup_of_nextClause hlast)
    obtain ⟨n, rfl⟩ : ∃ k, n = k + 1 := ⟨n - 1, by omega⟩
    rw [andLoop_last hparse hlast, parts, hq]
    split_ifs <;> simp
  | _, .and u written e, d, hwf, hd => by
    intro ss left n must mustNot hss hlast hn
    obtain ⟨hwu, hwe, hbinds⟩ := hwf
    obtain ⟨hdu, hde⟩ := max_le_iff.mp hd
    obtain ⟨su, ss, rfl, hsu, hss⟩ := map_eq_append_iff.mp hss
    obtain ⟨sep, se, rfl, hsep, hse⟩ := map_eq_append_iff.mp hss
    obtain ⟨t, ts, htoks, hopens⟩ := e.toks_opens
    have hnext : nextClause (sep ++ (se ++ left)) = some (se ++ left) ∧
        bindsGroup std u.toks ((sep ++ (se ++ left)).map tok) = false := by
      cases written with
      | true =>
        obtain ⟨⟨_, k⟩, _, rfl, rfl, hnil⟩ := map_eq_cons_iff.mp hsep
        obtain rfl := map_eq_nil_iff.mp hnil
        exact ⟨rfl, bindsGroup_of_last (by simp)⟩
      | false =>
        obtain rfl := map_eq_nil_iff.mp hsep
        obtain ⟨s, se, rfl, rfl, -⟩ := map_eq_cons_iff.mp (hse.trans htoks)
        refine ⟨nextClause_of_opens hopens, ?_⟩
        have := hbinds rfl
        rwa [← hse] at this
    have hassoc : su ++ (sep ++ se) ++ left = su ++ (sep ++ (se ++ left)) := by simp
    rw [hassoc] at hn ⊢
    obtain ⟨q, hq, hparse⟩ := u.read hwu hdu su _ hsu hnext.2
    obtain ⟨n, rfl⟩ : ∃ k, n = k + 1 := ⟨n - 1, by omega⟩
    rw [andLoop_more hparse hnext.1]
    have hlen : (se ++ left).length < n := by
      have hne : su ≠ [] := by
        rintro rfl
        obtain ⟨t, ts, hu, -⟩ := u.toks_opens
        cases hsu.trans hu
      have := length_pos_of_ne_nil hne
      simp only [length_append] at hn ⊢
      omega
    rw [e.read hwe hde se left n _ _ hse hlast hlen, parts, hq]
    split_ifs <;> simp
  | _, .conj a, d, hwf, hd => by
    intro ss left n shoulds hss hlast hend hn
    obtain ⟨n, rfl⟩ : ∃ k, n = k + 1 := ⟨n - 1, by omega⟩
    exact orLoop_last (a.read hwf hd ss left _ [] [] hss hlast (lt_succ_self _)) hend
  | _, .or a e, d, hwf, hd => by
    intro ss left n shoulds hss hlast hend hn
    obtain ⟨hda, hde⟩ := max_le_iff.mp hd
    obtain ⟨sa, ss, rfl, hsa, hss⟩ := map_eq_append_iff.mp hss
    obtain ⟨⟨_, k⟩, se, rfl, rfl, hse⟩ := map_eq_cons_iff.mp hss
    rw [append_assoc, cons_append] at hn ⊢
    obtain ⟨n, rfl⟩ : ∃ k, n = k + 1 := ⟨n - 1, by omega⟩
    have ha : parseAnd (parseClause std d) (sa ++ ⟨.or, k⟩ :: (se ++ left)) = _ :=
      a.read hwf.1 hda sa _ _ [] [] hsa rfl (lt_succ_self _)
    rw [orLoop_more ha rfl]
    have hlen : (se ++ left).length < n := by
      simp only [length_append, length_cons] at hn ⊢
      omega
    rw [e.read hwf.2 hde se left n _ hse hlast hend hlen, parts, append_assoc]
    rfl

end Tree

section

variable {clause : Parse} {d n : Nat} {toks left : List Spanned}

structure Found (std : TextStd) (d : Nat) (toks left : List Spanned) {l : Level} (e : Tree l) : Prop where
  wellFormed : e.WellFormed std
  depth_le : e.depth ≤ d
  toks_eq : toks.map Spanned.tok = e.toks ++ left.map Spanned.tok

def Finds (std : TextStd) (d : Nat) (clause : Parse) : Prop :=
  ∀ {toks q left}, clause toks = .ok (q, left) → ∃ c : Tree .clause, Found std d toks left c ∧
    c.parts std = ([q], []) ∧ bindsGroup std c.toks (left.map Spanned.tok) = false

lemma nextClause_cases {next : List Spanned} (h : nextClause left = some next) :
    (∃ i, left = ⟨.and, i⟩ :: next) ∨ left = next := by
  unfold nextClause at h
  split at h
  · cases h
    exact .inl ⟨_, rfl⟩
  · exact .inr (some.inj h)
  · exact .inr (some.inj h)
  · exact .inr (some.inj h)
  · cases h

section

variable (h : Finds std d clause)
include h

lemma Finds.unary (hq : clause (takeNot toks).2 = .ok (q, left)) :
    ∃ u : Tree .unary, Found std d toks left u ∧ u.parts std = (if (takeNot toks).1 then ([], [q]) else ([q], [])) ∧
      bindsGroup std u.toks (left.map tok) = false := by
  obtain ⟨c, ⟨hwf, hd, htoks⟩, hparts, hb⟩ := h hq
  by_cases hnot : ∃ i rest, toks = ⟨.not, i⟩ :: rest
  · obtain ⟨i, rest, rfl⟩ := hnot
    refine ⟨.not c, ⟨hwf, hd, congrArg (Tok.not :: ·) htoks⟩, ?_, ?_⟩
    · rw [parts, hparts]
      rfl
    · obtain ⟨t, ts, hc, -⟩ := c.toks_opens
      rw [hc] at hb
      rwa [toks, hc]
  · have htake : takeNot toks = (false, toks) := by
      unfold takeNot
      split
      · exact absurd ⟨_, _, rfl⟩ hnot
      · rfl
    rw [htake] at htoks ⊢
    exact ⟨.plain c, ⟨hwf, hd, htoks⟩, hparts, hb⟩

lemma Finds.andLoop (hok : andLoop clause n must mustNot toks = .ok (q, left)) :
    ∃ e : Tree .and, Found std d toks left e ∧ nextClause left = none ∧
      q = conjunction (must ++ (e.parts std).1) (mustNot ++ (e.parts std).2) := by
  induction n generalizing toks must mustNot with
  | zero => cases hok
  | succ n ih =>
    cases hq : clause (takeNot toks).2 with
    | error e => simp [Core.andLoop, hq] at hok
    | ok p =>
      obtain ⟨c, rest⟩ := p
      obtain ⟨u, ⟨hwf, hd, htoks⟩, hparts, hb⟩ := h.unary hq
      cases hnext : nextClause rest with
      | none =>
        rw [andLoop_last hq hnext] at hok
        cases hok
        refine ⟨.single u, ⟨hwf, hd, htoks⟩, hnext, ?_⟩
        rw [Tree.parts, hparts]
        split_ifs <;> simp
      | some next =>
        rw [andLoop_more hq hnext] at hok
        obtain ⟨e, ⟨hwe, hde, htoks'⟩, hlast, rfl⟩ := ih hok
        obtain ⟨t, ts, he, -⟩ := e.toks_opens
        rcases nextClause_cases hnext with ⟨i, rfl⟩ | rfl
        · refine ⟨.and u true e, ⟨⟨hwf, hwe, fun hw => by cases hw⟩, max_le hd hde, ?_⟩, hlast, ?_⟩
          · rw [htoks, map_cons, htoks', Tree.toks]
            simp
          · rw [Tree.parts, hparts]
            split_ifs <;> simp
        · refine ⟨.and u false e, ⟨⟨hwf, hwe, fun _ => ?_⟩, max_le hd hde, ?_⟩, hlast, ?_⟩
          · rw [htoks', he] at hb
            rwa [he]
          · rw [htoks, htoks', Tree.toks]
            simp
          · rw [Tree.parts, hparts]
            split_ifs <;> simp

lemma Finds.orLoop (hok : orLoop (parseAnd clause) n shoulds toks = .ok (q, left)) :
    ∃ e : Tree .or, Found std d toks left e ∧ q = disjunction (shoulds ++ (e.parts std).1) := by
  induction n generalizing toks shoulds with
  | zero => cases hok
  | succ n ih =>
    cases hq : parseAnd clause toks with
    | error e => simp [Core.orLoop, hq] at hok
    | ok p =>
      obtain ⟨c, rest⟩ := p
      obtain ⟨a, ⟨hwf, hd, htoks⟩, -, rfl⟩ := h.andLoop hq
      cases hnext : nextAlternative rest with
      | none =>
        rw [orLoop_last hq hnext] at hok
        cases hok
        exact ⟨.conj a, ⟨hwf, hd, htoks⟩, rfl⟩
      | some next =>
        rw [orLoop_more hq hnext] at hok
        obtain ⟨e, ⟨hwe, hde, htoks'⟩, rfl⟩ := ih hok
        have hor : ∃ i, rest = ⟨.or, i⟩ :: next := by
          unfold nextAlternative at hnext
          split at hnext
          · cases hnext
            exact ⟨_, rfl⟩
          · cases hnext
        obtain ⟨i, rfl⟩ := hor
        refine ⟨.or a e, ⟨⟨hwf, hwe⟩, max_le hd hde, ?_⟩, ?_⟩
        · rw [htoks, map_cons, htoks', Tree.toks]
          simp
        · rw [Tree.parts, append_assoc]
          rfl

lemma Finds.group (hok : parseGroup clause toks = .ok (q, left)) :
    ∃ e : Tree .or, ∃ i, Found std d toks (⟨.rparen, i⟩ :: left) e ∧ q = disjunction (e.parts std).1 := by
  unfold parseGroup at hok
  split at hok
  · cases hok
  · rename_i inner i rest hor
    cases hok
    obtain ⟨e, he, hq⟩ := h.orLoop hor
    exact ⟨e, i, he, hq⟩
  · cases hok

end

lemma bindsGroup_group {after : List Tok} : bindsGroup std (before ++ [.rparen]) after = false := by
  rw [bindsGroup, List.getLast?_append]
  rfl

lemma finds_clauseWith {group : Parse} (hgroup : ∀ {toks q left}, group toks = .ok (q, left) →
    ∃ e : Tree .or, e.WellFormed std ∧ e.depth + 1 ≤ d ∧
      toks.map tok = e.toks ++ .rparen :: left.map tok ∧ q = disjunction (e.parts std).1) :
    Finds std d (clauseWith std group) := by
  intro toks q left hok
  unfold clauseWith at hok
  split at hok
  · obtain ⟨e, hwf, hd, htoks, rfl⟩ := hgroup hok
    refine ⟨.group e, ⟨hwf, hd, ?_⟩, rfl, @bindsGroup_group _ (.lparen :: e.toks) _⟩
    rw [map_cons, htoks, toks]
    simp
  · rename_i w i rest
    split at hok
    · rename_i field j inner hfield
      obtain ⟨p, hp, hq⟩ := map_ok hok
      obtain ⟨rfl, rfl⟩ := Prod.mk.inj hq
      obtain ⟨e, hwf, hd, htoks, hparts⟩ := hgroup hp
      refine ⟨.fieldGroup w e, ⟨⟨isSome_of_eq_some hfield, hwf⟩, hd, ?_⟩, ?_,
        @bindsGroup_group _ (.term w :: .lparen :: e.toks) _⟩
      · rw [map_cons, map_cons, htoks, toks]
        simp
      · rw [parts, hfield, hparts]
        rfl
    · rename_i hno
      obtain ⟨q', hatom, hq⟩ := map_ok hok
      obtain ⟨rfl, rfl⟩ := Prod.mk.inj hq
      rw [atomToQuery_ok] at hatom
      refine ⟨.atom w, ⟨isSome_of_eq_some hatom, zero_le d, rfl⟩, ?_, ?_⟩
      · rw [parts, hatom]
        rfl
      · by_contra hbinds
        rw [Bool.not_eq_false, bindsGroup, Bool.and_eq_true, decide_eq_true_eq] at hbinds
        obtain ⟨field, hfield⟩ := isSome_iff_exists.mp hbinds.1
        obtain ⟨⟨_, j⟩, inner, rfl, rfl, -⟩ := map_eq_cons_iff.mp (List.head?_eq_some_iff.mp hbinds.2).choose_spec
        exact hno field j inner hfield rfl
  · cases hok

lemma finds_parseClause (d : Nat) : Finds std d (parseClause std d) := by
  induction d with
  | zero => exact finds_clauseWith fun h => by cases h
  | succ d ih =>
    refine finds_clauseWith fun h => ?_
    obtain ⟨e, i, ⟨hwf, hd, htoks⟩, hq⟩ := ih.group h
    exact ⟨e, hwf, succ_le_succ hd, htoks, hq⟩

end

structure Sentence (std : TextStd) (toks : List Tok) (e : Tree .or) : Prop where
  wellFormed : e.WellFormed std
  depth_le : e.depth ≤ maxQueryDepth
  toks_eq : e.toks = toks

lemma Sentence.parses (h : Sentence std (ss.map tok) e) : parseTokens std ss = .ok (e.query std) := by
  have hne : ss ≠ [] := by
    rintro rfl
    obtain ⟨t, ts, he, -⟩ := e.toks_opens
    cases he.symm.trans h.toks_eq
  have hread := e.read h.wellFormed h.depth_le ss [] (ss.length + 1) [] h.toks_eq.symm rfl rfl (by simp)
  rw [append_nil] at hread
  rw [parseTokens, if_neg hne, parseOrWith, hread]
  rfl

lemma sentence_of_parses (h : parseTokens std ss = .ok q) :
    ∃ e, Sentence std (ss.map tok) e ∧ q = e.query std := by
  unfold parseTokens at h
  split_ifs at h
  split at h
  · cases h
  · rename_i hor
    cases h
    obtain ⟨e, ⟨hwf, hd, htoks⟩, hq⟩ := Finds.orLoop (finds_parseClause maxQueryDepth) hor
    exact ⟨e, ⟨hwf, hd, by rw [htoks]; simp⟩, hq⟩
  · cases h

/-- The parser returns the query of the one reading that the tokens have. -/
lemma parses_iff : parseTokens std ss = .ok q ↔ ∃ e, Sentence std (ss.map tok) e ∧ q = e.query std := by
  constructor
  · exact sentence_of_parses
  · rintro ⟨e, he, rfl⟩
    exact he.parses

variable {written : Bool} {rest' : List Tok}

variable {rest : List Tok}

namespace Tree

variable {l : Level}

def Bound (std : TextStd) : {l : Level} → Tree l → Prop
  | _, .atom _ => True
  | _, .group e => e.Bound std
  | _, .fieldGroup w e => (fieldPrefix std w).isSome ∧ e.Bound std
  | _, .plain c => c.Bound std
  | _, .not c => c.Bound std
  | _, .single u => u.Bound std
  | _, .and u written e => u.Bound std ∧ e.Bound std ∧ (written = false → bindsGroup std u.toks e.toks = false)
  | _, .conj a => a.Bound std
  | _, .or a e => a.Bound std ∧ e.Bound std

lemma WellFormed.bound : {l : Level} → {e : Tree l} → e.WellFormed std → e.Bound std
  | _, .atom _, _ => trivial
  | _, .group e, h => WellFormed.bound (e := e) h
  | _, .fieldGroup _ e, h => ⟨h.1, WellFormed.bound (e := e) h.2⟩
  | _, .plain c, h => WellFormed.bound (e := c) h
  | _, .not c, h => WellFormed.bound (e := c) h
  | _, .single u, h => WellFormed.bound (e := u) h
  | _, .and u _ e, h => ⟨WellFormed.bound (e := u) h.1, WellFormed.bound (e := e) h.2.1, h.2.2⟩
  | _, .conj a, h => WellFormed.bound (e := a) h
  | _, .or a e, h => ⟨WellFormed.bound (e := a) h.1, WellFormed.bound (e := e) h.2⟩

def Ends (std : TextStd) : {l : Level} → Tree l → List Tok → Prop
  | .clause, e, rest | .unary, e, rest => bindsGroup std e.toks rest = false
  | .and, _, rest => ∀ t ∈ rest.head?, t = .rparen ∨ t = .or
  | .or, _, rest => ∀ t ∈ rest.head?, t = .rparen

lemma bindsGroup_not (c : Tree .clause) (rest : List Tok) :
    bindsGroup std (not c).toks rest = bindsGroup std c.toks rest := by
  obtain ⟨t, ts, hc, -⟩ := c.toks_opens
  simp [bindsGroup, toks, hc]

lemma bindsGroup_append (before : List Tok) (e : Tree l) (rest : List Tok) :
    bindsGroup std before (e.toks ++ rest) = bindsGroup std before e.toks := by
  obtain ⟨t, ts, he, -⟩ := e.toks_opens
  simp [bindsGroup, he]

lemma ends_and {u : Tree .unary} {e : Tree .and} (rest : List Tok)
    (h : written = false → bindsGroup std u.toks e.toks = false) :
    Ends std u ((if written then [.and] else []) ++ (e.toks ++ rest)) := by
  cases written with
  | true => exact bindsGroup_of_last (by simp)
  | false => exact (bindsGroup_append u.toks e rest).trans (h rfl)

lemma Ends.unary {u : Tree .unary} (h : ∀ t ∈ rest.head?, t = .rparen ∨ t = .or) : Ends std u rest := by
  refine bindsGroup_of_last fun hhead => ?_
  rcases h _ hhead with hno | hno <;> cases hno

lemma not_ends {e : Tree .and}
    (h : ∀ t ∈ rest.head?, t = .rparen ∨ t = .or) : rest ≠ (if written then [.and] else []) ++ (e.toks ++ rest') := by
  rintro rfl
  obtain ⟨t, ts, he, hopens⟩ := e.toks_opens
  cases written with
  | true => rcases h .and rfl with hno | hno <;> cases hno
  | false =>
    rw [he] at h
    rcases h t rfl with rfl | rfl <;> cases hopens

lemma and_written_unique {e e' : Tree .and}
    (h : (if written then [Tok.and] else []) ++ (e.toks ++ rest) =
      (if written' then [Tok.and] else []) ++ (e'.toks ++ rest')) :
    written = written' ∧ e.toks ++ rest = e'.toks ++ rest' := by
  have hopens : ∀ (e : Tree .and) (ts ts' : List Tok), e.toks ++ ts ≠ .and :: ts' := by
    intro e ts ts' heq
    obtain ⟨t, us, he, hopen⟩ := e.toks_opens
    rw [he] at heq
    rw [(List.cons.inj heq).1] at hopen
    cases hopen
  cases written <;> cases written'
  · exact ⟨rfl, h⟩
  · exact absurd h (hopens e _ _)
  · exact absurd h.symm (hopens e' _ _)
  · exact ⟨rfl, (List.cons.inj h).2⟩

lemma ends_atom (h : (atom w).Ends std rest)
    (hw : (fieldPrefix std w).isSome) (ts : List Tok) : rest ≠ .lparen :: ts := by
  rintro rfl
  have hbinds : bindsGroup std [.term w] (.lparen :: ts) := by simp [bindsGroup, Tok.field, hw]
  exact absurd (hbinds.symm.trans h) (by decide)

lemma toks_clause_ne_not (c : Tree .clause) (ts ts' : List Tok) : c.toks ++ ts ≠ .not :: ts' := by
  intro h
  cases c with
  | _ => cases (List.cons.inj h).1

lemma ends_or {a : Tree .and} (ts : List Tok) : a.Ends std (.or :: ts) := by
  intro t ht
  exact Or.inr (Option.some.inj ht).symm

lemma Ends.and {e : Tree .or} {a : Tree .and} (h : e.Ends std rest) : a.Ends std rest :=
  fun t ht => Or.inl (h t ht)

lemma Ends.ne_or {e : Tree .or} (h : e.Ends std rest) (ts : List Tok) : rest ≠ .or :: ts := by
  rintro rfl
  cases h .or rfl

lemma ends_closed {e : Tree .or} (ts : List Tok) : e.Ends std (.rparen :: ts) :=
  fun _ ht => (Option.some.inj ht).symm

lemma toks_unique : {l : Level} → (e e' : Tree l) → {rest rest' : List Tok} → e.Bound std → e'.Bound std →
    e.Ends std rest → e'.Ends std rest' → e.toks ++ rest = e'.toks ++ rest' → e = e' ∧ rest = rest'
  | _, .atom w, e', _, _, _, hb', hr, _, heq => by
    cases e' with
    | atom w' =>
      obtain ⟨hw, hrest⟩ := List.cons.inj heq
      cases hw
      exact ⟨rfl, hrest⟩
    | group e' => cases (List.cons.inj heq).1
    | fieldGroup w' e' =>
      obtain ⟨hw, hrest⟩ := List.cons.inj heq
      cases hw
      exact absurd hrest (ends_atom hr hb'.1 _)
  | _, .group e, e', _, _, hb, hb', _, _, heq => by
    cases e' with
    | group e' =>
      simp only [toks, cons_append, append_assoc, List.cons.injEq, true_and] at heq
      obtain ⟨rfl, hrest⟩ := e.toks_unique e' hb hb' (ends_closed _) (ends_closed _) heq
      exact ⟨rfl, (List.cons.inj hrest).2⟩
    | _ => cases (List.cons.inj heq).1
  | _, .fieldGroup w e, e', _, _, hb, hb', hr, hr', heq => by
    cases e' with
    | atom w' =>
      obtain ⟨hw, hrest⟩ := List.cons.inj heq
      cases hw
      exact absurd hrest.symm (ends_atom hr' hb.1 _)
    | group e' => cases (List.cons.inj heq).1
    | fieldGroup w' e' =>
      simp only [toks, cons_append, append_assoc, List.cons.injEq, true_and, Tok.term.injEq] at heq
      obtain ⟨rfl, heq⟩ := heq
      obtain ⟨rfl, hrest⟩ := e.toks_unique e' hb.2 hb'.2 (ends_closed _) (ends_closed _) heq
      exact ⟨rfl, (List.cons.inj hrest).2⟩
  | _, .plain c, e', _, _, hb, hb', hr, hr', heq => by
    cases e' with
    | plain c' =>
      obtain ⟨rfl, hrest⟩ := c.toks_unique c' hb hb' hr hr' heq
      exact ⟨rfl, hrest⟩
    | not c' => exact absurd heq (c.toks_clause_ne_not _ _)
  | _, .not c, e', _, _, hb, hb', hr, hr', heq => by
    cases e' with
    | plain c' => exact absurd heq.symm (c'.toks_clause_ne_not _ _)
    | not c' =>
      obtain ⟨rfl, hrest⟩ := c.toks_unique c' hb hb' ((bindsGroup_not c _).symm.trans hr)
        ((bindsGroup_not c' _).symm.trans hr') (List.cons.inj heq).2
      exact ⟨rfl, hrest⟩
  | _, .single u, e', _, _, hb, hb', hr, hr', heq => by
    cases e' with
    | single u' =>
      obtain ⟨rfl, hrest⟩ := u.toks_unique u' hb hb' (.unary hr) (.unary hr') heq
      exact ⟨rfl, hrest⟩
    | and u' written e' =>
      simp only [toks, append_assoc] at heq
      obtain ⟨-, hrest⟩ := u.toks_unique u' hb hb'.1 (.unary hr) (ends_and _ hb'.2.2) heq
      exact absurd hrest (not_ends hr)
  | _, .and u written e, e', _, _, hb, hb', hr, hr', heq => by
    cases e' with
    | single u' =>
      simp only [toks, append_assoc] at heq
      obtain ⟨-, hrest⟩ := u.toks_unique u' hb.1 hb' (ends_and _ hb.2.2) (.unary hr') heq
      exact absurd hrest.symm (not_ends hr')
    | and u' written' e' =>
      simp only [toks, append_assoc] at heq
      obtain ⟨rfl, hrest⟩ := u.toks_unique u' hb.1 hb'.1 (ends_and _ hb.2.2) (ends_and _ hb'.2.2) heq
      obtain ⟨rfl, hnext⟩ := and_written_unique hrest
      obtain ⟨rfl, hlast⟩ := e.toks_unique e' hb.2.1 hb'.2.1 hr hr' hnext
      exact ⟨rfl, hlast⟩
  | _, .conj a, e', _, _, hb, hb', hr, hr', heq => by
    cases e' with
    | conj a' =>
      obtain ⟨rfl, hrest⟩ := a.toks_unique a' hb hb' hr.and hr'.and heq
      exact ⟨rfl, hrest⟩
    | or a' e' =>
      simp only [toks, append_assoc, cons_append] at heq
      obtain ⟨-, hrest⟩ := a.toks_unique a' hb hb'.1 hr.and (ends_or _) heq
      exact absurd hrest (hr.ne_or _)
  | _, .or a e, e', _, _, hb, hb', hr, hr', heq => by
    cases e' with
    | conj a' =>
      simp only [toks, append_assoc, cons_append] at heq
      obtain ⟨-, hrest⟩ := a.toks_unique a' hb.1 hb' (ends_or _) hr'.and heq
      exact absurd hrest.symm (hr'.ne_or _)
    | or a' e' =>
      simp only [toks, append_assoc, cons_append] at heq
      obtain ⟨rfl, hrest⟩ := a.toks_unique a' hb.1 hb'.1 (ends_or _) (ends_or _) heq
      obtain ⟨rfl, hlast⟩ := e.toks_unique e' hb.2 hb'.2 hr hr' (List.cons.inj hrest).2
      exact ⟨rfl, hlast⟩

lemma Bound.eq_of_toks {e e' : Tree .or} (h : e.Bound std) (h' : e'.Bound std) (heq : e.toks = e'.toks) : e = e' := by
  have hnil : e.toks ++ [] = e'.toks ++ [] := by rw [heq]
  exact (e.toks_unique e' h h' (fun _ ht => by cases ht) (fun _ ht => by cases ht) hnil).1

end Tree

end GrowlerDB.Core
