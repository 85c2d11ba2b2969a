import GrowlerDB.Core.QuerySentences
import GrowlerDB.Lib.Slice

namespace GrowlerDB.Core
open Lib Slice List Option

lemma splitOnce_eq_none (h : sep ∉ cs) : splitOnce sep cs = none := by
  induction cs with
  | nil => rfl
  | cons c cs ih =>
    obtain ⟨hne, hcs⟩ := not_or.mp (mt mem_cons.mpr h)
    rw [splitOnce, if_neg (Ne.symm hne), ih hcs, map_none]

lemma splitOnce_append (h : sep ∉ xs) : splitOnce sep (xs ++ sep :: ys) = some (xs, ys) := by
  induction xs with
  | nil => simp [splitOnce]
  | cons c xs ih =>
    obtain ⟨hne, hxs⟩ := not_or.mp (mt mem_cons.mpr h)
    rw [cons_append, splitOnce, if_neg (Ne.symm hne), ih hxs, map_some]

lemma splitLast_eq_none (h : sep ∉ cs) : splitLast sep cs = none := by
  induction cs with
  | nil => rfl
  | cons c cs ih =>
    obtain ⟨hne, hcs⟩ := not_or.mp (mt mem_cons.mpr h)
    rw [splitLast, ih hcs]
    exact if_neg (Ne.symm hne)

lemma splitLast_append (h : sep ∉ ys) : splitLast sep (xs ++ sep :: ys) = some (xs, ys) := by
  induction xs with
  | nil => simp [splitLast, splitLast_eq_none h]
  | cons c xs ih => rw [cons_append, splitLast, ih]

lemma exists_last (h : sep ∈ cs) : ∃ xs ys, cs = xs ++ sep :: ys ∧ sep ∉ ys := by
  obtain ⟨xs, ys, heq, hxs⟩ := eq_append_cons_of_mem (mem_reverse.mpr h)
  refine ⟨ys.reverse, xs.reverse, ?_, fun hin => hxs (mem_reverse.mp hin)⟩
  rw [← reverse_reverse cs, heq]
  simp

variable (std : TextStd)

def splitFieldAt (atom : List Char) : Option (Option String × List Char) :=
  match findByte ':' atom with
  | none => some (none, atom)
  | some colon => do
    let f ← Slice.takeBytes atom colon
    let rest ← dropBytes atom colon
    let value ← dropBytes rest 1
    some (if isIdentifier std f && !value.isEmpty then (some (String.ofList f), value) else (none, atom))

def stripBoostAt (value : List Char) : Option (List Char × Option (BitVec 32)) :=
  match rfindByte '^' value with
  | none => some (value, none)
  | some caret => do
    let factor ← dropBytes value (caret + 1)
    match std.parseF32 factor with
    | none => some (value, none)
    | some b => do
      let core ← Slice.takeBytes value caret
      some (core, some b)

section

variable (field : Option String)

def phraseNodeAt (rest : List Char) (pos : Nat) : Option (Except ParseError Query) :=
  match findByte '\x22' rest with
  | none => some (.error (.invalidValue "unterminated phrase" pos))
  | some close => do
    let inner ← Slice.takeBytes rest close
    let suffix ← dropBytes rest (close + 1)
    some (phraseOf field inner suffix pos)

def rangeNodeAt (core : List Char) (pos : Nat) : Option (Except ParseError Query) :=
  match field with
  | none => some (.error (.invalidValue "range needs a field" pos))
  | some field =>
    if core.getLast? ≠ some ']' ∧ core.getLast? ≠ some '\x7d' then
      some (.error (.invalidValue "unterminated range" pos))
    else do
      let inner ← slice core 1 (byteLen core - 1)
      some (match splitOnceText " TO ".toList inner with
        | none => .error (.invalidValue "range needs ` TO `" pos)
        | some (lo, hi) =>
          .ok (.range field (rangeEnd lo) (core.head? = some '[') (rangeEnd hi) (core.getLast? = some ']')))

def wordNodeAt (core : List Char) (pos : Nat) : Option (Except ParseError Query) :=
  match rfindByte '~' core with
  | none => some (.ok (plainNode field core))
  | some tilde => do
    let base ← Slice.takeBytes core tilde
    if base = [] then some (.ok (plainNode field core))
    else do
      let suffix ← dropBytes core (tilde + 1)
      some (fuzzyOf field pos base suffix)

def valueNodeAt (core : List Char) (pos : Nat) : Option (Except ParseError Query) :=
  if field = none ∧ (core = "*".toList ∨ core = "*:*".toList) then some (.ok .matchAll)
  else match core with
    | '\x22' :: rest => phraseNodeAt field rest pos
    | '[' :: _ => rangeNodeAt field core pos
    | '\x7b' :: _ => rangeNodeAt field core pos
    | _ =>
      if 2 ≤ byteLen core ∧ core.head? = some '/' ∧ core.getLast? = some '/' then do
        let inner ← slice core 1 (byteLen core - 1)
        some (.ok (.regex field (String.ofList inner)))
      else match field with
        | some f => if isCidr std core then some (.ok (.ipCidr f (String.ofList core))) else wordNodeAt field core pos
        | none => wordNodeAt field core pos

end

def atomToQueryAt (atom : List Char) (pos : Nat) : Option (Except ParseError Query) := do
  let (field, value) ← splitFieldAt std atom
  let (core, boost) ← stripBoostAt std value
  match boost with
  | some b =>
    if f32FiniteNonNegative b then do
      let node ← valueNodeAt std field core pos
      some (node.map (.boost · b))
    else some (.error (.invalidValue "boost must be a finite, non-negative number" pos))
  | none => valueNodeAt std field core pos

section

variable {std} {pos : Nat}

lemma splitFieldAt_eq (atom : List Char) : splitFieldAt std atom = some (splitField std atom) := by
  by_cases h : ':' ∈ atom
  · obtain ⟨f, value, rfl, hf⟩ := eq_append_cons_of_mem h
    have hvalue : dropBytes (':' :: value) 1 = some value := dropBytes_append [':'] value
    simp only [splitFieldAt, splitField, findByte_append hf, splitOnce_append hf, takeBytes_append, dropBytes_append,
      hvalue, bind_eq_bind, bind_some]
  · simp only [splitFieldAt, splitField, findByte_eq_none h, splitOnce_eq_none h]

lemma stripBoostAt_eq (value : List Char) : stripBoostAt std value = some (stripBoost std value) := by
  by_cases h : '^' ∈ value
  · obtain ⟨core, factor, rfl, hfactor⟩ := exists_last h
    have hafter : dropBytes (core ++ '^' :: factor) (byteLen core + 1) = some factor := dropBytes_after core '^' factor
    simp only [stripBoostAt, stripBoost, rfindByte_append core hfactor, splitLast_append hfactor, hafter,
      takeBytes_append, bind_eq_bind, bind_some]
    cases std.parseF32 factor <;> rfl
  · simp only [stripBoostAt, stripBoost, rfindByte_eq_none h, splitLast_eq_none h]

lemma phraseNodeAt_eq (rest : List Char) : phraseNodeAt field rest pos = some (phraseNode field rest pos) := by
  by_cases h : '\x22' ∈ rest
  · obtain ⟨inner, suffix, rfl, hinner⟩ := eq_append_cons_of_mem h
    have hafter : dropBytes (inner ++ '\x22' :: suffix) (byteLen inner + 1) = some suffix :=
      dropBytes_after inner '\x22' suffix
    simp only [phraseNodeAt, phraseNode, findByte_append hinner, splitOnce_append hinner, hafter, takeBytes_append,
      bind_eq_bind, bind_some]
  · simp only [phraseNodeAt, phraseNode, findByte_eq_none h, splitOnce_eq_none h]

lemma slice_ends (hlast : (c :: cs).getLast? = some d) (hne : c ≠ d ∨ cs ≠ [])
    (hc : c.utf8Size = 1) (hd : d.utf8Size = 1) :
    slice (c :: cs) 1 (byteLen (c :: cs) - 1) = some (c :: cs).tail.dropLast := by
  have hcs : cs ≠ [] := by
    rintro rfl
    rcases hne with hne | hne
    · exact hne (some.inj hlast)
    · exact hne rfl
  obtain ⟨xs, rfl⟩ : ∃ xs, cs = xs ++ [d] := by
    refine ⟨cs.dropLast, (dropLast_append_getLast? d ?_).symm⟩
    rwa [List.getLast?_cons_of_ne_nil hcs] at hlast
  have hinner := slice_inner c xs d
  rw [hc, hd] at hinner
  rw [hinner]
  simp

lemma rangeNodeAt_eq (h : core.head? = some '[' ∨ core.head? = some '\x7b') :
    rangeNodeAt field core pos = some (rangeNode field core pos) := by
  cases field with
  | none => rfl
  | some field =>
    unfold rangeNodeAt rangeNode
    dsimp only
    by_cases hend : core.getLast? ≠ some ']' ∧ core.getLast? ≠ some '\x7d'
    · rw [if_pos hend, if_pos hend]
    · rw [if_neg hend, if_neg hend]
      have hslice : slice core 1 (byteLen core - 1) = some core.tail.dropLast := by
        cases core with
        | nil => simp at h
        | cons c cs =>
          rw [not_and_or, not_not, not_not] at hend
          rcases h with h | h <;> obtain rfl := some.inj h <;> rcases hend with hend | hend
          all_goals exact slice_ends hend (.inl (by decide)) (by decide) (by decide)
      rw [hslice]
      rfl

lemma wordNodeAt_eq : wordNodeAt field core pos = some (wordNode field core pos) := by
  by_cases h : '~' ∈ core
  · obtain ⟨base, suffix, rfl, hsuffix⟩ := exists_last h
    have hafter : dropBytes (base ++ '~' :: suffix) (byteLen base + 1) = some suffix := dropBytes_after base '~' suffix
    simp only [wordNodeAt, wordNode, rfindByte_append base hsuffix, splitLast_append hsuffix, hafter,
      takeBytes_append, bind_eq_bind, bind_some]
    cases base with
    | nil => rfl
    | cons c base => rfl
  · simp only [wordNodeAt, wordNode, rfindByte_eq_none h, splitLast_eq_none h]

lemma regex_length (h : core.head? = some '/') : 2 ≤ byteLen core ↔ 2 ≤ core.length := by
  cases core with
  | nil => simp at h
  | cons c cs =>
    cases h
    have hslash : Char.utf8Size '/' = 1 := by decide
    rw [byteLen_cons, hslash, length_cons]
    cases cs with
    | nil => simp
    | cons d ds =>
      have := d.utf8Size_pos
      rw [byteLen_cons, length_cons]
      omega

lemma valueNodeAt_eq : valueNodeAt std field core pos = some (valueNode std field core pos) := by
  unfold valueNodeAt
  by_cases hall : field = none ∧ (core = "*".toList ∨ core = "*:*".toList)
  · unfold valueNode
    rw [if_pos hall, if_pos hall]
  · rw [if_neg hall]
    split
    · unfold valueNode
      rw [phraseNodeAt_eq, if_neg hall]
      rfl
    · unfold valueNode
      rw [rangeNodeAt_eq (.inl rfl), if_neg hall]
      rfl
    · unfold valueNode
      rw [rangeNodeAt_eq (.inr rfl), if_neg hall]
      rfl
    · rename_i hphrase hclosed hopen
      rw [valueNode_other hall hphrase hclosed hopen]
      unfold otherNode
      by_cases hregex : 2 ≤ core.length ∧ core.head? = some '/' ∧ core.getLast? = some '/'
      · obtain ⟨hlen, hhead, hlast⟩ := hregex
        rw [if_pos ⟨(regex_length hhead).mpr hlen, hhead, hlast⟩, if_pos ⟨hlen, hhead, hlast⟩]
        have hslice : slice core 1 (byteLen core - 1) = some core.tail.dropLast := by
          cases core with
          | nil => cases hhead
          | cons c cs =>
            cases hhead
            refine slice_ends hlast (.inr ?_) (by decide) (by decide)
            rintro rfl
            simp at hlen
        rw [hslice]
        rfl
      · have hbytes : ¬ (2 ≤ byteLen core ∧ core.head? = some '/' ∧ core.getLast? = some '/') :=
          fun ⟨hlen, hhead, hlast⟩ => hregex ⟨(regex_length hhead).mp hlen, hhead, hlast⟩
        rw [if_neg hregex, if_neg hbytes]
        split
        · split_ifs
          · rfl
          · exact wordNodeAt_eq
        · exact wordNodeAt_eq

lemma atomToQueryAt_eq (atom : List Char) (pos : Nat) :
    atomToQueryAt std atom pos = some (atomToQuery std atom pos) := by
  unfold atomToQueryAt atomToQuery
  rw [splitFieldAt_eq]
  obtain ⟨field, value⟩ := splitField std atom
  simp only [bind_eq_bind, bind_some, stripBoostAt_eq]
  obtain ⟨core, boost⟩ := stripBoost std value
  cases boost with
  | none => exact valueNodeAt_eq
  | some b =>
    dsimp only
    split_ifs
    · rw [valueNodeAt_eq]
      rfl
    · rfl

end

/-- `parse_clause` as it recurses: it counts the parentheses that are open, and it has so many frames
of the stack; `overflow` is what happens without one. -/
def parseClauseOn (overflow : ParseError) : Nat → Nat → Parse
  | 0, _ => fun _ => .error overflow
  | stack + 1, depth => clauseWith std (fun toks =>
      if depth + 1 > maxQueryDepth then .error (.tooDeep maxQueryDepth)
      else parseGroup (parseClauseOn overflow stack (depth + 1)) toks)

def parseTokensOn (overflow : ParseError) (stack : Nat) (toks : List Spanned) : Except ParseError Query :=
  if toks = [] then .error .empty
  else match parseOrWith (parseClauseOn std overflow stack 0) toks with
    | .error e => .error e
    | .ok (q, []) => .ok q
    | .ok (_, rest) => .error (.unexpectedToken (describePos rest))

/-- One frame for every parenthesis that may be open, and one more, is all the parser needs. -/
lemma parseClauseOn_eq (overflow : ParseError) (hdepth : depth ≤ maxQueryDepth)
    (hstack : maxQueryDepth - depth < stack) :
    parseClauseOn std overflow stack depth = parseClause std (maxQueryDepth - depth) := by
  induction stack generalizing depth with
  | zero => omega
  | succ stack ih =>
    rw [parseClauseOn]
    by_cases hlast : depth = maxQueryDepth
    · subst hlast
      rw [Nat.sub_self, parseClause]
      refine congrArg _ (funext fun toks => ?_)
      exact if_pos (Nat.lt_succ_self _)
    · obtain ⟨d, hd⟩ : ∃ d, maxQueryDepth - depth = d + 1 := ⟨maxQueryDepth - depth - 1, by omega⟩
      have hrest : maxQueryDepth - (depth + 1) = d := by omega
      rw [hd, parseClause, ← hrest, ← ih (by omega) (by omega)]
      refine congrArg _ (funext fun toks => ?_)
      exact if_neg (by omega)

lemma parseTokensOn_eq (overflow : ParseError) (h : maxQueryDepth < stack) (toks : List Spanned) :
    parseTokensOn std overflow stack toks = parseTokens std toks := by
  unfold parseTokensOn parseTokens
  rw [parseClauseOn_eq std overflow (Nat.zero_le _) (by simpa using h), Nat.sub_zero] <;> rfl

/-- An input is accepted if and only if its tokens are a sentence whose groups are not nested too deep; the query has
the boolean meaning of the sentence; no slice of an atom is out of range; and the parser never recurses deeper than
one frame for each parenthesis that may be open. -/
theorem parse_correct (input : String) :
    ((∃ q, Query.parseWith std .lucene input = .ok q) ↔ ∃ e, Sentence std ((lex .lucene input).map Spanned.tok) e) ∧
    (∀ q e, Query.parseWith std .lucene input = .ok q → Sentence std ((lex .lucene input).map Spanned.tok) e →
      ∀ leaf, q.eval leaf = e.eval std none leaf) ∧
    (∀ atom pos, atomToQueryAt std atom pos = some (atomToQuery std atom pos)) ∧
    ∀ overflow stack, maxQueryDepth < stack →
      parseTokensOn std overflow stack (lex .lucene input) = Query.parseWith std .lucene input := by
  refine ⟨⟨?_, ?_⟩, ?_, atomToQueryAt_eq, fun overflow stack h => parseTokensOn_eq std overflow h _⟩
  · rintro ⟨q, hq⟩
    obtain ⟨e, he, -⟩ := sentence_of_parses hq
    exact ⟨e, he⟩
  · rintro ⟨e, he⟩
    exact ⟨_, he.parses⟩
  · intro q e hq he leaf
    obtain rfl : q = e.query std := Except.ok.inj (hq.symm.trans he.parses)
    exact Tree.eval_query leaf he.wellFormed

end GrowlerDB.Core
