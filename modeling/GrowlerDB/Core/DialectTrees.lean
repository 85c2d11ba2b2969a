import GrowlerDB.Core.QualifiedTree

namespace GrowlerDB.Core
open Lib List Piece Or Query

variable {std : TextStd}

section

variable {w : List Char}

lemma operator_kql (h : operator .kql w = some op) : operator .lucene w = some op := by
  unfold operator at h
  dsimp only at h
  split_ifs at h with hand hor hnot
  · cases h
    rw [hand]
    rfl
  · cases h
    rw [hor]
    rfl
  · cases h
    rw [hnot]
    rfl

lemma fieldPrefix_last (h : w.getLast? = some c) (hc : c ≠ ':') : fieldPrefix std w = none := by
  unfold fieldPrefix
  split
  · rename_i hcolon
    rw [h] at hcolon
    exact absurd (Option.some.inj hcolon) hc
  · rfl

lemma fieldPrefix_operator (h : operator .lucene w = some op) : fieldPrefix std w = none := by
  have hupper : ∀ v : List Char, ':' ∉ v → toAsciiUppercase w = v → fieldPrefix std w = none := by
    rintro v hv rfl
    cases hlast : w.getLast? with
    | none => rw [List.getLast?_eq_none_iff.mp hlast]; rfl
    | some c =>
      refine fieldPrefix_last hlast ?_
      rintro rfl
      have hin : Char.toUpper ':' ∈ w.map Char.toUpper := mem_map_of_mem (mem_of_getLast? hlast)
      exact hv hin
  unfold operator at h
  dsimp only at h
  split_ifs at h with hand hor hnot
  · rcases hand with hand | rfl
    · exact hupper _ (by decide) hand
    · exact fieldPrefix_last rfl (by decide)
  · rcases hor with hor | rfl
    · exact hupper _ (by decide) hor
    · exact fieldPrefix_last rfl (by decide)
  · exact hupper _ (by decide) hnot

lemma fieldPrefix_minus (hw : w ≠ []) : fieldPrefix std ('-' :: w) = none := by
  unfold fieldPrefix
  split
  · rw [if_neg]
    rw [dropLast_cons_of_ne_nil hw]
    intro hident
    have hnot : '-' ∉ (String.ofList ('-' :: w.dropLast)).toList :=
      notMem_identifier (by rw [String.toList_ofList]; exact hident) (by decide) (by decide)
    exact hnot (by simp)
  · rfl

/-- What the dialects make of a word: an operator of Lucene is one of KQL too or a plain word, a minus
is part of a plain word in KQL, and other words are the same. -/
lemma toks_dialects (hw : w ≠ []) :
    (∃ op, toks .lucene (.word w) = [op] ∧ (toks .kql (.word w) = [op] ∨
      toks .kql (.word w) = [.term w]) ∧ (∀ t, op ≠ .term t) ∧ fieldPrefix std w = none) ∨
    (∃ x, w = '-' :: x ∧ x ≠ [] ∧ toks .lucene (.word w) = [.not, .term x] ∧ toks .kql (.word w) = [.term w]) ∨
    (toks .lucene (.word w) = [.term w] ∧ toks .kql (.word w) = [.term w]) := by
  obtain ⟨c, rest, rfl⟩ := exists_cons_of_ne_nil hw
  simp only [toks, flush]
  cases hl : operator .lucene (c :: rest) with
  | some op =>
    refine inl ⟨op, rfl, ?_, ?_, fieldPrefix_operator hl⟩
    · cases hk : operator .kql (c :: rest) with
      | some op' =>
        rw [operator_kql hk] at hl
        cases hl
        exact inl rfl
      | none => exact inr rfl
    · rintro t rfl
      exact operator_not_term hl
  | none =>
    right
    have hk : operator .kql (c :: rest) = none := by
      cases hk : operator .kql (c :: rest) with
      | none => rfl
      | some op =>
        rw [operator_kql hk] at hl
        cases hl
    rw [hk]
    by_cases hminus : c = '-' ∧ rest ≠ []
    · obtain ⟨rfl, hrest⟩ := hminus
      exact inl ⟨rest, rfl, hrest, by simp [hrest], rfl⟩
    · exact inr ⟨by simp [hminus], rfl⟩

end

def Filled (ps : List Piece) : Prop := ∀ w, .word w ∈ ps → w ≠ []

section

variable {ps ps' : List Piece} {p : Piece} {t : Tok} {ts before after : List Tok}

def luceneToks (ps : List Piece) : List Tok := ps.flatMap (Piece.toks .lucene)

def kqlToks (ps : List Piece) : List Tok := ps.flatMap (Piece.toks .kql)

lemma kqlToks_append (ps ps' : List Piece) : kqlToks (ps ++ ps') = kqlToks ps ++ kqlToks ps' :=
  flatMap_append

lemma Filled.left (h : Filled (ps ++ ps')) : Filled ps := fun w hw => h w (mem_append_left _ hw)

lemma Filled.right (h : Filled (ps ++ ps')) : Filled ps' := fun w hw => h w (mem_append_right _ hw)

lemma Filled.tail (h : Filled (p :: ps)) : Filled ps := fun w hw => h w (mem_cons_of_mem _ hw)

lemma filled_ofWord (w : List Char) : Filled (ofWord w) := by
  intro v hv
  unfold ofWord at hv
  split_ifs at hv with hw
  · cases hv
  · cases mem_singleton.mp hv
    exact hw

lemma filled_step (s : LexState) (c : Char) : Filled (lexStep s c).1 := by
  unfold lexStep
  split
  · exact fun w hw => absurd hw not_mem_nil
  · exact fun w hw => absurd hw not_mem_nil
  · intro w hw
    split_ifs at hw
    · cases hw
    · cases hw
    · rcases mem_append.mp hw with hw | hw
      · exact filled_ofWord _ w hw
      · cases mem_singleton.mp hw
    · rcases mem_append.mp hw with hw | hw
      · exact filled_ofWord _ w hw
      · cases mem_singleton.mp hw
    · exact filled_ofWord _ w hw
    · cases hw

lemma filled_output (s : LexState) (cs : List Char) : Filled (cutter.output s cs) := by
  induction cs generalizing s with
  | nil => exact filled_ofWord s.word
  | cons c cs ih =>
    rw [Transducer.output_cons]
    intro w hw
    rcases mem_append.mp hw with hw | hw
    · exact filled_step s c w hw
    · exact ih _ w hw

lemma first_piece (hps : Filled ps) (h : luceneToks ps = t :: ts) :
    ∃ p ps', ps = p :: ps' ∧ ((toks .lucene p = [t] ∧ luceneToks ps' = ts) ∨
      ∃ x ts', t = .not ∧ ts = .term x :: ts' ∧ p = .word ('-' :: x) ∧ x ≠ [] ∧
        toks .lucene p = [.not, .term x] ∧ toks .kql p = [.term ('-' :: x)] ∧ luceneToks ps' = ts') := by
  cases ps with
  | nil => cases h
  | cons p ps =>
    refine ⟨p, ps, rfl, ?_⟩
    change toks .lucene p ++ luceneToks ps = t :: ts at h
    have hone : ∀ op, toks .lucene p = [op] → toks .lucene p = [t] ∧ luceneToks ps = ts := by
      intro op hop
      rw [hop] at h
      obtain ⟨rfl, hts⟩ := List.cons.inj h
      exact ⟨hop, hts⟩
    cases p with
    | word w =>
      rcases @toks_dialects .ascii _ (hps w mem_cons_self) with ⟨op, hop, -⟩ | ⟨x, rfl, hx, hminus, hkql⟩ | ⟨hterm, -⟩
      · exact inl (hone op hop)
      · rw [hminus] at h
        obtain ⟨rfl, hts⟩ := List.cons.inj h
        exact inr ⟨x, _, rfl, hts.symm, rfl, hx, hminus, hkql, rfl⟩
      · exact inl (hone _ hterm)
    | _ => exact inl (hone _ rfl)

lemma split_pieces (hps : Filled ps) (hlast : before.getLast? ≠ some .not) (h : luceneToks ps = before ++ after) :
    ∃ qs rs, ps = qs ++ rs ∧ luceneToks qs = before ∧ luceneToks rs = after := by
  induction ps generalizing before with
  | nil =>
    obtain ⟨rfl, rfl⟩ := append_eq_nil_iff.mp h.symm
    exact ⟨[], [], rfl, rfl, rfl⟩
  | cons p ps ih =>
    cases before with
    | nil => exact ⟨[], p :: ps, rfl, rfl, h⟩
    | cons b bs =>
      have hrest : ∀ {cs : List Tok}, (∃ c, b :: bs = c ++ cs) → cs.getLast? ≠ some .not := by
        rintro cs ⟨c, hc⟩ hnot
        rw [hc, List.getLast?_append, hnot] at hlast
        exact hlast rfl
      have htail := hps.tail
      obtain ⟨p', ps', hcons, hfirst⟩ := first_piece hps h
      obtain ⟨rfl, rfl⟩ := List.cons.inj hcons
      rcases hfirst with ⟨hp, hts⟩ | ⟨x, ts', rfl, hts, rfl, hx, hp, -, hafter⟩
      · obtain ⟨qs, rs, rfl, hqs, hrs⟩ := ih htail (hrest ⟨[b], rfl⟩) hts
        refine ⟨p :: qs, rs, rfl, ?_, hrs⟩
        rw [luceneToks, flatMap_cons, hp, ← luceneToks, hqs]
        rfl
      · cases bs with
        | nil => exact absurd rfl hlast
        | cons b' bs =>
          obtain ⟨rfl, hbs⟩ := List.cons.inj hts
          obtain ⟨qs, rs, rfl, hqs, hrs⟩ := ih htail (hrest ⟨[.not, .term x], rfl⟩) (hafter.trans hbs.symm)
          refine ⟨.word ('-' :: x) :: qs, rs, rfl, ?_, hrs⟩
          rw [luceneToks, flatMap_cons, hp, ← luceneToks, hqs]
          rfl

lemma toks_ne_nil (hp : ∀ w, p = .word w → w ≠ []) (dialect : Syntax) : toks dialect p ≠ [] := by
  cases p with
  | word w => exact toks_word_ne_nil (hp w rfl)
  | _ => exact cons_ne_nil _ _

lemma eq_nil_of_toks (hps : Filled ps) (h : luceneToks ps = []) : ps = [] := by
  cases ps with
  | nil => rfl
  | cons p ps =>
    refine absurd (append_eq_nil_iff.mp h).1 (toks_ne_nil ?_ _)
    rintro w rfl
    exact hps w mem_cons_self

lemma piece_lparen (h : toks .lucene p = [.lparen]) : p = .lparen := by
  cases p with
  | lparen => rfl
  | rparen => cases h
  | word w => exact absurd (h ▸ mem_cons_self) (@paren_notMem_toks .lucene w).1

lemma piece_rparen (h : toks .lucene p = [.rparen]) : p = .rparen := by
  cases p with
  | lparen => cases h
  | rparen => rfl
  | word w => exact absurd (h ▸ mem_cons_self) (@paren_notMem_toks .lucene w).2

lemma split_group (hps : Filled ps) (hlast : ts.getLast? ≠ some .not)
    (h : luceneToks ps = .lparen :: (ts ++ [.rparen])) :
    ∃ qs, ps = .lparen :: (qs ++ [.rparen]) ∧ luceneToks qs = ts := by
  obtain ⟨p, ps', rfl, ⟨hp, hts⟩ | ⟨x, ts', hno, -⟩⟩ := first_piece hps h
  · obtain rfl := piece_lparen hp
    have htail := hps.tail
    obtain ⟨qs, rs, rfl, hqs, hrs⟩ := split_pieces htail hlast hts
    obtain ⟨p, ps', rfl, ⟨hp, hnil⟩ | ⟨x, ts', hno, -⟩⟩ := first_piece htail.right hrs
    · obtain rfl := piece_rparen hp
      rw [eq_nil_of_toks htail.right.tail hnil]
      exact ⟨qs, rfl, hqs⟩
    · cases hno
  · cases hno

end

namespace Tree

variable {l : Level}

/-- A leaf that everything a tree matches has to match: one of its conjunctions, outside alternatives
and negations. -/
def Needs (std : TextStd) : {l : Level} → Tree l → Query → Prop
  | _, .atom w, r => atomQuery std w = some r
  | _, .group e, r => e.Needs std r
  | _, .fieldGroup w e, r => ∃ q, e.Needs std q ∧ r = applyFieldPrefix ((fieldPrefix std w).getD "") q
  | _, .plain c, r => c.Needs std r
  | _, .not _, _ => False
  | _, .single u, r => u.Needs std r
  | _, .and u _ e, r => u.Needs std r ∨ e.Needs std r
  | _, .conj a, r => a.Needs std r
  | _, .or _ _, _ => False

def andAppend (written : Bool) (b : Tree .and) : Tree .and → Tree .and
  | .single u => .and u written b
  | .and u w e => .and u w (andAppend written b e)

def orPrepend (a : Tree .and) : Tree .or → Tree .or
  | .conj b => .conj (andAppend false b a)
  | .or b e => .or (andAppend false b a) e

lemma toks_andAppend : (a : Tree .and) →
    (andAppend written b a).toks = a.toks ++ ((if written then [.and] else []) ++ b.toks)
  | .single _ => by rw [andAppend, toks, toks]
  | .and u w e => by
    rw [andAppend, toks, toks_andAppend e, toks]
    simp

lemma needs_andAppend : (a : Tree .and) →
    ((andAppend written b a).Needs std r ↔ a.Needs std r ∨ b.Needs std r)
  | .single _ => by rw [andAppend, Needs, Needs]
  | .and u w e => by rw [andAppend, Needs, Needs, needs_andAppend e, or_assoc]

lemma bindsGroup_last (before : List Tok) (e : Tree l) (after : List Tok) :
    bindsGroup std (before ++ e.toks) after = bindsGroup std e.toks after := by
  have hne := e.toks_ne_nil
  rw [bindsGroup, bindsGroup, List.getLast?_append_of_ne_nil _ hne]

lemma bound_andAppend (hb : b.Bound std) : (a : Tree .and) → a.Bound std →
    (written = false → bindsGroup std a.toks b.toks = false) → (andAppend written b a).Bound std
  | .single _, ha, h => by
    rw [andAppend]
    exact ⟨ha, hb, h⟩
  | .and u w e, ⟨hu, he, hbinds⟩, h => by
    rw [andAppend]
    refine ⟨hu, bound_andAppend hb e he fun hw => ?_, fun hw => ?_⟩
    · rw [← h hw, toks, ← append_assoc]
      exact (bindsGroup_last _ e _).symm
    · rw [toks_andAppend, bindsGroup_append]
      exact hbinds hw

lemma toks_orPrepend (a : Tree .and) : (e : Tree .or) → (orPrepend a e).toks = a.toks ++ e.toks
  | .conj b => toks_andAppend a
  | .or b e => by
    rw [orPrepend, toks, toks_andAppend, toks]
    simp

lemma bound_orPrepend (ha : a.Bound std) : (e : Tree .or) → e.Bound std →
    bindsGroup std a.toks e.toks = false → (orPrepend a e).Bound std
  | .conj _, he, h => bound_andAppend he a ha fun _ => h
  | .or b e, hor, h =>
    ⟨bound_andAppend hor.1 a ha fun _ => (bindsGroup_append a.toks b (.or :: e.toks)).symm.trans h, hor.2⟩

lemma getLast_toks : {l : Level} → (e : Tree l) → e.toks.getLast? ≠ some .not
  | _, .atom _ => by simp [toks]
  | _, .group e => by
    rw [toks, ← cons_append, List.getLast?_concat]
    simp
  | _, .fieldGroup w e => by
    rw [toks, ← cons_append, ← cons_append, List.getLast?_concat]
    simp
  | _, .plain c => c.getLast_toks
  | _, .not c => by
    rw [toks, List.getLast?_cons_of_ne_nil c.toks_ne_nil]
    exact c.getLast_toks
  | _, .single u => u.getLast_toks
  | _, .and u written e => by
    rw [toks, ← append_assoc, List.getLast?_append_of_ne_nil _ e.toks_ne_nil]
    exact e.getLast_toks
  | _, .conj a => a.getLast_toks
  | _, .or a e => by
    rw [toks, List.getLast?_append_of_ne_nil _ (cons_ne_nil _ _), List.getLast?_cons_of_ne_nil e.toks_ne_nil]
    exact e.getLast_toks

end Tree

section

variable {ps ps' : List Piece}

lemma bindsGroup_kql (hps : Filled ps) (hps' : Filled ps')
    (h : bindsGroup std (luceneToks ps) (luceneToks ps') = false) :
    bindsGroup std (kqlToks ps) (kqlToks ps') = false := by
  rw [← Bool.not_eq_true, bindsGroup, Bool.and_eq_true, decide_eq_true_eq] at h ⊢
  rintro ⟨hfield, hopen⟩
  refine h ⟨?_, ?_⟩
  · -- the last piece is a word, and the same in both
    rcases eq_nil_or_concat ps with rfl | ⟨qs, p, rfl⟩
    · cases hfield
    · have hword : ∀ w, p = .word w → w ≠ [] := by
        rintro w rfl
        exact hps w (by simp)
      have hlast : ∀ dialect, ((qs ++ [p]).flatMap (Piece.toks dialect)).getLast? = (Piece.toks dialect p).getLast? := by
        intro dialect
        rw [flatMap_append, flatMap_singleton, List.getLast?_append_of_ne_nil _ (toks_ne_nil hword dialect)]
      rw [concat_eq_append] at hfield ⊢
      rw [luceneToks, hlast]
      rw [kqlToks, hlast] at hfield
      cases p with
      | lparen => exact hfield
      | rparen => exact hfield
      | word w =>
        rcases @toks_dialects std _ (hword w rfl) with
          ⟨op, -, hkql | hkql, hop, hnone⟩ | ⟨x, rfl, hx, -, hkql⟩ | ⟨hlucene, hkql⟩
        · rw [hkql] at hfield
          cases op with
          | term t => exact absurd rfl (hop t)
          | lparen | rparen | and | or | not => cases hfield
        · simp [hkql, List.getLast?_singleton, Option.bind_some, Tok.field, hnone] at hfield
        · simp [hkql, List.getLast?_singleton, Option.bind_some, Tok.field, fieldPrefix_minus hx] at hfield
        · rw [hlucene]
          rwa [hkql] at hfield
  · cases ps' with
    | nil => cases hopen
    | cons p ps' =>
      have hword : ∀ w, p = .word w → w ≠ [] := by
        rintro w rfl
        exact hps' w mem_cons_self
      obtain ⟨t, ts, hp⟩ := exists_cons_of_ne_nil (toks_ne_nil hword .kql)
      rw [kqlToks, flatMap_cons, hp] at hopen
      obtain rfl : t = .lparen := Option.some.inj hopen
      cases p with
      | lparen => rfl
      | rparen => cases hp
      | word w => exact absurd (hp ▸ mem_cons_self) (@paren_notMem_toks .kql w).1

end

/-- A KQL tree of the pieces that requires what another tree requires. -/
structure Translates (std : TextStd) (ps : List Piece) {l l' : Level} (e : Tree l) (t : Tree l') : Prop where
  toks : t.toks = kqlToks ps
  bound : t.Bound std
  needs : ∀ r, e.Needs std r → t.Needs std r

/-- The pieces have a KQL tree; a clause with a negation may become two. -/
def Tree.Translated (std : TextStd) (ps : List Piece) : {l : Level} → Tree l → Prop
  | .clause, c => ∃ t : Tree .clause, Translates std ps c t
  | .unary, u => ∃ t : Tree .and, Translates std ps u t
  | .and, a => ∃ t : Tree .and, Translates std ps a t
  | .or, e => ∃ t : Tree .or, Translates std ps e t

lemma kqlToks_cons (p : Piece) (ps : List Piece) : kqlToks (p :: ps) = Piece.toks .kql p ++ kqlToks ps := rfl

lemma bindsGroup_word (hw : fieldPrefix std w = none) (after : List Tok) : bindsGroup std [.term w] after = false := by
  simp [bindsGroup, Tok.field, hw]

lemma Translates.group (h : Translates std qs e t) :
    Translates std (.lparen :: (qs ++ [.rparen])) (.group e) (.group t) where
  toks := by
    rw [kqlToks_cons, kqlToks_append, ← h.toks]
    rfl
  bound := h.bound
  needs := h.needs

lemma Translates.fieldGroup (h : Translates std qs e t)
    (hw : (fieldPrefix std w).isSome) (hkql : Piece.toks .kql (.word w) = [.term w]) :
    Translates std (.word w :: .lparen :: (qs ++ [.rparen])) (.fieldGroup w e) (.fieldGroup w t) where
  toks := by
    rw [kqlToks_cons, hkql, kqlToks_cons, kqlToks_append, ← h.toks]
    rfl
  bound := ⟨hw, h.bound⟩
  needs := by
    rintro r ⟨q, hq, rfl⟩
    exact ⟨q, h.needs q hq, rfl⟩

lemma Translates.and
    (hu : Translates std qs u t) (mid : List Piece) (ha : Translates std rs a t')
    (hmid : kqlToks mid = if written then [.and] else [])
    (hbinds : written = false → bindsGroup std (kqlToks qs) (kqlToks rs) = false) :
    Translates std (qs ++ (mid ++ rs)) (.and u written a) (.andAppend written t' t) where
  toks := by rw [Tree.toks_andAppend, hu.toks, ha.toks, kqlToks_append, kqlToks_append, hmid]
  bound := Tree.bound_andAppend ha.bound t hu.bound fun hw => by
    rw [hu.toks, ha.toks]
    exact hbinds hw
  needs := by
    intro r hr
    rw [Tree.needs_andAppend]
    exact hr.imp (hu.needs r) (ha.needs r)

lemma Translates.word (h : Translates std rs e t)
    (hkql : Piece.toks .kql (.word w) = [.term w]) (hw : fieldPrefix std w = none) :
    Translates std (.word w :: rs) e (.and (.plain (.atom w)) false t) where
  toks := by
    rw [kqlToks_cons, hkql, ← h.toks]
    rfl
  bound := ⟨trivial, h.bound, fun _ => bindsGroup_word hw _⟩
  needs := fun r hr => inr (h.needs r hr)

lemma Translates.negated (h : Translates std ps e t) : Translates std ps (.not c) t := ⟨h.toks, h.bound, fun _ hr => hr.elim⟩

lemma Translates.single (h : Translates std ps c t) : Translates std ps c (.single (.plain t)) := ⟨h.toks, h.bound, h.needs⟩

lemma Translates.orWord (ha : Translates std qs a t)
    (he : Translates std rs e t') (hkql : Piece.toks .kql (.word w) = [.term w]) (hw : fieldPrefix std w = none) :
    Translates std (qs ++ .word w :: rs) (.or a e)
      (.orPrepend (.andAppend false (.single (.plain (.atom w))) t) t') where
  toks := by
    rw [Tree.toks_orPrepend, Tree.toks_andAppend, ha.toks, he.toks, kqlToks_append, kqlToks_cons, hkql]
    simp [Tree.toks]
  bound := by
    have hatom : (Tree.single (.plain (.atom w))).Bound std := trivial
    refine Tree.bound_orPrepend (Tree.bound_andAppend hatom t ha.bound fun _ => bindsGroup_of_last ?_) t' he.bound ?_
    · simp [Tree.toks]
    · rw [Tree.toks_andAppend, ← append_assoc, Tree.bindsGroup_last _ (Tree.single (.plain (.atom w)))]
      exact bindsGroup_word hw _
  needs := fun _ hr => hr.elim

lemma operator_piece {p : Piece} {op : Tok} (hp : ∀ w, p = .word w → w ≠ []) (h : Piece.toks .lucene p = [op])
    (hop : op = .and ∨ op = .or ∨ op = .not) :
    Piece.toks .kql p = [op] ∨ ∃ w, p = .word w ∧ Piece.toks .kql p = [.term w] ∧ fieldPrefix std w = none := by
  cases p with
  | word w =>
    rcases @toks_dialects std _ (hp w rfl) with ⟨op', hop', hkql | hkql, -, hnone⟩ | ⟨x, -, -, hminus, -⟩ | ⟨hterm, -⟩
    · rw [h] at hop'
      cases hop'
      exact inl hkql
    · exact inr ⟨w, rfl, hkql, hnone⟩
    · simp [h] at hminus
    · rw [h] at hterm
      rcases hop with rfl | rfl | rfl <;> cases hterm
  | _ => rcases hop with rfl | rfl | rfl <;> cases h

lemma term_piece (hp : ∀ w, p = .word w → w ≠ []) (h : Piece.toks .lucene p = [.term t]) :
    p = .word t ∧ Piece.toks .kql p = [.term t] := by
  cases p with
  | lparen => cases h
  | rparen => cases h
  | word w =>
    rcases @toks_dialects .ascii _ (hp w rfl) with ⟨op, hop, -, hno, -⟩ | ⟨x, -, -, hminus, -⟩ | ⟨hterm, hkql⟩
    · rw [h] at hop
      cases hop
      exact absurd rfl (hno t)
    · simp [h] at hminus
    · rw [h] at hterm
      cases hterm
      exact ⟨rfl, hkql⟩

lemma Filled.head (h : Filled (p :: ps)) : ∀ w, p = .word w → w ≠ [] := by
  rintro w rfl
  exact h w mem_cons_self

lemma Tree.translated : {l : Level} → (e : Tree l) → {ps : List Piece} → Filled ps → e.Bound std →
    luceneToks ps = e.toks → e.Translated std ps
  | _, .atom w, ps, hps, _, h => by
    obtain ⟨p, ps', rfl, ⟨hp, hnil⟩ | ⟨x, ts', hno, -⟩⟩ := first_piece hps h
    · obtain ⟨rfl, hkql⟩ := term_piece hps.head hp
      obtain rfl := eq_nil_of_toks hps.tail hnil
      exact ⟨.atom w, by rw [kqlToks_cons, hkql]; rfl, trivial, fun _ hr => hr⟩
    · cases hno
  | _, .group e, ps, hps, hb, h => by
    obtain ⟨qs, rfl, hqs⟩ := split_group hps e.getLast_toks h
    obtain ⟨t, ht⟩ := e.translated hps.tail.left hb hqs
    exact ⟨.group t, ht.group⟩
  | _, .fieldGroup w e, ps, hps, hb, h => by
    obtain ⟨p, ps', rfl, ⟨hp, hts⟩ | ⟨x, ts', hno, -⟩⟩ := first_piece hps h
    · obtain ⟨rfl, hkql⟩ := term_piece hps.head hp
      obtain ⟨qs, rfl, hqs⟩ := split_group hps.tail e.getLast_toks hts
      obtain ⟨t, ht⟩ := e.translated hps.tail.tail.left hb.2 hqs
      exact ⟨.fieldGroup w t, ht.fieldGroup hb.1 hkql⟩
    · cases hno
  | _, .plain c, ps, hps, hb, h => by
    obtain ⟨t, ht⟩ := c.translated hps hb h
    exact ⟨.single (.plain t), ht.toks, ht.bound, ht.needs⟩
  | _, .not c, ps, hps, hb, h => by
    obtain ⟨p, ps', rfl, ⟨hp, hts⟩ | ⟨x, ts', -, hts, rfl, hx, -, hkql, hafter⟩⟩ := first_piece hps h
    · obtain ⟨t, ht⟩ := c.translated hps.tail hb hts
      rcases @operator_piece std _ _ hps.head hp (by simp) with hkql | ⟨w, rfl, hkql, hw⟩
      · refine ⟨.single (.not t), ?_, ht.bound, fun _ hr => hr.elim⟩
        rw [kqlToks_cons, hkql, ← ht.toks]
        rfl
      · exact ⟨_, (ht.single.word hkql hw).negated⟩
    · -- a minus in front of an atom or of a field, which is part of the word in KQL
      cases c with
      | atom w =>
        obtain ⟨hw, rfl⟩ := List.cons.inj hts
        cases hw
        obtain rfl := eq_nil_of_toks hps.tail hafter
        refine ⟨.single (.plain (.atom ('-' :: x))), ?_, trivial, fun _ hr => hr.elim⟩
        rw [kqlToks_cons, hkql]
        rfl
      | group e => cases (List.cons.inj hts).1
      | fieldGroup w e =>
        obtain ⟨hw, hgroup⟩ := List.cons.inj hts
        cases hw
        obtain ⟨qs, rfl, hqs⟩ := split_group hps.tail e.getLast_toks (hafter.trans hgroup.symm)
        obtain ⟨t, ht⟩ := e.translated hps.tail.tail.left hb.2 hqs
        exact ⟨_, (ht.group.single.word hkql (fieldPrefix_minus hx)).negated⟩
  | _, .single u, ps, hps, hb, h => by
    obtain ⟨t, ht⟩ := u.translated hps hb h
    exact ⟨t, ht.toks, ht.bound, ht.needs⟩
  | _, .and u written e, ps, hps, hb, h => by
    obtain ⟨qs, rs, rfl, hqs, hrs⟩ := split_pieces hps u.getLast_toks h
    obtain ⟨t, ht⟩ := u.translated hps.left hb.1 hqs
    cases written with
    | false =>
      obtain ⟨t', ht'⟩ := e.translated hps.right hb.2.1 hrs
      refine ⟨_, ht.and [] ht' rfl fun _ => bindsGroup_kql hps.left hps.right ?_⟩
      rw [hqs, hrs]
      exact hb.2.2 rfl
    | true =>
      obtain ⟨p, ps', rfl, ⟨hp, hts⟩ | ⟨x, ts', hno, -⟩⟩ := first_piece hps.right hrs
      · obtain ⟨t', ht'⟩ := e.translated hps.right.tail hb.2.1 hts
        rcases @operator_piece std _ _ hps.right.head hp (by simp) with hkql | ⟨w, rfl, hkql, hw⟩
        · refine ⟨_, ht.and [p] ht' ?_ fun hno => by cases hno⟩
          rw [kqlToks_cons, hkql]
          rfl
        · -- `AND` is a word of KQL, required beside the clauses
          have hmid : kqlToks [] = if false then [.and] else [] := rfl
          obtain ⟨htoks, hbound, hneeds⟩ := ht.and [] (ht'.word hkql hw) hmid
            fun _ => bindsGroup_of_last (by rw [kqlToks_cons, hkql]; simp)
          exact ⟨_, htoks, hbound, hneeds⟩
      · cases hno
  | _, .conj a, ps, hps, hb, h => by
    obtain ⟨t, ht⟩ := a.translated hps hb h
    exact ⟨.conj t, ht.toks, ht.bound, ht.needs⟩
  | _, .or a e, ps, hps, hb, h => by
    obtain ⟨qs, rs, rfl, hqs, hrs⟩ := split_pieces hps a.getLast_toks h
    obtain ⟨t, ht⟩ := a.translated hps.left hb.1 hqs
    obtain ⟨p, ps', rfl, ⟨hp, hts⟩ | ⟨x, ts', hno, -⟩⟩ := first_piece hps.right hrs
    · obtain ⟨t', ht'⟩ := e.translated hps.right.tail hb.2 hts
      rcases @operator_piece std _ _ hps.right.head hp (by simp) with hkql | ⟨w, rfl, hkql, hw⟩
      · refine ⟨.or t t', ?_, ⟨ht.bound, ht'.bound⟩, fun _ hr => hr.elim⟩
        rw [kqlToks_append, kqlToks_cons, hkql, ← ht.toks, ← ht'.toks]
        rfl
      · exact ⟨_, ht.orWord ht' hkql hw⟩
    · cases hno

/-- What the Lucene reading of a text requires, its KQL reading requires. -/
lemma Sentence.kql_needs (he : Sentence std (tokens .lucene cs) e)
    (he' : Sentence std (tokens .kql cs) e') (h : e.Needs std r) : e'.Needs std r := by
  obtain ⟨t, ht⟩ := e.translated (filled_output .start cs) he.wellFormed.bound he.toks_eq.symm
  obtain rfl := ht.bound.eq_of_toks he'.wellFormed.bound (ht.toks.trans he'.toks_eq.symm)
  exact ht.needs r h

variable {std : TextStd}

/-- The query cannot match without the other, which is one of its conjunctions. -/
inductive Query.Requires : Query → Query → Prop
  | self (r : Query) : Query.Requires r r
  | must {q r : Query} {must should mustNot filter : List Query} (hq : q ∈ must) (h : q.Requires r) :
    Query.Requires (.bool must should mustNot filter) r
  | filter {q r : Query} {must should mustNot filter : List Query} (hq : q ∈ filter) (h : q.Requires r) :
    Query.Requires (.bool must should mustNot filter) r

def Query.IsLeaf : Query → Prop
  | .bool .. => False
  | _ => True

section

variable {r q : Query} {must should mustNot filter qs : List Query}

lemma requires_bool (hr : r.IsLeaf) (h : Query.Requires (.bool must should mustNot filter) r) :
    (∃ q ∈ must, q.Requires r) ∨ ∃ q ∈ filter, q.Requires r := by
  cases h with
  | self => exact hr.elim
  | must hq h => exact inl ⟨_, hq, h⟩
  | filter hq h => exact inr ⟨_, hq, h⟩

lemma requires_leaf (hq : q.IsLeaf) (h : q.Requires r) : r = q := by
  cases h with
  | self => rfl
  | must => exact hq.elim
  | filter => exact hq.elim

lemma requires_conjunction (hr : r.IsLeaf) (h : (conjunction must mustNot).Requires r) : ∃ q ∈ must, q.Requires r := by
  unfold conjunction at h
  split at h
  · exact ⟨_, mem_singleton_self _, h⟩
  · exact (requires_bool hr h).resolve_right (by simp)

lemma Query.Requires.conjunction (hq : q ∈ must) (h : q.Requires r) : (conjunction must mustNot).Requires r := by
  unfold Core.conjunction
  split
  · rw [← mem_singleton.mp hq]
    exact h
  · exact .must hq h

lemma requires_disjunction (hr : r.IsLeaf) (h : (disjunction qs).Requires r) : ∃ q, qs = [q] ∧ q.Requires r := by
  unfold disjunction at h
  split at h
  · exact ⟨_, rfl, h⟩
  · rcases requires_bool hr h with ⟨q, hq, -⟩ | ⟨q, hq, -⟩ <;> cases hq

lemma Query.Requires.field (f : String) (h : q.Requires r) : (applyFieldPrefix f q).Requires (applyFieldPrefix f r) := by
  induction h with
  | self => exact .self _
  | must hq _ ih =>
    rw [applyFieldPrefix, applyFieldPrefixes_eq, applyFieldPrefixes_eq, applyFieldPrefixes_eq, applyFieldPrefixes_eq]
    exact .must (mem_map_of_mem hq) ih
  | filter hq _ ih =>
    rw [applyFieldPrefix, applyFieldPrefixes_eq, applyFieldPrefixes_eq, applyFieldPrefixes_eq, applyFieldPrefixes_eq]
    exact .filter (mem_map_of_mem hq) ih

lemma applyFieldPrefix_eq_bool {f : String} (h : applyFieldPrefix f q = .bool must should mustNot filter) :
    ∃ must' should' mustNot' filter', q = .bool must' should' mustNot' filter' ∧
      must = must'.map (applyFieldPrefix f) ∧ filter = filter'.map (applyFieldPrefix f) := by
  cases q with
  | bool must' should' mustNot' filter' =>
    simp only [applyFieldPrefix, applyFieldPrefixes_eq, bool.injEq] at h
    exact ⟨must', should', mustNot', filter', rfl, h.1.symm, h.2.2.2.symm⟩
  | _ => cases h

lemma requires_field (hr : r.IsLeaf) {p : Query} (h : p.Requires r) (q : Query) (hp : p = applyFieldPrefix f q) :
    ∃ r', r'.IsLeaf ∧ q.Requires r' ∧ r = applyFieldPrefix f r' := by
  induction h generalizing q with
  | self p =>
    refine ⟨q, ?_, .self q, hp⟩
    cases q with
    | bool =>
      rw [applyFieldPrefix] at hp
      exact (hp ▸ hr).elim
    | _ => trivial
  | must hin _ ih =>
    obtain ⟨must', _, _, _, rfl, rfl, -⟩ := applyFieldPrefix_eq_bool hp.symm
    obtain ⟨q, hq, rfl⟩ := mem_map.mp hin
    obtain ⟨r', hleaf, hreq, rfl⟩ := ih hr q rfl
    exact ⟨r', hleaf, .must hq hreq, rfl⟩
  | filter hin _ ih =>
    obtain ⟨_, _, _, filter', rfl, -, rfl⟩ := applyFieldPrefix_eq_bool hp.symm
    obtain ⟨q, hq, rfl⟩ := mem_map.mp hin
    obtain ⟨r', hleaf, hreq, rfl⟩ := ih hr q rfl
    exact ⟨r', hleaf, .filter hq hreq, rfl⟩

lemma ValueShape.isLeaf (h : ValueShape f q) : q.IsLeaf := by
  cases h <;> trivial

lemma atomQuery_leaf (h : atomQuery std w = some q) : q.IsLeaf := by
  obtain ⟨q', hshape, rfl | ⟨b, rfl⟩⟩ := atomQuery_shape h
  · exact hshape.isLeaf
  · trivial

end

namespace Tree

variable {r : Query} {l : Level}

def Gives (std : TextStd) (r : Query) : {l : Level} → Tree l → Prop
  | .or, e => (disjunction (e.parts std).1).Requires r
  | .and, e | .unary, e | .clause, e => ∃ q ∈ (e.parts std).1, q.Requires r

lemma Needs.gives : {l : Level} → {e : Tree l} → {r : Query} → e.Needs std r → e.Gives std r
  | _, .atom w, r, h => ⟨r, by rw [parts, h]; exact mem_singleton_self _, .self r⟩
  | _, .group e, r, h => ⟨_, mem_singleton_self _, Needs.gives (e := e) h⟩
  | _, .fieldGroup w e, r, ⟨q, hq, hr⟩ => by
    subst hr
    exact ⟨_, mem_singleton_self _, (Needs.gives (e := e) hq).field _⟩
  | _, .plain c, r, h => Needs.gives (e := c) h
  | _, .single u, r, h => Needs.gives (e := u) h
  | _, .and u _ e, r, h => by
    rcases h with h | h
    · obtain ⟨q, hq, hr⟩ := Needs.gives (e := u) h
      exact ⟨q, mem_append_left _ hq, hr⟩
    · obtain ⟨q, hq, hr⟩ := Needs.gives (e := e) h
      exact ⟨q, mem_append_right _ hq, hr⟩
  | _, .conj a, r, h => by
    obtain ⟨q, hq, hr⟩ := Needs.gives (e := a) h
    exact hr.conjunction hq

lemma Gives.needs : {l : Level} → {e : Tree l} → {r : Query} → r.IsLeaf → e.WellFormed std → e.Gives std r →
    e.Needs std r
  | _, .atom w, r, hr, hwf, h => by
    obtain ⟨q, hq⟩ := Option.isSome_iff_exists.mp hwf
    obtain ⟨p, hp, hreq⟩ := h
    rw [parts, hq, mem_singleton] at hp
    subst hp
    rw [requires_leaf (atomQuery_leaf hq) hreq]
    exact hq
  | _, .group e, r, hr, hwf, ⟨q, hq, h⟩ => by
    rw [mem_singleton.mp hq] at h
    exact Gives.needs (e := e) hr hwf h
  | _, .fieldGroup w e, r, hr, hwf, ⟨q, hq, h⟩ => by
    rw [mem_singleton.mp hq] at h
    obtain ⟨r', hleaf, hreq, rfl⟩ := requires_field hr h _ rfl
    exact ⟨r', Gives.needs (e := e) hleaf hwf.2 hreq, rfl⟩
  | _, .plain c, r, hr, hwf, h => Gives.needs (e := c) hr hwf h
  | _, .not c, r, _, _, ⟨_, hq, _⟩ => by cases hq
  | _, .single u, r, hr, hwf, h => Gives.needs (e := u) hr hwf h
  | _, .and u _ e, r, hr, hwf, ⟨q, hq, h⟩ => by
    rcases mem_append.mp hq with hq | hq
    · exact inl (Gives.needs (e := u) hr hwf.1 ⟨q, hq, h⟩)
    · exact inr (Gives.needs (e := e) hr hwf.2.1 ⟨q, hq, h⟩)
  | _, .conj a, r, hr, hwf, h => Gives.needs (e := a) hr hwf (requires_conjunction hr h)
  | _, .or a e, r, hr, _, h => by
    obtain ⟨q, hq, -⟩ := requires_disjunction hr h
    exact absurd (List.cons.inj hq).2 e.alternatives_ne_nil

end Tree

/-- What the Lucene parse of a text requires, its KQL parse requires. -/
lemma requires_kql {q q' r : Query} (hq : parseWith std .lucene text = .ok q)
    (hq' : parseWith std .kql text = .ok q') (hr : r.IsLeaf) (h : q.Requires r) : q'.Requires r := by
  obtain ⟨e, he, rfl⟩ := parseWith_iff.mp hq
  obtain ⟨e', he', rfl⟩ := parseWith_iff.mp hq'
  exact Tree.Needs.gives (e := e') (he.kql_needs he' (Tree.Gives.needs (e := e) hr he.wellFormed h))

variable {field : String} {lower upper : Option String} {li ui : Bool} {q : Query}

lemma identifier_of_splitField (h : (splitField std w).1 = some field) : isIdentifier std field.toList := by
  unfold splitField at h
  split at h
  · split_ifs at h with hf
    cases h
    rw [Bool.and_eq_true] at hf
    rw [String.toList_ofList]
    exact hf.1
  · cases h

lemma atomQuery_range (h : atomQuery std w = some (.range field lower li upper ui)) :
    isIdentifier std field.toList := by
  obtain ⟨q', hshape, rfl | ⟨b, hno⟩⟩ := atomQuery_shape h
  · generalize hf : (splitField std w).1 = f at hshape
    cases hshape
    exact identifier_of_splitField hf
  · cases hno

lemma Tree.Needs.identifier : {l : Level} → {e : Tree l} → e.Needs std (.range field lower li upper ui) →
    isIdentifier std field.toList
  | _, .atom _, h => atomQuery_range h
  | _, .group e, h => Needs.identifier (e := e) h
  | _, .fieldGroup w e, ⟨q, hq, hr⟩ => by
    cases q with
    | range =>
      cases hr
      exact Needs.identifier (e := e) hq
    | _ => cases hr
  | _, .plain c, h => Needs.identifier (e := c) h
  | _, .single u, h => Needs.identifier (e := u) h
  | _, .and u _ e, h => h.elim (Needs.identifier (e := u)) (Needs.identifier (e := e))
  | _, .conj a, h => Needs.identifier (e := a) h

mutual

lemma rangeBounds_free : (q : Query) → (∀ lower li upper ui, ¬ q.Requires (.range field lower li upper ui)) →
    q.rangeBounds field = (none, none)
  | .range f lower li upper ui, h => by
    rw [rangeBounds, if_neg]
    rintro rfl
    exact h _ _ _ _ (.self _)
  | .bool must should mustNot filter, h => by
    rw [rangeBounds, narrowAll_free must fun q hq _ _ _ _ hr => h _ _ _ _ (.must hq hr),
      narrowAll_free filter fun q hq _ _ _ _ hr => h _ _ _ _ (.filter hq hr)]
  | .matchAll, _ | .term _ _, _ | .terms _ _, _ | .matchText _ _ _, _ | .phrase _ _ _, _
  | .startsWith _ _, _ | .wildcard _ _, _ | .fuzzy _ _ _, _ | .regex _ _, _ | .fieldExists _, _
  | .ipCidr _ _, _ | .boost _ _, _ | .knn _ _ _ _, _ => rfl

lemma narrowAll_free : (qs : List Query) →
    (∀ q ∈ qs, ∀ lower li upper ui, ¬ q.Requires (.range field lower li upper ui)) →
    narrowAll field (none, none) qs = (none, none)
  | [], _ => rfl
  | q :: qs, h => by
    rw [narrowAll, rangeBounds_free q (h q mem_cons_self)]
    exact narrowAll_free qs fun p hp => h p (mem_cons_of_mem _ hp)

end

/-- No text forces bounds on a field whose name cannot be written. -/
lemma rangeBounds_unwritten {dialect : Syntax} {text : String} (hq : parseWith std dialect text = .ok q)
    (hfield : isIdentifier std field.toList ≠ true) : q.rangeBounds field = (none, none) := by
  obtain ⟨e, he, rfl⟩ := parseWith_iff.mp hq
  refine rangeBounds_free _ fun _ _ _ _ hr => hfield ?_
  exact Tree.Needs.identifier (Tree.Gives.needs (e := e) trivial he.wellFormed hr)

end GrowlerDB.Core
