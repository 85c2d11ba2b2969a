import GrowlerDB.Core.DialectTrees
import GrowlerDB.Core.FieldGroups

namespace GrowlerDB.Core
open Lib List String Tree Piece LexState

variable {std : TextStd}

/-- A tree that is written by a text: the text ends outside quotes and ranges. -/
structure Tree.Writes (std : TextStd) {l : Level} (e : Tree l) (text : List Char) : Prop where
  wellFormed : e.WellFormed std
  toks_eq : tokens .lucene text = e.toks
  settled : (lexState text).mode = .plain

section

variable {dialect : Syntax} {xs ys : List Char} {c : Char}

lemma lexState_delimiter (hmode : (lexState xs).mode = .plain) (hc : delimits c) (ys : List Char) :
    lexState (xs ++ c :: ys) = lexState ys := by
  obtain ⟨w, hstate⟩ : ∃ w, lexState xs = ⟨.plain, w⟩ := ⟨(lexState xs).word, by rw [← hmode]⟩
  have hstep : cutter.step (lexState xs) c = (ofWord w ++ ofDelimiter c, .start) := by
    rw [hstate]
    exact lexStep_delimiter hc w
  rw [lexState, Transducer.run_append]
  change (cutter.run (lexState xs) (c :: ys)).2 = _
  rw [Transducer.run, hstep]
  rfl

lemma tokens_delimiter (hmode : (lexState xs).mode = .plain) (hc : delimits c) (ys : List Char) :
    tokens dialect (xs ++ c :: ys) =
      tokens dialect xs ++ ((ofDelimiter c).flatMap (toks dialect) ++ tokens dialect ys) := by
  rw [tokens, pieces_delimiter hmode hc, flatMap_append, flatMap_append]
  rfl

lemma tokens_between {op : List Char} {t : Tok} (hxs : (lexState xs).mode = .plain) (hop : (lexState op).mode = .plain)
    (ht : tokens dialect op = [t]) (ys : List Char) :
    tokens dialect (xs ++ (' ' :: op ++ ' ' :: ys)) = tokens dialect xs ++ t :: tokens dialect ys ∧
      lexState (xs ++ (' ' :: op ++ ' ' :: ys)) = lexState ys := by
  have hspace : ofDelimiter ' ' = [] := rfl
  constructor
  · rw [cons_append, tokens_delimiter hxs (by decide), tokens_delimiter hop (by decide), ht, hspace]
    rfl
  · rw [cons_append, lexState_delimiter hxs (by decide), lexState_delimiter hop (by decide)]

end

namespace Tree

def orAppend (e : Tree .or) : Tree .or → Tree .or
  | .conj a => .or a e
  | .or a d => .or a (orAppend e d)

section

variable {b : Tree .and} {e : Tree .or} {written : Bool}

lemma toks_orAppend : (d : Tree .or) → (orAppend e d).toks = d.toks ++ .or :: e.toks
  | .conj _ => by rw [orAppend, toks, toks]
  | .or a d => by
    rw [orAppend, toks, toks_orAppend d, toks]
    simp

lemma wellFormed_orAppend (he : e.WellFormed std) : (d : Tree .or) → d.WellFormed std →
    (orAppend e d).WellFormed std
  | .conj _, hd => by
    rw [orAppend]
    exact ⟨hd, he⟩
  | .or a d, hd => by
    rw [orAppend]
    exact ⟨hd.1, wellFormed_orAppend he d hd.2⟩

lemma depth_orAppend : (d : Tree .or) → (orAppend e d).depth = max d.depth e.depth
  | .conj _ => by rw [orAppend, depth, depth]
  | .or a d => by rw [orAppend, depth, depth_orAppend d, depth, max_assoc]

lemma eval_orAppend : (d : Tree .or) →
    (orAppend e d).eval std scope leaf = (d.eval std scope leaf || e.eval std scope leaf)
  | .conj _ => by rw [orAppend, eval, eval]
  | .or a d => by rw [orAppend, eval, eval_orAppend d, eval, Bool.or_assoc]

lemma wellFormed_andAppend (hb : b.WellFormed std) : (a : Tree .and) → a.WellFormed std →
    (andAppend true b a).WellFormed std
  | .single _, ha => by
    rw [andAppend]
    exact ⟨ha, hb, fun h => by cases h⟩
  | .and u w e, ha => by
    rw [andAppend]
    refine ⟨ha.1, wellFormed_andAppend hb e ha.2.1, fun hw => ?_⟩
    rw [toks_andAppend, bindsGroup_append]
    exact ha.2.2 hw

lemma depth_andAppend : (a : Tree .and) → (andAppend written b a).depth = max a.depth b.depth
  | .single _ => by rw [andAppend, depth, depth]
  | .and u w e => by rw [andAppend, depth, depth_andAppend e, depth, max_assoc]

lemma eval_andAppend : (a : Tree .and) →
    (andAppend written b a).eval std scope leaf = (a.eval std scope leaf && b.eval std scope leaf)
  | .single _ => by rw [andAppend, eval, eval]
  | .and u w e => by rw [andAppend, eval, eval_andAppend e, eval, Bool.and_assoc]

end

namespace Writes

variable {xs ys : List Char} {field : String}

lemma group (h : e.Writes std xs) : (group e).Writes std ('(' :: (xs ++ [')'])) := by
  refine ⟨h.wellFormed, ?_, ?_⟩
  · rw [tokens_opened, tokens_closed h.settled, h.toks_eq]
    rfl
  · have hopen : lexState ('(' :: (xs ++ [')'])) = lexState (xs ++ [')']) := @lexState_delimiter [] '(' rfl (by decide) _
    rw [hopen, lexState_delimiter h.settled (by decide)]
    rfl

lemma fieldGroup (hstd : std.SpacesApart) (hfield : isIdentifier std field.toList) {e : Tree .or}
    (h : e.Writes std xs) :
    (fieldGroup (field.toList ++ [':']) e).Writes std (field.toList ++ ':' :: '(' :: (xs ++ [')'])) := by
  have hprefix : fieldPrefix std (field.toList ++ [':']) = some field := by simp [fieldPrefix, hfield]
  have hstate : (lexState (field.toList ++ [':'])).mode = .plain := by
    rw [lexState, start, run_field hstd hfield]
  refine ⟨⟨Option.isSome_of_eq_some hprefix, h.wellFormed⟩, ?_, ?_⟩
  · rw [tokens_field hstd hfield, tokens_closed h.settled, h.toks_eq]
    rfl
  · have hsplit : field.toList ++ ':' :: '(' :: (xs ++ [')']) = (field.toList ++ [':']) ++ '(' :: (xs ++ [')']) := by simp
    rw [hsplit, lexState_delimiter hstate (by decide), lexState_delimiter h.settled (by decide)]
    rfl

lemma not (h : c.Writes std xs) : (not c).Writes std ("NOT ".toList ++ xs) := by
  have hword : (lexState "NOT".toList).mode = .plain := by decide
  have hsplit : "NOT ".toList ++ xs = "NOT".toList ++ ' ' :: xs := rfl
  refine ⟨h.wellFormed, ?_, ?_⟩
  · rw [hsplit, tokens_delimiter hword (by decide), h.toks_eq]
    rfl
  · rw [hsplit, lexState_delimiter hword (by decide), h.settled]

lemma and {a b : Tree .and} (ha : a.Writes std xs) (hb : b.Writes std ys) :
    (andAppend true b a).Writes std (xs ++ (" AND ".toList ++ ys)) := by
  obtain ⟨htoks, hstate⟩ := @tokens_between .lucene xs "AND".toList .and ha.settled (by decide) (by decide) ys
  refine ⟨wellFormed_andAppend hb.wellFormed a ha.wellFormed, ?_, ?_⟩
  · rw [toks_andAppend, ← ha.toks_eq, ← hb.toks_eq]
    exact htoks
  · exact (congrArg mode hstate).trans hb.settled

lemma or {d e : Tree .or} (hd : d.Writes std xs) (he : e.Writes std ys) :
    (orAppend e d).Writes std (xs ++ (" OR ".toList ++ ys)) := by
  obtain ⟨htoks, hstate⟩ := @tokens_between .lucene xs "OR".toList .or hd.settled (by decide) (by decide) ys
  refine ⟨wellFormed_orAppend he.wellFormed d hd.wellFormed, ?_, ?_⟩
  · rw [toks_orAppend, ← hd.toks_eq, ← he.toks_eq]
    exact htoks
  · exact (congrArg mode hstate).trans he.settled

end Writes

end Tree

/-- A text with a tree at a level of the grammar, nested to a depth, that matches what `m` says. -/
def Means (std : TextStd) (l : Level) (depth : Nat) (text : String) (m : (Query → Bool) → Bool) : Prop :=
  ∃ e : Tree l, e.Writes std text.toList ∧ e.depth ≤ depth ∧ ∀ leaf, e.eval std none leaf = m leaf

namespace Means

variable {l : Level} {d : Nat} {text : String} {m : (Query → Bool) → Bool}

section

variable (h : Means std l d text m)
include h

lemma mono (hd : d ≤ d') : Means std l d' text m := by
  obtain ⟨e, hwrites, hdepth, heval⟩ := h
  exact ⟨e, hwrites, hdepth.trans hd, heval⟩

lemma and (hl : l ≠ .or) : Means std .and d text m := by
  obtain ⟨e, ⟨hwf, htoks, hsettled⟩, hdepth, heval⟩ := h
  cases l with
  | or => exact absurd rfl hl
  | and => exact ⟨e, ⟨hwf, htoks, hsettled⟩, hdepth, heval⟩
  | unary => exact ⟨.single e, ⟨hwf, htoks, hsettled⟩, hdepth, heval⟩
  | clause => exact ⟨.single (.plain e), ⟨hwf, htoks, hsettled⟩, hdepth, heval⟩

lemma or : Means std .or d text m := by
  by_cases hl : l = .or
  · exact hl ▸ h
  · obtain ⟨e, ⟨hwf, htoks, hsettled⟩, hdepth, heval⟩ := h.and hl
    exact ⟨.conj e, ⟨hwf, htoks, hsettled⟩, hdepth, heval⟩

lemma group : Means std .clause (d + 1) ("(" ++ text ++ ")") m := by
  obtain ⟨e, hwrites, hdepth, heval⟩ := h.or
  refine ⟨.group e, ?_, Nat.succ_le_succ hdepth, heval⟩
  have htext : ("(" ++ text ++ ")").toList = '(' :: (text.toList ++ [')']) := by simp
  rw [htext]
  exact hwrites.group

end

lemma not (h : Means std .clause d text m) : Means std .unary d ("NOT " ++ text) (fun leaf => !m leaf) := by
  obtain ⟨e, hwrites, hdepth, heval⟩ := h
  refine ⟨.not e, ?_, hdepth, fun leaf => by rw [eval, heval]⟩
  rw [toList_append]
  exact hwrites.not

section

variable {ι : Type} {texts : ι → String} {ms : ι → (Query → Bool) → Bool}

lemma conjunction : (is : List ι) → is ≠ [] → (∀ i ∈ is, Means std .and d (texts i) (ms i)) →
    Means std .and d (" AND ".intercalate (is.map texts)) (fun leaf => is.all (ms · leaf))
  | [], hne, _ => absurd rfl hne
  | [i], _, h => by
    have hi := h i mem_cons_self
    simpa using hi
  | i :: j :: is, _, h => by
    obtain ⟨a, ha, hadepth, haeval⟩ := h i mem_cons_self
    obtain ⟨b, hb, hbdepth, hbeval⟩ := conjunction (j :: is) (cons_ne_nil _ _) fun k hk => h k (mem_cons_of_mem _ hk)
    refine ⟨.andAppend true b a, ?_, ?_, fun leaf => ?_⟩
    · rw [map_cons, map_cons, String.intercalate_cons_cons, String.append_assoc, String.toList_append,
        String.toList_append]
      exact ha.and hb
    · rw [Tree.depth_andAppend]
      exact max_le hadepth hbdepth
    · rw [Tree.eval_andAppend, haeval, hbeval]
      rfl

lemma alternatives : (is : List ι) → is ≠ [] → (∀ i ∈ is, Means std .or d (texts i) (ms i)) →
    Means std .or d (" OR ".intercalate (is.map texts)) (fun leaf => is.any (ms · leaf))
  | [], hne, _ => absurd rfl hne
  | [i], _, h => by
    have hi := h i mem_cons_self
    simpa using hi
  | i :: j :: is, _, h => by
    obtain ⟨a, ha, hadepth, haeval⟩ := h i mem_cons_self
    obtain ⟨b, hb, hbdepth, hbeval⟩ := alternatives (j :: is) (cons_ne_nil _ _) fun k hk => h k (mem_cons_of_mem _ hk)
    refine ⟨.orAppend b a, ?_, ?_, fun leaf => ?_⟩
    · rw [map_cons, map_cons, String.intercalate_cons_cons, String.append_assoc, String.toList_append,
        String.toList_append]
      exact ha.or hb
    · rw [Tree.depth_orAppend]
      exact max_le hadepth hbdepth
    · rw [Tree.eval_orAppend, haeval, hbeval]
      rfl

end

/-- A text that is not nested too deep parses to a query with its meaning. -/
lemma parse (h : Means std l d text m) (hd : d ≤ maxQueryDepth) :
    ∃ q, Query.parseWith std .lucene text = .ok q ∧ ∀ leaf, q.eval leaf = m leaf := by
  obtain ⟨e, hwrites, hdepth, heval⟩ := h.or
  refine ⟨e.query std, parseWith_iff.mpr ⟨e, ⟨hwrites.wellFormed, hdepth.trans hd, hwrites.toks_eq.symm⟩, rfl⟩, ?_⟩
  intro leaf
  rw [eval_query leaf hwrites.wellFormed, heval]

end Means

end GrowlerDB.Core
