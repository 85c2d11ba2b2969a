import GrowlerDB.Core.QuerySentences
import GrowlerDB.Lib.Transducer

namespace GrowlerDB.Core
open Lib List Bool Transducer Spanned Query

inductive Piece
  | lparen
  | rparen
  | word (w : List Char)

def Piece.ofWord (w : List Char) : List Piece := if w = [] then [] else [.word w]

section

variable (dialect : Syntax)

def Piece.toks : Piece → List Tok
  | .lparen => [.lparen]
  | .rparen => [.rparen]
  | .word w => (flush dialect w 0).map Spanned.tok

structure LexState where
  mode : LexMode
  word : List Char
  deriving DecidableEq

def LexState.start : LexState := ⟨.plain, []⟩

def lexStep (s : LexState) (c : Char) : List Piece × LexState :=
  match s.mode with
  | .quote => ([], ⟨if c = '\x22' then .plain else .quote, s.word ++ [c]⟩)
  | .range => ([], ⟨if c = ']' ∨ c = '\x7d' then .plain else .range, s.word ++ [c]⟩)
  | .plain =>
    if c = '\x22' then ([], ⟨.quote, s.word ++ [c]⟩)
    else if c = '[' ∨ c = '\x7b' then ([], ⟨.range, s.word ++ [c]⟩)
    else if c = '(' then (Piece.ofWord s.word ++ [.lparen], .start)
    else if c = ')' then (Piece.ofWord s.word ++ [.rparen], .start)
    else if Text.isWhitespace c then (Piece.ofWord s.word, .start)
    else ([], ⟨.plain, s.word ++ [c]⟩)

lemma lexStep_plain (w : List Char) (c : Char) : lexStep ⟨.plain, w⟩ c = if c = '\x22' then ([], ⟨.quote, w ++ [c]⟩)
    else if c = '[' ∨ c = '\x7b' then ([], ⟨.range, w ++ [c]⟩)
    else if c = '(' then (Piece.ofWord w ++ [.lparen], .start)
    else if c = ')' then (Piece.ofWord w ++ [.rparen], .start)
    else if Text.isWhitespace c then (Piece.ofWord w, .start) else ([], ⟨.plain, w ++ [c]⟩) := rfl

def cutter : Transducer LexState Char Piece := ⟨lexStep, fun s => Piece.ofWord s.word⟩

def pieces (cs : List Char) : List Piece := cutter.output .start cs

def lexState (cs : List Char) : LexState := (cutter.run .start cs).2

def tokens (cs : List Char) : List Tok := (pieces cs).flatMap (Piece.toks dialect)

lemma flush_pos (w : List Char) (i j : Nat) :
    (flush dialect w i).map tok = (flush dialect w j).map tok := by
  unfold flush
  split
  · rfl
  · split
    · rfl
    · split_ifs <;> rfl

lemma toks_ofWord (w : List Char) (i : Nat) :
    (Piece.ofWord w).flatMap (Piece.toks dialect) = (flush dialect w i).map tok := by
  unfold Piece.ofWord
  split_ifs with h
  · subst h
    rfl
  · rw [flatMap_singleton]
    exact flush_pos dialect w 0 i

end

lemma toks_word_ne_nil {w : List Char} (hw : w ≠ []) : Piece.toks dialect (.word w) ≠ [] := by
  rw [Piece.toks]
  unfold flush
  split
  · exact absurd rfl hw
  · split
    · exact cons_ne_nil _ _
    · split_ifs
      · exact cons_ne_nil _ _
      · exact cons_ne_nil _ _

lemma operator_not_term : operator dialect w ≠ some (.term t) := by
  unfold operator
  split
  · split_ifs <;> simp
  · split_ifs <;> simp

lemma paren_notMem_toks {w : List Char} :
    .lparen ∉ Piece.toks dialect (.word w) ∧ .rparen ∉ Piece.toks dialect (.word w) := by
  have hop : operator dialect w ≠ some .lparen ∧ operator dialect w ≠ some .rparen := by
    unfold operator
    split
    · split_ifs <;> simp
    · split_ifs <;> simp
  rw [Piece.toks]
  unfold flush
  split
  · simp
  · cases h : operator dialect _ with
    | some op =>
      rw [h] at hop
      simp only [map_cons, map_nil, mem_singleton]
      exact ⟨fun heq => hop.1 (heq ▸ rfl), fun heq => hop.2 (heq ▸ rfl)⟩
    | none =>
      dsimp only
      split_ifs <;> simp

lemma lexFrom_tok (dialect : Syntax) (mode : LexMode) (w cs : List Char) (i start : Nat) :
    (lexFrom dialect i start w mode cs).map tok =
      (cutter.output ⟨mode, w⟩ cs).flatMap (Piece.toks dialect) := by
  induction cs generalizing mode w i start with
  | nil =>
    have hlex : lexFrom dialect i start w mode [] = flush dialect w start := by cases mode <;> rfl
    rw [hlex]
    exact (toks_ofWord dialect w start).symm
  | cons c cs ih =>
    rw [output_cons]
    cases mode with
    | quote => exact ih _ _ _ _
    | range => exact ih _ _ _ _
    | plain =>
      rw [lexFrom]
      generalize (if w = [] then i else start) = begun
      change _ = List.flatMap _ ((lexStep ⟨.plain, w⟩ c).1 ++ cutter.output (lexStep ⟨.plain, w⟩ c).2 cs)
      rw [flatMap_append, lexStep_plain]
      have hnext := ih .plain [] (i + c.utf8Size) begun
      split_ifs
      · exact ih _ _ _ _
      · exact ih _ _ _ _
      · rw [flatMap_append, toks_ofWord dialect w begun, map_append, map_cons, hnext]
        simp [Piece.toks, LexState.start]
      · rw [flatMap_append, toks_ofWord dialect w begun, map_append, map_cons, hnext]
        simp [Piece.toks, LexState.start]
      · rw [toks_ofWord dialect w begun, map_append, hnext]
        rfl
      · exact ih _ _ _ _

lemma lex_tok (dialect : Syntax) (input : String) :
    (lex dialect input).map tok = tokens dialect input.toList := lexFrom_tok dialect .plain [] _ 0 0

variable {c : Char}

lemma pieces_append (xs ys : List Char) :
    pieces (xs ++ ys) = (cutter.run .start xs).1 ++ cutter.output (lexState xs) ys :=
  cutter.output_append .start xs ys

lemma pieces_settled (h : lexState xs = .start) (ys : List Char) : pieces (xs ++ ys) = pieces xs ++ pieces ys := by
  have hnil : pieces xs = (cutter.run .start xs).1 := by
    have := pieces_append xs []
    rw [append_nil, h] at this
    rw [this]
    exact append_nil _
  rw [pieces_append, h, hnil]
  rfl

def delimits (c : Char) : Bool := c = '(' || c = ')' || Text.isWhitespace c

def Piece.ofDelimiter (c : Char) : List Piece := if c = '(' then [.lparen] else if c = ')' then [.rparen] else []

lemma lexStep_delimiter (h : delimits c) (w : List Char) :
    lexStep ⟨.plain, w⟩ c = (Piece.ofWord w ++ Piece.ofDelimiter c, .start) := by
  have hquote : c ≠ '\x22' := by
    rintro rfl
    exact absurd h (by decide)
  have hrange : ¬ (c = '[' ∨ c = '\x7b') := by rintro (rfl | rfl) <;> exact absurd h (by decide)
  rw [lexStep_plain, if_neg hquote, if_neg hrange, Piece.ofDelimiter]
  split_ifs with hopen hclose hspace
  · rfl
  · rfl
  · rw [append_nil]
  · simp [delimits, hopen, hclose, hspace] at h

lemma pieces_delimiter (hmode : (lexState xs).mode = .plain) (hc : delimits c) (ys : List Char) :
    pieces (xs ++ c :: ys) = pieces xs ++ (Piece.ofDelimiter c ++ pieces ys) := by
  have hfinish : pieces xs = (cutter.run .start xs).1 ++ Piece.ofWord (lexState xs).word := rfl
  obtain ⟨w, hstate⟩ : ∃ w, lexState xs = ⟨.plain, w⟩ := ⟨(lexState xs).word, by rw [← hmode]⟩
  rw [pieces_append, output_cons, hfinish, hstate]
  change _ ++ ((lexStep ⟨.plain, w⟩ c).1 ++ cutter.output (lexStep ⟨.plain, w⟩ c).2 ys) = _
  rw [lexStep_delimiter hc]
  simp only [append_assoc]
  rfl

lemma head_delimiter (hc : delimits c) (cs : List Char) :
    pieces (c :: cs) = Piece.ofDelimiter c ++ pieces cs :=
  @pieces_delimiter c [] rfl hc cs

def wordMode (c : Char) : LexMode :=
  if c = '\x22' then .quote else if c = '[' ∨ c = '\x7b' then .range else .plain

lemma lexStep_word (h : delimits c = false) (w : List Char) :
    lexStep ⟨.plain, w⟩ c = ([], ⟨wordMode c, w ++ [c]⟩) := by
  simp only [delimits, or_eq_false_iff, decide_eq_false_iff_not] at h
  obtain ⟨⟨hopen, hclose⟩, hspace⟩ := h
  rw [lexStep_plain, if_neg hopen, if_neg hclose, hspace, wordMode]
  split_ifs <;> first | rfl | contradiction

lemma output_begun (u : List Char) (hw : w ≠ []) (mode : LexMode) (cs : List Char) :
    ∃ v ps, v ≠ [] ∧ cutter.output ⟨mode, w⟩ cs = .word v :: ps ∧
      cutter.output ⟨mode, u ++ w⟩ cs = .word (u ++ v) :: ps := by
  have hflush : Piece.ofWord w = [.word w] ∧ Piece.ofWord (u ++ w) = [.word (u ++ w)] :=
    ⟨if_neg hw, if_neg (by simp [hw])⟩
  induction cs generalizing mode w with
  | nil => exact ⟨w, [], hw, hflush.1, hflush.2⟩
  | cons c cs ih =>
    have hmore : ∀ mode, ∃ v ps, v ≠ [] ∧ cutter.output ⟨mode, w ++ [c]⟩ cs = .word v :: ps ∧
        cutter.output ⟨mode, u ++ w ++ [c]⟩ cs = .word (u ++ v) :: ps := by
      intro mode
      rw [append_assoc]
      exact ih (by simp) mode ⟨if_neg (by simp), if_neg (by simp)⟩
    rw [output_cons, output_cons]
    cases mode with
    | quote => exact hmore _
    | range => exact hmore _
    | plain =>
      change ∃ v ps, v ≠ [] ∧ (lexStep ⟨.plain, w⟩ c).1 ++ cutter.output (lexStep ⟨.plain, w⟩ c).2 cs = _ ∧
        (lexStep ⟨.plain, u ++ w⟩ c).1 ++ cutter.output (lexStep ⟨.plain, u ++ w⟩ c).2 cs = _
      by_cases hc : delimits c
      · rw [lexStep_delimiter hc, lexStep_delimiter hc, hflush.1, hflush.2]
        exact ⟨w, _, hw, rfl, rfl⟩
      · rw [lexStep_word (not_eq_true _ ▸ hc), lexStep_word (not_eq_true _ ▸ hc)]
        exact hmore _

def isPlain (c : Char) : Bool := !delimits c && wordMode c = .plain

/-- Characters that leave the mode as it is only lengthen the word. -/
lemma run_held (hu : ∀ c ∈ u, ∀ w, cutter.step ⟨mode, w⟩ c = ([], ⟨mode, w ++ [c]⟩)) (w : List Char) :
    cutter.run ⟨mode, w⟩ u = ([], ⟨mode, w ++ u⟩) := by
  induction u generalizing w with
  | nil => simp
  | cons c u ih =>
    rw [run, hu c mem_cons_self, ih fun d hd => hu d (mem_cons_of_mem _ hd)]
    simp

lemma run_plain (hu : ∀ c ∈ u, isPlain c) (w : List Char) :
    cutter.run ⟨.plain, w⟩ u = ([], ⟨.plain, w ++ u⟩) := by
  refine run_held (fun c hin w => ?_) w
  have hc := hu c hin
  simp only [isPlain, and_eq_true, not_eq_true', decide_eq_true_eq] at hc
  have hstep : cutter.step ⟨.plain, w⟩ c = ([], ⟨wordMode c, w ++ [c]⟩) := lexStep_word hc.1 w
  rwa [hc.2] at hstep

lemma pieces_prepend (hu : ∀ c ∈ u, isPlain c) (hc : delimits c = false) (cs : List Char) :
    ∃ v ps, v ≠ [] ∧ pieces (c :: cs) = .word v :: ps ∧ pieces (u ++ c :: cs) = .word (u ++ v) :: ps := by
  obtain ⟨v, ps, hv, hplain, hlong⟩ := output_begun u (cons_ne_nil c []) (wordMode c) cs
  refine ⟨v, ps, hv, ?_, ?_⟩
  · rw [pieces, output_cons, ← hplain]
    exact congrArg (fun r => r.1 ++ cutter.output r.2 cs) (lexStep_word hc [])
  · rw [pieces_append, lexState, LexState.start, run_plain hu, output_cons, ← hlong]
    exact congrArg (fun r => r.1 ++ cutter.output r.2 cs) (lexStep_word hc u)

lemma parseTokens_pos (h : ss.map tok = ss'.map tok) :
    (parseTokens std ss).toOption = (parseTokens std ss').toOption := by
  have hiff : ∀ q, parseTokens std ss = .ok q ↔ parseTokens std ss' = .ok q := by
    intro q
    rw [parses_iff, parses_iff, h]
  cases hs : parseTokens std ss with
  | ok q => rw [(hiff q).mp hs]
  | error e =>
    cases hs' : parseTokens std ss' with
    | ok q =>
      rw [(hiff q).mpr hs'] at hs
      cases hs
    | error e' => rfl

lemma parseWith_iff : parseWith std dialect input = .ok q ↔
      ∃ e, Sentence std (tokens dialect input.toList) e ∧ q = e.query std := by
  rw [parseWith, parses_iff, lex_tok]

lemma parseWith_congr (h : tokens dialect input.toList = tokens dialect input'.toList) :
    (parseWith std dialect input).toOption = (parseWith std dialect input').toOption :=
  parseTokens_pos (by rw [lex_tok, lex_tok, h])

def Tok.shift : Tok → Nat → Nat
  | .lparen, n => n + 1
  | .rparen, n => n - 1
  | _, n => n

def peak : Nat → List Tok → Nat
  | n, [] => n
  | n, t :: ts => max n (peak (t.shift n) ts)

lemma le_peak (n : Nat) (ts : List Tok) : n ≤ peak n ts := by
  cases ts with
  | nil => exact Nat.le_refl n
  | cons t ts => exact Nat.le_max_left _ _

lemma peak_same (h : t.shift n = n) (ts : List Tok) : peak n (t :: ts) = peak n ts := by
  rw [peak, h]
  exact Nat.max_eq_right (le_peak n ts)

lemma peak_group (rest : List Tok)
    (h : peak (n + 1) (ts ++ .rparen :: rest) = max (n + 1 + m) (peak (n + 1) (.rparen :: rest))) :
    peak n (.lparen :: (ts ++ .rparen :: rest)) = max (n + (m + 1)) (peak n rest) := by
  have hle := le_peak n rest
  rw [peak, Tok.shift, h, peak, Tok.shift, Nat.add_sub_cancel]
  omega

lemma Tree.peak_toks : {l : Level} → (e : Tree l) → (n : Nat) → (rest : List Tok) →
    peak n (e.toks ++ rest) = max (n + e.depth) (peak n rest)
  | _, .atom w, n, rest => by
    have hle := le_peak n rest
    rw [toks, singleton_append, peak_same rfl, depth]
    omega
  | _, .group e, n, rest => by
    rw [toks, cons_append, append_assoc, singleton_append]
    exact peak_group rest (e.peak_toks (n + 1) _)
  | _, .fieldGroup w e, n, rest => by
    rw [toks, cons_append, cons_append, append_assoc, singleton_append, peak_same rfl]
    exact peak_group rest (e.peak_toks (n + 1) _)
  | _, .plain c, n, rest => c.peak_toks n rest
  | _, .not c, n, rest => (peak_same rfl _).trans (c.peak_toks n rest)
  | _, .single u, n, rest => u.peak_toks n rest
  | _, .and u written e, n, rest => by
    have hand : peak n ((if written then [.and] else []) ++ (e.toks ++ rest)) = peak n (e.toks ++ rest) := by
      cases written with
      | true => exact peak_same rfl _
      | false => rfl
    rw [toks, append_assoc, append_assoc, u.peak_toks, hand, e.peak_toks, depth]
    omega
  | _, .conj a, n, rest => a.peak_toks n rest
  | _, .or a e, n, rest => by
    rw [toks, append_assoc, cons_append, a.peak_toks, peak_same rfl, e.peak_toks, depth]
    omega

lemma Tree.depth_eq (e : Tree l) : e.depth = peak 0 e.toks := by
  have h := e.peak_toks 0 []
  rw [append_nil] at h
  rw [h, peak]
  omega

lemma Tree.balanced : {l : Level} → (e : Tree l) → e.toks.count .lparen = e.toks.count .rparen
  | _, .atom w => by simp [toks]
  | _, .group e => by simp [toks, e.balanced]
  | _, .fieldGroup w e => by simp [toks, e.balanced]
  | _, .plain c => c.balanced
  | _, .not c => by simp [toks, c.balanced]
  | _, .single u => u.balanced
  | _, .and u written e => by
    have hand : ∀ t : Tok, t ≠ .and → (if written then [Tok.and] else []).count t = 0 := by
      intro t ht
      cases written <;> simp [Ne.symm ht]
    simp [toks, u.balanced, e.balanced, hand]
  | _, .conj a => a.balanced
  | _, .or a e => by simp [toks, a.balanced, e.balanced]

lemma tokens_closed (h : (lexState text).mode = .plain) :
    tokens dialect (text ++ ')' :: rest) = tokens dialect text ++ .rparen :: tokens dialect rest := by
  rw [tokens, pieces_delimiter h (by decide), flatMap_append, flatMap_append]
  rfl

lemma tokens_opened : tokens dialect ('(' :: text) = .lparen :: tokens dialect text := by
  rw [tokens, head_delimiter (by decide), flatMap_append]
  rfl

lemma count_paren_ofWord (ht : t = .lparen ∨ t = .rparen) (w : List Char) :
    ((Piece.ofWord w).flatMap (Piece.toks dialect)).count t = 0 := by
  unfold Piece.ofWord
  split_ifs
  · rfl
  · rw [flatMap_singleton, count_eq_zero]
    rcases ht with rfl | rfl
    · exact paren_notMem_toks.1
    · exact paren_notMem_toks.2

lemma count_unclosed (h : (lexState text).mode ≠ .plain) (ht : t = .lparen ∨ t = .rparen) :
    (tokens dialect (text ++ [')'])).count t = (tokens dialect text).count t := by
  have hplain : pieces text = (cutter.run .start text).1 ++ Piece.ofWord (lexState text).word := rfl
  have hlong : ∃ w, pieces (text ++ [')']) = (cutter.run .start text).1 ++ Piece.ofWord w := by
    rw [pieces_append]
    generalize lexState text = s at h
    obtain ⟨mode, w⟩ := s
    cases mode with
    | plain => exact absurd rfl h
    | _ => exact ⟨w ++ [')'], rfl⟩
  obtain ⟨w, hlong⟩ := hlong
  rw [tokens, tokens, hplain, hlong, flatMap_append, flatMap_append, count_append,
    count_append, count_paren_ofWord ht, count_paren_ofWord ht]

open Option

variable {std : TextStd}

def IsClause (std : TextStd) (clause : String) : Prop :=
  (∃ c : Tree .clause, c.WellFormed std ∧ c.depth ≤ maxQueryDepth ∧ tokens .lucene clause.toList = c.toks) ∧
    ∀ c ∈ clause.toList.head?, Text.isWhitespace c = false

/-- A text that stands between two others with its own tokens. -/
structure Placed (before clause after : String) : Prop where
  start : lexState before.toList = .start
  own : tokens .lucene (clause.toList ++ after.toList) = tokens .lucene clause.toList ++ tokens .lucene after.toList

lemma operator_minus (w : List Char) : operator .lucene ('-' :: w) = none := by
  have hupper : Char.toUpper '-' = '-' := rfl
  simp [operator, toAsciiUppercase, hupper]

lemma toks_minus (hw : w ≠ []) : Piece.toks .lucene (.word ('-' :: w)) = [.not, .term w] := by
  simp [Piece.toks, flush, operator_minus, hw]

lemma toks_term (h : Piece.toks .lucene (.word w) = .term t :: ts) :
    Piece.toks .lucene (.word w) = [.term w] ∧ w ≠ [] := by
  simp only [Piece.toks] at h ⊢
  unfold flush at h ⊢
  split
  · cases h
  · rename_i c rest
    dsimp only at h
    cases hop : operator .lucene (c :: rest) with
    | some op =>
      rw [hop] at h
      obtain ⟨rfl, -⟩ := List.cons.inj h
      exact absurd hop operator_not_term
    | none =>
      rw [hop] at h
      dsimp only at h ⊢
      split_ifs at h ⊢
      · cases h
      · exact ⟨rfl, cons_ne_nil _ _⟩

lemma tokens_minus (hword : ∀ c ∈ text.head?, delimits c = false)
    (h : tokens .lucene text = .term t :: ts) : tokens .lucene ('-' :: text) = .not :: tokens .lucene text := by
  cases text with
  | nil => cases h
  | cons c cs =>
    have hminus : ∀ d ∈ ['-'], isPlain d := forall_mem_singleton.mpr rfl
    obtain ⟨v, ps, hv, hplain, hlong⟩ := pieces_prepend hminus (hword c rfl) cs
    have hfirst : ∃ us, Piece.toks .lucene (.word v) = .term t :: us := by
      rw [tokens, hplain, flatMap_cons] at h
      obtain ⟨u, us, hus⟩ := exists_cons_of_ne_nil (@toks_word_ne_nil .lucene _ hv)
      rw [hus, cons_append] at h
      exact ⟨us, hus.trans (congrArg (· :: us) (List.cons.inj h).1)⟩
    obtain ⟨us, hus⟩ := hfirst
    obtain ⟨hterm, hne⟩ := toks_term hus
    change List.flatMap _ (pieces (['-'] ++ c :: cs)) = _
    rw [hlong, flatMap_cons, tokens, hplain, flatMap_cons, hterm]
    exact congrArg (· ++ _) (toks_minus hne)

lemma tokens_not (text : List Char) : tokens .lucene ("NOT ".toList ++ text) = .not :: tokens .lucene text := by
  rw [tokens, pieces_settled (by decide), flatMap_append]
  rfl

lemma IsClause.first (h : IsClause std clause) :
    (clause.toList.head? = some '(' ∧ ∃ e : Tree .or, e.WellFormed std ∧ e.depth + 1 ≤ maxQueryDepth ∧
      tokens .lucene clause.toList = (Tree.group e).toks) ∨
    (∀ c ∈ clause.toList.head?, delimits c = false) ∧ ∃ t ts, tokens .lucene clause.toList = .term t :: ts := by
  obtain ⟨⟨c, hwf, hd, htoks⟩, hspace⟩ := h
  generalize clause.toList = text at htoks hspace ⊢
  cases text with
  | nil =>
    obtain ⟨t, ts, hc, -⟩ := c.toks_opens
    cases htoks.trans hc
  | cons x xs =>
    by_cases hx : delimits x
    · have hparen : x = '(' ∨ x = ')' := by
        simp only [delimits, Bool.or_eq_true, decide_eq_true_eq, hspace x rfl] at hx
        simpa using hx
      rw [tokens, head_delimiter hx] at htoks
      rcases hparen with rfl | rfl
      · cases c with
        | group e =>
          left
          refine ⟨rfl, e, hwf, hd, ?_⟩
          rw [tokens, head_delimiter hx]
          exact htoks
        | _ => cases htoks
      · cases c with
        | _ => cases htoks
    · right
      rw [Bool.not_eq_true] at hx
      refine ⟨fun c hc => some.inj hc ▸ hx, ?_⟩
      obtain ⟨v, ps, hv, hplain, -⟩ := pieces_prepend (u := []) (by simp) hx xs
      obtain ⟨u, us, hus⟩ := exists_cons_of_ne_nil (@toks_word_ne_nil .lucene _ hv)
      rw [tokens, hplain, flatMap_cons, hus] at htoks
      rw [tokens, hplain, flatMap_cons, hus]
      cases c with
      | atom w => exact ⟨w, _, congrArg (· :: _) (List.cons.inj htoks).1⟩
      | fieldGroup w e => exact ⟨w, _, congrArg (· :: _) (List.cons.inj htoks).1⟩
      | group e =>
        have hlparen := (List.cons.inj htoks).1
        exact absurd (hus ▸ hlparen ▸ mem_cons_self) (@paren_notMem_toks .lucene v).1

/-- A minus before a parenthesis is one more term, and a negation is none. -/
lemma minus_group (hhead : text.head? = some '(')
    (htoks : tokens .lucene text = (Tree.group e).toks) :
    tokens .lucene ('-' :: text) = (Tree.conj (.and (.plain (.atom ['-'])) false (.single (.plain (.group e))))).toks := by
  cases text with
  | nil => cases hhead
  | cons x xs =>
    cases hhead
    have hcut : pieces ('-' :: '(' :: xs) = [.word ['-']] ++ pieces ('(' :: xs) := by
      rw [head_delimiter (c := '(') (by decide)]
      exact @pieces_delimiter '(' ['-'] (by decide) (by decide) xs
    rw [tokens, hcut, flatMap_append, ← tokens, htoks]
    rfl

/-- A minus negates a clause wherever it stands if and only if the clause does not start with a
parenthesis. -/
theorem minus_negates_iff {clause : String} (h : IsClause std clause) :
    (∀ before after, Placed before clause after →
      (Query.parseWith std .lucene (before ++ "-" ++ clause ++ after)).toOption =
        (Query.parseWith std .lucene (before ++ "NOT " ++ clause ++ after)).toOption) ↔
    clause.toList.head? ≠ some '(' := by
  rcases h.first with ⟨hhead, e, hwf, hd, htoks⟩ | ⟨hword, t, ts, hterm⟩
  · refine iff_of_false (fun hall => ?_) (not_not.mpr hhead)
    have hplaced : Placed "" clause "" := by
      refine ⟨rfl, ?_⟩
      rw [show "".toList = [] from rfl, append_nil]
      exact (append_nil _).symm
    have hminus : Sentence std (tokens .lucene ("" ++ "-" ++ clause ++ "").toList)
        (.conj (.and (.plain (.atom ['-'])) false (.single (.plain (.group e))))) := by
      refine ⟨⟨rfl, hwf, fun _ => rfl⟩, by simpa [Tree.depth] using hd, ?_⟩
      rw [← minus_group hhead htoks]
      simp
    have hnot : Sentence std (tokens .lucene ("" ++ "NOT " ++ clause ++ "").toList)
        (.conj (.single (.not (.group e)))) := by
      refine ⟨hwf, hd, ?_⟩
      have htext : ("" ++ "NOT " ++ clause ++ "").toList = "NOT ".toList ++ clause.toList := by simp
      rw [htext, tokens_not, htoks]
      rfl
    have hsame := hall "" "" hplaced
    rw [parseWith_iff.mpr ⟨_, hminus, rfl⟩, parseWith_iff.mpr ⟨_, hnot, rfl⟩] at hsame
    cases some.inj hsame
  · refine iff_of_true (fun before after hplaced => parseWith_congr ?_) (fun hhead => ?_)
    · have htext : ∀ sep : String, (before ++ sep ++ clause ++ after).toList =
          before.toList ++ (sep.toList ++ (clause.toList ++ after.toList)) := by simp
      have hfirst : ∀ c ∈ (clause.toList ++ after.toList).head?, delimits c = false := by
        intro c hc
        cases hclause : clause.toList with
        | nil => rw [hclause] at hterm; cases hterm
        | cons x xs => 
          rw [hclause] at hc hword
          exact hword c hc
      have hown : tokens .lucene (clause.toList ++ after.toList) = .term t :: (ts ++ tokens .lucene after.toList) := by
        rw [hplaced.own, hterm]
        rfl
      rw [htext, htext, tokens, pieces_settled hplaced.start, tokens, pieces_settled hplaced.start,
        flatMap_append, flatMap_append]
      exact congrArg _ ((tokens_minus hfirst hown).trans (tokens_not _).symm)
    · exact absurd (hword '(' hhead) (by decide)

lemma isClause_word : IsClause .ascii "a" :=
  ⟨⟨.atom ['a'], rfl, Nat.zero_le _, rfl⟩, fun _ hc => some.inj hc ▸ rfl⟩

theorem minus_negates_word : IsClause .ascii "a" ∧
    (Query.parseWith .ascii .lucene "b OR -a").toOption = (Query.parseWith .ascii .lucene "b OR NOT a").toOption :=
  ⟨isClause_word, (minus_negates_iff isClause_word).mpr (by decide) "b OR " "" ⟨rfl, rfl⟩⟩

/-- A minus before a group is a word that is required beside the group. -/
theorem minus_before_group : IsClause .ascii "(a)" ∧ Placed "" "(a)" "" ∧
    Query.parseWith .ascii .lucene "-(a)" = .ok (.bool [.term none "-", .term none "a"] [] [] []) ∧
    Query.parseWith .ascii .lucene "NOT (a)" = .ok (.bool [] [] [.term none "a"] []) :=
  ⟨⟨⟨.group (.conj (.single (.plain (.atom ['a'])))), rfl, by decide, rfl⟩, fun _ hc => some.inj hc ▸ rfl⟩,
    ⟨rfl, rfl⟩, rfl, rfl⟩

end GrowlerDB.Core
