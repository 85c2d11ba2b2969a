import GrowlerDB.Core.QueryPieces

namespace GrowlerDB.Engine
open Lib Core List Text

def conj : Syntax → String
  | .kql => "and"
  | .lucene => "AND"

def lexicalQuery (dialect : Syntax) (queryText filter : String) : String :=
  let q := Text.trim queryText
  let f := Text.trim filter
  if f = "" then queryText
  else if q = "" then f
  else "(" ++ q ++ ") " ++ conj dialect ++ " (" ++ f ++ ")"

variable {std : TextStd} {dialect : Syntax}

section

variable {c : Char}

lemma delimits_space (h : isWhitespace c) : delimits c := by
  simp [delimits, h]

lemma ofDelimiter_space (h : isWhitespace c) : Piece.ofDelimiter c = [] := by
  have hparen : c ≠ '(' ∧ c ≠ ')' := by constructor <;> rintro rfl <;> exact absurd h (by decide)
  rw [Piece.ofDelimiter, if_neg hparen.1, if_neg hparen.2]

lemma pieces_dropSpaces (cs : List Char) : pieces (cs.dropWhile isWhitespace) = pieces cs := by
  induction cs with
  | nil => rfl
  | cons c cs ih =>
    by_cases hc : isWhitespace c
    · rw [dropWhile_cons_of_pos hc, ih, head_delimiter (delimits_space hc), ofDelimiter_space hc, nil_append]
    · rw [dropWhile_cons_of_neg hc]

lemma lexState_dropSpaces (cs : List Char) : lexState (cs.dropWhile isWhitespace) = lexState cs := by
  induction cs with
  | nil => rfl
  | cons c cs ih =>
    by_cases hc : isWhitespace c
    · rw [dropWhile_cons_of_pos hc, ih]
      have hstep : cutter.step .start c = ([], .start) := by
        refine (lexStep_delimiter (delimits_space hc) []).trans ?_
        rw [ofDelimiter_space hc]
        rfl
      rw [lexState, lexState, Transducer.run, hstep]
    · rw [dropWhile_cons_of_neg hc]

lemma settled_space (hc : isWhitespace c) (h : (lexState (cs ++ [c])).mode = .plain) :
    (lexState cs).mode = .plain ∧ pieces (cs ++ [c]) = pieces cs := by
  have hmode : (lexState cs).mode = .plain := by
    rw [lexState, Transducer.run_append] at h
    change (lexStep (lexState cs) c).2.mode = .plain at h
    generalize lexState cs = s at h
    obtain ⟨mode, w⟩ := s
    have hchars : c ≠ '\x22' ∧ ¬ (c = ']' ∨ c = '\x7d') := by
      refine ⟨?_, ?_⟩
      · rintro rfl
        exact absurd hc (by decide)
      · rintro (rfl | rfl) <;> exact absurd hc (by decide)
    cases mode with
    | plain => rfl
    | quote => simp [lexStep, hchars.1] at h
    | range => simp [lexStep, hchars.2] at h
  refine ⟨hmode, ?_⟩
  rw [pieces_delimiter hmode (delimits_space hc), ofDelimiter_space hc]
  exact append_nil _

lemma settled_spaces (rs : List Char) (h : (lexState rs.reverse).mode = .plain) :
    (lexState (rs.dropWhile isWhitespace).reverse).mode = .plain ∧
      pieces (rs.dropWhile isWhitespace).reverse = pieces rs.reverse := by
  induction rs with
  | nil => exact ⟨h, rfl⟩
  | cons c rs ih =>
    by_cases hc : isWhitespace c
    · rw [reverse_cons] at h
      obtain ⟨hmode, hpieces⟩ := settled_space hc h
      rw [dropWhile_cons_of_pos hc, reverse_cons, hpieces]
      exact ih hmode
    · rw [dropWhile_cons_of_neg hc]
      exact ⟨h, rfl⟩

lemma settled_trim (h : (lexState cs).mode = .plain) :
    (lexState (trimChars cs)).mode = .plain ∧ pieces (trimChars cs) = pieces cs := by
  rw [← lexState_dropSpaces, ← reverse_reverse (cs.dropWhile _)] at h
  obtain ⟨hmode, hpieces⟩ := settled_spaces _ h
  rw [reverse_reverse, pieces_dropSpaces] at hpieces
  exact ⟨hmode, hpieces⟩

end

/-- A text with a reading that it keeps inside parentheses: it ends outside quotes and ranges, and one
more level of nesting is allowed. -/
structure Standalone (std : TextStd) (dialect : Syntax) (text : String) (e : Tree .or) : Prop where
  sentence : Sentence std (tokens dialect text.toList) e
  depth : e.depth + 1 ≤ maxQueryDepth
  settled : (lexState text.toList).mode = .plain

variable {text queryText filter : String} {e eq ef : Tree .or}

lemma Standalone.trim (h : Standalone std dialect text e) : Standalone std dialect (Text.trim text) e := by
  obtain ⟨hmode, hpieces⟩ := settled_trim h.settled
  have htrim : (Text.trim text).toList = Text.trimChars text.toList := by simp [Text.trim]
  refine ⟨⟨h.sentence.wellFormed, h.sentence.depth_le, ?_⟩, h.depth, by rw [htrim]; exact hmode⟩
  rw [htrim, h.sentence.toks_eq, tokens, tokens, hpieces]

lemma Standalone.ne_empty (h : Standalone std dialect text e) : text ≠ "" := by
  rintro rfl
  obtain ⟨t, ts, he, -⟩ := e.toks_opens
  cases he.symm.trans h.sentence.toks_eq

lemma tokens_conj (dialect : Syntax) (text : List Char) :
    tokens dialect ((" " ++ conj dialect ++ " (").toList ++ text) = .and :: .lparen :: tokens dialect text := by
  have hstate : lexState (" " ++ conj dialect ++ " (").toList = .start := by cases dialect <;> decide
  have htoks : tokens dialect (" " ++ conj dialect ++ " (").toList = [.and, .lparen] := by cases dialect <;> decide
  rw [tokens, pieces_settled hstate, flatMap_append, ← tokens, htoks]
  rfl

lemma sentence_composed (hq : Standalone std dialect queryText eq) (hf : Standalone std dialect filter ef) :
    Sentence std (tokens dialect (lexicalQuery dialect queryText filter).toList)
      (.conj (.and (.plain (.group eq)) true (.single (.plain (.group ef))))) := by
  have hqt := hq.trim
  have hft := hf.trim
  refine ⟨⟨hq.sentence.wellFormed, hf.sentence.wellFormed, fun h => by cases h⟩, max_le hq.depth hf.depth, ?_⟩
  have hcomposed : (lexicalQuery dialect queryText filter).toList = '(' :: ((trim queryText).toList ++
      ')' :: ((" " ++ conj dialect ++ " (").toList ++ ((trim filter).toList ++ ')' :: []))) := by
    simp [lexicalQuery, hft.ne_empty, hqt.ne_empty]
  rw [hcomposed, tokens_opened, tokens_closed hqt.settled, tokens_conj, tokens_closed hft.settled,
    ← hqt.sentence.toks_eq, ← hft.sentence.toks_eq]
  simp [Tree.toks, show tokens dialect [] = [] from rfl]

/-- A filter that stands alone binds: with a query text that stands alone too, the lexical query parses
to the conjunction of the two, and matches what both match. -/
theorem hybrid_filter_binds (hq : Standalone std dialect queryText eq) (hf : Standalone std dialect filter ef) :
    Query.parseWith std dialect queryText = .ok (eq.query std) ∧
    Query.parseWith std dialect filter = .ok (ef.query std) ∧
    ∃ composed, Query.parseWith std dialect (lexicalQuery dialect queryText filter) = .ok composed ∧
      ∀ leaf, composed.eval leaf = ((eq.query std).eval leaf && (ef.query std).eval leaf) := by
  refine ⟨parseWith_iff.mpr ⟨_, hq.sentence, rfl⟩, parseWith_iff.mpr ⟨_, hf.sentence, rfl⟩, _,
    parseWith_iff.mpr ⟨_, sentence_composed hq hf, rfl⟩, ?_⟩
  intro leaf
  rw [Tree.eval_query leaf (sentence_composed hq hf).wellFormed, Tree.eval_query leaf hq.sentence.wellFormed,
    Tree.eval_query leaf hf.sentence.wellFormed]
  rfl

theorem hybrid_filter_words : ∃ composed, Query.parseWith .ascii .kql (lexicalQuery .kql " a " "t:b") = .ok composed ∧
      ∀ leaf, composed.eval leaf = (leaf (.term none "a") && leaf (.term (some "t") "b")) := by
  have hq : Standalone .ascii .kql " a " (.conj (.single (.plain (.atom ['a'])))) :=
    ⟨⟨rfl, by decide, by decide⟩, by decide, by decide⟩
  have hf : Standalone .ascii .kql "t:b" (.conj (.single (.plain (.atom "t:b".toList)))) :=
    ⟨⟨rfl, by decide, by decide⟩, by decide, by decide⟩
  exact (hybrid_filter_binds hq hf).2.2

def holdsWord (word : String) : Query → Bool
  | .term _ value => value == word
  | _ => false

/-- A query text that closes the parenthesis around it leaves the filter to one of two alternatives. -/
theorem hybrid_filter_escaped : lexicalQuery .lucene "a) OR (b" "c" = "(a) OR (b) AND (c)" ∧
    Query.parseWith .ascii .lucene (lexicalQuery .lucene "a) OR (b" "c") =
      .ok (.bool [] [.term none "a", .bool [.term none "b", .term none "c"] [] [] []] [] []) ∧
    Query.parseWith .ascii .lucene "c" = .ok (.term none "c") ∧
    (Query.bool [] [.term none "a", .bool [.term none "b", .term none "c"] [] [] []] [] []).eval (holdsWord "a") = true ∧
    (Query.term none "c").eval (holdsWord "a") = false := by
  have hreading : Sentence .ascii (tokens .lucene "(a) OR (b) AND (c)".toList)
      (.or (.single (.plain (.group (.conj (.single (.plain (.atom ['a'])))))))
        (.conj (.and (.plain (.group (.conj (.single (.plain (.atom ['b'])))))) true
          (.single (.plain (.group (.conj (.single (.plain (.atom ['c'])))))))))) :=
    ⟨⟨rfl, rfl, rfl, fun h => by cases h⟩, by decide, by decide⟩
  have hcomposed : lexicalQuery .lucene "a) OR (b" "c" = "(a) OR (b) AND (c)" := by decide
  refine ⟨hcomposed, ?_, rfl, by decide, by decide⟩
  rw [hcomposed]
  exact parseWith_iff.mpr ⟨_, hreading, rfl⟩

end GrowlerDB.Engine
