import GrowlerDB.Core.Fragments
import GrowlerDB.Engine.OpenSearch.Translation

namespace GrowlerDB.Engine
open Lib Core List Option Bool String Tree Subtype Transducer

variable {std : TextStd}

/-- A value between slashes is read as a regular expression. -/
def slashed (value : List Char) : Bool := 2 ≤ value.length && value.head? = some '/' && value.getLast? = some '/'

/-- A value without white space is one word for the lexer. -/
def Token.solid (value : Token) : Bool := value.val.toList.all (fun c => !Text.isWhitespace c)

def Token.wordy (value : Token) : Bool := value.solid && !slashed value.val.toList

/-- A value that is read as a term behind its field. -/
def Token.single (std : TextStd) (value : Token) : Bool := value.wordy && !isCidr std value.val.toList

/-- A value that is read as a term inside a group, where a word may also be an operator or negated. -/
def Token.grouped (value : Token) : Bool :=
  value.wordy && (operator .lucene value.val.toList).isNone &&
    !(value.val.toList.head? = some '-' && 2 ≤ value.val.toList.length)

section

variable {value : Token} {field : String}

lemma Token.toList_ne_nil (value : Token) : value.val.toList ≠ [] := by
  have hne := value.property.1
  simpa using hne

lemma Token.notMem (value : Token) (hc : c ∈ special) : c ∉ value.val.toList :=
  fun hin => value.property.2 c hin hc

lemma isPlain_of_wordy (h : value.wordy) : ∀ c ∈ value.val.toList, isPlain c := by
  intro c hc
  simp only [Token.wordy, Token.solid, and_eq_true, List.all_eq_true, not_eq_true'] at h
  have hspace := h.1 c hc
  have hne : ∀ d ∈ special, c ≠ d := by
    rintro d hd rfl
    exact value.notMem hd hc
  have hopen := hne '(' (by decide)
  have hclose := hne ')' (by decide)
  have hquote := hne '\x22' (by decide)
  have hbracket := hne '[' (by decide)
  have hbrace := hne '\x7b' (by decide)
  simp [isPlain, delimits, wordMode, hspace, hopen, hclose, hquote, hbracket, hbrace]

lemma wordNode_token (f : Option String) (pos : Nat) :
    wordNode f value.val.toList pos = .ok (.term f value.val) := by
  unfold wordNode
  rw [splitLast_eq_none (value.notMem (by decide))]
  dsimp only
  rw [plainNode, if_neg (not_or.mpr ⟨value.notMem (by decide), value.notMem (by decide)⟩), ofList_toList]

/-- A word is a term, unless it stands behind a field and reads as a network. -/
lemma valueNode_token {f : Option String} (h : value.wordy)
    (hcidr : f ≠ none → isCidr std value.val.toList = false) (pos : Nat) :
    valueNode std f value.val.toList pos = .ok (.term f value.val) := by
  have hstar : value.val.toList ≠ "*".toList ∧ value.val.toList ≠ "*:*".toList := by
    constructor <;> intro heq <;> exact value.notMem (by decide) (heq ▸ mem_cons_self : '*' ∈ value.val.toList)
  have hhead : ∀ c ∈ special, ∀ rest, value.val.toList ≠ c :: rest := by
    intro c hc rest heq
    exact value.notMem hc (heq ▸ mem_cons_self)
  have hregex : ¬ (2 ≤ value.val.toList.length ∧ value.val.toList.head? = some '/' ∧
      value.val.toList.getLast? = some '/') := by
    simp only [Token.wordy, slashed, and_eq_true, not_eq_true', and_eq_false_iff, decide_eq_false_iff_not] at h
    rintro ⟨hlen, hfirst, hlast⟩
    rcases h.2 with (hno | hno) | hno
    · exact hno hlen
    · exact hno hfirst
    · exact hno hlast
  rw [valueNode_other (fun hall => hall.2.elim hstar.1 hstar.2) (hhead _ (by decide)) (hhead _ (by decide))
    (hhead _ (by decide))]
  unfold otherNode
  rw [if_neg hregex]
  cases f with
  | none => exact wordNode_token none pos
  | some f =>
    dsimp only
    rw [hcidr (some_ne_none f)]
    exact wordNode_token (some f) pos

lemma stripBoost_token : stripBoost std value.val.toList = (value.val.toList, none) := by
  rw [stripBoost, splitLast_eq_none (value.notMem (by decide))]

lemma atomQuery_single (hfield : isIdentifier std field.toList) (h : value.single std) :
    atomQuery std (field.toList ++ ':' :: value.val.toList) = some (valueLeaf field value) := by
  simp only [Token.single, and_eq_true, not_eq_true'] at h
  unfold atomQuery atomToQuery
  rw [splitField_written hfield value.toList_ne_nil]
  dsimp only
  rw [stripBoost_token]
  dsimp only
  rw [valueNode_token h.1 fun _ => h.2]
  rfl

lemma atomQuery_grouped (h : value.grouped) :
    atomQuery std value.val.toList = some (.term none value.val) := by
  simp only [Token.grouped, and_eq_true] at h
  have hsplit : splitField std value.val.toList = (none, value.val.toList) := by
    rw [splitField, splitOnce_eq_none (value.notMem (by decide))]
  unfold atomQuery atomToQuery
  rw [hsplit]
  dsimp only
  rw [stripBoost_token]
  dsimp only
  rw [valueNode_token h.1.1 fun hno => absurd rfl hno]
  rfl

lemma tokens_grouped (h : value.grouped) :
    tokens .lucene value.val.toList = [.term value.val.toList] ∧ (lexState value.val.toList).mode = .plain := by
  simp only [Token.grouped, and_eq_true, isNone_iff_eq_none, not_eq_true', and_eq_false_iff,
    decide_eq_false_iff_not] at h
  obtain ⟨⟨hwordy, hop⟩, hminus⟩ := h
  have hrun : cutter.run .start value.val.toList = ([], ⟨.plain, value.val.toList⟩) :=
    run_plain (isPlain_of_wordy hwordy) []
  have hpieces : pieces value.val.toList = [.word value.val.toList] := by
    rw [pieces, output, hrun]
    exact if_neg value.toList_ne_nil
  refine ⟨?_, by rw [lexState, hrun]⟩
  rw [tokens, hpieces, flatMap_singleton, Piece.toks]
  cases hw : value.val.toList with
  | nil => exact absurd hw value.toList_ne_nil
  | cons c rest =>
    rw [hw] at hop hminus
    have hlong : ¬ (c = '-' ∧ rest ≠ []) := by
      rintro ⟨rfl, hrest⟩
      rcases hminus with hno | hno
      · exact hno rfl
      · exact hno (Nat.succ_le_succ (length_pos_iff.mpr hrest))
    rw [flush, hop]
    simp [hlong]

end

variable {value : Token} {field text : String}

lemma means_matchAll : Means std .clause 0 "*:*" (fun _ => true) := by
  have hstar : isIdentifier std ['*'] = false := by
    simp [isIdentifier, std.alphanumeric_ascii '*' (by decide), show Char.isAlphanum '*' = false by decide]
  have hatom : atomQuery std "*:*".toList = some .matchAll := by
    have hsplit : splitField std "*:*".toList = (none, "*:*".toList) := by
      have honce : splitOnce ':' "*:*".toList = some (['*'], ['*']) := by decide
      rw [splitField, honce]
      simp [hstar]
    have hboost : stripBoost std "*:*".toList = ("*:*".toList, none) := by
      rw [stripBoost, splitLast_eq_none (by decide)]
    unfold atomQuery atomToQuery
    rw [hsplit]
    dsimp only
    rw [hboost]
    rfl
  refine ⟨.atom "*:*".toList, ⟨isSome_of_eq_some hatom, by decide, by decide⟩, Nat.zero_le _, fun leaf => ?_⟩
  simp only [eval, hatom]
  rfl

/-- A field and a value that the lexer keeps together mean what the atom is read as. -/
lemma means_written (hstd : std.SpacesApart) (hfield : isIdentifier std field.toList)
    (hrun : ∀ w, cutter.run ⟨.plain, w⟩ rest = ([], ⟨.plain, w ++ rest⟩)) {q : Query}
    (hatom : atomQuery std (field.toList ++ ':' :: rest) = some q) (htext : text.toList = field.toList ++ ':' :: rest) :
    Means std .clause 0 text (fun leaf => q.eval leaf) := by
  obtain ⟨htoks, hsettled⟩ := @tokens_written std field .lucene hstd hfield rest hrun
  refine ⟨.atom text.toList, ⟨?_, ?_, ?_⟩, Nat.zero_le _, fun leaf => ?_⟩
  · rw [htext]
    exact isSome_of_eq_some hatom
  · rw [htext, htoks]
    rfl
  · rw [htext, hsettled]
  · simp only [eval, htext, hatom, Query.within_none]
    rfl

lemma means_value (hstd : std.SpacesApart) (hfield : isIdentifier std field.toList)
    (h : value.single std) :
    Means std .clause 0 (field ++ ":" ++ value.val) (fun leaf => leaf (valueLeaf field value)) := by
  have hwordy : value.wordy := by
    simp only [Token.single, and_eq_true] at h
    exact h.1
  exact means_written hstd hfield (run_plain (isPlain_of_wordy hwordy)) (atomQuery_single hfield h) (by simp)

lemma run_quote (hu : '\x22' ∉ u) (w : List Char) : cutter.run ⟨.quote, w⟩ u = ([], ⟨.quote, w ++ u⟩) := by
  refine run_held (fun c hc w => ?_) w
  change ([], _) = _
  rw [if_neg (ne_of_mem_of_not_mem hc hu)]

lemma stripBoost_quoted (cs : List Char) :
    stripBoost std ('\x22' :: (cs ++ ['\x22'])) = ('\x22' :: (cs ++ ['\x22']), none) := by
  by_cases hcaret : '^' ∈ '\x22' :: (cs ++ ['\x22'])
  · obtain ⟨core, factor, heq, hfactor⟩ := exists_last hcaret
    have hquote : '\x22' ∈ factor := by
      have hlast : (core ++ '^' :: factor).getLast? = some '\x22' := by rw [← heq, ← cons_append, List.getLast?_concat]
      cases hfact : factor with
      | nil =>
        rw [hfact, List.getLast?_concat] at hlast
        cases hlast
      | cons d ds =>
        rw [hfact, List.getLast?_append, List.getLast?_cons_cons] at hlast
        refine mem_of_getLast? ?_
        simpa using hlast
    have hnone : std.parseF32 factor = none := by
      cases hparse : std.parseF32 factor with
      | none => rfl
      | some x => exact absurd hquote (std.f32_no_quote factor x hparse)
    rw [heq, stripBoost, splitLast_append hfactor]
    simp only [hnone]
  · rw [stripBoost, splitLast_eq_none hcaret]

/-- A quoted text means its phrase. -/
lemma means_phrase (hstd : std.SpacesApart) (hfield : isIdentifier std field.toList)
    (hquote : '\x22' ∉ text.toList) : Means std .clause 0 (field ++ ":\x22" ++ text ++ "\x22")
      (fun leaf => leaf (.phrase (some field) ((splitWhitespace text.toList).map ofList) 0)) := by
  have hrun : ∀ w, cutter.run ⟨.plain, w⟩ ('\x22' :: (text.toList ++ ['\x22'])) =
      ([], ⟨.plain, w ++ ('\x22' :: (text.toList ++ ['\x22']))⟩) := by
    intro w
    have hopen : cutter.step ⟨.plain, w⟩ '\x22' = ([], ⟨.quote, w ++ ['\x22']⟩) := rfl
    have hclose : ∀ v, cutter.run ⟨.quote, v⟩ ['\x22'] = ([], ⟨.plain, v ++ ['\x22']⟩) := fun v => rfl
    rw [run, hopen, run_append, run_quote hquote, hclose]
    simp
  have hboost : stripBoost std ('\x22' :: (text.toList ++ ['\x22'])) = ('\x22' :: (text.toList ++ ['\x22']), none) :=
    stripBoost_quoted (text.toList)
  have hatom : atomQuery std (field.toList ++ ':' :: '\x22' :: (text.toList ++ ['\x22'])) =
      some (.phrase (some field) ((splitWhitespace text.toList).map ofList) 0) := by
    unfold atomQuery atomToQuery
    rw [splitField_written hfield (cons_ne_nil _ _)]
    dsimp only
    rw [hboost]
    dsimp only
    unfold valueNode
    rw [if_neg fun hno => some_ne_none _ hno.1]
    change (phraseNode (some field) (text.toList ++ ['\x22']) 0).toOption = _
    unfold phraseNode
    rw [splitOnce_append hquote]
    rfl
  exact means_written hstd hfield hrun hatom (by simp)

def boundChars (b : Bound) : List Char := ((b.1.map Subtype.val).getD "").toList

lemma unbroken_bound (h : b.1.all Token.solid) : Unbroken (boundChars b) := by
  obtain ⟨value, inc⟩ := b
  cases value with
  | none =>
    intro c hc
    exact absurd hc List.not_mem_nil
  | some value =>
    intro c hc
    simp only [Option.all_some, Token.solid, List.all_eq_true, not_eq_true'] at h
    have hspecial : ∀ d ∈ ['*', '^', ']', '\x7d'], d ∈ special := by simp [special]
    exact ⟨h c hc, fun hin => value.notMem (hspecial c hin) hc⟩

lemma bound_read (b : Bound) :
    (if boundChars b = [] then none else some (ofList (boundChars b))) = b.1.map val := by
  obtain ⟨value, inc⟩ := b
  cases value with
  | none => rfl
  | some value =>
    have hne : boundChars (some value, inc) ≠ [] := value.toList_ne_nil
    rw [if_neg hne]
    exact congrArg some ofList_toList

/-- A range means itself, with the bounds that are given. -/
lemma means_range (hstd : std.SpacesApart) (hfield : isIdentifier std field.toList)
    (hlower : lower.1.all Token.solid) (hupper : upper.1.all Token.solid) :
    Means std .clause 0 (field ++ ":" ++ boundsText lower upper)
      (fun leaf => leaf (.range field (lower.1.map val) lower.2 (upper.1.map val) upper.2)) := by
  have hatom := @atomQuery_boundsValue std field _ _ lower.2 upper.2 hfield (unbroken_bound hlower) (unbroken_bound hupper)
  rw [bound_read, bound_read] at hatom
  have hbounds : (boundsText lower upper).toList =
      boundsValue lower.2 (boundChars lower) (boundChars upper) upper.2 := by
    unfold boundsText boundsValue boundChars
    cases lower.2 <;> cases upper.2 <;> simp
  refine means_written hstd hfield (run_boundsValue (unbroken_bound hlower) (unbroken_bound hupper)) hatom ?_
  simp [hbounds]

lemma writes_values : (values : List Token) → values ≠ [] → (∀ v ∈ values, v.grouped) →
    ∃ e : Tree .or, e.Writes std (" OR ".intercalate (values.map val)).toList ∧ e.depth = 0 ∧
      ∀ scope leaf, e.eval std scope leaf = values.any (fun v => leaf (.term scope v.val))
  | [], hne, _ => absurd rfl hne
  | v :: values, _, h => by
    have hv := h v mem_cons_self
    have hatom := @atomQuery_grouped std v hv
    have hword : (Tree.conj (.single (.plain (.atom v.val.toList)))).Writes std v.val.toList :=
      ⟨isSome_of_eq_some hatom, (tokens_grouped hv).1, (tokens_grouped hv).2⟩
    have heval : ∀ scope leaf, (atom v.val.toList).eval std scope leaf = leaf (.term scope v.val) := by
      intro scope leaf
      rw [eval, hatom]
      rfl
    cases values with
    | nil =>
      refine ⟨.conj (.single (.plain (.atom v.val.toList))), ?_, rfl, fun scope leaf => ?_⟩
      · simpa using hword
      · simpa [eval] using heval scope leaf
    | cons v' values =>
      obtain ⟨e, he, hdepth, hany⟩ := writes_values (v' :: values) (cons_ne_nil _ _) fun u hu =>
        h u (mem_cons_of_mem _ hu)
      refine ⟨.orAppend e (.conj (.single (.plain (.atom v.val.toList)))), ?_, ?_, fun scope leaf => ?_⟩
      · rw [map_cons, map_cons, String.intercalate_cons_cons, String.append_assoc, String.toList_append,
          String.toList_append]
        exact hword.or he
      · rw [depth_orAppend, hdepth]
        rfl
      · rw [eval_orAppend, hany, any_cons]
        exact congrArg (· || _) (heval scope leaf)

/-- A group of values under a field means that one of them is the field's. -/
lemma means_group (hstd : std.SpacesApart) (hfield : isIdentifier std field.toList)
    (hne : values ≠ []) (h : ∀ v ∈ values, v.grouped) :
    Means std .clause 1 (groupText field values) (fun leaf => values.any (fun v => leaf (valueLeaf field v))) := by
  obtain ⟨e, he, hdepth, hany⟩ := @writes_values std values hne h
  have htext : (groupText field values).toList =
      field.toList ++ ':' :: '(' :: ((" OR ".intercalate (values.map val)).toList ++ [')']) := by
    simp [groupText]
  refine ⟨.fieldGroup (field.toList ++ [':']) e, ?_, ?_, fun leaf => ?_⟩
  · rw [htext]
    exact he.fieldGroup hstd hfield
  · rw [depth, hdepth]
  · rw [eval, hany, dropLast_concat, ofList_toList]
    rfl

end GrowlerDB.Engine
