import GrowlerDB.Core.QualifiedTree

namespace GrowlerDB.Core
open Lib List String Text Piece Transducer

variable {std : TextStd}

def TextStd.SpacesApart (std : TextStd) : Prop := ∀ c, std.isAlphanumeric c = true → Text.isWhitespace c = false

lemma spacesApart_ascii : TextStd.ascii.SpacesApart := by
  intro c hc
  have hrange : (48 ≤ c.toNat ∧ c.toNat ≤ 57) ∨ (65 ≤ c.toNat ∧ c.toNat ≤ 90) ∨ (97 ≤ c.toNat ∧ c.toNat ≤ 122) := by
    change ((decide (65 ≤ c.val ∧ c.val ≤ 90) || (decide (97 ≤ c.val) && decide (c.val ≤ 122))) ||
      (decide (48 ≤ c.val) && decide (c.val ≤ 57))) = true at hc
    simp only [Bool.or_eq_true, Bool.and_eq_true, decide_eq_true_eq, UInt32.le_iff_toNat_le] at hc
    change ((65 ≤ c.toNat ∧ c.toNat ≤ 90) ∨ 97 ≤ c.toNat ∧ c.toNat ≤ 122) ∨ 48 ≤ c.toNat ∧ c.toNat ≤ 57 at hc
    omega
  simp only [isWhitespace, Bool.or_eq_false_iff, Bool.and_eq_false_iff, decide_eq_false_iff_not, beq_eq_false_iff_ne]
  omega

variable {field : String}

lemma isPlain_of_identifier (hstd : std.SpacesApart) (h : isIdentifier std field.toList) :
    ∀ c ∈ field.toList, isPlain c := by
  intro c hc
  have hnot : ∀ d : Char, d.toNat < 128 → (d.isAlphanum || d == '_' || d == '.') = false → c ≠ d := by
    rintro d hd hno rfl
    exact notMem_identifier h hd hno hc
  rw [isIdentifier, Bool.and_eq_true, all_eq_true] at h
  have hident := h.2 c hc
  have hspace : isWhitespace c = false := by
    simp only [Bool.or_eq_true, beq_iff_eq] at hident
    rcases hident with (halnum | rfl) | rfl
    · exact hstd c halnum
    · decide
    · decide
  have hparen := hnot '(' (by decide) (by decide)
  have hclose := hnot ')' (by decide) (by decide)
  have hquote := hnot '\x22' (by decide) (by decide)
  have hrange := hnot '[' (by decide) (by decide)
  have hbrace := hnot '\x7b' (by decide) (by decide)
  simp [isPlain, delimits, wordMode, hspace, hparen, hclose, hquote, hrange, hbrace]

lemma operator_colon (h : ':' ∈ w) : operator dialect w = none := by
  have hne : ∀ v : List Char, ':' ∉ v → toAsciiUppercase w ≠ v ∧ w ≠ v := by
    intro v hv
    constructor
    · rintro rfl
      exact hv (mem_map.mpr ⟨':', h, rfl⟩)
    · rintro rfl
      exact hv h
  cases dialect with
  | lucene =>
    have hand := hne "AND".toList (by decide)
    have hand' := hne "&&".toList (by decide)
    have hor := hne "OR".toList (by decide)
    have hor' := hne "||".toList (by decide)
    have hnot := hne "NOT".toList (by decide)
    rw [operator, if_neg (not_or.mpr ⟨hand.1, hand'.2⟩), if_neg (not_or.mpr ⟨hor.1, hor'.2⟩), if_neg hnot.1]
  | kql => rw [operator, if_neg (hne _ (by decide)).2, if_neg (hne _ (by decide)).2, if_neg (hne _ (by decide)).2]

lemma toks_field (h : isIdentifier std field.toList) (w : List Char) :
    toks dialect (.word (field.toList ++ ':' :: w)) = [.term (field.toList ++ ':' :: w)] := by
  have hop : operator dialect (field.toList ++ ':' :: w) = none := operator_colon (by simp)
  have hminus := notMem_identifier h (d := '-') (by decide) (by decide)
  rw [toks]
  cases hlist : field.toList with
  | nil => simp [isIdentifier, hlist] at h
  | cons c cs =>
    rw [hlist] at hop hminus
    have hc : c ≠ '-' := fun heq => hminus (heq ▸ mem_cons_self)
    rw [cons_append] at hop ⊢
    rw [flush, hop]
    simp [hc]

lemma run_field (hstd : std.SpacesApart) (h : isIdentifier std field.toList) (w : List Char) :
    cutter.run ⟨.plain, w⟩ (field.toList ++ [':']) = ([], ⟨.plain, w ++ (field.toList ++ [':'])⟩) := by
  refine run_plain (fun c hc => ?_) w
  rcases mem_append.mp hc with hc | hc
  · exact isPlain_of_identifier hstd h c hc
  · rw [mem_singleton.mp hc]
    decide

lemma tokens_field (hstd : std.SpacesApart) (h : isIdentifier std field.toList) (text : List Char) :
    tokens .lucene (field.toList ++ ':' :: '(' :: text) =
      .term (field.toList ++ [':']) :: .lparen :: tokens .lucene text := by
  have hstate : cutter.run .start (field.toList ++ [':']) = ([], ⟨.plain, field.toList ++ [':']⟩) := run_field hstd h []
  have hmode : (lexState (field.toList ++ [':'])).mode = .plain := by rw [lexState, hstate]
  have hword : pieces (field.toList ++ [':']) = [.word (field.toList ++ [':'])] := by
    change (cutter.run .start _).1 ++ ofWord (lexState _).word = _
    rw [lexState, hstate]
    simp [ofWord]
  have hsplit : field.toList ++ ':' :: '(' :: text = (field.toList ++ [':']) ++ '(' :: text := by simp
  rw [hsplit, tokens, pieces_delimiter hmode (by decide), hword, flatMap_append, flatMap_append]
  rw [flatMap_singleton, toks_field h []]
  rfl

lemma term_ne_nil (h : .term w ∈ tokens dialect text) : w ≠ [] := by
  obtain ⟨piece, -, hpiece⟩ := mem_flatMap.mp h
  cases piece with
  | lparen => simp [toks] at hpiece
  | rparen => simp [toks] at hpiece
  | word v =>
    rw [toks] at hpiece
    unfold flush at hpiece
    split at hpiece
    · cases hpiece
    · split at hpiece
      · rename_i hop
        rw [map_singleton, mem_singleton] at hpiece
        exact absurd (hop.trans (congrArg some hpiece.symm)) operator_not_term
      · split_ifs at hpiece with hminus
        · simp only [map_cons, map_nil, mem_cons, not_mem_nil, or_false] at hpiece
          rcases hpiece with hno | heq
          · cases hno
          · cases heq
            exact hminus.2.2
        · rw [map_singleton, mem_singleton] at hpiece
          cases hpiece
          exact cons_ne_nil _ _

variable {text written : String} {e : Tree .or}

section

variable (hstd : std.SpacesApart) (hfield : isIdentifier std field.toList = true) (he : Sentence std (tokens .lucene text.toList) e)
include hstd hfield he

lemma sentence_field (hmode : (lexState text.toList).mode = .plain) (hdepth : e.depth + 1 ≤ maxQueryDepth) :
    Sentence std (tokens .lucene (field ++ ":(" ++ text ++ ")").toList)
      (.conj (.single (.plain (.fieldGroup (field.toList ++ [':']) e)))) := by
  have htext : (field ++ ":(" ++ text ++ ")").toList = field.toList ++ ':' :: '(' :: (text.toList ++ ')' :: []) := by simp
  have hprefix : fieldPrefix std (field.toList ++ [':']) = some field := by simp [fieldPrefix, hfield]
  refine ⟨⟨Option.isSome_of_eq_some hprefix, he.wellFormed⟩, hdepth, ?_⟩
  rw [htext, tokens_field hstd hfield, tokens_closed hmode, ← he.toks_eq]
  rfl

lemma not_sentence_field
    (h : ¬ ((lexState text.toList).mode = .plain ∧ e.depth + 1 ≤ maxQueryDepth)) (e' : Tree .or) :
    ¬ Sentence std (tokens .lucene (field ++ ":(" ++ text ++ ")").toList) e' := by
  have htext : (field ++ ":(" ++ text ++ ")").toList = field.toList ++ ':' :: '(' :: (text.toList ++ ')' :: []) := by simp
  rintro ⟨-, hdepth, htoks⟩
  rw [htext, tokens_field hstd hfield] at htoks
  by_cases hmode : (lexState text.toList).mode = .plain
  · -- the text is a group, one deeper than the text
    rw [tokens_closed hmode, ← he.toks_eq] at htoks
    have hdeep : e'.depth = e.depth + 1 := by
      rw [e'.depth_eq, htoks, peak_same rfl, peak_group _ (e.peak_toks 1 _)]
      simp [peak, show tokens .lucene [] = [] from rfl]
    exact h ⟨hmode, hdeep ▸ hdepth⟩
  · -- the closing parenthesis is lost in a word
    have hbalanced := e'.balanced
    have hinner := e.balanced
    rw [htoks] at hbalanced
    rw [he.toks_eq] at hinner
    simp [count_unclosed hmode] at hbalanced
    omega

end

/-- A field before a group is the field before each of its atoms if and only if the group's text ends outside quotes
and ranges, one more parenthesis is allowed, and no atom without a field is a lone star or a network. -/
theorem field_group_iff (hstd : std.SpacesApart) (hfield : isIdentifier std field.toList = true)
    (he : Sentence std (tokens .lucene text.toList) e)
    (hwritten : tokens .lucene written.toList = (e.qualify std field).toks) :
    (Query.parseWith std .lucene (field ++ ":(" ++ text ++ ")")).toOption =
        (Query.parseWith std .lucene written).toOption ↔
      (lexState text.toList).mode = .plain ∧ e.depth + 1 ≤ maxQueryDepth ∧ e.Uniform std := by
  have hworded : e.Worded := fun w hw => term_ne_nil (he.toks_eq ▸ hw)
  have hqualified : Sentence std (tokens .lucene written.toList) (e.qualify std field) :=
    ⟨e.wellFormed_qualify hfield hworded he.wellFormed, by rw [e.depth_qualify]; exact he.depth_le, hwritten.symm⟩
  rw [parseWith_iff.mpr ⟨_, hqualified, rfl⟩, ← and_assoc]
  by_cases hread : (lexState text.toList).mode = .plain ∧ e.depth + 1 ≤ maxQueryDepth
  · have hprefix : fieldPrefix std (field.toList ++ [':']) = some field := by simp [fieldPrefix, hfield]
    rw [parseWith_iff.mpr ⟨_, sentence_field hstd hfield he hread.1 hread.2, rfl⟩, and_iff_right hread,
      ← (e.comparable hfield hworded he.wellFormed).disjunction]
    simp only [Except.toOption, Option.some.injEq, Tree.query, Tree.parts, hprefix]
    exact eq_comm
  · refine iff_of_false (fun heq => ?_) (fun hall => hread hall.1)
    obtain ⟨e', he', -⟩ := parseWith_iff.mp (toOption_eq_some.mp heq)
    exact not_sentence_field hstd hfield he hread e' he'

theorem field_group_alternatives :
    (Query.parseWith .ascii .lucene "f:(a OR -b*)").toOption =
      (Query.parseWith .ascii .lucene "f:a OR -f:b*").toOption := by
  have htree : Sentence .ascii (tokens .lucene "a OR -b*".toList)
      (.or (.single (.plain (.atom "a".toList))) (.conj (.single (.not (.atom "b*".toList))))) :=
    ⟨⟨rfl, rfl⟩, by decide, by decide⟩
  have hwritten : tokens .lucene "f:a OR -f:b*".toList = (Tree.qualify .ascii "f"
      (.or (.single (.plain (.atom "a".toList))) (.conj (.single (.not (.atom "b*".toList)))))).toks := by decide
  have huniform : Tree.Uniform .ascii
      (.or (.single (.plain (.atom "a".toList))) (.conj (.single (.not (.atom "b*".toList))))) :=
    ⟨fun _ => by decide, fun _ => by decide⟩
  exact (field_group_iff spacesApart_ascii (by decide) htree hwritten).mpr ⟨by decide, by decide, huniform⟩

theorem field_group_network :
    Query.parseWith .ascii .lucene "ip:(10.0.0.0/8)" = .ok (.term (some "ip") "10.0.0.0/8") ∧
    Query.parseWith .ascii .lucene "ip:10.0.0.0/8" = .ok (.ipCidr "ip" "10.0.0.0/8") := by
  have hgroup : Sentence .ascii (tokens .lucene "ip:(10.0.0.0/8)".toList)
      (.conj (.single (.plain (.fieldGroup "ip:".toList (.conj (.single (.plain (.atom "10.0.0.0/8".toList)))))))) :=
    ⟨⟨rfl, rfl⟩, by decide, by decide⟩
  exact ⟨parseWith_iff.mpr ⟨_, hgroup, rfl⟩, rfl⟩

variable {std : TextStd} {field : String} {lo hi : List Char} {loInc hiInc : Bool}

/-- A bound, possibly empty, without a space or a character that ends it. -/
def Unbroken (b : List Char) : Prop := ∀ c ∈ b, Text.isWhitespace c = false ∧ c ∉ ['*', '^', ']', '\x7d']

def IsBound (b : List Char) : Prop := b ≠ [] ∧ ∀ c ∈ b, c.isAlphanum = true ∨ c = '-'

def boundsValue (loInc : Bool) (lo hi : List Char) (hiInc : Bool) : List Char :=
  (if loInc then '[' else '\x7b') :: (lo ++ (" TO ".toList ++ hi) ++ [if hiInc then ']' else '\x7d'])

lemma Unbroken.notMem (h : Unbroken b) (hd : d ∈ ['*', '^', ']', '\x7d']) : d ∉ b :=
  fun hin => (h d hin).2 hd

lemma Unbroken.rangeEnd (h : Unbroken b) : rangeEnd b = if b = [] then none else some (ofList b) := by
  have hstar : b ≠ ['*'] := by
    rintro rfl
    exact h.notMem mem_cons_self mem_cons_self
  rw [Core.rangeEnd, trimChars_of_solid fun c hc => (h c hc).1]
  simp only [hstar, or_false]

lemma splitOnceText_append (h : ∀ c ∈ lo, c ≠ ' ') :
    splitOnceText (' ' :: sep) (lo ++ (' ' :: sep ++ hi)) = some (lo, hi) := by
  induction lo with
  | nil =>
    unfold splitOnceText
    rw [if_pos (by simp)]
    simp
  | cons c lo ih =>
    have hc : ('\x20' == c) = false := beq_false_of_ne (Ne.symm (h c mem_cons_self))
    unfold splitOnceText
    rw [if_neg (by simp [List.isPrefixOf, hc])]
    change (splitOnceText _ (lo ++ _)).map _ = _
    rw [ih fun d hd => h d (mem_cons_of_mem _ hd)]
    rfl

lemma rangeNode_boundsValue (hlo : Unbroken lo) (hhi : Unbroken hi) (pos : Nat) :
    rangeNode (some field) (boundsValue loInc lo hi hiInc) pos =
      .ok (.range field (if lo = [] then none else some (ofList lo)) loInc
        (if hi = [] then none else some (ofList hi)) hiInc) := by
  have hlast : (boundsValue loInc lo hi hiInc).getLast? = some (if hiInc then ']' else '\x7d') := by
    rw [boundsValue, ← cons_append, List.getLast?_concat]
  have hinner : (boundsValue loInc lo hi hiInc).tail.dropLast = lo ++ (" TO ".toList ++ hi) := by
    rw [boundsValue, tail_cons, dropLast_concat]
  have hspace : ∀ c ∈ lo, c ≠ ' ' := by
    rintro c hc rfl
    exact absurd (hlo _ hc).1 (by decide)
  have hsplit : splitOnceText " TO ".toList (lo ++ (" TO ".toList ++ hi)) = some (lo, hi) := splitOnceText_append hspace
  have hhead : (boundsValue loInc lo hi hiInc).head? = some (if loInc then '[' else '\x7b') := rfl
  unfold rangeNode
  dsimp only
  rw [if_neg (by rw [hlast]; cases hiInc <;> decide), hinner, hsplit]
  dsimp only
  rw [hlo.rangeEnd, hhi.rangeEnd, hlast, hhead]
  congr 2
  · cases loInc <;> decide
  · cases hiInc <;> decide

lemma caret_notMem (hlo : Unbroken lo) (hhi : Unbroken hi) : '^' ∉ boundsValue loInc lo hi hiInc := by
  intro hin
  simp only [boundsValue, mem_cons, mem_append, not_mem_nil, or_false] at hin
  rcases hin with hno | ((hin | hin | hin) | hno)
  · cases loInc <;> exact absurd hno (by decide)
  · exact hlo.notMem (by decide) hin
  · exact absurd hin (by decide)
  · exact hhi.notMem (by decide) hin
  · cases hiInc <;> exact absurd hno (by decide)

lemma atomQuery_boundsValue (hfield : isIdentifier std field.toList) (hlo : Unbroken lo) (hhi : Unbroken hi) :
    atomQuery std (field.toList ++ ':' :: boundsValue loInc lo hi hiInc) =
      some (.range field (if lo = [] then none else some (ofList lo)) loInc
        (if hi = [] then none else some (ofList hi)) hiInc) := by
  have hne : boundsValue loInc lo hi hiInc ≠ [] := cons_ne_nil _ _
  have hboost : stripBoost std (boundsValue loInc lo hi hiInc) = (boundsValue loInc lo hi hiInc, none) := by
    rw [stripBoost, splitLast_eq_none (caret_notMem hlo hhi)]
  have hvalue : valueNode std (some field) (boundsValue loInc lo hi hiInc) 0 =
      rangeNode (some field) (boundsValue loInc lo hi hiInc) 0 := by
    unfold valueNode
    rw [if_neg fun hno => Option.some_ne_none _ hno.1]
    cases loInc <;> rfl
  unfold atomQuery atomToQuery
  rw [splitField_written hfield hne]
  dsimp only
  rw [hboost]
  dsimp only
  rw [hvalue, rangeNode_boundsValue hlo hhi]
  rfl

lemma run_range (hu : ∀ c ∈ u, c ≠ ']' ∧ c ≠ '\x7d') (w : List Char) :
    cutter.run ⟨.range, w⟩ u = ([], ⟨.range, w ++ u⟩) := by
  refine run_held (fun c hc w => ?_) w
  change ([], _) = _
  rw [if_neg (not_or.mpr (hu c hc))]

lemma run_boundsValue (hlo : Unbroken lo) (hhi : Unbroken hi) (w : List Char) :
    cutter.run ⟨.plain, w⟩ (boundsValue loInc lo hi hiInc) = ([], ⟨.plain, w ++ boundsValue loInc lo hi hiInc⟩) := by
  have hbound : ∀ {b : List Char}, Unbroken b → ∀ c ∈ b, c ≠ ']' ∧ c ≠ '\x7d' := by
    intro b hb c hc
    constructor <;> rintro rfl <;> exact hb.notMem (by decide) hc
  have hinner : ∀ c ∈ lo ++ (" TO ".toList ++ hi), c ≠ ']' ∧ c ≠ '\x7d' := by
    intro c hc
    simp only [mem_append] at hc
    rcases hc with hc | hc | hc
    · exact hbound hlo c hc
    · constructor <;> rintro rfl <;> exact absurd hc (by decide)
    · exact hbound hhi c hc
  have hopen : ∀ loInc : Bool, cutter.step ⟨.plain, w⟩ (if loInc then '[' else '\x7b') =
      ([], ⟨.range, w ++ [if loInc then '[' else '\x7b']⟩) := by
    intro loInc
    cases loInc <;> rfl
  have hclose : ∀ (hiInc : Bool) v, cutter.run ⟨.range, v⟩ [if hiInc then ']' else '\x7d'] =
      ([], ⟨.plain, v ++ [if hiInc then ']' else '\x7d']⟩) := by
    intro hiInc v
    cases hiInc <;> rfl
  rw [boundsValue, run, hopen, run_append, run_range hinner, hclose]
  simp

lemma tokens_written (hstd : std.SpacesApart) (hfield : isIdentifier std field.toList) {value : List Char}
    (hrun : ∀ w, cutter.run ⟨.plain, w⟩ value = ([], ⟨.plain, w ++ value⟩)) :
    tokens dialect (field.toList ++ ':' :: value) = [.term (field.toList ++ ':' :: value)] ∧
      (lexState (field.toList ++ ':' :: value)).mode = .plain := by
  have hword : cutter.run .start (field.toList ++ ':' :: value) = ([], ⟨.plain, field.toList ++ ':' :: value⟩) := by
    have htext : field.toList ++ ':' :: value = (field.toList ++ [':']) ++ value := by simp
    rw [htext, run_append, LexState.start, run_field hstd hfield, hrun]
    rfl
  have hpieces : pieces (field.toList ++ ':' :: value) = [.word (field.toList ++ ':' :: value)] := by
    rw [pieces, output, hword]
    exact if_neg (by simp)
  refine ⟨?_, by rw [lexState, hword]⟩
  rw [tokens, hpieces, flatMap_singleton]
  exact toks_field hfield _

lemma isBound_render (x : Int) : IsBound (renderI64 x) := by
  have hdigit : ∀ d < 10, (digitChar d).isAlphanum := by decide
  have hdecimal : ∀ c ∈ decimal x.natAbs, c.isAlphanum ∨ c = '-' := by
    intro c hc
    obtain ⟨d, hd, rfl⟩ := decimal_mem _ c hc
    exact Or.inl (hdigit d hd)
  unfold renderI64
  split_ifs
  · refine ⟨cons_ne_nil _ _, fun c hc => ?_⟩
    rcases mem_cons.mp hc with rfl | hc
    · exact Or.inr rfl
    · exact hdecimal c hc
  · exact ⟨decimal_ne_nil _, hdecimal⟩

end GrowlerDB.Core
