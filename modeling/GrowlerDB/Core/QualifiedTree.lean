import GrowlerDB.Core.QueryPieces
import GrowlerDB.Core.QuerySlices

namespace GrowlerDB.Core
open Lib List Option

variable {std : TextStd}

section

mutual

lemma applyFieldPrefix_twice (f g : String) : (q : Query) →
    applyFieldPrefix f (applyFieldPrefix g q) = applyFieldPrefix g q
  | .bool must should mustNot filter => by simp only [applyFieldPrefix, applyFieldPrefixes_twice f g]
  | .boost q b => by simp only [applyFieldPrefix, applyFieldPrefix_twice f g q]
  | .matchAll | .term .. | .terms .. | .matchText .. | .phrase .. | .startsWith .. | .wildcard .. | .fuzzy ..
  | .regex .. | .fieldExists .. | .range .. | .ipCidr .. | .knn .. => by simp [applyFieldPrefix]

lemma applyFieldPrefixes_twice (f g : String) : (qs : List Query) →
    applyFieldPrefixes f (applyFieldPrefixes g qs) = applyFieldPrefixes g qs
  | [] => rfl
  | q :: qs => by simp only [applyFieldPrefixes, applyFieldPrefix_twice f g q, applyFieldPrefixes_twice f g qs]

end

variable {core rest : List Char} {q : Query}

/-- A value of this shape is read differently without a field: all documents, or a plain term. -/
def FieldMatters (std : TextStd) (core : List Char) : Prop :=
  (core = "*".toList ∨ core = "*:*".toList) ∨
    (core.head? ≠ some '\x22' ∧ core.head? ≠ some '[' ∧ core.head? ≠ some '\x7b' ∧
      ¬ (2 ≤ core.length ∧ core.head? = some '/' ∧ core.getLast? = some '/') ∧ isCidr std core = true)

instance (core : List Char) : Decidable (FieldMatters std core) := inferInstanceAs (Decidable (_ ∨ _))

lemma phraseNode_field (f : String) : phraseNode (some f) rest pos =
    (phraseNode none rest pos).map (applyFieldPrefix f) := by
  unfold phraseNode
  split
  · rfl
  · unfold phraseOf
    split
    · rfl
    · split_ifs <;> rfl

lemma wordNode_field (f : String) : wordNode (some f) core pos =
    (wordNode none core pos).map (applyFieldPrefix f) := by
  unfold wordNode
  split
  · unfold fuzzyOf
    split
    · rfl
    · split_ifs <;> rfl
  · unfold plainNode
    split_ifs <;> rfl

lemma wordNode_not_cidr (f g c : String) (h : wordNode none core pos = .ok q) :
    applyFieldPrefix f q ≠ .ipCidr g c := by
  unfold wordNode at h
  split at h
  · unfold fuzzyOf at h
    split at h
    · cases h
    · split_ifs at h
      cases h
      exact Query.noConfusion
  · cases h
    unfold plainNode
    split_ifs <;> exact Query.noConfusion

/-- A value that is read without a field is read with one too, and to the same leaf unless its shape
needs a field. -/
lemma valueNode_field (f : String) (h : valueNode std none core pos = .ok q) :
    ∃ q', valueNode std (some f) core pos = .ok q' ∧ (q' = applyFieldPrefix f q ↔ ¬ FieldMatters std core) := by
  have hsome : ¬ (some f = none ∧ (core = "*".toList ∨ core = "*:*".toList)) := fun hno => some_ne_none _ hno.1
  by_cases hall : core = "*".toList ∨ core = "*:*".toList
  · have hq : q = .matchAll := by
      unfold valueNode at h
      rw [if_pos ⟨rfl, hall⟩] at h
      exact (Except.ok.inj h).symm
    subst hq
    refine ⟨.wildcard (some f) (String.ofList core), ?_, ?_⟩
    · rcases hall with rfl | rfl <;> rfl
    · exact iff_of_false Query.noConfusion (not_not.mpr (Or.inl hall))
  have hnone : ¬ (none = (none : Option String) ∧ (core = "*".toList ∨ core = "*:*".toList)) := fun hno => hall hno.2
  by_cases hphrase : ∃ rest, core = '\x22' :: rest
  · obtain ⟨rest, rfl⟩ := hphrase
    have hplain : phraseNode none rest pos = .ok q := by
      unfold valueNode at h
      rw [if_neg hnone] at h
      exact h
    refine ⟨applyFieldPrefix f q, ?_, iff_of_true rfl ?_⟩
    · unfold valueNode
      rw [if_neg hsome]
      exact (phraseNode_field f).trans (congrArg (Except.map _) hplain)
    · rintro (hstar | ⟨hhead, -⟩)
      · exact hall hstar
      · exact hhead rfl
  by_cases hrange : (∃ rest, core = '[' :: rest) ∨ ∃ rest, core = '\x7b' :: rest
  · unfold valueNode at h
    rw [if_neg hnone] at h
    rcases hrange with ⟨rest, rfl⟩ | ⟨rest, rfl⟩ <;> cases h
  simp only [not_or, not_exists] at hphrase hrange
  have hhead : ∀ c, (∀ rest, core ≠ c :: rest) → core.head? ≠ some c := by
    intro c hne hc
    obtain ⟨rest, hrest⟩ := List.head?_eq_some_iff.mp hc
    exact hne rest hrest
  rw [valueNode_other hnone hphrase hrange.1 hrange.2] at h
  rw [valueNode_other hsome hphrase hrange.1 hrange.2]
  by_cases hregex : 2 ≤ core.length ∧ core.head? = some '/' ∧ core.getLast? = some '/'
  · rw [otherNode, if_pos hregex] at h
    cases h
    refine ⟨.regex (some f) (String.ofList core.tail.dropLast), ?_, iff_of_true rfl ?_⟩
    · rw [otherNode, if_pos hregex]
    · rintro (hstar | ⟨-, -, -, hno, -⟩)
      · exact hall hstar
      · exact hno hregex
  · rw [otherNode, if_neg hregex] at h
    by_cases hcidr : isCidr std core
    · refine ⟨.ipCidr f (String.ofList core), by rw [otherNode, if_neg hregex]; exact if_pos hcidr, ?_⟩
      refine iff_of_false (fun heq => wordNode_not_cidr f f _ h heq.symm) (not_not.mpr (Or.inr ?_))
      exact ⟨hhead _ hphrase, hhead _ hrange.1, hhead _ hrange.2, hregex, hcidr⟩
    · refine ⟨applyFieldPrefix f q, ?_, iff_of_true rfl ?_⟩
      · rw [otherNode, if_neg hregex]
        exact (if_neg hcidr).trans ((wordNode_field f).trans (congrArg (Except.map _) h))
      · rintro (hstar | ⟨-, -, -, -, hyes⟩)
        · exact hall hstar
        · exact hcidr hyes

inductive ValueShape : Option String → Query → Prop
  | all : ValueShape none .matchAll
  | phrase (f : Option String) (terms : List String) (slop : Nat) : ValueShape f (.phrase f terms slop)
  | range (f : String) (lower : Option String) (li : Bool) (upper : Option String) (ui : Bool) :
    ValueShape (some f) (.range f lower li upper ui)
  | regex (f : Option String) (pattern : String) : ValueShape f (.regex f pattern)
  | ipCidr (f cidr : String) : ValueShape (some f) (.ipCidr f cidr)
  | fuzzy (f : Option String) (value : String) (distance : Nat) : ValueShape f (.fuzzy f value distance)
  | wildcard (f : Option String) (pattern : String) : ValueShape f (.wildcard f pattern)
  | term (f : Option String) (value : String) : ValueShape f (.term f value)

lemma phraseNode_shape (h : phraseNode f rest pos = .ok q) : ValueShape f q := by
  unfold phraseNode at h
  split at h
  · cases h
  · unfold phraseOf at h
    split at h
    · cases h
    · split_ifs at h
      cases h
      exact .phrase ..

lemma rangeNode_shape (h : rangeNode f core pos = .ok q) : ValueShape f q := by
  unfold rangeNode at h
  split at h
  · cases h
  · split_ifs at h
    split at h
    · cases h
    · cases h
      exact .range ..

lemma wordNode_shape (h : wordNode f core pos = .ok q) : ValueShape f q := by
  unfold wordNode at h
  split at h
  · unfold fuzzyOf at h
    split at h
    · cases h
    · split_ifs at h
      cases h
      exact .fuzzy ..
  · cases h
    unfold plainNode
    split_ifs
    · exact .wildcard ..
    · exact .term ..

lemma valueNode_shape (h : valueNode std f core pos = .ok q) : ValueShape f q := by
  unfold valueNode at h
  split at h
  · rename_i hall
    cases h
    obtain rfl := hall.1
    exact .all
  · split at h
    · exact phraseNode_shape h
    · exact rangeNode_shape h
    · exact rangeNode_shape h
    · split at h
      · cases h
        exact .regex ..
      · cases f with
        | none => exact wordNode_shape h
        | some g =>
          dsimp only at h
          split at h
          · cases h
            exact .ipCidr ..
          · exact wordNode_shape h

lemma ValueShape.own (h : ValueShape (some g) q) (field : String) : applyFieldPrefix field q = q := by
  cases h <;> rfl

lemma atomQuery_shape (h : atomQuery std w = some q) :
    ∃ q', ValueShape (splitField std w).1 q' ∧ (q = q' ∨ ∃ b, q = .boost q' b) := by
  have hok := toOption_eq_some.mp h
  unfold atomToQuery at hok
  generalize splitField std w = r at hok ⊢
  obtain ⟨field, value⟩ := r
  dsimp only at hok ⊢
  generalize stripBoost std value = r at hok
  obtain ⟨core, boost⟩ := r
  cases boost with
  | none => exact ⟨q, valueNode_shape hok, Or.inl rfl⟩
  | some b =>
    dsimp only at hok
    split_ifs at hok
    obtain ⟨q', hq', rfl⟩ := map_ok hok
    exact ⟨q', valueNode_shape hq', Or.inr ⟨b, rfl⟩⟩

end

section

variable {field : String} {w : List Char} {q : Query}

lemma notMem_identifier (h : isIdentifier std field.toList) (hd : d.toNat < 128)
    (hno : (d.isAlphanum || d == '_' || d == '.') = false) : d ∉ field.toList := by
  intro hin
  rw [isIdentifier, Bool.and_eq_true, List.all_eq_true] at h
  have hident := h.2 d hin
  rw [std.alphanumeric_ascii d hd, hno] at hident
  cases hident

lemma colon_notMem (h : isIdentifier std field.toList) : ':' ∉ field.toList :=
  notMem_identifier h (by decide) (by decide)

lemma splitField_none (h : (splitField std w).1 = none) : splitField std w = (none, w) := by
  unfold splitField at h ⊢
  split at h
  · split_ifs at h ⊢
    rfl
  · rfl

lemma splitField_written (hfield : isIdentifier std field.toList) (hw : w ≠ []) :
    splitField std (field.toList ++ ':' :: w) = (some field, w) := by
  simp [splitField, splitOnce_append (colon_notMem hfield), hfield, hw]

lemma atomQuery_written (hfield : isIdentifier std field.toList) (hw : w ≠ [])
    (hown : (splitField std w).1 = none) (h : atomQuery std w = some q) :
    ∃ q', atomQuery std (field.toList ++ ':' :: w) = some q' ∧
      (q' = applyFieldPrefix field q ↔ ¬ FieldMatters std (stripBoost std w).1) := by
  unfold atomQuery atomToQuery at h ⊢
  rw [splitField_none hown] at h
  rw [splitField_written hfield hw]
  dsimp only at h ⊢
  generalize stripBoost std w = r at h ⊢
  obtain ⟨core, boost⟩ := r
  cases boost with
  | none =>
    obtain ⟨q', hq', hiff⟩ := valueNode_field field (toOption_eq_some.mp h)
    exact ⟨q', by rw [hq']; rfl, hiff⟩
  | some b =>
    dsimp only at h ⊢
    split_ifs at h ⊢
    · rw [toOption_map] at h
      obtain ⟨q₀, hq₀, rfl⟩ := map_eq_some_iff.mp h
      obtain ⟨q', hq', hiff⟩ := valueNode_field field (toOption_eq_some.mp hq₀)
      refine ⟨.boost q' b, by rw [hq']; rfl, ?_⟩
      rw [applyFieldPrefix, Query.boost.injEq, and_iff_left rfl]
      exact hiff
    · cases h

lemma atomQuery_own (hown : (splitField std w).1 = some g) (h : atomQuery std w = some q) :
    applyFieldPrefix field q = q := by
  obtain ⟨q', hshape, rfl | ⟨b, rfl⟩⟩ := atomQuery_shape h
  · rw [hown] at hshape
    exact hshape.own field
  · rw [hown] at hshape
    rw [applyFieldPrefix, hshape.own field]

lemma fieldPrefix_written (hw : w ≠ []) : fieldPrefix std (field.toList ++ ':' :: w) = none := by
  unfold fieldPrefix
  split
  · rw [if_neg]
    intro hident
    rw [dropLast_append_of_ne_nil (cons_ne_nil _ _), dropLast_cons_of_ne_nil hw] at hident
    have hnot : ':' ∉ (String.ofList (field.toList ++ ':' :: w.dropLast)).toList := colon_notMem (by simpa using hident)
    exact hnot (by simp)
  · rfl

end

namespace Tree

/-- The tree with the field written in front of every atom that has none; a group with a field of its
own gives that to its atoms. -/
def qualify (std : TextStd) (field : String) : {l : Level} → Tree l → Tree l
  | _, .atom w => .atom (if (splitField std w).1 = none then field.toList ++ ':' :: w else w)
  | _, .group e => .group (e.qualify std field)
  | _, .fieldGroup w e => .fieldGroup w e
  | _, .plain c => .plain (c.qualify std field)
  | _, .not c => .not (c.qualify std field)
  | _, .single u => .single (u.qualify std field)
  | _, .and u written e => .and (u.qualify std field) written (e.qualify std field)
  | _, .conj a => .conj (a.qualify std field)
  | _, .or a e => .or (a.qualify std field) (e.qualify std field)

/-- No atom that takes its field from outside has a shape that needs one. -/
def Uniform (std : TextStd) : {l : Level} → Tree l → Prop
  | _, .atom w => (splitField std w).1 = none → ¬ FieldMatters std (stripBoost std w).1
  | _, .group e => e.Uniform std
  | _, .fieldGroup _ _ => True
  | _, .plain c => c.Uniform std
  | _, .not c => c.Uniform std
  | _, .single u => u.Uniform std
  | _, .and u _ e => u.Uniform std ∧ e.Uniform std
  | _, .conj a => a.Uniform std
  | _, .or a e => a.Uniform std ∧ e.Uniform std

variable {field : String} {l : Level}

@[simp] lemma depth_qualify : {l : Level} → (e : Tree l) → (e.qualify std field).depth = e.depth
  | _, .atom _ => rfl
  | _, .group e => congrArg (· + 1) e.depth_qualify
  | _, .fieldGroup _ _ => rfl
  | _, .plain c => c.depth_qualify
  | _, .not c => c.depth_qualify
  | _, .single u => u.depth_qualify
  | _, .and u _ e => congrArg₂ max u.depth_qualify e.depth_qualify
  | _, .conj a => a.depth_qualify
  | _, .or a e => congrArg₂ max a.depth_qualify e.depth_qualify

lemma head_append (e : Tree l) (ts : List Tok) : (e.toks ++ ts).head? = e.toks.head? := by
  obtain ⟨t, us, he, -⟩ := e.toks_opens
  rw [he]
  rfl

lemma head_qualify : {l : Level} → (e : Tree l) →
    (e.qualify std field).toks.head? = some .lparen → e.toks.head? = some .lparen
  | _, .atom _, h => by cases h
  | _, .group _, _ => rfl
  | _, .fieldGroup _ _, h => h
  | _, .plain c, h => c.head_qualify h
  | _, .not _, h => by cases h
  | _, .single u, h => u.head_qualify h
  | _, .and u _ _, h => by
    rw [qualify, toks, head_append] at h
    rw [toks, head_append]
    exact u.head_qualify h
  | _, .conj a, h => a.head_qualify h
  | _, .or a _, h => by
    rw [qualify, toks, head_append] at h
    rw [toks, head_append]
    exact a.head_qualify h

def Worded (e : Tree l) : Prop := ∀ w, .term w ∈ e.toks → w ≠ []

lemma last_qualify : (c : Tree .clause) → c.Worded →
    ((c.qualify std field).toks.getLast?.bind (Tok.field std)).isSome → (c.toks.getLast?.bind (Tok.field std)).isSome
  | .atom w, hw, h => by
    have hne : w ≠ [] := hw w mem_cons_self
    rw [qualify] at h
    split_ifs at h
    · simp [toks, Tok.field, fieldPrefix_written hne] at h
    · exact h
  | .group e, _, h => by
    rw [qualify, toks, ← cons_append, List.getLast?_concat] at h
    cases h
  | .fieldGroup _ _, _, h => h

lemma toks_ne_nil (e : Tree l) : e.toks ≠ [] := by
  obtain ⟨t, us, he, -⟩ := e.toks_opens
  rw [he]
  exact cons_ne_nil _ _

lemma bindsGroup_qualify (u : Tree .unary) (hu : u.Worded) (e : Tree l)
    (h : bindsGroup std u.toks e.toks = false) :
    bindsGroup std (u.qualify std field).toks (e.qualify std field).toks = false := by
  have hlast : ((u.qualify std field).toks.getLast?.bind (Tok.field std)).isSome →
      (u.toks.getLast?.bind (Tok.field std)).isSome := by
    cases u with
    | plain c => exact c.last_qualify hu
    | not c =>
      rw [qualify, toks, toks, List.getLast?_cons_of_ne_nil (toks_ne_nil _), List.getLast?_cons_of_ne_nil (toks_ne_nil _)]
      exact c.last_qualify fun w hw => hu w (mem_cons_of_mem _ hw)
  rw [← Bool.not_eq_true, bindsGroup, Bool.and_eq_true, decide_eq_true_eq] at h ⊢
  exact fun hq => h ⟨hlast hq.1, e.head_qualify hq.2⟩

lemma wellFormed_qualify (hfield : isIdentifier std field.toList) : {l : Level} → (e : Tree l) →
    e.Worded → e.WellFormed std → (e.qualify std field).WellFormed std
  | _, .atom w, hw, h => by
    obtain ⟨q, hq⟩ := isSome_iff_exists.mp h
    rw [qualify, WellFormed]
    split_ifs with hown
    · obtain ⟨q', hq', -⟩ := atomQuery_written hfield (hw w mem_cons_self) hown hq
      exact isSome_of_eq_some hq'
    · exact h
  | _, .group e, hw, h => e.wellFormed_qualify hfield (fun w hin => hw w (mem_cons_of_mem _ (mem_append_left _ hin))) h
  | _, .fieldGroup _ _, _, h => h
  | _, .plain c, hw, h => c.wellFormed_qualify hfield hw h
  | _, .not c, hw, h => c.wellFormed_qualify hfield (fun w hin => hw w (mem_cons_of_mem _ hin)) h
  | _, .single u, hw, h => u.wellFormed_qualify hfield hw h
  | _, .and u written e, hw, ⟨hu, he, hbinds⟩ => by
    have hworded : u.Worded := fun w hin => hw w (mem_append_left _ hin)
    refine ⟨u.wellFormed_qualify hfield hworded hu, e.wellFormed_qualify hfield ?_ he, ?_⟩
    · exact fun w hin => hw w (mem_append_right _ (mem_append_right _ hin))
    · exact fun hwritten => bindsGroup_qualify u hworded e (hbinds hwritten)
  | _, .conj a, hw, h => a.wellFormed_qualify hfield hw h
  | _, .or a e, hw, ⟨ha, he⟩ =>
    ⟨a.wellFormed_qualify hfield (fun w hin => hw w (mem_append_left _ hin)) ha,
      e.wellFormed_qualify hfield (fun w hin => hw w (mem_append_right _ (mem_cons_of_mem _ hin))) he⟩

end Tree

section

variable {must must' mustNot mustNot' : List Query}

lemma conjunction_inj (hmust : must.length = must'.length) (hnot : mustNot.length = mustNot'.length) :
    conjunction must mustNot = conjunction must' mustNot' ↔ must = must' ∧ mustNot = mustNot' := by
  constructor
  · intro h
    unfold conjunction at h
    split at h
    · obtain ⟨q, rfl⟩ := length_eq_one_iff.mp hmust.symm
      obtain rfl := length_eq_zero_iff.mp hnot.symm
      exact ⟨congrArg (fun q => [q]) h, rfl⟩
    · rename_i hsplit
      split at h
      · obtain ⟨q, rfl⟩ := length_eq_one_iff.mp hmust
        obtain rfl := length_eq_zero_iff.mp hnot
        exact absurd rfl (hsplit q rfl)
      · cases h
        exact ⟨rfl, rfl⟩
  · rintro ⟨rfl, rfl⟩
    rfl

lemma disjunction_inj (h : must.length = must'.length) : disjunction must = disjunction must' ↔ must = must' := by
  constructor
  · intro heq
    unfold disjunction at heq
    split at heq
    · obtain ⟨q, rfl⟩ := length_eq_one_iff.mp h.symm
      exact congrArg (fun q => [q]) heq
    · rename_i hsplit
      split at heq
      · obtain ⟨q, rfl⟩ := length_eq_one_iff.mp h
        exact absurd rfl (hsplit q)
      · cases heq
        rfl
  · rintro rfl
    rfl

end

namespace Tree

variable {field : String} {l : Level}

/-- The tree with the field written into it has the queries of the tree, each with the field given to
it, if and only if no atom is in the way. -/
structure Comparable (std : TextStd) (field : String) (e : Tree l) : Prop where
  must : ((e.qualify std field).parts std).1.length = (e.parts std).1.length
  mustNot : ((e.qualify std field).parts std).2.length = (e.parts std).2.length
  iff : ((e.qualify std field).parts std).1 = (e.parts std).1.map (applyFieldPrefix field) ∧
    ((e.qualify std field).parts std).2 = (e.parts std).2.map (applyFieldPrefix field) ↔ e.Uniform std

lemma parts_or : (e : Tree .or) → (e.parts std).2 = []
  | .conj _ => rfl
  | .or _ _ => rfl

lemma Comparable.conjunction {a : Tree .and} (h : a.Comparable std field) :
    conjunction ((a.qualify std field).parts std).1 ((a.qualify std field).parts std).2 =
      applyFieldPrefix field (conjunction (a.parts std).1 (a.parts std).2) ↔ a.Uniform std := by
  rw [applyFieldPrefix_conjunction, conjunction_inj (by rw [h.must, length_map]) (by rw [h.mustNot, length_map])]
  exact h.iff

lemma Comparable.disjunction {e : Tree .or} (h : e.Comparable std field) :
    disjunction ((e.qualify std field).parts std).1 =
      applyFieldPrefix field (disjunction (e.parts std).1) ↔ e.Uniform std := by
  rw [applyFieldPrefix_disjunction, disjunction_inj (by rw [h.must, length_map]), ← h.iff]
  simp [parts_or]

lemma comparable (hfield : isIdentifier std field.toList) : {l : Level} → (e : Tree l) →
    e.Worded → e.WellFormed std → e.Comparable std field
  | _, .atom w, hw, h => by
    obtain ⟨q, hq⟩ := isSome_iff_exists.mp h
    refine ⟨rfl, rfl, ?_⟩
    cases hown : (splitField std w).1 with
    | none =>
      obtain ⟨q', hq', hiff⟩ := atomQuery_written hfield (hw w mem_cons_self) hown hq
      simp [qualify, parts, Uniform, hown, hq, hq', hiff]
    | some g => simp [qualify, parts, Uniform, hown, hq, atomQuery_own hown hq]
  | _, .group e, hw, h => by
    have he := e.comparable hfield (fun w hin => hw w (mem_cons_of_mem _ (mem_append_left _ hin))) h
    refine ⟨rfl, rfl, ?_⟩
    simp [qualify, parts, Uniform, he.disjunction]
  | _, .fieldGroup w e, hw, h => by
    refine ⟨rfl, rfl, ?_⟩
    simp [qualify, parts, Uniform, applyFieldPrefix_twice]
  | _, .plain c, hw, h => by
    have hc := c.comparable hfield hw h
    exact ⟨hc.must, hc.mustNot, hc.iff⟩
  | _, .not c, hw, h => by
    have hc := c.comparable hfield (fun w hin => hw w (mem_cons_of_mem _ hin)) h
    obtain ⟨q, hq⟩ := c.parts_clause
    obtain ⟨q', hq'⟩ := (c.qualify std field).parts_clause
    have hiff := hc.iff
    rw [hq, hq'] at hiff
    refine ⟨rfl, hc.must, ?_⟩
    simpa [qualify, parts, Uniform, hq, hq'] using hiff
  | _, .single u, hw, h => by
    have hu := u.comparable hfield hw h
    exact ⟨hu.must, hu.mustNot, hu.iff⟩
  | _, .and u written e, hw, ⟨hu, he, _⟩ => by
    have hcu := u.comparable hfield (fun w hin => hw w (mem_append_left _ hin)) hu
    have hce := e.comparable hfield (fun w hin => hw w (mem_append_right _ (mem_append_right _ hin))) he
    refine ⟨?_, ?_, ?_⟩
    · simp [qualify, parts, hcu.must, hce.must]
    · simp [qualify, parts, hcu.mustNot, hce.mustNot]
    · simp only [qualify, parts, Uniform, map_append, ← hcu.iff, ← hce.iff]
      constructor
      · rintro ⟨hmust, hnot⟩
        obtain ⟨hmust₁, hmust₂⟩ := append_inj hmust (by rw [hcu.must, length_map])
        obtain ⟨hnot₁, hnot₂⟩ := append_inj hnot (by rw [hcu.mustNot, length_map])
        exact ⟨⟨hmust₁, hnot₁⟩, hmust₂, hnot₂⟩
      · rintro ⟨⟨hmust₁, hnot₁⟩, hmust₂, hnot₂⟩
        exact ⟨congrArg₂ _ hmust₁ hmust₂, congrArg₂ _ hnot₁ hnot₂⟩
  | _, .conj a, hw, h => by
    have ha := a.comparable hfield hw h
    refine ⟨rfl, rfl, ?_⟩
    simp [qualify, parts, Uniform, ha.conjunction]
  | _, .or a e, hw, ⟨ha, he⟩ => by
    have hca := a.comparable hfield (fun w hin => hw w (mem_append_left _ hin)) ha
    have hce := e.comparable hfield (fun w hin => hw w (mem_append_right _ (mem_cons_of_mem _ hin))) he
    have hiff := hce.iff
    rw [parts_or, parts_or] at hiff
    refine ⟨congrArg (· + 1) hce.must, rfl, ?_⟩
    simp only [map_nil, and_true] at hiff
    simp [qualify, parts, Uniform, hca.conjunction, hiff]

end Tree

end GrowlerDB.Core
