import GrowlerDB.Engine.OpenSearch.Leaves

namespace GrowlerDB.Engine
open Lib Core List Clause Function Token

variable {std : TextStd}

structure Layout where
  opens : Bool
  spaced : Bool
  level : Level
  depth : Nat

namespace Layout

def word : Layout := ⟨false, false, .clause, 0⟩

def grouped (y : Layout) : Layout := if y.opens || !y.spaced then y else ⟨true, true, .clause, y.depth + 1⟩

def negated (y : Layout) : Layout := ⟨false, true, .unary, y.depth⟩

def deepest : List Layout → Nat
  | [] => 0
  | y :: ys => max y.depth (deepest ys)

def joined (level : Level) : List Layout → Layout
  | [] => .word
  | [y] => y
  | y :: ys => ⟨y.opens, true, level, deepest (y :: ys)⟩

end Layout

def required {α : Type} (grouped : α → α) (alternatives : List α → α) (negated : α → α)
    (must filter should mustNot : List α) : List α :=
  let both := (must ++ filter).map grouped
  (if both = [] ∧ should ≠ [] then [grouped (alternatives (should.map grouped))] else both) ++
    mustNot.map (fun c => negated (grouped c))

lemma required_map {α β : Type} (f : α → β) {grouped : α → α} {alternatives : List α → α} {negated : α → α}
    {grouped' : β → β} {alternatives' : List β → β} {negated' : β → β} (hgrouped : ∀ a, f (grouped a) = grouped' (f a))
    (halternatives : ∀ as, f (alternatives as) = alternatives' (as.map f)) (hnegated : ∀ a, f (negated a) = negated' (f a))
    (must filter should mustNot : List α) : (required grouped alternatives negated must filter should mustNot).map f =
      required grouped' alternatives' negated' (must.map f) (filter.map f) (should.map f) (mustNot.map f) := by
  have hmap : ∀ as : List α, (as.map grouped).map f = (as.map f).map grouped' := by
    intro as
    rw [map_map, map_map]
    exact map_congr_left fun a _ => hgrouped a
  have hnot : (mustNot.map (fun c => negated (grouped c))).map f = (mustNot.map f).map (fun c => negated' (grouped' c)) := by
    rw [map_map, map_map]
    refine map_congr_left fun a _ => ?_
    simp only [comp_apply, hnegated, hgrouped]
  have hboth : ((must ++ filter).map grouped).map f = (must.map f ++ filter.map f).map grouped' := by
    rw [hmap, map_append]
  have hempty : ((must.map f ++ filter.map f).map grouped' = [] ∧ should.map f ≠ []) ↔
      ((must ++ filter).map grouped = [] ∧ should ≠ []) := by simp
  unfold required
  rw [map_append, hnot]
  refine congrArg (· ++ _) ?_
  by_cases hcase : (must ++ filter).map grouped = [] ∧ should ≠ []
  · rw [if_pos hcase, if_pos (hempty.mpr hcase), map_singleton, hgrouped, halternatives, hmap]
  · rw [if_neg hcase, if_neg (mt hempty.mp hcase), hboth]

mutual

def Clause.layout : Clause → Layout
  | .matchAll => .word
  | .term _ _ => .word
  | .terms _ values => ⟨false, 2 ≤ values.val.length, .clause, 1⟩
  | .words _ ws => if ws.val.length = 1 then .word else ⟨false, true, .clause, 1⟩
  | .phrase _ text => ⟨false, ' ' ∈ text.val.toList, .clause, 0⟩
  | .multiMatch fields _ => ⟨true, 2 ≤ fields.val.length, .clause, 1⟩
  | .range _ _ _ => ⟨false, true, .clause, 0⟩
  | .bool must filter should mustNot =>
    .joined .and (required .grouped (.joined .or) .negated (Clause.layouts must) (Clause.layouts filter)
      (Clause.layouts should) (Clause.layouts mustNot))

def Clause.layouts : List Clause → List Layout
  | [] => []
  | c :: cs => c.layout :: Clause.layouts cs

end

lemma Clause.layouts_eq (cs : List Clause) : layouts cs = cs.map layout := by
  induction cs with
  | nil => rfl
  | cons c cs ih => rw [layouts, ih, map_cons]

/-- The texts of a `bool` clause keep apart: what is negated is one clause, and alternatives stand alone
or in parentheses. -/
def fits (must filter should mustNot : List Layout) : Bool :=
  let texts := required .grouped (.joined .or) .negated must filter should mustNot
  mustNot.all (fun y => y.grouped.level = .clause) && (texts.length < 2 || texts.all (fun y => y.level ≠ .or))

mutual

/-- The fields can be written, the values are terms where they stand, and the texts of the clauses keep
apart. Alternatives that are dropped are not looked at. -/
def Clause.kept (std : TextStd) : Clause → Bool
  | .matchAll => true
  | .term field value => isIdentifier std field.toList && value.single std
  | .terms field values => isIdentifier std field.toList && values.val.all Token.grouped
  | .words field ws =>
    isIdentifier std field.toList && ws.val.all (if ws.val.length = 1 then Token.single std else Token.grouped)
  | .phrase field _ => isIdentifier std field.toList
  | .multiMatch fields word => fields.val.all (fun field => isIdentifier std field.toList) && word.single std
  | .range field lower upper => isIdentifier std field.toList && lower.1.all Token.solid && upper.1.all Token.solid
  | .bool must filter should mustNot =>
    Clause.allKept std must && Clause.allKept std filter && Clause.allKept std mustNot &&
      (!must.isEmpty || !filter.isEmpty || Clause.allKept std should) &&
      fits (Clause.layouts must) (Clause.layouts filter) (Clause.layouts should) (Clause.layouts mustNot)

def Clause.allKept (std : TextStd) : List Clause → Bool
  | [] => true
  | c :: cs => c.kept std && Clause.allKept std cs

end

lemma Clause.allKept_eq (cs : List Clause) : allKept std cs = cs.all (kept std) := by
  induction cs with
  | nil => rfl
  | cons c cs ih => rw [allKept, ih, all_cons]

structure Item where
  layout : Layout
  text : String
  means : (Query → Bool) → Bool

namespace Item

structure Sound (std : TextStd) (i : Item) : Prop where
  reads : Means std i.layout.level i.layout.depth i.text i.means
  opens : i.layout.opens = true ↔ i.text.toList.head? = some '('
  spaced : i.layout.spaced = true ↔ ' ' ∈ i.text.toList

def grouped (i : Item) : Item := ⟨i.layout.grouped, group i.text, i.means⟩

def alternatives (is : List Item) : Item :=
  ⟨.joined .or (is.map layout), " OR ".intercalate (is.map text), fun leaf => is.any (·.means leaf)⟩

def negated (i : Item) : Item := ⟨i.layout.negated, "NOT " ++ i.text, fun leaf => !i.means leaf⟩

def conjunction (is : List Item) : Item :=
  ⟨.joined .and (is.map layout), " AND ".intercalate (is.map text), fun leaf => is.all (·.means leaf)⟩

variable {i : Item} {is : List Item}

lemma Sound.text_ne (h : i.Sound std) : i.text.toList ≠ [] := by
  obtain ⟨e, hwrites, -, -⟩ := h.reads
  intro hnil
  have htoks := hwrites.toks_eq
  rw [hnil] at htoks
  exact e.toks_ne_nil htoks.symm

lemma Sound.grouped (h : i.Sound std) : i.grouped.Sound std := by
  have hiff : (i.layout.opens || !i.layout.spaced) = true ↔ i.text.toList.head? = some '(' ∨ ' ' ∉ i.text.toList := by
    rw [Bool.or_eq_true, h.opens, Bool.not_eq_true', ← Bool.not_eq_true, h.spaced]
  unfold Item.grouped Layout.grouped group
  by_cases hplain : (i.layout.opens || !i.layout.spaced) = true
  · rwa [if_pos hplain, if_pos (hiff.mp hplain)]
  · rw [if_neg hplain, if_neg (mt hiff.mpr hplain)]
    have hspaced : ' ' ∈ i.text.toList := not_not.mp (not_or.mp (mt hiff.mpr hplain)).2
    exact ⟨h.reads.group, by simp, by simp [hspaced]⟩

lemma Sound.negated (h : i.Sound std) (hl : i.layout.level = .clause) : i.negated.Sound std := by
  obtain ⟨⟨opens, spaced, level, depth⟩, text, means⟩ := i
  obtain rfl := hl
  exact ⟨h.reads.not, by simp [Item.negated, Layout.negated], by simp [Item.negated, Layout.negated]⟩

lemma le_deepest (h : y ∈ ys) : y.depth ≤ Layout.deepest ys := by
  induction ys with
  | nil => exact absurd h not_mem_nil
  | cons z ys ih =>
    rcases mem_cons.mp h with rfl | h
    · exact le_max_left _ _
    · exact (ih h).trans (le_max_right _ _)

lemma sound_joined {sep : String} (hsep : ' ' ∈ sep.toList)
    (hi : i.Sound std) (hreads : Means std l (Layout.deepest ((i :: j :: is).map layout))
      (sep.intercalate ((i :: j :: is).map text)) m) :
    Sound std ⟨.joined l ((i :: j :: is).map layout), sep.intercalate ((i :: j :: is).map text), m⟩ := by
  have htext : (sep.intercalate ((i :: j :: is).map text)).toList =
      i.text.toList ++ (sep.toList ++ (sep.intercalate ((j :: is).map text)).toList) := by
    rw [map_cons, map_cons, String.intercalate_cons_cons, String.toList_append, String.toList_append, append_assoc]
  refine ⟨hreads, ?_, ?_⟩
  · dsimp only
    rw [htext, List.head?_append_of_ne_nil _ hi.text_ne]
    exact hi.opens
  · dsimp only
    rw [htext]
    simp [Layout.joined, hsep]

lemma sound_alternatives (hne : is ≠ []) (h : ∀ i ∈ is, i.Sound std) : (alternatives is).Sound std := by
  cases is with
  | nil => exact absurd rfl hne
  | cons i is =>
    have hi := h i mem_cons_self
    cases is with
    | nil => simpa [alternatives, Layout.joined] using hi
    | cons j is =>
      refine sound_joined (by decide) hi (Means.alternatives _ hne fun k hk => ?_)
      exact ((h k hk).reads.or).mono (le_deepest (mem_map_of_mem hk))

lemma sound_conjunction (hne : is ≠ []) (h : ∀ i ∈ is, i.Sound std)
    (hl : 2 ≤ is.length → ∀ i ∈ is, i.layout.level ≠ .or) : (conjunction is).Sound std := by
  cases is with
  | nil => exact absurd rfl hne
  | cons i is =>
    have hi := h i mem_cons_self
    cases is with
    | nil => simpa [conjunction, Layout.joined] using hi
    | cons j is =>
      have hlong : 2 ≤ (i :: j :: is).length := by simp
      refine sound_joined (by decide) hi (Means.conjunction _ hne fun k hk => ?_)
      exact ((h k hk).reads.and (hl hlong k hk)).mono (le_deepest (mem_map_of_mem hk))

def required (must filter should mustNot : List Item) : List Item :=
  Engine.required grouped alternatives negated must filter should mustNot

variable {must filter should mustNot : List Item}

lemma required_layout : (required must filter should mustNot).map layout =
    Engine.required .grouped (.joined .or) .negated (must.map layout) (filter.map layout) (should.map layout)
      (mustNot.map layout) :=
  required_map layout (fun _ => rfl) (fun _ => rfl) (fun _ => rfl) must filter should mustNot

lemma required_text : (required must filter should mustNot).map text =
    requiredTexts (must.map text) (filter.map text) (should.map text) (mustNot.map text) :=
  required_map text (fun _ => rfl) (fun _ => rfl) (fun _ => rfl) must filter should mustNot

lemma required_means (leaf : Query → Bool) : (required must filter should mustNot).all (·.means leaf) =
    (must.all (·.means leaf) && filter.all (·.means leaf) && !mustNot.any (·.means leaf) &&
      (!must.isEmpty || !filter.isEmpty || should.isEmpty || should.any (·.means leaf))) := by
  have hgrouped : ∀ is : List Item, (is.map grouped).all (·.means leaf) = is.all (·.means leaf) := by
    intro is
    rw [all_map]
    rfl
  have hnot : (mustNot.map (fun c => negated (grouped c))).all (·.means leaf) = !mustNot.any (·.means leaf) := by
    rw [all_map, not_any_eq_all_not]
    rfl
  unfold required Engine.required
  rw [all_append, hnot]
  by_cases hcase : (must ++ filter).map grouped = [] ∧ should ≠ []
  · rw [if_pos hcase]
    obtain ⟨hboth, hshould⟩ := hcase
    simp only [map_eq_nil_iff, append_eq_nil_iff] at hboth
    obtain ⟨rfl, rfl⟩ := hboth
    have hempty : should.isEmpty = false := by simpa using hshould
    simp [grouped, alternatives, any_map, comp_def, hempty, Bool.and_comm]
  · rw [if_neg hcase, hgrouped, all_append]
    have hsome : (!must.isEmpty || !filter.isEmpty || should.isEmpty) = true := by
      by_contra hno
      simp_all
    rw [hsome]
    simp

lemma sound_required (hmust : ∀ i ∈ must, i.Sound std) (hfilter : ∀ i ∈ filter, i.Sound std)
    (hmustNot : ∀ i ∈ mustNot, i.Sound std) (hshould : must = [] → filter = [] → ∀ i ∈ should, i.Sound std)
    (hneg : ∀ i ∈ mustNot, i.layout.grouped.level = .clause) :
    ∀ i ∈ required must filter should mustNot, i.Sound std := by
  intro i hi
  rcases mem_append.mp hi with hi | hi
  · by_cases hcase : (must ++ filter).map grouped = [] ∧ should ≠ []
    · rw [if_pos hcase] at hi
      obtain ⟨hboth, hne⟩ := hcase
      simp only [map_eq_nil_iff, append_eq_nil_iff] at hboth
      obtain rfl := mem_singleton.mp hi
      refine (sound_alternatives (by simpa using hne) fun j hj => ?_).grouped
      obtain ⟨k, hk, rfl⟩ := mem_map.mp hj
      exact (hshould hboth.1 hboth.2 k hk).grouped
    · rw [if_neg hcase] at hi
      obtain ⟨k, hk, rfl⟩ := mem_map.mp hi
      rcases mem_append.mp hk with hk | hk
      · exact (hmust k hk).grouped
      · exact (hfilter k hk).grouped
  · obtain ⟨k, hk, rfl⟩ := mem_map.mp hi
    exact (hmustNot k hk).grouped.negated (hneg k hk)

end Item

def Clause.item (c : Clause) : Item := ⟨c.layout, c.print, fun leaf => c.holds leaf⟩

section

variable {field : String}

lemma sound_bool {must filter should mustNot : List Clause}
    (hmust : ∀ c ∈ must, c.kept std → c.item.Sound std)
    (hfilter : ∀ c ∈ filter, c.kept std → c.item.Sound std)
    (hshould : ∀ c ∈ should, c.kept std → c.item.Sound std)
    (hmustNot : ∀ c ∈ mustNot, c.kept std → c.item.Sound std)
    (h : (bool must filter should mustNot).kept std) :
    (bool must filter should mustNot).item.Sound std := by
  simp only [kept, allKept_eq, layouts_eq, Bool.and_eq_true, all_eq_true, Bool.or_eq_true,
    Bool.not_eq_true', isEmpty_eq_false_iff] at h
  obtain ⟨⟨⟨⟨hm, hf⟩, hn⟩, hs⟩, hfits⟩ := h
  simp only [fits, Bool.and_eq_true, all_eq_true, Bool.or_eq_true, decide_eq_true_eq] at hfits
  have hitems : ∀ {cs : List Clause}, (∀ c ∈ cs, c.kept std → c.item.Sound std) →
      (∀ c ∈ cs, c.kept std) → ∀ i ∈ cs.map item, i.Sound std := by
    intro cs hcs hkept i hi
    obtain ⟨c, hc, rfl⟩ := mem_map.mp hi
    exact hcs c hc (hkept c hc)
  have hall : ∀ i ∈ Item.required (must.map item) (filter.map item) (should.map item)
      (mustNot.map item), i.Sound std := by
    refine Item.sound_required (hitems hmust hm) (hitems hfilter hf) (hitems hmustNot hn) ?_ ?_
    · intro hmustNil hfilterNil
      refine hitems hshould ?_
      rcases hs with (hno | hno) | hs
      · exact absurd (map_eq_nil_iff.mp hmustNil) hno
      · exact absurd (map_eq_nil_iff.mp hfilterNil) hno
      · exact hs
    · intro i hi
      obtain ⟨c, hc, rfl⟩ := mem_map.mp hi
      exact hfits.1 _ (mem_map_of_mem hc)
  have hlayout : ∀ cs : List Clause, (cs.map item).map Item.layout = cs.map layout := by
    intro cs
    rw [map_map]
    rfl
  have htext : ∀ cs : List Clause, (cs.map item).map Item.text = cs.map print := by
    intro cs
    rw [map_map]
    rfl
  have hlayouts := @Item.required_layout (must.map item) (filter.map item) (should.map item)
    (mustNot.map item)
  have htexts := @Item.required_text (must.map item) (filter.map item) (should.map item)
    (mustNot.map item)
  have hmeans := @Item.required_means (must.map item) (filter.map item) (should.map item)
    (mustNot.map item)
  rw [hlayout, hlayout, hlayout, hlayout] at hlayouts
  rw [htext, htext, htext, htext] at htexts
  generalize Item.required (must.map item) (filter.map item) (should.map item)
    (mustNot.map item) = items at hall hlayouts htexts hmeans
  have hitem : (bool must filter should mustNot).item = ⟨.joined .and (items.map Item.layout),
      if items.map Item.text = [] then "*:*" else " AND ".intercalate (items.map Item.text),
      fun leaf => items.all (·.means leaf)⟩ := by
    simp only [item, layout, layouts_eq, print, printAll_eq, boolText, hlayouts, htexts,
      holds, allHold_eq, anyHolds_eq, Item.mk.injEq, true_and]
    funext leaf
    rw [hmeans leaf]
    simp [all_map, any_map, comp_def, item]
  rw [hitem]
  cases items with
  | nil => exact ⟨means_matchAll, by decide, by decide⟩
  | cons i is =>
    rw [if_neg (by simp)]
    refine Item.sound_conjunction (cons_ne_nil _ _) hall fun hlong j hj => ?_
    rw [← hlayouts, length_map] at hfits
    rcases hfits.2 with hshort | hlevels
    · exact absurd hlong (Nat.not_le.mpr hshort)
    · exact hlevels _ (mem_map_of_mem hj)

lemma head_field (hfield : isIdentifier std field.toList) (cs : List Char) :
    (field.toList ++ cs).head? ≠ some '(' := by
  have hparen := notMem_identifier hfield (d := '(') (by decide) (by decide)
  cases hlist : field.toList with
  | nil => simp [isIdentifier, hlist] at hfield
  | cons c rest =>
    rw [hlist] at hparen
    intro hhead
    exact hparen (Option.some.inj hhead ▸ mem_cons_self)

lemma space_notMem_field (hfield : isIdentifier std field.toList) : ' ' ∉ field.toList :=
  notMem_identifier hfield (by decide) (by decide)

lemma space_intercalate (sep : String) (hsep : ' ' ∈ sep.toList)
    (h : ∀ t ∈ texts, ' ' ∉ t.toList) : ' ' ∈ (sep.intercalate texts).toList ↔ 2 ≤ texts.length := by
  cases texts with
  | nil => simp
  | cons t texts =>
    cases texts with
    | nil => simpa using h t mem_cons_self
    | cons u texts =>
      rw [String.intercalate_cons_cons]
      simp [hsep]

section

variable (hstd : std.SpacesApart) (hfield : isIdentifier std field.toList = true)
include hstd hfield

lemma sound_value (h : value.single std) :
    Item.Sound std ⟨.word, field ++ ":" ++ value.val, fun leaf => leaf (valueLeaf field value)⟩ := by
  have hspace : ' ' ∉ (field ++ ":" ++ value.val).toList := by
    simp [space_notMem_field hfield, value.notMem (c := ' ') (by decide)]
  have hhead : (field ++ ":" ++ value.val).toList.head? ≠ some '(' := by
    simpa using head_field hfield (':' :: value.val.toList)
  exact ⟨means_value hstd hfield h, by simpa [Layout.word] using hhead, by simpa [Layout.word] using hspace⟩

lemma sound_group (hne : values ≠ []) (h : ∀ v ∈ values, v.grouped) :
    Item.Sound std ⟨⟨false, 2 ≤ values.length, .clause, 1⟩, groupText field values,
      fun leaf => values.any (fun v => leaf (valueLeaf field v))⟩ := by
  have hvalues : ∀ t ∈ values.map Subtype.val, ' ' ∉ t.toList := by
    intro t ht
    obtain ⟨v, -, rfl⟩ := mem_map.mp ht
    exact notMem v (by decide)
  have hspace := space_intercalate " OR " (by decide) hvalues
  have hhead : (groupText field values).toList.head? ≠ some '(' := by
    simp only [groupText, String.append_assoc, String.toList_append]
    exact head_field hfield _
  have hmem : ' ' ∈ (groupText field values).toList ↔ 2 ≤ values.length := by
    rw [length_map] at hspace
    rw [← hspace]
    simp only [groupText, String.toList_append, mem_append, space_notMem_field hfield,
      show ' ' ∉ ":(".toList by decide, show ' ' ∉ ")".toList by decide, false_or, or_false]
  exact ⟨means_group hstd hfield hne h, by simpa using hhead, by simpa using hmem.symm⟩

lemma sound_words
    (h : ∀ w ∈ ws.val, (if ws.val.length = 1 then single std else grouped) w = true) :
    (words field ws).item.Sound std := by
  obtain ⟨ws, hne⟩ := ws
  by_cases hone : ws.length = 1
  · obtain ⟨w, rfl⟩ := length_eq_one_iff.mp hone
    have hw := h w mem_cons_self
    rw [if_pos hone] at hw
    simpa [item, layout, print, wordsText, holds] using sound_value hstd hfield hw
  · have hgroup := sound_group hstd hfield hne fun w hw => by
      have hw := h w hw
      rwa [if_neg hone] at hw
    have hlong : 2 ≤ ws.length := by
      have hpos := length_pos_iff.mpr hne
      omega
    have htext : wordsText field ws = groupText field ws := by
      unfold wordsText
      split
      · exact absurd rfl hone
      · rfl
    simpa [item, layout, print, htext, holds, hone, hlong] using hgroup

lemma sound_phrase (text : Quotable) : (phrase field text).item.Sound std := by
  have hhead := head_field hfield (':' :: '\x22' :: (text.val.toList ++ ['\x22']))
  refine ⟨means_phrase hstd hfield text.property, ?_, ?_⟩
  · simpa [item, layout, print] using hhead
  · simp [item, layout, print, space_notMem_field hfield]

lemma sound_range
    (hlower : lower.1.all solid) (hupper : upper.1.all solid) :
    (range field lower upper).item.Sound std := by
  have hhead := head_field hfield (':' :: (boundsText lower upper).toList)
  refine ⟨means_range hstd hfield hlower hupper, ?_, ?_⟩
  · simpa [item, layout, print] using hhead
  · simp [item, layout, print, boundsText]

end

lemma sound_multiMatch (hstd : std.SpacesApart) {fields : Several String} {word : Token}
    (hfields : ∀ f ∈ fields.val, isIdentifier std f.toList) (h : word.single std) :
    (multiMatch fields word).item.Sound std := by
  have hreads : Means std .or 0 (" OR ".intercalate (fields.val.map (fun f => f ++ ":" ++ word.val)))
      (fun leaf => fields.val.any (fun f => leaf (valueLeaf f word))) :=
    Means.alternatives fields.val fields.property fun f hf => (means_value hstd (hfields f hf) h).or
  have hspaces : ∀ t ∈ fields.val.map (fun f => f ++ ":" ++ word.val), ' ' ∉ t.toList := by
    intro t ht
    obtain ⟨f, hf, rfl⟩ := mem_map.mp ht
    simp [space_notMem_field (hfields f hf), word.notMem (c := ' ') (by decide)]
  have hspace := space_intercalate " OR " (by decide) hspaces
  rw [length_map] at hspace
  have hmem : ' ' ∈ (multiMatch fields word).print.toList ↔ 2 ≤ fields.val.length := by
    rw [← hspace]
    simp [print]
  refine ⟨hreads.group, ?_, ?_⟩
  · simp [item, layout, print]
  · simpa [item, layout] using hmem.symm

/-- A query that is kept is printed to a text that reads as the query. -/
lemma Clause.sound (hstd : std.SpacesApart) (c : Clause) : c.kept std → c.item.Sound std := by
  induction c using induction with
  | matchAll => exact fun _ => ⟨means_matchAll, by decide, by decide⟩
  | term field value =>
    intro h
    simp only [kept, Bool.and_eq_true] at h
    exact sound_value hstd h.1 h.2
  | terms field values =>
    intro h
    simp only [kept, Bool.and_eq_true, all_eq_true] at h
    exact sound_group hstd h.1 values.property h.2
  | words field ws =>
    intro h
    simp only [kept, Bool.and_eq_true, all_eq_true] at h
    exact sound_words hstd h.1 h.2
  | phrase field text => exact fun h => sound_phrase hstd h text
  | multiMatch fields word =>
    intro h
    simp only [kept, Bool.and_eq_true, all_eq_true] at h
    exact sound_multiMatch hstd h.1 h.2
  | range field lower upper =>
    intro h
    simp only [kept, Bool.and_eq_true] at h
    exact sound_range hstd h.1.1 h.1.2 h.2
  | bool must filter should mustNot hmust hfilter hshould hmustNot => exact sound_bool hmust hfilter hshould hmustNot

end

section

variable {cal : Calendar} {formats : FieldFormats} {json : Json} {text : String}

/-- A text that the adapter returns parses, and matches what the query of the request matches, if the query
is kept and not nested too deep. -/
theorem opensearch_translation (hstd : std.SpacesApart) (h : translateQuery cal formats json = .ok text) :
    ∃ c, readQuery cal formats json = .ok c ∧ (c.kept std = true → c.layout.depth ≤ maxQueryDepth →
      ∃ q, Query.parseWith std .lucene text = .ok q ∧ ∀ leaf, q.eval leaf = c.holds leaf) := by
  rw [translateQuery_eq] at h
  obtain ⟨c, hc, rfl⟩ := map_ok h
  exact ⟨c, hc, fun hkept hdepth => (c.sound hstd hkept).reads.parse hdepth⟩

end

namespace SampleSearch

def leafClause (kind field : String) (value : Json) : Json := .object [(kind, .object [(field, value)])]

def boolClause (parts : List (String × Json)) : Json := .object [("bool", .object parts)]

def excluded : Json :=
  boolClause [("must", leafClause "term" "a" (.string "-x")), ("must_not", .array [leafClause "match" "b" (.string "y z")])]

def negative : Json := leafClause "terms" "n" (.array [.number (.int (-5))])

def opening : Json :=
  boolClause [("must_not", boolClause [("must", .array
    [.object [("multi_match", .object [("query", .string "x"), ("fields", .array [.string "a", .string "b"])])],
      leafClause "term" "c" (.string "y")])])]

def noFormats : FieldFormats := fun _ => none

lemma isToken_sample : ∀ s ∈ ["x", "y", "z", "-x"], IsToken s := by
  simp [IsToken, special]

lemma isToken_minus : IsToken "-x" := isToken_sample _ (by decide)

lemma isToken_x : IsToken "x" := isToken_sample _ (by decide)

lemma isToken_y : IsToken "y" := isToken_sample _ (by decide)

lemma isToken_z : IsToken "z" := isToken_sample _ (by decide)

def excludedClause : Clause :=
  .bool [.term "a" ⟨"-x", isToken_minus⟩] [] [] [.words "b" ⟨[⟨"y", isToken_y⟩, ⟨"z", isToken_z⟩], cons_ne_nil _ _⟩]

def openingClause : Clause :=
  .bool [] [] [] [.bool [.multiMatch ⟨["a", "b"], cons_ne_nil _ _⟩ ⟨"x", isToken_x⟩, .term "c" ⟨"y", isToken_y⟩] [] [] []]

lemma boundToken_negative : boundToken .blank noFormats "n" (.number (.int (-5))) = .ok "-5" := by
  have hrender : Text.renderI64 (-5) = ['-', '5'] := by
    rw [Text.renderI64, if_pos (by decide), Text.decimal]
    rfl
  change token "n" (String.ofList (Text.renderI64 (-5))) = _
  rw [hrender]
  rfl

end SampleSearch

open SampleSearch

theorem opensearch_excluded_words : translateQuery .blank noFormats excluded = .ok "a:-x AND NOT (b:(y OR z))" ∧
    ∃ q, Query.parseWith .ascii .lucene "a:-x AND NOT (b:(y OR z))" = .ok q ∧
      ∀ leaf, q.eval leaf = (leaf (.term (some "a") "-x") &&
        !(leaf (.term (some "b") "y") || leaf (.term (some "b") "z"))) := by
  have htext : translateQuery .blank noFormats excluded = .ok "a:-x AND NOT (b:(y OR z))" := by rfl
  have hread : readQuery .blank noFormats excluded = .ok excludedClause := by rfl
  obtain ⟨c, hc, hreads⟩ := opensearch_translation spacesApart_ascii htext
  obtain rfl := Except.ok.inj (hread.symm.trans hc)
  obtain ⟨q, hq, hmeans⟩ := hreads (by decide) (by decide)
  refine ⟨htext, q, hq, fun leaf => ?_⟩
  rw [hmeans]
  simp [excludedClause, Clause.holds, Clause.allHold, Clause.anyHolds, valueLeaf]

/-- A negative number in a list is read as a negation, and what follows an opening parenthesis escapes from the
exclusion. -/
theorem opensearch_negated_value :
    (translateQuery .blank noFormats negative = .ok "n:(-5)" ∧
      (∃ c, readQuery .blank noFormats negative = .ok c ∧ ∀ leaf, c.holds leaf = leaf (.term (some "n") "-5")) ∧
      Query.parseWith .ascii .lucene "n:(-5)" = .ok (.bool [] [] [.term (some "n") "5"] []) ∧
      (Query.bool [] [] [.term (some "n") "5"] []).eval (fun _ => false) = true) ∧
    (translateQuery .blank noFormats opening = .ok "NOT (a:x OR b:x) AND c:y" ∧
      readQuery .blank noFormats opening = .ok openingClause ∧ openingClause.holds (fun _ => false) = true ∧
      ∃ q, Query.parseWith .ascii .lucene "NOT (a:x OR b:x) AND c:y" = .ok q ∧ q.eval (fun _ => false) = false) := by
  refine ⟨⟨?_, ?_, ?_, by decide⟩, by rfl, by rfl, by decide, ?_⟩
  · change ([Json.number (.int (-5))].mapM (boundToken .blank noFormats "n") >>= _) = _
    rw [mapM_cons, boundToken_negative]
    rfl
  · have htext := @readValue_text .blank noFormats "n" (.number (.int (-5)))
    rw [boundToken_negative] at htext
    obtain ⟨value, hvalue, hval⟩ := map_ok htext.symm
    refine ⟨.terms "n" ⟨[value], cons_ne_nil _ _⟩, ?_, fun leaf => ?_⟩
    · change (readValue .blank noFormats "n" (.number (.int (-5))) >>= _) = _
      rw [hvalue]
      rfl
    · simp [Clause.holds, valueLeaf, hval]
  · have hreading : Sentence .ascii (tokens .lucene "n:(-5)".toList)
        (.conj (.single (.plain (.fieldGroup "n:".toList (.conj (.single (.not (.atom ['5'])))))))) :=
      ⟨⟨by decide, rfl⟩, by decide, by decide⟩
    exact parseWith_iff.mpr ⟨_, hreading, rfl⟩
  · have hreading : Sentence .ascii (tokens .lucene "NOT (a:x OR b:x) AND c:y".toList)
        (.conj (.and (.not (.group (.or (.single (.plain (.atom "a:x".toList))) (.conj (.single (.plain (.atom "b:x".toList)))))))
          true (.single (.plain (.atom "c:y".toList))))) :=
      ⟨⟨⟨rfl, rfl⟩, rfl, fun h => by cases h⟩, by decide, by decide⟩
    exact ⟨_, parseWith_iff.mpr ⟨_, hreading, rfl⟩, by decide⟩

end GrowlerDB.Engine
