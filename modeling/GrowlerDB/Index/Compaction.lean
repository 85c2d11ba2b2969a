import GrowlerDB.Lib.OrdMap
import Mathlib.Algebra.Order.BigOperators.Group.List
import Mathlib.Algebra.Order.Ring.Nat
import Mathlib.Data.List.Perm.Subperm

namespace GrowlerDB.Index
open Lib List Option BTreeMap Nat

structure SegmentMeta (D : Type) where
  id : Nat
  live : List D
  numDeletedDocs : Nat

def SegmentMeta.maxDoc {D : Type} (s : SegmentMeta D) : Nat := s.live.length + s.numDeletedDocs

def tierRatio : Nat := 4

def tierLoop (ratio : Nat) : Nat → Nat → Nat → Nat
  | 0, _, t => t
  | fuel + 1, d, t => if ratio ≤ d then tierLoop ratio fuel (d / ratio) (t + 1) else t

def tier (ratio docs : Nat) : Nat := tierLoop ratio (max docs 1) (max docs 1) 0

def byTier (ratio : Nat) (segs : List (Nat × Nat)) : BTreeMap Nat (List Nat) :=
  segs.foldl (fun m s => m.entry (tier ratio s.2) (fun ids => ids.getD [] ++ [s.1])) .empty

def selectTieredMerge (ratio : Nat) (segs : List (Nat × Nat)) (mergeFactor : Nat) : List Nat :=
  match (byTier ratio segs).values.find? (fun ids => decide (2 ≤ ids.length)) with
  | some ids => ids.take (max mergeFactor 2)
  | none => []

section

variable {ratio : Nat} {segs : List (Nat × Nat)}

def idsOfTier (ratio : Nat) (segs : List (Nat × Nat)) (t : Nat) : List Nat :=
  (segs.filter (fun s => decide (tier ratio s.2 = t))).map Prod.fst

lemma get?_byTier (ratio : Nat) (segs : List (Nat × Nat)) (t : Nat) :
    (byTier ratio segs).get? t = if idsOfTier ratio segs t = [] then none else some (idsOfTier ratio segs t) := by
  have hfold : ∀ m : BTreeMap Nat (List Nat), (∀ ids, m.get? t = some ids → ids ≠ []) →
      (segs.foldl (fun m s => m.entry (tier ratio s.2) (fun ids => ids.getD [] ++ [s.1])) m).get? t =
        if (m.get? t).getD [] ++ idsOfTier ratio segs t = [] then none
        else some ((m.get? t).getD [] ++ idsOfTier ratio segs t) := by
    induction segs with
    | nil =>
      intro m hm
      cases hget : m.get? t with
      | none => simp [idsOfTier, hget]
      | some ids => simp [idsOfTier, hget, hm ids hget]
    | cons s segs ih =>
      intro m hm
      rw [foldl_cons, ih]
      · by_cases ht : tier ratio s.2 = t
        · simp [get?_entry, idsOfTier, ht]
        · have hids : idsOfTier ratio (s :: segs) t = idsOfTier ratio segs t := by simp [idsOfTier, ht]
          rw [get?_entry, if_neg ht, hids]
      · intro ids hids
        rw [get?_entry] at hids
        split_ifs at hids
        · rw [← some.inj hids]
          exact append_ne_nil_of_right_ne_nil _ (cons_ne_nil _ _)
        · exact hm ids hids
  exact hfold .empty (by simp)

lemma selectTieredMerge_cases (ratio : Nat) (segs : List (Nat × Nat)) (mergeFactor : Nat) :
    (∃ t, 2 ≤ (idsOfTier ratio segs t).length ∧
      selectTieredMerge ratio segs mergeFactor = (idsOfTier ratio segs t).take (max mergeFactor 2)) ∨
    selectTieredMerge ratio segs mergeFactor = [] ∧ ∀ t, (idsOfTier ratio segs t).length < 2 := by
  have hvalues : ∀ ids, ids ∈ (byTier ratio segs).values ↔ ids ≠ [] ∧ ∃ t, ids = idsOfTier ratio segs t := by
    intro ids
    rw [mem_values]
    simp only [get?_byTier]
    constructor
    · rintro ⟨t, ht⟩
      split_ifs at ht with hne
      exact ⟨some.inj ht ▸ hne, t, (some.inj ht).symm⟩
    · rintro ⟨hne, t, rfl⟩
      exact ⟨t, if_neg hne⟩
  rw [selectTieredMerge]
  cases hfind : (byTier ratio segs).values.find? (fun ids => decide (2 ≤ ids.length)) with
  | some ids =>
    obtain ⟨-, t, rfl⟩ := (hvalues ids).mp (mem_of_find?_eq_some hfind)
    exact .inl ⟨t, by simpa using List.find?_some hfind, rfl⟩
  | none =>
    refine .inr ⟨rfl, fun t => not_le.mp fun hle => ?_⟩
    have hin : idsOfTier ratio segs t ∈ (byTier ratio segs).values :=
      (hvalues _).mpr ⟨fun hnil => by simp [hnil] at hle, t, rfl⟩
    exact absurd (decide_eq_true hle) (List.find?_eq_none.mp hfind _ hin)

/-- What is chosen is nothing, or two or more distinct segments of one tier, at most `max mergeFactor 2`. -/
structure IsGroup (ratio : Nat) (segs : List (Nat × Nat)) (mergeFactor : Nat) (group : List Nat) : Prop where
  two : 2 ≤ group.length
  bounded : group.length ≤ max mergeFactor 2
  distinct : group.Nodup
  tiered : ∃ t, ∀ id ∈ group, ∃ docs, (id, docs) ∈ segs ∧ tier ratio docs = t

lemma selectTieredMerge_group (h : (segs.map Prod.fst).Nodup) (mergeFactor : Nat) :
    IsGroup ratio segs mergeFactor (selectTieredMerge ratio segs mergeFactor) ∨
      selectTieredMerge ratio segs mergeFactor = [] := by
  rcases selectTieredMerge_cases ratio segs mergeFactor with ⟨t, htwo, heq⟩ | ⟨hnil, -⟩
  · rw [heq]
    refine .inl ⟨?_, length_take_le _ _, ?_, t, fun id hid => ?_⟩
    · rw [length_take]
      exact le_min (le_max_right _ _) htwo
    · exact ((filter_sublist.map Prod.fst).nodup h).sublist (take_sublist _ _)
    · obtain ⟨⟨id, docs⟩, hs, rfl⟩ := mem_map.mp (mem_of_mem_take hid)
      exact ⟨docs, (mem_filter.mp hs).1, of_decide_eq_true (mem_filter.mp hs).2⟩
  · exact .inr hnil

end

variable {D : Type}

def liveDocs (segs : List (SegmentMeta D)) : List D := segs.flatMap SegmentMeta.live

def liveCounts (segs : List (SegmentMeta D)) : List (Nat × Nat) := segs.map (fun s => (s.id, s.maxDoc - s.numDeletedDocs))

/-- What Tantivy's merge does, if it does not fail: the segments of the group are replaced by one with a new id that
has their live documents, or by none if they have no live documents. -/
structure SegmentMerge (D : Type) where
  merge : List (SegmentMeta D) → List Nat → Option (List (SegmentMeta D))
  replaces : ∀ segs group out, merge segs group = some out → ∃ merged : Option (SegmentMeta D),
    (∀ s ∈ merged, s.id ∉ segs.map SegmentMeta.id) ∧
    (liveDocs merged.toList).Perm (liveDocs (segs.filter (fun s => decide (s.id ∈ group)))) ∧
    out.Perm (segs.filter (fun s => decide (s.id ∉ group)) ++ merged.toList)

def compact (T : SegmentMerge D) (ratio mergeFactor : Nat) : Nat → List (SegmentMeta D) → List (SegmentMeta D) × Bool
  | 0, segs => (segs, true)
  | passes + 1, segs =>
    let group := selectTieredMerge ratio (liveCounts segs) mergeFactor
    if group.length < 2 then (segs, true)
    else match T.merge segs group with
      | none => (segs, false)
      | some merged => compact T ratio mergeFactor passes merged

variable {T : SegmentMerge D} {ratio mergeFactor : Nat} {segs out : List (SegmentMeta D)}

lemma liveCounts_ids (segs : List (SegmentMeta D)) : (liveCounts segs).map Prod.fst = segs.map SegmentMeta.id := by
  simp [liveCounts]

lemma merge_spec (h : (segs.map SegmentMeta.id).Nodup)
    (hgroup : IsGroup ratio (liveCounts segs) mergeFactor group) (hm : T.merge segs group = some out) :
    out.length < segs.length ∧ (out.map SegmentMeta.id).Nodup ∧ (liveDocs out).Perm (liveDocs segs) := by
  obtain ⟨merged, hfresh, hlive, hperm⟩ := T.replaces segs group out hm
  have hsplit : (segs.filter (fun s => decide (s.id ∈ group)) ++
      segs.filter (fun s => decide (s.id ∉ group))).Perm segs := by
    simpa using filter_append_perm (fun s : SegmentMeta D => decide (s.id ∈ group)) segs
  have hin : group.length ≤ (segs.filter (fun s => decide (s.id ∈ group))).length := by
    rw [← length_map SegmentMeta.id]
    refine (subperm_of_subset hgroup.distinct fun id hid => ?_).length_le
    obtain ⟨t, ht⟩ := hgroup.tiered
    obtain ⟨docs, hdocs, -⟩ := ht id hid
    obtain ⟨s, hs, heq⟩ := mem_map.mp hdocs
    obtain ⟨rfl, -⟩ := Prod.mk.inj heq
    exact mem_map.mpr ⟨s, mem_filter.mpr ⟨hs, decide_eq_true hid⟩, rfl⟩
  refine ⟨?_, ?_, ?_⟩
  · have hlen := hsplit.length_eq
    have hout := hperm.length_eq
    have hone : merged.toList.length ≤ 1 := by cases merged <;> simp
    have htwo := hgroup.two
    rw [length_append] at hlen hout
    omega
  · rw [(hperm.map SegmentMeta.id).nodup_iff, map_append, nodup_append]
    refine ⟨(filter_sublist.map SegmentMeta.id).nodup h, ?_, ?_⟩
    · cases merged <;> simp
    · intro id hid id' hid' heq
      obtain ⟨s, hs, rfl⟩ := mem_map.mp hid'
      rw [mem_toList] at hs
      refine hfresh s hs (heq ▸ ?_)
      exact (filter_sublist.map SegmentMeta.id).subset hid
  · have hout : (liveDocs out).Perm (liveDocs (segs.filter (fun s => decide (s.id ∉ group)) ++ merged.toList)) :=
      hperm.flatMap_right _
    have hall : (liveDocs (segs.filter (fun s => decide (s.id ∈ group)) ++
        segs.filter (fun s => decide (s.id ∉ group)))).Perm (liveDocs segs) := hsplit.flatMap_right _
    simp only [liveDocs, flatMap_append] at hout hall hlive ⊢
    refine hout.trans (Perm.trans ?_ hall)
    exact (Perm.append_left _ hlive).trans perm_append_comm

/-- A compaction of any number of passes: the live documents stay the same, failing merges or not, and with as many
passes as there are segments nothing is left to merge. -/
lemma compact_spec (T : SegmentMerge D) (ratio mergeFactor passes : Nat) (h : (segs.map SegmentMeta.id).Nodup) :
    (liveDocs (compact T ratio mergeFactor passes segs).1).Perm (liveDocs segs) ∧
    ((compact T ratio mergeFactor passes segs).1.map SegmentMeta.id).Nodup ∧
    ((compact T ratio mergeFactor passes segs).2 → segs.length ≤ passes →
      selectTieredMerge ratio (liveCounts (compact T ratio mergeFactor passes segs).1) mergeFactor = []) := by
  have hnone : ∀ {segs : List (SegmentMeta D)}, (segs.map SegmentMeta.id).Nodup →
      (selectTieredMerge ratio (liveCounts segs) mergeFactor).length < 2 →
      selectTieredMerge ratio (liveCounts segs) mergeFactor = [] := by
    intro segs h hlt
    refine (selectTieredMerge_group ((liveCounts_ids segs).symm ▸ h) mergeFactor).resolve_left fun hgroup => ?_
    exact absurd hgroup.two (not_le.mpr hlt)
  induction passes generalizing segs with
  | zero =>
    refine ⟨.refl _, h, fun _ hlen => ?_⟩
    rw [length_eq_zero_iff.mp (le_zero.mp hlen)]
    rfl
  | succ passes ih =>
    rw [compact]
    split_ifs with hstop
    · exact ⟨.refl _, h, fun _ _ => hnone h hstop⟩
    · cases hm : T.merge segs (selectTieredMerge ratio (liveCounts segs) mergeFactor) with
      | none => exact ⟨.refl _, h, nofun⟩
      | some merged =>
        have hgroup : IsGroup ratio (liveCounts segs) mergeFactor
            (selectTieredMerge ratio (liveCounts segs) mergeFactor) := by
          refine (selectTieredMerge_group ((liveCounts_ids segs).symm ▸ h) mergeFactor).resolve_right fun hnil => ?_
          simp [hnil] at hstop
        obtain ⟨hlt, hids, hlive⟩ := merge_spec h hgroup hm
        obtain ⟨hlive', hids', hdone⟩ := ih hids
        exact ⟨hlive'.trans hlive, hids', fun hok hlen => hdone hok (by omega)⟩

/-- Tiered compaction converges and loses nothing: what each pass chooses is a group of one tier, and passes as many
as there are segments leave none to choose, with the live documents as they were after any number of passes. -/
theorem tiered_compaction_converges (T : SegmentMerge D) (ratio mergeFactor : Nat)
    (h : (segs.map SegmentMeta.id).Nodup) :
    (∀ passes, IsGroup ratio (liveCounts (compact T ratio mergeFactor passes segs).1) mergeFactor
        (selectTieredMerge ratio (liveCounts (compact T ratio mergeFactor passes segs).1) mergeFactor) ∨
      selectTieredMerge ratio (liveCounts (compact T ratio mergeFactor passes segs).1) mergeFactor = []) ∧
    (∀ passes, (liveDocs (compact T ratio mergeFactor passes segs).1).Perm (liveDocs segs)) ∧
    ∀ passes, segs.length ≤ passes → (compact T ratio mergeFactor passes segs).2 = true →
      selectTieredMerge ratio (liveCounts (compact T ratio mergeFactor passes segs).1) mergeFactor = [] :=
  ⟨fun passes => selectTieredMerge_group
      ((liveCounts_ids _).symm ▸ (compact_spec T ratio mergeFactor passes h).2.1) mergeFactor,
    fun passes => (compact_spec T ratio mergeFactor passes h).1,
    fun passes hlen hok => (compact_spec T ratio mergeFactor passes h).2.2 hok hlen⟩

def mergeAll (segs : List (SegmentMeta Nat)) (group : List Nat) : Option (List (SegmentMeta Nat)) :=
  some (segs.filter (fun s => decide (s.id ∉ group)) ++
    [⟨(segs.map SegmentMeta.id).sum + 1, liveDocs (segs.filter (fun s => decide (s.id ∈ group))), 0⟩])

lemma mergeAll_replaces (segs : List (SegmentMeta Nat)) (group : List Nat) (out : List (SegmentMeta Nat))
    (h : mergeAll segs group = some out) : ∃ merged : Option (SegmentMeta Nat),
      (∀ s ∈ merged, s.id ∉ segs.map SegmentMeta.id) ∧
      (liveDocs merged.toList).Perm (liveDocs (segs.filter (fun s => decide (s.id ∈ group)))) ∧
      out.Perm (segs.filter (fun s => decide (s.id ∉ group)) ++ merged.toList) := by
  cases h
  refine ⟨some _, ?_, ?_, Perm.refl _⟩
  · rintro s ⟨⟩ hs
    have hle := single_le_sum (fun x _ => zero_le x) _ hs
    exact absurd hle (not_le.mpr (lt_succ_self _))
  · simp [liveDocs]

def sampleMerge : SegmentMerge Nat := ⟨mergeAll, mergeAll_replaces⟩

def sampleSegments : List (SegmentMeta Nat) := [⟨1, [10], 2⟩, ⟨2, [11, 12], 0⟩, ⟨3, [13], 0⟩, ⟨4, [14], 5⟩]

/-- Four small segments, two to a merge: after four passes one is left. -/
theorem tiered_compaction_four :
    selectTieredMerge tierRatio (liveCounts (compact sampleMerge tierRatio 2 4 sampleSegments).1) 2 = [] ∧
      (liveDocs (compact sampleMerge tierRatio 2 4 sampleSegments).1).Perm [10, 11, 12, 13, 14] := by
  have hspec := tiered_compaction_converges sampleMerge tierRatio 2
    (by decide : (sampleSegments.map SegmentMeta.id).Nodup)
  exact ⟨hspec.2.2 4 (by decide) (by decide +kernel), hspec.2.1 4⟩

end GrowlerDB.Index
