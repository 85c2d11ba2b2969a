import GrowlerDB.ControlPlane.PlacementResult

namespace GrowlerDB.ControlPlane
open Core Lib List Option IndexEntry BTreeMap

variable {index : String}

variable {S : Type} {st : Placement S} {indexes indexes' : Indexes S} {now : Int}

lemma mem_assignments : a ∈ assignments indexes ↔
    ∃ index entry unit, indexes.get? index = some entry ∧ entry.unitAssignment unit = some a := by
  rw [assignments, mem_flatMap]
  constructor
  · rintro ⟨entry, hentry, ha⟩
    obtain ⟨index, hindex⟩ := mem_values.mp hentry
    rcases mem_append.mp ha with ha | ha
    · obtain ⟨ordinal, ho⟩ := mem_values.mp ha
      exact ⟨index, entry, .shard ordinal, hindex, ho⟩
    · obtain ⟨wa, hwa, rfl⟩ := mem_map.mp ha
      obtain ⟨id, hid⟩ := mem_values.mp hwa
      exact ⟨index, entry, .window id, hindex, by rw [unitAssignment, hid]; rfl⟩
  · rintro ⟨index, entry, unit, hindex, hunit⟩
    refine ⟨entry, mem_values.mpr ⟨index, hindex⟩, mem_append.mpr ?_⟩
    cases unit with
    | shard ordinal => exact .inl (mem_values.mpr ⟨ordinal, hunit⟩)
    | window id =>
      obtain ⟨wa, hwa, rfl⟩ := map_eq_some_iff.mp hunit
      exact .inr (mem_map.mpr ⟨wa, mem_values.mpr ⟨id, hwa⟩, rfl⟩)

lemma mem_entitlementNodes : n ∈ entitlementNodes indexes pool now ↔
    (∃ index unit, primaryOf indexes index unit = some n) ∧ pool.ownerTrackedStale n now = false := by
  rw [entitlementNodes, List.mem_toFinset, List.mem_filter, Bool.not_eq_true', mem_filterMap]
  refine and_congr_left fun _ => ⟨?_, ?_⟩
  · rintro ⟨a, ha, hp⟩
    obtain ⟨index, entry, unit, hindex, hunit⟩ := mem_assignments.mp ha
    exact ⟨index, unit, by rw [primaryOf_of_get hindex, unitPrimary, hunit]; exact hp⟩
  · rintro ⟨index, unit, hp⟩
    obtain ⟨entry, hindex, hp⟩ := bind_eq_some_iff.mp hp
    obtain ⟨a, hunit, hp⟩ := bind_eq_some_iff.mp hp
    exact ⟨a, mem_assignments.mpr ⟨index, entry, unit, hindex, hunit⟩, hp⟩

lemma entitlementNodes_subset
    (h : ∀ index unit, primaryOf indexes' index unit = primaryOf indexes index unit ∨
      primaryOf indexes' index unit = some p ∨ primaryOf indexes' index unit = none) :
    entitlementNodes indexes' pool now ⊆ insert p (entitlementNodes indexes pool now) := by
  intro n hn
  obtain ⟨⟨index, unit, hp⟩, hfresh⟩ := mem_entitlementNodes.mp hn
  rcases h index unit with hsame | hp' | hnone
  · exact Finset.mem_insert_of_mem (mem_entitlementNodes.mpr ⟨⟨index, unit, hsame ▸ hp⟩, hfresh⟩)
  · rw [hp] at hp'
    exact Finset.mem_insert.mpr (.inl (some.inj hp'))
  · simp [hp] at hnone

lemma entitlementNodes_of_noneNew
    (h : ∀ index unit, primaryOf indexes' index unit = primaryOf indexes index unit ∨
      primaryOf indexes' index unit = none) :
    entitlementNodes indexes' pool now ⊆ entitlementNodes indexes pool now := by
  intro n hn
  obtain ⟨⟨index, unit, hp⟩, hfresh⟩ := mem_entitlementNodes.mp hn
  rcases h index unit with hsame | hnone
  · exact mem_entitlementNodes.mpr ⟨⟨index, unit, hsame ▸ hp⟩, hfresh⟩
  · simp [hp] at hnone

def assignmentAt (indexes : Indexes S) (index : String) (unit : UnitId) : ShardAssignment :=
  ((indexes.get? index).map (fun entry => entry.assignmentOf unit)).getD .none

lemma assignmentAt_insert (indexes : Indexes S) {entry : IndexEntry S}
    (hentry : indexes.get? index = some entry) (unit : UnitId) (b : ShardAssignment) (e : String × UnitId) :
    assignmentAt (indexes.insert index (entry.setAssignment unit b)) e.1 e.2 =
      if (index, unit) = e then b else assignmentAt indexes e.1 e.2 := by
  obtain ⟨index', unit'⟩ := e
  rw [assignmentAt, get?_insert]
  by_cases hi : index = index'
  · subst hi
    rw [if_pos rfl, map_some, getD_some, assignmentOf,
      unitAssignment_setAssignment, assignmentAt, hentry]
    by_cases hu : unit = unit' <;> simp [hu, assignmentOf]
  · simp [hi, assignmentAt]

lemma assignmentAt_of_get {entry : IndexEntry S} (hentry : indexes.get? index = some entry)
    (unit : UnitId) : assignmentAt indexes index unit = entry.assignmentOf unit := by
  rw [assignmentAt, hentry]
  rfl

/-- The resolve of a unit leaves its live primary, places it under the entitlement, or changes nothing because the
grace window is on and the unit has a primary. -/
def Gated (st : Placement S) (now : Int) (e : String × UnitId) : Prop :=
  (∃ p ∈ st.pool.liveNodes now, (assignmentAt st.indexes e.1 e.2).primary = some p) ∨
    (assignmentAt st.indexes e.1 e.2).primary = none ∧
      (∀ n ∈ (assignmentAt st.indexes e.1 e.2).replicas, n ∉ st.pool.liveNodes now) ∨
    st.pool.placementGraceActive now ∧ (assignmentAt st.indexes e.1 e.2).primary ≠ none

/-- A resolve adds at most one node to those that count: a live one, and a new one only below the
entitlement if it is gated. -/
lemma resolve_counts (st : Placement S) (e : String × UnitId) (now : Int) (r entitled : Nat) :
    entitlementNodes (resolveUnitHolders st e.1 e.2 r entitled now).1 st.pool now ⊆
      entitlementNodes st.indexes st.pool now ∨ ∃ p ∈ st.pool.liveNodes now,
      entitlementNodes (resolveUnitHolders st e.1 e.2 r entitled now).1 st.pool now ⊆
        insert p (entitlementNodes st.indexes st.pool now) ∧
      (Gated st now e → entitled ≤ (entitlementNodes st.indexes st.pool now).card →
        p ∈ entitlementNodes st.indexes st.pool now) := by
  rcases resolve_cases st e.1 e.2 now r entitled with hsame | ⟨entry, b, hentry, hgrace, hwrite, hlive, -, hplaced⟩
  · rw [hsame]
    exact .inl (Finset.Subset.refl _)
  · rw [hwrite]
    have hprimary : ∀ index unit, (e.1 = index ∧ e.2 = unit ∧
        primaryOf (st.indexes.insert e.1 (entry.setAssignment e.2 b)) index unit = b.primary) ∨
        primaryOf (st.indexes.insert e.1 (entry.setAssignment e.2 b)) index unit =
          primaryOf st.indexes index unit := by
      intro index unit
      rw [primaryOf_insert]
      by_cases hi : e.1 = index
      · rw [if_pos hi, unitPrimary_setAssignment, ← hi, primaryOf_of_get hentry]
        by_cases hu : e.2 = unit
        · exact .inl ⟨rfl, hu, if_pos hu⟩
        · exact .inr (if_neg hu)
      · exact .inr (if_neg hi)
    cases hb : b.primary with
    | none =>
      refine .inl (entitlementNodes_of_noneNew fun index unit => ?_)
      rcases hprimary index unit with ⟨-, -, hp⟩ | hp
      · exact .inr (hp.trans hb)
      · exact .inl hp
    | some p =>
      obtain ⟨hp, hfrom⟩ := hplaced p hb
      have hsub : entitlementNodes (st.indexes.insert e.1 (entry.setAssignment e.2 b)) st.pool now ⊆
          insert p (entitlementNodes st.indexes st.pool now) :=
        entitlementNodes_subset fun index unit => by
          rcases hprimary index unit with ⟨-, -, hp'⟩ | hp'
          · exact .inr (.inl (hp'.trans hb))
          · exact .inl hp'
      by_cases hkept : (entry.assignmentOf e.2).primary = some p
      · refine .inl (entitlementNodes_of_noneNew fun index unit => ?_)
        rcases hprimary index unit with ⟨rfl, rfl, hp'⟩ | hp'
        · rw [hp', hb, primaryOf_of_get hentry, unitPrimary_eq, hkept]
          exact .inl rfl
        · exact .inl hp'
      · refine .inr ⟨p, hp, hsub, fun hgated => ?_⟩
        rw [Gated, assignmentAt_of_get hentry] at hgated
        rcases hgated with ⟨q, hq, hold⟩ | ⟨hnone, hdead⟩ | ⟨hactive, hsome⟩
        · -- a live primary would have been kept
          have hq' := hlive q hq ((unitPrimary_eq _ _).trans hold)
          rw [hb] at hq'
          exact absurd (some.inj hq' ▸ hold) hkept
        · cases hfrom with
          | kept h => exact absurd h hkept
          | promoted hreplica => exact absurd hp (hdead p hreplica)
          | picked _ hgate => exact hgate hnone
        · exact absurd ((unitPrimary_eq _ _).symm.trans (hgrace hactive)) hsome

lemma Gated.resolve {e e' : String × UnitId} (h : Gated st now e') (r entitled : Nat) :
    Gated ⟨(resolveUnitHolders st e.1 e.2 r entitled now).1, st.pool⟩ now e' := by
  rcases resolve_cases st e.1 e.2 now r entitled with hsame | ⟨entry, b, hentry, -, hwrite, -, hnone, hplaced⟩
  · rwa [hsame]
  · rw [hwrite, Gated, assignmentAt_insert st.indexes hentry]
    split_ifs with heq
    · cases hb : b.primary with
      | none =>
        refine .inr (.inl ⟨rfl, fun n hn => ?_⟩)
        simp [hnone hb] at hn
      | some p => exact .inl ⟨p, (hplaced p hb).1, rfl⟩
    · exact h

/-- There is room for the resolves of a work-list: for one more node each, for all live nodes, or each
of them is gated. -/
def RoomToResolve (st : Placement S) (now : Int) (cap : Nat) (work : List (String × UnitId)) : Prop :=
  countEntitlementNodes st now + work.length ≤ cap ∨
    (entitlementNodes st.indexes st.pool now ∪ (st.pool.liveNodes now).toFinset).card ≤ cap ∨
    ∀ e ∈ work, Gated st now e

lemma resolveAll_within (hroom : RoomToResolve st now cap work)
    (h : countEntitlementNodes st now ≤ cap) (counts : UnitHolders → Bool) (r done : Nat) :
    countEntitlementNodes (resolveAll counts r cap now work st done).1 now ≤ cap := by
  rw [countEntitlementNodes] at h
  rcases hroom with hlength | hlive | hgated
  · -- each resolve counts at most one node more
    obtain ⟨hpool, n, hn, hcard⟩ := resolveAll_rule (fun k indexes =>
        (entitlementNodes indexes st.pool now).card ≤ countEntitlementNodes st now + k) st.pool counts r cap work
      (fun k indexes e _ hk => by
        rcases resolve_counts ⟨indexes, st.pool⟩ e now r cap with hsub | ⟨p, -, hsub, -⟩
        · exact (Finset.card_le_card hsub).trans (hk.trans (Nat.le_succ _))
        · exact (Finset.card_le_card hsub).trans ((Finset.card_insert_le _ _).trans (Nat.succ_le_succ hk)))
      st.indexes 0 done le_rfl
    rw [countEntitlementNodes, hpool]
    exact hcard.trans (by omega)
  · -- only live nodes are counted anew
    obtain ⟨hpool, n, hn, hsub⟩ := resolveAll_rule (fun _ indexes => entitlementNodes indexes st.pool now ⊆
        entitlementNodes st.indexes st.pool now ∪ (st.pool.liveNodes now).toFinset) st.pool counts r cap work
      (fun k indexes e _ hk => by
        rcases resolve_counts ⟨indexes, st.pool⟩ e now r cap with hsub | ⟨p, hp, hsub, -⟩
        · exact hsub.trans hk
        · exact hsub.trans (Finset.insert_subset (Finset.mem_union_right _ (mem_toFinset.mpr hp)) hk))
      st.indexes 0 done Finset.subset_union_left
    rw [countEntitlementNodes, hpool]
    exact (Finset.card_le_card hsub).trans hlive
  · obtain ⟨hpool, n, hn, hcard, -⟩ := resolveAll_rule (fun _ indexes =>
        (entitlementNodes indexes st.pool now).card ≤ cap ∧ ∀ e ∈ work, Gated ⟨indexes, st.pool⟩ now e)
      st.pool counts r cap work
      (fun k indexes e he hk => by
        refine ⟨?_, fun e' he' => (hk.2 e' he').resolve r cap⟩
        rcases resolve_counts ⟨indexes, st.pool⟩ e now r cap with hsub | ⟨p, hp, hsub, hgate⟩
        · exact (Finset.card_le_card hsub).trans hk.1
        · by_cases hfull : cap ≤ (entitlementNodes indexes st.pool now).card
          · rw [Finset.insert_eq_of_mem (hgate (hk.2 e he) hfull)] at hsub
            exact (Finset.card_le_card hsub).trans hk.1
          · exact (Finset.card_le_card hsub).trans ((Finset.card_insert_le _ _).trans (not_le.mp hfull)))
      st.indexes 0 done ⟨h, hgated⟩
    rwa [countEntitlementNodes, hpool]

/-- The node counts already or one more may, or the announce takes no unit over, or it claims a unit without a
primary. -/
def RoomToAnnounce (st : Placement S) (now : Int) (cap : Nat) (index : String) (endpoint : NodeId)
    (units : List UnitId) : Prop :=
  countEntitlementNodes st now < cap ∨ endpoint ∈ entitlementNodes st.indexes st.pool now ∨
    (∃ unit ∈ units, primaryOf st.indexes index unit = none) ∨
    ∀ unit ∈ units, ∀ cur, primaryOf st.indexes index unit = some cur → cur = endpoint ∨
      st.pool.ownerConfidentlyDead cur now = false ∧ st.pool.isPoolEligible cur = true

lemma announced_within
    (hroom : RoomToAnnounce st now cap index endpoint units) (h : countEntitlementNodes st now ≤ cap)
    (hann : Announced st index endpoint now cap units indexes) :
    (entitlementNodes indexes st.pool now).card ≤ cap := by
  have hsub : entitlementNodes indexes st.pool now ⊆ insert endpoint (entitlementNodes st.indexes st.pool now) :=
    entitlementNodes_subset fun index' unit => by
      rcases hann.primary_cases index' unit with hsame | ⟨-, -, hp, -⟩
      · exact .inl hsame
      · exact .inr (.inl hp)
  have hbelow : countEntitlementNodes st now < cap → (entitlementNodes indexes st.pool now).card ≤ cap :=
    fun hlt => (Finset.card_le_card hsub).trans ((Finset.card_insert_le _ _).trans hlt)
  have hcounted : endpoint ∈ entitlementNodes st.indexes st.pool now →
      (entitlementNodes indexes st.pool now).card ≤ cap := by
    intro hin
    rw [Finset.insert_eq_of_mem hin] at hsub
    exact (Finset.card_le_card hsub).trans h
  obtain ⟨entry, reports, fresh, hentry, hclassify, hadmit, hprimary⟩ := hann.accepted
  -- a claim of a unit without a primary has passed the check
  have hfresh : fresh → (entitlementNodes indexes st.pool now).card ≤ cap := by
    rintro rfl
    unfold checkEntitled at hadmit
    dsimp only at hadmit
    split_ifs at hadmit with hgate
    by_cases hin : endpoint ∈ entitlementNodes st.indexes st.pool now
    · exact hcounted hin
    · exact hbelow (not_le.mp fun hle => hgate ⟨rfl, hin, hle⟩)
  rcases hroom with hlt | hin | ⟨unit, hu, hnone⟩ | hown
  · exact hbelow hlt
  · exact hcounted hin
  · exact hfresh ((classify_ok hclassify hu).1 ((primaryOf_of_get hentry unit).symm.trans hnone))
  · cases hf : fresh with
    | true => exact hfresh hf
    | false =>
      refine (Finset.card_le_card (entitlementNodes_of_noneNew fun index' unit => ?_)).trans h
      rw [hprimary]
      split_ifs with hclaimed
      · obtain ⟨rfl, hin, hout⟩ := hclaimed
        obtain ⟨hnew, hopen⟩ := classify_ok hclassify hin
        rcases hopen hout with hnone | ⟨cur, hcur, htake⟩
        · cases hf.symm.trans (hnew hnone)
        · have hp := (primaryOf_of_get hentry unit).trans hcur
          rcases hown unit hin cur hp with rfl | ⟨hdead, helig⟩
          · exact .inl hp.symm
          · rcases htake with rfl | htake | htake
            · exact .inl hp.symm
            · simp [hdead] at htake
            · simp [helig] at htake
      · exact .inl rfl

def PlacementOp.cap : PlacementOp → Option Nat
  | .heartbeat .. => none
  | .touch _ => none
  | .announcePrimaries _ _ _ entitled => some entitled
  | .announceWindows _ _ _ entitled => some entitled
  | .resolve _ _ _ entitled => some entitled
  | .sweep _ entitled => some entitled
  | .ensure _ entitled => some entitled

def Room (st : Placement S) (now : Int) : PlacementOp → Prop
  | .announcePrimaries index shards endpoint cap => RoomToAnnounce st now cap index endpoint (shards.map UnitId.shard)
  | .announceWindows index endpoint windows cap =>
    RoomToAnnounce st now cap index endpoint (windows.map (fun w => .window w.window))
  | .resolve index unit _ cap => RoomToResolve st now cap [(index, unit)]
  | .sweep _ cap => RoomToResolve st now cap (deadPrimaryUnits st now)
  | .ensure r cap => RoomToResolve st now cap (unitsNeedingPlacement st r now)
  | _ => True

lemma resolveAll_single (counts : UnitHolders → Bool) (st : Placement S) (index : String) (unit : UnitId)
    (r entitled done : Nat) : (resolveAll counts r entitled now [(index, unit)] st done).1 =
      { st with indexes := (resolveUnitHolders st index unit r entitled now).1 } := by
  rw [resolveAll]
  dsimp only
  split <;> rfl

/-- Where there is room for what it may move, no placement operation takes the number of nodes that
hold a primary above the cap. -/
theorem placement_within_entitlement {cap : Nat} {op : PlacementOp} (hop : op.cap = some cap)
    (hroom : Room st now op) (h : countEntitlementNodes st now ≤ cap) :
    countEntitlementNodes (st.perform now op) now ≤ cap := by
  cases op with
  | heartbeat => cases hop
  | touch => cases hop
  | resolve index unit r entitled =>
    obtain rfl := Option.some.inj hop
    have hwithin := resolveAll_within hroom h UnitHolders.moved r 0
    rwa [resolveAll_single] at hwithin
  | sweep r entitled =>
    obtain rfl := Option.some.inj hop
    rw [Placement.perform, sweepDeadPrimaries]
    split_ifs
    · exact h
    · exact resolveAll_within hroom h _ r 0
  | ensure r entitled =>
    obtain rfl := Option.some.inj hop
    rw [Placement.perform, ensurePlacement]
    split_ifs
    · exact h
    · exact resolveAll_within hroom h _ r 0
  | announcePrimaries index shards endpoint entitled =>
    obtain rfl := Option.some.inj hop
    rw [Placement.perform]
    cases ha : announcePrimaries st index shards endpoint now entitled with
    | error e => exact h
    | ok indexes =>
      rcases announcePrimaries_ok ha with rfl | hann
      · exact h
      · have hwithin := announced_within hroom h hann
        exact hwithin
  | announceWindows index endpoint windows entitled =>
    obtain rfl := Option.some.inj hop
    rw [Placement.perform]
    cases ha : announceWindows st index endpoint windows now entitled with
    | error e => exact h
    | ok indexes =>
      rcases announceWindows_ok ha with rfl | hann
      · exact h
      · have hwithin := announced_within hroom h hann
        exact hwithin

def Spread.entry : IndexEntry Nat where
  definition := ⟨"i", 3, none, 0⟩
  status := .active
  shards := ((BTreeMap.empty.insert 0 ⟨some "a", []⟩).insert 1 ⟨some "d", []⟩).insert 2 ⟨some "d", []⟩
  windows := .empty
  bucketOwners := []
  generation := 0
  definitionVersion := 0

def Spread.nodes : Pool where
  nodePool := (((BTreeMap.empty.insert "a" 100000).insert "b" 100000).insert "c" 100000).insert "d" 0
  replicaCapable := ∅
  poolEligible := {"a", "b", "c", "d"}
  graceAnchorMs := 0

def Spread.crowd : Placement Nat := ⟨BTreeMap.empty.insert "i" entry, nodes⟩

/-- A shard of the dead node is placed on one that did not count: one node before, two after. -/
theorem entitlement_of_replaced_primary :
    Room Spread.crowd 100000 (.resolve "i" (.shard 1) 1 2) ∧ countEntitlementNodes Spread.crowd 100000 = 1 ∧
      primaryOf (Spread.crowd.perform 100000 (.resolve "i" (.shard 1) 1 2)).indexes "i" (.shard 1) = some "b" ∧
      countEntitlementNodes (Spread.crowd.perform 100000 (.resolve "i" (.shard 1) 1 2)) 100000 ≤ 2 := by
  have hroom : Room Spread.crowd 100000 (.resolve "i" (.shard 1) 1 2) := .inl (by decide +kernel)
  exact ⟨hroom, by decide +kernel, by decide +kernel, placement_within_entitlement rfl hroom (by decide +kernel)⟩

/-- The sweep gives the two shards of one dead node to two others: with a cap of two, one node counted
before and three after. -/
theorem entitlement_exceeded : countEntitlementNodes Spread.crowd 100000 = 1 ∧
    countEntitlementNodes (Spread.crowd.perform 100000 (.sweep 1 2)) 100000 = 3 := by
  decide +kernel

end GrowlerDB.ControlPlane
