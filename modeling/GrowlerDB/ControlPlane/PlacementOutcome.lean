import GrowlerDB.ControlPlane.PlacementResult

namespace GrowlerDB.ControlPlane
open Lib List Option

variable {S : Type} {st : Placement S} {index : String} {unit : UnitId} {now : Int} {r entitled : Nat}

/-- The call with its persist, which is made if something changed; `store` is what was persisted before. -/
def resolvePersisting (st : Placement S) (store : Indexes S) (outcome : PersistOutcome) (index : String)
    (unit : UnitId) (replicationFactor entitledNodes : Nat) (now : Int) :
    Indexes S × Except RegistryError UnitHolders :=
  let resolved := resolveUnitHolders st index unit replicationFactor entitledNodes now
  match resolved.2 with
  | .error e => (resolved.1, .error e)
  | .ok holders =>
    if holders.changed = true ∧ outcome ≠ .stored then
      (outcome.memory resolved.1 store, .error (.backend "the registry could not be persisted"))
    else resolved

/-- What a failing call does not harm: a unit without a node that is kept as an empty assignment already, and one whose
persist fails and is rolled back to the map of before. -/
def Unharmed (st : Placement S) (store : Indexes S) (outcome : PersistOutcome) (index : String) (unit : UnitId)
    (entitled : Nat) (now : Int) : Prop :=
  ∀ entry, st.indexes.get? index = some entry → st.pool.liveNodes now ≠ [] →
    if st.Stuck entitled now (entry.assignmentOf unit) then entry.unitAssignment unit = some ⟨none, []⟩
    else outcome = .restored ∧ store = st.indexes

/-- A failing call leaves the map as it was exactly if it is unharmed. -/
theorem failed_placement_unchanged_iff {store : Indexes S} {outcome : PersistOutcome} {e : RegistryError}
    (h : (resolvePersisting st store outcome index unit r entitled now).2 = .error e) :
    (resolvePersisting st store outcome index unit r entitled now).1 = st.indexes ↔
      Unharmed st store outcome index unit entitled now := by
  rcases resolveUnitHolders_cases st index unit r entitled now with
    ⟨e', heq, hnothing⟩ | ⟨hgrace, p, replicas, heq⟩ | ⟨entry, hentry, hlive, -, hcall⟩
  · rw [resolvePersisting, heq]
    refine iff_of_true rfl fun entry hentry hlive => ?_
    rcases hnothing with ⟨hnone, -⟩ | ⟨-, hempty, -⟩
    · simp [hnone] at hentry
    · exact absurd hempty hlive
  · simp [resolvePersisting, heq] at h
  · have hunharmed : Unharmed st store outcome index unit entitled now ↔
        if st.Stuck entitled now (entry.assignmentOf unit) then entry.unitAssignment unit = some ⟨none, []⟩
        else outcome = .restored ∧ store = st.indexes := by
      refine ⟨fun hu => hu entry hentry hlive, fun hu entry' hentry' _ => ?_⟩
      rw [hentry] at hentry'
      exact some.inj hentry' ▸ hu
    rw [hunharmed]
    rcases hcall with ⟨hstuck, e', heq, -⟩ | ⟨hfree, p, replicas, changed, moved, heq, -, -, hchanged⟩
    · rw [if_pos hstuck, resolvePersisting, heq]
      exact insert_setAssignment_eq_iff hentry _
    · rw [if_neg hfree]
      rw [resolvePersisting, heq] at h ⊢
      dsimp only at h ⊢
      split_ifs at h ⊢ with hpersist
      obtain ⟨hyes, hfailed⟩ := hpersist
      cases outcome with
      | stored => exact absurd rfl hfailed
      | restored => simp [PersistOutcome.memory]
      | unrestored =>
        -- the map has changed and stays changed
        refine iff_of_false (fun hsame => ?_) (by simp)
        have hstored := (insert_setAssignment_eq_iff hentry _).mp hsame
        exact hchanged hyes (assignmentOf_of_eq_some hstored).symm

def holdersOf (indexes : Indexes S) (index : String) (unit : UnitId) : List NodeId :=
  (indexes.get? index).elim [] (fun entry => (entry.assignmentOf unit).nodes)

structure PlacementRight (st : Placement S) (index : String) (unit : UnitId) (r entitled : Nat) (now : Int)
    (indexes : Indexes S) (h : UnitHolders) : Prop where
  stored : ∃ entry, indexes.get? index = some entry ∧ entry.unitAssignment unit = some ⟨some h.primary, h.replicas⟩
  primaryLive : h.primary ∈ st.pool.liveNodes now
  replicasLive : ∀ n ∈ h.replicas, n ∈ st.pool.liveNodes now
  distinct : h.replicas.Nodup
  apart : h.primary ∉ h.replicas
  atMost : h.replicas.length ≤ r - 1
  full : h.replicas.length = r - 1 ∨ ∀ n ∈ st.pool.placementNodes now, n ∈ st.pool.replicaCapable →
    n = h.primary ∨ n ∈ h.replicas
  promoted : ∀ entry, st.indexes.get? index = some entry →
    (∀ p, (entry.assignmentOf unit).primary = some p → p ∉ st.pool.liveNodes now) →
    (∃ n ∈ (entry.assignmentOf unit).replicas, n ∈ st.pool.liveNodes now) →
    h.primary ∈ (entry.assignmentOf unit).replicas
  others : ∀ index' unit', (index', unit') ≠ (index, unit) →
    (indexes.get? index').map (fun e => e.unitAssignment unit') =
      (st.indexes.get? index').map (fun e => e.unitAssignment unit')
  again : resolveUnitHolders ⟨indexes, st.pool⟩ index unit r entitled now =
    (indexes, .ok { h with changed := false, moved := false })

lemma others_of_insert {indexes : Indexes S} {entry : IndexEntry S} (h : indexes.get? index = some entry)
    (b : ShardAssignment) (hne : (index', unit') ≠ (index, unit)) :
    ((indexes.insert index (entry.setAssignment unit b)).get? index').map (fun e => e.unitAssignment unit') =
      (indexes.get? index').map (fun e => e.unitAssignment unit') := by
  rw [BTreeMap.get?_insert]
  split_ifs with hi
  · subst hi
    have hu : unit ≠ unit' := fun heq => hne (by rw [heq])
    rw [h, map_some, map_some, IndexEntry.unitAssignment_setAssignment, if_neg hu]
  · rfl

/-- Outside the grace window a call that succeeds has done right, and a second one changes nothing, exactly if the live
holders it keeps, at most the replication factor of them, were listed once each. -/
theorem placement_right_iff {indexes : Indexes S} {h : UnitHolders}
    (hgrace : st.pool.placementGraceActive now = false)
    (hok : resolveUnitHolders st index unit r entitled now = (indexes, .ok h)) :
    PlacementRight st index unit r entitled now indexes h ↔
      (((holdersOf st.indexes index unit).filter (fun n => decide (n ∈ st.pool.liveNodes now))).take (max r 1)).Nodup := by
  rcases resolveUnitHolders_cases st index unit r entitled now with
    ⟨e, heq, -⟩ | ⟨hactive, -⟩ | ⟨entry, hentry, -, -, hcall⟩
  · simp [heq] at hok
  · simp [hgrace] at hactive
  · rcases hcall with ⟨-, e, heq, -⟩ | ⟨-, p, replicas, changed, moved, heq, hres, -⟩
    · simp [heq] at hok
    · rw [heq] at hok
      obtain ⟨rfl, hh⟩ := Prod.mk.inj hok
      cases hh
      have hholders : holdersOf st.indexes index unit = (entry.assignmentOf unit).nodes := by rw [holdersOf, hentry]; rfl
      rw [hholders, ← hres.distinct, nodup_cons]
      constructor
      · exact fun h => ⟨h.apart, h.distinct⟩
      · rintro ⟨hapart, hdistinct⟩
        have hget := BTreeMap.get?_insert st.indexes index index (entry.setAssignment unit ⟨some p, replicas⟩)
        have hunit := entry.unitAssignment_setAssignment unit unit ⟨some p, replicas⟩
        rw [if_pos rfl] at hget hunit
        refine ⟨⟨_, hget, hunit⟩, hres.live p mem_cons_self, fun n hn => hres.live n (mem_cons_of_mem _ hn), hdistinct, hapart,
          hres.atMost, hres.full.imp_right fun h n hn hc => mem_cons.mp (h n hn hc), ?_, ?_,
          hres.again hgrace hget hunit⟩
        · intro entry' hentry' hdead hwarm
          obtain rfl := some.inj (hentry.symm.trans hentry')
          obtain ⟨n, hn, hnlive⟩ := hwarm
          -- the first live holder is not the primary, so it is a replica
          cases hfilter : (entry.assignmentOf unit).nodes.filter (fun n => decide (n ∈ st.pool.liveNodes now)) with
          | nil => exact absurd (decide_eq_true hnlive) (filter_eq_nil_iff.mp hfilter n (mem_append_right _ hn))
          | cons x rest =>
            obtain rfl := hres.first x rest hfilter
            have hx : p ∈ (entry.assignmentOf unit).nodes.filter (fun n => decide (n ∈ st.pool.liveNodes now)) :=
              hfilter ▸ mem_cons_self
            obtain ⟨hin, hxlive⟩ := mem_filter.mp hx
            rcases mem_append.mp hin with hin | hin
            · exact absurd (of_decide_eq_true hxlive) (hdead p (mem_toList.mp hin))
            · exact hin
        · exact fun index' unit' hne => others_of_insert hentry _ hne

def threeNodes : Pool :=
  ((((⟨.empty, ∅, ∅, -1⟩ : Pool).touchNodeLiveness "classic" 0).touchNodeLiveness "classic" 40000
    ).registerNodeWithCapability "a" 40000 true).registerNodeWithCapability "b" 40000 true

def classicOnly : Pool := ((⟨.empty, ∅, ∅, -1⟩ : Pool).touchNodeLiveness "classic" 0).touchNodeLiveness "classic" 40000

def oneShard (a : ShardAssignment) : Indexes Unit :=
  BTreeMap.empty.insert "docs" (IndexEntry.setAssignment
    ⟨⟨"docs", 1, none, ()⟩, .active, .empty, .empty, [], 0, 0⟩ (.shard 0) a)

/-- The only live node is none that units are placed on: a unit kept as empty stays as it is. -/
theorem failed_placement_unchanged_empty :
    (resolvePersisting ⟨oneShard ⟨none, []⟩, classicOnly⟩ (oneShard ⟨none, []⟩) .stored "docs" (.shard 0) 2 4 40000).1 =
      oneShard ⟨none, []⟩ := by
  refine (failed_placement_unchanged_iff (e := .noLiveNode "docs" "shard 0") (by rfl)).mpr fun entry hentry _ => ?_
  obtain rfl := some.inj ((show (oneShard ⟨none, []⟩).get? "docs" = some _ from rfl).symm.trans hentry)
  rw [if_pos (by decide +kernel)]
  rfl

/-- The primary of a unit is dead and there is no node for it: the call fails, and the primary is cleared all the same.
And for a unit that was not known an empty assignment is made. -/
theorem failed_placement_changes_map :
    (resolvePersisting ⟨oneShard ⟨some "dead", []⟩, classicOnly⟩ (oneShard ⟨some "dead", []⟩) .stored "docs" (.shard 0) 2 4
      40000) = (oneShard ⟨none, []⟩, .error (.noLiveNode "docs" "shard 0")) ∧
    ((resolvePersisting ⟨oneShard ⟨some "dead", []⟩, classicOnly⟩ (oneShard ⟨some "dead", []⟩) .stored "docs" (.shard 7) 2
      4 40000).1.get? "docs").bind (fun e => e.unitAssignment (.shard 7)) = some ⟨none, []⟩ := by
  exact ⟨rfl, rfl⟩

/-- A dead primary with a live replica: the replica is promoted and another one is added. -/
theorem placement_right_promotion :
    PlacementRight ⟨oneShard ⟨some "dead", ["b"]⟩, threeNodes⟩ "docs" (.shard 0) 2 4 40000
      (oneShard ⟨some "b", ["a"]⟩) ⟨"b", ["a"], true, true⟩ :=
  (placement_right_iff (by decide +kernel) (by rfl)).mpr (by decide +kernel)

/-- A unit that lists its primary as a replica keeps it in both roles. -/
theorem placement_keeps_double_role :
    resolveUnitHolders ⟨oneShard ⟨some "a", ["a"]⟩, threeNodes⟩ "docs" (.shard 0) 2 4 40000 =
      (oneShard ⟨some "a", ["a"]⟩, .ok ⟨"a", ["a"], false, false⟩) := by
  rfl

open Core

variable {S : Type} {st st' : Placement S} {now : Int}

lemma Pool.not_dead_of_grace {pool : Pool} (h : pool.placementGraceActive now) (endpoint : NodeId) :
    pool.ownerConfidentlyDead endpoint now = false := by
  rw [ownerConfidentlyDead, h]
  split <;> simp

def KeepsPrimaries (indexes indexes' : Indexes S) : Prop :=
  ∀ index unit p, primaryOf indexes index unit = some p → primaryOf indexes' index unit = some p

lemma KeepsPrimaries.refl (indexes : Indexes S) : KeepsPrimaries indexes indexes := fun _ _ _ hp => hp

lemma KeepsPrimaries.trans (h : KeepsPrimaries a b) (h' : KeepsPrimaries b c) :
    KeepsPrimaries a c := fun index unit p hp => h' index unit p (h index unit p hp)

lemma resolve_keepsPrimaries (st : Placement S) (hg : st.pool.placementGraceActive now) (index : String) (unit : UnitId)
    (r entitled : Nat) : KeepsPrimaries st.indexes (resolveUnitHolders st index unit r entitled now).1 := by
  rcases resolve_cases st index unit now r entitled with hsame | ⟨entry, b, hentry, hgrace, hwrite, -⟩
  · rw [hsame]
    exact .refl _
  · intro index' unit' p hp
    rw [hwrite, primaryOf_insert]
    split_ifs with hi
    · subst hi
      rw [primaryOf_of_get hentry] at hp
      rw [IndexEntry.unitPrimary_setAssignment, if_neg]
      · exact hp
      · rintro rfl
        rw [hgrace hg] at hp
        cases hp
    · exact hp

lemma resolveAll_keepsPrimaries (counts : UnitHolders → Bool) (r entitled : Nat)
    (work : List (String × UnitId)) (done : Nat) (hg : st.pool.placementGraceActive now) :
    KeepsPrimaries st.indexes (resolveAll counts r entitled now work st done).1.indexes := by
  obtain ⟨-, n, -, h⟩ := resolveAll_rule (fun _ indexes => KeepsPrimaries st.indexes indexes) st.pool counts
    r entitled work (fun _ indexes e _ hkeeps =>
      hkeeps.trans (resolve_keepsPrimaries ⟨indexes, st.pool⟩ hg e.1 e.2 r entitled))
    st.indexes 0 done (.refl _)
  exact h

lemma announced_keepsPrimaries (hg : st.pool.placementGraceActive now)
    (h : Announced st index endpoint now entitled units indexes)
    (hsteady : ∀ unit ∈ units, ∀ cur, primaryOf st.indexes index unit = some cur →
      cur = endpoint ∨ cur ∈ st.pool.poolEligible) : KeepsPrimaries st.indexes indexes := by
  intro index' unit p hp
  rcases h.primary_cases index' unit with hsame | ⟨rfl, hin, hprimary, htake⟩
  · rw [hsame, hp]
  · rw [hprimary]
    rcases htake p hp with rfl | hdead | hclassic
    · rfl
    · rw [Pool.not_dead_of_grace hg] at hdead
      cases hdead
    · rcases hsteady unit hin p hp with rfl | helig
      · rfl
      · rw [Pool.isPoolEligible, decide_eq_false_iff_not] at hclassic
        exact absurd helig hclassic

def InGrace (st : Placement S) (now : Int) : PlacementOp → Prop
  | .heartbeat .. => True
  | .touch _ => True
  | _ => st.pool.placementGraceActive now = true

/-- No node announces a unit of another node that has not registered with the pool again. -/
def Steady (st : Placement S) : PlacementOp → Prop
  | .announcePrimaries index shards endpoint _ => ∀ ordinal ∈ shards, ∀ cur,
      primaryOf st.indexes index (.shard ordinal) = some cur → cur = endpoint ∨ cur ∈ st.pool.poolEligible
  | .announceWindows index endpoint windows _ => ∀ w ∈ windows, ∀ cur,
      primaryOf st.indexes index (.window w.window) = some cur → cur = endpoint ∨ cur ∈ st.pool.poolEligible
  | _ => True

lemma perform_keepsPrimaries (hgrace : InGrace st now op) (hsteady : Steady st op) :
    KeepsPrimaries st.indexes (st.perform now op).indexes := by
  cases op with
  | resolve index unit r entitled => exact resolve_keepsPrimaries st hgrace index unit r entitled
  | sweep r entitled =>
    rw [Placement.perform, sweepDeadPrimaries]
    split_ifs
    · exact .refl _
    · exact resolveAll_keepsPrimaries _ r entitled _ 0 hgrace
  | ensure r entitled =>
    rw [Placement.perform, ensurePlacement]
    split_ifs
    · exact .refl _
    · exact resolveAll_keepsPrimaries _ r entitled _ 0 hgrace
  | announcePrimaries index shards endpoint entitled =>
    rw [Placement.perform]
    cases ha : announcePrimaries st index shards endpoint now entitled with
    | error e => exact .refl _
    | ok indexes =>
      rcases announcePrimaries_ok ha with rfl | hann
      · exact .refl _
      · refine announced_keepsPrimaries hgrace hann fun unit hin => ?_
        obtain ⟨ordinal, ho, rfl⟩ := List.mem_map.mp hin
        exact hsteady ordinal ho
  | announceWindows index endpoint windows entitled =>
    rw [Placement.perform]
    cases ha : announceWindows st index endpoint windows now entitled with
    | error e => exact .refl _
    | ok indexes =>
      rcases announceWindows_ok ha with rfl | hann
      · exact .refl _
      · refine announced_keepsPrimaries hgrace hann fun unit hin => ?_
        obtain ⟨w, hw, rfl⟩ := List.mem_map.mp hin
        exact hsteady w hw
  | _ => exact .refl _

/-- Where every unit announced by another node than its primary belongs to a node that has registered again: in every
run within the grace window, no unit with a primary changes it. -/
theorem grace_keeps_primaries
    (h : Placement.Runs (fun st now op => InGrace st now op ∧ Steady st op) st st') :
    ∀ index unit p, primaryOf st.indexes index unit = some p → primaryOf st'.indexes index unit = some p := by
  change KeepsPrimaries st.indexes st'.indexes
  induction h with
  | start => exact .refl _
  | step _ ha ih => exact ih.trans (perform_keepsPrimaries ha.1 ha.2)

namespace Restarted

def entry : IndexEntry Nat :=
  ⟨⟨"i", 1, none, 0⟩, .active, BTreeMap.empty.insert 0 ⟨some "a", []⟩, .empty, [], 0, 0⟩

def booted : Placement Nat := ⟨BTreeMap.empty.insert "i" entry, ⟨.empty, ∅, ∅, -1⟩⟩

def registered : Placement Nat := booted.perform 1000 (.heartbeat "b" true)

end Restarted

open Restarted

theorem grace_keeps_owner : Placement.Runs (fun st now op => InGrace st now op ∧ Steady st op) booted
      (registered.perform 2000 (.resolve "i" (.shard 0) 1 3)) ∧
    primaryOf (registered.perform 2000 (.resolve "i" (.shard 0) 1 3)).indexes "i" (.shard 0) = some "a" := by
  have hgrace : registered.pool.placementGraceActive 2000 = true := by decide +kernel
  have hrun : Placement.Runs (fun st now op => InGrace st now op ∧ Steady st op) booted
      (registered.perform 2000 (.resolve "i" (.shard 0) 1 3)) :=
    .step (.step .start ⟨trivial, trivial⟩) ⟨hgrace, trivial⟩
  exact ⟨hrun, grace_keeps_primaries hrun "i" (.shard 0) "a" (by decide +kernel)⟩

/-- The first node to come back takes the shard of one that has not registered yet. -/
theorem grace_loses_owner : primaryOf booted.indexes "i" (.shard 0) = some "a" ∧
    registered.pool.placementGraceActive 2000 = true ∧
    primaryOf (registered.perform 2000 (.announcePrimaries "i" [0] "b" 3)).indexes "i" (.shard 0) = some "b" := by
  decide +kernel

section

variable {S : Type} (r entitled : Nat) (now : Int)

def Placement.call (st : Placement S) (e : String × UnitId) : Placement S :=
  { st with indexes := (resolveUnitHolders st e.1 e.2 r entitled now).1 }

def IsResolved (st : Placement S) (e : String × UnitId) : Prop :=
  ∃ entry a p replicas, st.indexes.get? e.1 = some entry ∧
    entry.unitAssignment e.2 = some ⟨some p, replicas⟩ ∧ Resolved st r now a p replicas

variable {r entitled now} {st : Placement S} {e : String × UnitId}

lemma Resolved.elsewhere (h : Resolved st r now a p replicas) (indexes : Indexes S) :
    Resolved { st with indexes } r now a p replicas := ⟨h.live, h.atMost, h.full, h.distinct, h.first⟩

section

variable (hgrace : st.pool.placementGraceActive now = false)
include hgrace

/-- What is resolved stays so under the calls for other units and for itself. -/
lemma IsResolved.call (h : IsResolved r now st e)
    (e' : String × UnitId) : IsResolved r now (st.call r entitled now e') e := by
  obtain ⟨entry, a, p, replicas, hentry, hunit, hres⟩ := h
  rw [Placement.call]
  by_cases he : e = e'
  · subst he
    refine ⟨entry, a, p, replicas, ?_, hunit, hres.elsewhere _⟩
    rwa [show resolveUnitHolders st e.1 e.2 r entitled now = _ from hres.again hgrace hentry hunit]
  · rcases resolve_cases st e'.1 e'.2 now r entitled with heq | ⟨entry', b, hentry', -, heq, -⟩
    · rw [heq]
      exact ⟨entry, a, p, replicas, hentry, hunit, hres⟩
    · have hothers := others_of_insert hentry' b (show (e.1, e.2) ≠ (e'.1, e'.2) from he)
      rw [hentry, map_some, hunit, map_eq_some_iff] at hothers
      obtain ⟨entry'', hget, hunit'⟩ := hothers
      rw [heq]
      exact ⟨entry'', a, p, replicas, hget, hunit', hres.elsewhere _⟩

lemma IsResolved.resolveAll (h : IsResolved r now st e)
    (work : List (String × UnitId)) (done : Nat) :
    IsResolved r now (resolveAll counts r entitled now work st done).1 e := by
  induction work generalizing st done with
  | nil => exact h
  | cons e' work ih =>
    have hnext : IsResolved r now (st.call r entitled now e') e := h.call hgrace e'
    rw [ControlPlane.resolveAll]
    dsimp only
    split
    · exact ih (by exact hgrace) hnext _
    · exact ih (by exact hgrace) hnext _
    · exact hnext
    · exact hnext

end

end

end GrowlerDB.ControlPlane
