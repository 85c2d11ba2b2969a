import GrowlerDB.ControlPlane.Catalog
import GrowlerDB.Lib.Results

namespace GrowlerDB.ControlPlane
open Core Lib UnitId

def nodeReannounceIntervalMs : Int := 10000

def nodeHeartbeatTtlMs : Int := 3 * nodeReannounceIntervalMs

def initialPlacementSettleMs : Int := nodeReannounceIntervalMs / 2

/-- What is known of the nodes, in memory only: heartbeats, those that can hold replicas, those that units are placed
on, and the first heartbeat since the start (or -1). -/
structure Pool where
  nodePool : BTreeMap NodeId Int
  replicaCapable : Finset NodeId
  poolEligible : Finset NodeId
  graceAnchorMs : Int

namespace Pool

variable (pool : Pool) (endpoint : NodeId) (now : Int)

def arm : Pool := if pool.graceAnchorMs = -1 then { pool with graceAnchorMs := now } else pool

def registerNodeWithCapability (replicaCapable : Bool) : Pool :=
  arm { pool with
    nodePool := pool.nodePool.insert endpoint now
    replicaCapable := if replicaCapable then insert endpoint pool.replicaCapable else pool.replicaCapable.erase endpoint
    poolEligible := insert endpoint pool.poolEligible } now

def touchNodeLiveness : Pool := arm { pool with nodePool := pool.nodePool.insert endpoint now } now

def promoted : Pool := { pool with graceAnchorMs := -1 }

def placementGraceActive : Bool :=
  decide (0 ≤ pool.graceAnchorMs) && decide (now - pool.graceAnchorMs ≤ nodeHeartbeatTtlMs)

def initialPlacementSettling : Bool :=
  decide (0 ≤ pool.graceAnchorMs) && decide (now - pool.graceAnchorMs < initialPlacementSettleMs)

def ownerConfidentlyDead : Bool :=
  match pool.nodePool.get? endpoint with
  | some t => decide (nodeHeartbeatTtlMs < now - t) && !pool.placementGraceActive now
  | none => !pool.placementGraceActive now

def isPoolEligible : Bool := decide (endpoint ∈ pool.poolEligible)

def ownerTrackedStale : Bool :=
  (pool.nodePool.get? endpoint).any (fun t => decide (nodeHeartbeatTtlMs < now - t)) && !pool.placementGraceActive now

def liveNodes : List NodeId :=
  (pool.nodePool.entries.filter (fun e => decide (now - e.2 ≤ nodeHeartbeatTtlMs))).map Prod.fst

def placementNodes : List NodeId := (pool.liveNodes now).filter (fun n => decide (n ∈ pool.poolEligible))

end Pool

def assignments {S : Type} (indexes : Indexes S) : List ShardAssignment :=
  indexes.values.flatMap (fun e => e.shards.values ++ e.windows.values.map WindowAssignment.assignment)

variable {S : Type}

structure Placement (S : Type) where
  indexes : Indexes S
  pool : Pool

structure UnitHolders where
  primary : NodeId
  replicas : List NodeId
  changed : Bool
  moved : Bool

def entitlementNodes (indexes : Indexes S) (pool : Pool) (now : Int) : Finset NodeId :=
  (((assignments indexes).filterMap ShardAssignment.primary).filter
    (fun n => !pool.ownerTrackedStale n now)).toFinset

section

variable (st : Placement S)

def countEntitlementNodes (now : Int) : Nat :=
  (entitlementNodes st.indexes st.pool now).card

def pickLeastLoaded (load : List (NodeId × Nat)) (exclude : Finset NodeId) : Option NodeId :=
  ((load.filter (fun e => decide (e.1 ∉ exclude))).foldl (fun best e =>
    match best with
    | none => some e
    | some b => if e.2 < b.2 then some e else some b) none).map Prod.fst

def addLoad (node : NodeId) (load : List (NodeId × Nat)) : List (NodeId × Nat) :=
  load.map (fun e => if e.1 = node then (e.1, e.2 + 1) else e)

def loadOf (now : Int) : List (NodeId × Nat) :=
  (st.pool.placementNodes now).map (fun n => (n, ((assignments st.indexes).flatMap ShardAssignment.nodes).count n))

def choosePrimary (index : String) (unit : UnitId) (replicas : List NodeId) (load : List (NodeId × Nat))
    (freshNodes : Option (Finset NodeId)) (entitledNodes : Nat) :
    Except RegistryError (ShardAssignment × List (NodeId × Nat)) :=
  match replicas with
  | replica :: rest => .ok (⟨some replica, rest⟩, load)
  | [] =>
    match pickLeastLoaded load ∅ with
    | none => .error (.noLiveNode index unit.text)
    | some pick =>
      match freshNodes with
      | none => .ok (⟨some pick, []⟩, addLoad pick load)
      | some nodes =>
        if entitledNodes ≤ nodes.card ∧ pick ∉ nodes then
          match pickLeastLoaded (load.filter (fun e => decide (e.1 ∈ nodes))) ∅ with
          | none => .error (.entitlementExceeded nodes.card entitledNodes)
          | some pick => .ok (⟨some pick, []⟩, addLoad pick load)
        else .ok (⟨some pick, []⟩, addLoad pick load)

def topUp (incapable : Finset NodeId) : Nat → List (NodeId × Nat) → ShardAssignment → ShardAssignment
  | 0, _, a => a
  | n + 1, load, a =>
    match pickLeastLoaded load (a.nodes.toFinset ∪ incapable) with
    | none => a
    | some pick => topUp incapable n (addLoad pick load) { a with replicas := a.replicas ++ [pick] }

def assignedHolders (entry : IndexEntry S) (unit : UnitId) : Option UnitHolders :=
  (entry.unitAssignment unit).bind (fun a => a.primary.map (fun p => ⟨p, a.replicas, false, false⟩))

def ShardAssignment.pruned (live : List NodeId) (a : ShardAssignment) : ShardAssignment :=
  ⟨a.primary.filter (fun p => decide (p ∈ live)), a.replicas.filter (fun n => decide (n ∈ live))⟩

def withPrimary (index : String) (unit : UnitId) (entitledNodes : Nat) (now : Int)
    (a : ShardAssignment) : Except RegistryError (ShardAssignment × List (NodeId × Nat)) :=
  let kept := a.pruned (st.pool.liveNodes now)
  let freshNodes := if a.primary = none then some (entitlementNodes st.indexes st.pool now) else none
  match kept.primary with
  | some _ => .ok (kept, loadOf st now)
  | none => choosePrimary index unit kept.replicas (loadOf st now) freshNodes entitledNodes

def resolveAssignment (index : String) (unit : UnitId)
    (replicationFactor entitledNodes : Nat) (now : Int) (a : ShardAssignment) :
    ShardAssignment × Except RegistryError UnitHolders :=
  let r := max replicationFactor 1
  let live := st.pool.liveNodes now
  let kept := a.pruned live
  match withPrimary st index unit entitledNodes now a with
  | .error e => (kept, .error e)
  | .ok (b, load) =>
    let c := topUp (live.toFinset \ st.pool.replicaCapable) (r - 1 - b.replicas.length) load b
    let d : ShardAssignment := ⟨c.primary, c.replicas.take (r - 1)⟩
    let moved := decide (kept.primary = none)
    let changed := moved || decide (kept ≠ a) || decide (c ≠ b) || decide (r < c.replicas.length + 1)
    -- there is a primary by now
    (d, .ok ⟨d.primary.getD "", d.replicas, changed, moved⟩)

def resolveUnitHolders (index : String) (unit : UnitId)
    (replicationFactor entitledNodes : Nat) (now : Int) : Indexes S × Except RegistryError UnitHolders :=
  match st.indexes.get? index with
  | none => (st.indexes, .error (.notFound index))
  | some entry =>
    match if st.pool.placementGraceActive now then assignedHolders entry unit else none with
    | some holders => (st.indexes, .ok holders)
    | none =>
      if st.pool.liveNodes now = [] then (st.indexes, .error (.noLiveNode index unit.text))
      else
        let resolved := resolveAssignment st index unit replicationFactor entitledNodes now
          (entry.assignmentOf unit)
        (st.indexes.insert index (entry.setAssignment unit resolved.1), resolved.2)

def unitsOf (entry : IndexEntry S) : List (UnitId × ShardAssignment) :=
  entry.shards.entries.map (fun e => (.shard e.1, e.2)) ++
    entry.windows.entries.map (fun e => (.window e.1, e.2.assignment))

def deadPrimaryUnits (now : Int) : List (String × UnitId) :=
  if st.pool.placementGraceActive now then []
  else st.indexes.entries.flatMap (fun e =>
    ((unitsOf e.2).filter (fun u => u.2.primary.any (fun p => st.pool.ownerConfidentlyDead p now))).map
      (fun u => (e.1, u.1)))

def liveHolders (live : List NodeId) (a : ShardAssignment) : Nat :=
  (a.nodes.filter (fun n => decide (n ∈ live))).length

def unitsNeedingPlacement (replicationFactor : Nat) (now : Int) : List (String × UnitId) :=
  if st.pool.initialPlacementSettling now then []
  else
    let r := max replicationFactor 1
    let grace := st.pool.placementGraceActive now
    let live := st.pool.liveNodes now
    st.indexes.entries.flatMap (fun e =>
      match e.2.definition.windowing with
      | none => ((List.range e.2.definition.shardCount).filter (fun ordinal =>
          match e.2.shards.get? ordinal with
          | none => true
          | some a => a.primary.isNone || (!grace && decide (liveHolders live a < r)))).map
          (fun ordinal => (e.1, .shard ordinal))
      | some _ => (e.2.windows.entries.filter (fun w =>
          !grace && w.2.assignment.primary.isSome && decide (liveHolders live w.2.assignment < r))).map
          (fun w => (e.1, .window w.1)))

end

def resolveAll (counts : UnitHolders → Bool) (replicationFactor entitledNodes : Nat) (now : Int) :
    List (String × UnitId) → Placement S → Nat → Placement S × Except RegistryError Nat
  | [], st, done => (st, .ok done)
  | (index, unit) :: work, st, done =>
    let (indexes, result) := resolveUnitHolders st index unit replicationFactor entitledNodes now
    let st := { st with indexes }
    match result with
    | .ok h => resolveAll counts replicationFactor entitledNodes now work st (if counts h then done + 1 else done)
    | .error (.notFound _) => resolveAll counts replicationFactor entitledNodes now work st done
    | .error (.noLiveNode _ _) => (st, .ok done)
    | .error e => (st, .error e)

section

variable (st : Placement S)

def sweepDeadPrimaries (replicationFactor entitledNodes : Nat) (now : Int) :
    Placement S × Except RegistryError Nat :=
  if st.pool.liveNodes now = [] then (st, .ok 0)
  else resolveAll UnitHolders.moved replicationFactor entitledNodes now (deadPrimaryUnits st now) st 0

def ensurePlacement (replicationFactor entitledNodes : Nat) (now : Int) :
    Placement S × Except RegistryError Nat :=
  if st.pool.liveNodes now = [] then (st, .ok 0)
  else resolveAll UnitHolders.changed replicationFactor entitledNodes now
    (unitsNeedingPlacement st replicationFactor now) st 0

def classify (pool : Pool) (entry : IndexEntry S) (index : String) (endpoint : NodeId) (now : Int) :
    List UnitId → Except RegistryError (List UnitId × Bool)
  | [] => .ok ([], false)
  | unit :: units => do
    let a := entry.assignmentOf unit
    match a.primary with
    | none =>
      let (reports, _) ← classify pool entry index endpoint now units
      .ok (reports, true)
    | some cur =>
      if cur = endpoint ∨ pool.ownerConfidentlyDead cur now ∨ ¬ pool.isPoolEligible cur then
        classify pool entry index endpoint now units
      else if endpoint ∈ a.replicas then do
        let (reports, fresh) ← classify pool entry index endpoint now units
        .ok (unit :: reports, fresh)
      else .error (.placementConflict (unit.text ++ " of `" ++ index ++ "` is held by `" ++ cur ++ "`"))

def ShardAssignment.claimedBy (endpoint : NodeId) (a : ShardAssignment) : ShardAssignment :=
  ⟨some endpoint, a.replicas.filter (fun n => decide (n ≠ endpoint))⟩

def checkEntitled (endpoint : NodeId) (now : Int) (entitledNodes : Nat) (fresh : Bool) :
    Except RegistryError Unit :=
  let nodes := entitlementNodes st.indexes st.pool now
  if fresh ∧ endpoint ∉ nodes ∧ entitledNodes ≤ nodes.card then
    .error (.entitlementExceeded nodes.card entitledNodes)
  else .ok ()

def announcePrimaries (index : String) (shards : List Nat) (endpoint : NodeId) (now : Int)
    (entitledNodes : Nat) : Except RegistryError (Indexes S) :=
  if shards = [] then .ok st.indexes
  else
    match st.indexes.get? index with
    | none => .error (.notFound index)
    | some entry => do
      let (reports, fresh) ← classify st.pool entry index endpoint now (shards.map UnitId.shard)
      checkEntitled st endpoint now entitledNodes fresh
      let claimed := shards.foldl (fun (entry : IndexEntry S) ordinal =>
        if .shard ordinal ∈ reports then entry
        else entry.setAssignment (.shard ordinal)
          ((entry.assignmentOf (.shard ordinal)).claimedBy endpoint)) entry
      .ok (st.indexes.insert index claimed)

structure WindowAnnounce where
  window : Int
  bounds : Option (Int × Int)
  cold : Bool

def WindowAnnounce.write (w : WindowAnnounce) (endpoint : NodeId) (wa : WindowAssignment) : WindowAssignment where
  assignment := wa.assignment.claimedBy endpoint
  eventMin := match w.bounds with
    | some (lo, _) => some (wa.eventMin.elim lo (fun m => min m lo))
    | none => wa.eventMin
  eventMax := match w.bounds with
    | some (_, hi) => some (wa.eventMax.elim hi (fun m => max m hi))
    | none => wa.eventMax
  cold := w.cold

def announceWindows (index : String) (endpoint : NodeId) (windows : List WindowAnnounce)
    (now : Int) (entitledNodes : Nat) : Except RegistryError (Indexes S) :=
  if windows = [] then .ok st.indexes
  else
    match st.indexes.get? index with
    | none => .error (.notFound index)
    | some entry => do
      let (reports, fresh) ← classify st.pool entry index endpoint now (windows.map (fun w => .window w.window))
      checkEntitled st endpoint now entitledNodes fresh
      let claimed := windows.foldl (fun (entry : IndexEntry S) w =>
        if .window w.window ∈ reports then entry
        else { entry with
          windows := entry.windows.entry w.window (fun wa => w.write endpoint (wa.getD .none)) }) entry
      .ok (st.indexes.insert index claimed)

inductive PlacementOp
  | heartbeat (endpoint : NodeId) (replicaCapable : Bool)
  | touch (endpoint : NodeId)
  | announcePrimaries (index : String) (shards : List Nat) (endpoint : NodeId) (entitledNodes : Nat)
  | announceWindows (index : String) (endpoint : NodeId) (windows : List WindowAnnounce) (entitledNodes : Nat)
  | resolve (index : String) (unit : UnitId) (replicationFactor entitledNodes : Nat)
  | sweep (replicationFactor entitledNodes : Nat)
  | ensure (replicationFactor entitledNodes : Nat)

def Placement.perform (now : Int) : PlacementOp → Placement S
  | .heartbeat endpoint capable => { st with pool := st.pool.registerNodeWithCapability endpoint now capable }
  | .touch endpoint => { st with pool := st.pool.touchNodeLiveness endpoint now }
  | .announcePrimaries index shards endpoint entitled =>
    { st with indexes := ((announcePrimaries st index shards endpoint now entitled).toOption).getD st.indexes }
  | .announceWindows index endpoint windows entitled =>
    { st with indexes := ((announceWindows st index endpoint windows now entitled).toOption).getD st.indexes }
  | .resolve index unit r entitled => { st with indexes := (resolveUnitHolders st index unit r entitled now).1 }
  | .sweep r entitled => (sweepDeadPrimaries st r entitled now).1
  | .ensure r entitled => (ensurePlacement st r entitled now).1

end

inductive Placement.Runs (allowed : Placement S → Int → PlacementOp → Prop) (st : Placement S) :
    Placement S → Prop
  | start : Runs allowed st st
  | step {now : Int} (h : Runs allowed st st')
      (ha : allowed st' now op) : Runs allowed st (st'.perform now op)

open List

variable {S : Type} {st : Placement S} {index : String} {unit : UnitId} {now : Int}

lemma primaryOf_insert (indexes : Indexes S) (index index' : String) (entry : IndexEntry S) (unit : UnitId) :
    primaryOf (indexes.insert index entry) index' unit =
      if index = index' then entry.unitPrimary unit else primaryOf indexes index' unit := by
  rw [primaryOf, BTreeMap.get?_insert]
  split_ifs <;> rfl

variable {indexes : Indexes S}

lemma primaryOf_of_get (h : indexes.get? index = some entry)
    (unit : UnitId) : primaryOf indexes index unit = entry.unitPrimary unit := by
  rw [primaryOf, h]
  rfl

lemma foldl_choice {A : Type} {choose : Option A → A → Option A}
    (hchoose : ∀ best a, choose best a = best ∨ choose best a = some a) {l : List A} {best : Option A} {a : A}
    (h : l.foldl choose best = some a) : best = some a ∨ a ∈ l := by
  induction l generalizing best with
  | nil => exact .inl h
  | cons d l ih =>
    rcases ih h with hstep | hin
    · rcases hchoose best d with hkeep | htake
      · exact .inl (hkeep ▸ hstep)
      · exact .inr (mem_cons.mpr (.inl (Option.some.inj (htake ▸ hstep)).symm))
    · exact .inr (mem_cons_of_mem _ hin)

variable {load : List (NodeId × Nat)}

lemma mem_of_pickLeastLoaded {exclude : Finset NodeId} {pick : NodeId}
    (h : pickLeastLoaded load exclude = some pick) : ∃ e ∈ load, e.1 = pick ∧ pick ∉ exclude := by
  obtain ⟨e, he, rfl⟩ := Option.map_eq_some_iff.mp h
  have hmem := foldl_choice (fun best d => ?_) he
  · obtain ⟨hin, hex⟩ := mem_filter.mp (hmem.resolve_left (by simp))
    exact ⟨e, hin, rfl, of_decide_eq_true hex⟩
  · cases best with
    | none => exact .inr rfl
    | some b =>
      dsimp only
      split_ifs
      · exact .inr rfl
      · exact .inl rfl

/-- A resolve puts a primary on a live replica or on a placement node, one that holds a primary already if the unit
has none and the entitlement is used up. -/
inductive Placed (st : Placement S) (now : Int) (entitled : Nat) (a : ShardAssignment) (p : NodeId) : Prop
  | kept (h : a.primary = some p)
  | promoted (h : p ∈ a.replicas)
  | picked (h : p ∈ st.pool.placementNodes now)
      (gate : a.primary = none → entitled ≤ (entitlementNodes st.indexes st.pool now).card →
        p ∈ entitlementNodes st.indexes st.pool now)

/-- The rule for a work-list: what the resolve of each of its units leads on by one step, a sweep leads
on by at most as many steps as there are units. -/
lemma resolveAll_rule (P : Nat → Indexes S → Prop) (pool : Pool) (counts : UnitHolders → Bool)
    (r entitled : Nat) (work : List (String × UnitId))
    (hstep : ∀ k indexes, ∀ e ∈ work, P k indexes →
      P (k + 1) (resolveUnitHolders ⟨indexes, pool⟩ e.1 e.2 r entitled now).1)
    (indexes : Indexes S) (k done : Nat) (h : P k indexes) :
    (resolveAll counts r entitled now work ⟨indexes, pool⟩ done).1.pool = pool ∧
      ∃ n ≤ work.length, P (k + n) (resolveAll counts r entitled now work ⟨indexes, pool⟩ done).1.indexes := by
  induction work generalizing indexes k done with
  | nil => exact ⟨rfl, 0, le_rfl, h⟩
  | cons e work ih =>
    have hfirst := hstep k indexes e mem_cons_self h
    have hrest : ∀ done', (resolveAll counts r entitled now work
          ⟨(resolveUnitHolders ⟨indexes, pool⟩ e.1 e.2 r entitled now).1, pool⟩ done').1.pool = pool ∧
        ∃ n ≤ work.length + 1, P (k + n) (resolveAll counts r entitled now work
          ⟨(resolveUnitHolders ⟨indexes, pool⟩ e.1 e.2 r entitled now).1, pool⟩ done').1.indexes := by
      intro done'
      obtain ⟨hpool, n, hn, hp⟩ := ih (fun k indexes e he => hstep k indexes e (mem_cons_of_mem _ he))
        _ (k + 1) done' hfirst
      refine ⟨hpool, n + 1, Nat.succ_le_succ hn, ?_⟩
      rwa [show k + (n + 1) = k + 1 + n by omega]
    rw [resolveAll, length_cons]
    dsimp only
    split
    · exact hrest _
    · exact hrest _
    · exact ⟨rfl, 1, Nat.le_add_left 1 _, hfirst⟩
    · exact ⟨rfl, 1, Nat.le_add_left 1 _, hfirst⟩

variable {reports units : List UnitId}

variable {entry : IndexEntry S} {endpoint : NodeId} {entitled : Nat}

/-- What an accepted announce has found of the units it claims: without a primary, the node's own, or
open to a takeover. -/
lemma classify_ok (h : classify pool entry index endpoint now units = .ok (reports, fresh)) (hu : unit ∈ units) :
    (entry.unitPrimary unit = none → fresh) ∧ (unit ∉ reports → entry.unitPrimary unit = none ∨
      ∃ cur, entry.unitPrimary unit = some cur ∧
        (cur = endpoint ∨ pool.ownerConfidentlyDead cur now ∨ pool.isPoolEligible cur = false)) := by
  rw [IndexEntry.unitPrimary_eq]
  induction units generalizing reports fresh with
  | nil => cases hu
  | cons first units ih =>
    rw [classify] at h
    dsimp only at h
    cases hp : (entry.assignmentOf first).primary with
    | none =>
      rw [hp] at h
      obtain ⟨⟨reports', fresh'⟩, hrest, hok⟩ := bind_ok h
      cases hok
      refine ⟨fun _ => rfl, fun hr => ?_⟩
      rcases mem_cons.mp hu with rfl | hu
      · exact .inl hp
      · exact (ih hrest hu).2 hr
    | some cur =>
      rw [hp] at h
      dsimp only at h
      split_ifs at h with htake hreplica
      · rcases mem_cons.mp hu with rfl | hu
        · rw [hp]
          exact ⟨nofun, fun _ => .inr ⟨cur, rfl, by simpa using htake⟩⟩
        · exact ih h hu
      · obtain ⟨⟨reports', fresh'⟩, hrest, hok⟩ := bind_ok h
        cases hok
        rcases mem_cons.mp hu with rfl | hu
        · rw [hp]
          exact ⟨nofun, fun hr => absurd mem_cons_self hr⟩
        · exact (ih hrest hu).imp_right fun hopen hr => hopen fun hin => hr (mem_cons_of_mem _ hin)

structure Announced (st : Placement S) (index : String) (endpoint : NodeId) (now : Int) (entitled : Nat)
    (units : List UnitId) (indexes : Indexes S) : Prop where
  accepted : ∃ entry reports fresh, st.indexes.get? index = some entry ∧
    classify st.pool entry index endpoint now units = .ok (reports, fresh) ∧
    checkEntitled st endpoint now entitled fresh = .ok () ∧
    ∀ index' unit, primaryOf indexes index' unit =
      if index' = index ∧ unit ∈ units ∧ unit ∉ reports then some endpoint
      else primaryOf st.indexes index' unit

lemma foldl_claims {A : Type} (unitOf : A → UnitId) (claim : IndexEntry S → A → IndexEntry S)
    (reports : List UnitId) (hclaim : ∀ entry a unit, (claim entry a).unitPrimary unit =
      if unitOf a = unit ∧ unitOf a ∉ reports then some endpoint else entry.unitPrimary unit)
    (items : List A) (entry : IndexEntry S) (unit : UnitId) :
    (items.foldl claim entry).unitPrimary unit =
      if unit ∈ items.map unitOf ∧ unit ∉ reports then some endpoint else entry.unitPrimary unit := by
  induction items generalizing entry with
  | nil => simp
  | cons a items ih =>
    rw [foldl_cons, ih, hclaim]
    by_cases ha : unitOf a = unit
    · subst ha
      by_cases hr : unitOf a ∈ reports <;> simp [hr]
    · simp [ha, Ne.symm ha]

lemma primaryOf_claimed (hentry : indexes.get? index = some entry)
    (hclaimed : ∀ unit, claimed.unitPrimary unit =
      if unit ∈ units ∧ unit ∉ reports then some endpoint else entry.unitPrimary unit)
    (index' : String) (unit : UnitId) : primaryOf (indexes.insert index claimed) index' unit =
      if index' = index ∧ unit ∈ units ∧ unit ∉ reports then some endpoint else primaryOf indexes index' unit := by
  rw [primaryOf_insert]
  by_cases hi : index = index'
  · subst hi
    rw [if_pos rfl, hclaimed, primaryOf_of_get hentry]
    simp
  · simp [hi, Ne.symm hi]

lemma announcePrimaries_ok
    (h : announcePrimaries st index shards endpoint now entitled = .ok indexes) :
    indexes = st.indexes ∨ Announced st index endpoint now entitled (shards.map shard) indexes := by
  unfold announcePrimaries at h
  split_ifs at h
  · exact .inl (Except.ok.inj h).symm
  · split at h
    · cases h
    · rename_i entry hentry
      obtain ⟨⟨reports, fresh⟩, hclassify, h⟩ := bind_ok h
      obtain ⟨_, hadmit, h⟩ := bind_ok h
      cases h
      refine .inr ⟨entry, reports, fresh, hentry, hclassify, hadmit, primaryOf_claimed hentry ?_⟩
      refine foldl_claims shard _ reports (fun entry ordinal unit => ?_) shards entry
      split_ifs with hin hboth hunit
      · exact absurd hin hboth.2
      · rfl
      · rw [IndexEntry.unitPrimary_setAssignment, if_pos hunit.1]
        rfl
      · rw [IndexEntry.unitPrimary_setAssignment, if_neg fun heq => hunit ⟨heq, hin⟩]

lemma announceWindows_ok
    (h : announceWindows st index endpoint windows now entitled = .ok indexes) :
    indexes = st.indexes ∨
      Announced st index endpoint now entitled (windows.map (fun w => .window w.window)) indexes := by
  unfold announceWindows at h
  split_ifs at h
  · exact .inl (Except.ok.inj h).symm
  · split at h
    · cases h
    · rename_i entry hentry
      obtain ⟨⟨reports, fresh⟩, hclassify, h⟩ := bind_ok h
      obtain ⟨_, hadmit, h⟩ := bind_ok h
      cases h
      refine .inr ⟨entry, reports, fresh, hentry, hclassify, hadmit, primaryOf_claimed hentry ?_⟩
      refine foldl_claims (fun w : WindowAnnounce => window w.window) _ reports
        (fun entry w unit => ?_) windows entry
      split_ifs with hin hboth hunit
      · exact absurd hin hboth.2
      · rfl
      · obtain ⟨rfl, -⟩ := hunit
        simp [IndexEntry.unitPrimary, IndexEntry.unitAssignment, BTreeMap.get?_entry, WindowAnnounce.write,
          ShardAssignment.claimedBy]
      · cases unit with
        | shard ordinal => rfl
        | window id =>
          have hne : w.window ≠ id := fun heq => hunit ⟨congrArg window heq, hin⟩
          simp [IndexEntry.unitPrimary, IndexEntry.unitAssignment, BTreeMap.get?_entry, hne]

lemma Announced.primary_cases
    (h : Announced st index endpoint now entitled units indexes) (index' : String) (unit : UnitId) :
    primaryOf indexes index' unit = primaryOf st.indexes index' unit ∨
      index' = index ∧ unit ∈ units ∧ primaryOf indexes index' unit = some endpoint ∧
        ∀ cur, primaryOf st.indexes index unit = some cur →
          cur = endpoint ∨ st.pool.ownerConfidentlyDead cur now ∨ st.pool.isPoolEligible cur = false := by
  obtain ⟨entry, reports, fresh, hentry, hclassify, -, hprimary⟩ := h.accepted
  rw [hprimary]
  split_ifs with hclaimed
  · obtain ⟨rfl, hin, hout⟩ := hclaimed
    refine .inr ⟨rfl, hin, rfl, fun cur hcur => ?_⟩
    rw [primaryOf_of_get hentry] at hcur
    rcases (classify_ok hclassify hin).2 hout with hnone | ⟨cur', hcur', htake⟩
    · rw [hnone] at hcur
      cases hcur
    · rw [hcur'] at hcur
      cases hcur
      exact htake
  · exact .inl rfl

end GrowlerDB.ControlPlane
