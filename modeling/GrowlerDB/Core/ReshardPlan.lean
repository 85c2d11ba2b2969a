import GrowlerDB.Core.Rebalance

namespace GrowlerDB.Core
open Lib List Option Except ShardRouter Replay

variable {router : ShardRouter}

namespace ShardRouter

def shards (router : ShardRouter) : Nat :=
  match router.placement with
  | .legacy shards => shards.toNat
  | .bucketed map => map.shards

def fromRegistry (strategy : RoutingStrategy) (bucketOwners : List (BitVec 32)) (shardCount : BitVec 32) :
    Except String ShardRouter :=
  if bucketOwners = [] then .ok (.new shardCount strategy)
  else (BucketMap.fromOwners bucketOwners).map (.bucketed strategy)

def partitionBatch (router : ShardRouter) (batch : CommitBatch CompositeKey) :
    Option (List (CommitBatch CompositeKey)) :=
  (distribute (fun op => (router.route op.key).map BitVec.toNat) router.shards batch.ops).map fun perShard =>
    perShard.mapIdx fun ordinal ops =>
      { ops := ops
        checkpoint := batch.checkpoint
        batchId := batch.batchId ++ "#s" ++ toString ordinal
        fromCheckpoint := batch.fromCheckpoint
        safeCheckpoint := batch.safeCheckpoint }

/-- Routers as they are built: over at least one shard, or by a dense table. -/
inductive Built : ShardRouter → Prop
  | new (shards : BitVec 32) (strategy : RoutingStrategy) : Built (.new shards strategy)
  | bucketed (strategy : RoutingStrategy) {map : BucketMap} (h : map.Dense) : Built (.bucketed strategy map)

lemma fromRegistry_spec {strategy : RoutingStrategy}
    (h : fromRegistry strategy bucketOwners shardCount = .ok router) : router.Built ∧ router.strategy = strategy := by
  unfold fromRegistry at h
  split_ifs at h
  · cases h
    exact ⟨.new shardCount strategy, rfl⟩
  · cases hmap : BucketMap.fromOwners bucketOwners with
    | error e =>
      rw [hmap] at h
      cases h
    | ok map =>
      rw [hmap] at h
      cases h
      exact ⟨.bucketed strategy (BucketMap.fromOwners_ok_iff.mp hmap).2.2, rfl⟩

lemma Built.route_lt (h : router.Built) (key : CompositeKey) :
    ∃ shard, router.route key = some shard ∧ shard.toNat < router.shards := by
  cases h with
  | new shards strategy =>
    obtain ⟨s, hs, hval⟩ := route_new key shards strategy
    refine ⟨s, hs, ?_⟩
    change s.toNat < (if shards = 0 then 1 else shards).toNat
    rw [hval, toNat_clamped]
    exact Nat.mod_lt _ (by omega)
  | bucketed strategy hdense =>
    rename_i map
    have hlt := (ShardRouter.bucketed strategy map).bucket_lt key
    rw [← map.length_eq] at hlt
    have howner := List.getElem?_eq_getElem hlt
    exact ⟨_, howner, BucketMap.owner_lt_shards howner⟩

lemma Built.partitionBatch_eq (h : router.Built) (batch : CommitBatch CompositeKey) :
    router.partitionBatch batch = some ((List.range router.shards).map fun ordinal => { batch with
        ops := batch.ops.filter (fun op => (router.route op.key).map BitVec.toNat = some ordinal)
        batchId := batch.batchId ++ "#s" ++ toString ordinal }) := by
  have hroute : ∀ op ∈ batch.ops, ∃ i < router.shards, (router.route op.key).map BitVec.toNat = some i := by
    intro op _
    obtain ⟨shard, hshard, hlt⟩ := h.route_lt op.key
    exact ⟨shard.toNat, hlt, by rw [hshard]; rfl⟩
  rw [partitionBatch, distribute_eq hroute, map_some]
  congr 1
  apply ext_getElem?
  intro i
  by_cases hi : i < router.shards <;> simp [hi]

/-- The parts are as many as the shards; each has the operations routed to its shard, in order, and the batch's
checkpoints. -/
theorem partition_batch_lossless {router : ShardRouter} (h : router.Built) (batch : CommitBatch CompositeKey) :
    ∃ parts, router.partitionBatch batch = some parts ∧ parts.length = router.shards ∧
      (∀ key, ∃ shard, router.route key = some shard ∧ shard.toNat < parts.length) ∧
      (parts.flatMap CommitBatch.ops).Perm batch.ops ∧
      ∀ i part, parts[i]? = some part →
        part.ops = batch.ops.filter (fun op => (router.route op.key).map BitVec.toNat = some i) ∧
        part.checkpoint = batch.checkpoint ∧ part.fromCheckpoint = batch.fromCheckpoint ∧
        part.safeCheckpoint = batch.safeCheckpoint := by
  refine ⟨_, h.partitionBatch_eq batch, by simp, fun key => ?_, ?_, fun i part hpart => ?_⟩
  · obtain ⟨shard, hshard, hlt⟩ := h.route_lt key
    exact ⟨shard, hshard, by simpa using hlt⟩
  · rw [flatMap_map]
    refine (flatMap_groups _ _ _).trans (Perm.of_eq ?_)
    rw [filter_eq_self]
    intro op _
    obtain ⟨shard, hshard, hlt⟩ := h.route_lt op.key
    simpa [hshard] using hlt
  · rw [List.getElem?_map] at hpart
    obtain ⟨ordinal, hordinal, rfl⟩ := Option.map_eq_some_iff.mp hpart
    obtain ⟨hlt, heq⟩ := List.getElem?_eq_some_iff.mp hordinal
    rw [getElem_range] at heq
    subst heq
    exact ⟨rfl, rfl, rfl, rfl⟩

def sampleBatch : CommitBatch CompositeKey :=
  ⟨[.delete ⟨[], [("id", .int 1)]⟩, .delete ⟨[], [("id", .int 2)]⟩], ⟨10, some 1⟩, "b", none, none⟩

theorem partition_batch_two :
    ∃ parts, (ShardRouter.new 2 .hash).partitionBatch sampleBatch = some parts ∧ parts.length = 2 ∧
      (parts.flatMap CommitBatch.ops).Perm sampleBatch.ops := by
  obtain ⟨parts, hparts, hlength, -, hperm, -⟩ := partition_batch_lossless (.new 2 .hash) sampleBatch
  exact ⟨parts, hparts, hlength, hperm⟩

/-- Of a stream of batches a shard gets, for every key routed to it, the stream's last write of the key, and no write
of another key. -/
theorem partitioned_stream_exact (h : router.Built) (batches : List (CommitBatch CompositeKey)) :
    ∃ parts, batches.mapM router.partitionBatch = some parts ∧ ∀ i < router.shards, ∀ key,
      lastChange (parts.flatMap fun p => (p[i]?).elim [] CommitBatch.changes) key =
        if (router.route key).map BitVec.toNat = some i then lastChange (batches.flatMap CommitBatch.changes) key
        else none := by
  induction batches with
  | nil => exact ⟨[], rfl, fun i _ key => by simp⟩
  | cons b batches ih =>
    obtain ⟨parts, hparts, hshare⟩ := ih
    refine ⟨_, by rw [mapM_cons, h.partitionBatch_eq, hparts]; rfl, fun i hi key => ?_⟩
    have hpart : (b.ops.filter fun op => (router.route op.key).map BitVec.toNat = some i).map DocOp.change =
        b.changes.filter fun c => (router.route c.1).map BitVec.toNat = some i := by
      simp [CommitBatch.changes, List.filter_map, Function.comp_def]
    rw [flatMap_cons, flatMap_cons, lastChange_append, lastChange_append, hshare i hi, List.getElem?_map,
      List.getElem?_range hi, map_some, elim_some, CommitBatch.changes, hpart,
      lastChange_filter _ fun k => decide ((router.route k).map BitVec.toNat = some i)]
    by_cases hk : (router.route key).map BitVec.toNat = some i <;> simp [hk]

def writtenBatch : CommitBatch CompositeKey :=
  ⟨[.upsert ⟨⟨[], [("id", .int 1)]⟩, [("n", .int 6)]⟩, .upsert ⟨⟨[], [("id", .int 2)]⟩, [("n", .int 5)]⟩],
    ⟨20, some 2⟩, "c", none, none⟩

theorem partitioned_stream_two :
    ∃ parts, [sampleBatch, writtenBatch].mapM (ShardRouter.new 2 .hash).partitionBatch = some parts ∧
      lastChange (parts.flatMap fun p => (p[0]?).elim [] CommitBatch.changes) ⟨[], [("id", .int 2)]⟩ = none ∧
      lastChange (parts.flatMap fun p => (p[1]?).elim [] CommitBatch.changes) ⟨[], [("id", .int 2)]⟩ =
        some (some ⟨⟨[], [("id", .int 2)]⟩, [("n", .int 5)]⟩) := by
  obtain ⟨parts, hparts, hshare⟩ := partitioned_stream_exact (.new 2 .hash) [sampleBatch, writtenBatch]
  have hroute : ((ShardRouter.new 2 .hash).route ⟨[], [("id", .int 2)]⟩).map BitVec.toNat = some 1 := by decide +kernel
  refine ⟨parts, hparts, (hshare 0 (by decide) _).trans ?_, (hshare 1 (by decide) _).trans ?_⟩
  · rw [hroute]
    rfl
  · rw [hroute]
    rfl

end ShardRouter

open BucketMap

lemma BucketMap.length_roundRobin (shards : BitVec 32) :
    ((List.range numBuckets.toNat).map (fun b => BitVec.ofNat 32 b % shards)).length = numBuckets.toNat := by
  simp

def BucketMap.balanced (shards : BitVec 32) : BucketMap :=
  ⟨_, length_roundRobin (if shards = 0 then 1 else shards)⟩

def currentBucketMap (bucketOwners : List (BitVec 32)) (shards : BitVec 32) : Except String BucketMap :=
  if bucketOwners = [] then .ok (balanced shards) else fromOwners bucketOwners

def planReshard (bucketOwners : List (BitVec 32)) (shards newShardCount : BitVec 32) :
    Except String (Option Reassignment) :=
  (currentBucketMap bucketOwners shards).map (fun map => map.reassign newShardCount.toNat)

/-- The moves of the key's bucket in the plan are the move of the key. -/
def NamesMove (router : ShardRouter) (plan : Reassignment) (key : CompositeKey) : Prop :=
  ∀ source target, ((router.bucket key).toNat, source, target) ∈ plan.moved ↔
    router.route key = some source ∧ (ShardRouter.bucketed router.strategy plan.map).route key = some target ∧
      source ≠ target

lemma reassign_max (map : BucketMap) (n : Nat) : map.reassign (max n 1) = map.reassign n := by
  cases n with
  | zero => rfl
  | succ n => rw [Nat.max_eq_left (by omega)]

lemma BucketMap.owner_of_lt (map : BucketMap) {b : BitVec 32} (h : b.toNat < numBuckets.toNat) : ∃ o, map.owner b = some o :=
  ⟨_, List.getElem?_eq_getElem (map.length_eq.symm ▸ h)⟩

/-- A plan names the move of a key exactly if the key lies where the plan's first map has its bucket. -/
lemma namesMove_iff (hb : router.Built) (map : BucketMap) (newShardCount : BitVec 32) (key : CompositeKey) :
    ∃ plan, map.reassign newShardCount.toNat = some plan ∧
      (NamesMove router plan key ↔ router.route key = map.owner (router.bucket key)) := by
  obtain ⟨plan, hplan, h⟩ := map.reassign_spec (le_max_right newShardCount.toNat 1)
    (max_lt newShardCount.isLt (by decide))
  rw [reassign_max] at hplan
  obtain ⟨s, hs, -⟩ := hb.route_lt key
  obtain ⟨o, ho⟩ := map.owner_of_lt (router.bucket_lt key)
  obtain ⟨t, ht⟩ := plan.map.owner_of_lt (router.bucket_lt key)
  refine ⟨plan, hplan, fun hnames => ?_, fun hsame source target => ?_⟩
  · rw [hs, ho]
    by_contra hne
    by_cases hmoved : o = t
    · have hin := (hnames s t).mpr ⟨hs, ht, fun h => hne (congrArg some (h.trans hmoved.symm))⟩
      exact hne (((h.moved _ _ _).mp hin).1.symm.trans ho)
    · have hin := (hnames o t).mp ((h.moved _ _ _).mpr ⟨ho, ht, hmoved⟩)
      exact hne (hs.symm.trans hin.1)
  · rw [hsame]
    exact h.moved _ _ _

lemma legacy_route_iff (shards : BitVec 32) (strategy : RoutingStrategy) (key : CompositeKey) :
    let router := new shards strategy
    router.route key = (balanced shards).owner (router.bucket key) ↔
      (fnv1a (router.strategyBytes key)).toNat % max shards.toNat 1 =
        (fnv1a (router.strategyBytes key)).toNat % numBuckets.toNat % max shards.toNat 1 := by
  intro router
  obtain ⟨s, hs, hval⟩ := route_new key shards strategy
  have hlt := router.bucket_lt key
  have howner : (balanced shards).owner (router.bucket key) =
      some (router.bucket key % if shards = 0 then 1 else shards) := by
    simp [balanced, owner, hlt]
  rw [hs, howner, some.injEq, ← BitVec.toNat_inj, BitVec.toNat_umod, toNat_clamped, hval,
    bucket, toNat_remainder _ (by decide)]

/-- A reshard plan names the move of a key exactly if the index has a bucket map, or the hash of the key leaves the
same remainder by way of its bucket. -/
theorem plan_names_key_iff {strategy : RoutingStrategy} {bucketOwners : List (BitVec 32)} {shards : BitVec 32}
    (hrouter : ShardRouter.fromRegistry strategy bucketOwners shards = .ok router) (newShardCount : BitVec 32)
    (key : CompositeKey) :
    ∃ plan, planReshard bucketOwners shards newShardCount = .ok (some plan) ∧
      (NamesMove router plan key ↔ bucketOwners ≠ [] ∨
        (fnv1a (router.strategyBytes key)).toNat % max shards.toNat 1 =
          (fnv1a (router.strategyBytes key)).toNat % numBuckets.toNat % max shards.toNat 1) := by
  have hb := (ShardRouter.fromRegistry_spec hrouter).1
  unfold ShardRouter.fromRegistry at hrouter
  unfold planReshard currentBucketMap
  split_ifs at hrouter ⊢ with hlegacy
  · cases hrouter
    obtain ⟨plan, hplan, hiff⟩ := namesMove_iff hb (balanced shards) newShardCount key
    refine ⟨plan, congrArg Except.ok hplan, hiff.trans ?_⟩
    exact (legacy_route_iff shards strategy key).trans (by simp [hlegacy])
  · obtain ⟨map, hmap, rfl⟩ := Lib.map_ok hrouter
    obtain ⟨plan, hplan, hiff⟩ := namesMove_iff hb map newShardCount key
    rw [hmap]
    exact ⟨plan, congrArg Except.ok hplan, hiff.trans (iff_of_true rfl (.inl hlegacy))⟩

/-- Over a count that divides the buckets the plan is right for every key. -/
theorem four_shards_named : ShardRouter.fromRegistry .hash [] 4 = .ok (.new 4 .hash) ∧
    ∀ key, ∃ plan, planReshard [] 4 5 = .ok (some plan) ∧ NamesMove (.new 4 .hash) plan key := by
  have hrouter : ShardRouter.fromRegistry .hash [] 4 = .ok (.new 4 .hash) := rfl
  refine ⟨hrouter, fun key => ?_⟩
  obtain ⟨plan, hplan, hiff⟩ := plan_names_key_iff hrouter 5 key
  exact ⟨plan, hplan, hiff.mpr (.inr (Nat.mod_mod_of_dvd _ (by decide)).symm)⟩

def strayKey : CompositeKey := ⟨[], [("id", .int 1)]⟩

theorem three_shards_misnamed : ShardRouter.fromRegistry .hash [] 3 = .ok (.new 3 .hash) ∧
    ∃ plan, planReshard [] 3 4 = .ok (some plan) ∧ ¬ NamesMove (.new 3 .hash) plan strayKey := by
  obtain ⟨plan, hplan, hiff⟩ := namesMove_iff (.new 3 .hash) (balanced 3) 4 strayKey
  refine ⟨rfl, plan, congrArg Except.ok hplan, fun hnames => ?_⟩
  have hsame := (legacy_route_iff 3 .hash strayKey).mp (hiff.mp hnames)
  revert hsame
  decide +kernel

end GrowlerDB.Core
