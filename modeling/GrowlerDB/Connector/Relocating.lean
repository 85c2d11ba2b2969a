import GrowlerDB.Connector.ShardedWriteClient
import GrowlerDB.Core.Routing
import GrowlerDB.Engine.Gateway
import GrowlerDB.Index.Rebuild
import GrowlerDB.Lib.Runs

namespace GrowlerDB.Connector
open Core Engine Lib List BucketMap

variable {K : Type}

structure KeyBuckets (K : Type) where
  bucketOf : K → BitVec 32
  lt : ∀ k, (bucketOf k).toNat < Core.numBuckets.toNat

def KeyBuckets.ofRouter (router : Core.ShardRouter) : KeyBuckets CompositeKey := ⟨router.bucket, router.bucket_lt⟩

def KeyBuckets.router (buckets : KeyBuckets K) (map : BucketMap) : KeyRouter K where
  shards := map.shards
  route k := ((map.owner (buckets.bucketOf k)).getD 0).toNat
  route_lt k := by
    have hlt : (buckets.bucketOf k).toNat < map.owners.length := map.length_eq ▸ buckets.lt k
    rw [BucketMap.owner, List.getElem?_eq_getElem hlt, Option.getD_some]
    exact Nat.lt_succ_of_le (BucketMap.le_maxOwner (getElem_mem hlt))

/-- The key router over a map is the bucketed router of the index. -/
lemma KeyBuckets.route_ofRouter (strategy : RoutingStrategy) (map : BucketMap) (key : CompositeKey) :
    ((Core.ShardRouter.bucketed strategy map).route key).map BitVec.toNat =
      some (((ofRouter (.bucketed strategy map)).router map).route key) := by
  have hlt := map.length_eq ▸ (Core.ShardRouter.bucketed strategy map).bucket_lt key
  change (map.owner _).map BitVec.toNat = some ((map.owner _).getD 0).toNat
  rw [ofRouter, BucketMap.owner, getElem?_eq_getElem hlt]
  rfl

structure Relocation (K : Type) where
  old : KeyRouter K
  new : KeyRouter K
  build : List Nat
  trim : List Nat

/-- A key that changes its shard goes to one that is rebuilt before the new map is committed. -/
def Relocation.Complete (r : Relocation K) : Prop := ∀ k, r.new.route k ≠ r.old.route k → r.new.route k ∈ r.build

inductive MoveFault
  | status (s : RpcStatus)
  | panics

section

variable (buckets : KeyBuckets K) (index : String) (nodes : Nat → Option String)

def endpoint (ord : Nat) : Except MoveFault String :=
  match nodes ord with
  | none => .error (.status ⟨.failedPrecondition, "shard " ++ toString ord ++ " of `" ++ index ++ "` has no node"⟩)
  | some node => .ok node

def moveBucket (stored : Option BucketMap) (bucket toShard : BitVec 32) : Except MoveFault (Relocation K) :=
  match stored with
  | none => .error (.status ⟨.failedPrecondition, "index `" ++ index ++
      "` is not bucketed (legacy routing); a reshard establishes buckets first"⟩)
  | some map =>
    match map.owner bucket with
    | none => .error .panics
    | some fromShard =>
      if fromShard = toShard then
        .error (.status ⟨.failedPrecondition, "bucket " ++ toString bucket.toNat ++ " already lives on shard " ++
          toString toShard.toNat⟩)
      else
        match map.withOwner bucket toShard with
        | .error m => .error (.status ⟨.invalidArgument, m⟩)
        | .ok newMap => do
          let _ ← endpoint index nodes toShard.toNat
          let _ ← endpoint index nodes fromShard.toNat
          .ok ⟨buckets.router map, buckets.router newMap, [toShard.toNat], [fromShard.toNat]⟩

structure GrowthReshard where
  map : BucketMap
  build : List (Nat × String)
  trim : List (Nat × String)

def planGrowthReshard (reassignment : Reassignment) (currentCount newCount : Nat) : Except String GrowthReshard :=
  if newCount ≤ currentCount then
    .error ("apply-reshard grows an index; new shard count " ++ toString newCount ++ " must exceed the current " ++
      toString currentCount ++ " (shrink/rebalance is not supported online)")
  else
    match reassignment.moved.find? (fun e => e.2.2.toNat < currentCount) with
    | some (bucket, _, toShard) =>
      .error ("reassignment moves bucket " ++ toString bucket ++ " onto existing shard " ++ toString toShard.toNat ++
        " (a rebalance); apply-reshard supports growth only")
    | none => do
      let staffed ← (List.range newCount).mapM (fun ord =>
        match nodes ord with
        | none => .error ("shard " ++ toString ord ++ " has no assigned node — bring up + register shards " ++
            toString currentCount ++ ".." ++ toString newCount ++ " (`serve --shards " ++ toString newCount ++
            " --shard-ordinal K`) first")
        | some node => .ok (ord, node))
      .ok ⟨reassignment.map, staffed.filter (fun e => currentCount ≤ e.1), staffed.filter (fun e => e.1 < currentCount)⟩

def applyReshard (map : BucketMap) (newShardCount : Nat) : Except MoveFault (Relocation K) :=
  match map.reassign newShardCount with
  | none => .error .panics
  | some plan =>
    match planGrowthReshard nodes plan map.shards newShardCount with
    | .error m => .error (.status ⟨.failedPrecondition, m⟩)
    | .ok growth => .ok ⟨buckets.router map, buckets.router growth.map, growth.build.map Prod.fst, growth.trim.map Prod.fst⟩

end

variable {buckets : KeyBuckets K} {nodes : Nat → Option String} {r : Relocation K}

lemma route_eq_of_owner {map map' : BucketMap}
    (h : map'.owners[(buckets.bucketOf k).toNat]? = map.owners[(buckets.bucketOf k).toNat]?) :
    (buckets.router map').route k = (buckets.router map).route k := by
  simp only [KeyBuckets.router, owner, h]

lemma moveBucket_complete
    (h : moveBucket buckets index nodes stored bucket toShard = .ok r) : r.Complete := by
  unfold moveBucket at h
  split at h
  · cases h
  · rename_i map
    split at h
    · cases h
    · split_ifs at h
      split at h
      · cases h
      · rename_i newMap hnew
        obtain ⟨-, -, h⟩ := bind_ok h
        obtain ⟨-, -, h⟩ := bind_ok h
        cases h
        have howners := withOwner_owners hnew
        intro k hmoved
        by_cases hk : bucket.toNat = (buckets.bucketOf k).toNat
        · have hlt : (buckets.bucketOf k).toNat < map.owners.length := map.length_eq ▸ buckets.lt k
          have howner : newMap.owners[(buckets.bucketOf k).toNat]? = some toShard := by
            rw [howners, hk, List.getElem?_set_self hlt]
          refine mem_singleton.mpr ?_
          simp only [KeyBuckets.router, owner, howner, Option.getD_some]
        · refine absurd (route_eq_of_owner ?_) hmoved
          rw [howners, List.getElem?_set_ne hk]

lemma planGrowthReshard_ok
    (h : planGrowthReshard nodes plan currentCount newCount = .ok growth) :
    currentCount < newCount ∧ growth.map = plan.map ∧ (∀ e ∈ plan.moved, currentCount ≤ e.2.2.toNat) ∧
      ∀ i, i ∈ growth.build.map Prod.fst ↔ currentCount ≤ i ∧ i < newCount := by
  unfold planGrowthReshard at h
  split_ifs at h with hgrow
  split at h
  · cases h
  · rename_i hfind
    obtain ⟨staffed, hstaffed, h⟩ := bind_ok h
    cases h
    have hords : staffed.map Prod.fst = List.range newCount := by
      refine (map_of_mapM (p := id) hstaffed fun ord e he => ?_).trans (map_id _)
      split at he
      · cases he
      · rw [← Except.ok.inj he]
        rfl
    refine ⟨Nat.lt_of_not_le hgrow, rfl, fun e he => ?_, fun i => ?_⟩
    · have := List.find?_eq_none.mp hfind e he
      simpa using this
    · have hmem : i ∈ staffed.map Prod.fst ↔ i < newCount := by rw [hords, mem_range]
      constructor
      · rintro hi
        obtain ⟨e, he, rfl⟩ := mem_map.mp hi
        obtain ⟨hin, hle⟩ := mem_filter.mp he
        exact ⟨of_decide_eq_true hle, hmem.mp (mem_map_of_mem hin)⟩
      · rintro ⟨hle, hlt⟩
        obtain ⟨e, he, rfl⟩ := mem_map.mp (hmem.mpr hlt)
        exact mem_map_of_mem (mem_filter.mpr ⟨he, decide_eq_true hle⟩)

/-- A reshard rebuilds every shard that gains a key, and none of those the old map routes to. -/
lemma applyReshard_complete {map : BucketMap} {newShardCount : Nat}
    (h : applyReshard buckets nodes map newShardCount = .ok r) :
    r.Complete ∧ ∀ k, r.new.route k ≠ r.old.route k → r.old.shards ≤ r.new.route k := by
  unfold applyReshard at h
  split at h
  · cases h
  · rename_i plan hplan
    split at h
    · cases h
    · rename_i growth hgrowth
      cases h
      obtain ⟨hgrow, hmap, hmoved, hbuild⟩ := planGrowthReshard_ok hgrowth
      have htarget : ∀ k, (buckets.router growth.map).route k ≠ (buckets.router map).route k →
          map.shards ≤ (buckets.router growth.map).route k ∧
            (buckets.router growth.map).route k < newShardCount := by
        intro k hk
        rcases (moved_of_reassign hplan).2 (buckets.bucketOf k).toNat with hsame | ⟨e, he, -, howner⟩
        · exact absurd (route_eq_of_owner (hmap ▸ hsame)) hk
        · have hroute : (buckets.router growth.map).route k = e.2.2.toNat := by
            simp only [KeyBuckets.router, owner, hmap, howner, Option.getD_some]
          have hlt := (moved_of_reassign hplan).1 e he
          rw [hroute]
          exact ⟨hmoved e he, by omega⟩
      exact ⟨fun k hk => (hbuild _).mpr (htarget k hk), fun k hk => (htarget k hk).1⟩

open Index Lib.Replay Function

inductive MapVersion
  | old
  | new
  deriving DecidableEq

def Relocation.map (r : Relocation K) : MapVersion → KeyRouter K
  | .old => r.old
  | .new => r.new

variable [DecidableEq K] {T : Tantivy K (Document K)}

structure Generation (T : Tantivy K (Document K)) where
  shard : Shard T
  stamp : Int
  scanned : Int

/-- The shards and connectors; each connector's map and the registry's; the generations being built; where each shard
was last rebuilt under the new map; and the commits sent by the old map. -/
structure Relocating (T : Tantivy K (Document K)) where
  ingest : Ingesting T
  maps : Nat → MapVersion
  published : MapVersion
  staging : Nat → Option (Generation T)
  rebuilt : Nat → Option Int
  stale : List (Commit K)

inductive MoveEvent (K : Type)
  | starts (w : Nat) (group : Option (List Nat)) (version : MapVersion)
  | fails (w : Nat)
  | triggers (w : Nat) (snapshot : Int)
  | sends (w : Nat)
  | stages (n : Nat) (order : HashOrder (K × DocOp K))
  | commits (i n : Nat)
  | acks (w i n : Nat)
  | stops (i n stop : Nat)
  | answers (w : Nat)
  | builds (i : Nat) (order : HashOrder (K × DocOp K)) (stamp scanned : Int)
  | promotes (i : Nat) (order : HashOrder (K × DocOp K)) (head : Int)
  | discards (i : Nat)
  | retires (w i : Nat) (id : String)
  | setBucketMap

def snapshotOf (log : Changelog K) (id : Int) : Option (SourceSnapshot K) :=
  log.snapshots.find? (fun s => decide (s.snapshotId = id))

namespace Relocating

variable (log : Changelog K) (job : Job K) (r : Relocation K) (reads : SourceReads log)

def start (chunk : Nat → Nat) : Relocating T :=
  ⟨.start chunk, fun _ => .old, .old, fun _ => none, fun _ => none, []⟩

variable (st : Relocating T)

def routerOf (w : Nat) : KeyRouter K := r.map (st.maps w)

/-- A shard is rebuilt before the map is committed if it gains buckets, after it if it loses some. -/
def Rebuildable (i : Nat) : Prop :=
  i ∈ (match st.published with | .old => r.build | .new => r.trim)

instance (i : Nat) : Decidable (st.Rebuildable r i) := inferInstanceAs (Decidable (_ ∈ _))

def install (i : Nat) (shard : Shard T) (stamp seen : Int) : Relocating T :=
  { st with
    ingest := st.ingest.setShard i ⟨shard.reopen, [], placeOf log (some seen)⟩
    staging := update st.staging i none
    rebuilt := update st.rebuilt i (some stamp) }

def owns (i : Nat) (k : K) : Bool := decide (r.new.route k = i)

def build (i : Nat) (order : HashOrder (K × DocOp K)) (stamp scanned : Int) : Relocating T :=
  match snapshotOf log stamp, snapshotOf log scanned with
  | some s, some t =>
    if (st.staging i).isNone ∧ st.Rebuildable r i ∧ placeOf log st.ingest.head ≤ placeOf log (some stamp) ∧
        placeOf log (some stamp) ≤ placeOf log (some scanned) then
      match buildGeneration reads order (owns r i) (st.ingest.shards i).shard.commitChunk s t with
      | .error _ => st
      | .ok shard =>
        { st with
          ingest := { st.ingest with head := some scanned }
          staging := update st.staging i (some ⟨shard, stamp, scanned⟩) }
    else st
  | _, _ => st

def promote (i : Nat) (order : HashOrder (K × DocOp K)) (head : Int) : Relocating T :=
  match st.staging i with
  | none => st
  | some g =>
    if reads.appendFastPath then
      match snapshotOf log head with
      | none => st
      | some h =>
        if placeOf log st.ingest.head ≤ placeOf log (some head) then
          match catchUp reads order (owns r i) h g.shard with
          | .error _ => st
          | .ok shard => { st with ingest := { st.ingest with head := some head } }.install log i shard head head
        else st
    else st.install log i g.shard g.stamp g.scanned

def trigger (w : Nat) (snapshot : Int) : Relocating T :=
  match snapshotOf log snapshot with
  | none => st
  | some _ =>
    if (st.ingest.writers w).pending.isEmpty ∧ placeOf log st.ingest.head ≤ placeOf log (some snapshot) ∧
        (st.ingest.writers w).cursor ≠ some snapshot ∧
        placeOf log (st.ingest.writers w).cursor ≤ placeOf log (some snapshot) then
      { st with ingest := st.ingest.trigger log job (st.routerOf r w) w snapshot }
    else st

def send (w : Nat) : Relocating T :=
  match (st.ingest.writers w).pending with
  | [] => st
  | c :: _ =>
    { st with
      ingest := st.ingest.send log job (st.routerOf r w) w c
      stale := if st.maps w = .old then c :: st.stale else st.stale }

def stage (n : Nat) (order : HashOrder (K × DocOp K)) : Relocating T :=
  match st.ingest.sent[n]? with
  | none => st
  | some e =>
    match (st.ingest.shards e.1).shard.stageBatch order e.2 with
    | .error _ => st
    | .ok ref => { st with ingest := st.ingest.stage e.1 ref }

def commit (i n : Nat) (reply : StagedRef K → Ingesting T → Ingesting T) : Relocating T :=
  match (st.ingest.shards i).staged[n]? with
  | none => st
  | some ref =>
    match (st.ingest.shards i).shard.commitStaged [ref] with
    | .error _ => st
    | .ok (shard, _) => { st with ingest := reply ref (st.ingest.commit i shard) }

def stop (i n cut : Nat) : Relocating T :=
  match (st.ingest.shards i).staged[n]? with
  | none => st
  | some ref =>
    match (st.ingest.shards i).shard.commitPlan [ref] with
    | .error _ => st
    | .ok (plan, _) => { st with ingest := st.ingest.crash i ref plan cut }

def answer (w : Nat) : Relocating T :=
  match (st.ingest.writers w).pending with
  | [] => st
  | c :: rest =>
    if ∀ e ∈ (st.ingest.writers w).parts (st.routerOf r w) log job c,
        (e.1, e.2.batchId) ∈ (st.ingest.writers w).acked then
      { st with ingest := st.ingest.setWriter w ((st.ingest.writers w).answer rest) }
    else st

def step : MoveEvent K → Relocating T
  | .starts w group version =>
    if version = .old ∨ st.published = .new then
      { st with
        ingest := st.ingest.resume log (r.map version) w group
        maps := update st.maps w version }
    else st
  | .fails w => { st with ingest := st.ingest.setWriter w (st.ingest.writers w).fail }
  | .triggers w snapshot => st.trigger log job r w snapshot
  | .sends w => st.send log job r w
  | .stages n order => st.stage n order
  | .commits i n => st.commit i n (fun _ ingest => ingest)
  | .acks w i n => st.commit i n (fun ref ingest => ingest.ack w i ref)
  | .stops i n cut => st.stop i n cut
  | .answers w => st.answer log job r w
  | .builds i order stamp scanned => st.build log r reads i order stamp scanned
  | .promotes i order head => st.promote log r reads i order head
  | .discards i => { st with staging := update st.staging i none }
  | .retires w i id =>
    if (st.rebuilt i).isSome then
      let writer := st.ingest.writers w
      { st with ingest := st.ingest.setWriter w { writer with acked := (i, id) :: writer.acked } }
    else st
  | .setBucketMap =>
    if st.published = .old ∧ ∀ i ∈ r.build, (st.rebuilt i).isSome then { st with published := .new } else st

end Relocating

end GrowlerDB.Connector
