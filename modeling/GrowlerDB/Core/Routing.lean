import GrowlerDB.Core.Key

namespace GrowlerDB.Core
open Lib Bytes List BitVec Nat

inductive RoutingStrategy
  | hash
  | partition
  deriving DecidableEq

def numBuckets : BitVec 32 := 1024

def fnv1a (bytes : List UInt8) : BitVec 64 :=
  bytes.foldl (fun h b => (h ^^^ b.toBitVec.setWidth 64) * 0x100000001b3#64) 0xcbf29ce484222325#64

structure BucketMap where
  owners : List (BitVec 32)
  length_eq : owners.length = numBuckets.toNat

variable {owners : List (BitVec 32)} {map : BucketMap}

namespace BucketMap

def maxOwner (owners : List (BitVec 32)) : Nat := owners.foldl (fun m o => max m o.toNat) 0

def fromOwners (owners : List (BitVec 32)) : Except String BucketMap :=
  if h : owners.length = numBuckets.toNat then
    match owners.find? (fun o => numBuckets.toNat ≤ o.toNat) with
    | some bad => .error ("bucket map names shard " ++ toString bad.toNat ++ ", beyond the " ++
        toString numBuckets.toNat ++ "-bucket maximum — malformed")
    | none =>
      match (List.range (maxOwner owners + 1)).find? (fun s => owners.all (fun o => o.toNat ≠ s)) with
      | some missing => .error ("bucket map is not dense: shard " ++ toString missing ++ " owns no buckets")
      | none => .ok ⟨owners, h⟩
  else .error ("bucket map must have exactly " ++ toString numBuckets.toNat ++ " entries, got " ++
    toString owners.length)

def owner (map : BucketMap) (bucket : BitVec 32) : Option (BitVec 32) := map.owners[bucket.toNat]?

def shards (map : BucketMap) : Nat := maxOwner map.owners + 1

lemma fromOwners_owners (h : fromOwners owners = .ok map) : map.owners = owners := by
  unfold fromOwners at h
  split at h
  · split at h
    · cases h
    · split at h
      · cases h
      · cases h
        rfl
  · cases h

def Dense (map : BucketMap) : Prop := ∀ s < map.shards, ∃ o ∈ map.owners, o.toNat = s

lemma foldl_max_spec (owners : List (BitVec 32)) (m : Nat) : m ≤ owners.foldl (fun m o => max m o.toNat) m ∧
    (∀ o ∈ owners, o.toNat ≤ owners.foldl (fun m o => max m o.toNat) m) ∧
    (owners.foldl (fun m o => max m o.toNat) m = m ∨
      ∃ o ∈ owners, owners.foldl (fun m o => max m o.toNat) m = o.toNat) := by
  induction owners generalizing m with
  | nil => simp
  | cons o owners ih =>
    obtain ⟨hbase, hall, hone⟩ := ih (max m o.toNat)
    rw [foldl_cons]
    refine ⟨by omega, fun p hp => ?_, ?_⟩
    · rcases mem_cons.mp hp with rfl | hp
      · omega
      · exact hall p hp
    · rcases hone with heq | ⟨p, hp, heq⟩
      · rcases le_total m o.toNat with hle | hle
        · exact .inr ⟨o, mem_cons_self, by omega⟩
        · exact .inl (by omega)
      · exact .inr ⟨p, mem_cons_of_mem _ hp, heq⟩

lemma le_maxOwner (h : o ∈ owners) : o.toNat ≤ maxOwner owners :=
  (foldl_max_spec owners 0).2.1 o h

lemma exists_maxOwner (map : BucketMap) : ∃ o ∈ map.owners, o.toNat = maxOwner map.owners := by
  rcases (foldl_max_spec map.owners 0).2.2 with hzero | ⟨o, ho, heq⟩
  · obtain ⟨o, ho⟩ := exists_mem_of_length_pos (l := map.owners) (by rw [map.length_eq]; decide)
    have := le_maxOwner ho
    exact ⟨o, ho, by rw [maxOwner] at this ⊢; omega⟩
  · exact ⟨o, ho, heq.symm⟩

lemma owner_lt_shards {bucket shard : BitVec 32} (h : map.owner bucket = some shard) : shard.toNat < map.shards :=
  lt_succ_of_le (le_maxOwner (mem_of_getElem? h))

lemma fromOwners_ok_iff : fromOwners owners = .ok map ↔
      map.owners = owners ∧ (∀ o ∈ owners, o.toNat < numBuckets.toNat) ∧ map.Dense := by
  constructor
  · intro h
    have howners := fromOwners_owners h
    refine ⟨howners, ?_⟩
    unfold fromOwners at h
    split_ifs at h with hlen
    split at h
    · cases h
    · rename_i hsmall
      split at h
      · cases h
      · rename_i hdense
        rw [List.find?_eq_none] at hsmall hdense
        refine ⟨fun o ho => by simpa using hsmall o ho, fun s hs => ?_⟩
        rw [shards, howners] at hs
        have := hdense s (mem_range.mpr hs)
        rw [howners]
        simpa using this
  · rintro ⟨rfl, hsmall, hdense⟩
    have hfind : map.owners.find? (fun o => numBuckets.toNat ≤ o.toNat) = none := by
      rw [List.find?_eq_none]
      exact fun o ho => by simpa using hsmall o ho
    have hmissing : (List.range (maxOwner map.owners + 1)).find?
        (fun s => map.owners.all (·.toNat ≠ s)) = none := by
      rw [List.find?_eq_none]
      intro s hs
      simpa using hdense s (mem_range.mp hs)
    rw [fromOwners, dif_pos map.length_eq, hfind, hmissing]

end BucketMap

inductive Placement
  | legacy (shards : BitVec 32)
  | bucketed (map : BucketMap)

structure ShardRouter where
  strategy : RoutingStrategy
  placement : Placement

namespace ShardRouter

def new (shards : BitVec 32) (strategy : RoutingStrategy) : ShardRouter :=
  ⟨strategy, .legacy (if shards = 0 then 1 else shards)⟩

def bucketed (strategy : RoutingStrategy) (map : BucketMap) : ShardRouter := ⟨strategy, .bucketed map⟩

variable (router : ShardRouter) (key : CompositeKey)

def strategyBytes : List UInt8 :=
  match router.strategy with
  | .hash => key.encode
  | .partition => if key.partition ≠ [] then CompositeKey.encode ⟨key.partition, []⟩ else key.encode

def bucket : BitVec 32 := (fnv1a (router.strategyBytes key) % numBuckets.setWidth 64).setWidth 32

def route : Option (BitVec 32) :=
  match router.placement with
  | .legacy shards =>
    if shards ≤ 1 then some 0
    else some ((fnv1a (router.strategyBytes key) % shards.setWidth 64).setWidth 32)
  | .bucketed map => map.owner (router.bucket key)

lemma toNat_remainder (h : BitVec 64) {m : BitVec 32} (hm : 0 < m.toNat) :
    ((h % m.setWidth 64).setWidth 32).toNat = h.toNat % m.toNat := by
  have hlt := m.isLt
  have hwide : (m.setWidth 64).toNat = m.toNat := by rw [toNat_setWidth, mod_eq_of_lt (by omega)]
  have := mod_lt h.toNat hm
  rw [toNat_setWidth, toNat_umod, hwide, mod_eq_of_lt (by omega)]

lemma bucket_lt : (router.bucket key).toNat < numBuckets.toNat := by
  rw [bucket, toNat_remainder _ (by decide)]
  exact mod_lt _ (by decide)

lemma toNat_clamped (shards : BitVec 32) : (if shards = 0 then 1 else shards).toNat = max shards.toNat 1 := by
  split_ifs with h
  · rw [h]
    rfl
  · have : shards.toNat ≠ 0 := fun h0 => h (eq_of_toNat_eq h0)
    omega

lemma route_new (shards : BitVec 32) (strategy : RoutingStrategy) : ∃ s, (new shards strategy).route key = some s ∧
      s.toNat = (fnv1a ((new shards strategy).strategyBytes key)).toNat % max shards.toNat 1 := by
  have hpos : 0 < max shards.toNat 1 := by omega
  simp only [← toNat_clamped, route, new] at hpos ⊢
  generalize (if shards = 0 then 1 else shards) = m at hpos
  split_ifs with hone
  · have hm : m.toNat = 1 := by bv_omega
    exact ⟨0, rfl, by rw [hm, mod_one]; rfl⟩
  · exact ⟨_, rfl, toNat_remainder _ hpos⟩

end ShardRouter

-- A vector that the tests of both routers share.
example : fnv1a (CompositeKey.encode ⟨[("region", .str "eu"), ("tier", .int 2)],
    [("id", .str "x"), ("seq", .int 7)]⟩) = 11535628752453408818 := by decide +kernel

open Option

/-- A new map and, for each bucket that had to leave its shard, the shards it moves between. -/
structure Reassignment where
  map : BucketMap
  moved : List (Nat × BitVec 32 × BitVec 32)

variable {moved : List (Nat × BitVec 32 × BitVec 32)} {newShards next : Nat} {held : Nat → Nat}
  {old owners owners' : List (BitVec 32)} {displaced : List Nat} {map : BucketMap}

namespace BucketMap

def withOwner (map : BucketMap) (bucket shard : BitVec 32) : Except String BucketMap :=
  if numBuckets.toNat ≤ bucket.toNat then
    .error ("bucket " ++ toString bucket.toNat ++ " is out of range (0.." ++ toString numBuckets.toNat ++ ")")
  else if map.shards ≤ shard.toNat then
    .error ("shard " ++ toString shard.toNat ++ " is out of range (0.." ++ toString map.shards ++ ")")
  else fromOwners (map.owners.set bucket.toNat shard)

/-- Buckets a shard is to own: an even share, and one more for the first shards. -/
def target (newShards s : Nat) : Nat :=
  numBuckets.toNat / newShards + if s < numBuckets.toNat % newShards then 1 else 0

def keep (newShards : Nat) : Nat → List (BitVec 32) → (Nat → Nat) → (Nat → Nat) × List Nat
  | _, [], held => (held, [])
  | b, owner :: rest, held =>
    if owner.toNat < newShards ∧ held owner.toNat < target newShards owner.toNat then
      keep newShards (b + 1) rest (Function.update held owner.toNat (held owner.toNat + 1))
    else
      let r := keep newShards (b + 1) rest held
      (r.1, b :: r.2)

def nextFree (newShards : Nat) (held : Nat → Nat) : Nat → Nat → Option Nat
  | 0, _ => none
  | fuel + 1, next => if target newShards next ≤ held next then nextFree newShards held fuel (next + 1) else some next

def handOut (newShards : Nat) (old : List (BitVec 32)) : List Nat → Nat → (Nat → Nat) → List (BitVec 32) →
    Option (List (BitVec 32) × List (Nat × BitVec 32 × BitVec 32))
  | [], _, _, owners => some (owners, [])
  | b :: displaced, next, held, owners => do
    let next ← nextFree newShards held (newShards - next) next
    let source ← old[b]?
    let (owners, moved) ← handOut newShards old displaced next (Function.update held next (held next + 1))
      (owners.set b (BitVec.ofNat 32 next))
    some (owners, (b, source, BitVec.ofNat 32 next) :: moved)

lemma nextFree_lt (h : nextFree newShards held fuel next = some n) : n < next + fuel := by
  induction fuel generalizing next with
  | zero => cases h
  | succ fuel ih =>
    rw [nextFree] at h
    split_ifs at h
    · have := ih h
      omega
    · have := some.inj h
      omega

lemma moved_of_handOut
    (h : handOut newShards old displaced next held owners = some (owners', moved)) :
    owners'.length = owners.length ∧ (∀ e ∈ moved, e.2.2.toNat < newShards) ∧
      ∀ b, owners'[b]? = owners[b]? ∨ ∃ e ∈ moved, e.1 = b ∧ owners'[b]? = some e.2.2 := by
  induction displaced generalizing next held owners owners' moved with
  | nil =>
    obtain ⟨rfl, rfl⟩ := Prod.mk.inj (some.inj h)
    exact ⟨rfl, fun e he => absurd he not_mem_nil, fun b => .inl rfl⟩
  | cons d displaced ih =>
    obtain ⟨n, hn, h⟩ := bind_eq_some_iff.mp h
    obtain ⟨f, -, h⟩ := bind_eq_some_iff.mp h
    obtain ⟨⟨os, ms⟩, hrest, h⟩ := bind_eq_some_iff.mp h
    cases h
    obtain ⟨hlen, hlt, hmem⟩ := ih hrest
    refine ⟨hlen.trans length_set, fun e he => ?_, fun b => ?_⟩
    · rcases mem_cons.mp he with rfl | he
      · have hfree := nextFree_lt hn
        have hmod : (BitVec.ofNat 32 n).toNat ≤ n := by
          rw [BitVec.toNat_ofNat]
          exact Nat.mod_le _ _
        change (BitVec.ofNat 32 n).toNat < newShards
        by_cases hroom : next < newShards
        · omega
        · rw [Nat.sub_eq_zero_of_le (Nat.le_of_not_lt hroom)] at hn
          cases hn
      · exact hlt e he
    · rcases hmem b with hsame | ⟨e, he, hb, hown⟩
      · by_cases hd : d = b
        · subst hd
          rw [List.getElem?_set_self'] at hsame
          cases hold : owners[d]? with
          | none =>
            rw [hold] at hsame
            exact .inl hsame
          | some o =>
            rw [hold] at hsame
            exact .inr ⟨_, mem_cons_self, rfl, hsame⟩
        · rw [List.getElem?_set_ne hd] at hsame
          exact .inl hsame
      · exact .inr ⟨e, mem_cons_of_mem _ he, hb, hown⟩

def reassign (map : BucketMap) (newShards : Nat) : Option Reassignment :=
  let newShards := max newShards 1
  let kept := keep newShards 0 map.owners (fun _ => 0)
  match h : handOut newShards map.owners kept.2 0 kept.1 map.owners with
  | none => none
  | some (owners, moved) => some ⟨⟨owners, (moved_of_handOut h).1.trans map.length_eq⟩, moved⟩

lemma moved_of_reassign (h : map.reassign newShards = some r) : (∀ e ∈ r.moved, e.2.2.toNat < max newShards 1) ∧
    ∀ b, r.map.owners[b]? = map.owners[b]? ∨ ∃ e ∈ r.moved, e.1 = b ∧ r.map.owners[b]? = some e.2.2 := by
  dsimp only [reassign] at h
  split at h
  · cases h
  · rename_i owners moved hout
    cases h
    exact (moved_of_handOut hout).2

lemma withOwner_owners
    (h : map.withOwner bucket shard = .ok map') : map'.owners = map.owners.set bucket.toNat shard := by
  unfold withOwner at h
  split_ifs at h
  exact fromOwners_owners h

end BucketMap

end GrowlerDB.Core
