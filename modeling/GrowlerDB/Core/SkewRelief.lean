import GrowlerDB.Core.Routing
import GrowlerDB.Lib.Runs
import Mathlib.Data.List.NodupEquivFin
import Mathlib.Tactic.IntervalCases

namespace GrowlerDB.Core.BucketMap
open Lib List Option Nat

def counts (map : BucketMap) : List Nat :=
  map.owners.foldl (fun counts o => counts.modify o.toNat (· + 1)) (List.replicate map.shards 0)

def hottest (perShardDocs : List Nat) : Option (Nat × Nat) :=
  perShardDocs.zipIdx.foldl (fun best e =>
    match best with
    | none => some e
    | some b => if b.1 ≤ e.1 then some e else some b) none

def coldest (perShardDocs : List Nat) : Option (Nat × Nat) :=
  perShardDocs.zipIdx.foldl (fun best e =>
    match best with
    | none => some e
    | some b => if e.1 < b.1 then some e else some b) none

def recommendSkewMove (map : BucketMap) (perShardDocs : List Nat) : Option (Nat × Nat × Nat) :=
  if perShardDocs.length ≠ map.shards ∨ perShardDocs.length < 2 then none
  else do
    let (max, source) ← hottest perShardDocs
    let (min, target) ← coldest perShardDocs
    if source = target ∨ max ≤ (min + min / 10) % 2 ^ 64 then none
    else if map.counts.getD source 0 ≤ 1 then none
    else do
      let bucket ← (List.range numBuckets.toNat).find?
        (fun b => (map.owners[b]?).map BitVec.toNat = some source)
      some (bucket, source, target)

section

variable (map : BucketMap) (move : BitVec 32 × BitVec 32)

def moved : BucketMap :=
  match map.withOwner move.1 move.2 with
  | .ok map' => map'
  | .error _ => map

abbrev movedOwners (map : BucketMap) (move : BitVec 32 × BitVec 32) : List (BitVec 32) :=
  map.owners.set move.1.toNat move.2

def Empties : Prop :=
  ∃ s < map.shards, ∀ o ∈ map.movedOwners move, o.toNat ≠ s

/-- A move is accepted only if it changes the owner of its bucket and nothing else: it keeps the number of
shards and leaves a bucket to each of them. -/
structure Sheds (map : BucketMap) (move : BitVec 32 × BitVec 32) : Prop where
  accepted : ∀ map', map.withOwner move.1 move.2 = .ok map' →
    map'.owners = map.movedOwners move ∧ map'.shards = map.shards ∧ map'.Dense
  refused : map.Empties move → ∃ e, map.withOwner move.1 move.2 = .error e

/-- The move takes the highest shard's only bucket to another shard. -/
def EmptiesLast : Prop :=
  move.2.toNat + 1 < map.shards ∧
    ∀ b < numBuckets.toNat, (map.owners[b]?).map BitVec.toNat = some (map.shards - 1) ↔ b = move.1.toNat

end

variable {map map' : BucketMap} {move : BitVec 32 × BitVec 32}

lemma Dense.shards_le (h : map.Dense) : map.shards ≤ numBuckets.toNat := by
  have hsub : List.range map.shards ⊆ map.owners.map BitVec.toNat := by
    intro s hs
    obtain ⟨o, ho, rfl⟩ := h s (mem_range.mp hs)
    exact mem_map_of_mem ho
  have hle := (nodup_range (n := map.shards)).length_le_of_subset hsub
  rwa [length_range, length_map, map.length_eq] at hle

lemma withOwner_ok_iff : map.withOwner move.1 move.2 = .ok map' ↔
    move.1.toNat < numBuckets.toNat ∧ move.2.toNat < map.shards ∧ map'.owners = map.movedOwners move ∧
      (∀ o ∈ map.movedOwners move, o.toNat < numBuckets.toNat) ∧ map'.Dense := by
  unfold withOwner
  split_ifs with hb hs
  · simp [not_lt.mpr hb]
  · simp [not_lt.mpr hs]
  · rw [fromOwners_ok_iff]
    exact ⟨fun h => ⟨not_le.mp hb, not_le.mp hs, h⟩, fun h => h.2.2⟩

lemma movedOwners_lt (hs : move.2.toNat < map.shards) (ho : o ∈ map.movedOwners move) : o.toNat < map.shards := by
  rcases mem_or_eq_of_mem_set ho with ho | rfl
  · exact lt_succ_of_le (le_maxOwner ho)
  · exact hs

section

variable (hb : move.1.toNat < numBuckets.toNat)
include hb

lemma getElem?_movedOwners (b : Nat) :
    (map.movedOwners move)[b]? = if b = move.1.toNat then some move.2 else map.owners[b]? := by
  rw [List.getElem?_set, map.length_eq, if_pos hb]
  exact if_congr eq_comm rfl rfl

lemma mem_movedOwners (hne : b ≠ move.1.toNat)
    (ho : map.owners[b]? = some o) : o ∈ map.movedOwners move := by
  refine mem_of_getElem? (i := b) ?_
  rw [getElem?_movedOwners hb, if_neg hne, ho]

lemma exists_last_iff (hs : move.2.toNat < map.shards) :
    (∃ o ∈ map.movedOwners move, o.toNat = map.shards - 1) ↔ ¬ map.EmptiesLast move := by
  constructor
  · rintro ⟨o, ho, hlast⟩ ⟨hlower, honly⟩
    obtain ⟨b, hget⟩ := mem_iff_getElem?.mp ho
    rw [getElem?_movedOwners hb] at hget
    split_ifs at hget with hbucket
    · cases hget
      omega
    · have hlt : b < numBuckets.toNat := map.length_eq ▸ (List.getElem?_eq_some_iff.mp hget).1
      exact hbucket ((honly b hlt).mp (by rw [hget, map_some, hlast]))
  · intro h
    by_contra hnone
    -- then the bucket was the only one of the highest shard
    obtain ⟨o, ho, hmax⟩ := map.exists_maxOwner
    obtain ⟨b, hget⟩ := mem_iff_getElem?.mp ho
    have hkept : ∀ b o, map.owners[b]? = some o → o.toNat = map.shards - 1 → b = move.1.toNat := by
      intro b o hget hlast
      by_contra hne
      exact hnone ⟨o, mem_movedOwners hb hne hget, hlast⟩
    have hown : map.owners[move.1.toNat]? = some o := by rwa [← hkept b o hget (by rw [hmax, shards]; rfl)]
    refine h ⟨?_, fun b _ => ⟨fun hlast => ?_, ?_⟩⟩
    · have hne : move.2.toNat ≠ map.shards - 1 := fun hlast =>
        hnone ⟨move.2, mem_of_getElem? (by rw [getElem?_movedOwners hb, if_pos rfl]), hlast⟩
      omega
    · obtain ⟨p, hp, hlast⟩ := map_eq_some_iff.mp hlast
      exact hkept b p hp hlast
    · rintro rfl
      rw [hown, map_some, hmax]
      rfl

end

lemma shards_moved (hs : move.2.toNat < map.shards) (howners : map'.owners = map.movedOwners move)
    (hlast : ∃ o ∈ map.movedOwners move, o.toNat = map.shards - 1) : map'.shards = map.shards := by
  obtain ⟨o, ho, hlast⟩ := hlast
  have hle := le_maxOwner ho
  obtain ⟨p, hp, hmax⟩ := map'.exists_maxOwner
  rw [howners] at hp hmax
  have hlt := movedOwners_lt hs hp
  rw [shards, howners]
  omega

lemma getElem?_foldl_counts (owners : List (BitVec 32)) (start : List Nat) (s : Nat) :
    (owners.foldl (fun counts o => counts.modify o.toNat (· + 1)) start)[s]? =
      (start[s]?).map (· + (owners.map BitVec.toNat).count s) := by
  induction owners generalizing start with
  | nil => simp
  | cons o owners ih =>
    rw [foldl_cons, ih, List.getElem?_modify, map_cons, count_cons]
    cases start[s]? with
    | none => rfl
    | some n =>
      by_cases ho : o.toNat = s
      · simp [ho]
        omega
      · simp [ho]

lemma counts_le (map : BucketMap) (s : Nat) : map.counts.getD s 0 ≤ (map.owners.map BitVec.toNat).count s := by
  rw [getD_eq_getElem?_getD, counts, getElem?_foldl_counts]
  by_cases hs : s < map.shards <;> simp [hs]

lemma exists_other (map : BucketMap) (b : Nat) (h : 2 ≤ (map.owners.map BitVec.toNat).count s) :
    ∃ c o, c ≠ b ∧ map.owners[c]? = some o ∧ o.toNat = s := by
  have hdup := duplicate_iff_two_le_count.mpr h
  obtain ⟨i, j, hij, hi, hj⟩ := duplicate_iff_exists_distinct_get.mp hdup
  have hget : ∀ k : Fin (map.owners.map BitVec.toNat).length, s = (map.owners.map BitVec.toNat).get k →
      ∃ o, map.owners[k.1]? = some o ∧ o.toNat = s := by
    intro k hk
    have hlt : k.1 < map.owners.length := by simpa using k.2
    exact ⟨map.owners[k.1], List.getElem?_eq_getElem hlt, by rw [hk]; simp⟩
  by_cases hb : i.1 = b
  · obtain ⟨o, ho, hs⟩ := hget j hj
    exact ⟨j.1, o, fun heq => absurd hij (by rw [Fin.lt_def]; omega), ho, hs⟩
  · obtain ⟨o, ho, hs⟩ := hget i hi
    exact ⟨i.1, o, hb, ho, hs⟩

lemma coldest_lt (h : coldest docs = some e) : e.2 < docs.length := by
  have hmem : ∀ (l : List (Nat × Nat)) (best : Option (Nat × Nat)), (l.foldl (fun best e =>
      match best with
      | none => some e
      | some b => if e.1 < b.1 then some e else some b) best) = some e → e ∈ l ∨ best = some e := by
    intro l
    induction l with
    | nil => exact fun _ h => .inr h
    | cons x l ih =>
      intro best h
      rcases ih _ h with h | h
      · exact .inl (mem_cons_of_mem _ h)
      · cases best with
        | none => exact .inl (some.inj h ▸ mem_cons_self)
        | some b =>
          dsimp only at h
          split_ifs at h
          · exact .inl (some.inj h ▸ mem_cons_self)
          · exact .inr h
  rcases hmem _ _ h with h | h
  · exact (mem_zipIdx' h).1
  · cases h

section

variable (hd : map.Dense)
include hd

lemma EmptiesLast.accepted (h : map.EmptiesLast move) :
    ∃ map', map.withOwner move.1 move.2 = .ok map' ∧ map.Empties move := by
  obtain ⟨o, ho, hmax⟩ := map.exists_maxOwner
  obtain ⟨b, hget⟩ := mem_iff_getElem?.mp ho
  have hlt : b < numBuckets.toNat := map.length_eq ▸ (List.getElem?_eq_some_iff.mp hget).1
  obtain rfl := (h.2 b hlt).mp (by rw [hget, map_some, hmax]; rfl)
  have hs : move.2.toNat < map.shards := by
    have := h.1
    omega
  have hnone : ∀ p ∈ map.movedOwners move, p.toNat ≠ map.shards - 1 := fun p hp heq =>
    (exists_last_iff hlt hs).mp ⟨p, hp, heq⟩ h
  let map' : BucketMap := ⟨map.movedOwners move, by rw [length_set, map.length_eq]⟩
  refine ⟨map', withOwner_ok_iff.mpr ⟨hlt, hs, rfl, fun p hp => ?_, fun s hs' => ?_⟩,
    map.shards - 1, sub_lt (by omega) one_pos, hnone⟩
  · exact (movedOwners_lt hs hp).trans_le hd.shards_le
  · obtain ⟨q, hq, hmax'⟩ := map'.exists_maxOwner
    have hbelow : s < map.shards - 1 := by
      have := movedOwners_lt hs hq
      have := hnone q hq
      rw [shards, ← hmax'] at hs'
      omega
    obtain ⟨p, hp, rfl⟩ := hd s (by omega)
    obtain ⟨c, hc⟩ := mem_iff_getElem?.mp hp
    refine ⟨p, mem_movedOwners hlt ?_ hc, rfl⟩
    rintro rfl
    rw [hget] at hc
    cases hc
    rw [hmax, shards] at hbelow
    omega

lemma sheds_iff : map.Sheds move ↔ ¬ map.EmptiesLast move := by
  constructor
  · intro h hlast
    obtain ⟨map', hok, hempties⟩ := hlast.accepted hd
    obtain ⟨e, he⟩ := h.refused hempties
    rw [hok] at he
    cases he
  · intro h
    have haccepted : ∀ map', map.withOwner move.1 move.2 = .ok map' →
        map'.owners = map.movedOwners move ∧ map'.shards = map.shards ∧ map'.Dense := by
      intro map' hok
      obtain ⟨hb, hs, howners, -, hdense⟩ := withOwner_ok_iff.mp hok
      exact ⟨howners, shards_moved hs howners ((exists_last_iff hb hs).mpr h), hdense⟩
    refine ⟨haccepted, fun ⟨s, hs, hnone⟩ => ?_⟩
    cases hok : map.withOwner move.1 move.2 with
    | error e => exact ⟨e, rfl⟩
    | ok map' =>
      obtain ⟨howners, hshards, hdense⟩ := haccepted map' hok
      obtain ⟨o, ho, heq⟩ := hdense s (hshards ▸ hs)
      exact absurd heq (hnone o (howners ▸ ho))

lemma Dense.moved (h : ¬ map.EmptiesLast move) :
    (map.moved move).Dense ∧ (map.moved move).shards = map.shards := by
  unfold BucketMap.moved
  split
  · rename_i map' hok
    obtain ⟨-, hshards, hdense⟩ := ((sheds_iff hd).mpr h).accepted map' hok
    exact ⟨hdense, hshards⟩
  · exact ⟨hd, rfl⟩

lemma withOwner_accepts (move : BitVec 32 × BitVec 32) (hb : move.1.toNat < numBuckets.toNat)
    (hs : move.2.toNat < map.shards) (h : ¬ map.Empties move) : ∃ map', map.withOwner move.1 move.2 = .ok map' := by
  let map' : BucketMap := ⟨map.movedOwners move, by rw [length_set, map.length_eq]⟩
  refine ⟨map', withOwner_ok_iff.mpr ⟨hb, hs, rfl, fun p hp => ?_, fun s hs' => ?_⟩⟩
  · exact (movedOwners_lt hs hp).trans_le hd.shards_le
  · by_contra hnone
    obtain ⟨q, hq, hmax⟩ := map'.exists_maxOwner
    have := movedOwners_lt hs hq
    rw [shards, ← hmax] at hs'
    exact h ⟨s, by omega, fun o ho heq => hnone ⟨o, ho, heq⟩⟩

/-- The move that is recommended spares every shard, and is accepted. -/
lemma recommended_accepted {docs : List Nat} {bucket source target : Nat}
    (h : map.recommendSkewMove docs = some (bucket, source, target)) :
    ¬ map.EmptiesLast (.ofNat 32 bucket, .ofNat 32 target) ∧
      ∃ map', map.withOwner (.ofNat 32 bucket) (.ofNat 32 target) = .ok map' := by
  unfold recommendSkewMove at h
  split_ifs at h with hlen
  obtain ⟨⟨hot, source'⟩, -, h⟩ := bind_eq_some_iff.mp h
  obtain ⟨⟨cold, target'⟩, hcold, h⟩ := bind_eq_some_iff.mp h
  dsimp only at h
  split_ifs at h with hbalanced hsingle
  obtain ⟨bucket', hfind, h⟩ := bind_eq_some_iff.mp h
  cases h
  have hb : bucket < numBuckets.toNat := mem_range.mp (mem_of_find?_eq_some hfind)
  have hsource : (map.owners[bucket]?).map BitVec.toNat = some source := by simpa using List.find?_some hfind
  have htarget : target < map.shards := by
    have hlt := coldest_lt hcold
    have : docs.length = map.shards := by
      by_contra hne
      exact hlen (.inl hne)
    omega
  have hle := hd.shards_le
  have hwide : numBuckets.toNat < 2 ^ 32 := by decide
  have hbucket : (BitVec.ofNat 32 bucket).toNat = bucket := by rw [BitVec.toNat_ofNat, mod_eq_of_lt (by omega)]
  have hshard : (BitVec.ofNat 32 target).toNat = target := by rw [BitVec.toNat_ofNat, mod_eq_of_lt (by omega)]
  obtain ⟨c, o, hne, hc, ho⟩ := map.exists_other bucket (show 2 ≤ (map.owners.map BitVec.toNat).count source by
    have := map.counts_le source
    omega)
  refine ⟨fun hlast => ?_, withOwner_accepts hd (.ofNat 32 bucket, .ofNat 32 target)
    (hbucket.symm ▸ hb) (hshard.symm ▸ htarget) ?_⟩
  · have hlt : c < numBuckets.toNat := map.length_eq ▸ (List.getElem?_eq_some_iff.mp hc).1
    have hown := (hlast.2 bucket hb).mpr hbucket.symm
    rw [hsource] at hown
    exact hne (((hlast.2 c hlt).mp (by rw [hc, map_some, ho, hown])).trans hbucket)
  · rintro ⟨s, hs, hnone⟩
    obtain ⟨p, hp, rfl⟩ := hd s hs
    obtain ⟨b, hget⟩ := mem_iff_getElem?.mp hp
    by_cases hbb : b = bucket
    · -- the shard that sheds the bucket has the other one
      rw [hbb] at hget
      rw [hget, map_some] at hsource
      exact hnone o (mem_movedOwners (hbucket.symm ▸ hb) (by rw [hbucket]; exact hne) hc)
        (ho.trans (some.inj hsource).symm)
    · exact hnone p (mem_movedOwners (hbucket.symm ▸ hb) (by rw [hbucket]; exact hbb) hget) rfl

end

/-- However buckets are moved, never the highest shard's only one, the map stays dense over the same shards, and a
further call keeps them or is refused exactly if it is not such a move; a recommended one is not. -/
theorem bucket_moves_keep_shards (hd : map.Dense)
    (h : Runs BucketMap.moved (fun map move => ¬ map.EmptiesLast move) map map') :
    map'.Dense ∧ map'.shards = map.shards ∧ (∀ move, map'.Sheds move ↔ ¬ map'.EmptiesLast move) ∧
      ∀ docs bucket source target, map'.recommendSkewMove docs = some (bucket, source, target) →
        ¬ map'.EmptiesLast (.ofNat 32 bucket, .ofNat 32 target) ∧
        ∃ map'', map'.withOwner (.ofNat 32 bucket) (.ofNat 32 target) = .ok map'' := by
  have hkept : map'.Dense ∧ map'.shards = map.shards := by
    refine h.invariant (P := fun m => m.Dense ∧ m.shards = map.shards) ⟨hd, rfl⟩ ?_
    rintro m move hmove ⟨hm, hshards⟩
    obtain ⟨hm', heq⟩ := hm.moved hmove
    exact ⟨hm', heq.trans hshards⟩
  exact ⟨hkept.1, hkept.2, fun _ => sheds_iff hkept.1, fun _ _ _ _ => recommended_accepted hkept.1⟩

lemma length_lopsided : (List.replicate 1023 (0 : BitVec 32) ++ [1]).length = numBuckets.toNat := by
  rw [length_append, length_replicate]
  rfl

def lopsided : BucketMap := ⟨List.replicate 1023 0 ++ [1], length_lopsided⟩

lemma shards_lopsided : lopsided.shards = 2 := by decide +kernel

lemma getElem?_lopsided (hb : b < 1024) : lopsided.owners[b]? = some (if b < 1023 then 0 else 1) := by
  have happend : lopsided.owners[b]? = if b < (List.replicate 1023 (0 : BitVec 32)).length
      then (List.replicate 1023 0)[b]? else [1][b - (List.replicate 1023 (0 : BitVec 32)).length]? :=
    List.getElem?_append
  rw [happend, length_replicate, List.getElem?_replicate]
  by_cases hlow : b < 1023
  · rw [if_pos hlow, if_pos hlow, if_pos hlow]
  · rw [if_neg hlow, if_neg hlow, show b - 1023 = 0 by omega]
    rfl

lemma lopsided_dense : lopsided.Dense := by
  intro s hs
  rw [shards_lopsided] at hs
  interval_cases s
  · exact ⟨0, mem_of_getElem? (getElem?_lopsided (b := 0) (by decide)), rfl⟩
  · exact ⟨1, mem_of_getElem? (getElem?_lopsided (b := 1023) (by decide)), rfl⟩

theorem bucket_moves_lopsided : ∃ map', Runs BucketMap.moved (fun map move => ¬ map.EmptiesLast move) lopsided map' ∧
      map' = lopsided.moved (0, 1) ∧ map'.Dense ∧ map'.shards = 2 := by
  have hmove : ¬ lopsided.EmptiesLast (0, 1) := fun h => absurd h.1 (by rw [shards_lopsided]; decide)
  obtain ⟨hdense, hshards, -⟩ := bucket_moves_keep_shards lopsided_dense (.step .start hmove)
  exact ⟨_, .step .start hmove, rfl, hdense, hshards.trans shards_lopsided⟩

/-- The second shard's only bucket goes to the first: the call is accepted, and one shard is left. -/
theorem last_shard_lost : lopsided.Dense ∧ lopsided.shards = 2 ∧ lopsided.Empties (1023, 0) ∧
      ∃ map', lopsided.withOwner 1023 0 = .ok map' ∧ map'.shards = 1 := by
  have hlast : lopsided.EmptiesLast (1023, 0) := by
    refine ⟨by rw [shards_lopsided]; decide, fun b hb => ?_⟩
    rw [shards_lopsided, getElem?_lopsided hb]
    have hb : b < 1024 := hb
    by_cases hlow : b < 1023
    · rw [if_pos hlow]
      exact ⟨fun h => absurd h (by decide), fun h => absurd hlow (by rw [h]; decide)⟩
    · rw [if_neg hlow]
      exact ⟨fun _ => show b = 1023 by omega, fun _ => rfl⟩
  obtain ⟨map', hok, hempties⟩ := hlast.accepted lopsided_dense
  refine ⟨lopsided_dense, shards_lopsided, hempties, map', hok, ?_⟩
  rw [shards, withOwner_owners hok]
  decide +kernel

end GrowlerDB.Core.BucketMap
