import GrowlerDB.Connector.Relocation

namespace GrowlerDB.Connector
open Core Engine Index Lib Replay List BucketMap

variable {K : Type} [DecidableEq K] {T : Tantivy K (Document K)} {log : Changelog K} {job : Job K}
  {r : Relocation K} {reads : SourceReads log} {st : Relocating T} {buckets : KeyBuckets K}

/-- A connector works by the new map, and all its shards are at the newest head. -/
structure Relocating.Drained (log : Changelog K) (r : Relocation K) (st : Relocating T) : Prop where
  adopted : ∃ w, st.maps w = .new
  atHead : ∀ i < r.new.shards, position (st.ingest.shards i).checkpoint = placeOf log st.ingest.head

/-- Every row of the table is on the shard of its bucket, with its newest content, and no other. -/
def Relocating.Present (log : Changelog K) (r : Relocation K) (st : Relocating T) : Prop :=
  ∀ k, (st.ingest.shards (r.new.route k)).shard.live k =
    (stateAt log.entries (placeOf log st.ingest.head) k).toList

lemma MoveSound.present (h : MoveSound log job r st) (hcomplete : r.Complete) (hdrained : st.Drained log r) :
    st.Present log r := by
  intro k
  obtain ⟨w, hw⟩ := hdrained.adopted
  have hserves : Serves r st.rebuilt (r.new.route k) k := by
    refine ⟨rfl, ?_⟩
    by_cases hk : r.old.route k = r.new.route k
    · exact .inl hk
    · exact .inr (h.published (h.adopted w hw) _ (hcomplete k (Ne.symm hk)))
  obtain ⟨m, hm, hwithin⟩ := (h.follows (r.new.route k)).docs
  have hhead := hdrained.atHead _ (r.new.route_lt k)
  have hexact := (hwithin k hserves).exact (by
    rw [Ingest.checkpoint] at hhead ⊢
    rw [hhead]
    exact h.furthest _)
  rw [hm.live, hexact]
  exact congrArg (fun p => (stateAt log.entries p k).toList) hhead

/-- A reshard moves keys to shards that the old map does not send to, so that nothing disturbs it. -/
lemma undisturbed_of_reshard {map : BucketMap} {count : Nat}
    (h : applyReshard buckets nodes map count = .ok r) (e : MoveEvent K) : st.Undisturbed log r reads e := by
  have hpasses : ∀ i < r.old.shards, ∀ stamp c, Passes log r i stamp c := by
    rintro i hi stamp c row - hnew hold
    have := (applyReshard_complete h).2 row.op.key (fun heq => hold (heq ▸ hnew))
    omega
  cases e with
  | sends w => exact fun _ c _ i hi stamp _ => hpasses i hi stamp c
  | promotes i order head => exact fun hi g _ c _ => hpasses i hi _ c
  | _ => trivial

/-- Moving buckets under live ingest. In every run of a reshard, and in every run of the move of one bucket in which
no commit sent by the old map has a newer row of the bucket than its rebuild: once a connector works by the new map
and all shards are at the head, every row is on the shard of its bucket. -/
theorem bucket_move_keeps_rows (hlog : Numbered log) (hapart : KeysApart log job) (chunk : Nat → Nat)
    (nodes : Nat → Option String) :
    (∀ index stored bucket toShard, moveBucket buckets index nodes stored bucket toShard = .ok r →
      Runs (Relocating.step log job r reads) (Relocating.Undisturbed log r reads) (.start chunk) st →
      st.Drained log r → st.Present log r) ∧
    ∀ map count, applyReshard buckets nodes map count = .ok r →
      Runs (Relocating.step log job r reads) (fun _ _ => True) (.start chunk) st →
      st.Drained log r → st.Present log r := by
  constructor
  · intro index stored bucket toShard hplan hruns hdrained
    have hsound := hruns.invariant (moveSound_start chunk) fun st e hquiet h => h.step hlog hapart e hquiet
    exact hsound.present (moveBucket_complete hplan) hdrained
  · intro map count hplan hruns hdrained
    have hsound := hruns.invariant (moveSound_start chunk) fun st e _ h =>
      h.step hlog hapart e (undisturbed_of_reshard hplan e)
    exact hsound.present (applyReshard_complete hplan).1 hdrained

instance (e : MoveEvent K) : Decidable (st.Undisturbed log r reads e) := by
  cases e <;> unfold Relocating.Undisturbed <;> infer_instance

namespace OneBucket

def doc (k : Nat) : Document Nat := ⟨k, []⟩

def bucketsOf : KeyBuckets Nat where
  bucketOf k := BitVec.ofNat 32 (k % 4)
  lt k := by
    have : k % 4 < 4 := Nat.mod_lt k (by decide)
    rw [BitVec.toNat_ofNat, Nat.mod_eq_of_lt (by omega)]
    exact this.trans (by decide)

lemma length_owners : ((List.replicate Core.numBuckets.toNat (0#32)).set 1 1).length = Core.numBuckets.toNat := by
  rw [length_set, length_replicate]

def stored : BucketMap := ⟨_, length_owners⟩

lemma length_moved : (stored.owners.set 3 1).length = Core.numBuckets.toNat := by
  rw [length_set, stored.length_eq]

def plan : Relocation Nat := ⟨bucketsOf.router stored, bucketsOf.router ⟨_, length_moved⟩, [1], [0]⟩

lemma plan_ok : moveBucket bucketsOf "ix" (fun _ => some "n") (some stored) 3 1 = .ok plan := by
  have howner : stored.owner 3 = some 0 := by decide +kernel
  have hshards : ¬ stored.shards ≤ BitVec.toNat (1 : BitVec 32) := by decide +kernel
  have hbounded : (stored.owners.set 3 1).find? (fun o => Core.numBuckets.toNat ≤ o.toNat) = none := by decide +kernel
  have hdense : (List.range (maxOwner (stored.owners.set 3 1) + 1)).find?
      (fun s => (stored.owners.set 3 1).all (·.toNat ≠ s)) = none := by decide +kernel
  have hfrom : fromOwners (stored.owners.set 3 1) = .ok ⟨_, length_moved⟩ := by
    rw [fromOwners, dif_pos length_moved]
    simp only [hbounded, hdense]
  have hmap : stored.withOwner 3 1 = .ok ⟨_, length_moved⟩ := by
    rw [withOwner, if_neg (by decide), if_neg hshards]
    exact hfrom
  simp only [moveBucket, howner, hmap]
  rfl

section

variable (first second : Nat)

def table : Changelog Nat where
  snapshots := [⟨10, 1, [.upsert (doc first)]⟩, ⟨20, 2, [.upsert (doc second)]⟩]
  increasing := by simp
  distinct := by simp

lemma numbered : Numbered (table first second) := by
  intro s hs
  simp only [table, mem_cons, not_mem_nil, or_false] at hs
  rcases hs with rfl | rfl <;> simp

lemma lastChange_upserts (docs : List (Document Nat)) (k : Nat) :
    lastChange (docs.map (fun d => (d.key, some d))) k =
      (replay (fun _ => none) (docs.map (fun d => (d.key, some d))) k).map some := by
  rw [replay_apply]
  cases h : lastChange (docs.map (fun d => (d.key, some d))) k with
  | none => rfl
  | some v =>
    obtain ⟨d, -, heq⟩ := mem_map.mp (lastChange_mem h)
    obtain ⟨-, rfl⟩ := Prod.mk.inj heq
    rfl

def reader : SourceReads (table first second) where
  streamed id := if id = 10 then [[doc first]] else [[doc first], [doc second]]
  appendFastPath := false
  appendedSince _ _ := []
  streamed_live := by
    intro s hs k
    simp only [table, mem_cons, not_mem_nil, or_false] at hs
    rcases hs with rfl | rfl
    · exact lastChange_upserts [doc first] k
    · exact lastChange_upserts [doc first, doc second] k
  appended_changes h := by cases h

def task : Job Nat := ⟨"t", 100, fun k => toString k⟩

abbrev Engine := listTantivy Nat (Document Nat)

def inserted : HashOrder (Nat × DocOp Nat) := HashOrder.insertion _

def ingests (snapshot : Int) (n : Nat) : List (MoveEvent Nat) :=
  [.triggers 0 snapshot, .sends 0, .stages n inserted, .stages (n + 1) inserted, .acks 0 0 0, .acks 0 1 0, .answers 0]

def events : List (MoveEvent Nat) :=
  [.starts 0 none .old] ++ ingests 10 0 ++ [.builds 1 inserted 10 10, .promotes 1 inserted 10] ++ ingests 20 2 ++
    [.setBucketMap, .starts 0 none .new]

def final : Relocating Engine :=
  events.foldl (Relocating.step (table first second) task plan (reader first second)) (.start (fun _ => 0))

end

lemma drained_lost : (final 0 3).Drained (table 0 3) plan := by
  refine ⟨⟨0, by decide +kernel⟩, ?_⟩
  decide +kernel

lemma drained_kept : (final 3 4).Drained (table 3 4) plan := by
  refine ⟨⟨0, by decide +kernel⟩, ?_⟩
  decide +kernel

lemma apart : KeysApart (table 3 4) task := by
  unfold KeysApart
  decide +kernel

lemma undisturbed : AllAllowed (Relocating.step (table 3 4) task plan (reader 3 4))
    (Relocating.Undisturbed (T := Engine) (table 3 4) plan (reader 3 4)) (.start (fun _ => 0)) events := by
  decide +kernel

end OneBucket

open OneBucket

theorem bucket_move_one_bucket : Numbered (table 3 4) ∧ KeysApart (table 3 4) task ∧
    moveBucket bucketsOf "ix" (fun _ => some "n") (some stored) 3 1 = .ok plan ∧
    (final 3 4).Drained (table 3 4) plan ∧ (final 3 4).Present (table 3 4) plan := by
  have hruns := Runs.foldl .start events undisturbed
  exact ⟨numbered 3 4, apart, plan_ok, drained_kept,
    (bucket_move_keeps_rows (numbered 3 4) apart (fun _ => 0) (fun _ => some "n")).1 "ix" (some stored) 3 1
      plan_ok hruns drained_kept⟩

/-- A key of the moved bucket written after the rebuild goes to the old shard; the empty part takes the new shard to
the head. -/
theorem moved_row_lost : moveBucket bucketsOf "ix" (fun _ => some "n") (some stored) 3 1 = .ok plan ∧
    (final 0 3).Drained (table 0 3) plan ∧
    ((final 0 3).ingest.shards (plan.new.route 3)).shard.live 3 = [] ∧
    stateAt (table 0 3).entries (placeOf (table 0 3) (final 0 3).ingest.head) 3 = some (doc 3) := by
  refine ⟨plan_ok, drained_lost, ?_, ?_⟩
  · decide +kernel
  · decide +kernel

end GrowlerDB.Connector
