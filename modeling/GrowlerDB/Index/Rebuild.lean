import GrowlerDB.Index.ExactlyOnce

namespace GrowlerDB.Index
open Core Lib Replay List CommitBatch Shard Prod

variable {K : Type} [DecidableEq K] {T : Tantivy K (Document K)} {log : Changelog K}
  {endOf : String → SourceCheckpoint} {Q : K → Prop}

/-- A batch for a shard at `c`: it ends at a position of the changelog that its id names, and if the
shard has reached its start it brings the keys of `Q` to its end. -/
structure Feeds (log : Changelog K) (endOf : String → SourceCheckpoint) (Q : K → Prop) (c : WithBot Int)
    (b : CommitBatch K) : Prop where
  hasEnd : log.Has b.checkpoint
  hasFrom : ∀ f, b.fromCheckpoint = some f → log.Has f
  named : endOf b.batchId = b.checkpoint
  boot : c = ⊥ → b.fromCheckpoint = none
  brings : Brings log Q (max (position b.fromCheckpoint) c) (position (some b.checkpoint)) b.changes

/-- A shard whose commits are bootstraps until it has a checkpoint. -/
structure Follows (log : Changelog K) (endOf : String → SourceCheckpoint) (Q : K → Prop) (st : Ingest T) : Prop
    extends Tracks log endOf Q st where
  boots : ∀ r ∈ st.staged, position st.checkpoint = ⊥ → r.fromCheckpoint = none
  writable : st.shard.readOnly = false

variable {c : WithBot Int} {r : StagedRef K}

lemma Covers.feeds (h : Covers log endOf b)
    (hfrom : position b.fromCheckpoint ≤ c) : Feeds log endOf Q c b where
  hasEnd := h.hasEnd
  hasFrom := h.hasFrom
  named := h.named
  boot hbot := by
    cases hf : b.fromCheckpoint with
    | none => rfl
    | some f =>
      obtain ⟨seq, -, hseq⟩ := (h.hasFrom f hf).position
      rw [hf, hseq, hbot] at hfrom
      exact absurd hfrom (WithBot.bot_lt_coe _).not_ge
  brings k _ := ⟨_, le_max_left _ _, h.window k⟩

variable {st : Ingest T}

lemma position_bot (hhas : ∀ c, st.checkpoint = some c → log.Has c) :
    position st.checkpoint = ⊥ ↔ st.checkpoint = none := by
  cases hc : st.checkpoint with
  | none => simp
  | some c =>
    obtain ⟨seq, -, hseq⟩ := (hhas c hc).position
    simp [hseq]

lemma Follows.start (chunk : Nat) : Follows (T := T) log endOf Q ⟨empty chunk, [], ⊥⟩ :=
  ⟨tracks_start chunk, by rintro s ⟨⟩, rfl⟩

section

variable (h : Follows log endOf Q st)
include h

lemma Follows.stage
    (hb : Feeds log endOf Q (position st.checkpoint) b)
    (hr : st.shard.stageBatch order b = .ok r) : Follows log endOf Q { st with staged := r :: st.staged } := by
  obtain ⟨-, hfrom, -⟩ := stageBatch_ok hr
  exact ⟨h.toTracks.stage hb.hasEnd hb.hasFrom hb.named hb.brings hr,
    forall_mem_cons.mpr ⟨fun hbot => hfrom.trans (hb.boot hbot), h.boots⟩, h.writable⟩

lemma Follows.bootstraps (hr : r ∈ st.staged) (hnone : st.checkpoint = none) :
    Bootstraps [r] := by
  intro s hs
  obtain rfl : r = s := mem_singleton.mp (mem_filter.mp (mem_of_head? hs)).1 ▸ rfl
  exact h.boots r hr ((position_bot h.has).mpr hnone)

/-- A commit of one staged batch finds the shard past the batch or leaves it there. -/
lemma Follows.commit_cases (hr : r ∈ st.staged)
    (hp : st.shard.commitPlan [r] = .ok (plan, n)) :
    ((st.shard.exec plan).redb.checkpoint = st.checkpoint ∧ position (some r.checkpoint) ≤ position st.checkpoint) ∨
      (st.shard.exec plan).redb.checkpoint = some r.checkpoint := by
  obtain ⟨m, hm, -⟩ := h.docs
  obtain ⟨applied, ha, -, hredb⟩ := hm.commit hp
  have hok := h.staged r hr
  rcases applicable_single ha with ⟨rfl, hskip | hno⟩ | ⟨rfl, -⟩
  · exact .inl ⟨congrArg Redb.checkpoint hredb, hok.skipped hskip⟩
  · exact .inl ⟨congrArg Redb.checkpoint hredb, (continuity_noOp h.has hok.hasEnd hok.hasFrom hno).1⟩
  · exact .inr (hm.commit_one hp ha).2.1

lemma Follows.commit (hr : r ∈ st.staged)
    {shard : Shard T} {n : Nat} (hok : st.shard.commitStaged [r] = .ok (shard, n)) :
    Follows log endOf Q { st with shard := shard } ∧ position st.checkpoint ≤ position shard.redb.checkpoint ∧
      position (some r.checkpoint) ≤ position shard.redb.checkpoint ∧
      (shard.redb.checkpoint = st.checkpoint ∨ shard.redb.checkpoint = some r.checkpoint) := by
  obtain ⟨⟨plan, _⟩, hp, hexec⟩ := map_ok hok
  obtain ⟨rfl, rfl⟩ := mk.inj hexec
  obtain ⟨htracks, hle⟩ := h.toTracks.commit (cons_subset.mpr ⟨hr, nil_subset _⟩) (h.bootstraps hr) hp
  refine ⟨⟨htracks, fun r' hr' hbot => h.boots r' hr' (le_bot_iff.mp (hbot ▸ hle)), h.writable⟩, hle, ?_⟩
  rcases h.commit_cases hr hp with ⟨hcp, hbehind⟩ | hcp
  · exact ⟨hbehind.trans hle, .inl hcp⟩
  · exact ⟨hcp ▸ le_rfl, .inr hcp⟩

end

lemma commitEnd_le (s : Shard T) (r : StagedRef K) : commitEnd s [r] ≤ position (some r.checkpoint) := by
  unfold commitEnd
  simp only [applicable]
  split_ifs
  · exact bot_le
  · cases continuity s.redb.checkpoint r.fromCheckpoint r.checkpoint with
    | apply => exact le_rfl
    | noOp => exact bot_le
    | gap => exact bot_le

section

variable (h : Follows log endOf Q st)
include h

lemma Follows.crash (hr : r ∈ st.staged)
    (hp : st.shard.commitPlan [r] = .ok (plan, n)) (stop : Nat) : Follows log endOf Q
        ⟨st.shard.crash plan stop, [], max st.furthest (commitEnd st.shard [r])⟩ ∧
      position st.checkpoint ≤ position (st.shard.crash plan stop).redb.checkpoint ∧
      ((st.shard.crash plan stop).redb.checkpoint = st.checkpoint ∨
        (st.shard.crash plan stop).redb.checkpoint = some r.checkpoint) := by
  obtain ⟨htracks, hle⟩ := h.toTracks.crash (cons_subset.mpr ⟨hr, nil_subset _⟩) (h.bootstraps hr) hp stop
  refine ⟨⟨htracks, fun r hr => (nomatch hr), h.writable⟩, hle, ?_⟩
  obtain ⟨m, hm, -⟩ := h.docs
  rcases hm.crash hp stop with ⟨applied, cs, -, -, -, hredb⟩ | hdone
  · exact .inl (congrArg Redb.checkpoint hredb)
  · rw [hdone]
    exact (h.commit_cases hr hp).imp_left And.left

lemma Follows.stage_ok (hend : log.Has b.checkpoint)
    (hhas : ∀ f, b.fromCheckpoint = some f → log.Has f)
    (hfrom : position b.fromCheckpoint ≤ position st.checkpoint) (order : HashOrder (K × DocOp K)) :
    ∃ r, st.shard.stageBatch order b = .ok r := by
  have hgap := continuity_reached h.has hend hhas hfrom
  unfold stageBatch
  by_cases hrec : (st.shard.redb.batchSnapshot b.batchId).isSome
  · rw [if_pos hrec]
    exact ⟨_, rfl⟩
  · rw [if_neg hrec]
    cases hc : continuity st.shard.redb.checkpoint b.fromCheckpoint b.checkpoint with
    | gap => exact absurd hc hgap
    | noOp => exact ⟨_, rfl⟩
    | apply => exact ⟨_, rfl⟩

lemma Follows.commit_ok (hend : log.Has r.checkpoint)
    (hhas : ∀ f, r.fromCheckpoint = some f → log.Has f)
    (hfrom : position r.fromCheckpoint ≤ position st.checkpoint) :
    ∃ shard n, st.shard.commitStaged [r] = .ok (shard, n) := by
  have hgap := continuity_reached h.has hend hhas hfrom
  obtain ⟨applied, ha⟩ : ∃ applied, applicable st.shard.redb.checkpoint [r] = .ok applied := by
    simp only [applicable]
    split_ifs
    · exact ⟨_, rfl⟩
    · cases hc : continuity st.shard.redb.checkpoint r.fromCheckpoint r.checkpoint with
      | gap => exact absurd hc hgap
      | noOp => exact ⟨_, rfl⟩
      | apply => exact ⟨_, rfl⟩
  rw [commitStaged, commitPlan, h.writable, ha]
  simp only [Bool.false_eq_true, if_false]
  split
  · exact ⟨_, _, rfl⟩
  · split_ifs <;> exact ⟨_, _, rfl⟩

end

open Option

section

variable {A : Type}

def chunksAux (n : Nat) : Nat → List A → List (List A)
  | 0, _ => []
  | _ + 1, [] => []
  | fuel + 1, a :: l => (a :: l).take n :: chunksAux n fuel ((a :: l).drop n)

def chunks (n : Nat) (l : List A) : List (List A) := chunksAux n l.length l

lemma flatten_chunksAux (hn : 0 < n) (fuel : Nat) (l : List A) (hfuel : l.length ≤ fuel) :
    (chunksAux n fuel l).flatten = l := by
  induction fuel generalizing l with
  | zero =>
    obtain rfl := length_eq_zero_iff.mp (Nat.le_zero.mp hfuel)
    rfl
  | succ fuel ih =>
    cases l with
    | nil => rfl
    | cons a l =>
      have hdrop : ((a :: l).drop n).length ≤ fuel := by
        rw [length_drop, length_cons]
        rw [length_cons] at hfuel
        omega
      rw [chunksAux, flatten_cons, ih _ hdrop, take_append_drop]

lemma flatten_chunks (hn : 0 < n) (l : List A) : (chunks n l).flatten = l :=
  flatten_chunksAux hn l.length l le_rfl

end

variable {K : Type}

def reindexCommitChunk : Nat := 10000

def reindexCommit (docs : List (Document K)) (checkpoint sequence : Int) (seq : Nat) : CommitBatch K where
  ops := docs.map .upsert
  checkpoint := ⟨checkpoint, if 0 < sequence then some sequence else none⟩
  batchId := "reindex-" ++ toString checkpoint ++ "-" ++ toString seq
  fromCheckpoint := none
  safeCheckpoint := none

def commitChunks (empty : CommitBatch K) (commit : Nat → List (Document K) → CommitBatch K) :
    List (List (Document K)) → List (CommitBatch K)
  | [] => [empty]
  | docs :: rest => (docs :: rest).mapIdx commit

def populateBatches (owns : K → Bool) (checkpoint sequence : Int) (stream : List (List (Document K))) :
    List (CommitBatch K) :=
  commitChunks (reindexCommit [] checkpoint sequence 0)
    (fun i docs => reindexCommit docs checkpoint sequence (i + 1))
    (stream.flatMap (fun docs => chunks reindexCommitChunk (docs.filter (fun d => owns d.key))))

def catchUpCommit (docs : List (Document K)) (head : SourceCheckpoint) (suffix : String) : CommitBatch K where
  ops := docs.map .upsert
  checkpoint := head
  batchId := "reindex-catchup-" ++ toString head.snapshotId ++ "-" ++ suffix
  fromCheckpoint := none
  safeCheckpoint := none

def catchUpBatches (owns : K → Bool) (head : SourceCheckpoint) (appended : List (Document K)) :
    List (CommitBatch K) :=
  commitChunks (catchUpCommit [] head "cp") (fun i docs => catchUpCommit docs head (toString i))
    (chunks reindexCommitChunk (appended.filter (fun d => owns d.key)))

section

variable {empty : CommitBatch K} {commit : Nat → List (Document K) → CommitBatch K} {cs : List (List (Document K))}

lemma commitChunks_ne_nil : commitChunks empty commit cs ≠ [] := by
  cases cs <;> simp [commitChunks]

lemma commitChunks_all {P : CommitBatch K → Prop} (hempty : P empty) (hcommit : ∀ i docs, P (commit i docs)) :
    ∀ b ∈ commitChunks empty commit cs, P b := by
  intro b hb
  cases cs with
  | nil => exact mem_singleton.mp hb ▸ hempty
  | cons docs rest =>
    obtain ⟨i, -, rfl⟩ := mem_mapIdx.mp hb
    exact hcommit i _

lemma commitChunks_changes (hempty : empty.ops = []) (hcommit : ∀ i docs, (commit i docs).ops = docs.map .upsert) :
    (commitChunks empty commit cs).flatMap changes = cs.flatten.map (fun d => (d.key, some d)) := by
  have hchanges : ∀ i docs, (commit i docs).changes = docs.map (fun d => (d.key, some d)) := by
    intro i docs
    rw [changes, hcommit, List.map_map]
    rfl
  cases cs with
  | nil => simp [commitChunks, changes, hempty]
  | cons docs rest =>
    rw [commitChunks, mapIdx_eq_zipIdx_map, flatMap_map]
    simp only [hchanges]
    rw [← flatMap_map fst, zipIdx_map_fst, map_flatten, flatMap_def]

lemma commitChunks_nodup {id : Nat → String} (hid : ∀ i docs, (commit i docs).batchId = id i)
    (hinj : Function.Injective id) : ((commitChunks empty commit cs).map batchId).Nodup := by
  cases cs with
  | nil => exact nodup_singleton _
  | cons docs rest =>
    rw [commitChunks, List.mapIdx_eq_zipIdx_map, List.map_map]
    have heq : batchId ∘ (fun x : List (Document K) × Nat => commit x.2 x.1) = id ∘ snd :=
      funext fun x => hid x.2 x.1
    rw [heq, ← List.map_map, List.zipIdx_map_snd]
    exact (nodup_range' ..).map hinj

end

variable [DecidableEq K] {T : Tantivy K (Document K)}

def Shard.write (order : HashOrder (K × DocOp K)) (s : Shard T) (b : CommitBatch K) :
    Except StoreError (Shard T) :=
  (s.writePlan order b).map (fun p => s.exec p.1)

def Shard.writeAll (order : HashOrder (K × DocOp K)) (bs : List (CommitBatch K)) (s : Shard T) :
    Except StoreError (Shard T) :=
  bs.foldlM (Shard.write order) s

/-- A streamed read of a snapshot has the rows live in it; in an append-only table the files added since have its
later changes. -/
structure SourceReads (log : Changelog K) where
  streamed : Int → List (List (Document K))
  appendFastPath : Bool
  appendedSince : Option Int → Int → List (Document K)
  streamed_live : ∀ s ∈ log.snapshots, ∀ k,
    lastChange ((streamed s.snapshotId).flatten.map (fun d => (d.key, some d))) k =
      (stateAt log.entries (position (some s.checkpoint)) k).map some
  appended_changes : appendFastPath = true → ∀ s ∈ log.snapshots, ∀ t ∈ log.snapshots,
    s.sequenceNumber ≤ t.sequenceNumber → ∀ k,
    lastChange ((appendedSince (some s.snapshotId) t.snapshotId).map (fun d => (d.key, some d))) k =
      lastChange (between log.entries (position (some s.checkpoint)) (position (some t.checkpoint))) k

variable {log : Changelog K}

section

variable (reads : SourceReads log) (order : HashOrder (K × DocOp K)) (owns : K → Bool)

def buildGeneration (chunk : Nat) (stamp scanned : SourceSnapshot K) : Except StoreError (Shard T) :=
  (Shard.empty chunk).writeAll order
    (populateBatches owns stamp.snapshotId stamp.sequenceNumber (reads.streamed scanned.snapshotId))

def catchUp (head : SourceSnapshot K) (staging : Shard T) : Except StoreError (Shard T) :=
  staging.writeAll order (catchUpBatches owns head.checkpoint
    (reads.appendedSince (staging.redb.checkpoint.map SourceCheckpoint.snapshotId) head.snapshotId))

end

section

variable {m : K → Option (Document K)} {order : HashOrder (K × DocOp K)} {c : SourceCheckpoint}

/-- Commits at one checkpoint that is not behind the shard, none of them recorded before, are all
replayed. -/
lemma Shard.Reflects.writeAll {bs : List (CommitBatch K)} {s s' : Shard T} (h : s.Reflects m)
    (hrun : s.writeAll order bs = .ok s') (hnodup : (bs.map batchId).Nodup)
    (hnew : ∀ b ∈ bs, b.batchId ∉ s.redb.batchKeys.map fst)
    (hfrom : ∀ b ∈ bs, b.fromCheckpoint = none ∧ b.checkpoint = c) (hself : c.lineageCmp c ≠ some .lt)
    (hstart : ∀ c', s.redb.checkpoint = some c' → c.lineageCmp c' ≠ some .lt) :
    s'.Reflects (replay m (bs.flatMap changes)) ∧
      s'.redb.checkpoint = (if bs = [] then s.redb.checkpoint else some c) ∧
      (∀ id ∈ s'.redb.batchKeys.map fst, id ∈ bs.map batchId ∨
        id ∈ s.redb.batchKeys.map fst) ∧ s'.readOnly = s.readOnly := by
  induction bs generalizing s m with
  | nil =>
    cases hrun
    exact ⟨h, rfl, fun id hid => .inr hid, rfl⟩
  | cons b bs ih =>
    obtain ⟨s₁, hwrite, hrest⟩ := bind_ok hrun
    obtain ⟨⟨plan, n⟩, hplan, rfl⟩ := map_ok hwrite
    obtain ⟨hfb, hcb⟩ := hfrom b mem_cons_self
    obtain ⟨href, hcp, hids⟩ := h.write_fresh hplan (hnew b mem_cons_self) hfb (hcb ▸ hstart)
    obtain ⟨hnotin, hnodup⟩ := nodup_cons.mp hnodup
    have hnew' : ∀ b' ∈ bs, b'.batchId ∉ (s.exec plan).redb.batchKeys.map fst := by
      intro b' hb' hin
      rcases hids _ hin with heq | hold
      · exact hnotin (heq ▸ mem_map_of_mem hb')
      · exact hnew b' (mem_cons_of_mem _ hb') hold
    have hstart' : ∀ c', (s.exec plan).redb.checkpoint = some c' → c.lineageCmp c' ≠ some .lt := by
      intro c' hc'
      obtain rfl : c = c' := some.inj ((hcb ▸ hcp).symm.trans hc')
      exact hself
    obtain ⟨href', hcp', hids', hro⟩ := ih href hrest hnodup hnew'
      (fun b' hb' => hfrom b' (mem_cons_of_mem _ hb')) hstart'
    refine ⟨?_, ?_, ?_, hro⟩
    · rw [flatMap_cons, replay_append]
      exact href'
    · rw [hcp', hcp, hcb]
      simp
    · intro id hid
      rcases hids' id hid with hin | hin
      · exact .inl (mem_cons_of_mem _ hin)
      · rcases hids id hin with rfl | hin
        · exact .inl mem_cons_self
        · exact .inr hin

end

variable {owns : K → Bool} {order : HashOrder (K × DocOp K)} {stamp seen head : SourceSnapshot K} {s s' : Shard T}

/-- A generation of a shard at the checkpoint of `stamp`, with the rows of the snapshot `seen` that it
owns. -/
structure Rebuilt (log : Changelog K) (owns : K → Bool) (stamp seen : SourceSnapshot K) (s : Shard T) :
    Prop where
  docs : ∃ m, s.Reflects m ∧ ∀ k, owns k = true → m k = stateAt log.entries (position (some seen.checkpoint)) k
  stamped : s.redb.checkpoint = some stamp.checkpoint
  ids : ∀ id ∈ s.redb.batchKeys.map Prod.fst, '#' ∉ id.toList
  writable : s.readOnly = false

lemma lastChange_kept (docs : List (Document K)) (hk : owns k) :
    lastChange ((docs.filter (fun d => owns d.key)).map (fun d => (d.key, some d))) k =
      lastChange (docs.map (fun d => (d.key, some d))) k := by
  have hfilter : (docs.filter (fun d => owns d.key)).map (fun d => (d.key, some d)) =
      (docs.map (fun d => (d.key, some d))).filter (fun c => owns c.1) := by
    rw [List.filter_map]
    rfl
  rw [hfilter, lastChange_filter, hk, if_pos rfl]

lemma lineageCmp_self (c : SourceCheckpoint) : c.lineageCmp c ≠ some .lt := by
  simp [SourceCheckpoint.lineageCmp, SourceCheckpoint.samePosition]

lemma reindexId_inj (checkpoint : Int) :
    Function.Injective (fun i : Nat => "reindex-" ++ toString checkpoint ++ "-" ++ toString (i + 1)) := by
  intro i j h
  have := eq_of_repr_eq ((String.append_right_inj _).mp h)
  omega

lemma not_mem_reindexId {c : Char} (hword : c ∉ "reindex-".toList) (hdigit : c.isDigit = false)
    (checkpoint : Int) (n : Nat) :
    c ∉ ("reindex-" ++ toString checkpoint ++ "-" ++ toString n).toList := by
  have hsign : c ≠ '-' := fun h => hword (h ▸ by decide)
  simp only [String.toList_append, mem_append, not_or]
  exact ⟨⟨⟨hword, not_mem_toString hdigit hsign _⟩, by simpa using hsign⟩, not_mem_toString hdigit hsign (n : Int)⟩

omit [DecidableEq K] in
lemma populateBatches_changes (checkpoint sequence : Int) (stream : List (List (Document K))) :
    (populateBatches owns checkpoint sequence stream).flatMap changes =
      (stream.flatten.filter (fun d => owns d.key)).map (fun d => (d.key, some d)) := by
  rw [populateBatches, commitChunks_changes rfl (fun _ _ => rfl)]
  congr 1
  rw [List.flatMap_def, List.flatten_flatten, List.map_map, List.filter_flatten]
  refine congrArg _ (List.map_congr_left fun docs _ => ?_)
  exact flatten_chunks (by decide) _

omit [DecidableEq K] in
lemma catchUpBatches_changes (head : SourceCheckpoint) (appended : List (Document K)) :
    (catchUpBatches owns head appended).flatMap changes =
      (appended.filter (fun d => owns d.key)).map (fun d => (d.key, some d)) := by
  rw [catchUpBatches, commitChunks_changes rfl (fun _ _ => rfl), flatten_chunks (by decide)]

/-- A build leaves the rows of the snapshot it read at the checkpoint of the one it was stamped with. -/
lemma buildGeneration_rebuilt {reads : SourceReads log} {chunk : Nat} (hseen : seen ∈ log.snapshots)
    (hpos : 0 < stamp.sequenceNumber) (h : buildGeneration reads order owns chunk stamp seen = .ok s) :
    Rebuilt log owns stamp seen s ∧ ∀ id ∈ s.redb.batchKeys.map fst, 'c' ∉ id.toList := by
  have hcp : ∀ docs n, (reindexCommit (K := K) docs stamp.snapshotId stamp.sequenceNumber n).checkpoint =
      stamp.checkpoint := by
    intro docs n
    rw [reindexCommit, if_pos hpos, SourceSnapshot.checkpoint]
  have hempty : (empty chunk : Shard T).Reflects (fun _ => none) := ⟨rfl, holds_empty⟩
  obtain ⟨href, hstamped, hids, hro⟩ := hempty.writeAll h
    (commitChunks_nodup (fun _ _ => rfl) (reindexId_inj stamp.snapshotId))
    (fun b _ hb => by cases hb)
    (commitChunks_all (P := fun b => b.fromCheckpoint = none ∧ b.checkpoint = stamp.checkpoint)
      ⟨rfl, hcp _ _⟩ (fun _ _ => ⟨rfl, hcp _ _⟩))
    (lineageCmp_self _) (fun c' hc' => by cases hc')
  have hname : ∀ c : Char, c ∉ "reindex-".toList → c.isDigit = false →
      ∀ id ∈ s.redb.batchKeys.map fst, c ∉ id.toList := by
    intro c hword hdigit id hid
    rcases hids id hid with hid | hid
    · obtain ⟨b, hb, rfl⟩ := mem_map.mp hid
      refine commitChunks_all (P := fun b => c ∉ b.batchId.toList) ?_ (fun i docs => ?_) b hb
      · exact not_mem_reindexId hword hdigit _ _
      · exact not_mem_reindexId hword hdigit _ _
    · cases hid
  refine ⟨⟨⟨_, href, fun k hk => ?_⟩, ?_, hname '#' (by decide) (by decide), hro⟩, hname 'c' (by decide) (by decide)⟩
  · rw [replay_apply, populateBatches_changes, lastChange_kept _ hk, reads.streamed_live seen hseen]
    cases stateAt log.entries (position (some seen.checkpoint)) k <;> rfl
  · rw [hstamped, populateBatches, if_neg commitChunks_ne_nil]

lemma Rebuilt.catchUp {reads : SourceReads log} (h : Rebuilt log owns stamp seen s)
    (hplain : ∀ id ∈ s.redb.batchKeys.map fst, 'c' ∉ id.toList) (hfast : reads.appendFastPath)
    (hstamp : stamp ∈ log.snapshots) (hhead : head ∈ log.snapshots)
    (hseen : stamp.sequenceNumber ≤ seen.sequenceNumber) (hlate : seen.sequenceNumber ≤ head.sequenceNumber)
    (hrun : Index.catchUp reads order owns head s = .ok s') : Rebuilt log owns head head s' := by
  have hid : ∀ (n : Int) (suffix : String), 'c' ∈ ("reindex-catchup-" ++ toString n ++ "-" ++ suffix).toList := by
    intro n suffix
    simp only [String.toList_append, mem_append]
    exact .inl (.inl (.inl (by decide)))
  obtain ⟨m, hm, hdocs⟩ := h.docs
  have hpos : position (some stamp.checkpoint) ≤ position (some seen.checkpoint) := WithBot.coe_le_coe.mpr hseen
  have hpos' : position (some seen.checkpoint) ≤ position (some head.checkpoint) := WithBot.coe_le_coe.mpr hlate
  have hstart : ∀ c', s.redb.checkpoint = some c' → head.checkpoint.lineageCmp c' ≠ some .lt := by
    intro c' hc' hlt
    obtain rfl : stamp.checkpoint = c' := some.inj (h.stamped.symm.trans hc')
    have hhas : log.Has head.checkpoint ∧ log.Has stamp.checkpoint := ⟨⟨head, hhead, rfl⟩, ⟨stamp, hstamp, rfl⟩⟩
    obtain ⟨x, y, hx, hy, hcmp⟩ := Changelog.lineageCmp_eq hhas.1 hhas.2
    rw [hcmp, some.injEq, compare_lt_iff_lt] at hlt
    have hle : (y : WithBot Int) ≤ x := hx ▸ hy ▸ hpos.trans hpos'
    exact absurd hlt (not_lt.mpr (WithBot.coe_le_coe.mp hle))
  obtain ⟨href, hstamped, hids, hro⟩ := hm.writeAll (c := head.checkpoint) hrun
    (commitChunks_nodup (fun _ _ => rfl) fun i j hij => eq_of_repr_eq ((String.append_right_inj _).mp hij))
    (commitChunks_all (P := fun b => b.batchId ∉ s.redb.batchKeys.map fst)
      (fun hin => hplain _ hin (hid _ _)) (fun _ _ hin => hplain _ hin (hid _ _)))
    (commitChunks_all (P := fun b => b.fromCheckpoint = none ∧ b.checkpoint = head.checkpoint)
      ⟨rfl, rfl⟩ (fun _ _ => ⟨rfl, rfl⟩))
    (lineageCmp_self _) hstart
  refine ⟨⟨_, href, fun k hk => ?_⟩, ?_, ?_, hro.trans h.writable⟩
  · rw [replay_apply, catchUpBatches_changes, lastChange_kept _ hk, h.stamped, map_some, SourceSnapshot.checkpoint,
      reads.appended_changes hfast stamp hstamp head hhead (hseen.trans hlate)]
    cases hlast : lastChange (between log.entries (position (some stamp.checkpoint))
        (position (some head.checkpoint))) k with
    | some v => exact (stateAt_of_lastChange log.entries_ordered hlast).symm
    | none => exact (hdocs k hk).trans (stateAt_of_quiet log.entries_ordered hpos hpos' hlast).symm
  · rw [hstamped, catchUpBatches, if_neg commitChunks_ne_nil]
  · intro id hin
    rcases hids id hin with hin | hin
    · obtain ⟨b, hb, rfl⟩ := mem_map.mp hin
      refine commitChunks_all (P := fun b => '#' ∉ b.batchId.toList) ?_ (fun i _ => ?_) b hb
      · simp only [catchUpCommit, String.toList_append, mem_append, not_or]
        exact ⟨⟨⟨by decide, not_mem_toString (by decide) (by decide) _⟩, by decide⟩, by decide⟩
      · simp only [catchUpCommit, String.toList_append, mem_append, not_or]
        exact ⟨⟨⟨by decide, not_mem_toString (by decide) (by decide) _⟩, by decide⟩,
          not_mem_toString (by decide) (by decide) (i : Int)⟩
    · exact h.ids id hin

end GrowlerDB.Index
