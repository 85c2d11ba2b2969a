import GrowlerDB.Index.Shard

namespace GrowlerDB.Index
open Core Lib List Shard IndexWrite StagedRef Prod

/-- A checkpoint of the lineage in which a snapshot has its sequence number. -/
def Sequenced (seqOf : Int → Int) (c : SourceCheckpoint) : Prop := c.sequenceNumber = some (seqOf c.snapshotId)

namespace Redb

def ids (r : Redb) : List String := r.batchKeys.map Prod.fst

/-- Both tables have the same batches, each under the sequence number of its end. -/
structure TablesAgree (endOf : String → SourceCheckpoint) (r : Redb) : Prop where
  same : ∀ id, id ∈ r.ids ↔ ∃ seq, (seq, id) ∈ r.batchCkpt
  named : ∀ seq id, (seq, id) ∈ r.batchCkpt → (endOf id).sequenceNumber = some seq

def recordBatches {K : Type} (r : Redb) (committed : List (StagedRef K)) (snapshot : Nat) : Redb :=
  committed.foldl (recordBatch snapshot) r

variable {K : Type} {r : Redb} {id : String} {s : StagedRef K} {n : Nat} {committed : List (StagedRef K)}
  {endOf : String → SourceCheckpoint}

lemma batchSnapshot_isSome_iff : (r.batchSnapshot id).isSome ↔ id ∈ r.ids := by
  refine ⟨batchSnapshot_mem, fun h => ?_⟩
  rw [batchSnapshot, Option.isSome_iff_ne_none, ne_eq, lookup_eq_none_iff]
  intro hnone
  obtain ⟨e, he, rfl⟩ := mem_map.mp h
  simpa using hnone e he

lemma mem_ids_recordBatch : id ∈ (r.recordBatch n s).ids ↔ id = s.batchId ∨ id ∈ r.ids := by
  simp only [ids, recordBatch, List.map_cons, List.mem_cons, List.mem_map, List.mem_filter, bne_iff_ne]
  by_cases hid : id = s.batchId
  · simp [hid]
  · refine or_congr_right (exists_congr fun e => ⟨fun h => ⟨h.1.1, h.2⟩, fun h => ⟨⟨h.1, ?_⟩, h.2⟩⟩)
    rwa [h.2]

lemma mem_ids_recordBatches :
    id ∈ (r.recordBatches committed n).ids ↔ (∃ s ∈ committed, s.batchId = id) ∨ id ∈ r.ids := by
  induction committed generalizing r with
  | nil => simp [recordBatches]
  | cons s committed ih =>
    change id ∈ ((r.recordBatch n s).recordBatches committed n).ids ↔ _
    rw [ih, mem_ids_recordBatch, List.exists_mem_cons_iff, or_assoc, or_left_comm, eq_comm]

lemma recordBatches_elsewhere (n : Nat) (r : Redb) (committed : List (StagedRef K)) :
    (r.recordBatches committed n).checkpoint = r.checkpoint ∧ (r.recordBatches committed n).snapshot = r.snapshot := by
  induction committed generalizing r with
  | nil => exact ⟨rfl, rfl⟩
  | cons s committed ih => exact ih (r.recordBatch n s)

lemma mem_batchCkpt_recordBatch {q : Int} (hq : s.checkpoint.sequenceNumber = some q) {e : Int × String} :
    e ∈ (r.recordBatch n s).batchCkpt ↔ e = (q, s.batchId) ∨ e ∈ r.batchCkpt := by
  simp only [recordBatch, hq, mem_cons, mem_filter, bne_iff_ne]
  by_cases he : e = (q, s.batchId)
  · simp [he]
  · simp [he]

lemma mem_batchCkpt_prune {floor : Int} {e : Int × String} :
    e ∈ (r.pruneBatchesAtOrBelow floor).batchCkpt ↔ e ∈ r.batchCkpt ∧ floor < e.1 := by
  simp only [pruneBatchesAtOrBelow, mem_filter]
  refine and_congr_right fun he => ?_
  simp [mem_filter, he]

variable (h : r.TablesAgree endOf)
include h

lemma TablesAgree.recordBatch {seqOf : Int → Int} (hs : Sequenced seqOf s.checkpoint)
    (hname : endOf s.batchId = s.checkpoint) : (r.recordBatch n s).TablesAgree endOf := by
  constructor
  · intro id
    simp only [mem_ids_recordBatch, mem_batchCkpt_recordBatch hs, Prod.mk.injEq]
    constructor
    · rintro (rfl | hid)
      · exact ⟨_, .inl ⟨rfl, rfl⟩⟩
      · obtain ⟨seq, hseq⟩ := (h.same id).mp hid
        exact ⟨seq, .inr hseq⟩
    · rintro ⟨seq, ⟨-, rfl⟩ | hseq⟩
      · exact .inl rfl
      · exact .inr ((h.same id).mpr ⟨seq, hseq⟩)
  · intro seq id hmem
    rcases (mem_batchCkpt_recordBatch hs).mp hmem with heq | hold
    · obtain ⟨rfl, rfl⟩ := Prod.mk.inj heq
      rwa [hname]
    · exact h.named seq id hold

lemma TablesAgree.recordBatches {seqOf : Int → Int}
    (hs : ∀ s ∈ committed, Sequenced seqOf s.checkpoint ∧ endOf s.batchId = s.checkpoint) :
    (r.recordBatches committed n).TablesAgree endOf := by
  induction committed generalizing r with
  | nil => exact h
  | cons s committed ih =>
    obtain ⟨hseq, hname⟩ := hs s mem_cons_self
    exact ih (h.recordBatch hseq hname) fun t ht => hs t (mem_cons_of_mem _ ht)

lemma TablesAgree.mem_ids_prune {floor : Int} : id ∈ (r.pruneBatchesAtOrBelow floor).ids ↔
      id ∈ r.ids ∧ ¬ ∃ seq, (endOf id).sequenceNumber = some seq ∧ seq ≤ floor := by
  have hstale : id ∈ (r.batchCkpt.filter (·.1 ≤ floor)).map snd ↔
      ∃ seq, (seq, id) ∈ r.batchCkpt ∧ seq ≤ floor := by
    simp [List.mem_map, List.mem_filter]
  have hids : id ∈ (r.pruneBatchesAtOrBelow floor).ids ↔
      id ∈ r.ids ∧ id ∉ (r.batchCkpt.filter (·.1 ≤ floor)).map snd := by
    simp only [ids, pruneBatchesAtOrBelow, List.mem_map, List.mem_filter]
    constructor
    · rintro ⟨e, ⟨he, hkeep⟩, rfl⟩
      exact ⟨⟨e, he, rfl⟩, by simpa using hkeep⟩
    · rintro ⟨⟨e, he, rfl⟩, hkeep⟩
      exact ⟨e, ⟨he, by simpa using hkeep⟩, rfl⟩
  rw [hids, hstale]
  refine and_congr_right fun hid => not_congr ⟨?_, ?_⟩
  · rintro ⟨seq, hmem, hle⟩
    exact ⟨seq, h.named seq id hmem, hle⟩
  · rintro ⟨seq, hseq, hle⟩
    obtain ⟨seq', hmem⟩ := (h.same id).mp hid
    obtain rfl := Option.some.inj ((h.named seq' id hmem).symm.trans hseq)
    exact ⟨seq', hmem, hle⟩

lemma TablesAgree.prune (floor : Int) :
    (r.pruneBatchesAtOrBelow floor).TablesAgree endOf := by
  refine ⟨fun id => ?_, fun seq id hmem => h.named seq id (mem_batchCkpt_prune.mp hmem).1⟩
  rw [h.mem_ids_prune]
  constructor
  · rintro ⟨hid, hkeep⟩
    obtain ⟨seq, hmem⟩ := (h.same id).mp hid
    refine ⟨seq, mem_batchCkpt_prune.mpr ⟨hmem, ?_⟩⟩
    by_contra hle
    exact hkeep ⟨seq, h.named seq id hmem, not_lt.mp hle⟩
  · rintro ⟨seq, hmem⟩
    obtain ⟨hmem, hlt⟩ := mem_batchCkpt_prune.mp hmem
    refine ⟨(h.same id).mpr ⟨seq, hmem⟩, ?_⟩
    rintro ⟨seq', hseq', hle⟩
    obtain rfl := Option.some.inj ((h.named seq id hmem).symm.trans hseq')
    exact absurd hle (not_le.mpr hlt)

end Redb

lemma Sequenced.position (h : Sequenced seqOf c) : position (some c) = (seqOf c.snapshotId : WithBot Int) := by
  rw [Core.position, Option.bind_some, h]
  rfl

lemma Sequenced.lineageCmp (he : Sequenced seqOf e) (hc : Sequenced seqOf c) :
    e.lineageCmp c = some (compare (seqOf e.snapshotId) (seqOf c.snapshotId)) := by
  unfold SourceCheckpoint.lineageCmp SourceCheckpoint.samePosition
  by_cases hid : e.snapshotId = c.snapshotId
  · simp [hid]
  · simp only [beq_iff_eq, hid, if_false]
    rw [he, hc]

lemma continuity_behind (hc : Sequenced seqOf c) (he : Sequenced seqOf e)
    (h : position (some e) < position (some c)) (fromCp : Option SourceCheckpoint) :
    continuity (some c) fromCp e = .noOp := by
  rw [he.position, hc.position, WithBot.coe_lt_coe] at h
  simp only [continuity, he.lineageCmp hc, compare_lt_iff_lt.mpr h]

lemma continuity_forward (hc : ∀ c, current = some c → Sequenced seqOf c) (he : Sequenced seqOf e)
    (h : continuity current fromCp e = .apply) : position current ≤ position (some e) := by
  cases current with
  | none => exact bot_le
  | some c =>
    by_contra hlt
    simp [continuity_behind (hc c rfl) he (not_le.mp hlt)] at h

namespace Shard
variable {K : Type}

lemma applicable_forward
    (h : applicable pos staged = .ok applied) (hpos : ∀ c, pos = some c → Sequenced seqOf c)
    (hs : ∀ s ∈ staged, Sequenced seqOf s.checkpoint) :
    applied ⊆ staged ∧ ∀ last, applied.getLast? = some last → position pos ≤ position (some last.checkpoint) ∧
      ∀ s ∈ applied, position (some s.checkpoint) ≤ position (some last.checkpoint) := by
  induction staged generalizing pos applied with
  | nil =>
    cases h
    exact ⟨List.Subset.refl _, fun _ hl => (by cases hl)⟩
  | cons s rest ih =>
    have hrest := fun t ht => hs t (mem_cons_of_mem _ ht)
    have hskip : ∀ {applied'}, applicable pos rest = .ok applied' → applied' = applied →
        applied ⊆ s :: rest ∧ ∀ last, applied.getLast? = some last → position pos ≤ position (some last.checkpoint) ∧
          ∀ s ∈ applied, position (some s.checkpoint) ≤ position (some last.checkpoint) := by
      rintro applied' hr rfl
      obtain ⟨hsub, hlast⟩ := ih hr hpos hrest
      exact ⟨fun t ht => mem_cons_of_mem _ (hsub ht), hlast⟩
    rw [applicable] at h
    split at h
    · exact hskip h rfl
    · split at h
      · rename_i happly
        cases hr : applicable (some s.checkpoint) rest with
        | error e =>
          rw [hr] at h
          cases h
        | ok later =>
          rw [hr] at h
          cases h
          have hend := hs s mem_cons_self
          have hstep := continuity_forward hpos hend happly
          obtain ⟨hsub, hlast⟩ := ih hr (fun c hc => Option.some.inj hc ▸ hend) hrest
          refine ⟨cons_subset_cons s hsub, fun last hl => ?_⟩
          cases later with
          | nil =>
            obtain rfl : s = last := by simpa using hl
            exact ⟨hstep, fun t ht => by rw [mem_singleton.mp ht]⟩
          | cons t later =>
            obtain ⟨hle, hall⟩ := hlast last (by simpa [List.getLast?_cons_cons] using hl)
            refine ⟨hstep.trans hle, fun u hu => ?_⟩
            rcases mem_cons.mp hu with rfl | hu
            · exact hle
            · exact hall u hu
      · exact hskip h rfl
      · cases h

end Shard

open Lib.Replay

variable {n : Nat}

section
variable {K : Type} [DecidableEq K] {T : Tantivy K (Document K)}

section

variable (docs : K → List (Document K))

def applyOp (op : DocOp K) : K → List (Document K) :=
  fun k => if op.key = k then op.change.2.toList else docs k

def applyOps (ops : List (DocOp K)) : K → List (Document K) := ops.foldl applyOp docs

def shardOf (i : T.Idx) (r : Redb) (chunk : Nat) : Shard T := ⟨⟨i, i, r⟩, false, chunk⟩

/-- A batch, what it was staged as, and the tables of the shard at that time. -/
structure Staging (K : Type) where
  table : Redb
  batch : CommitBatch K
  ref : StagedRef K

/-- The batch was staged, on a shard with these tables. -/
def Staging.Made (T : Tantivy K (Document K)) (p : Staging K) : Prop :=
  ∃ (order : HashOrder (K × DocOp K)) (s : Shard T), s.redb = p.table ∧ s.stageBatch order p.batch = .ok p.ref

/-- The operations of a batch that was not behind the shard at staging. -/
def Staging.ops (p : Staging K) : List (DocOp K) :=
  match continuity p.table.checkpoint p.batch.fromCheckpoint p.batch.checkpoint with
  | .noOp => []
  | _ => p.batch.ops

/-- The operations of the batches that were neither recorded nor behind at staging and that a commit at the position
accepts. -/
def takenOps : Option SourceCheckpoint → List (Staging K) → List (DocOp K)
  | _, [] => []
  | position, p :: rest =>
    if (p.table.batchSnapshot p.batch.batchId).isSome then takenOps position rest
    else match continuity position p.batch.fromCheckpoint p.batch.checkpoint with
      | .apply => p.ops ++ takenOps (some p.batch.checkpoint) rest
      | _ => takenOps position rest

def changed (log : List (K × Option (Document K))) (k : K) : List (Document K) :=
  ((lastChange log k).map Option.toList).getD (docs k)

end

lemma find_writes (ws : List (IndexWrite K)) (i : T.Idx) (k : K) :
    T.find (ws.foldl (fun i w => w.run T i) i) k = changed (T.find i) (ws.map change) k := by
  induction ws generalizing i with
  | nil => rfl
  | cons w ws ih =>
    rw [foldl_cons, ih, changed, changed, map_cons, lastChange_cons]
    cases lastChange (ws.map change) k with
    | some v => rfl
    | none =>
      cases w with
      | deleteTerm enc => by_cases hk : enc = k <;> simp [run, change, T.find_delete, hk]
      | upsert enc doc =>
        by_cases hk : enc = k <;> simp [run, change, T.find_add, T.find_delete, hk]

lemma applyOps_eq (ops : List (DocOp K)) (docs : K → List (Document K)) (k : K) :
    applyOps docs ops k = changed docs (ops.map DocOp.change) k := by
  induction ops generalizing docs with
  | nil => rfl
  | cons op ops ih =>
    change applyOps (applyOp docs op) ops k = _
    rw [ih, changed, changed, map_cons, lastChange_cons]
    cases lastChange (ops.map DocOp.change) k with
    | some v => rfl
    | none => by_cases hk : op.key = k <;> simp [applyOp, hk]

lemma Staging.Made.recorded {p : Staging K} (h : p.Made T) :
    p.ref.alreadyApplied = (p.table.batchSnapshot p.batch.batchId).isSome := by
  obtain ⟨table, batch, ref⟩ := p
  obtain ⟨order, s, rfl, h⟩ := h
  simp only [stageBatch] at h
  split at h
  · rename_i hrec
    cases h
    exact hrec.symm
  · rename_i hrec
    split at h <;> cases h <;> simpa using hrec

lemma Staging.Made.lastChange {p : Staging K} (h : p.Made T)
    (hnew : (p.table.batchSnapshot p.batch.batchId).isSome = false) (k : K) :
    lastChange p.ref.changes k = lastChange (p.ops.map DocOp.change) k := by
  rw [Staging.ops]
  obtain ⟨order, s, hs, h⟩ := h
  rw [← hs] at hnew ⊢
  obtain ⟨-, -, -, ⟨-, hold⟩ | ⟨-, hnone, hbehind⟩ | ⟨-, -, hlast, happly⟩⟩ := stageBatch_ok h
  · rw [hold] at hnew
    cases hnew
  · rw [hbehind, hnone]
    rfl
  · rw [happly]
    exact hlast k

lemma lastChange_applicable {staged : List (Staging K)} (hstaged : ∀ p ∈ staged, p.Made T)
    {position : Option SourceCheckpoint} {applied : List (StagedRef K)}
    (h : applicable position (staged.map Staging.ref) = .ok applied) (k : K) :
    lastChange (applied.flatMap changes) k = lastChange ((takenOps position staged).map DocOp.change) k := by
  induction staged generalizing position applied with
  | nil =>
    cases h
    rfl
  | cons p staged ih =>
    have hrest := fun p hp => hstaged p (mem_cons_of_mem _ hp)
    have hmade := hstaged p mem_cons_self
    obtain ⟨hend, hfrom⟩ : p.ref.checkpoint = p.batch.checkpoint ∧ p.ref.fromCheckpoint = p.batch.fromCheckpoint := by
      obtain ⟨order, s, -, hs⟩ := hmade
      exact ⟨(stageBatch_ok hs).1, (stageBatch_ok hs).2.1⟩
    rw [map_cons, applicable, hmade.recorded, hend, hfrom] at h
    rw [takenOps]
    by_cases hold : (p.table.batchSnapshot p.batch.batchId).isSome
    · rw [if_pos hold] at h ⊢
      exact ih hrest h
    · rw [if_neg hold] at h ⊢
      cases hc : continuity position p.batch.fromCheckpoint p.batch.checkpoint with
      | noOp =>
        simp only [hc] at h ⊢
        exact ih hrest h
      | gap =>
        simp only [hc] at h
        cases h
      | apply =>
        simp only [hc] at h ⊢
        cases hr : applicable (some p.batch.checkpoint) (staged.map Staging.ref) with
        | error e =>
          rw [hr] at h
          cases h
        | ok later =>
          rw [hr] at h
          cases h
          have hthis := hmade.lastChange (Bool.eq_false_iff.mpr hold) k
          rw [flatMap_cons, lastChange_append, ih hrest hr, hthis, map_append, lastChange_append]

variable {plan : Plan K}

lemma take_no_txn {s : Shard T} {staged : List (StagedRef K)} {stop : Nat}
    (h : s.commitPlan staged = .ok (plan, n)) (hstop : stop < plan.length) :
    ∀ e ∈ plan.take stop, ∀ x, e ≠ .txn x := by
  obtain ⟨applied, -, ⟨-, rfl⟩ | ⟨last, -, ⟨-, rfl⟩ | ⟨body, hbody, -, rfl⟩⟩⟩ := commitPlan_ok h
  · exact absurd hstop (Nat.not_lt_zero _)
  · obtain rfl : stop = 0 := by simpa using hstop
    exact fun e he => absurd he not_mem_nil
  · intro e he
    have hlen : stop ≤ (body ++ [WriteBack.Effect.flush]).length := by
      simp only [length_append, length_cons, length_nil] at hstop ⊢
      omega
    have happ : body ++ [WriteBack.Effect.flush, .txn (.advance last.checkpoint n applied)] =
        (body ++ [.flush]) ++ [.txn (.advance last.checkpoint n applied)] := by simp
    rw [happ, take_append_of_le_length hlen] at he
    rcases mem_append.mp (mem_of_mem_take he) with hmem | hmem
    · exact hbody e hmem
    · rw [mem_singleton.mp hmem]
      exact fun x hx => (by cases hx)

lemma redb_take {s : Shard T} {staged : List (StagedRef K)} {stop : Nat}
    (h : s.commitPlan staged = .ok (plan, n)) (hstop : stop < plan.length) :
    (s.exec (plan.take stop)).redb = s.redb :=
  WriteBack.run_table _ _ _ _ (take_no_txn h hstop)

lemma live_commit {i : T.Idx} {r : Redb} {chunk : Nat} {staged : List (StagedRef K)}
    (h : (shardOf (T := T) i r chunk).commitPlan staged = .ok (plan, n)) :
    ∃ applied, applicable r.checkpoint staged = .ok applied ∧
      ∀ k, ((shardOf (T := T) i r chunk).exec plan).live k = changed (T.find i) (applied.flatMap changes) k := by
  obtain ⟨applied, ha, ⟨rfl, rfl⟩ | ⟨last, -, ⟨hnone, rfl⟩ | ⟨body, hbody, hw, rfl⟩⟩⟩ := commitPlan_ok h
  · exact ⟨[], ha, fun k => rfl⟩
  · refine ⟨applied, ha, fun k => ?_⟩
    rw [flatMap_changes, hnone]
    rfl
  · refine ⟨applied, ha, fun k => ?_⟩
    rw [live, exec, WriteBack.run_flush_txn _ _ _ _ _ hbody, hw, find_writes, flatMap_changes]
    rfl

/-- What a commit of a shard with nothing in its writer applies, and what it leaves. -/
structure Committed (s : Shard T) (staged applied : List (StagedRef K)) (plan : Plan K) : Prop where
  applicable : Shard.applicable s.redb.checkpoint staged = .ok applied
  nothing : applied = [] → plan = []
  clean : (s.exec plan).store.pending = (s.exec plan).store.durable
  checkpoint : ∀ last, applied.getLast? = some last → (s.exec plan).redb.checkpoint = some last.checkpoint
  live : ∀ k, (s.exec plan).live k = changed s.live (applied.flatMap StagedRef.changes) k

lemma Shard.committed {s : Shard T} {staged : List (StagedRef K)}
    (hclean : s.store.pending = s.store.durable) (h : s.commitPlan staged = .ok (plan, n)) :
    ∃ applied, Committed s staged applied plan := by
  have hwritable : s.readOnly = false := by
    cases hro : s.readOnly with
    | false => rfl
    | true =>
      rw [commitPlan, if_pos hro] at h
      cases h
  obtain ⟨⟨durable, pending, table⟩, readOnly, chunk⟩ := s
  obtain rfl : pending = durable := hclean
  obtain rfl : readOnly = false := hwritable
  obtain ⟨applied, ha, hlive⟩ := live_commit h
  obtain ⟨applied', ha', hshape⟩ := commitPlan_ok h
  obtain rfl := Except.ok.inj (ha.symm.trans ha')
  refine ⟨applied, ha, ?_, ?_, ?_, hlive⟩
  · rintro rfl
    rcases hshape with ⟨-, rfl⟩ | ⟨last, hlast, -⟩
    · rfl
    · cases hlast
  · rcases hshape with ⟨-, rfl⟩ | ⟨last, -, ⟨-, rfl⟩ | ⟨body, hbody, -, rfl⟩⟩
    · rfl
    · rfl
    · rw [exec, WriteBack.run_flush_txn _ _ _ _ _ hbody]
  · intro last hlast
    rcases hshape with ⟨rfl, -⟩ | ⟨last', hlast', ⟨-, rfl⟩ | ⟨body, hbody, -, rfl⟩⟩
    · cases hlast
    · obtain rfl := Option.some.inj (hlast.symm.trans hlast')
      exact Redb.recordAndPrune_checkpoint _ _ _
    · obtain rfl := Option.some.inj (hlast.symm.trans hlast')
      rw [redb, exec, WriteBack.run_flush_txn _ _ _ _ _ hbody]
      exact Redb.recordAndPrune_checkpoint _ _ _

/-- The live documents after a commit are those of the operations taken, one at a time in order, whatever the chunk
size; and a commit stopped before its end leaves the checkpoint and the batch records. -/
theorem commit_staged_sequential (i : T.Idx) (r : Redb) (chunk : Nat) (staged : List (Staging K))
    (hstaged : ∀ p ∈ staged, p.Made T) (plan : Plan K) (n : Nat)
    (h : (shardOf (T := T) i r chunk).commitPlan (staged.map Staging.ref) = .ok (plan, n)) :
    ((shardOf (T := T) i r chunk).exec plan).live = applyOps (T.find i) (takenOps r.checkpoint staged) ∧
    ∀ stop < plan.length, ((shardOf (T := T) i r chunk).exec (plan.take stop)).redb = r ∧
      ((shardOf (T := T) i r chunk).crash plan stop).redb = r := by
  refine ⟨?_, fun stop hstop => ⟨redb_take h hstop, redb_take h hstop⟩⟩
  obtain ⟨applied, ha, hlive⟩ := live_commit h
  funext k
  rw [hlive, applyOps_eq, changed, changed, lastChange_applicable hstaged ha]

end

namespace SampleCommits

abbrev tantivy : Tantivy Nat (Document Nat) := listTantivy Nat (Document Nat)

def docOf (key : Nat) (text : String) : Document Nat := ⟨key, [("t", .str text)]⟩

def first : CommitBatch Nat := ⟨[.upsert (docOf 1 "a"), .upsert (docOf 2 "b")], ⟨10, some 1⟩, "first", none, none⟩

def second : CommitBatch Nat := ⟨[.delete 1, .upsert (docOf 2 "c")], ⟨20, some 2⟩, "second", none, none⟩

def staged (b : CommitBatch Nat) : StagedRef Nat where
  checkpoint := b.checkpoint
  fromCheckpoint := b.fromCheckpoint
  batchId := b.batchId
  upserts := Shard.stagedUpserts (Shard.effective b.ops)
  deletes := Shard.stagedDeletes (Shard.effective b.ops)
  alreadyApplied := false
  safeCheckpoint := b.safeCheckpoint

def staging (b : CommitBatch Nat) : Staging Nat := ⟨.empty, b, staged b⟩

lemma staging_made (b : CommitBatch Nat) : (staging b).Made tantivy := ⟨.insertion _, .empty 0, rfl, rfl⟩

def both : Redb := ⟨some ⟨20, some 2⟩, 2, [("second", 2), ("first", 1)], [(2, "second"), (1, "first")], none, none⟩

end SampleCommits

section
open SampleCommits

theorem commit_staged_two :
    ∃ plan n, (shardOf (T := tantivy) [] Redb.empty 1).commitPlan [staged first, staged second] = .ok (plan, n) ∧
      ((shardOf (T := tantivy) [] Redb.empty 1).exec plan).live =
        applyOps (fun _ => []) [.upsert (docOf 1 "a"), .upsert (docOf 2 "b"), .delete 1, .upsert (docOf 2 "c")] := by
  refine ⟨_, _, rfl, ?_⟩
  refine (commit_staged_sequential (T := tantivy) [] Redb.empty 1 [staging first, staging second] ?_ _ _ rfl).1.trans rfl
  rintro p (_ | ⟨_, _ | ⟨_, h⟩⟩)
  · exact staging_made first
  · exact staging_made second
  · exact absurd h not_mem_nil

/-- A batch that is delivered again is staged without its operations: the document of the later batch stays. -/
theorem replayed_batch_skipped :
    ∃ r plan n, (shardOf (T := tantivy) [(2, docOf 2 "c")] both 0).stageBatch (.insertion _) first = .ok r ∧
      (shardOf (T := tantivy) [(2, docOf 2 "c")] both 0).commitPlan [r] = .ok (plan, n) ∧
      ((shardOf (T := tantivy) [(2, docOf 2 "c")] both 0).exec plan).live 2 = [docOf 2 "c"] ∧
      applyOps (tantivy.find [(2, docOf 2 "c")]) first.ops 2 = [docOf 2 "b"] :=
  ⟨_, _, _, rfl, rfl, rfl, rfl⟩

end

end GrowlerDB.Index
