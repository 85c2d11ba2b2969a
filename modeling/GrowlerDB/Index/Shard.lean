import GrowlerDB.Core.Doc
import GrowlerDB.Lib.WriteBack

namespace GrowlerDB.Index
open Core Lib Or

/-- What a shard uses of Tantivy: documents are found by their key term, deleting a term removes
every document added before it, and adding never touches other keys. -/
structure Tantivy (K D : Type) [DecidableEq K] where
  Idx : Type
  empty : Idx
  deleteTerm : K → Idx → Idx
  addDocument : K → D → Idx → Idx
  find : Idx → K → List D
  find_empty : ∀ k, find empty k = []
  find_delete : ∀ k i k', find (deleteTerm k i) k' = if k = k' then [] else find i k'
  find_add : ∀ k d i k', find (addDocument k d i) k' = if k = k' then find i k' ++ [d] else find i k'

def listTantivy (K D : Type) [DecidableEq K] : Tantivy K D where
  Idx := List (K × D)
  empty := []
  deleteTerm k i := i.filter (fun e => !decide (e.1 = k))
  addDocument k d i := i ++ [(k, d)]
  find i k := (i.filter (fun e => decide (e.1 = k))).map Prod.snd
  find_empty _ := rfl
  find_delete k i k' := by
    rw [List.filter_filter]
    by_cases h : k = k'
    · subst h
      simp
    · rw [if_neg h]
      congr 1
      apply List.filter_congr
      intro e _
      by_cases he : e.1 = k' <;> simp [he, Ne.symm h]
  find_add k d i k' := by by_cases h : k = k' <;> simp [h]

inductive Continuity
  | apply
  | noOp
  | gap

inductive StoreError
  | readOnlyShard
  | checkpointGap (fromCheckpoint current : Option SourceCheckpoint)
  deriving DecidableEq

def continuity (current fromCheckpoint : Option SourceCheckpoint) (windowEnd : SourceCheckpoint) :
    Continuity :=
  match current with
  | none => .apply
  | some current =>
    match windowEnd.lineageCmp current with
    | some .eq =>
      -- bulk chunks share one checkpoint and carry no `from`; a window that ends here is a re-send
      match fromCheckpoint with
      | none => .apply
      | some _ => .noOp
    | some .lt => .noOp
    | some .gt =>
      match fromCheckpoint with
      | none => .apply
      | some f =>
        match f.lineageCmp current with
        | some .lt => .apply
        | some .eq => .apply
        | some .gt => .gap
        | none => .gap
    | none =>
      match fromCheckpoint with
      | none => .apply
      | some f => if f.samePosition current then .apply else .gap

/-- Staged work: the effective upserts and deletes of a batch, with what its commit decides on. -/
structure StagedRef (K : Type) where
  checkpoint : SourceCheckpoint
  fromCheckpoint : Option SourceCheckpoint
  batchId : String
  upserts : List (K × Document K)
  deletes : List K
  alreadyApplied : Bool
  safeCheckpoint : Option SourceCheckpoint
  deriving DecidableEq

def StagedRef.hasContent {K : Type} (s : StagedRef K) : Bool :=
  !s.upserts.isEmpty || !s.deletes.isEmpty

structure Redb where
  checkpoint : Option SourceCheckpoint
  snapshot : Nat
  batchKeys : List (String × Nat)
  batchCkpt : List (Int × String)
  eventMin : Option Int
  eventMax : Option Int

namespace Redb

def empty : Redb := ⟨none, 0, [], [], none, none⟩

def batchSnapshot (r : Redb) (id : String) : Option Nat := r.batchKeys.lookup id

def recordBatch {K : Type} (snapshot : Nat) (r : Redb) (s : StagedRef K) : Redb :=
  { r with
    batchKeys := (s.batchId, snapshot) :: r.batchKeys.filter (fun e => e.1 != s.batchId)
    batchCkpt := match s.checkpoint.sequenceNumber with
      | some seq => (seq, s.batchId) :: r.batchCkpt.filter (fun e => e != (seq, s.batchId))
      | none => r.batchCkpt }

def pruneBatchesAtOrBelow (r : Redb) (floor : Int) : Redb :=
  let stale := r.batchCkpt.filter (fun e => e.1 ≤ floor)
  { r with
    batchCkpt := r.batchCkpt.filter (fun e => !stale.contains e)
    batchKeys := r.batchKeys.filter (fun e => !(stale.map Prod.snd).contains e.1) }

def recordAndPruneBatches {K : Type} (r : Redb) (committed : List (StagedRef K)) (snapshot : Nat) :
    Redb :=
  let recorded := committed.foldl (recordBatch snapshot) r
  match (committed.filterMap
      (fun s => s.safeCheckpoint.bind SourceCheckpoint.sequenceNumber)).max? with
  | some floor => recorded.pruneBatchesAtOrBelow floor
  | none => recorded

def eventBounds (r : Redb) : Option (Int × Int) :=
  match r.eventMin, r.eventMax with
  | some lo, some hi => some (lo, hi)
  | _, _ => none

def setEventBounds (r : Redb) : Option Int → Option Int → Redb
  | some lo, some hi =>
    let bounds := match r.eventBounds with
      | some (l, h) => (min l lo, max h hi)
      | none => (lo, hi)
    { r with eventMin := some bounds.1, eventMax := some bounds.2 }
  | _, _ => r

end Redb

/-- The order in which a hash map yields its entries: any permutation of them. -/
structure HashOrder (α : Type) where
  iter : List α → List α
  perm : ∀ l, (iter l).Perm l

def HashOrder.insertion (α : Type) : HashOrder α := ⟨id, fun l => List.Perm.refl l⟩

/-- The writes a commit hands to the index writer. An upsert deletes the key's term and then adds
the document; nothing is flushed between the two. -/
inductive IndexWrite (K : Type)
  | deleteTerm (enc : K)
  | upsert (enc : K) (doc : Document K)

inductive RedbTxn (K : Type)
  | advance (checkpoint : SourceCheckpoint) (snapshot : Nat) (applied : List (StagedRef K))
  | eventBounds (min max : Option Int)

def RedbTxn.run {K : Type} : RedbTxn K → Redb → Redb
  | .advance checkpoint snapshot applied, r =>
    { r with checkpoint := some checkpoint, snapshot := snapshot }.recordAndPruneBatches applied snapshot
  | .eventBounds min max, r => r.setEventBounds min max

variable {K : Type} [DecidableEq K] (T : Tantivy K (Document K))

def IndexWrite.run : IndexWrite K → T.Idx → T.Idx
  | .deleteTerm enc, i => T.deleteTerm enc i
  | .upsert enc doc, i => T.addDocument enc doc (T.deleteTerm enc i)

abbrev Plan (K : Type) := List (WriteBack.Effect (IndexWrite K) (RedbTxn K))

structure Shard where
  store : WriteBack.Store T.Idx Redb
  readOnly : Bool
  commitChunk : Nat

variable {T}

namespace Shard

def empty (commitChunk : Nat) : Shard T := ⟨⟨T.empty, T.empty, Redb.empty⟩, false, commitChunk⟩

def redb (s : Shard T) : Redb := s.store.table

def live (s : Shard T) (k : K) : List (Document K) := T.find s.store.durable k

def exec (s : Shard T) (plan : Plan K) : Shard T :=
  { s with store := WriteBack.run (IndexWrite.run T) RedbTxn.run s.store plan }

def reopen (s : Shard T) : Shard T := { s with store := WriteBack.reopen s.store }

def crash (s : Shard T) (plan : Plan K) (n : Nat) : Shard T :=
  { s with store := WriteBack.crash (IndexWrite.run T) RedbTxn.run s.store plan n }

def effective (ops : List (DocOp K)) : List (K × DocOp K) :=
  ops.foldl (fun m op => (op.key, op) :: m.filter (fun e => !decide (e.1 = op.key))) []

def stagedUpserts (entries : List (K × DocOp K)) : List (K × Document K) :=
  entries.filterMap (fun e => match e.2 with | .upsert doc => some (e.1, doc) | .delete _ => none)

def stagedDeletes (entries : List (K × DocOp K)) : List K :=
  entries.filterMap (fun e => match e.2 with | .upsert _ => none | .delete _ => some e.1)

def stageBatch (order : HashOrder (K × DocOp K)) (s : Shard T) (batch : CommitBatch K) :
    Except StoreError (StagedRef K) :=
  let staged (alreadyApplied content : Bool) : StagedRef K :=
    let entries := if content then order.iter (effective batch.ops) else []
    { checkpoint := batch.checkpoint
      fromCheckpoint := batch.fromCheckpoint
      batchId := batch.batchId
      upserts := stagedUpserts entries
      deletes := stagedDeletes entries
      alreadyApplied := alreadyApplied
      safeCheckpoint := batch.safeCheckpoint }
  if (s.redb.batchSnapshot batch.batchId).isSome then .ok (staged true false)
  else match continuity s.redb.checkpoint batch.fromCheckpoint batch.checkpoint with
    | .apply => .ok (staged false true)
    | .noOp => .ok (staged false false)
    | .gap => .error (.checkpointGap batch.fromCheckpoint s.redb.checkpoint)

def applicable : Option SourceCheckpoint → List (StagedRef K) →
    Except StoreError (List (StagedRef K))
  | _, [] => .ok []
  | position, s :: rest =>
    if s.alreadyApplied then applicable position rest
    else match continuity position s.fromCheckpoint s.checkpoint with
      | .apply => (applicable (some s.checkpoint) rest).map (s :: ·)
      | .noOp => applicable position rest
      | .gap => .error (.checkpointGap s.fromCheckpoint position)

def upsertPlan (chunk : Nat) : Nat → List (K × Document K) → Plan K × Nat
  | docsSinceFlush, [] => ([], docsSinceFlush)
  | docsSinceFlush, (enc, doc) :: rest =>
    if chunk ≠ 0 ∧ chunk ≤ docsSinceFlush + 1 then
      let r := upsertPlan chunk 0 rest
      (.write (.upsert enc doc) :: .flush :: r.1, r.2)
    else
      let r := upsertPlan chunk (docsSinceFlush + 1) rest
      (.write (.upsert enc doc) :: r.1, r.2)

def livePlan (chunk : Nat) : Nat → List (StagedRef K) → Plan K
  | _, [] => []
  | docsSinceFlush, s :: rest =>
    let r := upsertPlan chunk docsSinceFlush s.upserts
    s.deletes.map (fun enc => .write (.deleteTerm enc)) ++ r.1 ++ livePlan chunk r.2 rest

def commitPlan (s : Shard T) (staged : List (StagedRef K)) : Except StoreError (Plan K × Nat) :=
  if s.readOnly then .error .readOnlyShard
  else match applicable s.redb.checkpoint staged with
    | .error e => .error e
    | .ok applied =>
      match applied.getLast? with
      | none => .ok ([], s.redb.snapshot)
      | some last =>
        let live := applied.filter StagedRef.hasContent
        if live.isEmpty then
          .ok ([.txn (.advance last.checkpoint s.redb.snapshot applied)], s.redb.snapshot)
        else
          .ok (livePlan s.commitChunk 0 live ++
            [.flush, .txn (.advance last.checkpoint (s.redb.snapshot + 1) applied)],
            s.redb.snapshot + 1)

def commitStaged (s : Shard T) (staged : List (StagedRef K)) : Except StoreError (Shard T × Nat) :=
  (s.commitPlan staged).map (fun p => (s.exec p.1, p.2))

def writePlan (order : HashOrder (K × DocOp K)) (s : Shard T) (batch : CommitBatch K) :
    Except StoreError (Plan K × Nat) :=
  match s.stageBatch order batch with
  | .error e => .error e
  | .ok staged => s.commitPlan [staged]

end Shard

open Lib.Replay List WriteBack StagedRef IndexWrite

variable {snapshot : Nat} {r : Redb}

variable {K : Type} [DecidableEq K] {T : Tantivy K (Document K)}

/-- The index holds exactly the documents of `m`, at most one per key. -/
def Holds (T : Tantivy K (Document K)) (i : T.Idx) (m : K → Option (Document K)) : Prop :=
  ∀ k, T.find i k = (m k).toList

lemma holds_empty : Holds T T.empty (fun _ => none) := fun k => T.find_empty k

def IndexWrite.change : IndexWrite K → K × Option (Document K)
  | .deleteTerm enc => (enc, none)
  | .upsert enc doc => (enc, some doc)

lemma Holds.write (h : Holds T i m)
    (w : IndexWrite K) : Holds T (w.run T i) (applyChange m w.change) := by
  intro k
  cases w with
  | deleteTerm enc =>
    by_cases hk : enc = k <;> simp [IndexWrite.run, IndexWrite.change, applyChange, T.find_delete, hk, h k]
  | upsert enc doc =>
    by_cases hk : enc = k <;>
      simp [IndexWrite.run, IndexWrite.change, applyChange, T.find_add, T.find_delete, hk, h k]

lemma Holds.writes (h : Holds T i m) (ws : List (IndexWrite K)) :
    Holds T (ws.foldl (fun i w => w.run T i) i) (replay m (ws.map change)) := by
  induction ws generalizing i m with
  | nil => exact h
  | cons w ws ih => exact ih (h.write w)

def StagedRef.content (s : StagedRef K) : List (IndexWrite K) :=
  s.deletes.map .deleteTerm ++ s.upserts.map (fun e => .upsert e.1 e.2)

def StagedRef.changes (s : StagedRef K) : List (K × Option (Document K)) :=
  s.content.map IndexWrite.change

namespace Shard

lemma effective_snoc (ops : List (DocOp K)) (op : DocOp K) :
    effective (ops ++ [op]) = (op.key, op) :: (effective ops).filter (fun e => !decide (e.1 = op.key)) := by
  simp [effective]

lemma effective_keys (ops : List (DocOp K)) :
    ((effective ops).map Prod.fst).Nodup ∧ ∀ e ∈ effective ops, e.2.key = e.1 := by
  induction ops using List.reverseRecOn with
  | nil => simp [effective]
  | append_singleton ops op ih =>
    rw [effective_snoc]
    refine ⟨?_, ?_⟩
    · rw [map_cons, nodup_cons]
      refine ⟨?_, ih.1.sublist (filter_sublist.map _)⟩
      simp
    · intro e he
      rcases mem_cons.mp he with rfl | he
      · rfl
      · exact ih.2 e (mem_filter.mp he).1

lemma effective_lastChange (ops : List (DocOp K)) (k : K) :
    lastChange ((effective ops).map (·.2.change)) k = lastChange (ops.map DocOp.change) k := by
  induction ops using List.reverseRecOn with
  | nil => rfl
  | append_singleton ops op ih =>
    have hrest : ((effective ops).filter (fun e => !decide (e.1 = op.key))).map (·.2.change) =
        ((effective ops).map (·.2.change)).filter (fun c => !decide (c.1 = op.key)) := by
      rw [filter_map]
      congr 1
      apply filter_congr
      intro e he
      simp [(effective_keys ops).2 e he]
    rw [effective_snoc, map_append, lastChange_append, map_cons, lastChange_cons, hrest,
      lastChange_filter_ne, ih, map_singleton, lastChange_cons]
    by_cases hk : op.key = k <;> simp [hk]

omit [DecidableEq K] in
lemma staged_perm (entries : List (K × DocOp K)) (hk : ∀ e ∈ entries, e.2.key = e.1) :
    ((stagedDeletes entries).map (fun k => (k, none)) ++
      (stagedUpserts entries).map (fun e : K × Document K => (e.1, some e.2))).Perm
      (entries.map (fun e : K × DocOp K => e.2.change)) := by
  induction entries with
  | nil => exact Perm.refl _
  | cons e entries ih =>
    have ih := ih (fun d hd => hk d (mem_cons_of_mem _ hd))
    have he := hk e mem_cons_self
    obtain ⟨k, op⟩ := e
    cases op with
    | delete key =>
      obtain rfl : key = k := he
      simpa [stagedDeletes, stagedUpserts, DocOp.change] using ih
    | upsert doc =>
      obtain rfl : doc.key = k := he
      simp only [stagedDeletes, stagedUpserts, filterMap_cons, map_cons, DocOp.change]
      exact perm_middle.trans (ih.cons _)

lemma stageBatch_ok {s : Shard T} {b : CommitBatch K} {r : StagedRef K} (h : s.stageBatch order b = .ok r) :
    r.checkpoint = b.checkpoint ∧ r.fromCheckpoint = b.fromCheckpoint ∧ r.batchId = b.batchId ∧
    ((r.alreadyApplied ∧ (s.redb.batchSnapshot b.batchId).isSome) ∨
     (r.alreadyApplied = false ∧ r.changes = [] ∧
       continuity s.redb.checkpoint b.fromCheckpoint b.checkpoint = .noOp) ∨
     (r.alreadyApplied = false ∧ (r.changes.map Prod.fst).Nodup ∧
       (∀ k, lastChange r.changes k = lastChange b.changes k) ∧
       continuity s.redb.checkpoint b.fromCheckpoint b.checkpoint = .apply)) := by
  simp only [stageBatch] at h
  split at h
  · rename_i hrec
    cases h
    exact ⟨rfl, rfl, rfl, inl ⟨rfl, hrec⟩⟩
  · split at h
    · rename_i hc
      cases h
      have hp := order.perm (effective b.ops)
      have hkeys := effective_keys b.ops
      have hnodup : (((effective b.ops).map (·.2.change)).map Prod.fst).Nodup := by
        rw [map_map, map_congr_left (g := Prod.fst)]
        · exact hkeys.1
        · intro e he
          simp [hkeys.2 e he]
      have hsplit := (staged_perm (order.iter (effective b.ops))
        (fun e he => hkeys.2 e (hp.mem_iff.mp he))).trans (hp.map _)
      refine ⟨rfl, rfl, rfl, inr (inr ⟨rfl, ?_, ?_, hc⟩)⟩
      · simpa [changes, content, change, Function.comp_def] using
          (hsplit.map Prod.fst).nodup_iff.mpr hnodup
      · intro k
        rw [CommitBatch.changes, ← effective_lastChange, ← lastChange_perm hnodup hsplit]
        simp [changes, content, change, Function.comp_def]
    · rename_i hc
      cases h
      exact ⟨rfl, rfl, rfl, inr (inl ⟨rfl, rfl, hc⟩)⟩
    · cases h

omit [DecidableEq K] in
lemma upsertPlan_writes (chunk n : Nat) (us : List (K × Document K)) :
    writes (upsertPlan chunk n us).1 = us.map (fun e => .upsert e.1 e.2) := by
  induction us generalizing n with
  | nil => rfl
  | cons e us ih =>
    simp only [upsertPlan]
    split <;> simp [writes, ih]

omit [DecidableEq K] in
lemma upsertPlan_no_txn (chunk n : Nat) (us : List (K × Document K)) :
    ∀ e ∈ (upsertPlan chunk n us).1, ∀ x, e ≠ .txn x := by
  induction us generalizing n with
  | nil => simp [upsertPlan]
  | cons u us ih =>
    simp only [upsertPlan]
    split <;> simpa using ih _

omit [DecidableEq K] in
lemma deletes_writes (ks : List K) : writes (ks.map (fun enc => Effect.write (X := RedbTxn K)
      (deleteTerm enc))) = ks.map deleteTerm := by
  induction ks with
  | nil => rfl
  | cons k ks ih => simp [writes, ih]

lemma livePlan_writes (chunk n : Nat) (live : List (StagedRef K)) :
    writes (livePlan chunk n live) = live.flatMap content := by
  induction live generalizing n with
  | nil => rfl
  | cons s live ih => simp [livePlan, content, deletes_writes, upsertPlan_writes, ih]

lemma livePlan_no_txn (chunk n : Nat) (live : List (StagedRef K)) :
    ∀ e ∈ livePlan chunk n live, ∀ x, e ≠ .txn x := by
  induction live generalizing n with
  | nil => simp [livePlan]
  | cons s live ih =>
    intro e he x
    simp only [livePlan, mem_append] at he
    rcases he with (hd | hu) | hl
    · obtain ⟨k, _, rfl⟩ := mem_map.mp hd
      simp
    · exact upsertPlan_no_txn _ _ _ e hu x
    · exact ih _ e hl x

omit [DecidableEq K] in
lemma hasContent_false {s : StagedRef K} (h : s.hasContent = false) : s.content = [] := by
  simp only [hasContent, Bool.or_eq_false_iff, Bool.not_eq_false', List.isEmpty_iff] at h
  simp [content, h.1, h.2]

lemma flatMap_filter_content (applied : List (StagedRef K)) :
    (applied.filter hasContent).flatMap content = applied.flatMap content := by
  induction applied with
  | nil => rfl
  | cons s applied ih =>
    cases h : s.hasContent with
    | true => simp [h, ih]
    | false => simp [h, hasContent_false h, ih]

def advanced (r : Redb) (applied : List (StagedRef K)) (snapshot : Nat) : Redb :=
  match applied.getLast? with
  | none => r
  | some last => (RedbTxn.advance last.checkpoint snapshot applied).run r

/-- A commit is nothing, one transaction, or the content of its applicable batches flushed and
then one transaction. -/
lemma commitPlan_ok {s : Shard T} (h : s.commitPlan staged = .ok (plan, n)) :
    ∃ applied, applicable s.redb.checkpoint staged = .ok applied ∧ ((applied = [] ∧ plan = []) ∨
       ∃ last, applied.getLast? = some last ∧ ((applied.flatMap content = [] ∧
          plan = [.txn (.advance last.checkpoint n applied)]) ∨
         ∃ body, (∀ e ∈ body, ∀ x, e ≠ .txn x) ∧ writes body = applied.flatMap content ∧
          plan = body ++ [.flush, .txn (.advance last.checkpoint n applied)])) := by
  unfold commitPlan at h
  split at h
  · cases h
  · cases ha : applicable s.redb.checkpoint staged with
    | error e => simp [ha] at h
    | ok applied =>
      refine ⟨applied, rfl, ?_⟩
      simp only [ha] at h
      cases hl : applied.getLast? with
      | none =>
        simp only [hl] at h
        cases h
        exact inl ⟨List.getLast?_eq_none_iff.mp hl, rfl⟩
      | some last =>
        refine inr ⟨last, rfl, ?_⟩
        simp only [hl] at h
        split at h
        · rename_i hempty
          cases h
          refine inl ⟨?_, rfl⟩
          rw [← flatMap_filter_content, isEmpty_iff.mp hempty, flatMap_nil]
        · cases h
          exact inr ⟨_, livePlan_no_txn _ _ _,
            (livePlan_writes _ _ _).trans (flatMap_filter_content applied), rfl⟩

end Shard

namespace Redb

lemma batchSnapshot_mem {id : String} (h : (r.batchSnapshot id).isSome) : id ∈ r.batchKeys.map Prod.fst := by
  obtain ⟨n, hn⟩ := Option.isSome_iff_exists.mp h
  obtain ⟨l₁, l₂, hl, _⟩ := lookup_eq_some_iff.mp hn
  simp [hl]

omit [DecidableEq K] in
lemma mem_recordBatch {s : StagedRef K} {id : String} (h : id ∈ (r.recordBatch snapshot s).batchKeys.map Prod.fst) :
    id = s.batchId ∨ id ∈ r.batchKeys.map Prod.fst := by
  simp only [recordBatch, map_cons, mem_cons, mem_map, mem_filter] at h ⊢
  rcases h with rfl | ⟨e, ⟨he, _⟩, rfl⟩
  · exact inl rfl
  · exact inr ⟨e, he, rfl⟩

lemma mem_recordBatches {committed : List (StagedRef K)} {id : String}
    (h : id ∈ (committed.foldl (recordBatch snapshot) r).batchKeys.map Prod.fst) :
    (∃ s ∈ committed, s.batchId = id) ∨ id ∈ r.batchKeys.map Prod.fst := by
  induction committed generalizing r with
  | nil => exact inr h
  | cons s committed ih =>
    rcases ih h with ⟨s', hs', rfl⟩ | hin
    · exact inl ⟨s', mem_cons_of_mem _ hs', rfl⟩
    · rcases mem_recordBatch hin with rfl | hin
      · exact inl ⟨s, mem_cons_self, rfl⟩
      · exact inr hin

lemma mem_recordAndPrune {committed : List (StagedRef K)} {id : String}
    (h : id ∈ (r.recordAndPruneBatches committed snapshot).batchKeys.map Prod.fst) :
    (∃ s ∈ committed, s.batchId = id) ∨ id ∈ r.batchKeys.map Prod.fst := by
  simp only [recordAndPruneBatches] at h
  split at h
  · apply mem_recordBatches
    simp only [pruneBatchesAtOrBelow, mem_map, mem_filter] at h ⊢
    obtain ⟨e, ⟨he, _⟩, rfl⟩ := h
    exact ⟨e, he, rfl⟩
  · exact mem_recordBatches h

omit [DecidableEq K] in
lemma recordBatches_checkpoint (snapshot : Nat) (r : Redb) (committed : List (StagedRef K)) :
    (committed.foldl (recordBatch snapshot) r).checkpoint = r.checkpoint := by
  induction committed generalizing r with
  | nil => rfl
  | cons s committed ih => exact ih _

@[simp] lemma recordAndPrune_checkpoint (r : Redb) (committed : List (StagedRef K)) (n : Nat) :
    (r.recordAndPruneBatches committed n).checkpoint = r.checkpoint := by
  simp only [recordAndPruneBatches]
  split <;> simp [pruneBatchesAtOrBelow, recordBatches_checkpoint]

end Redb

/-- A shard between calls: nothing is buffered, and readers see the documents of `m`. -/
structure Shard.Reflects (s : Shard T) (m : K → Option (Document K)) : Prop where
  clean : WriteBack.Clean s.store
  holds : Holds T s.store.durable m

lemma Shard.Reflects.live {s : Shard T} (h : s.Reflects m) (k : K) : s.live k = (m k).toList := h.holds k

omit [DecidableEq K] in
lemma flatMap_changes (applied : List (StagedRef K)) : applied.flatMap changes =
      (applied.flatMap content).map change := by
  rw [map_flatMap]
  rfl

/-- A commit that completes replays its applicable batches and advances the tables once. -/
lemma Shard.Reflects.commit {s : Shard T} {m : K → Option (Document K)} (h : s.Reflects m)
    {staged : List (StagedRef K)} {plan : Plan K} {n : Nat}
    (hp : s.commitPlan staged = .ok (plan, n)) :
    ∃ applied, Shard.applicable s.redb.checkpoint staged = .ok applied ∧
      (s.exec plan).Reflects (replay m (applied.flatMap changes)) ∧
      (s.exec plan).redb = Shard.advanced s.redb applied n := by
  obtain ⟨applied, ha, ⟨rfl, rfl⟩ | ⟨last, hl, ⟨hnone, rfl⟩ | ⟨body, hb, hw, rfl⟩⟩⟩ := Shard.commitPlan_ok hp
  · exact ⟨[], ha, h, rfl⟩
  · refine ⟨applied, ha, ⟨h.clean, ?_⟩, ?_⟩
    · rw [flatMap_changes, hnone]
      exact h.holds
    · rw [Shard.advanced, hl]
      rfl
  · have hrun := run_flush_txn (run T) RedbTxn.run s.store body
      (.advance last.checkpoint n applied) hb
    refine ⟨applied, ha, ⟨?_, ?_⟩, ?_⟩
    · rw [Shard.exec, hrun]
      rfl
    · rw [Shard.exec, hrun, hw, flatMap_changes, h.clean]
      exact h.holds.writes _
    · rw [Shard.redb, Shard.exec, hrun, Shard.advanced, hl]
      rfl

omit [DecidableEq K] in
lemma Shard.applicable_single {r : StagedRef K} (h : Shard.applicable current [r] = .ok applied) :
    (applied = [] ∧ (r.alreadyApplied ∨ continuity current r.fromCheckpoint r.checkpoint = .noOp)) ∨
      (applied = [r] ∧ continuity current r.fromCheckpoint r.checkpoint = .apply) := by
  rw [Shard.applicable] at h
  split at h
  · rename_i hold
    cases h
    exact .inl ⟨rfl, .inl hold⟩
  · cases hc : continuity current r.fromCheckpoint r.checkpoint with
    | apply =>
      rw [hc] at h
      cases h
      exact .inr ⟨rfl, rfl⟩
    | noOp =>
      rw [hc] at h
      cases h
      exact .inl ⟨rfl, .inr rfl⟩
    | gap => simp [hc] at h

/-- A commit that is interrupted either leaves the tables alone and some prefix of its changes in
the index, or had already completed. -/
lemma Shard.Reflects.crash {s : Shard T} (h : s.Reflects m)
 (hp : s.commitPlan staged = .ok (plan, n)) (stop : Nat) :
    (∃ applied cs, Shard.applicable s.redb.checkpoint staged = .ok applied ∧
      cs <+: applied.flatMap StagedRef.changes ∧
      (s.crash plan stop).Reflects (replay m cs) ∧ (s.crash plan stop).redb = s.redb) ∨
    s.crash plan stop = s.exec plan := by
  obtain ⟨applied, ha, ⟨rfl, rfl⟩ | ⟨last, hl, ⟨hnone, rfl⟩ | ⟨body, hb, hw, rfl⟩⟩⟩ := Shard.commitPlan_ok hp
  · refine inl ⟨[], [], ha, prefix_refl _, ⟨rfl, ?_⟩, ?_⟩
    · simpa [Shard.crash, WriteBack.crash, WriteBack.run, WriteBack.reopen, replay] using h.holds
    · simp [Shard.redb, Shard.crash, WriteBack.crash, WriteBack.run, WriteBack.reopen]
  · cases stop with
    | zero => exact inl ⟨applied, [], ha, nil_prefix, ⟨rfl, h.holds⟩, rfl⟩
    | succ stop =>
      right
      have hclean : s.store.pending = s.store.durable := h.clean
      simp [Shard.crash, Shard.exec, WriteBack.crash, WriteBack.run, WriteBack.reopen, WriteBack.exec, hclean]
  · rcases WriteBack.crash_flush_txn (IndexWrite.run T) RedbTxn.run s.store body
      (.advance last.checkpoint n applied) stop h.clean hb with ⟨ws, hws, hcrash⟩ | hdone
    · refine inl ⟨applied, ws.map IndexWrite.change, ha, ?_, ⟨?_, ?_⟩, ?_⟩
      · rw [flatMap_changes, ← hw]
        exact hws.map _
      · rw [Shard.crash, hcrash]
        rfl
      · rw [Shard.crash, hcrash]
        exact h.holds.writes ws
      · rw [Shard.redb, Shard.crash, hcrash]
        rfl
    · right
      rw [Shard.crash, Shard.exec, hdone]

end GrowlerDB.Index
