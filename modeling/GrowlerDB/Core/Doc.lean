import GrowlerDB.Lib.Float64
import GrowlerDB.Lib.Replay
import Mathlib.Data.Int.ConditionallyCompleteOrder

namespace GrowlerDB.Core
open Lib

inductive Value
  | str (s : String)
  | int (i : Int)
  | float (f : F64)
  | bool (b : Bool)
  | ts (t : Int)
  | vector (v : List (BitVec 32))
  deriving DecidableEq

structure Document (K : Type) where
  key : K
  fields : List (String × Value)
  deriving DecidableEq

def Document.get {K : Type} (d : Document K) (field : String) : Option Value :=
  d.fields.lookup field

/-- A position in the source stream. The snapshot id is its identity and carries no order; the
sequence number orders two positions when both are known. -/
structure SourceCheckpoint where
  snapshotId : Int
  sequenceNumber : Option Int
  deriving DecidableEq

def SourceCheckpoint.samePosition (a b : SourceCheckpoint) : Bool := a.snapshotId == b.snapshotId

def SourceCheckpoint.lineageCmp (a b : SourceCheckpoint) : Option Ordering :=
  if a.samePosition b then some .eq
  else match a.sequenceNumber, b.sequenceNumber with
    | some x, some y => some (compare x y)
    | _, _ => none

inductive DocOp (K : Type)
  | upsert (doc : Document K)
  | delete (key : K)
  deriving DecidableEq

namespace DocOp
variable {K : Type}

def key : DocOp K → K
  | .upsert doc => doc.key
  | .delete key => key

def change : DocOp K → K × Option (Document K)
  | .upsert doc => (doc.key, some doc)
  | .delete key => (key, none)

@[simp] lemma change_key (op : DocOp K) : op.change.1 = op.key := by cases op <;> rfl

end DocOp

structure CommitBatch (K : Type) where
  ops : List (DocOp K)
  checkpoint : SourceCheckpoint
  batchId : String
  fromCheckpoint : Option SourceCheckpoint
  safeCheckpoint : Option SourceCheckpoint
  deriving DecidableEq

def CommitBatch.changes {K : Type} (b : CommitBatch K) : List (K × Option (Document K)) :=
  b.ops.map DocOp.change

open List

structure SourceSnapshot (K : Type) where
  snapshotId : Int
  sequenceNumber : Int
  ops : List (DocOp K)

def SourceSnapshot.checkpoint {K : Type} (s : SourceSnapshot K) : SourceCheckpoint :=
  ⟨s.snapshotId, some s.sequenceNumber⟩

structure Changelog (K : Type) where
  snapshots : List (SourceSnapshot K)
  increasing : snapshots.Pairwise (fun a b => a.sequenceNumber < b.sequenceNumber)
  distinct : (snapshots.map SourceSnapshot.snapshotId).Nodup

/-- Where a checkpoint stands in the lineage; no checkpoint stands before everything. -/
def position (c : Option SourceCheckpoint) : WithBot Int := c.bind SourceCheckpoint.sequenceNumber

@[simp] lemma position_none : position none = ⊥ := rfl

namespace Changelog

variable {K : Type} (log : Changelog K)

def Has (c : SourceCheckpoint) : Prop := ∃ s ∈ log.snapshots, s.checkpoint = c

def viewOf (select : List (DocOp K) → List (DocOp K)) : Replay.Log Int K (Document K) :=
  log.snapshots.flatMap (fun s => (select s.ops).map (fun op => (s.sequenceNumber, op.change)))

def entries : Replay.Log Int K (Document K) := log.viewOf id

/-- Rows that carry their snapshot's number come in its order. -/
lemma pairwise_rows (rows : SourceSnapshot K → List (DocOp K)) (entry : SourceSnapshot K → DocOp K → β) :
    (log.snapshots.flatMap (fun s => (rows s).map (fun op => (s.sequenceNumber, entry s op)))).Pairwise
      (fun a b => a.1 ≤ b.1) := by
  rw [pairwise_flatMap]
  constructor
  · intro s _
    rw [pairwise_map]
    exact pairwise_of_forall (fun _ _ => le_refl _)
  · refine log.increasing.imp ?_
    intro a b hab x hx y hy
    obtain ⟨_, _, rfl⟩ := mem_map.mp hx
    obtain ⟨_, _, rfl⟩ := mem_map.mp hy
    exact hab.le

lemma viewOf_ordered (select : List (DocOp K) → List (DocOp K)) : Replay.Ordered (log.viewOf select) :=
  log.pairwise_rows (fun s => select s.ops) fun _ op => op.change

lemma entries_ordered : Replay.Ordered log.entries := log.viewOf_ordered id

def restrict (p : K → Bool) : Changelog K where
  snapshots := log.snapshots.map (fun s => { s with ops := s.ops.filter (fun op => p op.key) })
  increasing := pairwise_map.mpr log.increasing
  distinct := by
    rw [map_map]
    exact log.distinct

variable {log}

lemma has_restrict : (log.restrict p).Has c ↔ log.Has c := by
  constructor
  · rintro ⟨_, hs, rfl⟩
    obtain ⟨s, hmem, rfl⟩ := mem_map.mp hs
    exact ⟨s, hmem, rfl⟩
  · rintro ⟨s, hs, rfl⟩
    exact ⟨_, mem_map.mpr ⟨s, hs, rfl⟩, rfl⟩

variable (log) in
lemma entries_restrict (p : K → Bool) :
    (log.restrict p).entries = log.entries.filter (fun e => p e.2.1) := by
  simp only [entries, viewOf, restrict, flatMap_map, filter_flatMap, filter_map, id]
  refine flatMap_congr fun s _ => congrArg _ (filter_congr fun op _ => ?_)
  simp

lemma Has.position (h : log.Has c) :
    ∃ seq, c.sequenceNumber = some seq ∧ Core.position (some c) = (seq : WithBot Int) := by
  obtain ⟨s, _, rfl⟩ := h
  exact ⟨s.sequenceNumber, rfl, rfl⟩

lemma id_eq_iff (ha : a ∈ log.snapshots) (hb : b ∈ log.snapshots) :
    a.snapshotId = b.snapshotId ↔ a.sequenceNumber = b.sequenceNumber := by
  have hseq : (log.snapshots.map SourceSnapshot.sequenceNumber).Nodup :=
    pairwise_map.mpr (log.increasing.imp (fun h => ne_of_lt h))
  constructor
  · intro h
    rw [inj_on_of_nodup_map log.distinct ha hb h]
  · intro h
    rw [inj_on_of_nodup_map hseq ha hb h]

lemma lineageCmp_eq (ha : log.Has a) (hb : log.Has b) :
    ∃ x y : Int, Core.position (some a) = (x : WithBot Int) ∧ Core.position (some b) = (y : WithBot Int) ∧
      a.lineageCmp b = some (compare x y) := by
  obtain ⟨s, hs, rfl⟩ := ha
  obtain ⟨t, ht, rfl⟩ := hb
  refine ⟨s.sequenceNumber, t.sequenceNumber, rfl, rfl, ?_⟩
  by_cases hid : s.snapshotId = t.snapshotId
  · have hseq := (id_eq_iff hs ht).mp hid
    simp [SourceCheckpoint.lineageCmp, SourceCheckpoint.samePosition, SourceSnapshot.checkpoint, hid, hseq]
  · simp [SourceCheckpoint.lineageCmp, SourceCheckpoint.samePosition, SourceSnapshot.checkpoint, hid]

end Changelog

end GrowlerDB.Core
