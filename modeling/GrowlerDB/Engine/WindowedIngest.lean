import GrowlerDB.Core.Window
import GrowlerDB.Index.Shard
import GrowlerDB.Lib.Script

namespace GrowlerDB.Engine
open Core Index Lib

structure PrimaryFence where
  view : Option (Option (List (String × Int)))

namespace PrimaryFence

def unrestricted : PrimaryFence := ⟨none⟩

def fenced : PrimaryFence := ⟨some none⟩

def allows (fence : PrimaryFence) (index : String) (window : Int) : Bool :=
  match fence.view with
  | none => true
  | some none => true
  | some (some primaries) => primaries.contains (index, window)

end PrimaryFence

inductive Status
  | notPrimary (index : String) (window : Int)
  | windowParked (index : String) (window : Int)
  | store (error : StoreError)

structure WindowDescriptor where
  window : Int
  zone : Option (Int × Int)
  cold : Bool

section

variable {K : Type} [DecidableEq K] (T : Tantivy K (Document K))

/-- A node that serves windows. A window never written reads as an empty shard; `windows` are the window states with
their zone maps, `muxed` the windows the read path knows. -/
structure WindowedNode where
  disk : Int → Shard T
  windows : List (Int × Option (Int × Int))
  muxed : List Int
  gateway : List WindowDescriptor

inductive NodeEffect (K : Type)
  | createWindow (window : Int)
  | shard (window : Int) (effect : WriteBack.Effect (IndexWrite K) (RedbTxn K))
  | setZone (window : Int) (zone : Option (Int × Int))
  | swapWindowed (descriptors : List WindowDescriptor)

variable {T}

namespace WindowedNode

def empty (commitChunk : Nat) (muxed : List Int) : WindowedNode T :=
  ⟨fun _ => Shard.empty commitChunk, [], muxed, []⟩

def served (node : WindowedNode T) (window : Int) : Bool := (node.windows.map Prod.fst).contains window

def descriptors (node : WindowedNode T) : List WindowDescriptor :=
  node.windows.map (fun e => ⟨e.1, e.2, (node.disk e.1).readOnly⟩)

def exec (node : WindowedNode T) : NodeEffect K → WindowedNode T
  | .createWindow window =>
    { node with
      windows := OrdMap.alter (fun _ => none) window node.windows
      muxed := window :: node.muxed }
  | .shard window e => { node with disk := Function.update node.disk window ((node.disk window).exec [e]) }
  | .setZone window zone =>
    { node with windows := node.windows.map (fun e => if e.1 = window then (window, zone) else e) }
  | .swapWindowed descriptors => { node with gateway := descriptors }

def reboot (node : WindowedNode T) : WindowedNode T :=
  let disk := fun w => (node.disk w).reopen
  let windows := node.windows.map (fun e => (e.1, (disk e.1).redb.eventBounds))
  { disk := disk
    windows := windows
    muxed := windows.map Prod.fst
    gateway := windows.map (fun e => ⟨e.1, e.2, (disk e.1).readOnly⟩) }

end WindowedNode

instance : Effects (WindowedNode T) (NodeEffect K) := ⟨WindowedNode.exec⟩

end

structure WindowedWriteService where
  windowing : TimeWindowing
  cal : Calendar
  formatOf : String → Option TimeFormat
  indexName : String
  fence : PrimaryFence

def WindowedWriteService.under (svc : WindowedWriteService) (fence : PrimaryFence) :
    WindowedWriteService := { svc with fence := fence }

abbrev StagingOrder (K : Type) := Int → CommitBatch K → HashOrder (K × DocOp K)

namespace WindowedWriteService

def timeFields (svc : WindowedWriteService) : TimeFields where
  cal := svc.cal
  windowFormat := svc.formatOf svc.windowing.field
  eventTimeField := svc.windowing.eventTimeField
  eventFormat := svc.windowing.eventTimeField.bind svc.formatOf

variable {K : Type} [DecidableEq K] (T : Tantivy K (Document K))

abbrev Commit (A : Type) := Script (WindowedNode T) (NodeEffect K) Status A

variable {T} (svc : WindowedWriteService) (order : StagingOrder K)

def ensureWindow (window : Int) : Commit T Bool := do
  let node ← Script.look
  if node.served window then pure false
  else if node.muxed.contains window then Script.fail (.windowParked svc.indexName window)
  else do
    Script.perform [.createWindow window]
    pure true

def writeShard (window : Int) (batch : CommitBatch K) : Commit T Nat := do
  let node ← Script.look
  match (node.disk window).writePlan (order window batch) batch with
  | .error e => Script.fail (.store e)
  | .ok (plan, snapshot) =>
    Script.perform (plan.map (.shard window))
    pure snapshot

def commitWindow (acc : Nat × List Int) (wb : WindowBatch K) : Commit T (Nat × List Int) := do
  let isNew ← svc.ensureWindow wb.window
  let snapshot ← writeShard order wb.window wb.batch
  Script.perform [.shard wb.window (.txn (.eventBounds wb.eventMin wb.eventMax))]
  let node ← Script.look
  Script.perform [.setZone wb.window (node.disk wb.window).redb.eventBounds]
  pure (max acc.1 snapshot, if isNew then acc.2 ++ [wb.window] else acc.2)

def deleteBatch (batch : CommitBatch K) (deletes : List (DocOp K)) : CommitBatch K where
  ops := deletes
  checkpoint := batch.checkpoint
  batchId := batch.batchId ++ "#del"
  fromCheckpoint := none
  safeCheckpoint := batch.safeCheckpoint

def broadcastTo (deletes : CommitBatch K) (maxSnapshot : Nat) (window : Int) : Commit T Nat := do
  let node ← Script.look
  if svc.fence.allows svc.indexName window = false ∨ (node.disk window).readOnly = true then
    pure maxSnapshot
  else do
    let snapshot ← writeShard order window deletes
    pure (max maxSnapshot snapshot)

def commitWindowed (batch : CommitBatch K) : Commit T (Nat × List Int) := do
  let split := svc.windowing.partitionBatch svc.timeFields batch
  match split.1.find? (fun wb => !svc.fence.allows svc.indexName wb.window) with
  | some wb => Script.fail (.notPrimary svc.indexName wb.window)
  | none => do
    let acc ← split.1.foldlM (svc.commitWindow order) (0, [])
    if split.2 = [] then pure acc
    else do
      let node ← Script.look
      let snapshot ← (node.windows.map Prod.fst).foldlM
        (svc.broadcastTo order (deleteBatch batch split.2)) acc.1
      pure (snapshot, acc.2)

def publishNewWindows : Commit T Unit := do
  let node ← Script.look
  Script.perform [.swapWindowed node.descriptors]

def write (batch : CommitBatch K) : Commit T Nat := do
  let done ← svc.commitWindowed order batch
  if done.2 = [] then pure done.1
  else do
    publishNewWindows
    pure done.1

def getCheckpoint (node : WindowedNode T) (window : Int) :
    Except Status (Option SourceCheckpoint × Nat) :=
  if svc.fence.allows svc.indexName window = false then .error (.notPrimary svc.indexName window)
  else if node.served window then
    .ok ((node.disk window).redb.checkpoint, (node.disk window).redb.snapshot)
  else if node.muxed.contains window then .error (.windowParked svc.indexName window)
  else .ok (none, 0)

end WindowedWriteService

end GrowlerDB.Engine
