import GrowlerDB.Core.Window
import Mathlib.Data.Finset.Card
import Mathlib.Data.String.Basic

namespace GrowlerDB.ControlPlane
open Core Lib

abbrev NodeId := String

inductive UnitId
  | shard (ordinal : Nat)
  | window (id : Int)
  deriving DecidableEq

def UnitId.text : UnitId → String
  | .shard ordinal => "shard " ++ toString ordinal
  | .window id => "window " ++ toString id

inductive RegistryError
  | alreadyExists (name : String)
  | invalidDefinition (text : String)
  | placementConflict (text : String)
  | notFound (index : String)
  | aliasNameClash (name : String)
  | aliasNotFound (name : String)
  | noReplica (index : String) (shard : Nat)
  | primaryStillAssigned (index : String) (shard : Nat) (primary : NodeId)
  | noLiveNode (index unit : String)
  | entitlementExceeded (nodes entitled : Nat)
  | backend (text : String)

/-- How a persist goes: the maps are written, or they are not, and then restored from the store or left. -/
inductive PersistOutcome
  | stored
  | restored
  | unrestored
  deriving DecidableEq

namespace PersistOutcome

variable {M : Type}

def memory (outcome : PersistOutcome) (changed stored : M) : M :=
  if outcome = .restored then stored else changed

def store (outcome : PersistOutcome) (changed stored : M) : M :=
  if outcome = .stored then changed else stored

end PersistOutcome

structure ShardAssignment where
  primary : Option NodeId
  replicas : List NodeId
  deriving DecidableEq

def ShardAssignment.none : ShardAssignment := ⟨.none, []⟩

def ShardAssignment.nodes (a : ShardAssignment) : List NodeId := a.primary.toList ++ a.replicas

structure WindowAssignment where
  assignment : ShardAssignment
  eventMin : Option Int
  eventMax : Option Int
  cold : Bool

def WindowAssignment.none : WindowAssignment := ⟨.none, .none, .none, false⟩

inductive IndexStatus
  | building
  | active

structure Definition (S : Type) where
  name : String
  shardCount : Nat
  windowing : Option TimeWindowing
  schema : S
  deriving DecidableEq

structure IndexEntry (S : Type) where
  definition : Definition S
  status : IndexStatus
  shards : BTreeMap Nat ShardAssignment
  windows : BTreeMap Int WindowAssignment
  bucketOwners : List Nat
  generation : Nat
  definitionVersion : Nat

abbrev Indexes (S : Type) := BTreeMap String (IndexEntry S)

variable {S : Type}

namespace IndexEntry

variable (entry : IndexEntry S)

def unitAssignment : UnitId → Option ShardAssignment
  | .shard ordinal => entry.shards.get? ordinal
  | .window id => (entry.windows.get? id).map WindowAssignment.assignment

def assignmentOf (unit : UnitId) : ShardAssignment :=
  (entry.unitAssignment unit).getD .none

def unitPrimary (unit : UnitId) : Option NodeId :=
  (entry.unitAssignment unit).bind ShardAssignment.primary

def setAssignment (unit : UnitId) (a : ShardAssignment) : IndexEntry S :=
  match unit with
  | .shard ordinal => { entry with shards := entry.shards.insert ordinal a }
  | .window id => { entry with
      windows := entry.windows.entry id (fun w => { w.getD .none with assignment := a }) }

lemma unitAssignment_setAssignment (unit unit' : UnitId) (a : ShardAssignment) :
    (entry.setAssignment unit a).unitAssignment unit' =
      if unit = unit' then some a else entry.unitAssignment unit' := by
  cases unit <;> cases unit' <;> simp [setAssignment, unitAssignment, BTreeMap.get?_insert, BTreeMap.get?_entry]
  split_ifs <;> simp

lemma unitPrimary_eq (unit : UnitId) : entry.unitPrimary unit = (entry.assignmentOf unit).primary := by
  rw [unitPrimary, assignmentOf]
  cases entry.unitAssignment unit <;> rfl

lemma unitPrimary_setAssignment (unit unit' : UnitId) (a : ShardAssignment) :
    (entry.setAssignment unit a).unitPrimary unit' = if unit = unit' then a.primary else entry.unitPrimary unit' := by
  rw [unitPrimary, unitAssignment_setAssignment]
  split_ifs <;> rfl

end IndexEntry

def primaryOf (indexes : Indexes S) (index : String) (unit : UnitId) : Option NodeId :=
  (indexes.get? index).bind (fun entry => entry.unitPrimary unit)

def validateIndexName (name : String) : Bool :=
  !name.isEmpty && decide (name.utf8ByteSize ≤ 128) && name.toList.all (fun c => c.isAlphanum || c == '_' || c == '-')

def create (definition : Definition S) (indexes : Indexes S) : Except RegistryError (Indexes S) :=
  if validateIndexName definition.name then
    match indexes.get? definition.name with
    | some _ => .error (.alreadyExists definition.name)
    | none => .ok (indexes.insert definition.name ⟨definition, .building, .empty, .empty, [], 0, 0⟩)
  else .error (.invalidDefinition ("invalid index name `" ++ definition.name ++
    "`: use 1-128 characters from a-z, A-Z, 0-9, `_` and `-` " ++
    "(the name becomes a filesystem path component)"))

end GrowlerDB.ControlPlane
