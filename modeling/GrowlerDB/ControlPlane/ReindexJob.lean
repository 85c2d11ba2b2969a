import GrowlerDB.ControlPlane.Catalog
import GrowlerDB.Lib.Runs
import Mathlib.Logic.Function.Basic

namespace GrowlerDB.ControlPlane
open Core Lib Function

abbrev JobId := Nat

abbrev Target := NodeId × UnitId

variable {S : Type}

/-- A generation built next to the live one. A node does not record for which job it was built. -/
structure Staged (S : Type) where
  job : JobId
  definition : Definition S
  deriving DecidableEq

structure SourceContext (S : Type) where
  resolved : Definition S
  /-- the build slot: claimed from a build on, until its promotion or its discard -/
  staged : Bool
  /-- the `reindex` directory beside the live shard -/
  staging : Option (Staged S)
  /-- builds that populate their generation now -/
  running : List (Staged S)
  fence : Bool
  /-- `progress.cancel` -/
  cancel : Bool

namespace SourceContext

variable (ctx : SourceContext S)

def claim (st : Staged S) : Option (SourceContext S) :=
  if ctx.staged then none
  else some { ctx with staged := true, cancel := false, staging := none, running := st :: ctx.running }

def built [DecidableEq S] (st : Staged S) (ok : Bool) : SourceContext S :=
  let ctx := { ctx with running := ctx.running.erase st }
  if ok then { ctx with staging := some st } else { ctx with staged := false }

def engage : Option (SourceContext S) :=
  if ctx.fence then none else some { ctx with fence := true }

def swap (alter : Option (Definition S)) : Option (SourceContext S) :=
  match ctx.staging with
  | none => none
  | some _ => some { ctx with
      resolved := alter.getD ctx.resolved, staging := none, fence := false, staged := false }

def discard : SourceContext S :=
  { ctx with staging := none, fence := false, staged := false }

end SourceContext

namespace IndexEntry

def targets (entry : IndexEntry S) : List Target :=
  entry.shards.entries.filterMap (fun e => e.2.primary.map (fun node => (node, .shard e.1))) ++
    entry.windows.entries.filterMap (fun e => e.2.assignment.primary.map (fun node => (node, .window e.1)))

def primaryEndpoint (index : String) (assignment : ShardAssignment) (unit : UnitId) : Except String Target :=
  match assignment.primary with
  | none => .error (unit.text ++ " of `" ++ index ++ "` has no primary; cannot reindex")
  | some node =>
    if node.isEmpty then .error (unit.text ++ " of `" ++ index ++ "` has no primary; cannot reindex")
    else .ok (node, unit)

variable (index : String) (entry : IndexEntry S)

/-- The units of a job: the hot windows of a windowed index, the shards of another. A cold window is
skipped. -/
def planReindexShards : Except String (List Target) :=
  if entry.definition.windowing.isSome then
    let hot := entry.windows.entries.filter (fun e => !e.2.cold)
    match hot.mapM (fun e => primaryEndpoint index e.2.assignment (.window e.1)) with
    | .error e => .error e
    | .ok [] => .error ("index `" ++ index ++ "` has no hot windows to reindex (" ++
        toString (entry.windows.entries.length - hot.length) ++
        " cold windows skipped; cold-window reindex is a follow-up)")
    | .ok units => .ok units
  else if entry.shards.entries.isEmpty then
    .error ("index `" ++ index ++ "` has no assigned shards to reindex")
  else entry.shards.entries.mapM (fun e => primaryEndpoint index e.2 (.shard e.1))

def setDefinition (expected : Nat) (definition : Definition S) :
    Except RegistryError (IndexEntry S) :=
  if entry.definitionVersion ≠ expected then
    .error (.placementConflict ("the definition of `" ++ index ++
      "` changed while this alter ran — re-plan and retry"))
  else .ok { entry with definition := definition, definitionVersion := expected + 1 }

def commitReindexCutover (definition : Option (Nat × Definition S))
    (expectedGen newGen : Nat) : Except RegistryError (IndexEntry S) :=
  if entry.generation ≠ expectedGen then
    .error (.placementConflict ("the generation of `" ++ index ++
      "` changed while this reindex ran — re-plan and retry"))
  else match definition with
    | none => .ok { entry with generation := newGen }
    | some (expectedDefVer, definition) =>
      if entry.definitionVersion ≠ expectedDefVer then
        .error (.placementConflict ("the definition of `" ++ index ++
          "` changed while this alter ran — re-plan and retry"))
      else .ok { entry with
        generation := newGen, definition := definition, definitionVersion := entry.definitionVersion + 1 }

end IndexEntry

inductive JobEnd
  | done
  | failed
  | canceled
  deriving DecidableEq

inductive BuildReply
  | ok
  /-- another build has the slot -/
  | refused
  | failed
  | cancelled
  deriving DecidableEq

inductive BuildCall
  | sent
  | running
  | answered (reply : BuildReply)
  deriving DecidableEq

inductive JobPhase
  | pending
  /-- the head of the build loop -/
  | building (todo built : List Target)
  | awaiting (target : Target) (todo built : List Target) (call : BuildCall)
  /-- DISCARD goes to each of `todo`, then the job ends -/
  | unwinding (todo : List Target) (canceled : Bool)
  /-- `engaged` once the fence of the first unit of `todo` is taken -/
  | promoting (todo : List Target) (engaged : Bool)
  | cuttingOver
  | ended (state : JobEnd)
  deriving DecidableEq

structure ReindexJob (S : Type) where
  /-- the new definition of an alter; a plain reindex has none -/
  alter : Option (Definition S)
  units : List Target
  cancelRequested : Bool
  /-- captured when the driver starts -/
  currentGen : Nat
  currentDefVer : Nat
  windowed : Bool
  /-- the units whose promotion took effect on their node -/
  promoted : List Target
  phase : JobPhase

structure Reindexing (S : Type) where
  index : String
  entry : IndexEntry S
  node : Target → SourceContext S
  jobs : JobId → Option (ReindexJob S)

inductive PromoteResult
  | done
  /-- the node promoted, and its answer was lost -/
  | lost
  | failed
  deriving DecidableEq

inductive ReindexEvent (S : Type)
  /-- plan the units and create the job -/
  | create (j : JobId) (alter : Option (Definition S))
  /-- the driver takes its next step that calls no node -/
  | advance (j : JobId)
  | arrive (j : JobId)
  | finish (target : Target) (st : Staged S) (ok : Bool)
  | deliver (j : JobId)
  /-- BUILD fails towards the driver, whatever the node does with it -/
  | lose (j : JobId)
  | engage (j : JobId)
  | swap (j : JobId) (result : PromoteResult)
  /-- DISCARD; it may fail without an effect -/
  | discard (j : JobId) (handled : Bool)
  /-- the commit of the job; the catalog may fail to persist -/
  | cutover (j : JobId) (persisted : Bool)
  | cancelJob (j : JobId)
  | cancelBuild (target : Target)
  /-- any other change of the registry entry -/
  | change (entry : IndexEntry S)

namespace ReindexJob

def unwind (job : ReindexJob S) (target : Target) (built : List Target) (cancelled : Bool) : ReindexJob S :=
  if cancelled || job.cancelRequested then { job with phase := .unwinding (target :: built) true }
  else { job with phase := .unwinding built false }

def answered (job : ReindexJob S) (target : Target) (todo built : List Target) : BuildReply → ReindexJob S
  | .ok => { job with phase := .building todo (built ++ [target]) }
  | .cancelled => job.unwind target built true
  | .refused | .failed => job.unwind target built false

def advance (entry : IndexEntry S) (job : ReindexJob S) : ReindexJob S :=
  match job.phase with
  | .pending => { job with
      currentGen := entry.generation, currentDefVer := entry.definitionVersion
      windowed := entry.definition.windowing.isSome, phase := .building job.units [] }
  | .building todo built =>
    if job.cancelRequested then { job with phase := .unwinding built true }
    else match todo with
      | target :: todo => { job with phase := .awaiting target todo built .sent }
      | [] => { job with phase := .promoting job.units false }
  | .unwinding [] canceled => { job with phase := .ended (if canceled then .canceled else .failed) }
  | .promoting [] _ => { job with phase := .cuttingOver }
  | _ => job

def commit (index : String) (entry : IndexEntry S) (job : ReindexJob S) :
    Except RegistryError (IndexEntry S × Bool) :=
  if job.windowed then
    match job.alter with
    | none => .ok (entry, false)
    | some definition => (entry.setDefinition index job.currentDefVer definition).map (fun entry => (entry, true))
  else
    (entry.commitReindexCutover index (job.alter.map (fun definition => (job.currentDefVer, definition)))
      job.currentGen (job.currentGen + 1)).map (fun entry => (entry, true))

end ReindexJob

namespace Reindexing

def setJob (s : Reindexing S) (j : JobId) (job : ReindexJob S) : Reindexing S :=
  { s with jobs := update s.jobs j (some job) }

def setNode (s : Reindexing S) (target : Target) (ctx : SourceContext S) : Reindexing S :=
  { s with node := update s.node target ctx }

section
variable {s : Reindexing S} {j : JobId}

@[simp] lemma setJob_node (job : ReindexJob S) : (s.setJob j job).node = s.node := rfl

@[simp] lemma setJob_entry (job : ReindexJob S) : (s.setJob j job).entry = s.entry := rfl

@[simp] lemma setNode_jobs (ctx : SourceContext S) : (s.setNode t ctx).jobs = s.jobs := rfl

@[simp] lemma setNode_entry (ctx : SourceContext S) : (s.setNode t ctx).entry = s.entry := rfl

lemma jobs_setJob (job : ReindexJob S) (k : JobId) :
    (s.setJob j job).jobs k = if k = j then some job else s.jobs k :=
  update_apply s.jobs j (some job) k

lemma node_setNode (ctx : SourceContext S) (t' : Target) :
    (s.setNode t ctx).node t' = if t' = t then ctx else s.node t' :=
  update_apply s.node t ctx t'

end

def answer (s : Reindexing S) (target : Target) (j : JobId) (reply : BuildReply) : Reindexing S :=
  match s.jobs j with
  | some job =>
    match job.phase with
    | .awaiting target' todo built .running =>
      if target' = target then s.setJob j { job with phase := .awaiting target todo built (.answered reply) }
      else s
    | _ => s
  | none => s

variable [DecidableEq S]

def onJob (s : Reindexing S) (j : JobId) (job : ReindexJob S) : ReindexEvent S → Reindexing S
  | .advance _ => s.setJob j (job.advance s.entry)
  | .arrive _ =>
    match job.phase with
    | .awaiting target todo built .sent =>
      match (s.node target).claim ⟨j, job.alter.getD (s.node target).resolved⟩ with
      | none => s.setJob j { job with phase := .awaiting target todo built (.answered .refused) }
      | some ctx => (s.setNode target ctx).setJob j { job with phase := .awaiting target todo built .running }
    | _ => s
  | .deliver _ =>
    match job.phase with
    | .awaiting target todo built (.answered reply) => s.setJob j (job.answered target todo built reply)
    | _ => s
  | .lose _ =>
    match job.phase with
    | .awaiting target _ built _ => s.setJob j (job.unwind target built false)
    | _ => s
  | .engage _ =>
    match job.phase with
    | .promoting (target :: todo) false =>
      match (s.node target).engage with
      | none => s.setJob j { job with phase := .unwinding (target :: todo) false }
      | some ctx => (s.setNode target ctx).setJob j { job with phase := .promoting (target :: todo) true }
    | _ => s
  | .swap _ result =>
    match job.phase with
    | .promoting (target :: todo) true =>
      match (if result = .failed then none else (s.node target).swap job.alter) with
      | none => (s.setNode target { s.node target with fence := false }).setJob j
          { job with phase := .unwinding (target :: todo) false }
      | some ctx => (s.setNode target ctx).setJob j { job with
          promoted := job.promoted ++ [target]
          phase := if result = .done then .promoting todo false else .unwinding (target :: todo) false }
    | _ => s
  | .discard _ handled =>
    match job.phase with
    | .unwinding (target :: todo) canceled =>
      (if handled then s.setNode target (s.node target).discard else s).setJob j
        { job with phase := .unwinding todo canceled }
    | _ => s
  | .cutover _ persisted =>
    match job.phase with
    | .cuttingOver =>
      match job.commit s.index s.entry with
      | .error _ => s.setJob j { job with phase := .ended .failed }
      | .ok (entry, writes) =>
        if writes && !persisted then s.setJob j { job with phase := .ended .failed }
        else { s with entry := entry }.setJob j { job with phase := .ended .done }
    | _ => s
  | .cancelJob _ =>
    match job.phase with
    | .ended _ => s
    | _ => s.setJob j { job with cancelRequested := true }
  | _ => s

def job? : ReindexEvent S → Option JobId
  | .advance j | .arrive j | .deliver j | .lose j | .engage j | .swap j _ | .discard j _ | .cutover j _
  | .cancelJob j => some j
  | .create _ _ | .finish _ _ _ | .cancelBuild _ | .change _ => none

section

variable (s : Reindexing S) (e : ReindexEvent S)

def perJob : Reindexing S :=
  match job? e with
  | none => s
  | some j =>
    match s.jobs j with
    | none => s
    | some job => s.onJob j job e

def step : Reindexing S :=
  match e with
  | .create j alter =>
    match s.jobs j, s.entry.planReindexShards s.index with
    | none, .ok units => s.setJob j ⟨alter, units, false, 0, 0, false, [], .pending⟩
    | _, _ => s
  | .finish target st ok =>
    if st ∈ (s.node target).running then
      let reply := if ok then .ok else if (s.node target).cancel then .cancelled else .failed
      (s.setNode target ((s.node target).built st ok)).answer target st.job reply
    else s
  | .cancelBuild target => s.setNode target { s.node target with cancel := true }
  | .change entry => { s with entry := entry }
  | e => s.perJob e

inductive Moves (s : Reindexing S) : ReindexEvent S → Reindexing S → Prop
  | create (hnone : s.jobs j = none) (hplan : s.entry.planReindexShards s.index = .ok units) :
      Moves s (.create j alter) (s.setJob j ⟨alter, units, false, 0, 0, false, [], .pending⟩)
  | advance (hjob : s.jobs j = some job) : Moves s (.advance j) (s.setJob j (job.advance s.entry))
  | refuse (hjob : s.jobs j = some job) (hphase : job.phase = .awaiting target todo built .sent) :
      Moves s (.arrive j) (s.setJob j { job with phase := .awaiting target todo built (.answered .refused) })
  | claim (hjob : s.jobs j = some job) (hphase : job.phase = .awaiting target todo built .sent)
      (hclaim : (s.node target).claim ⟨j, job.alter.getD (s.node target).resolved⟩ = some ctx) :
      Moves s (.arrive j) ((s.setNode target ctx).setJob j { job with phase := .awaiting target todo built .running })
  | finish (hrunning : st ∈ (s.node target).running) :
      Moves s (.finish target st ok) ((s.setNode target ((s.node target).built st ok)).answer target st.job
        (if ok then .ok else if (s.node target).cancel then .cancelled else .failed))
  | deliver (hjob : s.jobs j = some job) (hphase : job.phase = .awaiting target todo built (.answered reply)) :
      Moves s (.deliver j) (s.setJob j (job.answered target todo built reply))
  | lose (hjob : s.jobs j = some job) (hphase : job.phase = .awaiting target todo built call) :
      Moves s (.lose j) (s.setJob j (job.unwind target built false))
  | fenced (hjob : s.jobs j = some job) (hphase : job.phase = .promoting (target :: todo) false)
      (hfence : (s.node target).fence = true) :
      Moves s (.engage j) (s.setJob j { job with phase := .unwinding (target :: todo) false })
  | engage (hjob : s.jobs j = some job) (hphase : job.phase = .promoting (target :: todo) false) :
      Moves s (.engage j) ((s.setNode target { s.node target with fence := true }).setJob j
        { job with phase := .promoting (target :: todo) true })
  | spoil (hjob : s.jobs j = some job) (hphase : job.phase = .promoting (target :: todo) true)
      (hfailed : result = .failed ∨ (s.node target).staging = none) :
      Moves s (.swap j result) ((s.setNode target { s.node target with fence := false }).setJob j
        { job with phase := .unwinding (target :: todo) false })
  | swap (hjob : s.jobs j = some job)
      (hphase : job.phase = .promoting (target :: todo) true) (hresult : result ≠ .failed)
      (hswap : (s.node target).swap job.alter = some ctx) :
      Moves s (.swap j result) ((s.setNode target ctx).setJob j { job with
        promoted := job.promoted ++ [target]
        phase := if result = .done then .promoting todo false else .unwinding (target :: todo) false })
  | discard {canceled handled : Bool} (hjob : s.jobs j = some job)
      (hphase : job.phase = .unwinding (target :: todo) canceled) :
      Moves s (.discard j handled) ((if handled then s.setNode target (s.node target).discard else s).setJob j
        { job with phase := .unwinding todo canceled })
  | conflict {persisted : Bool} (hjob : s.jobs j = some job) (hphase : job.phase = .cuttingOver)
      (hcommit : persisted = false ∨ ∃ error, job.commit s.index s.entry = .error error) :
      Moves s (.cutover j persisted) (s.setJob j { job with phase := .ended .failed })
  | commit {persisted writes : Bool} {entry : IndexEntry S}
      (hjob : s.jobs j = some job) (hphase : job.phase = .cuttingOver)
      (hcommit : job.commit s.index s.entry = .ok (entry, writes)) :
      Moves s (.cutover j persisted) ({ s with entry := entry }.setJob j { job with phase := .ended .done })
  | cancelJob (hjob : s.jobs j = some job) : Moves s (.cancelJob j) (s.setJob j { job with cancelRequested := true })
  | cancelBuild : Moves s (.cancelBuild target) (s.setNode target { s.node target with cancel := true })
  | change {entry : IndexEntry S} : Moves s (.change entry) { s with entry := entry }

lemma moves_of_onJob
    (hj : job? e = some j) (hjob : s.jobs j = some job) : s.onJob j job e = s ∨ Moves s e (s.onJob j job e) := by
  cases e <;> cases hj
  case advance => exact .inr (.advance hjob)
  case arrive =>
    simp only [onJob]
    split
    · rename_i hphase
      split
      · exact .inr (.refuse hjob hphase)
      · exact .inr (.claim hjob hphase ‹_›)
    · exact .inl rfl
  case deliver =>
    simp only [onJob]
    split
    · exact .inr (.deliver hjob ‹_›)
    · exact .inl rfl
  case lose =>
    simp only [onJob]
    split
    · exact .inr (.lose hjob ‹_›)
    · exact .inl rfl
  case engage =>
    simp only [onJob]
    split
    · rename_i target todo hphase
      cases hf : (s.node target).fence with
      | true =>
        simp only [SourceContext.engage, hf, if_true]
        exact .inr (.fenced hjob hphase hf)
      | false =>
        simp only [SourceContext.engage, hf, Bool.false_eq_true, if_false]
        exact .inr (.engage hjob hphase)
    · exact .inl rfl
  case swap result =>
    simp only [onJob]
    split
    · rename_i target todo hphase
      split
      · rename_i hnone
        refine .inr (.spoil hjob hphase ?_)
        split_ifs at hnone with hr
        · exact .inl hr
        · unfold SourceContext.swap at hnone
          split at hnone
          · exact .inr ‹_›
          · cases hnone
      · rename_i ctx hsome
        split_ifs at hsome with hr
        exact .inr (.swap hjob hphase hr hsome)
    · exact .inl rfl
  case discard =>
    simp only [onJob]
    split
    · exact .inr (.discard hjob ‹_›)
    · exact .inl rfl
  case cutover persisted =>
    simp only [onJob]
    split
    · rename_i hphase
      split
      · exact .inr (.conflict hjob hphase (.inr ⟨_, ‹_›⟩))
      · rename_i entry writes hcommit
        split_ifs with hw
        · simp only [Bool.and_eq_true, Bool.not_eq_true'] at hw
          exact .inr (.conflict hjob hphase (.inl hw.2))
        · exact .inr (.commit hjob hphase hcommit)
    · exact .inl rfl
  case cancelJob =>
    simp only [onJob]
    split
    · exact .inl rfl
    · exact .inr (.cancelJob hjob)

lemma moves_of_perJob : s.perJob e = s ∨ Moves s e (s.perJob e) := by
  unfold perJob
  split
  · exact .inl rfl
  · split
    · exact .inl rfl
    · exact moves_of_onJob s e ‹_› ‹_›

lemma moves_of_step : s.step e = s ∨ Moves s e (s.step e) := by
  cases e
  case create j alter =>
    simp only [step]
    split
    · exact .inr (.create ‹_› ‹_›)
    · exact .inl rfl
  case finish target st ok =>
    simp only [step]
    split
    · exact .inr (.finish ‹_›)
    · exact .inl rfl
  case cancelBuild => exact .inr .cancelBuild
  case change => exact .inr .change
  case advance j => exact moves_of_perJob s (.advance j)
  case arrive j => exact moves_of_perJob s (.arrive j)
  case deliver j => exact moves_of_perJob s (.deliver j)
  case lose j => exact moves_of_perJob s (.lose j)
  case engage j => exact moves_of_perJob s (.engage j)
  case swap j result => exact moves_of_perJob s (.swap j result)
  case discard j handled => exact moves_of_perJob s (.discard j handled)
  case cutover j persisted => exact moves_of_perJob s (.cutover j persisted)
  case cancelJob j => exact moves_of_perJob s (.cancelJob j)

end

def run (s : Reindexing S) (events : List (ReindexEvent S)) : Reindexing S := events.foldl step s

end Reindexing

end GrowlerDB.ControlPlane
