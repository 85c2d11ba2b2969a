import GrowlerDB.Core.Key
import GrowlerDB.Index.SequentialCommit

namespace GrowlerDB.Engine
open Core Index Lib Replay Shard IndexWrite List.Subset

/-- The term dictionary of the key field, with the liveness of each term. -/
structure KeyTerms (T : Tantivy CompositeKey (Document CompositeKey)) where
  keys : T.Idx → List CompositeKey
  live : ∀ i k, k ∈ keys i ↔ T.find i k ≠ []

inductive Phase
  | waiting
  | captured (expected : Option SourceCheckpoint)
  | scanned (expected : Option SourceCheckpoint)
  | compared (expected : Option SourceCheckpoint) (stale : List CompositeKey)
  | probing (left missing : List (Document CompositeKey))
  | positioned (missing : List (Document CompositeKey)) (checkpoint : SourceCheckpoint)
  | staged (r : StagedRef CompositeKey)
  | done
  | failed (e : StoreError)
  deriving DecidableEq

inductive ReconcileEvent
  | ingest (staged : List (StagedRef CompositeKey))
  | capture
  | scan (snapshot : SourceCheckpoint) (rows : List (Document CompositeKey))
  | compare
  | delete
  | probe
  | position
  | stage (order : HashOrder (CompositeKey × DocOp CompositeKey))
  | commit

variable {T : Tantivy CompositeKey (Document CompositeKey)}

/-- The shard and the reconcile at work on it, with the batches the ingest has committed and how many of them before
the capture; `lost` and `revived` are the keys deleted or put back against the ingest. -/
structure Reconcile (T : Tantivy CompositeKey (Document CompositeKey)) where
  shard : Shard T
  phase : Phase
  history : List (StagedRef CompositeKey)
  since : Nat
  snapshot : SourceCheckpoint
  rows : List (Document CompositeKey)
  lost : List CompositeKey
  revived : List CompositeKey

def lastTouch (batches : List (StagedRef CompositeKey)) (k : CompositeKey) : Option (StagedRef CompositeKey) :=
  (batches.filter fun r => (lastChange r.changes k).isSome).getLast?

def endsAfter (c snapshot : SourceCheckpoint) : Bool :=
  match c.sequenceNumber, snapshot.sequenceNumber with
  | some e, some seq => decide (seq < e)
  | some _, none => true
  | none, _ => false

def appliedBatches (s : Shard T) (staged : List (StagedRef CompositeKey)) : List (StagedRef CompositeKey) :=
  match Shard.applicable s.redb.checkpoint staged with
  | .ok applied => applied
  | .error _ => []

namespace Reconcile

section

variable (st : Reconcile T)

/-- The last operation on the key is an upsert of a batch that ends behind the snapshot the source was read at. -/
def unseen (k : CompositeKey) : Bool :=
  (lastTouch st.history k).any fun r => (lastChange r.changes k).join.isSome && endsAfter r.checkpoint st.snapshot

/-- The last operation on the key since the capture is a delete. -/
def deletedSince (k : CompositeKey) : Bool :=
  (lastTouch (st.history.drop st.since) k).any fun r => (lastChange r.changes k).join.isNone

def staleKeys (terms : KeyTerms T) (partition : List (String × Value)) (st : Reconcile T) : List CompositeKey :=
  ((terms.keys st.shard.store.durable).filter (inScope partition)).filter fun k => !(st.rows.map Document.key).contains k

def deletePlan (stale : List CompositeKey) : Plan CompositeKey :=
  stale.map (fun k => .write (.deleteTerm k)) ++ [.flush]

def driftBatch (driftId : List (List UInt8) → String) (missing : List (Document CompositeKey))
    (checkpoint : SourceCheckpoint) : CommitBatch CompositeKey :=
  ⟨missing.map .upsert, checkpoint, driftId (missing.map fun d => d.key.encode), none, none⟩

def ingest (staged : List (StagedRef CompositeKey)) : Reconcile T :=
  match st.shard.commitPlan staged with
  | .error _ => st
  | .ok (plan, _) => { st with shard := st.shard.exec plan, history := st.history ++ appliedBatches st.shard staged }

def compare (terms : KeyTerms T) (partition : List (String × Value)) (st : Reconcile T)
    (expected : Option SourceCheckpoint) : Reconcile T :=
  let stale := st.staleKeys terms partition
  { st with phase := if stale = [] then .probing st.rows [] else .compared expected stale }

def delete (expected : Option SourceCheckpoint) (stale : List CompositeKey) : Reconcile T :=
  if st.shard.readOnly then { st with phase := .failed .readOnlyShard }
  else if expected.isSome ∧ st.shard.redb.checkpoint ≠ expected then { st with phase := .probing st.rows [] }
  else { st with
    shard := st.shard.exec (deletePlan stale)
    phase := .probing st.rows []
    lost := st.lost ++ stale.filter st.unseen }

def probe (d : Document CompositeKey) (left missing : List (Document CompositeKey)) : Reconcile T :=
  { st with phase := .probing left (if st.shard.live d.key = [] then missing ++ [d] else missing) }

def position (missing : List (Document CompositeKey)) : Reconcile T :=
  { st with phase := if missing = [] then .done else .positioned missing (st.shard.redb.checkpoint.getD ⟨0, none⟩) }

def stage (driftId : List (List UInt8) → String) (st : Reconcile T)
    (order : HashOrder (CompositeKey × DocOp CompositeKey)) (missing : List (Document CompositeKey))
    (checkpoint : SourceCheckpoint) : Reconcile T :=
  match st.shard.stageBatch order (driftBatch driftId missing checkpoint) with
  | .error e => { st with phase := .failed e }
  | .ok r => { st with phase := .staged r }

def commit (r : StagedRef CompositeKey) : Reconcile T :=
  match st.shard.commitPlan [r] with
  | .error e => { st with phase := .failed e }
  | .ok (plan, _) =>
    { st with
      shard := st.shard.exec plan
      phase := .done
      revived := st.revived ++
        (appliedBatches st.shard [r]).flatMap fun r => (r.changes.map Prod.fst).filter st.deletedSince }

end

variable (terms : KeyTerms T) (driftId : List (List UInt8) → String) (partition : List (String × Value))

def step (st : Reconcile T) (e : ReconcileEvent) : Reconcile T :=
  match e, st.phase with
  | .ingest staged, _ => st.ingest staged
  | .capture, .waiting => { st with phase := .captured st.shard.redb.checkpoint, since := st.history.length }
  | .scan snapshot rows, .captured expected => { st with phase := .scanned expected, snapshot := snapshot, rows := rows }
  | .compare, .scanned expected => st.compare terms partition expected
  | .delete, .compared expected stale => st.delete expected stale
  | .probe, .probing (d :: left) missing => st.probe d left missing
  | .position, .probing [] missing => st.position missing
  | .stage order, .positioned missing checkpoint => st.stage driftId order missing checkpoint
  | .commit, .staged r => st.commit r
  | _, _ => st

def run (st : Reconcile T) (events : List ReconcileEvent) : Reconcile T :=
  events.foldl (step terms driftId partition) st

end Reconcile

open List Option

def Phase.repairsAt : Phase → Option SourceCheckpoint
  | .positioned _ c => some c
  | .staged r => some r.checkpoint
  | _ => none

def ReconcileEvent.isIngest : ReconcileEvent → Bool
  | .ingest _ => true
  | _ => false

variable {missing : List (Document CompositeKey)} {k : CompositeKey}

namespace Reconcile

def Condition (seqOf : Int → Int) (driftId : List (List UInt8) → String) (partition : List (String × Value))
    (st : Reconcile T) : ReconcileEvent → Prop
  | .ingest staged => (∀ r ∈ staged, Sequenced seqOf r.checkpoint) ∧
      -- the ingest moves the checkpoint past a repair under way
      ∀ c last, st.phase.repairsAt = some c → (appliedBatches st.shard staged).getLast? = some last →
        Sequenced seqOf c ∧ Core.position (some c) < Core.position (some last.checkpoint)
  | .scan snapshot rows =>
      (∀ expected, st.phase = .captured expected → Core.position expected ≤ Core.position (some snapshot)) ∧
      ∀ d ∈ rows, inScope partition d.key = true
  | .delete => ∀ stale, st.phase = .compared none stale → st.shard.redb.checkpoint = none
  | .position => ∀ missing, st.phase = .probing [] missing → ∀ d ∈ missing, st.deletedSince d.key = false
  | .stage _ => ∀ missing c, st.phase = .positioned missing c →
      driftId (missing.map fun d => d.key.encode) ∉ st.shard.redb.ids
  | _ => True

def Meets (seqOf : Int → Int) (terms : KeyTerms T) (driftId : List (List UInt8) → String)
    (partition : List (String × Value)) : Reconcile T → List ReconcileEvent → Prop
  | _, [] => True
  | st, e :: rest => st.Condition seqOf driftId partition e ∧
      Meets seqOf terms driftId partition (st.step terms driftId partition e) rest

/-- A shard before a reconcile, right or drifted: nothing is in its writer, and what the ingest has committed ends
no later than its checkpoint. -/
structure Started (seqOf : Int → Int) (st : Reconcile T) : Prop where
  waiting : st.phase = .waiting
  clean : st.shard.store.pending = st.shard.store.durable
  sequenced : ∀ c, st.shard.redb.checkpoint = some c → Sequenced seqOf c
  behind : ∀ r ∈ st.history, Core.position (some r.checkpoint) ≤ Core.position st.shard.redb.checkpoint
  since : st.since ≤ st.history.length
  lost : st.lost = []
  revived : st.revived = []

def Quiet (st : Reconcile T) : Prop := st.history.length = st.since

section

variable (partition : List (String × Value)) (st : Reconcile T)

def NoStale : Prop :=
  ∀ k, inScope partition k = true → st.shard.live k ≠ [] → ∃ d ∈ st.rows, d.key = k

def RowsIn : Prop :=
  ∀ d ∈ st.rows, inScope partition d.key = true

end

/-- A repair of these keys at a checkpoint revives none: they are not deleted, or the shard is past the checkpoint. -/
def Settled (seqOf : Int → Int) (st : Reconcile T) (keys : CompositeKey → Prop) (c : SourceCheckpoint) : Prop :=
  (∀ k, keys k → st.deletedSince k = false) ∨
    (Sequenced seqOf c ∧ Core.position (some c) < Core.position st.shard.redb.checkpoint)

structure Repair (seqOf : Int → Int) (partition : List (String × Value)) (st : Reconcile T) (r : StagedRef CompositeKey) :
    Prop where
  bootstrap : r.fromCheckpoint = none
  upserts : ∀ k v, lastChange r.changes k = some v → v.isSome = true
  rows : ∀ k, (lastChange r.changes k).isSome = true → ∃ d ∈ st.rows, d.key = k
  settled : st.Settled seqOf (fun k => (lastChange r.changes k).isSome = true) r.checkpoint
  quiet : st.Quiet → r.alreadyApplied = false ∧ r.checkpoint = st.shard.redb.checkpoint.getD ⟨0, none⟩ ∧
    st.NoStale partition ∧ ∀ d ∈ st.rows, st.shard.live d.key ≠ [] ∨ (lastChange r.changes d.key).isSome = true

def PhaseSound (seqOf : Int → Int) (partition : List (String × Value)) (st : Reconcile T) : Phase → Prop
  | .waiting => True
  | .captured e => st.Quiet → e = st.shard.redb.checkpoint
  | .scanned e => Core.position e ≤ Core.position (some st.snapshot) ∧ st.RowsIn partition ∧
      (st.Quiet → e = st.shard.redb.checkpoint)
  | .compared e stale => Core.position e ≤ Core.position (some st.snapshot) ∧ st.RowsIn partition ∧
      (∀ k ∈ stale, inScope partition k = true ∧ ¬ ∃ d ∈ st.rows, d.key = k) ∧
      (st.Quiet → e = st.shard.redb.checkpoint ∧
        ∀ k, inScope partition k = true → st.shard.live k ≠ [] → (∃ d ∈ st.rows, d.key = k) ∨ k ∈ stale)
  | .probing left missing => st.RowsIn partition ∧ (left ⊆ st.rows ∧ missing ⊆ st.rows) ∧
      (st.Quiet → st.NoStale partition ∧ ∀ d ∈ st.rows, d ∈ left ∨ d ∈ missing ∨ st.shard.live d.key ≠ [])
  | .positioned missing c => st.RowsIn partition ∧ missing ⊆ st.rows ∧
      st.Settled seqOf (fun k => ∃ d ∈ missing, d.key = k) c ∧
      (st.Quiet → c = st.shard.redb.checkpoint.getD ⟨0, none⟩ ∧ st.NoStale partition ∧
        ∀ d ∈ st.rows, d ∈ missing ∨ st.shard.live d.key ≠ [])
  | .staged r => st.RowsIn partition ∧ st.Repair seqOf partition r
  | .done => st.Quiet → st.NoStale partition ∧ ∀ d ∈ st.rows, st.shard.live d.key ≠ []
  | .failed _ => True

structure Sound (seqOf : Int → Int) (partition : List (String × Value)) (st : Reconcile T) : Prop where
  clean : st.shard.store.pending = st.shard.store.durable
  sequenced : st.phase ≠ .done → ∀ c, st.shard.redb.checkpoint = some c → Sequenced seqOf c
  behind : st.phase ≠ .done → ∀ r ∈ st.history, Core.position (some r.checkpoint) ≤ Core.position st.shard.redb.checkpoint
  since : st.since ≤ st.history.length
  lost : st.lost = []
  revived : st.revived = []
  phase : PhaseSound seqOf partition st st.phase

variable {seqOf : Int → Int} {terms : KeyTerms T} {driftId : List (List UInt8) → String}
  {partition : List (String × Value)} {st : Reconcile T}

lemma Started.sound (h : st.Started seqOf) : st.Sound seqOf partition where
  clean := h.clean
  sequenced _ := h.sequenced
  behind _ := h.behind
  since := h.since
  lost := h.lost
  revived := h.revived
  phase := by
    rw [h.waiting]
    trivial

lemma appliedBatches_eq
    (h : applicable st.shard.redb.checkpoint staged = .ok applied) : appliedBatches st.shard staged = applied := by
  rw [appliedBatches, h]

lemma ingest_cases (hclean : st.shard.store.pending = st.shard.store.durable) (staged : List (StagedRef CompositeKey)) :
    st.ingest staged = st ∨ ∃ applied plan last, Committed st.shard staged applied plan ∧
      applied.getLast? = some last ∧ st.ingest staged = { st with shard := st.shard.exec plan, history := st.history ++ applied } := by
  unfold ingest
  cases hplan : st.shard.commitPlan staged with
  | error e => exact .inl rfl
  | ok p =>
    obtain ⟨applied, hcom⟩ := committed hclean hplan
    dsimp only
    rw [appliedBatches_eq hcom.applicable]
    cases hlast : applied.getLast? with
    | none =>
      obtain rfl := List.getLast?_eq_none_iff.mp hlast
      rw [hcom.nothing rfl, append_nil]
      exact .inl rfl
    | some last => exact .inr ⟨applied, p.1, last, hcom, hlast, rfl⟩

lemma mem_staleKeys : k ∈ st.staleKeys terms partition ↔
    st.shard.live k ≠ [] ∧ inScope partition k ∧ ¬ ∃ d ∈ st.rows, d.key = k := by
  unfold staleKeys
  simp only [List.mem_filter, terms.live, Bool.not_eq_true', List.contains_eq_mem, decide_eq_false_iff_not, List.mem_map]
  rw [and_assoc]
  rfl

lemma unseen_eq_false
    (h : ∀ r ∈ st.history, Core.position (some r.checkpoint) ≤ Core.position (some st.snapshot)) : st.unseen k = false := by
  unfold unseen
  cases hlast : lastTouch st.history k with
  | none => rfl
  | some r =>
    have hr : r ∈ st.history := mem_of_mem_filter (mem_of_getLast? hlast)
    have hle := h r hr
    have hends : endsAfter r.checkpoint st.snapshot = false := by
      unfold endsAfter
      unfold Core.position at hle
      simp only [bind_some] at hle
      cases hc : r.checkpoint.sequenceNumber with
      | none => rfl
      | some e =>
        rw [hc] at hle
        cases hs : st.snapshot.sequenceNumber with
        | none =>
          rw [hs] at hle
          exact absurd hle (not_le.mpr (WithBot.bot_lt_coe e))
        | some seq =>
          rw [hs] at hle
          exact decide_eq_false (not_lt.mpr (WithBot.coe_le_coe.mp hle))
    simp [hends]

lemma exec_deletePlan (s : Shard T) (hclean : s.store.pending = s.store.durable) (stale : List CompositeKey) :
    (s.exec (deletePlan stale)).redb = s.redb ∧
      (s.exec (deletePlan stale)).store.pending = (s.exec (deletePlan stale)).store.durable ∧
      ∀ k, (s.exec (deletePlan stale)).live k = if k ∈ stale then [] else s.live k := by
  have hno : ∀ e ∈ deletePlan stale, ∀ x, e ≠ WriteBack.Effect.txn x := by
    intro e he x hx
    subst hx
    simp [deletePlan] at he
  have hdurable : (s.exec (deletePlan stale)).store.durable = (s.exec (deletePlan stale)).store.pending := by
    rw [exec, deletePlan, WriteBack.run_append]
    rfl
  have hwrites : WriteBack.writes (deletePlan stale) = stale.map deleteTerm := by
    rw [deletePlan, WriteBack.writes_append, deletes_writes]
    exact List.append_nil _
  refine ⟨WriteBack.run_table _ _ _ _ hno, hdurable.symm, fun k => ?_⟩
  rw [live, hdurable, exec, WriteBack.run_pending, hwrites, hclean, find_writes, changed, List.map_map]
  by_cases hk : k ∈ stale
  · have hlast : lastChange (stale.map (change ∘ deleteTerm)) k =
        some (none : Option (Document CompositeKey)) := by
      refine lastChange_of_agree (List.mem_map.mpr ⟨k, hk, rfl⟩) fun w hw => ?_
      obtain ⟨_, -, heq⟩ := List.mem_map.mp hw
      exact (Prod.mk.inj heq).2.symm
    rw [hlast, if_pos hk]
    rfl
  · have hlast : lastChange (stale.map (change (K := CompositeKey) ∘ deleteTerm)) k = none := by
      refine lastChange_eq_none.mpr fun c hc heq => hk ?_
      obtain ⟨k', hk', rfl⟩ := List.mem_map.mp hc
      exact heq ▸ hk'
    rw [hlast, if_neg hk]
    rfl

lemma continuity_repair (current : Option SourceCheckpoint) : continuity current none (current.getD ⟨0, none⟩) = .apply := by
  cases current with
  | none => rfl
  | some c =>
    have hsame : c.lineageCmp c = some .eq := by simp [SourceCheckpoint.lineageCmp, SourceCheckpoint.samePosition]
    simp only [getD_some, continuity, hsame]

lemma driftBatch_changes :
    (driftBatch driftId missing c).changes = missing.map fun d => (d.key, some d) := by
  simp only [driftBatch, CommitBatch.changes, List.map_map]
  rfl

lemma lastChange_missing
    (h : lastChange (missing.map fun d => (d.key, some d)) k = some v) : v.isSome = true ∧ ∃ d ∈ missing, d.key = k := by
  obtain ⟨d, hd, heq⟩ := mem_map.mp (lastChange_mem h)
  obtain ⟨rfl, rfl⟩ := Prod.mk.inj heq
  exact ⟨rfl, d, hd, rfl⟩

variable (h : st.Sound seqOf partition)
include h

lemma Sound.inPhase (hph : st.phase = p) : PhaseSound seqOf partition st p := hph ▸ h.phase

lemma Sound.moves (hne : st.phase ≠ .done)
    (hp : PhaseSound seqOf partition { st with phase := p } p) : Sound seqOf partition { st with phase := p } :=
  ⟨h.clean, fun _ => h.sequenced hne, fun _ => h.behind hne, h.since, h.lost, h.revived, hp⟩

lemma Sound.ingest (hc : st.Condition seqOf driftId partition (.ingest staged)) : (st.ingest staged).Sound seqOf partition := by
  obtain ⟨hseq, hpast⟩ := hc
  rcases ingest_cases h.clean staged with heq | ⟨applied, plan, last, hcom, hlast, heq⟩
  · rwa [heq]
  rw [heq]
  have hne : applied ≠ [] := fun hnil => by rw [hnil] at hlast; cases hlast
  have hmore : ¬ (st.history ++ applied).length = st.since := by
    have hpos := length_pos_of_ne_nil hne
    have hsince := h.since
    rw [length_append]
    omega
  have hcheck := hcom.checkpoint last hlast
  refine ⟨hcom.clean, fun hph c hcp => ?_, fun hph r hr => ?_, ?_, h.lost, h.revived, ?_⟩
  · obtain ⟨hsub, -⟩ := applicable_forward hcom.applicable (h.sequenced hph) hseq
    obtain rfl := some.inj (hcheck.symm.trans hcp)
    exact hseq last (hsub (mem_of_getLast? hlast))
  · obtain ⟨-, hforward⟩ := applicable_forward hcom.applicable (h.sequenced hph) hseq
    obtain ⟨hup, hends⟩ := hforward last hlast
    rw [hcheck]
    rcases mem_append.mp hr with hold | hnew
    · exact (h.behind hph r hold).trans hup
    · exact hends r hnew
  · exact h.since.trans (by rw [length_append]; exact Nat.le_add_right _ _)
  · -- What is said of a reconcile without commits beside it is no more asked for.
    have hphase := h.phase
    dsimp only
    cases hph : st.phase with
    | waiting => trivial
    | captured e => exact fun hq => absurd hq hmore
    | compared e stale =>
      rw [hph] at hphase
      exact ⟨hphase.1, hphase.2.1, hphase.2.2.1, fun hq => absurd hq hmore⟩
    | positioned missing c =>
      rw [hph] at hphase
      obtain ⟨hsc, hlt⟩ := hpast c last (by rw [hph]; rfl) (by rw [appliedBatches_eq hcom.applicable, hlast])
      exact ⟨hphase.1, hphase.2.1, .inr ⟨hsc, hcheck ▸ hlt⟩, fun hq => absurd hq hmore⟩
    | staged r =>
      rw [hph] at hphase
      obtain ⟨hsc, hlt⟩ := hpast r.checkpoint last (by rw [hph]; rfl)
        (by rw [appliedBatches_eq hcom.applicable, hlast])
      exact ⟨hphase.1, hphase.2.bootstrap, hphase.2.upserts, hphase.2.rows, .inr ⟨hsc, hcheck ▸ hlt⟩,
        fun hq => absurd hq hmore⟩
    | done => exact fun hq => absurd hq hmore
    | failed e => trivial
    | _ =>
      rw [hph] at hphase
      exact ⟨hphase.1, hphase.2.1, fun hq => absurd hq hmore⟩

lemma Sound.compare (hph : st.phase = .scanned expected) : (st.compare terms partition expected).Sound seqOf partition := by
  have hne : st.phase ≠ .done := by simp [hph]
  obtain ⟨hpos, hrows, hquiet⟩ := h.inPhase hph
  refine h.moves hne ?_
  split_ifs with hstale
  · refine ⟨hrows, ⟨refl _, nil_subset _⟩, fun hq => ⟨fun k hk hlive => ?_, fun d hd => .inl hd⟩⟩
    by_contra hnot
    have hmem : k ∈ st.staleKeys terms partition := mem_staleKeys.mpr ⟨hlive, hk, hnot⟩
    rw [hstale] at hmem
    exact absurd hmem not_mem_nil
  · refine ⟨hpos, hrows, fun k hk => (mem_staleKeys.mp hk).2, fun hq => ⟨hquiet hq, fun k hk hlive => ?_⟩⟩
    by_cases hrow : ∃ d ∈ st.rows, d.key = k
    · exact .inl hrow
    · exact .inr (mem_staleKeys.mpr ⟨hlive, hk, hrow⟩)

lemma Sound.delete (hph : st.phase = .compared expected stale) (hc : st.Condition seqOf driftId partition .delete) :
    (st.delete expected stale).Sound seqOf partition := by
  have hne : st.phase ≠ .done := by simp [hph]
  obtain ⟨hpos, hrows, hstale, hquiet⟩ := h.inPhase hph
  unfold Reconcile.delete
  split_ifs with hro hguard
  · exact h.moves hne trivial
  · exact h.moves hne ⟨hrows, ⟨refl _, nil_subset _⟩, fun hq => absurd (hquiet hq).1.symm hguard.2⟩
  · obtain ⟨hredb, hclean, hlive⟩ := exec_deletePlan st.shard h.clean stale
    have hbelow : Core.position st.shard.redb.checkpoint ≤ Core.position (some st.snapshot) := by
      cases expected with
      | none => rwa [hc stale hph]
      | some c =>
        have hsame : st.shard.redb.checkpoint = some c := by
          by_contra hdiff
          exact hguard ⟨rfl, hdiff⟩
        rwa [hsame]
    have hseen : ∀ k, st.unseen k = false := fun k => unseen_eq_false fun r hr => (h.behind hne r hr).trans hbelow
    refine ⟨hclean, fun _ => ?_, fun _ => ?_, h.since, ?_, h.revived, hrows, ⟨refl _, nil_subset _⟩,
      fun hq => ⟨?_, fun d hd => .inl hd⟩⟩
    · simp only [hredb]
      exact h.sequenced hne
    · simp only [hredb]
      exact h.behind hne
    · simp only [h.lost, nil_append]
      exact filter_eq_nil_iff.mpr fun k _ => by rw [hseen k]; exact Bool.false_ne_true
    · intro k hk hk'
      simp only [hlive] at hk'
      split_ifs at hk' with hmem
      · exact absurd rfl hk'
      · exact ((hquiet hq).2 k hk hk').resolve_right hmem

lemma Sound.probe (hph : st.phase = .probing (d :: left) missing) :
    (st.probe d left missing).Sound seqOf partition := by
  have hne : st.phase ≠ .done := by simp [hph]
  obtain ⟨hrows, ⟨hleft, hsub⟩, hquiet⟩ := h.inPhase hph
  obtain ⟨hd, hleft⟩ := cons_subset.mp hleft
  refine h.moves hne ⟨hrows, ⟨hleft, ?_⟩, fun hq => ?_⟩
  · split_ifs
    · exact append_subset.mpr ⟨hsub, cons_subset.mpr ⟨hd, nil_subset _⟩⟩
    · exact hsub
  · obtain ⟨hstale, hall⟩ := hquiet hq
    refine ⟨hstale, fun e he => ?_⟩
    rcases hall e he with hleft | hmiss | hlive
    · rcases mem_cons.mp hleft with rfl | hleft
      · by_cases hlive : st.shard.live e.key = []
        · rw [if_pos hlive]
          exact .inr (.inl (mem_append_right _ mem_cons_self))
        · exact .inr (.inr hlive)
      · exact .inl hleft
    · refine .inr (.inl ?_)
      split_ifs
      · exact mem_append_left _ hmiss
      · exact hmiss
    · exact .inr (.inr hlive)

lemma Sound.position (hph : st.phase = .probing [] missing) (hc : st.Condition seqOf driftId partition .position) :
    (st.position missing).Sound seqOf partition := by
  have hne : st.phase ≠ .done := by simp [hph]
  obtain ⟨hrows, ⟨-, hsub⟩, hquiet⟩ := h.inPhase hph
  have hall : st.Quiet → ∀ d ∈ st.rows, d ∈ missing ∨ st.shard.live d.key ≠ [] := fun hq d hd =>
    ((hquiet hq).2 d hd).resolve_left not_mem_nil
  refine h.moves hne ?_
  split_ifs with hnone
  · refine fun hq => ⟨(hquiet hq).1, fun d hd => (hall hq d hd).resolve_left ?_⟩
    rw [hnone]
    exact not_mem_nil
  · refine ⟨hrows, hsub, .inl ?_, fun hq => ⟨rfl, (hquiet hq).1, hall hq⟩⟩
    rintro k ⟨d, hd, rfl⟩
    exact hc missing hph d hd

lemma Sound.stage (hph : st.phase = .positioned missing c)
    (hc : st.Condition seqOf driftId partition (.stage order)) :
    (st.stage driftId order missing c).Sound seqOf partition := by
  have hne : st.phase ≠ .done := by simp [hph]
  obtain ⟨hrows, hsub, hsettled, hquiet⟩ := h.inPhase hph
  unfold Reconcile.stage
  cases hstage : st.shard.stageBatch order (driftBatch driftId missing c) with
  | error e => exact h.moves hne trivial
  | ok r =>
    obtain ⟨hcp, hfrom, -, hcontent⟩ := stageBatch_ok hstage
    have hfresh : ¬ (st.shard.redb.batchSnapshot (driftBatch driftId missing c).batchId).isSome := fun hrec =>
      hc missing c hph (Redb.batchSnapshot_isSome_iff.mp hrec)
    -- The content is that of the batch, or nothing where the shard is past it.
    have hkeys : ∀ k v, lastChange r.changes k = some v → v.isSome ∧ ∃ d ∈ missing, d.key = k := by
      intro k v hv
      rcases hcontent with ⟨-, hrec⟩ | ⟨-, hnil, -⟩ | ⟨-, -, hsame, -⟩
      · exact absurd hrec hfresh
      · simp [hnil] at hv
      · rw [hsame, driftBatch_changes] at hv
        exact lastChange_missing hv
    have hmiss : ∀ k, (lastChange r.changes k).isSome → ∃ d ∈ missing, d.key = k := fun k hk =>
      (hkeys k _ (eq_some_of_isSome hk)).2
    refine h.moves hne ⟨hrows, hfrom, fun k v hv => (hkeys k v hv).1, fun k hk => ?_, ?_, fun hq => ?_⟩
    · obtain ⟨d, hd, hdk⟩ := hmiss k hk
      exact ⟨d, hsub hd, hdk⟩
    · rw [hcp]
      exact hsettled.imp_left fun hall k hk => hall k (hmiss k hk)
    · obtain ⟨hat, hstale, hall⟩ := hquiet hq
      have happly : continuity st.shard.redb.checkpoint none c = .apply := hat ▸ continuity_repair _
      rcases hcontent with ⟨-, hrec⟩ | ⟨-, -, hno⟩ | ⟨hnew, -, hsame, -⟩
      · exact absurd hrec hfresh
      · rw [show (driftBatch driftId missing c).fromCheckpoint = none from rfl,
          show (driftBatch driftId missing c).checkpoint = c from rfl, happly] at hno
        cases hno
      · refine ⟨hnew, hcp.trans hat, hstale, fun d hd => (hall d hd).elim (fun hm => .inr ?_) .inl⟩
        rw [hsame, driftBatch_changes, isSome_iff_ne_none]
        intro hnone
        exact lastChange_eq_none.mp hnone _ (mem_map.mpr ⟨d, hm, rfl⟩) rfl

lemma Sound.commit {r : StagedRef CompositeKey} (hph : st.phase = .staged r) :
    (st.commit r).Sound seqOf partition := by
  have hne : st.phase ≠ .done := by simp [hph]
  obtain ⟨hrows, hrep⟩ := h.inPhase hph
  unfold Reconcile.commit
  cases hplan : st.shard.commitPlan [r] with
  | error e => exact h.moves hne trivial
  | ok p =>
    obtain ⟨applied, hcom⟩ := committed h.clean hplan
    have hcase := applicable_single hcom.applicable
    dsimp only
    rw [appliedBatches_eq hcom.applicable]
    refine ⟨hcom.clean, fun hd => absurd rfl hd, fun hd => absurd rfl hd, h.since, h.lost, ?_, fun hq => ?_⟩
    · rw [h.revived, nil_append, flatMap_eq_nil_iff]
      intro r' hr'
      rcases hcase with ⟨rfl, -⟩ | ⟨rfl, happly⟩
      · exact absurd hr' not_mem_nil
      · obtain rfl := mem_singleton.mp hr'
        refine filter_eq_nil_iff.mpr fun k hk => ?_
        obtain ⟨c, hmem, rfl⟩ := mem_map.mp hk
        have htouch : (lastChange r'.changes c.1).isSome := by
          rw [isSome_iff_ne_none]
          exact fun hnone => lastChange_eq_none.mp hnone c hmem rfl
        rcases hrep.settled with hall | ⟨hseq, hlt⟩
        · rw [hall c.1 htouch]
          exact Bool.false_ne_true
        · -- The shard is past the repair, which is then a no-op.
          cases hcp : st.shard.redb.checkpoint with
          | none =>
            rw [hcp] at hlt
            exact absurd hlt (not_lt.mpr bot_le)
          | some cp => simp [hcp, continuity_behind (h.sequenced hne cp hcp) hseq (hcp ▸ hlt)] at happly
    · obtain ⟨hnew, hat, hstale, hall⟩ := hrep.quiet hq
      have happly : continuity st.shard.redb.checkpoint r.fromCheckpoint r.checkpoint = .apply := by
        rw [hrep.bootstrap, hat]
        exact continuity_repair _
      obtain rfl : applied = [r] := by
        rcases hcase with ⟨-, hold | hno⟩ | ⟨heq, -⟩
        · simp [hnew] at hold
        · simp [happly] at hno
        · exact heq
      have hlive : ∀ k, (st.shard.exec p.1).live k = changed st.shard.live r.changes k := by
        intro k
        rw [hcom.live, flatMap_cons, flatMap_nil, append_nil]
      refine ⟨fun k hk hk' => ?_, fun d hd => ?_⟩
      · rw [hlive, changed] at hk'
        cases hl : lastChange r.changes k with
        | none =>
          rw [hl] at hk'
          exact hstale k hk hk'
        | some v => exact hrep.rows k (by rw [hl]; rfl)
      · rw [hlive, changed]
        cases hl : lastChange r.changes d.key with
        | none =>
          refine (hall d hd).resolve_right fun hsome => ?_
          simp [hl] at hsome
        | some v =>
          obtain ⟨doc, rfl⟩ := isSome_iff_exists.mp (hrep.upserts d.key v hl)
          exact cons_ne_nil doc []

lemma Sound.step (hc : st.Condition seqOf driftId partition e) :
    (st.step terms driftId partition e).Sound seqOf partition := by
  unfold Reconcile.step
  split
  · exact h.ingest hc
  · rename_i hph
    have hne : st.phase ≠ .done := by simp [hph]
    exact ⟨h.clean, fun _ => h.sequenced hne, fun _ => h.behind hne, le_rfl, h.lost, h.revived, fun _ => rfl⟩
  · rename_i snapshot rows expected hph
    have hne : st.phase ≠ .done := by simp [hph]
    have hphase := h.inPhase hph
    exact ⟨h.clean, fun _ => h.sequenced hne, fun _ => h.behind hne, h.since, h.lost, h.revived,
      hc.1 expected hph, hc.2, hphase⟩
  · rename_i hph
    exact h.compare hph
  · rename_i hph
    exact h.delete hph hc
  · rename_i hph
    exact h.probe hph
  · rename_i hph
    exact h.position hph hc
  · rename_i hph
    exact h.stage hph hc
  · rename_i hph
    exact h.commit hph
  · exact h

lemma Sound.run (hm : st.Meets seqOf terms driftId partition events) :
    (st.run terms driftId partition events).Sound seqOf partition := by
  induction events generalizing st with
  | nil => exact h
  | cons e events ih => exact ih (h.step hm.1) hm.2

lemma Sound.elsewhere (he : e.isIngest = false)
    (hk : inScope partition k = false) : (st.step terms driftId partition e).shard.live k = st.shard.live k := by
  unfold Reconcile.step
  split
  · cases he
  · rfl
  · rfl
  · rfl
  · rename_i expected stale hph
    obtain ⟨-, -, hstale, -⟩ := h.inPhase hph
    unfold Reconcile.delete
    split_ifs
    · rfl
    · rfl
    · refine ((exec_deletePlan st.shard h.clean stale).2.2 k).trans (if_neg fun hmem => ?_)
      simp [(hstale k hmem).1] at hk
  · rfl
  · rfl
  · unfold Reconcile.stage
    split <;> rfl
  · rename_i r hph
    obtain ⟨hrows, hrep⟩ := h.inPhase hph
    unfold Reconcile.commit
    split
    · rfl
    · rename_i plan n hplan
      obtain ⟨applied, hcom⟩ := committed h.clean hplan
      refine (hcom.live k).trans ?_
      have hnone : lastChange (applied.flatMap StagedRef.changes) k = none := by
        rcases applicable_single hcom.applicable with ⟨rfl, -⟩ | ⟨rfl, -⟩
        · rfl
        · rw [flatMap_cons, flatMap_nil, append_nil, ← not_isSome_iff_eq_none]
          intro htouch
          obtain ⟨d, hd, rfl⟩ := hrep.rows k htouch
          simp [hrows d hd] at hk
      rw [changed, hnone]
      rfl
  · rfl

end Reconcile

/-- In a run whose steps meet their conditions, the reconcile never deletes a key whose last operation is an upsert
behind the snapshot that was read, and never puts back a row deleted since the capture; when it is over and nothing
was committed beside it, the keys of the partition are the source's; and no key of another partition changes. -/
theorem reconcile_safe (terms : KeyTerms T) (driftId : List (List UInt8) → String) (seqOf : Int → Int)
    (partition : List (String × Value)) (hpart : ∀ f ∈ partition, FieldEncodable f) (st : Reconcile T)
    (hst : st.Started seqOf) (events : List ReconcileEvent) (hm : st.Meets seqOf terms driftId partition events) :
    let st' := st.run terms driftId partition events
    st'.lost = [] ∧ st'.revived = [] ∧
      (st'.phase = .done → st'.history.length = st'.since → ∀ k : CompositeKey, k.Encodable → partition <+: k.partition →
        (st'.shard.live k ≠ [] ↔ ∃ d ∈ st'.rows, d.key = k)) ∧
      ∀ e : ReconcileEvent, e.isIngest = false → ∀ k : CompositeKey, k.Encodable → ¬ partition <+: k.partition →
        (st'.step terms driftId partition e).shard.live k = st'.shard.live k := by
  intro st'
  have h : st'.Sound seqOf partition := hst.sound.run hm
  refine ⟨h.lost, h.revived, fun hdone hquiet k henc hscope => ?_, fun e he k henc hscope => h.elsewhere he ?_⟩
  · have hphase : Reconcile.PhaseSound seqOf partition st' .done := hdone ▸ h.phase
    obtain ⟨hstale, hall⟩ := hphase hquiet
    constructor
    · exact hstale k ((inScope_iff henc hpart).mpr hscope)
    · rintro ⟨d, hd, rfl⟩
      exact hall d hd
  · rwa [← Bool.not_eq_true, inScope_iff henc hpart]

namespace SampleDrift

abbrev tantivy : Tantivy CompositeKey (Document CompositeKey) := listTantivy CompositeKey (Document CompositeKey)

lemma mem_keys (i : List (CompositeKey × Document CompositeKey)) (k : CompositeKey) :
    k ∈ i.map Prod.fst ↔ (i.filter fun e => decide (e.1 = k)).map Prod.snd ≠ [] := by
  rw [ne_eq, map_eq_nil_iff, filter_eq_nil_iff]
  simp

def terms : KeyTerms tantivy where
  keys i := List.map Prod.fst i
  live := mem_keys

def driftId (_ : List (List UInt8)) : String := "reconcile"

def key (n : Int) : CompositeKey := ⟨[], [("id", .int n)]⟩

def row (n : Int) : Document CompositeKey := ⟨key n, []⟩

def start (checkpoint : Option SourceCheckpoint) (ids : List (String × Nat)) (docs : List (Document CompositeKey)) :
    Reconcile tantivy :=
  ⟨shardOf (docs.map fun d => (d.key, d)) ⟨checkpoint, 0, ids, [], none, none⟩ 0, .waiting, [], 0, ⟨0, none⟩, [], [], []⟩

def batch (upserts : List (Document CompositeKey)) (deletes : List CompositeKey) : StagedRef CompositeKey :=
  ⟨⟨20, some 2⟩, none, "second", upserts.map fun d => (d.key, d), deletes, false, none⟩

def repair : List ReconcileEvent := [.probe, .position, .stage (.insertion _), .commit]

def drifted (beside : List ReconcileEvent) : List ReconcileEvent :=
  [.capture, .scan ⟨10, some 1⟩ [row 2]] ++ beside ++ [.compare, .delete] ++ repair

def stale : Reconcile tantivy := start (some ⟨10, some 1⟩) [] [row 1]

def seqOf (snapshot : Int) : Int := snapshot / 10

lemma started : stale.Started seqOf :=
  ⟨rfl, rfl, fun _ h => (by cases h; rfl), fun _ h => absurd h not_mem_nil, le_rfl, rfl, rfl⟩

lemma scan_meets : Reconcile.Condition seqOf driftId [] (stale.step terms driftId [] .capture) (.scan ⟨10, some 1⟩ [row 2]) := by
  refine ⟨?_, fun d hd => ?_⟩
  · rintro _ ⟨⟩
    exact le_rfl
  · rw [mem_singleton.mp hd]
    decide +kernel

lemma drifted_meets : stale.Meets seqOf terms driftId [] (drifted []) := by
  refine ⟨trivial, scan_meets, trivial, ?_, trivial, ?_, ?_, trivial, trivial⟩
  · intro stale hph
    cases hph
  · intro missing _ d _
    rfl
  · intro missing c _
    exact not_mem_nil

def ingested : List ReconcileEvent := [.ingest [batch [row 3] []]]

lemma ingested_meets : stale.Meets seqOf terms driftId [] (drifted ingested) := by
  refine ⟨trivial, scan_meets, ⟨fun r hr => ?_, fun c last hc => (nomatch hc)⟩, trivial, ?_, trivial, ?_, ?_, trivial, trivial⟩
  · rw [mem_singleton.mp hr]
    rfl
  · intro stale hph
    cases hph
  · intro missing hph d hd
    cases hph
    rw [mem_singleton.mp hd]
    decide +kernel
  · intro missing c _
    show "reconcile" ∉ _
    decide +kernel

end SampleDrift

open SampleDrift

/-- A row is missing and one is stale. With an ingest before the compare the stale one is left for the next pass. -/
theorem reconcile_safe_repairs :
    let quiet := stale.run terms driftId [] (drifted [])
    let busy := stale.run terms driftId [] (drifted ingested)
    (quiet.phase = .done ∧ quiet.lost = [] ∧ quiet.revived = [] ∧
      (quiet.shard.live (key 2) ≠ [] ↔ ∃ d ∈ quiet.rows, d.key = key 2)) ∧
    busy.lost = [] ∧ busy.revived = [] ∧ [1, 2, 3].all (fun n => busy.shard.live (key n) ≠ []) := by
  intro quiet busy
  have hkey : ∀ f ∈ ([] : List (String × Value)), FieldEncodable f := fun _ hf => absurd hf not_mem_nil
  have h := reconcile_safe terms driftId seqOf [] hkey _ started _ drifted_meets
  have hbusy := reconcile_safe terms driftId seqOf [] hkey _ started _ ingested_meets
  have hdone : quiet.phase = .done := by decide +kernel
  exact ⟨⟨hdone, h.1, h.2.1, h.2.2.1 hdone (by decide +kernel) (key 2) (by decide) ( nil_prefix)⟩, hbusy.1, hbusy.2.1,
    by decide +kernel⟩

/-- Without a checkpoint at the capture, the row of a concurrent batch is deleted; a row such a batch deletes is put
back; and a repair of rows repaired and lost before is skipped. -/
theorem reconcile_against_ingest :
    let capture : List ReconcileEvent := [.capture, .scan ⟨10, some 1⟩ []]
    let lost := (start none [] []).run terms driftId []
      (capture ++ [.ingest [batch [row 1] []], .compare, .delete])
    let revived := (start (some ⟨10, some 1⟩) [] [row 1]).run terms driftId []
      ([.capture, .scan ⟨10, some 1⟩ [row 1], .ingest [batch [] [key 1]], .compare] ++
        repair)
    let again := (start (some ⟨10, some 1⟩) [("reconcile", 1)] []).run terms driftId []
      ([.capture, .scan ⟨10, some 1⟩ [row 1], .compare] ++ repair)
    (lost.lost = [key 1] ∧ lost.shard.live (key 1) = []) ∧
      (revived.revived = [key 1] ∧ revived.shard.live (key 1) = [row 1]) ∧
      (again.phase = .done ∧ again.history.length = again.since ∧ again.rows = [row 1] ∧
        again.shard.live (key 1) = []) := by
  decide +kernel

end GrowlerDB.Engine
