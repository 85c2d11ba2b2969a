import GrowlerDB.Index.SequentialCommit

namespace GrowlerDB.Index
open Core Lib List Option Shard RedbTxn WriteBack Redb

variable {n : Nat} {r : Redb}

def RedbTxn.runKeeping {K : Type} : RedbTxn K → Redb → Redb
  | .advance checkpoint snapshot applied, r =>
    { r with checkpoint := some checkpoint, snapshot := snapshot }.recordBatches applied snapshot
  | .eventBounds min max, r => r.setEventBounds min max

def RedbTxn.runWith {K : Type} (drop : Bool) : RedbTxn K → Redb → Redb :=
  if drop then RedbTxn.run else RedbTxn.runKeeping

section
variable {K : Type} {seqOf : Int → Int} {endOf : String → SourceCheckpoint}

/-- A batch of the lineage: its id names its end, and its resume floor lies before its end. -/
structure Lawful (seqOf : Int → Int) (endOf : String → SourceCheckpoint) (id : String)
    (checkpoint : SourceCheckpoint) (safe : Option SourceCheckpoint) : Prop where
  sequenced : Sequenced seqOf checkpoint
  named : endOf id = checkpoint
  floor : ∀ f q, safe = some f → f.sequenceNumber = some q → q < seqOf checkpoint.snapshotId

lemma floor_before_end {applied : List (StagedRef K)} {last : StagedRef K}
    (hl : ∀ r ∈ applied, Lawful seqOf endOf r.batchId r.checkpoint r.safeCheckpoint)
    (hle : ∀ r ∈ applied, position (some r.checkpoint) ≤ position (some last.checkpoint))
    (hfloor : (applied.filterMap (fun r => r.safeCheckpoint.bind SourceCheckpoint.sequenceNumber)).max? = some floor) :
    (floor : WithBot Int) < position (some last.checkpoint) := by
  obtain ⟨r, hr, hsafe⟩ := mem_filterMap.mp (List.max?_mem hfloor)
  obtain ⟨f, hf, hq⟩ := bind_eq_some_iff.mp hsafe
  have hend := (hl r hr).sequenced
  refine lt_of_lt_of_le ?_ (hle r hr)
  rw [hend.position, WithBot.coe_lt_coe]
  exact (hl r hr).floor f floor hf hq

/-- What a commit of the batches `applied` leaves in the tables: a batch it knew of and has no record of any more
ends before the new checkpoint. -/
structure Advanced (endOf : String → SourceCheckpoint) (r : Redb) (applied : List (StagedRef K))
    (last : StagedRef K) (n : Nat) (r' : Redb) : Prop where
  checkpoint : r'.checkpoint = some last.checkpoint
  snapshot : r'.snapshot = n
  tables : r'.TablesAgree endOf
  known : ∀ id ∈ r'.ids, (∃ s ∈ applied, s.batchId = id) ∨ id ∈ r.ids
  dropped : ∀ id, ((∃ s ∈ applied, s.batchId = id) ∨ id ∈ r.ids) → id ∉ r'.ids →
    position (some (endOf id)) < position (some last.checkpoint)

lemma mem_ids_runKeeping {applied : List (StagedRef K)} {c : SourceCheckpoint} {id : String} :
    id ∈ ((advance c n applied).runKeeping r).ids ↔ (∃ s ∈ applied, s.batchId = id) ∨ id ∈ r.ids :=
  mem_ids_recordBatches

lemma advance_keeping (last : StagedRef K) (n : Nat)
    (h : r.TablesAgree endOf) (hl : ∀ r ∈ applied, Lawful seqOf endOf r.batchId r.checkpoint r.safeCheckpoint) :
    Advanced endOf r applied last n ((advance last.checkpoint n applied).runKeeping r) where
  checkpoint := (recordBatches_elsewhere n _ applied).1
  snapshot := (recordBatches_elsewhere n _ applied).2
  tables := by
    have h' : Redb.TablesAgree endOf { r with checkpoint := some last.checkpoint, snapshot := n } := ⟨h.same, h.named⟩
    exact h'.recordBatches fun s hs => ⟨(hl s hs).sequenced, (hl s hs).named⟩
  known := fun _ hid => mem_ids_runKeeping.mp hid
  dropped := fun _ hid hnot => absurd (mem_ids_runKeeping.mpr hid) hnot

lemma advance_dropping {applied : List (StagedRef K)} (last : StagedRef K) (n : Nat)
    (h : r.TablesAgree endOf) (hl : ∀ r ∈ applied, Lawful seqOf endOf r.batchId r.checkpoint r.safeCheckpoint)
    (hle : ∀ r ∈ applied, position (some r.checkpoint) ≤ position (some last.checkpoint)) :
    Advanced endOf r applied last n ((RedbTxn.advance last.checkpoint n applied).run r) := by
  have hkeep := advance_keeping last n h hl
  rw [RedbTxn.run, Redb.recordAndPruneBatches]
  split
  · rename_i floor hfloor
    refine ⟨hkeep.checkpoint, hkeep.snapshot, hkeep.tables.prune floor,
      fun id hid => hkeep.known id (hkeep.tables.mem_ids_prune.mp hid).1, fun id hid hnot => ?_⟩
    have hstale : ∃ seq, (endOf id).sequenceNumber = some seq ∧ seq ≤ floor := by
      by_contra hfresh
      exact hnot (hkeep.tables.mem_ids_prune.mpr ⟨mem_ids_runKeeping.mpr hid, hfresh⟩)
    obtain ⟨seq, hseq, hlt⟩ := hstale
    refine lt_of_le_of_lt ?_ (floor_before_end hl hle hfloor)
    rw [position, bind_some, hseq]
    exact WithBot.coe_le_coe.mpr hlt
  · exact hkeep

/-- The same staged batch, or one that the first shard takes for new and finds behind its checkpoint, and that
the second has on record. -/
def SameRef (current : Option SourceCheckpoint) (r r' : StagedRef K) : Prop :=
  r = r' ∨ (r.alreadyApplied = false ∧ r'.alreadyApplied = true ∧ r.checkpoint = r'.checkpoint ∧
    r.batchId = r'.batchId ∧ r.safeCheckpoint = r'.safeCheckpoint ∧
    position (some r.checkpoint) < position current)

lemma SameRef.mono {current current' : Option SourceCheckpoint} {r r' : StagedRef K} (h : SameRef current r r')
    (hle : position current ≤ position current') : SameRef current' r r' := by
  rcases h with heq | ⟨hnew, hold, hend, hid, hsafe, hbehind⟩
  · exact .inl heq
  · exact .inr ⟨hnew, hold, hend, hid, hsafe, lt_of_lt_of_le hbehind hle⟩

lemma applicable_same
    (h : List.Forall₂ (SameRef current) refs refs') (hle : position current ≤ position pos)
    (hpos : ∀ c, pos = some c → Sequenced seqOf c) (hs : ∀ r ∈ refs, Sequenced seqOf r.checkpoint) :
    applicable pos refs = applicable pos refs' := by
  induction h generalizing pos with
  | nil => rfl
  | @cons r r' refs refs' hr hrest ih =>
    have hseq := hs r mem_cons_self
    have ih := fun {pos} hle hpos => @ih pos hle hpos fun t ht => hs t (mem_cons_of_mem _ ht)
    rw [applicable, applicable]
    rcases hr with rfl | ⟨hnew, hold, -, -, -, hbehind⟩
    · split_ifs
      · exact ih hle hpos
      · cases hc : continuity pos r.fromCheckpoint r.checkpoint with
        | noOp => exact ih hle hpos
        | gap => rfl
        | apply =>
          have hstep := continuity_forward hpos hseq hc
          dsimp only
          rw [ih (hle.trans hstep) fun c hc => some.inj hc ▸ hseq]
    · -- The batch is skipped by its position here, and by its record there.
      have hlt := lt_of_lt_of_le hbehind hle
      cases pos with
      | none => exact absurd hlt (not_lt.mpr bot_le)
      | some p =>
        rw [if_neg (by rw [hnew]; decide), if_pos hold, continuity_behind (hpos p rfl) hseq hlt]
        exact ih hle hpos

end

section
variable {K : Type} [DecidableEq K]

def Shard.execWith {T : Tantivy K (Document K)} (drop : Bool) (s : Shard T) (plan : Plan K) : Shard T :=
  { s with store := WriteBack.run (IndexWrite.run T) (RedbTxn.runWith drop) s.store plan }

structure Receiver (T : Tantivy K (Document K)) where
  shard : Shard T
  staged : List (StagedRef K)

inductive Delivery (K : Type)
  | stage (order : HashOrder (K × DocOp K)) (batch : CommitBatch K)
  | commit (slots : List Nat) (stop : Option Nat)

inductive Decision
  | staged
  | refused (e : StoreError)
  | accepted (ids : List String)
  | crashed
  deriving DecidableEq

variable {T : Tantivy K (Document K)}

namespace Receiver

def start (chunk : Nat) : Receiver T := ⟨.empty chunk, []⟩

def acceptedIds (s : Shard T) (refs : List (StagedRef K)) : List String :=
  match Shard.applicable s.redb.checkpoint refs with
  | .ok applied => applied.map StagedRef.batchId
  | .error _ => []

def slotRefs (st : Receiver T) (slots : List Nat) : List (StagedRef K) := slots.filterMap (st.staged[·]?)

def step (drop : Bool) (st : Receiver T) : Delivery K → Receiver T × Decision
  | .stage order batch =>
    match st.shard.stageBatch order batch with
    | .error e => (st, .refused e)
    | .ok r => ({ st with staged := st.staged ++ [r] }, .staged)
  | .commit slots stop =>
    match st.shard.commitPlan (st.slotRefs slots), stop with
    | .error e, _ => (st, .refused e)
    | .ok (plan, _), none =>
      ({ st with shard := st.shard.execWith drop plan }, .accepted (acceptedIds st.shard (st.slotRefs slots)))
    | .ok (plan, _), some n => (⟨(st.shard.execWith drop (plan.take n)).reopen, []⟩, .crashed)

def run (st : Receiver T) : List (Delivery K × Bool) → Receiver T × List Decision
  | [] => (st, [])
  | (d, drop) :: rest =>
    let r := st.step drop d
    let later := r.1.run rest
    (later.1, r.2 :: later.2)

end Receiver

def Delivery.Lawful (seqOf : Int → Int) (endOf : String → SourceCheckpoint) (d : Delivery K) : Prop :=
  ∀ order batch, d = .stage order batch → Index.Lawful seqOf endOf batch.batchId batch.checkpoint batch.safeCheckpoint

/-- The shard that drops records, and the one that keeps them. -/
structure Twins (seqOf : Int → Int) (endOf : String → SourceCheckpoint) (a b : Receiver T) : Prop where
  durable : a.shard.store.durable = b.shard.store.durable
  pending : a.shard.store.pending = b.shard.store.pending
  readOnly : a.shard.readOnly = b.shard.readOnly
  commitChunk : a.shard.commitChunk = b.shard.commitChunk
  checkpoint : a.shard.redb.checkpoint = b.shard.redb.checkpoint
  snapshot : a.shard.redb.snapshot = b.shard.redb.snapshot
  sequenced : ∀ c, a.shard.redb.checkpoint = some c → Sequenced seqOf c
  tablesA : a.shard.redb.TablesAgree endOf
  tablesB : b.shard.redb.TablesAgree endOf
  known : ∀ id ∈ a.shard.redb.ids, id ∈ b.shard.redb.ids
  dropped : ∀ id ∈ b.shard.redb.ids, id ∉ a.shard.redb.ids →
    position (some (endOf id)) < position a.shard.redb.checkpoint
  staged : List.Forall₂ (SameRef a.shard.redb.checkpoint) a.staged b.staged
  lawful : ∀ r ∈ a.staged, Lawful seqOf endOf r.batchId r.checkpoint r.safeCheckpoint

variable {seqOf : Int → Int} {endOf : String → SourceCheckpoint}

lemma Shard.redb_execWith {s : Shard T} {staged : List (StagedRef K)} {plan : Plan K}
    (h : s.commitPlan staged = .ok (plan, n)) (drop : Bool) :
    (s.execWith drop plan).redb = s.redb ∧ plan = [] ∨
    ∃ applied last, applicable s.redb.checkpoint staged = .ok applied ∧ applied.getLast? = some last ∧
      (s.execWith drop plan).redb = (advance last.checkpoint n applied).runWith drop s.redb := by
  obtain ⟨applied, ha, ⟨-, rfl⟩ | ⟨last, hl, ⟨-, rfl⟩ | ⟨body, hbody, -, rfl⟩⟩⟩ := commitPlan_ok h
  · exact .inl ⟨rfl, rfl⟩
  · exact .inr ⟨applied, last, ha, hl, rfl⟩
  · refine .inr ⟨applied, last, ha, hl, ?_⟩
    rw [redb, execWith, run_flush_txn _ _ _ _ _ hbody]
    rfl

namespace Twins
variable {a b : Receiver T}

lemma start (chunk : Nat) : Twins seqOf endOf (Receiver.start chunk : Receiver T) (.start chunk) := by
  have htables : empty.TablesAgree endOf :=
    ⟨fun id => ⟨fun h => absurd h not_mem_nil, fun ⟨_, h⟩ => absurd h not_mem_nil⟩, fun _ _ h => absurd h not_mem_nil⟩
  exact ⟨rfl, rfl, rfl, rfl, rfl, rfl, fun _ h => (by cases h), htables, htables, fun _ h => h,
    fun _ h hn => absurd h hn, .nil, fun _ h => absurd h not_mem_nil⟩

lemma slotRefs (h : Twins seqOf endOf a b) (slots : List Nat) :
    List.Forall₂ (SameRef a.shard.redb.checkpoint) (a.slotRefs slots) (b.slotRefs slots) := by
  refine rel_filterMap (R := Eq) ?_ (List.forall₂_refl slots)
  rintro i _ rfl
  beta_reduce
  have hlen := h.staged.length_eq
  by_cases hi : i < a.staged.length
  · have hi' : i < b.staged.length := hlen ▸ hi
    rw [List.getElem?_eq_getElem hi, List.getElem?_eq_getElem hi']
    exact .some (h.staged.get hi hi')
  · rw [List.getElem?_eq_none (Nat.le_of_not_lt hi), List.getElem?_eq_none (hlen ▸ Nat.le_of_not_lt hi)]
    exact .none

section

variable (h : Twins seqOf endOf a b) (slots : List Nat)
include h

lemma slotRefs_lawful : ∀ r ∈ a.slotRefs slots, Lawful seqOf endOf r.batchId r.checkpoint r.safeCheckpoint := by
  intro r hr
  obtain ⟨i, -, hi⟩ := mem_filterMap.mp hr
  exact h.lawful r (mem_of_getElem? hi)

lemma applicable_eq : applicable a.shard.redb.checkpoint (a.slotRefs slots) =
      applicable b.shard.redb.checkpoint (b.slotRefs slots) := by
  rw [← h.checkpoint]
  exact applicable_same (h.slotRefs slots) le_rfl h.sequenced fun r hr => (h.slotRefs_lawful slots r hr).sequenced

lemma commitPlan_eq : a.shard.commitPlan (a.slotRefs slots) = b.shard.commitPlan (b.slotRefs slots) := by
  rw [commitPlan, commitPlan, h.applicable_eq, h.readOnly, h.snapshot, h.commitChunk]

end

lemma run_images (h : Twins seqOf endOf a b) (drop : Bool) (plan : Plan K) :
    (a.shard.execWith drop plan).store.durable = (b.shard.execWith false plan).store.durable ∧
      (a.shard.execWith drop plan).store.pending = (b.shard.execWith false plan).store.pending :=
  WriteBack.run_images _ _ h.durable h.pending plan

lemma images (h : Twins seqOf endOf a b) (drop : Bool) (hp : ∀ e ∈ plan, ∀ x, e ≠ .txn x) :
    Twins seqOf endOf ⟨a.shard.execWith drop plan, a.staged⟩ ⟨b.shard.execWith false plan, b.staged⟩ := by
  have hsame := h.run_images drop plan
  have ha : (a.shard.execWith drop plan).redb = a.shard.redb := run_table _ _ _ _ hp
  have hb : (b.shard.execWith false plan).redb = b.shard.redb := run_table _ _ _ _ hp
  constructor
  · exact hsame.1
  · exact hsame.2
  · exact h.readOnly
  · exact h.commitChunk
  all_goals simp only [ha, hb]
  · exact h.checkpoint
  · exact h.snapshot
  · exact h.sequenced
  · exact h.tablesA
  · exact h.tablesB
  · exact h.known
  · exact h.dropped
  · exact h.staged
  · exact h.lawful

variable {slots : List Nat}

variable (h : Twins seqOf endOf a b)
include h

lemma commit (drop : Bool) {plan : Plan K}
    (hplan : a.shard.commitPlan (a.slotRefs slots) = .ok (plan, n)) :
    Twins seqOf endOf ⟨a.shard.execWith drop plan, a.staged⟩ ⟨b.shard.execWith false plan, b.staged⟩ := by
  have hplanB := (h.commitPlan_eq slots).symm.trans hplan
  rcases redb_execWith hplan drop with ⟨-, rfl⟩ | ⟨applied, last, happ, hlast, hredb⟩
  · exact h.images drop fun e he => absurd he not_mem_nil
  · rcases redb_execWith hplanB false with ⟨-, rfl⟩ | ⟨applied', last', happ', hlast', hredb'⟩
    · exact h.images drop fun e he => absurd he not_mem_nil
    · obtain rfl := Except.ok.inj (happ.symm.trans ((h.applicable_eq slots).trans happ'))
      obtain rfl := some.inj (hlast.symm.trans hlast')
      have hsafe := h.slotRefs_lawful slots
      obtain ⟨hsub, hforward⟩ := applicable_forward happ h.sequenced fun r hr => (hsafe r hr).sequenced
      obtain ⟨hup, hends⟩ := hforward last hlast
      have hlawful := fun r hr => hsafe r (hsub hr)
      have hA : Advanced endOf a.shard.redb applied last n (a.shard.execWith drop plan).redb := by
        rw [hredb]
        cases drop with
        | false => exact advance_keeping last n h.tablesA hlawful
        | true => exact advance_dropping last n h.tablesA hlawful hends
      have hB : Advanced endOf b.shard.redb applied last n (b.shard.execWith false plan).redb := by
        rw [hredb']
        exact advance_keeping last n h.tablesB hlawful
      have hkept : ∀ id, (∃ s ∈ applied, s.batchId = id) ∨ id ∈ b.shard.redb.ids →
          id ∈ (b.shard.execWith false plan).redb.ids := by
        rw [hredb']
        exact fun id hid => mem_ids_runKeeping.mpr hid
      refine ⟨(h.run_images drop plan).1, (h.run_images drop plan).2, h.readOnly, h.commitChunk,
        hA.checkpoint.trans hB.checkpoint.symm, hA.snapshot.trans hB.snapshot.symm, ?_, hA.tables, hB.tables,
        fun id hid => hkept id ((hA.known id hid).imp_right (h.known id)), ?_, ?_, h.lawful⟩
      · rw [hA.checkpoint]
        rintro _ ⟨⟩
        exact (hlawful last (mem_of_getLast? hlast)).sequenced
      · intro id hid hnot
        rw [hA.checkpoint]
        by_cases hold : (∃ s ∈ applied, s.batchId = id) ∨ id ∈ a.shard.redb.ids
        · exact hA.dropped id hold hnot
        · -- The first shard had dropped it before.
          rcases hB.known id hid with hnew | hrec
          · exact absurd (.inl hnew) hold
          · exact lt_of_lt_of_le (h.dropped id hrec fun ha => hold (.inr ha)) hup
      · rw [hA.checkpoint]
        exact h.staged.imp fun r r' hr => hr.mono hup

lemma reopen : Twins seqOf endOf ⟨a.shard.reopen, []⟩ ⟨b.shard.reopen, []⟩ :=
  ⟨h.durable, h.durable, h.readOnly, h.commitChunk, h.checkpoint, h.snapshot, h.sequenced, h.tablesA, h.tablesB,
    h.known, h.dropped, .nil, fun _ hr => absurd hr not_mem_nil⟩

lemma stopped (drop : Bool)
    (hplan : a.shard.commitPlan (a.slotRefs slots) = .ok (plan, n)) (stop : Nat) :
    Twins seqOf endOf ⟨(a.shard.execWith drop (plan.take stop)).reopen, []⟩
      ⟨(b.shard.execWith false (plan.take stop)).reopen, []⟩ := by
  by_cases hstop : stop < plan.length
  · exact (h.images drop (take_no_txn hplan hstop)).reopen
  · rw [take_of_length_le (not_lt.mp hstop)]
    exact (h.commit drop hplan).reopen

/-- A batch staged on both shards: where only the second has its record, it ends behind the first. -/
lemma stageBatch (order : HashOrder (K × DocOp K))
    (hl : Lawful seqOf endOf batch.batchId batch.checkpoint batch.safeCheckpoint) :
    (∃ e, a.shard.stageBatch order batch = .error e ∧ b.shard.stageBatch order batch = .error e) ∨
    ∃ r r', a.shard.stageBatch order batch = .ok r ∧ b.shard.stageBatch order batch = .ok r' ∧
      SameRef a.shard.redb.checkpoint r r' ∧ Lawful seqOf endOf r.batchId r.checkpoint r.safeCheckpoint := by
  simp only [Shard.stageBatch, batchSnapshot_isSome_iff]
  by_cases hA : batch.batchId ∈ a.shard.redb.ids
  · rw [if_pos hA, if_pos (h.known _ hA)]
    exact .inr ⟨_, _, rfl, rfl, .inl rfl, hl⟩
  · rw [if_neg hA]
    by_cases hB : batch.batchId ∈ b.shard.redb.ids
    · have hbehind := h.dropped _ hB hA
      rw [hl.named] at hbehind
      have hnoop : continuity a.shard.redb.checkpoint batch.fromCheckpoint batch.checkpoint = .noOp := by
        cases hc : a.shard.redb.checkpoint with
        | none =>
          rw [hc] at hbehind
          exact absurd hbehind (not_lt.mpr bot_le)
        | some c => exact continuity_behind (h.sequenced c hc) hl.sequenced (hc ▸ hbehind) _
      rw [if_pos hB, hnoop]
      exact .inr ⟨_, _, rfl, rfl, .inr ⟨rfl, rfl, rfl, rfl, rfl, hbehind⟩, hl⟩
    · rw [if_neg hB, ← h.checkpoint]
      cases continuity a.shard.redb.checkpoint batch.fromCheckpoint batch.checkpoint with
      | gap => exact .inl ⟨_, rfl, rfl⟩
      | _ => exact .inr ⟨_, _, rfl, rfl, .inl rfl, hl⟩

lemma acceptedIds_eq (slots : List Nat) :
    Receiver.acceptedIds a.shard (a.slotRefs slots) = Receiver.acceptedIds b.shard (b.slotRefs slots) := by
  rw [Receiver.acceptedIds, Receiver.acceptedIds, h.applicable_eq]

lemma step (drop : Bool) (hd : d.Lawful seqOf endOf) :
    Twins seqOf endOf (a.step drop d).1 (b.step false d).1 ∧ (a.step drop d).2 = (b.step false d).2 := by
  cases d with
  | stage order batch =>
    simp only [Receiver.step]
    rcases h.stageBatch order (hd order batch rfl) with ⟨e, ha, hb⟩ | ⟨r, r', ha, hb, hsame, hlawful⟩
    · rw [ha, hb]
      exact ⟨h, rfl⟩
    · rw [ha, hb]
      refine ⟨{ h with staged := rel_append h.staged (.cons hsame .nil), lawful := fun t ht => ?_ }, rfl⟩
      rcases mem_append.mp ht with hold | hnew
      · exact h.lawful t hold
      · rwa [mem_singleton.mp hnew]
  | commit slots stop =>
    simp only [Receiver.step]
    rw [← h.commitPlan_eq slots, ← h.acceptedIds_eq slots]
    cases hplan : a.shard.commitPlan (a.slotRefs slots) with
    | error e => exact ⟨h, rfl⟩
    | ok p =>
      cases stop with
      | none => exact ⟨h.commit drop hplan, rfl⟩
      | some n => exact ⟨h.stopped drop hplan n, rfl⟩

lemma run (hl : ∀ e ∈ history, e.1.Lawful seqOf endOf) :
    Twins seqOf endOf (a.run history).1 (b.run (history.map fun e => (e.1, false))).1 ∧
      (a.run history).2 = (b.run (history.map fun e => (e.1, false))).2 := by
  induction history generalizing a b with
  | nil => exact ⟨h, rfl⟩
  | cons e history ih =>
    obtain ⟨hstep, hsame⟩ := h.step e.2 (hl e mem_cons_self)
    obtain ⟨hrun, hdecided⟩ := ih hstep fun d hd => hl d (mem_cons_of_mem _ hd)
    exact ⟨hrun, congrArg₂ List.cons hsame hdecided⟩

end Twins

/-- Whichever commits drop records below their floor, every delivery is decided as on the shard that keeps all, with
the same documents and checkpoint; the two tables describe the same batches. -/
theorem pruning_unobserved (seqOf : Int → Int) (endOf : String → SourceCheckpoint) (chunk : Nat)
    (history : List (Delivery K × Bool)) (hl : ∀ e ∈ history, e.1.Lawful seqOf endOf) :
    let pruned := (Receiver.start chunk : Receiver T).run history
    let kept := (Receiver.start chunk : Receiver T).run (history.map fun e => (e.1, false))
    pruned.2 = kept.2 ∧ (∀ k, pruned.1.shard.live k = kept.1.shard.live k) ∧
      pruned.1.shard.redb.checkpoint = kept.1.shard.redb.checkpoint ∧
      pruned.1.shard.redb.TablesAgree endOf ∧ kept.1.shard.redb.TablesAgree endOf := by
  obtain ⟨h, hsame⟩ := (Twins.start chunk : Twins seqOf endOf (Receiver.start chunk : Receiver T) _).run hl
  exact ⟨hsame, fun k => congrArg (T.find · k) h.durable, h.checkpoint, h.tablesA, h.tablesB⟩

end

namespace SampleRecords
open SampleCommits

def deliver (b : CommitBatch Nat) (slot : Nat) (drop : Bool) : List (Delivery Nat × Bool) :=
  [(.stage (.insertion _) b, drop), (.commit [slot] none, drop)]

def next : CommitBatch Nat :=
  ⟨[.delete 1, .upsert (docOf 2 "c")], ⟨20, some 2⟩, "next", some ⟨10, some 1⟩, some ⟨10, some 1⟩⟩

def replay : List (Delivery Nat × Bool) := deliver first 0 true ++ deliver next 1 true ++ deliver first 2 true

def seqOf (snapshot : Int) : Int := if snapshot = 10 then 1 else 2

def endOf (id : String) : SourceCheckpoint := if id = "first" then ⟨10, some 1⟩ else ⟨20, some 2⟩

lemma replay_lawful : ∀ e ∈ replay, e.1.Lawful seqOf endOf := by
  have hfirst : Lawful seqOf endOf first.batchId first.checkpoint first.safeCheckpoint :=
    ⟨rfl, rfl, fun _ _ h => (by cases h)⟩
  have hnext : Lawful seqOf endOf next.batchId next.checkpoint next.safeCheckpoint := by
    refine ⟨rfl, rfl, ?_⟩
    rintro _ _ ⟨⟩ ⟨⟩
    decide
  intro e he order batch hd
  simp only [replay, deliver, cons_append, nil_append, mem_cons, not_mem_nil, or_false] at he
  rcases he with rfl | rfl | rfl | rfl | rfl | rfl
  · cases hd
    exact hfirst
  · cases hd
  · cases hd
    exact hnext
  · cases hd
  · cases hd
    exact hfirst
  · cases hd

def chunk : CommitBatch Nat := ⟨[.upsert (docOf 2 "c")], ⟨10, some 1⟩, "chunk", none, some ⟨10, some 1⟩⟩

def rebuilt (drop : Bool) : List (Delivery Nat × Bool) :=
  deliver first 0 drop ++ deliver chunk 1 drop ++ deliver first 2 drop

def legacy : CommitBatch Nat := ⟨[.upsert (docOf 1 "a")], ⟨10, none⟩, "legacy", none, none⟩

end SampleRecords

section
open SampleCommits SampleRecords

theorem pruning_unobserved_replay :
    ((Receiver.start 0 : Receiver tantivy).run replay).2 =
        [.staged, .accepted ["first"], .staged, .accepted ["next"], .staged, .accepted []] ∧
      ((Receiver.start 0 : Receiver tantivy).run replay).1.shard.redb.ids = ["next"] ∧
      ((Receiver.start 0 : Receiver tantivy).run replay).2 =
        ((Receiver.start 0 : Receiver tantivy).run (replay.map fun e => (e.1, false))).2 :=
  ⟨by decide, by decide, (pruning_unobserved seqOf endOf 0 replay replay_lawful).1⟩

/-- A batch that starts at the beginning is applied wherever the shard stands at its end, so a floor at that end lets
it in again; and a batch whose end has no sequence number is in one of the tables alone. -/
theorem bootstrap_replay_accepted :
    ((Receiver.start 0 : Receiver tantivy).run (rebuilt true)).2 =
        [.staged, .accepted ["first"], .staged, .accepted ["chunk"], .staged, .accepted ["first"]] ∧
      ((Receiver.start 0 : Receiver tantivy).run (rebuilt false)).2 =
        [.staged, .accepted ["first"], .staged, .accepted ["chunk"], .staged, .accepted []] ∧
      ((Receiver.start 0 : Receiver tantivy).run (rebuilt true)).1.shard.live 2 = [docOf 2 "b"] ∧
      ((Receiver.start 0 : Receiver tantivy).run (rebuilt false)).1.shard.live 2 = [docOf 2 "c"] ∧
      ((Receiver.start 0 : Receiver tantivy).run (deliver legacy 0 true)).1.shard.redb.ids = ["legacy"] ∧
      ((Receiver.start 0 : Receiver tantivy).run (deliver legacy 0 true)).1.shard.redb.batchCkpt = [] := by
  decide

end

end GrowlerDB.Index
