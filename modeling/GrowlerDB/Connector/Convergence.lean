import GrowlerDB.Connector.ShardedIngest

namespace GrowlerDB.Connector
open Core Index Lib Replay List Ingesting ShardedWriteClient

variable {K : Type} [DecidableEq K] {T : Tantivy K (Document K)} {log : Changelog K} {job : Job K}
  {router : KeyRouter K} {groups : Option (List Nat) → Prop} {chunk : Nat → Nat} {st : Ingesting T}

variable {s : SourceSnapshot K}

lemma InStep.at_head (hlog : Numbered log) (h : InStep log job router st)
    (hs : s ∈ log.snapshots) (hcursor : (st.writers w).cursor = some s.snapshotId)
    (hhead : placeOf log st.head ≤ placeOf log (some s.snapshotId))
    (hlt : i < router.shards) (hi : i ∈ (st.writers w).owned router) : (st.shards i).checkpoint = some s.checkpoint := by
  have hw := h.writers w
  have hge := hw.reading.le i hi hlt
  rw [hcursor] at hge
  have heq := le_antisymm ((h.reached i hlt).trans hhead) hge
  rw [placeOf_eq hlog hs] at heq
  cases hc : (st.shards i).checkpoint with
  | none =>
    rw [hc] at heq
    exact absurd heq.symm WithBot.coe_ne_bot
  | some c =>
    obtain ⟨t, ht, rfl⟩ := Changelog.has_restrict.mp ((h.follows i hlt).has c hc)
    rw [hc] at heq
    have hseq : t.sequenceNumber = s.sequenceNumber := WithBot.coe_inj.mp heq
    rw [SourceSnapshot.checkpoint, SourceSnapshot.checkpoint, hseq, (Changelog.id_eq_iff ht hs).mpr hseq]

/-- Only what was acknowledged to connector `w`, and what the shards hold, is different. -/
structure SameTask (w : Nat) (st st' : Ingesting T) : Prop where
  sent : st'.sent = st.sent
  head : st'.head = st.head
  task : { st'.writers w with acked := [] } = { st.writers w with acked := [] }
  others : ∀ v ≠ w, st'.writers v = st.writers v
  acked : ∀ a ∈ (st.writers w).acked, a ∈ (st'.writers w).acked

lemma SameTask.refl (w : Nat) (st : Ingesting T) : SameTask w st st :=
  ⟨rfl, rfl, rfl, fun _ _ => rfl, fun _ ha => ha⟩

lemma SameTask.trans (h : SameTask w st st') (h' : SameTask w st' st'') : SameTask w st st'' :=
  ⟨h'.sent.trans h.sent, h'.head.trans h.head, h'.task.trans h.task,
    fun v hv => (h'.others v hv).trans (h.others v hv), fun a ha => h'.acked a (h.acked a ha)⟩

lemma SameTask.fields (h : SameTask w st st') :
    (st'.writers w).group = (st.writers w).group ∧ (st'.writers w).resumeFrom = (st.writers w).resumeFrom ∧
      (st'.writers w).cursor = (st.writers w).cursor ∧ (st'.writers w).current = (st.writers w).current ∧
      (st'.writers w).pending = (st.writers w).pending := by
  simpa using h.task

lemma Ingesting.Reached.deliver (hd : Deployed log job router groups)
    (hr : Reached log job router groups chunk st) (order : HashOrder (K × DocOp K)) (w : Nat)
    (he : e ∈ st.sent) :
    ∃ st', st.deliver order w e = .ok st' ∧ Reached log job router groups chunk st' ∧
      SameTask w st st' ∧ (e.1, e.2.batchId) ∈ (st'.writers w).acked := by
  have hsound := hr.inStep hd
  obtain ⟨hlt, hcov, hfrom, -⟩ := hsound.sent e he
  have hf := hsound.follows e.1 hlt
  obtain ⟨r, hr₁⟩ := hf.stage_ok hcov.hasEnd hcov.hasFrom hfrom order
  obtain ⟨hcp, hfr, hid, -⟩ := Shard.stageBatch_ok hr₁
  obtain ⟨shard, n, hok⟩ := hf.commit_ok (hcp ▸ hcov.hasEnd) (hfr ▸ hcov.hasFrom) (hfr ▸ hfrom)
  have hstaged : Reached log job router groups chunk (st.stage e.1 r) := .step hr (.staged he hr₁)
  have hheld : r ∈ ((st.stage e.1 r).shards e.1).staged := by
    rw [stage, setShard_self]
    exact mem_cons_self
  have hok' : ((st.stage e.1 r).shards e.1).shard.commitStaged [r] = .ok (shard, n) := by rwa [stage, setShard_self]
  refine ⟨_, ?_, .step hstaged (.acknowledged w hheld hok'), ⟨rfl, rfl, ?_, ?_, ?_⟩, ?_⟩
  · rw [Ingesting.deliver, hr₁]
    change ((st.shards e.1).shard.commitStaged [r] >>= _) = _
    rw [hok]
    rfl
  · rw [ack, setWriter_self]
    rfl
  · intro v hv
    rw [ack, setWriter_ne _ hv]
    rfl
  · intro a ha
    rw [ack, setWriter_self]
    exact mem_cons_of_mem _ ha
  · rw [ack, setWriter_self, ← hid]
    exact mem_cons_self

lemma Ingesting.Reached.deliverAll (hd : Deployed log job router groups)
    (order : HashOrder (K × DocOp K)) (w : Nat) (parts : List (Nat × CommitBatch K))
    (hr : Ingesting.Reached log job router groups chunk st) (hparts : ∀ e ∈ parts, e ∈ st.sent) :
    ∃ st', parts.foldlM (Ingesting.deliver order w) st = .ok st' ∧
      Ingesting.Reached log job router groups chunk st' ∧ SameTask w st st' ∧
      ∀ e ∈ parts, (e.1, e.2.batchId) ∈ (st'.writers w).acked := by
  induction parts generalizing st with
  | nil => exact ⟨st, rfl, hr, .refl w st, fun e he => (nomatch he)⟩
  | cons e parts ih =>
    obtain ⟨st₁, hok, hr₁, hsame₁, hack⟩ := hr.deliver hd order w (hparts e mem_cons_self)
    obtain ⟨st₂, hfold, hr₂, hsame₂, hacks⟩ := ih hr₁ fun e' he' => by
      rw [hsame₁.sent]
      exact hparts e' (mem_cons_of_mem _ he')
    refine ⟨st₂, ?_, hr₂, hsame₁.trans hsame₂, ?_⟩
    · rwa [foldlM_cons, hok]
    · intro e' he'
      rcases mem_cons.mp he' with rfl | he'
      · exact hsame₂.acked _ hack
      · exact hacks e' he'

structure Finished (w : Nat) (st st' : Ingesting T) : Prop where
  head : st'.head = st.head
  group : (st'.writers w).group = (st.writers w).group
  cursor : (st'.writers w).cursor = (st.writers w).current
  pending : (st'.writers w).pending = []
  others : ∀ v ≠ w, st'.writers v = st.writers v

lemma Ingesting.Reached.writeCommits (hd : Deployed log job router groups)
    (order : HashOrder (K × DocOp K)) (w : Nat) (commits : List (Commit K))
    (hr : Ingesting.Reached log job router groups chunk st) (hp : (st.writers w).pending = commits)
    (hne : commits ≠ []) :
    ∃ st', Ingesting.writeCommits log job router order w commits st = .ok st' ∧
      Ingesting.Reached log job router groups chunk st' ∧ Finished w st st' := by
  induction commits generalizing st with
  | nil => exact absurd rfl hne
  | cons c rest ih =>
    have hsent : Ingesting.Reached log job router groups chunk (st.send log job router w c) := .step hr (.sent w hp)
    obtain ⟨st₁, hfold, hr₁, hsame, hacks⟩ := hsent.deliverAll hd order w
      ((st.writers w).parts router log job c) fun e he => mem_append_right _ he
    obtain ⟨hgroup, -, hcursor, hcurrent, hpending⟩ := hsame.fields
    rw [Ingesting.send] at hgroup hcursor hcurrent hpending
    simp only [Ingesting.setWriter_self] at hgroup hcursor hcurrent hpending
    -- the parts of the commit depend on the connector only through its group and cursor
    have hparts : (st₁.writers w).parts router log job c = (st.writers w).parts router log job c := by
      unfold Writer.parts Writer.owned
      rw [hgroup, hcursor]
    have hanswered : Ingesting.Reached log job router groups chunk
        (st₁.setWriter w ((st₁.writers w).answer rest)) :=
      .step hr₁ (.answered w (hpending.trans hp) (by rw [hparts]; exact hacks))
    have hothers : ∀ v ≠ w, (st₁.setWriter w ((st₁.writers w).answer rest)).writers v = st.writers v := by
      intro v hv
      rw [Ingesting.setWriter_ne _ hv, hsame.others v hv, Ingesting.send]
      exact Ingesting.setWriter_ne _ hv _
    have hwrite : st.write log job router order w c = .ok st₁ := hfold
    rw [Ingesting.writeCommits, hwrite]
    change ∃ st', Ingesting.writeCommits log job router order w rest
      (st₁.setWriter w ((st₁.writers w).answer rest)) = .ok st' ∧ _
    by_cases hrest : rest = []
    · subst hrest
      refine ⟨_, rfl, hanswered, hsame.head, ?_, ?_, ?_, hothers⟩
      · rwa [Ingesting.setWriter_self]
      · rwa [Ingesting.setWriter_self, Writer.answer, if_pos rfl]
      · rw [Ingesting.setWriter_self]
        rfl
    · obtain ⟨st₂, hok, hr₂, hfin⟩ := ih hanswered (by rw [Ingesting.setWriter_self]; rfl) hrest
      have hfinGroup := hfin.group
      have hfinCursor := hfin.cursor
      rw [Ingesting.setWriter_self] at hfinGroup hfinCursor
      exact ⟨st₂, hok, hr₂, hfin.head.trans hsame.head, hfinGroup.trans hgroup, hfinCursor.trans hcurrent,
        hfin.pending, fun v hv => (hfin.others v hv).trans (hothers v hv)⟩

lemma Ingesting.Reached.runOnce (hd : Deployed log job router groups)
    (hr : Reached log job router groups chunk st) (order : HashOrder (K × DocOp K)) (w : Nat)
    (hs : s ∈ log.snapshots) (idle : (st.writers w).pending = [])
    (later : placeOf log st.head ≤ placeOf log (some s.snapshotId)) :
    ∃ st', runOnce log job router order w s.snapshotId st = .ok st' ∧
      Reached log job router groups chunk st' ∧ (st'.writers w).group = (st.writers w).group ∧
      (st'.writers w).pending = [] ∧ (∀ v ≠ w, st'.writers v = st.writers v) ∧
      placeOf log st'.head ≤ placeOf log (some s.snapshotId) ∧
      (st'.writers w).cursor = some s.snapshotId := by
  have hsound := hr.inStep hd
  unfold Ingesting.runOnce
  by_cases hnew : (st.writers w).cursor = some s.snapshotId
  · rw [if_pos hnew]
    exact ⟨st, rfl, hr, rfl, idle, fun _ _ => rfl, later, hnew⟩
  · rw [if_neg hnew]
    have hstep : Reached log job router groups chunk (st.trigger log job router w s.snapshotId) :=
      .step hr (.triggered w idle hs later hnew ((hsound.writers w).reading_le.trans later))
    have hwriter : (st.trigger log job router w s.snapshotId).writers w =
        (st.writers w).trigger router log job s.snapshotId := setWriter_self ..
    have hforward := place_lt_of_new hd.numbered (hsound.writers w).reading.known hs hnew
      ((hsound.writers w).reading_le.trans later)
    have hne : ((st.trigger log job router w s.snapshotId).writers w).pending ≠ [] := by
      rw [hwriter]
      intro hnil
      have hplan : Planned log ((st.writers w).keeps router) s.snapshotId (st.writers w).cursor
          ((st.writers w).trigger router log job s.snapshotId).pending :=
        planned_streamCommits hd.numbered job.maxCommitRows hforward
      rw [hnil] at hplan
      cases hplan
    obtain ⟨st', hok, hr', hfin⟩ := hstep.writeCommits hd order w _ rfl hne
    have hcursor : (st'.writers w).cursor = some s.snapshotId := by
      rw [hfin.cursor, hwriter]
      rfl
    have hhead : placeOf log st'.head ≤ placeOf log (some s.snapshotId) := by
      rw [hfin.head]
      exact le_rfl
    refine ⟨st', hok, hr', ?_, hfin.pending, fun v hv => ?_, hhead, hcursor⟩
    · rw [hfin.group, hwriter]
      rfl
    · rw [hfin.others v hv]
      exact setWriter_ne _ hv _

/-- Each key of a shard is where its share of the changelog is between the shard's checkpoint and the
furthest interrupted commit. -/
lemma InStep.live (h : InStep log job router st) (hi : i < router.shards) (k : K) :
    ∃ p, position (st.shards i).checkpoint ≤ p ∧ p ≤ max (position (st.shards i).checkpoint) (st.shards i).furthest ∧
      (st.shards i).shard.live k = (stateAt (share log router i).entries p k).toList := by
  obtain ⟨m, hm, hw⟩ := (h.follows i hi).docs
  obtain ⟨p, hlo, hhi, hk⟩ := hw k trivial
  exact ⟨p, hlo, hhi, by rw [hm.live, hk]⟩

lemma InStep.live_exact (h : InStep log job router st) (hi : i < router.shards)
    (hle : (st.shards i).furthest ≤ position (st.shards i).checkpoint) (k : K) :
    (st.shards i).shard.live k =
      (stateAt (share log router i).entries (position (st.shards i).checkpoint) k).toList := by
  obtain ⟨p, hlo, hhi, hk⟩ := h.live hi k
  rw [hk, le_antisymm (hhi.trans (max_le le_rfl hle)) hlo]

lemma InStep.live_at_head (hlog : Numbered log) (h : InStep log job router st)
    (hi : i < router.shards) (hs : s ∈ log.snapshots)
    (hhead : placeOf log st.head ≤ placeOf log (some s.snapshotId))
    (hcp : (st.shards i).checkpoint = some s.checkpoint) (k : K) : (st.shards i).shard.live k =
      (stateAt (share log router i).entries (placeOf log (some s.snapshotId)) k).toList := by
  have hpos : position (st.shards i).checkpoint = placeOf log (some s.snapshotId) := by
    rw [hcp, placeOf_eq hlog hs]
    rfl
  rw [← hpos]
  exact h.live_exact hi (hpos ▸ (h.furthest i hi).trans hhead) k

/-- Sharded ingest converges, where no two keys are rendered alike. In every run, with fan-outs that fail or are
answered late or never, nodes that stop inside a commit and connectors that start over: no part is refused; each key
holds what the last-write-wins fold holds somewhere between the shard's checkpoint and the end of the furthest
interrupted commit; and one trigger in which nothing fails leaves every shard at the head, with the fold as its
documents. -/
theorem sharded_ingest_converges (hlog : Numbered log) (hapart : KeysApart log job)
    (hr : Ingesting.Reached log job router (fun group => group = none) chunk st) :
    (∀ e ∈ st.sent, ∀ order, ∃ r, (st.shards e.1).shard.stageBatch order e.2 = .ok r) ∧
    (∀ i, ∀ r ∈ (st.shards i).staged, ∃ shard n, (st.shards i).shard.commitStaged [r] = .ok (shard, n)) ∧
    (∀ i < router.shards, ∀ k, ∃ p, position (st.shards i).checkpoint ≤ p ∧
      p ≤ max (position (st.shards i).checkpoint) (st.shards i).furthest ∧
      (st.shards i).shard.live k = (stateAt (share log router i).entries p k).toList) ∧
    (∀ i < router.shards, (st.shards i).furthest ≤ position (st.shards i).checkpoint → ∀ k,
      (st.shards i).shard.live k =
        (stateAt (share log router i).entries (position (st.shards i).checkpoint) k).toList) ∧
    ∀ order w, ∀ s ∈ log.snapshots, (st.writers w).group = none → (st.writers w).pending = [] →
      placeOf log st.head ≤ placeOf log (some s.snapshotId) →
      ∃ st', Ingesting.runOnce log job router order w s.snapshotId st = .ok st' ∧
        Ingesting.Reached log job router (fun group => group = none) chunk st' ∧
        ∀ i < router.shards, (st'.shards i).checkpoint = some s.checkpoint ∧ ∀ k, (st'.shards i).shard.live k =
            (stateAt (share log router i).entries (placeOf log (some s.snapshotId)) k).toList := by
  have hd : Deployed log job router (fun group => group = none) := ⟨hlog, hapart, fun owned hg => (nomatch hg)⟩
  have hsound := hr.inStep hd
  refine ⟨?_, ?_, fun i hi k => hsound.live hi k, fun i hi hle k => hsound.live_exact hi hle k, ?_⟩
  · intro e he order
    obtain ⟨hlt, hcov, hfrom, -⟩ := hsound.sent e he
    exact (hsound.follows e.1 hlt).stage_ok hcov.hasEnd hcov.hasFrom hfrom order
  · intro i r hr
    obtain ⟨hlt, hfrom, -⟩ := hsound.staged i r hr
    have hfit := (hsound.follows i hlt).staged r hr
    exact (hsound.follows i hlt).commit_ok hfit.hasEnd hfit.hasFrom hfrom
  · intro order w s hs hgroup idle later
    obtain ⟨st', hok, hr', hgroup', -, -, hhead, hcursor⟩ := hr.runOnce hd order w hs idle later
    refine ⟨st', hok, hr', fun i hi => ?_⟩
    have hsound' := hr'.inStep hd
    have howned : i ∈ (st'.writers w).owned router := by
      rw [Writer.owned, hgroup', hgroup]
      exact mem_range.mpr hi
    have hcp := hsound'.at_head hlog hs hcursor hhead hi howned
    exact ⟨hcp, hsound'.live_at_head hlog hi hs hhead hcp⟩

namespace TwoShards

def doc (k : Nat) : Document Nat := ⟨k, []⟩

def table : Changelog Nat where
  snapshots := [⟨10, 1, [.upsert (doc 0), .upsert (doc 1)]⟩]
  increasing := by simp
  distinct := by simp

lemma numbered : Numbered table := by
  intro s hs
  obtain rfl := mem_singleton.mp hs
  decide

def evenOdd : KeyRouter Nat := ⟨2, fun k => k % 2, fun k => Nat.mod_lt k (by decide)⟩

def task : Job Nat := ⟨"t", 100, fun k => toString k⟩

lemma apart : KeysApart table task := by
  unfold KeysApart
  decide +kernel

abbrev Index := listTantivy Nat (Document Nat)

def started : Ingesting Index := (Ingesting.start (fun _ => 0)).resume table evenOdd 0 none

lemma started_reached : Reached table task evenOdd (· = none) (fun _ => 0) started :=
  .step .start (.started 0 rfl)

def commit : Commit Nat := ⟨none, 10, [⟨10, .upsert (doc 0)⟩, ⟨10, .upsert (doc 1)⟩]⟩

def sent : Ingesting Index := (started.trigger table task evenOdd 0 10).send table task evenOdd 0 commit

def evenRef : StagedRef Nat := ⟨⟨10, some 1⟩, none, "t@0->10#s0", [(0, doc 0)], [], false, none⟩

def evenPlan : Plan Nat := [.write (.upsert 0 (doc 0)), .flush, .txn (.advance ⟨10, some 1⟩ 1 [evenRef])]

def stopped : Ingesting Index := (sent.stage 0 evenRef).crash 0 evenRef evenPlan 2

lemma stopped_reached : Reached table task evenOdd (· = none) (fun _ => 0) stopped := by
  have hs : (⟨10, 1, [.upsert (doc 0), .upsert (doc 1)]⟩ : SourceSnapshot Nat) ∈ table.snapshots :=
    mem_singleton.mpr rfl
  have htriggered := started_reached.step (.triggered 0 rfl hs bot_le (by decide +kernel) bot_le)
  have hnext : ((started.trigger table task evenOdd 0 10).writers 0).pending = [commit] := by decide +kernel
  have hsent : Reached table task evenOdd (· = none) (fun _ => 0) sent :=
    htriggered.step (.sent 0 hnext)
  have hstage : (sent.shards 0).shard.stageBatch (HashOrder.insertion _)
      (part evenOdd (task.toBatch table none commit) 0) = .ok evenRef := rfl
  have hmem : (0, part evenOdd (task.toBatch table none commit) 0) ∈ sent.sent := by decide +kernel
  have hstaged : Reached table task evenOdd (· = none) (fun _ => 0)
      (sent.stage 0 evenRef) := hsent.step (.staged hmem hstage)
  have hplan : ((sent.stage 0 evenRef).shards 0).shard.commitPlan [evenRef] = .ok (evenPlan, 1) := rfl
  exact hstaged.step (.crashed mem_cons_self hplan)

end TwoShards

open TwoShards

theorem sharded_ingest_two_shards : Numbered table ∧ KeysApart table task ∧ ∃ st', Ingesting.runOnce table task
    evenOdd (HashOrder.insertion _) 0 10 started = .ok st' ∧ ∀ i < 2, (st'.shards i).checkpoint = some ⟨10, some 1⟩ := by
  obtain ⟨-, -, -, -, hrun⟩ := sharded_ingest_converges numbered apart started_reached
  obtain ⟨st', hok, -, hcp⟩ := hrun (HashOrder.insertion _) 0 _ (mem_singleton.mpr rfl) rfl rfl bot_le
  exact ⟨numbered, apart, st', hok, fun i hi => (hcp i hi).1⟩

/-- A node that stops between the two phases of its commit serves a document past its checkpoint. -/
theorem document_past_checkpoint :
    Ingesting.Reached table task evenOdd (fun group => group = none) (fun _ => 0) stopped ∧
      (stopped.shards 0).checkpoint = none ∧ (stopped.shards 0).shard.live 0 = [doc 0] ∧
      stateAt (share table evenOdd 0).entries (position (stopped.shards 0).checkpoint) 0 = none :=
  ⟨stopped_reached, rfl, rfl, stateAt_bot _ _⟩

end GrowlerDB.Connector
