import GrowlerDB.Connector.WindowedWriteClient
import GrowlerDB.Engine.WindowCheckpoint

namespace GrowlerDB.Connector
open Core Engine Index Lib Replay List Option Except Cluster WindowedWriteService Script

variable {cps : List ShardCheckpoint} {v : Int}

section

variable {K : Type} {log : Changelog K} {lineage : Int → Option Int}

def Numbered (log : Changelog K) : Prop := ∀ s ∈ log.snapshots, 0 < s.sequenceNumber

variable (lineage) in
lemma ofSource_sequence (hlog : Numbered log) (h : log.Has c) :
    ∃ seq : Int, position (some c) = (seq : WithBot Int) ∧
      (ShardCheckpoint.ofSource c).sequence lineage = some seq := by
  obtain ⟨s, hs, rfl⟩ := h
  refine ⟨s.sequenceNumber, rfl, ?_⟩
  simp [ShardCheckpoint.ofSource, ShardCheckpoint.sequence, SourceSnapshot.checkpoint, hlog s hs]

variable (lineage) in
/-- The fold over checkpoints that all have a sequence ends with the best it began with or with one
of them, and nothing in the list is below it. -/
lemma lineageMin_spec (cps : List ShardCheckpoint) (best : Option Int × Int)
    (h : ∀ c ∈ cps, (c.sequence lineage).isSome) :
    ∃ out, lineageMin lineage cps best = some out ∧ out.2 ≤ best.2 ∧
      (out = best ∨ ∃ c ∈ cps, c.sequence lineage = some out.2 ∧ out.1 = some c.snapshotId) ∧
      ∀ c ∈ cps, ∀ seq, c.sequence lineage = some seq → out.2 ≤ seq := by
  induction cps generalizing best with
  | nil => exact ⟨best, rfl, le_refl _, .inl rfl, fun c hc => (nomatch hc)⟩
  | cons c cps ih =>
    obtain ⟨seq, hseq⟩ := isSome_iff_exists.mp (h c mem_cons_self)
    obtain ⟨out, hout, hle, hfrom, hmin⟩ :=
      ih (if seq < best.2 then (some c.snapshotId, seq) else best)
        (fun d hd => h d (mem_cons_of_mem _ hd))
    have hboth : out.2 ≤ seq ∧ out.2 ≤ best.2 := by
      split_ifs at hle with hlt
      · exact ⟨hle, hle.trans hlt.le⟩
      · exact ⟨hle.trans (not_lt.mp hlt), hle⟩
    refine ⟨out, by simpa only [lineageMin, hseq] using hout, hboth.2, ?_, ?_⟩
    · rcases hfrom with hfrom | ⟨d, hd, hd'⟩
      · split_ifs at hfrom with hlt
        · subst hfrom
          exact .inr ⟨c, mem_cons_self, hseq, rfl⟩
        · exact .inl hfrom
      · exact .inr ⟨d, mem_cons_of_mem _ hd, hd'⟩
    · intro d hd s hs
      rcases mem_cons.mp hd with rfl | hd
      · exact some.inj (hseq.symm.trans hs) ▸ hboth.1
      · exact hmin d hd s hs

lemma resumeMinOf_least (hlog : Numbered log) (hcps : ∀ x ∈ cps, ∃ c, log.Has c ∧ x = .ofSource c) {id : Int}
    (h : resumeMinOf cps lineage = some id) :
    ∃ s ∈ log.snapshots, s.snapshotId = id ∧ ∀ c, log.Has c → .ofSource c ∈ cps →
      (s.sequenceNumber : WithBot Int) ≤ position (some c) := by
  have hseqs : ∀ x ∈ cps, (x.sequence lineage).isSome := by
    intro x hx
    obtain ⟨c, hc, rfl⟩ := hcps x hx
    obtain ⟨seq, -, hseq⟩ := ofSource_sequence lineage hlog hc
    rw [hseq]
    rfl
  cases cps with
  | nil => cases h
  | cons x rest =>
    rw [resumeMinOf] at h
    split_ifs at h with hall
    · obtain ⟨c, ⟨s, hs, rfl⟩, rfl⟩ := hcps x mem_cons_self
      refine ⟨s, hs, some.inj h, ?_⟩
      rintro d ⟨t, ht, rfl⟩ hd
      have hid := all_eq_true.mp hall _ hd
      rw [beq_iff_eq] at hid
      exact WithBot.coe_le_coe.mpr ((Changelog.id_eq_iff ht hs).mp hid).ge
    · obtain ⟨out, hout, -, hfrom, hmin⟩ := lineageMin_spec lineage (x :: rest) (none, 2 ^ 63 - 1) hseqs
      rw [hout] at h
      rcases hfrom with rfl | ⟨y, hy, hyseq, hyid⟩
      · cases h
      · obtain ⟨c, hc, rfl⟩ := hcps y hy
        obtain ⟨seq, hpos, hseq⟩ := ofSource_sequence lineage hlog hc
        obtain ⟨s, hs, rfl⟩ := hc
        obtain rfl : seq = out.2 := some.inj (hseq.symm.trans hyseq)
        refine ⟨s, hs, some.inj (hyid.symm.trans h), fun d hd hmem => ?_⟩
        obtain ⟨t, htpos, htseq⟩ := ofSource_sequence lineage hlog hd
        calc (s.sequenceNumber : WithBot Int) = (out.2 : WithBot Int) := hpos
          _ ≤ (t : WithBot Int) := WithBot.coe_le_coe.mpr (hmin _ hmem t htseq)
          _ = position (some d) := htpos.symm

end

section

variable {K N : Type} [DecidableEq K] [DecidableEq N] {T : Tantivy K (Document K)}

section

variable (svc : WindowedWriteService) (owner : Int → N) (router : WindowRouter)
    (cond : WindowedWriteService → Cluster T N → Int → CommitBatch K → Prop) (commitChunk : Nat)
    (muxed : N → List Int)

/-- The states of a cluster written through the windowed client: it sends a batch window by window, each send meeting
`cond`, and may be restarted at any point. -/
inductive Written : Cluster T N → Prop
  | start : Written (.start commitChunk muxed)
  | taken {st : Cluster T N} (h : Written st)
      (batch : CommitBatch K) (hidle : st.queue = [])
      (hp : partition router batch st.windowClient = .ok subs) :
      Written { st with queue := subs }
  | resolved {st : Cluster T N} (h : Written st) {w : Int}
      {sub : CommitBatch K} {rest : List (Int × CommitBatch K)} (hq : st.queue = (w, sub) :: rest) :
      Written (st.resolve owner w)
  | sent {st : Cluster T N} (h : Written st)
      (fence : PrimaryFence) (order : StagingOrder K) {w : Int} {sub : CommitBatch K}
      {rest : List (Int × CommitBatch K)} (hq : st.queue = (w, sub) :: rest)
      (hc : cond (svc.under fence) st w sub)
      (hok : ((svc.under fence).write order sub (st.nodes (owner w))).2 = .ok snapshot) :
      Written (st.deliver svc owner order fence w sub rest)
  | crashed {st : Cluster T N} (h : Written st) :
      Written st.restart

end

/-- The window has committed the upsert, or a later one of its key that replaces it. -/
def HasCommitted (svc : WindowedWriteService) (log : Changelog K) (s : Shard T.logged)
    (snap : SourceSnapshot K) (doc : Document K) : Prop :=
  ∃ later ∈ log.snapshots, snap.sequenceNumber ≤ later.sequenceNumber ∧
    ∃ last, .upsert last ∈ later.ops ∧ svc.windowOf last = svc.windowOf doc ∧ last.key = doc.key ∧ s.Wrote last

/-- A send after which a restart still finds everything: the upserts are placed in the window they were sent for, each
window advanced gets all it is missing, and each upsert still to come elsewhere is held by a window other than 0 with
a checkpoint before it that stays; or there is no window a restart would look at. -/
structure Resumable (log : Changelog K) (endOf : String → SourceCheckpoint) (owner : Int → N)
    (svc : WindowedWriteService) (st : Cluster T.logged N) (w : Int) (sub : CommitBatch K) :
    Prop where
  routed : ∀ doc, .upsert doc ∈ sub.ops → svc.windowOf doc = w
  delivery : Delivery log endOf svc (st.nodes (owner w)) sub
  held : ∀ snap ∈ log.snapshots,
    (snap.sequenceNumber : WithBot Int) ≤ position (some sub.checkpoint) →
    ∀ doc, .upsert doc ∈ snap.ops → ¬ HasCommitted svc log (st.shard owner (svc.windowOf doc)) snap doc →
      ¬ Advances svc (st.nodes (owner w)) sub (svc.windowOf doc) →
      (∃ v c, v ≠ 0 ∧ ¬ Advances svc (st.nodes (owner w)) sub v ∧
        (st.shard owner v).redb.checkpoint = some c ∧
        position (some c) < (snap.sequenceNumber : WithBot Int)) ∨
      ∀ v ≠ 0, ¬ Advances svc (st.nodes (owner w)) sub v ∧
        (st.shard owner v).redb.checkpoint = none

def Held (owner : Int → N) (st : Cluster T N) (seq : Int) : Prop :=
  (∃ v c, v ≠ 0 ∧ (st.shard owner v).redb.checkpoint = some c ∧ position (some c) < (seq : WithBot Int)) ∨
  ∀ v c, v ≠ 0 → (st.shard owner v).redb.checkpoint = some c → position (some c) < (seq : WithBot Int)

structure Kept (svc : WindowedWriteService) (log : Changelog K) (endOf : String → SourceCheckpoint)
    (owner : Int → N) (st : Cluster T.logged N) : Prop where
  steady : ∀ n, Steady (st.nodes n)
  settled : ∀ n, Settled (st.nodes n)
  behind : ∀ w, Behind svc log endOf w (st.shard owner w)
  served : ∀ n w, (st.nodes n).served w = true →
    owner w = n ∧ ⟨w, some (owner w)⟩ ∈ st.shardStatus
  status : ∀ s ∈ st.shardStatus, s.primary = some (owner s.window)
  held : ∀ snap ∈ log.snapshots, ∀ doc, .upsert doc ∈ snap.ops →
    ¬ HasCommitted svc log (st.shard owner (svc.windowOf doc)) snap doc →
    Held owner st snap.sequenceNumber

variable {svc : WindowedWriteService} {log : Changelog K} {endOf : String → SourceCheckpoint}
  {owner : Int → N} {st : Cluster T.logged N}

lemma hasCommitted_of_behind
    (h : Behind svc log endOf (svc.windowOf doc) s) (hsnap : snap ∈ log.snapshots)
    (hdoc : .upsert doc ∈ snap.ops)
    (hle : (snap.sequenceNumber : WithBot Int) ≤ position s.redb.checkpoint) :
    HasCommitted svc log s snap doc := by
  -- the part of the window's log from the upsert on
  have hlt : ((snap.sequenceNumber - 1 : Int) : WithBot Int) < snap.sequenceNumber := WithBot.coe_lt_coe.mpr (by omega)
  have hin := mem_windowLog hsnap hdoc (rfl : svc.windowOf doc = _) hlt hle
  have hordered : Ordered (windowLog svc log (svc.windowOf doc)) := windowLog_ordered
  have hsplit := between_split hordered bot_le (hlt.le.trans hle)
  cases hl : lastChange (between (windowLog svc log (svc.windowOf doc))
      ((snap.sequenceNumber - 1 : Int) : WithBot Int) (position s.redb.checkpoint)) doc.key with
  | none => exact absurd rfl (lastChange_eq_none.mp hl _ hin)
  | some v =>
    obtain ⟨later, hlater, hafter, last, hlast, hw, hk, rfl⟩ := of_mem_windowLog (lastChange_mem hl)
    have hafter := WithBot.coe_lt_coe.mp hafter
    refine ⟨later, hlater, by omega, last, hlast, hw, hk, h.wrote doc.key last ?_⟩
    rw [hsplit, lastChange_append, hl, some_or]

omit [DecidableEq N] in
lemma place_mem (status : List (ShardStatus N)) (w : Int)
    (h : ∀ s ∈ status, s.primary = some (owner s.window)) :
    ⟨w, some (owner w)⟩ ∈ place owner status w ∧ (∀ s ∈ status, s ∈ place owner status w) ∧
      ∀ s ∈ place owner status w, s.primary = some (owner s.window) := by
  unfold place
  split_ifs with hin
  · rw [contains_iff_mem] at hin
    obtain ⟨s, hs, rfl⟩ := mem_map.mp hin
    refine ⟨?_, fun s hs => hs, h⟩
    rwa [← h s hs]
  · refine ⟨by simp, fun s hs => mem_append_left _ hs, fun s hs => ?_⟩
    rcases mem_append.mp hs with hs | hs
    · exact h s hs
    · obtain rfl := mem_singleton.mp hs
      rfl

omit [DecidableEq N] in
lemma Kept.resolve (h : Kept svc log endOf owner st) (w : Int) : Kept svc log endOf owner (st.resolve owner w) := by
  obtain ⟨-, hgrow, hstatus⟩ := place_mem st.shardStatus w h.status
  exact ⟨h.steady, h.settled, h.behind, fun n v hv => (h.served n v hv).imp_right (hgrow _), hstatus, h.held⟩

omit [DecidableEq K] in
lemma upserts_routed {sub : CommitBatch K}
    (hrouted : ∀ doc, .upsert doc ∈ sub.ops → svc.windowOf doc = w) (hv : svc.upserts sub v ≠ []) :
    v = w := by
  obtain ⟨op, hop⟩ := exists_mem_of_ne_nil _ hv
  obtain ⟨hmem, hop⟩ := mem_filter.mp hop
  cases op with
  | delete key => cases hop
  | upsert doc =>
    rw [← hrouted doc hmem]
    exact (by simpa [windowOf] using hop : svc.windowOf doc = v).symm

section

variable {fence : PrimaryFence} {order : StagingOrder K} {w : Int} {sub : CommitBatch K}
  {rest : List (Int × CommitBatch K)}

lemma deliver_shard (v : Int) : (st.deliver svc owner order fence w sub rest).shard owner v =
      if owner v = owner w then (after (st.nodes (owner w))
        ((svc.under fence).write order sub (st.nodes (owner w))).1).disk v else st.shard owner v := by
  unfold shard deliver
  by_cases hv : owner v = owner w
  · simp [hv]
  · simp [hv]

omit [DecidableEq N] in
lemma Kept.advances_owner (h : Kept svc log endOf owner st)
    (hrouted : ∀ doc, .upsert doc ∈ sub.ops → (svc.under fence).windowOf doc = w)
    (hv : Advances (svc.under fence) (st.nodes (owner w)) sub v) : owner v = owner w := by
  rcases hv with hv | ⟨-, hserved, -⟩
  · rw [upserts_routed hrouted hv]
  · exact (h.served _ v hserved).1

structure Moved (svc : WindowedWriteService) (log : Changelog K) (endOf : String → SourceCheckpoint)
    (owner : Int → N) (w : Int) (sub : CommitBatch K) (st st' : Cluster T.logged N) : Prop where
  unmoved : ∀ v, ¬ Advances svc (st.nodes (owner w)) sub v → st'.shard owner v = st.shard owner v
  checkpoint : ∀ v, (st'.shard owner v).redb.checkpoint = (st.shard owner v).redb.checkpoint ∨
    (st'.shard owner v).redb.checkpoint = some sub.checkpoint
  advanced : ∀ v, Advances svc (st.nodes (owner w)) sub v →
    position (some sub.checkpoint) ≤ position (st'.shard owner v).redb.checkpoint
  behind : ∀ v, Behind svc log endOf v (st'.shard owner v)
  wrote : ∀ v doc, (st.shard owner v).Wrote doc → (st'.shard owner v).Wrote doc

variable (rest) in
lemma Kept.moved (h : Kept svc log endOf owner st)
    (hc : Resumable log endOf owner (svc.under fence) st w sub)
    (hcom : Committed (svc.under fence) order sub (st.nodes (owner w))
      (after (st.nodes (owner w))
        ((svc.under fence).write order sub (st.nodes (owner w))).1))
    (hst : Steady (after (st.nodes (owner w))
      ((svc.under fence).write order sub (st.nodes (owner w))).1)) :
    Moved (svc.under fence) log endOf owner w sub st (st.deliver svc owner order fence w sub rest) := by
  have hset := h.settled (owner w)
  have hbehind : ∀ v, owner v = owner w → Behind (svc.under fence) log endOf v ((st.nodes (owner w)).disk v) := by
    intro v hv
    rw [← hv]
    exact (h.behind v).under fence
  have hshard : ∀ v, owner v = owner w → st.shard owner v = (st.nodes (owner w)).disk v := by
    intro v hv
    rw [shard, hv]
  refine ⟨?_, ?_, ?_, ?_, ?_⟩ <;> intro v <;> rw [deliver_shard] <;> split_ifs with hv
  · intro hno
    rw [hshard v hv]
    exact hcom.unmoved hno
  · exact fun _ => rfl
  · rw [hshard v hv]
    exact hcom.checkpoint hset
  · exact .inl rfl
  · exact (hbehind v hv).advanced hset hc.delivery hcom
  · intro hadv
    exact absurd (h.advances_owner hc.routed hadv) hv
  · exact (hbehind v hv).call hset hc.delivery ⟨fun v => (hcom.whole v).stage, hcom.untouched, hst.toBootable⟩
  · exact (h.behind v).under fence
  · intro doc hdoc
    rw [hshard v hv] at hdoc
    exact hcom.wrote hset hdoc
  · exact fun _ hdoc => hdoc

omit [DecidableEq N] in
lemma Moved.held
    (hm : Moved svc log endOf owner w sub st st') (hc : Resumable log endOf owner svc st w sub)
    (hsnap : snap ∈ log.snapshots) (hdoc : .upsert doc ∈ snap.ops)
    (hmiss : ¬ HasCommitted svc log (st'.shard owner (svc.windowOf doc)) snap doc)
    (hbefore : ¬ HasCommitted svc log (st.shard owner (svc.windowOf doc)) snap doc →
      Held owner st snap.sequenceNumber) : Held owner st' snap.sequenceNumber := by
  have hmiss' : ¬ HasCommitted svc log (st.shard owner (svc.windowOf doc)) snap doc := by
    rintro ⟨later, hlater, hle, last, hlast, hw, hk, hwrote⟩
    exact hmiss ⟨later, hlater, hle, last, hlast, hw, hk, hm.wrote _ _ hwrote⟩
  by_cases hpos : (snap.sequenceNumber : WithBot Int) ≤ position (some sub.checkpoint)
  · by_cases hadv : Advances svc (st.nodes (owner w)) sub (svc.windowOf doc)
    · exact absurd (hasCommitted_of_behind (hm.behind _) hsnap hdoc
        (hpos.trans (hm.advanced _ hadv))) hmiss
    · rcases hc.held snap hsnap hpos doc hdoc hmiss' hadv with ⟨v, c, hv, hno, hcp, hlt⟩ | hnone
      · exact .inl ⟨v, c, hv, by rw [hm.unmoved v hno, hcp], hlt⟩
      · refine .inr (fun v c hv hcp => ?_)
        obtain ⟨hno, hcp'⟩ := hnone v hv
        simp [hm.unmoved v hno, hcp'] at hcp
  · -- the batch ends before the upsert, so wherever the checkpoints moved they stay before it
    have hlt := not_le.mp hpos
    rcases hbefore hmiss' with ⟨v, c, hv, hcp, hc'⟩ | hall
    · rcases hm.checkpoint v with he | he
      · exact .inl ⟨v, c, hv, he.trans hcp, hc'⟩
      · exact .inl ⟨v, _, hv, he, hlt⟩
    · refine .inr (fun v c hv hcp => ?_)
      rcases hm.checkpoint v with he | he
      · exact hall v c hv (he ▸ hcp)
      · obtain rfl := some.inj (he.symm.trans hcp)
        exact hlt

lemma Kept.deliver {snapshot : Nat} (h : Kept svc log endOf owner st)
    (hc : Resumable log endOf owner (svc.under fence) st w sub)
    (hok : ((svc.under fence).write order sub (st.nodes (owner w))).2 = .ok snapshot) :
    Kept svc log endOf owner (st.deliver svc owner order fence w sub rest) := by
  have hcall := (write_meets (svc.under fence) order sub (h.steady (owner w)) _ rfl).2
  rw [hok] at hcall
  obtain ⟨hcom, hst, -⟩ := hcall
  have hmoved := h.moved rest hc hcom hst
  obtain ⟨hself, hgrow, hstatus⟩ := place_mem st.shardStatus w h.status
  refine ⟨fun n => ?_, fun n => ?_, fun v => (hmoved.behind v).of_under, fun n v hv => ?_, hstatus,
    fun snap hsnap doc hdoc hmiss => hmoved.held hc hsnap hdoc hmiss (h.held snap hsnap doc hdoc)⟩
  · by_cases hn : n = owner w
    · subst hn
      simpa [Cluster.deliver] using hst
    · simpa [Cluster.deliver, hn] using h.steady n
  · by_cases hn : n = owner w
    · subst hn
      have hsettled : Settled (after (st.nodes (owner w))
          ((svc.under fence).write order sub (st.nodes (owner w))).1) := fun v => by
        obtain ⟨m, hm⟩ := h.settled (owner w) v
        obtain ⟨m', hm', -⟩ := (hcom.whole v).reflects hm
        exact ⟨m', hm'⟩
      simpa [Cluster.deliver] using hsettled
    · simpa [Cluster.deliver, hn] using h.settled n
  · by_cases hn : n = owner w
    · subst hn
      have hv : (after (st.nodes (owner w))
        ((svc.under fence).write order sub (st.nodes (owner w))).1).served v := by
        simpa [Cluster.deliver] using hv
      rcases (hcom.served v).mp hv with hv | hv
      · exact (h.served _ v hv).imp_right (hgrow _)
      · obtain rfl := upserts_routed hc.routed hv
        exact ⟨rfl, hself⟩
    · have hv : (st.nodes n).served v := by simpa [Cluster.deliver, hn] using hv
      exact (h.served n v hv).imp_right (hgrow _)

end

variable {router : WindowRouter} {commitChunk : Nat} {muxed : N → List Int}

omit [DecidableEq N] in
lemma Kept.start : Kept svc log endOf owner (.start commitChunk muxed : Cluster T.logged N) := by
  refine ⟨fun n => Steady.empty, fun n w => ⟨_, empty_reflects _⟩, fun w => Behind.empty _,
    fun n w h => (nomatch h), fun s hs => (nomatch hs), ?_⟩
  exact fun snap _ doc _ _ => .inr (fun v c _ hc => (nomatch hc))

lemma Written.kept (h : Written svc owner router (Resumable log endOf owner) commitChunk muxed st) :
    Kept svc log endOf owner st := by
  induction h with
  | start => exact Kept.start
  | taken _ _ _ _ ih => exact ⟨ih.steady, ih.settled, ih.behind, ih.served, ih.status, ih.held⟩
  | resolved _ _ ih => exact ih.resolve _
  | sent _ _ _ _ hc hok ih => exact ih.deliver hc hok
  | crashed _ ih => exact ⟨ih.steady, ih.settled, ih.behind, ih.served, ih.status, ih.held⟩

omit [DecidableEq N] in
lemma Kept.served_of_checkpoint (h : Kept svc log endOf owner st)
    (hc : (st.shard owner v).redb.checkpoint = some c) : (st.nodes (owner v)).served v := by
  cases hs : (st.nodes (owner v)).served v with
  | true => rfl
  | false =>
    obtain ⟨chunk, he⟩ := (h.steady (owner v)).fresh v hs
    rw [shard, he] at hc
    cases hc

lemma getCheckpoint_ok {svc : WindowedWriteService} {node : WindowedNode T}
    (h : svc.getCheckpoint node w = .ok (cp, n)) :
    cp = if node.served w then (node.disk w).redb.checkpoint else none := by
  unfold getCheckpoint at h
  split_ifs at h with hallow hserved
  · rw [if_pos hserved]
    exact (congrArg Prod.fst (ok.inj h)).symm
  · rw [if_neg hserved]
    exact (congrArg Prod.fst (ok.inj h)).symm

def reported (nodes : N → WindowedNode T) (s : ShardStatus N) : Option SourceCheckpoint :=
  s.primary.bind (fun n => if s.window = 0 then none
    else if (nodes n).served s.window then ((nodes n).disk s.window).redb.checkpoint else none)

variable {fences : N → PrimaryFence}

omit [DecidableEq N] in
lemma readCheckpoint_ok {nodes : N → WindowedNode T} {s : ShardStatus N} {acc out : List ShardCheckpoint}
    (h : readCheckpoint svc fences nodes acc s = .ok out) :
    out = acc ++ (reported nodes s).toList.map .ofSource := by
  unfold readCheckpoint at h
  unfold reported
  cases hp : s.primary with
  | none =>
    rw [hp] at h
    simpa using (ok.inj h).symm
  | some n =>
    simp only [hp] at h
    rw [bind_some]
    by_cases hzero : s.window = 0
    · rw [if_pos hzero] at h ⊢
      simpa using (ok.inj h).symm
    · rw [if_neg hzero] at h ⊢
      cases hget : (svc.under (fences n)).getCheckpoint (nodes n) s.window with
      | error e => simp [hget] at h
      | ok read =>
        obtain ⟨cp, snapshot⟩ := read
        rw [hget] at h
        rw [← getCheckpoint_ok hget]
        cases cp <;> simpa using (ok.inj h).symm

omit [DecidableEq N] in
lemma readCheckpoints_ok {nodes : N → WindowedNode T}
    {status : List (ShardStatus N)} {acc out : List ShardCheckpoint}
    (h : status.foldlM (readCheckpoint svc fences nodes) acc = .ok out) :
    out = acc ++ (status.filterMap (reported nodes)).map .ofSource := by
  induction status generalizing acc with
  | nil =>
    cases h
    simp
  | cons s status ih =>
    rw [foldlM_cons] at h
    cases hs : readCheckpoint svc fences nodes acc s with
    | error e =>
      rw [hs] at h
      cases h
    | ok next =>
      rw [hs] at h
      rw [ih h, readCheckpoint_ok hs, filterMap_cons]
      cases reported nodes s <;> simp

omit [DecidableEq N] in
lemma Kept.read (h : Kept svc log endOf owner st) (hcps : st.windowCheckpoints svc fences = .ok cps) :
    (∀ x ∈ cps, ∃ v c, v ≠ 0 ∧ (st.shard owner v).redb.checkpoint = some c ∧ x = .ofSource c) ∧
      ∀ v c, v ≠ 0 → (st.shard owner v).redb.checkpoint = some c → .ofSource c ∈ cps := by
  have hread : cps = (st.shardStatus.filterMap (reported st.nodes)).map .ofSource := by
    simpa using readCheckpoints_ok hcps
  subst hread
  constructor
  · intro x hx
    obtain ⟨c, hc, rfl⟩ := mem_map.mp hx
    obtain ⟨s, hs, hc⟩ := mem_filterMap.mp hc
    rw [reported, h.status s hs, bind_some] at hc
    split_ifs at hc with hzero hserved
    exact ⟨s.window, c, hzero, hc, rfl⟩
  · intro v c hv hc
    have hserved := h.served_of_checkpoint hc
    refine mem_map.mpr ⟨c, mem_filterMap.mpr ⟨_, (h.served _ v hserved).2, ?_⟩, rfl⟩
    rwa [reported, bind_some, if_neg hv, if_pos hserved]

/-- In every state of a run whose sends are all resumable, restarts included, every upsert its window has not
committed comes strictly after the snapshot the connector resumes at. -/
theorem resume_loses_nothing {fences : N → PrimaryFence} {lineage : Int → Option Int} {id : Int}
    (hlog : Numbered log)
    (h : Written svc owner router (Resumable log endOf owner) commitChunk muxed st)
    (hresume : st.checkpointSnapshotId svc fences lineage = .ok (some id)) :
    ∃ resume ∈ log.snapshots, resume.snapshotId = id ∧ ∀ snap ∈ log.snapshots, ∀ doc, .upsert doc ∈ snap.ops →
        ¬ HasCommitted svc log (st.shard owner (svc.windowOf doc)) snap doc →
        resume.sequenceNumber < snap.sequenceNumber := by
  have hk := h.kept
  cases hcps : st.windowCheckpoints svc fences with
  | error e => simp [Cluster.checkpointSnapshotId, hcps] at hresume
  | ok cps =>
    rw [Cluster.checkpointSnapshotId, hcps] at hresume
    have hmin : resumeMinOf cps lineage = some id := Except.ok.inj hresume
    obtain ⟨hfrom, hmem⟩ := hk.read hcps
    obtain ⟨resume, hin, hid, hleast⟩ := resumeMinOf_least hlog (fun x hx => by
      obtain ⟨v, c, -, hc, rfl⟩ := hfrom x hx
      exact ⟨c, (hk.behind v).has c hc, rfl⟩) hmin
    refine ⟨resume, hin, hid, fun snap hsnap doc hdoc hmiss => ?_⟩
    have hbelow : ∃ v c, v ≠ 0 ∧ (st.shard owner v).redb.checkpoint = some c ∧
        position (some c) < (snap.sequenceNumber : WithBot Int) := by
      rcases hk.held snap hsnap doc hdoc hmiss with hheld | hall
      · exact hheld
      · -- the windows that were read are all before the upsert, and there is one
        obtain ⟨x, hx⟩ : ∃ x, x ∈ cps := exists_mem_of_ne_nil _ (fun hnil => by
          rw [hnil] at hmin
          cases hmin)
        obtain ⟨v, c, hv, hcp, -⟩ := hfrom x hx
        exact ⟨v, c, hv, hcp, hall v c hv hcp⟩
    obtain ⟨v, c, hv, hcp, hlt⟩ := hbelow
    exact WithBot.coe_lt_coe.mp
      ((hleast c ((hk.behind v).has c hcp) (hmem v c hv hcp)).trans_lt hlt)

end

namespace SampleCluster
open SampleNode (svc event order)

abbrev State := Cluster (listTantivy Nat (Document Nat)).logged Unit

def owner : Int → Unit := fun _ => ()

def router : WindowRouter := .ofConfig svc.windowing svc.formatOf

def initial : State := .start 0 (fun _ => [])

def oneDay : Changelog Nat where
  snapshots := [⟨10, 1, [.upsert (event 1 86400000010)]⟩, ⟨20, 2, [.upsert (event 2 86400000020)]⟩]
  increasing := by decide
  distinct := by decide

def twoDays : Changelog Nat where
  snapshots := [⟨10, 1, [.upsert (event 1 86400000010), .upsert (event 2 172800000010)]⟩]
  increasing := by decide
  distinct := by decide

def firstBatch (ops : List (DocOp Nat)) : CommitBatch Nat := ⟨ops, ⟨10, some 1⟩, "a", none, none⟩

def dayPart : CommitBatch Nat :=
  subBatch (firstBatch []) 86400000000 [.upsert (event 1 86400000010)]

def nextDay : Int × CommitBatch Nat :=
  (172800000000, subBatch (firstBatch []) 172800000000 [.upsert (event 2 172800000010)])

def sentDay (rest : List (Int × CommitBatch Nat)) : State :=
  { initial with queue := (86400000000, dayPart) :: rest }.deliver svc owner order .unrestricted
    86400000000 dayPart rest

lemma between_oneDay (w : Int) : between (windowLog svc oneDay w) ⊥ (position (some dayPart.checkpoint)) =
      (svc.upserts dayPart w).map DocOp.change := by
  have hin : (1 : WithBot Int) ≤ position (some ⟨10, some 1⟩) := le_refl _
  have hlate : ¬ (2 : WithBot Int) ≤ position (some ⟨10, some 1⟩) := by decide
  simp [windowLog, Changelog.viewOf, oneDay, between, hin, hlate, List.filter_map,
    Function.comp_def, upserts, dayPart, subBatch, firstBatch]

lemma day_resumable (rest : List (Int × CommitBatch Nat)) :
    Resumable oneDay (fun _ => ⟨10, some 1⟩) owner svc { initial with queue := (86400000000, dayPart) :: rest } 86400000000 dayPart := by
  refine ⟨fun doc hdoc => ?_, ⟨⟨_, mem_cons_self, rfl⟩, fun _ => rfl, rfl, ?_⟩, ?_⟩
  · obtain rfl : doc = event 1 86400000010 := by simpa [dayPart, subBatch] using hdoc
    rfl
  · intro w _ k doc hk
    have hstart : position ((initial.nodes ()).disk w).redb.checkpoint = ⊥ := rfl
    rwa [show owner 86400000000 = () from rfl, hstart, between_oneDay] at hk
  · intro snap hsnap hle doc hdoc _ hno
    exfalso
    rcases mem_cons.mp hsnap with rfl | hsnap
    · obtain rfl : doc = event 1 86400000010 := by simpa using hdoc
      exact hno (.inl (by decide))
    · obtain rfl := mem_singleton.mp hsnap
      exact absurd hle (by decide)

lemma sentDay_written {cond : WindowedWriteService → State → Int → CommitBatch Nat → Prop}
    (ops : List (DocOp Nat))
    (hp : partition router (firstBatch ops) [] = .ok ((86400000000, dayPart) :: rest))
    (hc : cond svc { initial with queue := (86400000000, dayPart) :: rest } 86400000000 dayPart) :
    Written svc owner router cond 0 (fun _ => []) (sentDay rest) :=
  have hok : (svc.write order dayPart (initial.nodes ())).2 = .ok 1 := rfl
  .sent (.taken .start (firstBatch ops) rfl hp) .unrestricted order rfl hc hok

end SampleCluster

open SampleCluster

open SampleNode

theorem resume_loses_nothing_day :
    (sentDay []).restart.checkpointSnapshotId svc (fun _ => .unrestricted)
        (fun _ => none) = .ok (some 10) ∧
      ∃ resume ∈ oneDay.snapshots, resume.snapshotId = 10 ∧ ∀ snap ∈ oneDay.snapshots, ∀ doc, .upsert doc ∈ snap.ops →
          ¬ HasCommitted svc oneDay
            ((sentDay []).restart.shard owner
              (svc.windowOf doc)) snap doc →
          resume.sequenceNumber < snap.sequenceNumber := by
  have hresume : (sentDay []).restart.checkpointSnapshotId svc
    (fun _ => .unrestricted) (fun _ => none) = .ok (some 10) := rfl
  have hlog : Numbered oneDay := by
    unfold Numbered
    decide
  have hwritten : Written svc owner router
      (Resumable oneDay (fun _ => ⟨10, some 1⟩) owner) 0 (fun _ => [])
      (sentDay []) :=
    sentDay_written [.upsert (event 1 86400000010)] rfl
      (day_resumable [])
  exact ⟨hresume, resume_loses_nothing hlog (.crashed hwritten) hresume⟩

/-- The connector stops after the first day's part of the first batch. The second day's window has no checkpoint, so
the restart resumes at the batch's own snapshot and the second upsert is never read again. -/
theorem first_batch_lost : ∃ st : State, Written svc owner router (fun _ _ _ _ => True) 0
        (fun _ => []) st ∧
      st.checkpointSnapshotId svc (fun _ => .unrestricted) (fun _ => none) = .ok (some 10) ∧
      ∃ snap ∈ twoDays.snapshots, ∃ doc, .upsert doc ∈ snap.ops ∧ ¬ HasCommitted svc twoDays
          (st.shard owner (svc.windowOf doc)) snap doc ∧
        snap.snapshotId = 10 := by
  refine ⟨(sentDay [nextDay]).restart, .crashed (sentDay_written
    [.upsert (event 1 86400000010), .upsert (event 2 172800000010)] rfl
    trivial), rfl, _, mem_cons_self, event 2 172800000010, by decide, ?_, rfl⟩
  rintro ⟨later, -, -, last, -, -, -, hwrote⟩
  -- nothing was ever written to the second day's window
  have hnone : (last.key, last) ∈ ([] : List (Nat × Document Nat)) := hwrote
  cases hnone

end GrowlerDB.Connector
