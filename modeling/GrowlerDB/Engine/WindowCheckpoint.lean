import GrowlerDB.Engine.WindowedRun

namespace GrowlerDB.Engine
open Core Index Lib Replay List Option Shard Redb RedbTxn

variable {K : Type} [DecidableEq K] {T : Tantivy K (Document K)}

section

variable (svc : WindowedWriteService) (log : Changelog K)

def windowLog (w : Int) : Log Int K (Document K) :=
  log.viewOf (svc.windowing.upsertsIn svc.timeFields w)

/-- Every upsert that belongs to the window, up to a position, has been applied to its shard: the
last one of its key up to there was written. -/
def CaughtUp (w : Int) (hi : WithBot Int) (s : Shard T.logged) : Prop :=
  ∀ snap ∈ log.snapshots, (snap.sequenceNumber : WithBot Int) ≤ hi →
    ∀ doc, .upsert doc ∈ snap.ops → svc.windowOf doc = w →
      ∃ last, lastChange (between (windowLog svc log w) ⊥ hi) doc.key = some (some last) ∧ s.Wrote last

/-- The batch brings the window everything between a position and the batch's own. -/
def Brings (batch : CommitBatch K) (w : Int) (lo : WithBot Int) : Prop :=
  ∀ k doc, lastChange (between (windowLog svc log w) lo (position (some batch.checkpoint))) k = some (some doc) →
    lastChange ((svc.upserts batch w).map DocOp.change) k = some (some doc)

end

/-- The call can move the window's checkpoint: it upserts into the window, or it has deletes and the
window is served here, as primary and not parked. -/
def Advances (svc : WindowedWriteService) (node : WindowedNode T) (batch : CommitBatch K) (w : Int) :
    Prop :=
  svc.upserts batch w ≠ [] ∨ (batch.ops.filter DocOp.isDelete ≠ [] ∧ node.served w = true ∧
    svc.fence.allows svc.indexName w = true ∧ (node.disk w).readOnly = false)

/-- A call whose batch ends at a position, whose id names it, and which brings every window it can advance all it is
missing up to there. -/
structure Delivery (log : Changelog K) (endOf : String → SourceCheckpoint)
    (svc : WindowedWriteService) (node : WindowedNode T) (batch : CommitBatch K) : Prop where
  hasEnd : log.Has batch.checkpoint
  named : ∀ w : Int, endOf (batch.batchId ++ "#w" ++ toString w) = batch.checkpoint
  namedDel : endOf (batch.batchId ++ "#del") = batch.checkpoint
  complete : ∀ w, Advances svc node batch w →
    Brings svc log batch w (position (node.disk w).redb.checkpoint)

variable {doc : Document K}

section

variable {svc : WindowedWriteService} {log : Changelog K} {endOf : String → SourceCheckpoint}
  {order : StagingOrder K} {w : Int} {s s' : Shard T.logged}

structure Behind (svc : WindowedWriteService) (log : Changelog K) (endOf : String → SourceCheckpoint)
    (w : Int) (s : Shard T.logged) : Prop where
  has : ∀ c, s.redb.checkpoint = some c → log.Has c
  ids : ∀ id ∈ s.redb.batchKeys.map Prod.fst,
    position (some (endOf id)) ≤ position s.redb.checkpoint
  wrote : ∀ k doc, lastChange (between (windowLog svc log w) ⊥ (position s.redb.checkpoint)) k =
    some (some doc) → s.Wrote doc

omit [DecidableEq K] in
lemma windowLog_ordered : Ordered (windowLog svc log w) := log.viewOf_ordered _

omit [DecidableEq K] in
lemma mem_windowLog
    (hsnap : snap ∈ log.snapshots) (hdoc : .upsert doc ∈ snap.ops) (hw : svc.windowOf doc = w)
    (hlo : lo < (snap.sequenceNumber : WithBot Int)) (hhi : (snap.sequenceNumber : WithBot Int) ≤ hi) :
    (doc.key, some doc) ∈ between (windowLog svc log w) lo hi := by
  refine mem_map.mpr ⟨(snap.sequenceNumber, doc.key, some doc), ?_, rfl⟩
  rw [mem_filter]
  refine ⟨mem_flatMap.mpr ⟨snap, hsnap, mem_map.mpr ⟨.upsert doc, ?_, rfl⟩⟩, ?_⟩
  · exact mem_filter.mpr ⟨hdoc, by simpa [WindowedWriteService.windowOf] using hw⟩
  · simpa using ⟨hlo, hhi⟩

omit [DecidableEq K] in
lemma of_mem_windowLog (h : (k, v) ∈ between (windowLog svc log w) lo hi) :
    ∃ snap ∈ log.snapshots, lo < (snap.sequenceNumber : WithBot Int) ∧
      ∃ doc, .upsert doc ∈ snap.ops ∧ svc.windowOf doc = w ∧ doc.key = k ∧ v = some doc := by
  obtain ⟨e, he, hv⟩ := mem_map.mp h
  obtain ⟨hin, hrange⟩ := mem_filter.mp he
  obtain ⟨snap, hsnap, hops⟩ := mem_flatMap.mp hin
  obtain ⟨op, hop, rfl⟩ := mem_map.mp hops
  obtain ⟨hops, hw⟩ := mem_filter.mp hop
  refine ⟨snap, hsnap, ?_, ?_⟩
  · simp only [Bool.and_eq_true, decide_eq_true_eq] at hrange
    exact hrange.1
  · cases op with
    | delete key => cases hw
    | upsert doc =>
      obtain ⟨hk, hdoc⟩ := Prod.ext_iff.mp hv
      exact ⟨doc, hops, by simpa [WindowedWriteService.windowOf] using hw, hk, hdoc.symm⟩

lemma Behind.empty (chunk : Nat) : Behind svc log endOf w (empty chunk : Shard T.logged) := by
  refine ⟨fun c hc => (nomatch hc), fun id hid => (nomatch hid), fun k doc hk => ?_⟩
  have hk : lastChange (between (windowLog svc log w) ⊥ ⊥) k = some (some doc) := hk
  simp [between_empty _ (le_refl (⊥ : WithBot Int))] at hk

lemma Behind.write (h : Behind svc log endOf w s) (hr : s.Reflects m)
    (hp : s.writePlan ord b = .ok (plan, n)) (hend : log.Has b.checkpoint)
    (hfrom : b.fromCheckpoint = none) (hname : endOf b.batchId = b.checkpoint)
    (hbring : ∀ k doc, lastChange (between (windowLog svc log w) (position s.redb.checkpoint)
      (position (some b.checkpoint))) k = some (some doc) →
      lastChange b.changes k = some (some doc)) : Behind svc log endOf w (s.exec plan) ∧
      position (some b.checkpoint) ≤ position (s.exec plan).redb.checkpoint := by
  have hnof : ∀ f, b.fromCheckpoint = some f → log.Has f := fun f hf => by simp [hfrom] at hf
  rcases hr.write_journal hp with ⟨hsame, hrec | hno⟩ | ⟨happ, hcp, hids, hwrote⟩
  · rw [hsame]
    exact ⟨h, hname ▸ h.ids _ (batchSnapshot_mem hrec)⟩
  · rw [hsame]
    exact ⟨h, (continuity_noOp h.has hend hnof hno).1⟩
  · have hle : position s.redb.checkpoint ≤ position (some b.checkpoint) :=
      (continuity_apply h.has hend hnof (fun _ => hfrom) happ).2.1
    refine ⟨⟨?_, ?_, ?_⟩, hcp ▸ le_refl _⟩
    · intro c hc
      exact some.inj (hcp.symm.trans hc) ▸ hend
    · intro id hid
      rw [hcp]
      rcases hids id hid with rfl | hid
      · rw [hname]
      · exact (h.ids id hid).trans hle
    · intro k doc hk
      rw [hcp, between_split windowLog_ordered bot_le hle, lastChange_append] at hk
      cases hnew : lastChange (between (windowLog svc log w) (position s.redb.checkpoint)
          (position (some b.checkpoint))) k with
      | none =>
        rw [hnew, none_or] at hk
        exact (h.wrote k doc hk).exec hr.clean plan
      | some v =>
        rw [hnew, some_or] at hk
        exact hwrote k doc (hbring k doc (hnew.trans hk))

lemma Behind.write_stop (h : Behind svc log endOf w s) (hr : s.Reflects m)
    (hp : s.writePlan ord b = .ok (plan, n)) (hdone : Behind svc log endOf w (s.exec plan))
    (stop : Nat) : Behind svc log endOf w (s.exec (plan.take stop)) := by
  obtain ⟨m', -, -, hredb | hcomplete⟩ := hr.write_stop hp stop
  · have hredb : (s.exec (plan.take stop)).redb = s.redb := hredb
    refine ⟨hredb ▸ h.has, hredb ▸ h.ids, fun k doc hk => ?_⟩
    rw [hredb] at hk
    exact (h.wrote k doc hk).exec hr.clean _
  · have hreopen : Behind svc log endOf w (s.crash plan stop) := hcomplete ▸ hdone
    exact ⟨hreopen.has, hreopen.ids, hreopen.wrote⟩

lemma Behind.txn (h : Behind svc log endOf w s) (lo hi : Option Int) :
    Behind svc log endOf w (s.exec [.txn (.eventBounds lo hi)]) := by
  refine ⟨?_, ?_, ?_⟩ <;> simp only [exec_txn_redb, run, setEventBounds_checkpoint,
      setEventBounds_batchKeys]
  · exact h.has
  · exact h.ids
  · exact h.wrote

lemma Behind.upserted (h : Behind svc log endOf w s) (hr : s.Reflects m)
    (hu : Upserted svc order batch w s s') (hend : log.Has batch.checkpoint)
    (hname : endOf (batch.batchId ++ "#w" ++ toString w) = batch.checkpoint)
    (hbring : Brings svc log batch w (position s.redb.checkpoint)) :
    Behind svc log endOf w s' ∧ ∀ k doc, lastChange (between (windowLog svc log w)
      (position s'.redb.checkpoint) (position (some batch.checkpoint))) k ≠ some (some doc) := by
  cases hu with
  | skip hnone =>
    refine ⟨h, fun k doc hk => ?_⟩
    have := hbring k doc hk
    simp [hnone] at this
  | commit hne hp =>
    obtain ⟨hb, hle⟩ := h.write hr hp hend rfl hname hbring
    have hle : position (some batch.checkpoint) ≤ position (s.exec _).redb.checkpoint := hle
    refine ⟨hb.txn _ _, fun k doc hk => ?_⟩
    simp [exec_txn_redb, run, setEventBounds_checkpoint, between_empty _ hle] at hk

lemma Upserted.wrote (h : Upserted svc order batch w s s') (hr : s.Reflects m)
    (hd : s.Wrote doc) : s'.Wrote doc := by
  cases h with
  | skip _ => exact hd
  | @commit plan _ _ hp =>
    have hclean : ∃ m', (s.exec plan).Reflects m' := by
      rcases hr.write hp with ⟨hsame, -⟩ | ⟨-, href, -⟩
      · exact ⟨m, hsame.symm ▸ hr⟩
      · exact ⟨_, href⟩
    obtain ⟨m', hm'⟩ := hclean
    exact (hd.exec hr.clean plan).exec hm'.clean _

lemma Deleted.wrote (h : Deleted svc order batch w s s') (hr : s.Reflects m)
    (hd : s.Wrote doc) : s'.Wrote doc := by
  cases h with
  | skip _ => exact hd
  | commit _ _ hp => exact hd.exec hr.clean _

lemma Behind.stage (h : Behind svc log endOf w (start.disk w)) (hr : (start.disk w).Reflects m)
    (hd : Delivery log endOf svc start batch) (hst : Stage svc order batch w (start.disk w) s')
    (htouch : start.served w ∨ svc.upserts batch w ≠ []) : Behind svc log endOf w s' := by
  cases hst with
  | untouched => exact h
  | upserting hne hp stop =>
    have hdone := (h.write hr hp hd.hasEnd rfl (hd.named w) (hd.complete w (.inl hne))).1
    exact h.write_stop hr hp hdone stop
  | upserted hu =>
    cases hu with
    | skip _ => exact h
    | commit hne hp => exact ((h.write hr hp hd.hasEnd rfl (hd.named w)
        (hd.complete w (.inl hne))).1).txn _ _
  | deleting hu hdel hallow hp stop =>
    have hbring : Brings svc log batch w (position (start.disk w).redb.checkpoint) := by
      rcases htouch with hs | hne
      · exact hd.complete w (.inr ⟨hdel, hs, hallow, hu.readOnly ▸ writePlan_writable hp⟩)
      · exact hd.complete w (.inl hne)
    obtain ⟨hb, hnone⟩ := h.upserted hr hu hd.hasEnd (hd.named w) hbring
    obtain ⟨m₁, hr₁, -⟩ := hu.reflects hr
    have hdone := (hb.write hr₁ hp hd.hasEnd rfl hd.namedDel
      (fun k doc hk => absurd hk (hnone k doc))).1
    exact hb.write_stop hr₁ hp hdone stop

lemma Behind.caughtUp (h : Behind svc log endOf w s)
    (hc : s.redb.checkpoint = some c) : CaughtUp svc log w (position (some c)) s := by
  intro snap hsnap hle doc hdoc hw
  have hin := mem_windowLog hsnap hdoc hw (WithBot.bot_lt_coe _) hle
  cases hl : lastChange (between (windowLog svc log w) ⊥ (position (some c))) doc.key with
  | none => exact absurd rfl (lastChange_eq_none.mp hl _ hin)
  | some v =>
    obtain ⟨-, -, -, last, -, -, -, rfl⟩ := of_mem_windowLog (lastChange_mem hl)
    exact ⟨last, rfl, h.wrote doc.key last (hc ▸ hl)⟩

end

section

variable {svc : WindowedWriteService} {log : Changelog K} {endOf : String → SourceCheckpoint}
  {order : StagingOrder K} {w : Int} {start node : WindowedNode T.logged}

lemma Behind.under (h : Behind svc log endOf w s) (fence : PrimaryFence) :
    Behind (svc.under fence) log endOf w s := ⟨h.has, h.ids, h.wrote⟩

lemma Behind.of_under (h : Behind (svc.under fence) log endOf w s) : Behind svc log endOf w s :=
  ⟨h.has, h.ids, h.wrote⟩

lemma Behind.call (h : Behind svc log endOf w (start.disk w)) (hset : Settled start)
    (hd : Delivery log endOf svc start batch) (hin : InStages svc order batch start node) :
    Behind svc log endOf w (node.disk w) := by
  obtain ⟨m, hm⟩ := hset w
  by_cases htouch : start.served w ∨ svc.upserts batch w ≠ []
  · exact h.stage hm hd (hin.shards w) htouch
  · rw [not_or, not_not] at htouch
    rwa [hin.untouched w (by simpa using htouch.1) htouch.2]

section

variable {batch : CommitBatch K} (h : Committed svc order batch start node)
include h

lemma Committed.unmoved
    (hno : ¬ Advances svc start batch w) : node.disk w = start.disk w := by
  obtain ⟨hup, hdel⟩ := not_or.mp hno
  rw [not_not] at hup
  cases hserved : node.served w with
  | false => exact h.others w hserved
  | true =>
    obtain ⟨s, hs, hd⟩ := h.shards w hserved
    obtain rfl := hs.eq_of_none hup
    generalize node.disk w = s' at hd ⊢
    cases hd with
    | skip _ => rfl
    | commit hne ha hp =>
      have hs : start.served w := ((h.served w).mp hserved).resolve_right (not_not.mpr hup)
      exact absurd ⟨hne, hs, ha, writePlan_writable hp⟩ hdel

lemma Committed.wrote
    (hset : Settled start) (hd : (start.disk w).Wrote doc) : (node.disk w).Wrote doc := by
  cases hserved : node.served w with
  | false => rwa [h.others w hserved]
  | true =>
    obtain ⟨m, hm⟩ := hset w
    obtain ⟨s, hs, hdel⟩ := h.shards w hserved
    obtain ⟨m', hm', -⟩ := hs.reflects hm
    exact hdel.wrote hm' (hs.wrote hm hd)

lemma Committed.checkpoint (hset : Settled start) :
    (node.disk w).redb.checkpoint = (start.disk w).redb.checkpoint ∨
      (node.disk w).redb.checkpoint = some batch.checkpoint := by
  cases hserved : node.served w with
  | false => exact .inl (by rw [h.others w hserved])
  | true =>
    obtain ⟨m, hm⟩ := hset w
    obtain ⟨s, hs, hd⟩ := h.shards w hserved
    have hup : s.redb.checkpoint = (start.disk w).redb.checkpoint ∨ s.redb.checkpoint = some batch.checkpoint := by
      cases hs with
      | skip _ => exact .inl rfl
      | commit _ hp =>
        rw [exec_txn_redb, run, setEventBounds_checkpoint]
        rcases hm.write_journal hp with ⟨hsame, -⟩ | ⟨-, hcp, -⟩
        · exact .inl (by rw [hsame])
        · exact .inr hcp
    generalize node.disk w = s' at hd ⊢
    cases hd with
    | skip _ => exact hup
    | commit _ _ hp =>
      obtain ⟨m', hm', -⟩ := hs.reflects hm
      rcases hm'.write_journal hp with ⟨hsame, -⟩ | ⟨-, hcp, -⟩
      · rwa [hsame]
      · exact .inr hcp

end

lemma Behind.advanced (h : Behind svc log endOf w (start.disk w)) (hset : Settled start)
    (hd : Delivery log endOf svc start batch) (hcom : Committed svc order batch start node)
    (hadv : Advances svc start batch w) :
    position (some batch.checkpoint) ≤ position (node.disk w).redb.checkpoint := by
  obtain ⟨m, hm⟩ := hset w
  have hserved : node.served w := by
    rw [hcom.served]
    exact hadv.symm.imp_left (·.2.1)
  obtain ⟨s, hs, hdel⟩ := hcom.shards w hserved
  obtain ⟨m', hm', -⟩ := hs.reflects hm
  obtain ⟨hb, hnone⟩ := h.upserted hm hs hd.hasEnd (hd.named w) (hd.complete w hadv)
  generalize node.disk w = s' at hdel ⊢
  cases hdel with
  | commit _ _ hp =>
    exact (hb.write hm' hp hd.hasEnd rfl hd.namedDel
      (fun k doc hk => absurd hk (hnone k doc))).2
  | skip hskip =>
    cases hs with
    | commit hne hp =>
      rw [exec_txn_redb, run, setEventBounds_checkpoint]
      exact (h.write hm hp hd.hasEnd rfl (hd.named w) (hd.complete w hadv)).2
    | skip hup =>
      obtain ⟨hne, -, ha, hro⟩ := hadv.resolve_left (not_not.mpr hup)
      rcases hskip with hskip | hskip | hskip
      · exact absurd hskip hne
      · exact absurd (ha.symm.trans hskip) (by decide)
      · exact absurd (hro.symm.trans hskip) (by decide)

end

section

variable {svc : WindowedWriteService} {log : Changelog K} {endOf : String → SourceCheckpoint}
  {commitChunk : Nat} {muxed : List Int} {busy : Bool} {node : WindowedNode T.logged}

lemma behind_reached (h : Reached svc (Delivery log endOf) commitChunk muxed busy node) (w : Int) :
    Behind svc log endOf w (node.disk w) := by
  induction h with
  | boot => exact Behind.empty commitChunk
  | returned hr fence order batch hc ih =>
    obtain ⟨hst, hset⟩ := hr.basic.2.1 rfl
    have hret := write_returned (svc.under fence) hst order batch
    exact ((ih.under fence).call hset hc hret.stages).of_under
  | inside hr fence order batch hc n ih =>
    obtain ⟨hst, hset⟩ := hr.basic.2.1 rfl
    exact ((ih.under fence).call hset hc
      ((write_meets (svc.under fence) order batch hst _ rfl).1 n)).of_under
  | crashed _ ih => exact ⟨ih.has, ih.ids, ih.wrote⟩

/-- In every state of a run whose calls are all deliveries, half way through a call and after a crash included, every
upsert up to the position a window reports that belongs to the window has been applied. -/
theorem window_checkpoint_behind {fence : PrimaryFence} {w : Int} {c : SourceCheckpoint} {n : Nat}
    (h : Reached svc (Delivery log endOf) commitChunk muxed busy node)
    (hc : (svc.under fence).getCheckpoint node w = .ok (some c, n)) :
    CaughtUp svc log w (position (some c)) (node.disk w) := by
  refine (behind_reached h w).caughtUp ?_
  unfold WindowedWriteService.getCheckpoint at hc
  split_ifs at hc
  · exact congrArg Prod.fst (Except.ok.inj hc)
  · cases congrArg Prod.fst (Except.ok.inj hc)

end

namespace SampleNode

def changelog : Changelog Nat where
  snapshots :=
    [⟨10, 1, [.upsert (event 1 10), .upsert (event 2 86400000010)]⟩,
      ⟨20, 2, [.upsert (event 3 20), .upsert (event 4 86400000020), .delete 9]⟩]
  increasing := by decide
  distinct := by decide

def opening : CommitBatch Nat :=
  ⟨[.upsert (event 1 10), .upsert (event 2 86400000010)], ⟨10, some 1⟩, "a", none, none⟩

def dayOne : CommitBatch Nat := ⟨[.upsert (event 3 20), .delete 9], ⟨20, some 2⟩, "b#w0", none, none⟩

def logged : WindowedNode Docs.logged := .empty 0 []

def opened : WindowedNode Docs.logged :=
  Script.after logged (svc.write order opening logged).1

def broadcast : WindowedNode Docs.logged :=
  Script.after opened (svc.write order dayOne opened).1

lemma between_opening (w : Int) : between (windowLog svc changelog w) ⊥ (position (some opening.checkpoint)) =
      (svc.upserts opening w).map DocOp.change := by
  have hin : (1 : WithBot Int) ≤ position (some ⟨10, some 1⟩) := le_refl _
  have hlate : ¬ (2 : WithBot Int) ≤ position (some ⟨10, some 1⟩) := by decide
  simp [windowLog, Changelog.viewOf, changelog, between, hin, hlate, List.filter_map,
    Function.comp_def, WindowedWriteService.upserts, opening]

lemma opening_delivery : Delivery changelog (fun _ => ⟨10, some 1⟩) svc logged opening := by
  refine ⟨⟨_, mem_cons_self, rfl⟩, fun _ => rfl, rfl, fun w _ k doc hk => ?_⟩
  have hstart : position (logged.disk w).redb.checkpoint = ⊥ := rfl
  rwa [hstart, between_opening] at hk

end SampleNode

open SampleNode

theorem window_checkpoint_behind_opening : svc.getCheckpoint opened 86400000000 = .ok (some ⟨10, some 1⟩, 1) ∧
      CaughtUp svc changelog 86400000000 (position (some ⟨10, some 1⟩))
        (opened.disk 86400000000) :=
  ⟨rfl, window_checkpoint_behind (.returned .boot .unrestricted order opening opening_delivery)
    (show (svc.under .unrestricted).getCheckpoint _ _ = .ok (_, 1) from rfl)⟩

/-- One window's deletes are broadcast to the other day's window and stamp it with the position, although its own
upsert has not come. -/
theorem broadcast_runs_ahead : Reached svc (fun _ _ _ => True) 0 [] false broadcast ∧
      svc.getCheckpoint broadcast 86400000000 = .ok (some ⟨20, some 2⟩, 2) ∧
      ¬ CaughtUp svc changelog 86400000000 (position (some ⟨20, some 2⟩))
        (broadcast.disk 86400000000) := by
  refine ⟨.returned (.returned .boot .unrestricted order opening trivial)
    .unrestricted order dayOne trivial, rfl, fun h => ?_⟩
  obtain ⟨last, hlast, hwrote⟩ := h ⟨20, 2, _⟩ (mem_cons_of_mem _ mem_cons_self)
    (le_refl _) (event 4 86400000020) (by decide) rfl
  have hlast' : lastChange (between (windowLog svc changelog 86400000000) ⊥
    (position (some ⟨20, some 2⟩))) 4 = some (some (event 4 86400000020)) := rfl
  obtain rfl := some.inj (some.inj (hlast.symm.trans hlast'))
  have hjournal : journal (broadcast.disk 86400000000).store.durable = [(2, event 2 86400000010)] := rfl
  rw [Shard.Wrote, hjournal] at hwrote
  exact absurd hwrote (by decide)

end GrowlerDB.Engine
