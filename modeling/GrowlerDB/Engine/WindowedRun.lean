import GrowlerDB.Engine.WindowedSpec

namespace GrowlerDB.Engine
open Core Index Lib Replay List DocOp

variable {K : Type} [DecidableEq K] {T : Tantivy K (Document K)}

section

variable (svc : WindowedWriteService)
    (cond : WindowedWriteService → WindowedNode T → CommitBatch K → Prop) (commitChunk : Nat)
    (muxed : List Int)

/-- The states of a node whose calls all meet `cond`. The flag tells whether a write is in
progress. -/
inductive Reached : Bool → WindowedNode T → Prop
  | boot : Reached false (.empty commitChunk muxed)
  | returned {node : WindowedNode T} (h : Reached false node)
      (fence : PrimaryFence) (order : StagingOrder K) (batch : CommitBatch K)
      (hc : cond (svc.under fence) node batch) :
      Reached false
        (Script.after node ((svc.under fence).write order batch node).1)
  | inside {node : WindowedNode T} (h : Reached false node)
      (fence : PrimaryFence) (order : StagingOrder K) (batch : CommitBatch K)
      (hc : cond (svc.under fence) node batch) (n : Nat) :
      Reached true
        (Script.after node (((svc.under fence).write order batch node).1.take n))
  | crashed {busy : Bool} {node : WindowedNode T}
      (h : Reached busy node) :
      Reached false node.reboot

end

section

variable {svc : WindowedWriteService} {order : StagingOrder K} {batch : CommitBatch K} {w : Int}
  {m : K → Option (Document K)}

def GrownFrom (svc : WindowedWriteService) (batch : CommitBatch K) (w : Int)
    (m m' : K → Option (Document K)) : Prop :=
  ∀ k d, m' k = some d → m k = some d ∨ .upsert d ∈ svc.upserts batch w

lemma upsert_of_replay {ops : List (DocOp K)}
    (h : replay m (ops.map change) k = some d) : m k = some d ∨ .upsert d ∈ ops := by
  rw [replay_apply] at h
  cases hl : lastChange (ops.map change) k with
  | none =>
    rw [hl] at h
    exact .inl h
  | some v =>
    rw [hl] at h
    obtain rfl : v = some d := h
    obtain ⟨op, hop, hchange⟩ := mem_map.mp (lastChange_mem hl)
    cases op with
    | upsert doc =>
      obtain rfl : doc = d := by simpa [change] using congrArg Prod.snd hchange
      exact .inr hop
    | delete key => simp [change] at hchange

lemma GrownFrom.upserts : GrownFrom svc batch w m (replay m ((svc.upserts batch w).map change)) :=
  fun _ _ h => upsert_of_replay h

lemma replay_deletes {k : K} {d : Document K}
    (h : replay m (WindowedWriteService.deletes batch).changes k = some d) : m k = some d := by
  rcases upsert_of_replay h with h | h
  · exact h
  · have := (mem_filter.mp h).2
    cases this

abbrev Widened (svc : WindowedWriteService) (batch : CommitBatch K) (w : Int) (s s' : Shard T) : Prop :=
  s'.redb.eventBounds = s.redb.eventBounds ∨
    s'.redb.eventBounds = (s.redb.setEventBounds (svc.windowBatch batch w).eventMin
      (svc.windowBatch batch w).eventMax).eventBounds

lemma Upserted.reflects (h : Upserted svc order batch w s s') (hr : s.Reflects m) :
    ∃ m', s'.Reflects m' ∧ GrownFrom svc batch w m m' ∧ Widened svc batch w s s' := by
  cases h with
  | skip _ => exact ⟨m, hr, fun _ _ h => .inl h, .inl rfl⟩
  | @commit plan n hne hp =>
    have hbounds := Redb.setEventBounds_congr ((Shard.writePlan_keepsBounds hp).exec s)
      (svc.windowBatch batch w).eventMin (svc.windowBatch batch w).eventMax
    rcases hr.write hp with ⟨hsame, -⟩ | ⟨-, href, -⟩
    · rw [hsame] at hbounds ⊢
      exact ⟨m, hr.txn _, fun _ _ h => .inl h, .inr hbounds⟩
    · exact ⟨_, href.txn _, .upserts, .inr hbounds⟩

lemma Deleted.reflects (h : Deleted svc order batch w s s') (hr : s.Reflects m) :
    ∃ m', s'.Reflects m' ∧ ∀ k d, m' k = some d → m k = some d := by
  cases h with
  | skip _ => exact ⟨m, hr, fun _ _ h => h⟩
  | commit hne _ hp =>
    rcases hr.write hp with ⟨hsame, -⟩ | ⟨-, href, -⟩
    · exact ⟨m, hsame.symm ▸ hr, fun _ _ h => h⟩
    · exact ⟨_, href, fun _ _ h => replay_deletes h⟩

lemma Whole.reflects (h : Whole svc order batch w s s') (hr : s.Reflects m) :
    ∃ m', s'.Reflects m' ∧ GrownFrom svc batch w m m' ∧ Widened svc batch w s s' := by
  cases h with
  | untouched => exact ⟨m, hr, fun _ _ h => .inl h, .inl rfl⟩
  | upserted h => exact h.reflects hr
  | deleted h hd =>
    obtain ⟨m₁, hr₁, hg, hb⟩ := h.reflects hr
    obtain ⟨m₂, hr₂, hle⟩ := hd.reflects hr₁
    exact ⟨m₂, hr₂, fun k d hk => hg k d (hle k d hk), by rwa [Widened, hd.eventBounds]⟩

/-- A window's shard wherever the call stops, as a reader or a restart finds it. -/
lemma Stage.reflects (h : Stage svc order batch w s s') (hr : s.Reflects m) :
    ∃ m', s'.reopen.Reflects m' ∧ GrownFrom svc batch w m m' ∧ Widened svc batch w s s' := by
  cases h with
  | untouched => exact ⟨m, hr.reopen, fun _ _ h => .inl h, .inl rfl⟩
  | upserted h =>
    obtain ⟨m', hr', hg, hb⟩ := h.reflects hr
    exact ⟨m', hr'.reopen, hg, hb⟩
  | upserting hne hp stop =>
    obtain ⟨m', hr', hkeys, -⟩ := hr.write_stop hp stop
    refine ⟨m', hr', fun k d hk => ?_, .inl (((Shard.writePlan_keepsBounds hp).take stop).exec s)⟩
    rcases hkeys k with he | he
    · exact .inl (he ▸ hk)
    · exact GrownFrom.upserts k d (he ▸ hk)
  | deleting h hd _ hp stop =>
    obtain ⟨m₁, hr₁, hg, hb⟩ := h.reflects hr
    obtain ⟨m', hr', hkeys, -⟩ := hr₁.write_stop hp stop
    refine ⟨m', hr', fun k d hk => hg k d ?_, ?_⟩
    · rcases hkeys k with he | he
      · exact he ▸ hk
      · exact replay_deletes (he ▸ hk)
    · rw [Widened, ((Shard.writePlan_keepsBounds hp).take stop).exec]
      exact hb

end

section

variable {svc : WindowedWriteService}
  {cond : WindowedWriteService → WindowedNode T → CommitBatch K → Prop} {node : WindowedNode T}

def Settled (node : WindowedNode T) : Prop := ∀ w, ∃ m, (node.disk w).Reflects m

lemma empty_reflects (chunk : Nat) : (Shard.empty (T := T) chunk).Reflects (fun _ => none) :=
  ⟨rfl, holds_empty⟩

lemma Steady.empty : Steady (WindowedNode.empty commitChunk muxed : WindowedNode T) :=
  ⟨⟨Pairwise.nil, fun _ _ => ⟨commitChunk, rfl⟩⟩, by rintro e ⟨⟩⟩

lemma Bootable.reboot (h : Bootable node) : Steady node.reboot := by
  refine ⟨⟨pairwise_map.mpr h.sorted, fun w hw => ?_⟩, fun e he => ?_⟩
  · have hserved : node.served w = false := by
      rw [← hw, WindowedNode.served, WindowedNode.served, WindowedNode.reboot, map_map]
      rfl
    obtain ⟨chunk, hd⟩ := h.fresh w hserved
    refine ⟨chunk, ?_⟩
    change (node.disk w).reopen = _
    rw [hd]
    rfl
  · obtain ⟨d, _, rfl⟩ := mem_map.mp he
    rfl

structure Returned (svc : WindowedWriteService) (order : StagingOrder K) (batch : CommitBatch K)
    (start node : WindowedNode T) : Prop where
  shards : ∀ w, Whole svc order batch w (start.disk w) (node.disk w)
  untouched : Untouched svc batch start node
  steady : Steady node
  gateway : node.gateway = start.gateway ∨ node.gateway = node.descriptors

lemma Returned.stages {order : StagingOrder K} {batch : CommitBatch K} {start : WindowedNode T}
    (h : Returned svc order batch start node) : InStages svc order batch start node :=
  ⟨fun w => (h.shards w).stage, h.untouched, h.steady.toBootable⟩

variable (svc) in
lemma write_returned (hs : Steady node) (order : StagingOrder K) (batch : CommitBatch K) :
    Returned svc order batch node (Script.after node (svc.write order batch node).1) := by
  have h := (write_meets svc order batch hs node rfl).2
  cases hr : (svc.write order batch node).2 with
  | error e =>
    rw [hr] at h
    exact ⟨h.shards, h.untouched, h.steady, .inl h.gateway⟩
  | ok a =>
    rw [hr] at h
    exact ⟨h.1.whole, h.1.untouched, h.2.1, h.2.2⟩

lemma Reached.basic (h : Reached svc cond commitChunk muxed busy node) :
    Bootable node ∧ (busy = false → Steady node ∧ Settled node) ∧ ∀ w, ∃ m, (node.disk w).reopen.Reflects m := by
  induction h with
  | boot =>
    exact ⟨Steady.empty.toBootable, fun _ => ⟨Steady.empty, fun _ => ⟨_, empty_reflects _⟩⟩,
      fun _ => ⟨_, (empty_reflects _).reopen⟩⟩
  | returned _ fence order batch _ ih =>
    obtain ⟨hst, hset⟩ := ih.2.1 rfl
    have hret := write_returned (svc.under fence) hst order batch
    have hnext : Settled _ := fun w => by
      obtain ⟨m, hm⟩ := hset w
      obtain ⟨m', hm', -⟩ := (hret.shards w).reflects hm
      exact ⟨m', hm'⟩
    exact ⟨hret.steady.toBootable, fun _ => ⟨hret.steady, hnext⟩, fun w => (hnext w).imp (fun _ hm => hm.reopen)⟩
  | inside _ fence order batch _ n ih =>
    obtain ⟨hst, hset⟩ := ih.2.1 rfl
    have hin := (write_meets (svc.under fence) order batch hst _ rfl).1 n
    refine ⟨hin.bootable, (nomatch ·), fun w => ?_⟩
    obtain ⟨m, hm⟩ := hset w
    obtain ⟨m', hm', -⟩ := (hin.shards w).reflects hm
    exact ⟨m', hm'⟩
  | crashed _ ih =>
    have hst := ih.1.reboot
    exact ⟨hst.toBootable, fun _ => ⟨hst, ih.2.2⟩, fun w => (ih.2.2 w).imp (fun _ hm => hm.reopen)⟩

end

namespace SampleNode

def svc : WindowedWriteService :=
  ⟨⟨"ts", .daily, some "ts"⟩, .blank, fun _ => none, "logs", .unrestricted⟩

def event (key : Nat) (ts : Int) : Document Nat := ⟨key, [("ts", .int ts)]⟩

def order : StagingOrder Nat := fun _ _ => HashOrder.insertion _

abbrev Docs := listTantivy Nat (Document Nat)

def boot : WindowedNode Docs := .empty 0 []

def first : CommitBatch Nat := ⟨[.upsert (event 1 10)], ⟨10, some 1⟩, "a", none, none⟩

end SampleNode

open Script WindowedNode

def NodeEffect.window? : NodeEffect K → Option Int
  | .createWindow window => some window
  | .shard window _ => some window
  | .setZone window _ => some window
  | .swapWindowed _ => none

def WindowedNode.windowView (node : WindowedNode T) (window : Int) :
    Shard T × List (Int × Option (Int × Int)) × Bool :=
  (node.disk window, node.windows.filter (fun e => decide (e.1 = window)), node.muxed.contains window)

lemma filter_alter_of_ne {V : Type} (h : k ≠ w) (f : Option V → V) (m : List (Int × V)) :
    (OrdMap.alter f k m).filter (fun e => decide (e.1 = w)) = m.filter (fun e => decide (e.1 = w)) := by
  induction m with
  | nil => simp [OrdMap.alter, h]
  | cons d m ih =>
    rw [OrdMap.alter]
    split_ifs with hlt heq
    · simp [h]
    · simp [← heq, h]
    · simp [filter_cons, ih]

lemma exec_windowView (h : e.window? ≠ some window) (node : WindowedNode T) :
    (node.exec e).windowView window = node.windowView window := by
  cases e with
  | createWindow w =>
    have hne : w ≠ window := fun heq => h (congrArg some heq)
    simp [windowView, exec, filter_alter_of_ne hne, hne.symm]
  | shard w e =>
    have hne : window ≠ w := fun heq => h (congrArg some heq.symm)
    simp [windowView, exec, hne]
  | setZone w zone =>
    have hne : w ≠ window := fun heq => h (congrArg some heq)
    have hfilter : (node.windows.map (fun e => if e.1 = w then (w, zone) else e)).filter
        (fun e => decide (e.1 = window)) = node.windows.filter (fun e => decide (e.1 = window)) := by
      induction node.windows with
      | nil => rfl
      | cons d m ih =>
        rw [map_cons, filter_cons, filter_cons, ih]
        by_cases hd : d.1 = w
        · simp [hd, hne]
        · simp [hd]
    simp [windowView, exec, hfilter]
  | swapWindowed descriptors => rfl

namespace WindowedWriteService

variable {svc : WindowedWriteService} {order : StagingOrder K}

def Fenced (svc : WindowedWriteService) (e : NodeEffect K) : Prop :=
  ∀ window, e.window? = some window → svc.fence.allows svc.indexName window = true

variable {window : Int}

section

variable (h : svc.fence.allows svc.indexName window)
include h

omit [DecidableEq K] in
lemma fenced_of (he : e.window? = some window) : svc.Fenced e := by
  intro w hw
  rw [he] at hw
  exact Option.some.inj hw ▸ h

lemma ensureWindow_fenced :
    Emits svc.Fenced (svc.ensureWindow window : Commit T Bool) := by
  refine Emits.look.bind fun node => ?_
  split_ifs
  · exact .pure _
  · exact .fail _
  · refine (Emits.perform ?_).bind fun _ => .pure _
    intro e he
    exact fenced_of h (mem_singleton.mp he ▸ rfl)

lemma writeShard_fenced (batch : CommitBatch K) :
    Emits svc.Fenced (writeShard order window batch : Commit T Nat) := by
  refine Emits.look.bind fun node => ?_
  split
  · exact .fail _
  · refine (Emits.perform ?_).bind fun _ => .pure _
    intro e he
    obtain ⟨_, _, rfl⟩ := mem_map.mp he
    exact fenced_of h rfl

end

lemma commitWindow_fenced (acc : Nat × List Int)
    (h : svc.fence.allows svc.indexName wb.window) :
    Emits svc.Fenced (svc.commitWindow order acc wb : Commit T (Nat × List Int)) := by
  have hone : ∀ {e : NodeEffect K}, e.window? = some wb.window → ∀ e' ∈ [e], svc.Fenced e' :=
    fun he _ he' => mem_singleton.mp he' ▸ fenced_of h he
  refine (ensureWindow_fenced h).bind fun isNew => (writeShard_fenced h _).bind fun snapshot => ?_
  refine (Emits.perform (hone rfl)).bind fun _ => Emits.look.bind fun node => ?_
  exact (Emits.perform (hone rfl)).bind fun _ => .pure _

lemma broadcastTo_fenced (deletes : CommitBatch K) (acc : Nat) (window : Int) :
    Emits svc.Fenced (svc.broadcastTo order deletes acc window : Commit T Nat) := by
  refine Emits.look.bind fun node => ?_
  split_ifs with hskip
  · exact .pure _
  · exact (writeShard_fenced (by simpa using (not_or.mp hskip).1) _).bind fun _ => .pure _

/-- The two ways a window becomes a target: its upserts are all checked before the first effect, and a delete asks the
fence for each window. -/
lemma commitWindowed_fenced (batch : CommitBatch K) :
    Emits svc.Fenced (svc.commitWindowed order batch : Commit T (Nat × List Int)) := by
  rw [commitWindowed]
  split
  · exact .fail _
  · rename_i hfind
    have hallowed : ∀ wb ∈ (svc.windowing.partitionBatch svc.timeFields batch).1,
        svc.fence.allows svc.indexName wb.window := by
      intro wb hwb
      simpa using List.find?_eq_none.mp hfind wb hwb
    refine (Emits.foldlM (fun wb hwb acc => commitWindow_fenced acc (hallowed wb hwb)) _).bind fun acc => ?_
    split_ifs
    · exact .pure _
    · refine Emits.look.bind fun node => ?_
      exact (Emits.foldlM (fun w _ acc => broadcastTo_fenced _ acc w) _).bind fun _ => .pure _

lemma commitWindowed_refused (hdoc : .upsert doc ∈ batch.ops)
    (h : svc.fence.allows svc.indexName
      (svc.windowing.docWindow svc.timeFields.cal doc svc.timeFields.windowFormat) = false) (node : WindowedNode T) :
    ∃ window, svc.fence.allows svc.indexName window = false ∧
      svc.commitWindowed order batch node = ([], .error (.notPrimary svc.indexName window)) := by
  have hin : svc.windowing.windowBatch svc.timeFields batch
      (svc.windowing.docWindow svc.timeFields.cal doc svc.timeFields.windowFormat) ∈
        (svc.windowing.partitionBatch svc.timeFields batch).1 := by
    refine TimeWindowing.mem_partition.mpr ⟨?_, rfl⟩
    refine ne_nil_of_mem (a := .upsert doc) (mem_filter.mpr ⟨hdoc, ?_⟩)
    simp [TimeWindowing.windowBatch]
  rw [commitWindowed]
  cases hfind : (svc.windowing.partitionBatch svc.timeFields batch).1.find?
      (fun wb => !svc.fence.allows svc.indexName wb.window) with
  | none =>
    have := List.find?_eq_none.mp hfind _ hin
    simp [TimeWindowing.windowBatch, h] at this
  | some wb => exact ⟨wb.window, by simpa using List.find?_some hfind, rfl⟩

/-- Writes stay inside the fence: stopped anywhere, a commit has changed nothing of a window that the fence does not
allow, and a batch with an upsert of such a window has no effect at all. -/
theorem writes_inside_fence (svc : WindowedWriteService) (order : StagingOrder K) (batch : CommitBatch K)
    (node : WindowedNode T) :
    (∀ window, svc.fence.allows svc.indexName window = false → ∀ n,
      (Script.after node ((svc.commitWindowed order batch node).1.take n)).windowView window =
        node.windowView window) ∧
    ∀ doc, .upsert doc ∈ batch.ops → svc.fence.allows svc.indexName
        (svc.windowing.docWindow svc.timeFields.cal doc svc.timeFields.windowFormat) = false →
      ∃ window, svc.fence.allows svc.indexName window = false ∧
        svc.commitWindowed order batch node = ([], .error (.notPrimary svc.indexName window)) := by
  refine ⟨fun window hclosed n => ?_, fun doc hdoc h => commitWindowed_refused hdoc h node⟩
  refine Script.after_induct (I := fun s : WindowedNode T => s.windowView window = node.windowView window) (fun e he s hs => ?_) rfl
  refine (exec_windowView (fun hw => ?_) s).trans hs
  have hopen := commitWindowed_fenced batch node e (mem_of_mem_take he) window hw
  rw [hclosed] at hopen
  cases hopen

end WindowedWriteService

namespace SampleNode

def fencedSvc : WindowedWriteService := svc.under ⟨some (some [("logs", 0)])⟩

def twoDays : CommitBatch Nat :=
  ⟨[.upsert (event 1 10), .upsert (event 2 86400000000)], ⟨10, some 1⟩, "a", none, none⟩

/-- A batch with an event of the second day is refused and nothing is written. -/
theorem writes_inside_fence_second_day : ∃ window, fencedSvc.fence.allows "logs" window = false ∧
    fencedSvc.commitWindowed order twoDays boot = ([], .error (.notPrimary "logs" window)) :=
  (WindowedWriteService.writes_inside_fence fencedSvc order twoDays boot).2 (event 2 86400000000)
    (mem_cons_of_mem _ mem_cons_self) (by decide +kernel)

end SampleNode

end GrowlerDB.Engine
