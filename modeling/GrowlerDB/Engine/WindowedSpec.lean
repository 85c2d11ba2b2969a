import GrowlerDB.Engine.WindowedIngest
import GrowlerDB.Index.ShardWrite

namespace GrowlerDB.Engine
open Core Index Lib List Function Script WindowedNode WindowedWriteService TimeWindowing Meets Script.Meets NodeEffect WindowBatch OrdMap

variable {K : Type} [DecidableEq K] {T : Tantivy K (Document K)}

namespace WindowedWriteService

def windowOf (svc : WindowedWriteService) (doc : Document K) : Int :=
  svc.windowing.docWindow svc.timeFields.cal doc svc.timeFields.windowFormat

def upserts (svc : WindowedWriteService) (batch : CommitBatch K) (window : Int) : List (DocOp K) :=
  svc.windowing.upsertsIn svc.timeFields window batch.ops

def windowBatch (svc : WindowedWriteService) (batch : CommitBatch K) (window : Int) : WindowBatch K :=
  svc.windowing.windowBatch svc.timeFields batch window

def deletes (batch : CommitBatch K) : CommitBatch K :=
  deleteBatch batch (batch.ops.filter DocOp.isDelete)

end WindowedWriteService

section

variable (svc : WindowedWriteService) (order : StagingOrder K) (batch : CommitBatch K) (window : Int)

inductive Upserted (s : Shard T) : Shard T → Prop
  | skip (h : svc.upserts batch window = []) : Upserted s s
  | commit {plan : Plan K} {n : Nat} (h : svc.upserts batch window ≠ [])
      (hp : s.writePlan (order window (svc.windowBatch batch window).batch)
        (svc.windowBatch batch window).batch = .ok (plan, n)) :
      Upserted s ((s.exec plan).exec [.txn (.eventBounds (svc.windowBatch batch window).eventMin
        (svc.windowBatch batch window).eventMax)])

inductive Deleted (s : Shard T) : Shard T → Prop
  | skip (h : batch.ops.filter DocOp.isDelete = [] ∨
      svc.fence.allows svc.indexName window = false ∨ s.readOnly = true) : Deleted s s
  | commit {plan : Plan K} {n : Nat} (h : batch.ops.filter DocOp.isDelete ≠ [])
      (ha : svc.fence.allows svc.indexName window = true)
      (hp : s.writePlan (order window (WindowedWriteService.deletes batch))
        (WindowedWriteService.deletes batch) = .ok (plan, n)) : Deleted s (s.exec plan)

/-- Where a window's shard can be while the call runs. -/
inductive Stage (s : Shard T) : Shard T → Prop
  | untouched : Stage s s
  | upserting (h : svc.upserts batch window ≠ [])
      (hp : s.writePlan (order window (svc.windowBatch batch window).batch)
        (svc.windowBatch batch window).batch = .ok (plan, n)) (stop : Nat) :
      Stage s (s.exec (plan.take stop))
  | upserted {s' : Shard T} (h : Upserted svc order batch window s s') : Stage s s'
  | deleting {s' : Shard T} (h : Upserted svc order batch window s s')
      (hd : batch.ops.filter DocOp.isDelete ≠ [])
      (ha : svc.fence.allows svc.indexName window = true)
      (hp : s'.writePlan (order window (WindowedWriteService.deletes batch))
        (WindowedWriteService.deletes batch) = .ok (plan, n)) (stop : Nat) :
      Stage s (s'.exec (plan.take stop))

/-- Where a window's shard can be when the call has ended. -/
inductive Whole (s : Shard T) : Shard T → Prop
  | untouched : Whole s s
  | upserted {s' : Shard T} (h : Upserted svc order batch window s s') : Whole s s'
  | deleted (h : Upserted svc order batch window s s₁)
      (hd : Deleted svc order batch window s₁ s₂) : Whole s s₂

variable {svc order batch window}

lemma Stage.deleted (h : Upserted svc order batch window s s₁)
    (hd : Deleted svc order batch window s₁ s₂) : Stage svc order batch window s s₂ := by
  cases hd with
  | skip _ => exact .upserted h
  | @commit plan _ hne ha hp =>
    have := Stage.deleting h hne ha hp plan.length
    rwa [take_length] at this

lemma Whole.stage (h : Whole svc order batch window s s') : Stage svc order batch window s s' := by
  cases h with
  | untouched => exact .untouched
  | upserted h => exact .upserted h
  | deleted h hd => exact .deleted h hd

end

/-- What a restart relies on: window states in order, and nothing on disk for other windows. -/
structure Bootable (node : WindowedNode T) : Prop where
  sorted : OrdMap.Sorted node.windows
  fresh : ∀ w, node.served w = false → ∃ chunk, node.disk w = Shard.empty chunk

/-- A node between calls: the zone maps of its window states are those of the shards. -/
structure Steady (node : WindowedNode T) : Prop extends Bootable node where
  zones : ∀ e ∈ node.windows, e.2 = (node.disk e.1).redb.eventBounds

structure Committed (svc : WindowedWriteService) (order : StagingOrder K) (batch : CommitBatch K)
    (start node : WindowedNode T) : Prop where
  allowed : ∀ w, svc.upserts batch w ≠ [] → svc.fence.allows svc.indexName w = true
  served : ∀ w, node.served w = true ↔ start.served w = true ∨ svc.upserts batch w ≠ []
  shards : ∀ w, node.served w = true → ∃ s, Upserted svc order batch w (start.disk w) s ∧
    Deleted svc order batch w s (node.disk w)
  others : ∀ w, node.served w = false → node.disk w = start.disk w

def Untouched (svc : WindowedWriteService) (batch : CommitBatch K) (start node : WindowedNode T) :
    Prop :=
  ∀ w, start.served w = false → svc.upserts batch w = [] → node.disk w = start.disk w

structure InStages (svc : WindowedWriteService) (order : StagingOrder K) (batch : CommitBatch K)
    (start node : WindowedNode T) : Prop where
  shards : ∀ w, Stage svc order batch w (start.disk w) (node.disk w)
  untouched : Untouched svc batch start node
  bootable : Bootable node

namespace WindowedNode

variable (node : WindowedNode T)

def withShard (w : Int) (s : Shard T) : WindowedNode T :=
  { node with disk := update node.disk w s }

@[simp] lemma withShard_disk_self (w : Int) (s : Shard T) :
    (node.withShard w s).disk w = s := by
  simp [withShard]

lemma withShard_disk_of_ne (s : Shard T) (h : x ≠ w) : (node.withShard w s).disk x = node.disk x := by
  simp [withShard, h]

lemma withShard_forall {node : WindowedNode T} {P : Int → Shard T → Prop}
    (hs : P w s) (h : ∀ x, x ≠ w → P x (node.disk x)) (x : Int) :
    P x ((node.withShard w s).disk x) := by
  by_cases hx : x = w
  · subst hx
    rwa [withShard_disk_self]
  · rw [withShard_disk_of_ne _ _ hx]
    exact h x hx

@[simp] lemma withShard_served (w x : Int) (s : Shard T) :
    (node.withShard w s).served x = node.served x := rfl

@[simp] lemma withShard_idem (w : Int) (s t : Shard T) :
    (node.withShard w s).withShard w t = node.withShard w t := by
  simp [withShard]

lemma after_shard (w : Int) (plan : Plan K) : after node (plan.map (shard w)) =
      node.withShard w ((node.disk w).exec plan) := by
  unfold withShard
  induction plan generalizing node with
  | nil =>
    change node = _
    rw [show (node.disk w).exec [] = node.disk w from rfl, update_eq_self]
  | cons e plan ih =>
    rw [map_cons, after_cons, ih]
    congr 1
    change update (update node.disk w _) w _ = _
    rw [update_idem, show (Effects.exec node (shard w e : NodeEffect K)).disk w =
      (node.disk w).exec [e] from update_self w _ _]
    rfl

end WindowedNode

variable {svc : WindowedWriteService} {order : StagingOrder K} {batch : CommitBatch K}
  {start node : WindowedNode T} {w : Int} {s s' : Shard T} {opened done : List Int}

lemma mem_windows_iff : w ∈ node.windows.map Prod.fst ↔ node.served w := by
  rw [served, contains_iff_mem]

structure Looping (svc : WindowedWriteService) (order : StagingOrder K) (batch : CommitBatch K)
    (start : WindowedNode T) (opened done : List Int) (node : WindowedNode T) : Prop where
  steady : Steady node
  gateway : node.gateway = start.gateway
  served : ∀ w, node.served w = true ↔ start.served w = true ∨ w ∈ opened
  taken : ∀ w ∈ done, Upserted svc order batch w (start.disk w) (node.disk w)
  rest : ∀ w, w ∉ done → node.disk w = start.disk w

structure Halted (svc : WindowedWriteService) (order : StagingOrder K) (batch : CommitBatch K)
    (start node : WindowedNode T) : Prop where
  shards : ∀ w, Whole svc order batch w (start.disk w) (node.disk w)
  untouched : Untouched svc batch start node
  steady : Steady node
  gateway : node.gateway = start.gateway

lemma Upserted.readOnly (h : Upserted svc order batch w s s') : s'.readOnly = s.readOnly := by
  cases h <;> rfl

lemma Upserted.eq_of_none (h : Upserted svc order batch w s s')
    (hnone : svc.upserts batch w = []) : s' = s := by
  cases h with
  | skip _ => rfl
  | commit hne _ => exact absurd hnone hne

lemma Looping.halted (h : Looping svc order batch start opened done node) : Halted svc order batch start node := by
  refine ⟨fun w => ?_, fun w _ hnone => ?_, h.steady, h.gateway⟩
  · by_cases hw : w ∈ done
    · exact .upserted (h.taken w hw)
    · rw [h.rest w hw]
      exact .untouched
  · by_cases hw : w ∈ done
    · exact (h.taken w hw).eq_of_none hnone
    · exact h.rest w hw

lemma Looping.stages (h : Looping svc order batch start opened done node) : InStages svc order batch start node :=
  ⟨fun w => (h.halted.shards w).stage, h.halted.untouched, h.steady.toBootable⟩

lemma Steady.create (h : Steady node) (hw : node.served w = false) :
    Steady (Effects.exec node (createWindow w : NodeEffect K)) := by
  refine ⟨⟨h.sorted.alter _ _, fun x hx => ?_⟩, fun e he => ?_⟩
  · apply h.fresh x
    rw [served, Bool.eq_false_iff, ne_eq, contains_iff_mem] at hx ⊢
    exact fun hm => hx (mem_keys_alter.mpr (Or.inr hm))
  · have hget := (mem_iff_get? (h.sorted.alter (fun _ => none) w)).mp he
    rw [get?_alter h.sorted] at hget
    split_ifs at hget with hk
    · obtain ⟨chunk, hd⟩ := h.fresh w hw
      change e.2 = (node.disk e.1).redb.eventBounds
      rw [← Option.some.inj hget, ← hk, hd]
      rfl
    · exact h.zones e ((mem_iff_get? h.sorted).mpr hget)

lemma served_create (w x : Int) :
    (Effects.exec node (createWindow w : NodeEffect K)).served x ↔
      x = w ∨ node.served x := by
  rw [served, contains_iff_mem, served, contains_iff_mem]
  exact mem_keys_alter

lemma ensureWindow_meets (w : Int) : Meets (Looping svc order batch start opened done) (svc.ensureWindow w)
      (InStages svc order batch start) (Ends (Halted svc order batch start)
        (Looping svc order batch start (opened ++ [w]) done)) := by
  refine look_bind (fun node h => ?_)
  by_cases hs : node.served w
  · rw [if_pos hs]
    refine pure ?_
    rintro _ rfl
    refine ⟨h.stages, h.steady, h.gateway, fun x => ?_, h.taken, h.rest⟩
    rw [h.served x, mem_append, mem_singleton]
    constructor
    · exact Or.imp_right Or.inl
    · rintro (hx | hx | rfl)
      · exact .inl hx
      · exact .inr hx
      · exact (h.served x).mp hs
  · rw [if_neg hs]
    split
    · refine fail ?_
      rintro _ rfl
      exact ⟨h.stages, h.halted⟩
    · have hnew : Looping svc order batch start (opened ++ [w]) done
          (Effects.exec node (createWindow w : NodeEffect K)) := by
        refine ⟨h.steady.create (Bool.eq_false_iff.mpr hs), h.gateway, fun x => ?_, h.taken, h.rest⟩
        rw [served_create, h.served x, mem_append, mem_singleton]
        tauto
      refine bind_ends (R := Looping svc order batch start (opened ++ [w]) done)
        (perform_one ?_) (fun _ _ h => pure ?_)
      · rintro _ rfl
        exact ⟨h.stages, hnew.stages, hnew⟩
      · rintro _ rfl
        exact ⟨h.stages, h⟩

lemma writeShard_meets {C F R : WindowedNode T → Prop} (hC : C node)
    (herr : F node) (hok : ∀ plan n, (node.disk w).writePlan (order w b) b = .ok (plan, n) →
      (∀ stop, C (node.withShard w ((node.disk w).exec (plan.take stop)))) ∧
      R (node.withShard w ((node.disk w).exec plan))) :
    Meets (· = node) (writeShard order w b) C (Ends F R) := by
  refine look_bind (fun start hstart => ?_)
  subst hstart
  split
  · refine fail ?_
    rintro _ rfl
    exact ⟨hC, herr⟩
  · rename_i plan n hp
    obtain ⟨hstop, hdone⟩ := hok plan n hp
    have hlast := hstop plan.length
    rw [take_length] at hlast
    refine bind_ends (R := (· = start.withShard w ((start.disk w).exec plan)))
      (perform ?_) (fun _ s hs => pure ?_)
    · rintro _ rfl
      refine ⟨fun k => ?_, after_shard _ _ _⟩
      rw [← map_take, after_shard]
      exact hstop k
    · rintro _ rfl
      exact hs ▸ ⟨hlast, hdone⟩

lemma Bootable.withShard (h : Bootable node) (hw : node.served w) (s : Shard T) :
    Bootable (node.withShard w s) := by
  refine ⟨h.sorted, fun x hx => ?_⟩
  rw [withShard_served] at hx
  have hne : x ≠ w := by
    rintro rfl
    simp [hw] at hx
  rw [withShard_disk_of_ne _ _ hne]
  exact h.fresh x hx

lemma InStages.withShard (h : InStages svc order batch start node)
    (hw : node.served w) (ht : start.served w ∨ svc.upserts batch w ≠ [])
    (hs : Stage svc order batch w (start.disk w) s) :
    InStages svc order batch start (node.withShard w s) := by
  refine ⟨withShard_forall hs (fun x _ => h.shards x), fun x hx hnone => ?_, h.bootable.withShard hw s⟩
  have hne : x ≠ w := by
    rintro rfl
    rcases ht with ht | ht
    · simp [hx] at ht
    · exact ht hnone
  rw [withShard_disk_of_ne _ _ hne]
  exact h.untouched x hx hnone

lemma served_setZone (w x : Int) (zone : Option (Int × Int)) :
    (Effects.exec node (setZone w zone : NodeEffect K)).served x = node.served x := by
  change (List.map Prod.fst (List.map _ node.windows)).contains x = _
  rw [map_map, map_congr_left (g := Prod.fst)]
  · rfl
  · intro e _
    by_cases he : e.1 = w <;> simp [he]

lemma Steady.move (h : Steady node) (hw : node.served w) (s : Shard T) :
    Steady (Effects.exec (node.withShard w s)
      (setZone w s.redb.eventBounds : NodeEffect K)) := by
  have hboot := h.toBootable.withShard hw s
  refine ⟨⟨?_, fun x hx => ?_⟩, ?_⟩
  · refine pairwise_map.mpr (h.sorted.imp ?_)
    intro a b hab
    split_ifs with ha hb hb
    · exact absurd hab (by rw [ha, hb]; exact lt_irrefl _)
    · exact ha ▸ hab
    · exact hb ▸ hab
    · exact hab
  · rw [served_setZone] at hx
    exact hboot.fresh x hx
  · intro e he
    obtain ⟨d, hd, rfl⟩ := mem_map.mp he
    change _ = ((node.withShard w s).disk _).redb.eventBounds
    split_ifs with hdw
    · rw [withShard_disk_self]
    · rw [withShard_disk_of_ne _ _ hdw]
      exact h.zones d hd

lemma Looping.take (h : Looping svc order batch start opened done node) (hw : w ∈ opened)
    (hs : Upserted svc order batch w (start.disk w) s) :
    Looping svc order batch start opened (done ++ [w]) (Effects.exec (node.withShard w s)
      (setZone w s.redb.eventBounds : NodeEffect K)) := by
  refine ⟨h.steady.move ((h.served w).mpr (.inr hw)) s, h.gateway, fun x => ?_, ?_, ?_⟩
  · rw [served_setZone]
    exact h.served x
  · intro x
    refine withShard_forall (P := fun x t => x ∈ done ++ [w] →
      Upserted svc order batch x (start.disk x) t) (fun _ => hs) (fun x hxw hx => ?_) x
    rcases mem_append.mp hx with hx | hx
    · exact h.taken x hx
    · exact absurd (mem_singleton.mp hx) hxw
  · intro x hx
    rw [mem_append, mem_singleton, not_or] at hx
    exact (withShard_disk_of_ne _ _ hx.2).trans (h.rest x hx.1)

lemma commitWindow_meets (acc : Nat × List Int) (hne : svc.upserts batch w ≠ []) (hnew : w ∉ done) :
    Meets (Looping svc order batch start done done)
      (svc.commitWindow order acc (svc.windowBatch batch w))
      (InStages svc order batch start) (Ends (Halted svc order batch start)
        (Looping svc order batch start (done ++ [w]) (done ++ [w]))) := by
  refine bind_ends (ensureWindow_meets w) (fun isNew node h => ?_)
  have hdisk := h.rest _ hnew
  have hserved := (h.served w).mpr (.inr (mem_append_right _ mem_cons_self))
  have hstage : ∀ {s}, Stage svc order batch w (start.disk w) s →
      InStages svc order batch start (node.withShard w s) :=
    h.stages.withShard hserved (.inr hne)
  refine bind_ends (R := fun s => ∃ plan n, (start.disk w).writePlan
      (order w (svc.windowBatch batch w).batch) (svc.windowBatch batch w).batch = .ok (plan, n) ∧
      s = node.withShard w ((start.disk w).exec plan))
    (writeShard_meets h.stages h.halted ?_) (fun snapshot s hs => ?_)
  · intro plan n hp
    change (node.disk w).writePlan _ _ = _ at hp
    change (∀ stop, InStages _ _ _ _ (node.withShard w ((node.disk w).exec (plan.take stop)))) ∧
      ∃ plan' n', _ ∧ node.withShard w ((node.disk w).exec plan) = _
    rw [hdisk] at hp ⊢
    exact ⟨fun stop => hstage (.upserting hne hp stop), plan, n, hp, rfl⟩
  obtain ⟨plan, n, hp, rfl⟩ := hs
  have hdone := Upserted.commit hne hp
  have hwritten := Stage.upserting hne hp plan.length
  rw [take_length] at hwritten
  have hafter := after_shard (node.withShard w ((start.disk w).exec plan)) w
    [.txn (.eventBounds (svc.windowBatch batch w).eventMin (svc.windowBatch batch w).eventMax)]
  rw [withShard_disk_self, withShard_idem] at hafter
  generalize ((start.disk w).exec plan).exec _ = t at hdone hafter
  refine bind_ends (R := (· = node.withShard w t)) (perform_one ?_)
    (fun _ s hs => ?_)
  · rintro _ rfl
    have hbounded := hstage (.upserted hdone)
    rw [← hafter] at hbounded
    exact ⟨hstage hwritten, hbounded, hafter⟩
  subst hs
  refine look_bind ?_
  rintro _ rfl
  have hlast := h.take (mem_append_right _ mem_cons_self) hdone
  refine bind_ends (R := Looping svc order batch start (done ++ [w]) (done ++ [w]))
    (perform_one ?_) (fun _ s hs => pure ?_)
  · rintro _ rfl
    have hzone : ((node.withShard w t).disk w).redb.eventBounds = t.redb.eventBounds := by simp
    rw [← hzone] at hlast
    exact ⟨hstage (.upserted hdone), hlast.stages, hlast⟩
  · rintro _ rfl
    exact ⟨hs.stages, hs⟩

lemma Deleted.eventBounds (h : Deleted svc order batch w s s') : s'.redb.eventBounds = s.redb.eventBounds := by
  cases h with
  | skip _ => rfl
  | commit _ _ hp => exact (Shard.writePlan_keepsBounds hp).exec s

structure Broadcasting (svc : WindowedWriteService) (order : StagingOrder K) (batch : CommitBatch K)
    (mid : WindowedNode T) (done : List Int) (node : WindowedNode T) : Prop where
  windows : node.windows = mid.windows
  gateway : node.gateway = mid.gateway
  taken : ∀ w ∈ done, Deleted svc order batch w (mid.disk w) (node.disk w)
  rest : ∀ w, w ∉ done → node.disk w = mid.disk w

structure AllUpserted (svc : WindowedWriteService) (order : StagingOrder K) (batch : CommitBatch K)
    (start mid : WindowedNode T) : Prop where
  steady : Steady mid
  gateway : mid.gateway = start.gateway
  served : ∀ w, mid.served w = true ↔ start.served w = true ∨ svc.upserts batch w ≠ []
  shards : ∀ w, Upserted svc order batch w (start.disk w) (mid.disk w)

variable {mid : WindowedNode T}

section

variable (h : Broadcasting svc order batch mid done node)
include h

lemma Broadcasting.served_eq : node.served w = mid.served w := by
  rw [served, served, h.windows]

lemma Broadcasting.whole (hm : AllUpserted svc order batch start mid) (w : Int) :
    Whole svc order batch w (start.disk w) (node.disk w) := by
  by_cases hw : w ∈ done
  · exact .deleted (hm.shards w) (h.taken w hw)
  · rw [h.rest w hw]
    exact .upserted (hm.shards w)

lemma Broadcasting.untouched (hm : AllUpserted svc order batch start mid) (hd : ∀ w ∈ done, mid.served w) :
    Untouched svc batch start node := by
  intro w hw hnone
  have hnot : w ∉ done := by
    intro hin
    rcases (hm.served w).mp (hd w hin) with hs | hne
    · simp [hw] at hs
    · exact hne hnone
  rw [h.rest w hnot]
  exact (hm.shards w).eq_of_none hnone

end

section

variable (h : Broadcasting svc order batch mid done node)
include h

lemma Broadcasting.steady
    (hm : AllUpserted svc order batch start mid) (hd : ∀ w ∈ done, mid.served w) :
    Steady node := by
  refine ⟨⟨h.windows ▸ hm.steady.sorted, fun w hw => ?_⟩, fun e he => ?_⟩
  · have hw' : mid.served w = false := h.served_eq ▸ hw
    have hnot : w ∉ done := fun hin => by simp [hd w hin] at hw'
    rw [h.rest w hnot]
    exact hm.steady.fresh w hw'
  · rw [h.windows] at he
    rw [hm.steady.zones e he]
    by_cases hw : e.1 ∈ done
    · exact (h.taken _ hw).eventBounds.symm
    · rw [h.rest _ hw]

lemma Broadcasting.stages
    (hm : AllUpserted svc order batch start mid) (hd : ∀ w ∈ done, mid.served w) :
    InStages svc order batch start node :=
  ⟨fun w => (h.whole hm w).stage, h.untouched hm hd, (h.steady hm hd).toBootable⟩

lemma Broadcasting.step
    (hs : Deleted svc order batch w (mid.disk w) s) :
    Broadcasting svc order batch mid (done ++ [w]) (node.withShard w s) := by
  refine ⟨h.windows, h.gateway, fun x hx => ?_, fun x hx => ?_⟩
  · refine withShard_forall (P := fun x t => x ∈ done ++ [w] →
      Deleted svc order batch x (mid.disk x) t) (fun _ => hs) (fun x hxw hx => ?_) x hx
    rcases mem_append.mp hx with hx | hx
    · exact h.taken x hx
    · exact absurd (mem_singleton.mp hx) hxw
  · rw [mem_append, mem_singleton, not_or] at hx
    rw [withShard_disk_of_ne _ _ hx.2, h.rest x hx.1]

end

lemma withShard_self (w : Int) : node.withShard w (node.disk w) = node := by
  simp [withShard]

lemma broadcastTo_meets (acc : Nat)
    (hm : AllUpserted svc order batch start mid) (hdone : ∀ x ∈ done, mid.served x)
    (hdel : batch.ops.filter DocOp.isDelete ≠ []) (hw : mid.served w) (hnew : w ∉ done) :
    Meets (Broadcasting svc order batch mid done) (svc.broadcastTo order (deletes batch) acc w)
      (InStages svc order batch start) (Ends (Halted svc order batch start)
        (Broadcasting svc order batch mid (done ++ [w]))) := by
  refine look_bind (fun node h => ?_)
  have hdisk := h.rest w hnew
  have hserved : node.served w := h.served_eq.trans hw
  have hdone' : ∀ x ∈ done ++ [w], mid.served x := by
    intro x hx
    rcases mem_append.mp hx with hx | hx
    · exact hdone x hx
    · rwa [mem_singleton.mp hx]
  split
  · rename_i hskip
    refine pure ?_
    rintro _ rfl
    have hnext := h.step (.skip (.inr (hdisk ▸ hskip)))
    rw [← hdisk, withShard_self] at hnext
    exact ⟨h.stages hm hdone, hnext⟩
  · rename_i hgo
    have hallow : svc.fence.allows svc.indexName w := by
      rw [not_or] at hgo
      simpa using hgo.1
    refine bind_ends (R := Broadcasting svc order batch mid (done ++ [w]))
      (writeShard_meets (h.stages hm hdone)
        ⟨h.whole hm, h.untouched hm hdone, h.steady hm hdone, h.gateway.trans hm.gateway⟩ ?_)
      (fun snapshot s hs => pure ?_)
    · intro plan n hp
      rw [hdisk] at hp ⊢
      exact ⟨fun stop => (h.stages hm hdone).withShard hserved ((hm.served w).mp hw)
        (.deleting (hm.shards w) hdel hallow hp stop),
        h.step (.commit hdel hallow hp)⟩
    · rintro _ rfl
      exact ⟨hs.stages hm hdone', hs⟩

omit [DecidableEq K] in
lemma mem_windows : w ∈ ((svc.windowing.partitionBatch svc.timeFields batch).1.map window) ↔
      svc.upserts batch w ≠ [] := by
  rw [mem_map]
  constructor
  · rintro ⟨wb, hwb, rfl⟩
    exact (TimeWindowing.mem_partition.mp hwb).1
  · intro h
    exact ⟨svc.windowBatch batch w, mem_partition.mpr ⟨h, rfl⟩, rfl⟩

lemma upsertLoop_meets (hs : Steady start) : Script.Meets (· = start)
      ((svc.windowing.partitionBatch svc.timeFields batch).1.foldlM (svc.commitWindow order) (0, []))
      (InStages svc order batch start)
      (Script.Ends (Halted svc order batch start) (AllUpserted svc order batch start)) := by
  have hloop := foldlM (C := InStages svc order batch start)
    (F := Halted svc order batch start) (R := AllUpserted svc order batch start)
    (I := fun done => Looping svc order batch start (done.map window)
      (done.map window))
    (f := svc.commitWindow order) (svc.windowing.partitionBatch svc.timeFields batch).1 (0, [])
    (fun done wb rest acc hl => ?_) (fun node h => ?_)
  · refine hloop.conseq ?_ (fun _ h => h) (fun _ _ h => h)
    rintro _ rfl
    exact ⟨hs, rfl, fun w => by simp, by simp, fun _ _ => rfl⟩
  · have hmem : wb ∈ (svc.windowing.partitionBatch svc.timeFields batch).1 := by simp [hl]
    obtain ⟨hne, hwb⟩ := TimeWindowing.mem_partition.mp hmem
    have hnew : wb.window ∉ done.map window := by
      have hsorted := TimeWindowing.partition_sorted (w := svc.windowing) (f := svc.timeFields) batch
      rw [hl, pairwise_append] at hsorted
      intro hin
      obtain ⟨d, hd, hdw⟩ := mem_map.mp hin
      exact absurd (hsorted.2.2 d hd wb mem_cons_self) (hdw ▸ lt_irrefl _)
    rw [hwb, map_append]
    exact commitWindow_meets acc hne hnew
  · refine ⟨h.stages, h.steady, h.gateway, fun w => ?_, fun w => ?_⟩
    · rw [h.served w, mem_windows]
    · by_cases hw : w ∈ (svc.windowing.partitionBatch svc.timeFields batch).1.map window
      · exact h.taken w hw
      · rw [h.rest w hw]
        exact .skip (by_contra (fun hne => hw (mem_windows.mpr hne)))

lemma broadcast_meets (acc : Nat) (hm : AllUpserted svc order batch start mid)
    (hdel : batch.ops.filter DocOp.isDelete ≠ []) : Meets (· = mid)
      ((mid.windows.map Prod.fst).foldlM (svc.broadcastTo order (deletes batch)) acc)
      (InStages svc order batch start) (Ends (Halted svc order batch start)
        (Broadcasting svc order batch mid (mid.windows.map Prod.fst))) := by
  have hall : ∀ w ∈ mid.windows.map Prod.fst, mid.served w := fun w hw => mem_windows_iff.mp hw
  have hloop := foldlM (C := InStages svc order batch start)
    (F := Halted svc order batch start) (I := Broadcasting svc order batch mid)
    (f := svc.broadcastTo order (deletes batch)) (mid.windows.map Prod.fst) acc
    (fun done w rest acc hl => ?_) (fun _ h => ⟨h.stages hm hall, h⟩)
  · refine hloop.conseq ?_ (fun _ h => h) (fun _ _ h => h)
    rintro _ rfl
    exact ⟨rfl, rfl, by simp, fun _ _ => rfl⟩
  · refine broadcastTo_meets acc hm (fun x hx => hall x ?_) hdel (hall w ?_) ?_
    · rw [hl]
      exact mem_append_left _ hx
    · simp [hl]
    · have hsorted : (mid.windows.map Prod.fst).Pairwise (· < ·) := pairwise_map.mpr hm.steady.sorted
      rw [hl, pairwise_append] at hsorted
      exact fun hin => absurd (hsorted.2.2 w hin w mem_cons_self) (lt_irrefl _)

lemma AllUpserted.unserved (hm : AllUpserted svc order batch start mid)
    (hw : mid.served w = false) : mid.disk w = start.disk w := by
  apply (hm.shards w).eq_of_none
  by_contra hne
  simp [(hm.served w).mpr (.inr hne)] at hw

section

variable (hm : AllUpserted svc order batch start mid) (hallow : ∀ w, svc.upserts batch w ≠ [] → svc.fence.allows svc.indexName w = true)
include hm hallow

lemma AllUpserted.committed (hdel : batch.ops.filter DocOp.isDelete = []) : Committed svc order batch start mid :=
  ⟨hallow, hm.served, fun w _ => ⟨_, hm.shards w, .skip (.inl hdel)⟩, fun _ hw => hm.unserved hw⟩

lemma Broadcasting.committed (h : Broadcasting svc order batch mid (mid.windows.map Prod.fst) node) :
    Committed svc order batch start node := by
  refine ⟨hallow, fun w => by rw [h.served_eq, hm.served], fun w hw => ?_, fun w hw => ?_⟩
  · exact ⟨_, hm.shards w, h.taken w (mem_windows_iff.mpr (h.served_eq ▸ hw))⟩
  · rw [h.served_eq] at hw
    rw [h.rest w (fun hin => by simp [mem_windows_iff.mp hin] at hw)]
    exact hm.unserved hw

end

lemma Committed.whole (h : Committed svc order batch start node) (w : Int) :
    Whole svc order batch w (start.disk w) (node.disk w) := by
  cases hw : node.served w with
  | true =>
    obtain ⟨s, hu, hd⟩ := h.shards w hw
    exact .deleted hu hd
  | false =>
    rw [h.others w hw]
    exact .untouched

lemma Committed.untouched (h : Committed svc order batch start node) : Untouched svc batch start node := by
  intro w hw hnone
  apply h.others w
  rw [Bool.eq_false_iff]
  intro hs
  rcases (h.served w).mp hs with hs | hne
  · simp [hw] at hs
  · exact hne hnone

variable (svc order batch) in
/-- What one commit does: wherever it stops every window is in one of its stages, a failure has
published nothing, and a success has committed every window. -/
lemma commitWindowed_meets (hs : Steady start) :
    Script.Meets (· = start) (svc.commitWindowed order batch) (InStages svc order batch start)
      (Script.Ends (Halted svc order batch start) (fun node =>
        Committed svc order batch start node ∧ Steady node ∧ node.gateway = start.gateway)) := by
  unfold WindowedWriteService.commitWindowed
  simp only
  split
  · refine fail ?_
    rintro _ rfl
    exact ⟨⟨fun w => .untouched, fun _ _ _ => rfl, hs.toBootable⟩, fun w => .untouched, fun _ _ _ => rfl, hs, rfl⟩
  · rename_i hfence
    have hallow : ∀ w, svc.upserts batch w ≠ [] → svc.fence.allows svc.indexName w := by
      intro w hne
      have := List.find?_eq_none.mp hfence (svc.windowBatch batch w)
        (TimeWindowing.mem_partition.mpr ⟨hne, rfl⟩)
      simpa [WindowedWriteService.windowBatch, TimeWindowing.windowBatch] using this
    refine bind_ends (upsertLoop_meets hs) (fun acc mid hm => ?_)
    rw [TimeWindowing.partition_deletes]
    split
    · rename_i hdel
      refine pure ?_
      rintro _ rfl
      exact ⟨⟨fun w => .upserted (hm.shards w), fun w _ hnone => (hm.shards w).eq_of_none hnone,
        hm.steady.toBootable⟩, hm.committed hallow hdel, hm.steady, hm.gateway⟩
    · rename_i hdel
      refine look_bind (fun node hnode => ?_)
      subst hnode
      refine bind_ends (broadcast_meets acc.1 hm hdel)
        (fun snapshot s h => pure ?_)
      rintro _ rfl
      have hserved : ∀ w ∈ node.windows.map Prod.fst, node.served w := fun w hw => mem_windows_iff.mp hw
      exact ⟨h.stages hm hserved, h.committed hm hallow, h.steady hm hserved, h.gateway.trans hm.gateway⟩

variable (svc order batch) in
/-- What one `Write` call does: as its commit, and the gateway keeps its descriptors or gets those
of the node. -/
lemma write_meets (hs : Steady start) : Meets (· = start) (svc.write order batch) (InStages svc order batch start)
      (Ends (Halted svc order batch start) (fun node =>
        Committed svc order batch start node ∧ Steady node ∧
          (node.gateway = start.gateway ∨ node.gateway = node.descriptors))) := by
  refine bind_ends (commitWindowed_meets svc order batch hs) (fun done node h => ?_)
  obtain ⟨hc, hst, hg⟩ := h
  have hstages : InStages svc order batch start node := ⟨fun w => (hc.whole w).stage, hc.untouched, hst.toBootable⟩
  split
  · refine pure ?_
    rintro _ rfl
    exact ⟨hstages, hc, hst, .inl hg⟩
  · have hpublished : InStages svc order batch start { node with gateway := node.descriptors } :=
      ⟨hstages.shards, hstages.untouched, hstages.bootable.sorted, hstages.bootable.fresh⟩
    refine bind_ends (R := (· = { node with gateway := node.descriptors }))
      (look_bind ?_) (fun _ s hs => pure ?_)
    · rintro _ rfl
      refine perform_one ?_
      rintro _ rfl
      exact ⟨hstages, hpublished, rfl⟩
    · rintro _ rfl
      subst hs
      exact ⟨hpublished, ⟨hc.allowed, hc.served, hc.shards, hc.others⟩,
        ⟨⟨hst.sorted, hst.fresh⟩, hst.zones⟩, .inr rfl⟩

end GrowlerDB.Engine
