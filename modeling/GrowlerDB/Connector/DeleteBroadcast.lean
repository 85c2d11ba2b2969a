import GrowlerDB.Connector.Resume
import GrowlerDB.Lib.Results

namespace GrowlerDB.Connector
open Core Engine Index Lib Replay List Except OrdMap

section

variable {K : Type} {router : WindowRouter} {batch : CommitBatch K} {known : List Int}

def RoutedTo (router : WindowRouter) (ops : List (DocOp K)) (w : Int) : Prop :=
  ∃ doc value, .upsert doc ∈ ops ∧ doc.get router.field = some value ∧ router.windowOf value = .ok w

/-- The windows the deletes of a batch are sent for. -/
def Target (router : WindowRouter) (batch : CommitBatch K) (known : List Int) (w : Int) : Prop :=
  w ∈ known ∨ RoutedTo router batch.ops w

lemma routeOp_ok {acc next : List (Int × List (DocOp K)) × List (DocOp K)} {op : DocOp K}
    (h : routeOp router acc op = .ok next) :
    (op.isDelete ∧ next = (acc.1, acc.2 ++ [op])) ∨
    ∃ doc value w, op = .upsert doc ∧ doc.get router.field = some value ∧ router.windowOf value = .ok w ∧
      next = (alter (fun ops => ops.getD [] ++ [op]) w acc.1, acc.2) := by
  cases op with
  | delete key => exact .inl ⟨rfl, (ok.inj h).symm⟩
  | upsert doc =>
    unfold routeOp at h
    cases hv : doc.get router.field with
    | none =>
      simp only [hv] at h
      cases h
    | some value =>
      simp only [hv] at h
      obtain ⟨w, hw, h'⟩ := bind_ok h
      exact .inr ⟨doc, value, w, rfl, hv, hw, (ok.inj h').symm⟩

lemma split_ok {ops : List (DocOp K)} (h : ops.foldlM (routeOp router) acc = .ok out) :
    out.2 = acc.2 ++ ops.filter DocOp.isDelete ∧
      ∀ w, w ∈ out.1.map Prod.fst ↔ w ∈ acc.1.map Prod.fst ∨ RoutedTo router ops w := by
  induction ops generalizing acc with
  | nil =>
    cases h
    exact ⟨by simp, fun w => by simp [RoutedTo]⟩
  | cons op ops ih =>
    rw [foldlM_cons] at h
    obtain ⟨next, hnext, h'⟩ := bind_ok h
    obtain ⟨hdel, hwin⟩ := ih h'
    rcases routeOp_ok hnext with ⟨hop, rfl⟩ | ⟨doc, value, w, rfl, hv, hw, rfl⟩
    · refine ⟨by rw [hdel, filter_cons_of_pos hop]; simp, fun w => (hwin w).trans (or_congr_right ?_)⟩
      have hne : ∀ doc, DocOp.upsert doc ≠ op := by
        rintro doc rfl
        cases hop
      simp [RoutedTo, hne]
    · refine ⟨by rw [hdel, filter_cons_of_neg (by simp [DocOp.isDelete])], fun x => ?_⟩
      rw [hwin x, mem_keys_alter, or_comm (a := x = w), or_assoc]
      refine or_congr_right ⟨?_, ?_⟩
      · rintro (rfl | ⟨d, v, hd, hdv, hdw⟩)
        · exact ⟨doc, value, mem_cons_self, hv, hw⟩
        · exact ⟨d, v, mem_cons_of_mem _ hd, hdv, hdw⟩
      · rintro ⟨d, v, hd, hdv, hdw⟩
        rcases mem_cons.mp hd with heq | hd
        · obtain rfl := DocOp.upsert.inj heq
          obtain rfl := Option.some.inj (hv.symm.trans hdv)
          exact .inl (ok.inj (hdw.symm.trans hw))
        · exact .inr ⟨d, v, hd, hdv, hdw⟩

lemma mem_keys_known (m : List (Int × List (DocOp K))) (w : Int) :
    w ∈ (known.foldl (fun m w => alter (fun ops => ops.getD []) w m) m).map Prod.fst ↔
      w ∈ m.map Prod.fst ∨ w ∈ known := by
  induction known generalizing m with
  | nil => simp
  | cons x known ih =>
    rw [foldl_cons, ih, mem_keys_alter, mem_cons]
    tauto

lemma partition_ok {subs : List (Int × CommitBatch K)} (h : partition router batch known = .ok subs)
    (hkey : .delete key ∈ batch.ops) :
    (∀ w, w ∈ subs.map Prod.fst ↔ Target router batch known w) ∧
      ∀ part ∈ subs, ∀ key, .delete key ∈ batch.ops → .delete key ∈ part.2.ops := by
  obtain ⟨split, hsplit, h'⟩ := bind_ok h
  obtain ⟨hdel, hwin⟩ := split_ok hsplit
  have hmem : .delete key ∈ split.2 := by
    rw [hdel]
    exact mem_filter.mpr ⟨hkey, rfl⟩
  obtain rfl := (ok.inj h').symm
  rw [if_neg (ne_nil_of_mem hmem)]
  refine ⟨fun w => ?_, fun part hpart key hkey => ?_⟩
  · rw [map_map]
    change w ∈ List.map Prod.fst _ ↔ _
    rw [mem_keys_known, hwin w, Target]
    simp [or_comm]
  · obtain ⟨e, -, rfl⟩ := mem_map.mp hpart
    refine mem_append_right _ ?_
    rw [hdel]
    exact mem_filter.mpr ⟨hkey, rfl⟩

end

section

variable {K : Type} [DecidableEq K] {T : Tantivy K (Document K)} {svc : WindowedWriteService}
  {order : StagingOrder K} {sub : CommitBatch K} {start node : WindowedNode T}

/-- Every window the node serves takes the deletes: held as primary, not parked, and the deletes neither recorded nor
behind it. -/
def Broadcasts (svc : WindowedWriteService) (node : WindowedNode T) (sub : CommitBatch K) : Prop :=
  ∀ v, node.served v = true ∨ svc.upserts sub v ≠ [] →
    svc.fence.allows svc.indexName v = true ∧ (node.disk v).readOnly = false ∧
    (WindowedWriteService.deletes sub).batchId ∉ (node.disk v).redb.batchKeys.map Prod.fst ∧
    ∀ c, (node.disk v).redb.checkpoint = some c → sub.checkpoint.lineageCmp c ≠ some .lt

lemma lineageCmp_self (c : SourceCheckpoint) : c.lineageCmp c = some .eq := by
  simp [SourceCheckpoint.lineageCmp, SourceCheckpoint.samePosition]

omit [DecidableEq K] in
lemma deletes_id_ne (w : Int) :
    (WindowedWriteService.deletes sub).batchId ≠ (svc.windowBatch sub w).batch.batchId := by
  intro h
  have h : sub.batchId ++ "#del" = sub.batchId ++ "#w" ++ toString w := h
  rw [String.append_assoc] at h
  have htail := congrArg String.toList (String.append_right_inj _ |>.mp h)
  rw [String.toList_append] at htail
  cases htail

lemma upserted_records (h : Upserted svc order sub v s s') (hr : s.Reflects m) :
    (∀ id ∈ s'.redb.batchKeys.map Prod.fst,
      id = (svc.windowBatch sub v).batch.batchId ∨ id ∈ s.redb.batchKeys.map Prod.fst) ∧
    (s'.redb.checkpoint = s.redb.checkpoint ∨ s'.redb.checkpoint = some sub.checkpoint) := by
  cases h with
  | skip _ => exact ⟨fun id hid => .inr hid, .inl rfl⟩
  | @commit plan n hne hp =>
    rw [Shard.exec_txn_redb, RedbTxn.run, Redb.setEventBounds_checkpoint, Redb.setEventBounds_batchKeys]
    rcases hr.write hp with ⟨hsame, -⟩ | ⟨-, -, hcp, hids⟩
    · rw [hsame]
      exact ⟨fun id hid => .inr hid, .inl rfl⟩
    · exact ⟨hids, .inr hcp⟩

lemma replay_deletes_none (h : .delete key ∈ sub.ops) :
    replay m (WindowedWriteService.deletes sub).changes key = none := by
  have hchange : (key, none) ∈ (WindowedWriteService.deletes sub).changes :=
    mem_map.mpr ⟨.delete key, mem_filter.mpr ⟨h, rfl⟩, rfl⟩
  have hagree : ∀ w, (key, w) ∈ (WindowedWriteService.deletes sub).changes → w = none := by
    intro w hw
    obtain ⟨op, hop, hchange⟩ := mem_map.mp hw
    cases op with
    | upsert doc => cases (mem_filter.mp hop).2
    | delete _ => exact (congrArg Prod.snd hchange).symm
  rw [replay_apply, lastChange_of_agree hchange hagree]
  rfl

lemma deleted_frees (hr : s.Reflects m)
    (hu : Upserted svc order sub v s s₁) (hd : Deleted svc order sub v s₁ s₂)
    (hallow : svc.fence.allows svc.indexName v) (hro : s.readOnly = false)
    (hid : (WindowedWriteService.deletes sub).batchId ∉ s.redb.batchKeys.map Prod.fst)
    (hcp : ∀ c, s.redb.checkpoint = some c → sub.checkpoint.lineageCmp c ≠ some .lt)
    (hkey : .delete key ∈ sub.ops) : s₂.live key = [] := by
  obtain ⟨m₁, hr₁, -⟩ := hu.reflects hr
  obtain ⟨hids, hcps⟩ := upserted_records hu hr
  cases hd with
  | skip hskip =>
    rcases hskip with hnone | hfence | hparked
    · exact absurd (mem_filter.mpr ⟨hkey, rfl⟩ : DocOp.delete key ∈ sub.ops.filter DocOp.isDelete)
        (by rw [hnone]; exact not_mem_nil)
    · cases hfence.symm.trans hallow
    · cases hparked.symm.trans (hu.readOnly.trans hro)
  | commit _ _ hp =>
    have hfresh := hr₁.write_fresh hp ?_ rfl ?_
    · rw [hfresh.1.live, replay_deletes_none hkey]
      rfl
    · intro hmem
      rcases hids _ hmem with heq | hmem
      · exact deletes_id_ne v heq
      · exact hid hmem
    · intro c hc
      rcases hcps with heq | heq
      · exact hcp c (heq.symm.trans hc)
      · obtain rfl := Option.some.inj (heq.symm.trans hc)
        show sub.checkpoint.lineageCmp sub.checkpoint ≠ some .lt
        rw [lineageCmp_self]
        decide

lemma committed_frees (hb : Broadcasts svc start sub) (hset : Settled start)
    (hcom : Committed svc order sub start node) (hst : Steady node)
    (hkey : .delete key ∈ sub.ops) (v : Int) : (node.disk v).live key = [] := by
  cases hv : node.served v with
  | true =>
    obtain ⟨s, hu, hd⟩ := hcom.shards v hv
    obtain ⟨hallow, hro, hid, hcp⟩ := hb v ((hcom.served v).mp hv)
    obtain ⟨m, hr⟩ := hset v
    exact deleted_frees hr hu hd hallow hro hid hcp hkey
  | false =>
    obtain ⟨chunk, he⟩ := hst.fresh v hv
    rw [he, (empty_reflects chunk).live]
    rfl

end

section

variable {K N : Type} [DecidableEq K] [DecidableEq N] {T : Tantivy K (Document K)}
  {svc : WindowedWriteService} {owner : Int → N} {router : WindowRouter}
  {cond : WindowedWriteService → Cluster T N → Int → CommitBatch K → Prop} {commitChunk : Nat}
  {muxed : N → List Int} {st st' : Cluster T N} {batch : CommitBatch K}
  {subs : List (Int × CommitBatch K)}

/-- The parts of a batch sent one after another, each send meeting `cond` and taken by its node. -/
inductive Sends (svc : WindowedWriteService) (owner : Int → N)
    (cond : WindowedWriteService → Cluster T N → Int → CommitBatch K → Prop) :
    Cluster T N → List (Int × CommitBatch K) → Cluster T N → Prop
  | done (st : Cluster T N) : Sends svc owner cond st [] st
  | send {st st' : Cluster T N} (fence : PrimaryFence) (order : StagingOrder K) {w : Int}
      {sub : CommitBatch K} {rest : List (Int × CommitBatch K)} {snapshot : Nat}
      (hc : cond (svc.under fence) st w sub)
      (hok : ((svc.under fence).write order sub (st.nodes (owner w))).2 = .ok snapshot)
      (h : Sends svc owner cond (st.deliver svc owner order fence w sub rest) rest st') :
      Sends svc owner cond st ((w, sub) :: rest) st'

structure Sound (st : Cluster T N) : Prop where
  steady : ∀ n, Steady (st.nodes n)
  settled : ∀ n, Settled (st.nodes n)

variable {order : StagingOrder K} {w : Int} {sub : CommitBatch K}

variable (rest) in
lemma Sound.committed (h : Sound st)
    (hok : ((svc.under fence).write order sub (st.nodes (owner w))).2 = .ok snapshot) :
    Committed (svc.under fence) order sub (st.nodes (owner w))
        ((st.deliver svc owner order fence w sub rest).nodes (owner w)) ∧
      Steady ((st.deliver svc owner order fence w sub rest).nodes (owner w)) := by
  have hcall := (write_meets (svc.under fence) order sub (h.steady (owner w)) _ rfl).2
  rw [hok] at hcall
  simp only [Cluster.deliver, Function.update_self]
  exact ⟨hcall.1, hcall.2.1⟩

lemma deliver_nodes_of_ne (hn : n ≠ owner w) :
    (st.deliver svc owner order fence w sub rest).nodes n = st.nodes n := by
  simp [Cluster.deliver, hn]

lemma Sound.deliver (h : Sound st)
    (hok : ((svc.under fence).write order sub (st.nodes (owner w))).2 = .ok snapshot) :
    Sound (st.deliver svc owner order fence w sub rest) := by
  obtain ⟨hcom, hst⟩ := h.committed rest hok
  refine ⟨fun n => ?_, fun n => ?_⟩
  · by_cases hn : n = owner w
    · exact hn ▸ hst
    · rw [deliver_nodes_of_ne hn]
      exact h.steady n
  · by_cases hn : n = owner w
    · subst hn
      intro v
      obtain ⟨m, hm⟩ := h.settled (owner w) v
      obtain ⟨m', hm', -⟩ := (hcom.whole v).reflects hm
      exact ⟨m', hm'⟩
    · rw [deliver_nodes_of_ne hn]
      exact h.settled n

lemma Written.sound (h : Written svc owner router cond commitChunk muxed st) : Sound st := by
  induction h with
  | start => exact ⟨fun n => Steady.empty, fun n w => ⟨_, empty_reflects _⟩⟩
  | taken _ _ _ _ ih => exact ⟨ih.steady, ih.settled⟩
  | resolved _ _ ih => exact ⟨ih.steady, ih.settled⟩
  | sent _ _ _ _ _ hok ih => exact ih.deliver hok
  | crashed _ ih => exact ⟨ih.steady, ih.settled⟩

def Unhindered (owner : Int → N) (svc : WindowedWriteService) (st : Cluster T N) (w : Int)
    (sub : CommitBatch K) : Prop := Broadcasts svc (st.nodes (owner w)) sub

lemma Sends.unsent (h : Sends svc owner cond st subs st')
    (hn : ∀ w ∈ subs.map Prod.fst, owner w ≠ n) : st'.nodes n = st.nodes n := by
  induction h with
  | done st => rfl
  | send fence order _ _ _ ih =>
    obtain ⟨hw, hn⟩ := forall_mem_cons.mp hn
    rw [ih hn, deliver_nodes_of_ne (Ne.symm hw)]

/-- A node that is sent a part with a delete ends without the key, whatever parts it is sent. -/
lemma Sends.frees (h : Sends svc owner (Unhindered owner) st subs st') (hst : Sound st)
    (hkey : ∀ part ∈ subs, .delete key ∈ part.2.ops) (hn : ∃ w ∈ subs.map Prod.fst, owner w = n)
    (v : Int) : ((st'.nodes n).disk v).live key = [] := by
  induction h with
  | done st => obtain ⟨w, hw, -⟩ := hn; cases hw
  | @send st st' fence order w sub rest snapshot hc hok hrest ih =>
    obtain ⟨hsub, hkey⟩ := forall_mem_cons.mp hkey
    by_cases hlater : ∃ w ∈ rest.map Prod.fst, owner w = n
    · exact ih (hst.deliver hok) hkey hlater
    · have hsame := hrest.unsent (n := n) (fun w hw heq => hlater ⟨w, hw, heq⟩)
      obtain ⟨x, hx, rfl⟩ := hn
      rcases mem_cons.mp hx with rfl | hx
      · obtain ⟨hcom, hsteady⟩ := hst.committed rest hok
        rw [hsame]
        exact committed_frees hc (hst.settled _) hcom hsteady hsub v
      · exact absurd ⟨x, hx, rfl⟩ hlater

/-- Every delete of the batch is in a part, and no window of any node holds its key afterwards. -/
def DeletesReach (batch : CommitBatch K) (subs : List (Int × CommitBatch K)) (st' : Cluster T N) : Prop :=
  ∀ key, .delete key ∈ batch.ops →
    (∃ part ∈ subs, .delete key ∈ part.2.ops) ∧ ∀ n v, ((st'.nodes n).disk v).live key = []

/-- The batch has a target, and every node that holds a deleted key is the node of one. -/
def Targeted (router : WindowRouter) (owner : Int → N) (st : Cluster T N) (batch : CommitBatch K) : Prop :=
  ∀ key, .delete key ∈ batch.ops → (∃ w, Target router batch st.windowClient w) ∧
    ∀ n v, ((st.nodes n).disk v).live key ≠ [] → ∃ w, Target router batch st.windowClient w ∧ owner w = n

/-- A batch sent in full reaches every window that holds one of its deleted keys exactly if the connector knows, or
the batch writes, a window of each node that holds one. -/
theorem deletes_reach_iff (h : Written svc owner router cond commitChunk muxed st)
    (hp : partition router batch st.windowClient = .ok subs)
    (hs : Sends svc owner (Unhindered owner) { st with queue := subs } subs st') :
    DeletesReach batch subs st' ↔ Targeted router owner st batch := by
  have hsound : Sound { st with queue := subs } := ⟨h.sound.steady, h.sound.settled⟩
  constructor
  · intro hreach key hkey
    obtain ⟨htargets, -⟩ := partition_ok hp hkey
    obtain ⟨⟨part, hpart, -⟩, hfree⟩ := hreach key hkey
    refine ⟨⟨part.1, (htargets _).mp (mem_map_of_mem hpart)⟩, fun n v hlive => ?_⟩
    by_contra hnone
    have hsame := hs.unsent (n := n) (fun w hw heq => hnone ⟨w, (htargets w).mp hw, heq⟩)
    have := hfree n v
    rw [hsame] at this
    exact hlive this
  · intro htargeted key hkey
    obtain ⟨htargets, hdeletes⟩ := partition_ok hp hkey
    obtain ⟨⟨w, hw⟩, hholders⟩ := htargeted key hkey
    obtain ⟨part, hpart, -⟩ := mem_map.mp ((htargets w).mpr hw)
    refine ⟨⟨part, hpart, hdeletes part hpart key hkey⟩, fun n v => ?_⟩
    by_cases hsent : ∃ w ∈ subs.map Prod.fst, owner w = n
    · exact hs.frees hsound (fun part hpart => hdeletes part hpart key hkey) hsent v
    · rw [hs.unsent (fun w hw heq => hsent ⟨w, hw, heq⟩)]
      by_contra hlive
      obtain ⟨x, hx, heq⟩ := hholders n v hlive
      exact hsent ⟨x, (htargets x).mpr hx, heq⟩

end

namespace SampleCluster
open SampleNode (svc event order)

def deletion : CommitBatch Nat := ⟨[.delete 1], ⟨20, some 2⟩, "b", none, none⟩

def deletionPart : CommitBatch Nat := subBatch deletion 86400000000 [.delete 1]

lemma sentDay_anyhow : Written svc owner router (fun _ _ _ _ => True) 0 (fun _ => []) (sentDay []) :=
  sentDay_written [.upsert (event 1 86400000010)] rfl trivial

end SampleCluster

open SampleCluster SampleNode

/-- A restarted connector knows no window, so a batch of deletes alone is sent to nobody. -/
theorem deletes_lost_after_restart :
    Written svc owner router (fun _ _ _ _ => True) 0 (fun _ => []) (sentDay []).restart ∧
    partition router deletion (sentDay []).restart.windowClient = .ok [] ∧
    Sends svc owner (Unhindered owner) { (sentDay []).restart with queue := [] } [] (sentDay []).restart ∧
    ((sentDay []).restart.shard owner 86400000000).live 1 = [event 1 86400000010] ∧
    ¬ DeletesReach deletion [] (sentDay []).restart := by
  refine ⟨.crashed sentDay_anyhow, rfl, .done _, rfl, fun h => ?_⟩
  obtain ⟨⟨part, hpart, -⟩, -⟩ := h 1 mem_cons_self
  cases hpart

/-- A connector that has written the day sends the deletes there, and the document is gone. -/
theorem deletes_reach_known_day : DeletesReach deletion [(86400000000, deletionPart)]
      ({ sentDay [] with queue := [(86400000000, deletionPart)] }.deliver svc owner order .unrestricted
        86400000000 deletionPart []) := by
  have hserved : ∀ v, ((sentDay []).nodes ()).served v = true ∨ svc.upserts deletionPart v ≠ [] → v = 86400000000 := by
    rintro v (hv | hv)
    · exact mem_singleton.mp (contains_iff_mem.mp hv)
    · exact absurd rfl hv
  have hc : Unhindered owner svc { sentDay [] with queue := [(86400000000, deletionPart)] } 86400000000
      deletionPart := by
    intro v hv
    obtain rfl := hserved v hv
    exact ⟨rfl, rfl, by decide, fun c hc => Option.some.inj hc ▸ by decide⟩
  have hok : (svc.write order deletionPart ((sentDay []).nodes ())).2 = .ok 2 := rfl
  have hs : Sends svc owner (Unhindered owner) { sentDay [] with queue := [(86400000000, deletionPart)] }
      [(86400000000, deletionPart)] _ := .send .unrestricted order hc hok (.done _)
  refine (deletes_reach_iff sentDay_anyhow rfl hs).mpr fun key hkey => ?_
  exact ⟨⟨86400000000, .inl mem_cons_self⟩, fun n v _ => ⟨86400000000, .inl mem_cons_self, rfl⟩⟩

end GrowlerDB.Connector
