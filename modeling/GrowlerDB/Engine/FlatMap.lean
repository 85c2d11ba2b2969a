import GrowlerDB.Engine.WindowedRun

namespace GrowlerDB.Engine
open Core Index Lib Replay List Option DocOp String Prod

variable {K : Type} [DecidableEq K] {T : Tantivy K (Document K)}

section

variable (svc : WindowedWriteService) (m : K → Option (Document K))

def restrict (w : Int) : K → Option (Document K) :=
  fun k => (m k).filter (fun d => decide (svc.windowOf d = w))

def flat (batches : List (CommitBatch K)) : K → Option (Document K) :=
  replay (fun _ => none) (batches.flatMap CommitBatch.changes)

inductive Applies (svc : WindowedWriteService) (commitChunk : Nat) (muxed : List Int) :
    List (CommitBatch K) → WindowedNode T → Prop
  | nil : Applies svc commitChunk muxed [] (.empty commitChunk muxed)
  | snoc {batches : List (CommitBatch K)} {node : WindowedNode T}
      (h : Applies svc commitChunk muxed batches node) (order : StagingOrder K)
      (batch : CommitBatch K) {done : Nat × List Int}
      (hok : (svc.commitWindowed order batch node).2 = .ok done) :
      Applies svc commitChunk muxed (batches ++ [batch])
        (Script.after node (svc.commitWindowed order batch node).1)

/-- Over the map `m`, no upsert follows a delete of its key in the batch, and none moves a key that
has a document to another window. -/
def KeysStay (ops : List (DocOp K)) : Prop :=
  ∀ before doc rest, ops = before ++ .upsert doc :: rest → .delete doc.key ∉ before ∧
    ∀ d, replay m (before.map DocOp.change) doc.key = some d → svc.windowOf d = svc.windowOf doc

end

/-- Batches as a source of immutable-window documents delivers them. -/
structure Windowable (svc : WindowedWriteService) (batches : List (CommitBatch K)) : Prop where
  newer : batches.Pairwise (fun a b => b.checkpoint.lineageCmp a.checkpoint ≠ some .lt)
  ids : batches.Pairwise (fun a b => a.batchId ≠ b.batchId)
  stay : ∀ before batch rest, batches = before ++ batch :: rest →
    KeysStay svc (flat before) batch.ops

section

variable {svc : WindowedWriteService} {m : K → Option (Document K)}

lemma KeysStay.init {ops : List (DocOp K)} {op : DocOp K} (h : KeysStay svc m (ops ++ [op])) : KeysStay svc m ops :=
  fun before doc rest he => h before doc (rest ++ [op]) (by simp [he])

lemma replay_snoc (log : List (K × Option (Document K))) (c : K × Option (Document K)) (k : K) :
    replay m (log ++ [c]) k = if c.1 = k then c.2 else replay m log k := by
  rw [replay_append]
  rfl

lemma replay_of_untouched {log : List (K × Option (Document K))} {k : K}
    (h : ∀ c ∈ log, c.1 ≠ k) : replay m log k = m k := by
  rw [replay_apply, lastChange_eq_none.mpr h]
  rfl

/-- Taking a window's upserts first and all deletes after them gives the window's part of the map
that the operations give in order. -/
lemma restrict_replay {ops : List (DocOp K)} (h : KeysStay svc m ops) (w : Int) (k : K) :
    restrict svc (replay m (ops.map change)) w k = replay (replay (restrict svc m w)
        ((svc.windowing.upsertsIn svc.timeFields w ops).map change))
        ((ops.filter isDelete).map change) k := by
  -- on the last operation: a delete is last on both sides, an upsert meets no delete of its key
  induction ops using List.reverseRecOn with
  | nil => rfl
  | append_singleton ops op ih =>
    have ih := ih h.init
    cases op with
    | delete key =>
      rw [TimeWindowing.upsertsIn_snoc_delete, filter_append,
        show [delete key].filter isDelete = [.delete key] from rfl, map_append,
        map_append, map_singleton, replay_snoc, restrict, replay_snoc]
      split_ifs
      · rfl
      · exact ih
    | upsert doc =>
      obtain ⟨hnodel, hstay⟩ := h ops doc [] rfl
      rw [filter_append, show [upsert doc].filter isDelete = [] from rfl,
        append_nil, TimeWindowing.upsertsIn_snoc_upsert, map_append, map_singleton,
        restrict, replay_snoc]
      by_cases hk : doc.key = k
      · subst hk
        have hquiet : ∀ c ∈ (ops.filter isDelete).map change, c.1 ≠ doc.key := by
          intro c hc he
          obtain ⟨op, hop, rfl⟩ := mem_map.mp hc
          cases op with
          | upsert d => cases (mem_filter.mp hop).2
          | delete key =>
            obtain rfl : key = doc.key := he
            exact hnodel (mem_filter.mp hop).1
        rw [replay_of_untouched hquiet] at ih ⊢
        rw [if_pos (by rfl)]
        by_cases hw : svc.windowOf doc = w
        · have hw' : svc.windowing.docWindow svc.timeFields.cal doc svc.timeFields.windowFormat = w := hw
          rw [if_pos hw', map_append, map_singleton, replay_snoc, if_pos (by rfl)]
          simp [change, hw]
        · have hw' : svc.windowing.docWindow svc.timeFields.cal doc svc.timeFields.windowFormat ≠ w := hw
          rw [if_neg hw', ← ih, restrict]
          cases hm : replay m (ops.map change) doc.key with
          | none => simp [change, hw]
          | some d =>
            have hd : svc.windowOf d ≠ w := hstay d hm ▸ hw
            simp [change, hw, hd, Option.filter]
      · have hk : ¬ (upsert doc).change.1 = k := hk
        rw [if_neg hk]
        change restrict svc (replay m (ops.map change)) w k = _
        rw [ih, replay_apply, replay_apply (m := replay _ _)]
        congr 1
        split_ifs
        · rw [map_append, map_singleton, replay_snoc, if_neg hk]
        · rfl

end

lemma toString_last (w : Int) : ∃ c, (toString w).toList.getLast? = some c ∧ c.isDigit := by
  have hnat : ∀ n : Nat, ∃ c, (toString n).toList.getLast? = some c ∧ c.isDigit := by
    intro n
    rw [show toString n = ofList (Nat.toDigits 10 n) from rfl, toList_ofList,
      List.getLast?_eq_some_getLast Nat.toDigits_ne_nil]
    exact ⟨_, rfl, Nat.isDigit_of_mem_toDigits (by decide) (by decide) (getLast_mem _)⟩
  cases w with
  | ofNat n => exact hnat n
  | negSucc n =>
    obtain ⟨c, hc, hd⟩ := hnat (n + 1)
    refine ⟨c, ?_, hd⟩
    rw [show toString (Int.negSucc n) = "-" ++ toString (n + 1) from rfl, toList_append,
      List.getLast?_append, hc]
    rfl

lemma subId_ne_delId (a b : String) (w : Int) : a ++ "#w" ++ toString w ≠ b ++ "#del" := by
  intro h
  obtain ⟨c, hc, hd⟩ := toString_last w
  have hlast := congrArg (fun s => s.toList.getLast?) h
  simp only [toList_append, List.getLast?_append, hc] at hlast
  obtain rfl : c = 'l' := some.inj hlast
  exact absurd hd (by decide)

variable {batches : List (CommitBatch K)} {node : WindowedNode T}

section

variable {svc : WindowedWriteService} {order : StagingOrder K} {batch : CommitBatch K} {w : Int}
  {s s' : Shard T} {m : K → Option (Document K)}

structure Tracks (batches : List (CommitBatch K)) (w : Int) (s : Shard T) : Prop where
  writable : s.readOnly = false
  ids : ∀ id ∈ s.redb.batchKeys.map Prod.fst, ∃ b ∈ batches,
    id = b.batchId ++ "#w" ++ toString w ∨ id = b.batchId ++ "#del"
  position : ∀ c, s.redb.checkpoint = some c → ∃ b ∈ batches, b.checkpoint = c

lemma Upserted.applied (h : Upserted svc order batch w s s')
    (hr : s.Reflects m) (ht : Tracks batches w s)
    (hnew : ∀ b ∈ batches, b.batchId ≠ batch.batchId ∧ batch.checkpoint.lineageCmp b.checkpoint ≠ some .lt) :
    s'.Reflects (replay m ((svc.upserts batch w).map change)) ∧ s'.readOnly = false ∧
      (∀ id ∈ s'.redb.batchKeys.map fst,
        id = batch.batchId ++ "#w" ++ toString w ∨ id ∈ s.redb.batchKeys.map fst) ∧
      ∀ c, s'.redb.checkpoint = some c → s.redb.checkpoint = some c ∨ c = batch.checkpoint := by
  cases h with
  | skip hnone =>
    rw [hnone]
    exact ⟨hr, ht.writable, fun _ h => .inr h, fun _ h => .inl h⟩
  | commit hne hp =>
    have hid : batch.batchId ++ "#w" ++ toString w ∉ s.redb.batchKeys.map fst := by
      intro hin
      obtain ⟨b, hb, he | he⟩ := ht.ids _ hin
      · rw [String.append_assoc, String.append_assoc, String.append_left_inj] at he
        exact (hnew b hb).1 he.symm
      · exact subId_ne_delId _ _ _ he
    obtain ⟨href, hcp, hids⟩ := hr.write_fresh hp hid rfl (fun c hc => by
      obtain ⟨b, hb, rfl⟩ := ht.position c hc
      exact (hnew b hb).2)
    refine ⟨href.txn _, ht.writable, ?_, ?_⟩
    · rwa [Shard.exec_txn_redb, RedbTxn.run, Redb.setEventBounds_batchKeys]
    · rw [Shard.exec_txn_redb, RedbTxn.run, Redb.setEventBounds_checkpoint, hcp]
      exact fun c hc => .inr (some.inj hc).symm

lemma Deleted.applied (h : Deleted svc order batch w s s') (hr : s.Reflects m)
    (hwrite : s.readOnly = false) (hallow : svc.fence.allows svc.indexName w)
    (hid : batch.batchId ++ "#del" ∉ s.redb.batchKeys.map fst)
    (hcp : ∀ c, s.redb.checkpoint = some c → batch.checkpoint.lineageCmp c ≠ some .lt) :
    s'.Reflects (replay m ((batch.ops.filter isDelete).map change)) ∧ s'.readOnly = false ∧
      (∀ id ∈ s'.redb.batchKeys.map fst, id = batch.batchId ++ "#del" ∨ id ∈ s.redb.batchKeys.map fst) ∧
      ∀ c, s'.redb.checkpoint = some c → s.redb.checkpoint = some c ∨ c = batch.checkpoint := by
  cases h with
  | skip hskip =>
    rcases hskip with hnone | hfence | hread
    · rw [hnone]
      exact ⟨hr, hwrite, fun _ h => .inr h, fun _ h => .inl h⟩
    · simp [hallow] at hfence
    · simp [hwrite] at hread
  | commit hne _ hp =>
    obtain ⟨href, hpos, hids⟩ := hr.write_fresh hp hid rfl hcp
    exact ⟨href, hwrite, hids, fun c hc => .inr (some.inj (hpos.symm.trans hc)).symm⟩

/-- A node that has taken a list of batches: each window holds its part of their map. -/
structure FlatInv (svc : WindowedWriteService) (batches : List (CommitBatch K))
    (node : WindowedNode T) : Prop where
  steady : Steady node
  allowed : ∀ w, node.served w = true → svc.fence.allows svc.indexName w = true
  reflects : ∀ w, (node.disk w).Reflects (restrict svc (flat batches) w)
  tracks : ∀ w, Tracks batches w (node.disk w)

lemma FlatInv.empty (commitChunk : Nat) (muxed : List Int) :
    FlatInv svc ([] : List (CommitBatch K)) (.empty commitChunk muxed : WindowedNode T) :=
  ⟨Steady.empty, fun _ hw => (nomatch hw), fun _ => empty_reflects commitChunk,
    fun _ => ⟨rfl, fun _ h => (nomatch h), fun _ h => (nomatch h)⟩⟩

lemma Tracks.mono (h : Tracks batches w s) (b : CommitBatch K) : Tracks (batches ++ [b]) w s :=
  ⟨h.writable, fun id hid => (h.ids id hid).imp (fun _ hb => ⟨mem_append_left _ hb.1, hb.2⟩),
    fun c hc => (h.position c hc).imp (fun _ hb => ⟨mem_append_left _ hb.1, hb.2⟩)⟩

lemma flat_snoc (batches : List (CommitBatch K)) (b : CommitBatch K) :
    flat (batches ++ [b]) = replay (flat batches) b.changes := by
  rw [flat, flatMap_append, flatMap_singleton, replay_append]
  rfl

lemma restrict_unserved (hstay : KeysStay svc (flat batches) batch.ops)
    (hempty : ∀ k, restrict svc (flat batches) w k = none) (hnone : svc.upserts batch w = []) :
    restrict svc (flat (batches ++ [batch])) w = restrict svc (flat batches) w := by
  funext k
  rw [flat_snoc, CommitBatch.changes, restrict_replay hstay, hempty k,
    show svc.windowing.upsertsIn svc.timeFields w batch.ops = [] from hnone]
  cases hd : replay (replay (restrict svc (flat batches) w) (([] : List (DocOp K)).map change))
      ((batch.ops.filter isDelete).map change) k with
  | none => rfl
  | some d =>
    have hold : replay (restrict svc (flat batches) w) [] k = some d := replay_deletes hd
    simp [replay, foldl_nil, hempty k] at hold

section

variable (h : FlatInv svc batches node) (hstay : KeysStay svc (flat batches) batch.ops) (hnew : ∀ b ∈ batches, b.batchId ≠ batch.batchId ∧ batch.checkpoint.lineageCmp b.checkpoint ≠ some .lt)
include h hstay hnew

lemma FlatInv.window (hallow : svc.fence.allows svc.indexName w)
    (hu : Upserted svc order batch w (node.disk w) s) (hd : Deleted svc order batch w s s') :
    s'.Reflects (restrict svc (flat (batches ++ [batch])) w) ∧ Tracks (batches ++ [batch]) w s' := by
  have ht := h.tracks w
  obtain ⟨href, hwrite, hids, hpos⟩ := hu.applied (h.reflects w) ht hnew
  have hdel : batch.batchId ++ "#del" ∉ s.redb.batchKeys.map fst := by
    intro hin
    rcases hids _ hin with he | hin
    · exact subId_ne_delId _ _ _ he.symm
    · obtain ⟨b, hb, he | he⟩ := ht.ids _ hin
      · exact subId_ne_delId _ _ _ he.symm
      · exact (hnew b hb).1 ((String.append_left_inj _).mp he).symm
  obtain ⟨href', hwrite', hids', hpos'⟩ := hd.applied href hwrite hallow hdel (fun c hc => by
    rcases hpos c hc with hc | rfl
    · obtain ⟨b, hb, rfl⟩ := ht.position c hc
      exact (hnew b hb).2
    · simp [SourceCheckpoint.lineageCmp, SourceCheckpoint.samePosition])
  refine ⟨?_, hwrite', fun id hid => ?_, fun c hc => ?_⟩
  · have heq : restrict svc (flat (batches ++ [batch])) w = replay (replay
        (restrict svc (flat batches) w) ((svc.upserts batch w).map change))
        ((batch.ops.filter isDelete).map change) := by
      funext k
      rw [flat_snoc, CommitBatch.changes, restrict_replay hstay]
      rfl
    rwa [heq]
  · rcases hids' id hid with rfl | hid
    · exact ⟨batch, by simp, .inr rfl⟩
    · rcases hids id hid with rfl | hid
      · exact ⟨batch, by simp, .inl rfl⟩
      · exact (ht.mono batch).ids id hid
  · rcases hpos' c hc with hc | rfl
    · rcases hpos c hc with hc | rfl
      · exact (ht.mono batch).position c hc
      · exact ⟨batch, by simp, rfl⟩
    · exact ⟨batch, by simp, rfl⟩

lemma FlatInv.step {node' : WindowedNode T} (hc : Committed svc order batch node node') (hst : Steady node') :
    FlatInv svc (batches ++ [batch]) node' := by
  have hallow : ∀ w, node'.served w → svc.fence.allows svc.indexName w := by
    intro w hw
    rcases (hc.served w).mp hw with hw | hne
    · exact h.allowed w hw
    · exact hc.allowed w hne
  have hall : ∀ w, (node'.disk w).Reflects (restrict svc (flat (batches ++ [batch])) w) ∧
      Tracks (batches ++ [batch]) w (node'.disk w) := by
    intro w
    cases hw : node'.served w with
    | true =>
      obtain ⟨s, hu, hd⟩ := hc.shards w hw
      exact h.window hstay hnew (hallow w hw) hu hd
    | false =>
      have hboth : node.served w ≠ true ∧ svc.upserts batch w = [] := by
        have := mt (hc.served w).mpr (by simp [hw])
        rwa [not_or, not_not] at this
      have hempty : ∀ k, restrict svc (flat batches) w k = none := by
        obtain ⟨chunk, hd⟩ := h.steady.fresh w (by simpa using hboth.1)
        intro k
        have hlive := (h.reflects w).live k
        rw [hd, (empty_reflects chunk).live k] at hlive
        exact (toList_eq_nil_iff.mp hlive.symm)
      rw [hc.others w hw, restrict_unserved hstay hempty hboth.2]
      exact ⟨h.reflects w, (h.tracks w).mono batch⟩
  exact ⟨hst, hallow, fun w => (hall w).1, fun w => (hall w).2⟩

end

lemma Windowable.init (h : Windowable svc (batches ++ [b])) : Windowable svc batches :=
  ⟨(pairwise_append.mp h.newer).1, (pairwise_append.mp h.ids).1,
    fun before batch rest he => h.stay before batch (rest ++ [b]) (by simp [he])⟩

lemma Applies.inv {commitChunk : Nat} {muxed : List Int}
    (h : Applies svc commitChunk muxed batches node)
    (hb : Windowable svc batches) : FlatInv svc batches node := by
  induction h with
  | nil => exact FlatInv.empty _ _
  | @snoc batches node _ order batch done hok ih =>
    have hinv := ih hb.init
    have hcall := (commitWindowed_meets svc order batch hinv.steady node rfl).2
    rw [hok] at hcall
    obtain ⟨hc, hst, -⟩ := hcall
    refine hinv.step (hb.stay batches batch [] rfl) (fun b hin => ?_) hc hst
    exact ⟨(pairwise_append.mp hb.ids).2.2 b hin batch mem_cons_self,
      (pairwise_append.mp hb.newer).2.2 b hin batch mem_cons_self⟩

lemma Applies.next {commitChunk : Nat} {muxed : List Int} (h : Applies svc commitChunk muxed batches node)
    (order : StagingOrder K) (batch : CommitBatch K) (hok : (svc.commitWindowed order batch node).2.toBool) :
    Applies svc commitChunk muxed (batches ++ [batch]) (Script.after node (svc.commitWindowed order batch node).1) := by
  cases hdone : (svc.commitWindowed order batch node).2 with
  | ok done => exact .snoc h order batch hdone
  | error => simp [hdone, Except.toBool] at hok

/-- Windowed writes are one map from keys to documents, as long as the source keeps every key in one window and no
batch brings a key back after deleting it: each window's live documents are its part of the map. -/
theorem windows_are_flat {commitChunk : Nat} {muxed : List Int} {batches : List (CommitBatch K)}
    {node : WindowedNode T} (h : Applies svc commitChunk muxed batches node)
    (hb : Windowable svc batches) (w : Int) (k : K) :
    (node.disk w).live k =
      ((flat batches k).filter (fun d => decide (svc.windowOf d = w))).toList :=
  ((h.inv hb).reflects w).live k

end

namespace SampleNode

def stored : WindowedNode Docs :=
  Script.after boot (svc.commitWindowed order first boot).1

lemma stored_applies : Applies svc 0 [] [first] stored :=
  .snoc .nil order first rfl

def second : CommitBatch Nat :=
  ⟨[.upsert (event 1 20), .upsert (event 2 86400000010)], ⟨20, some 2⟩, "b", none, none⟩

def third : CommitBatch Nat := ⟨[.upsert (event 2 86400000020), .delete 1], ⟨30, some 3⟩, "c", none, none⟩

lemma days_windowable : Windowable svc [first, second, third] := by
  refine ⟨by decide, by decide, ?_⟩
  rintro (_ | ⟨b, _ | ⟨c, _ | ⟨e, before⟩⟩⟩) next rest he <;>
    simp only [cons_append, nil_append, List.cons.injEq] at he
  · obtain ⟨rfl, -⟩ := he
    rintro (_ | ⟨a, pre⟩) doc post hops <;> simp [first] at hops
    exact ⟨not_mem_nil, nofun⟩
  · obtain ⟨rfl, rfl, -⟩ := he
    rintro (_ | ⟨a, _ | ⟨b, pre⟩⟩) doc post hops <;> simp [second] at hops
    · obtain ⟨rfl, -⟩ := hops
      refine ⟨not_mem_nil, fun d hd => ?_⟩
      cases hd
      rfl
    · obtain ⟨rfl, rfl, -⟩ := hops
      exact ⟨by simp, nofun⟩
  · obtain ⟨rfl, rfl, rfl, -⟩ := he
    rintro (_ | ⟨a, _ | ⟨b, pre⟩⟩) doc post hops <;> simp [third] at hops
    obtain ⟨rfl, -⟩ := hops
    refine ⟨not_mem_nil, fun d hd => ?_⟩
    cases hd
    rfl
  · simp at he

def moved : CommitBatch Nat :=
  ⟨[.upsert (event 1 86400000010)], ⟨20, some 2⟩, "b", none, none⟩

def twice : WindowedNode Docs :=
  Script.after stored (svc.commitWindowed order moved stored).1

def reborn : CommitBatch Nat := ⟨[.delete 1, .upsert (event 1 10)], ⟨10, some 1⟩, "a", none, none⟩

def lost : WindowedNode Docs := Script.after boot (svc.commitWindowed order reborn boot).1

end SampleNode

open SampleNode

/-- Two batches rewrite a key and fill a second window; the third rewrites a key there and deletes the first. -/
theorem windows_are_flat_days : ∃ node : WindowedNode Docs,
    Applies svc 0 [] [first, second, third] node ∧ (node.disk 0).live 1 = [] ∧
      (node.disk 86400000000).live 2 = [event 2 86400000020] := by
  have hsecond := stored_applies.next order second (by decide +kernel)
  have hthird := hsecond.next order third (by decide +kernel)
  exact ⟨_, hthird, windows_are_flat hthird days_windowable 0 1,
    windows_are_flat hthird days_windowable 86400000000 2⟩

/-- A document written after a delete of its key in the same batch is lost, since deletes are broadcast last; and a key
whose window field moves to the next day has two live documents. -/
theorem reborn_lost_moved_twice : (Applies svc 0 [] [reborn] lost ∧ flat [reborn] 1 = some (event 1 10) ∧
      (lost.disk 0).live 1 = []) ∧
    Applies svc 0 [] [first, moved] twice ∧ flat [first, moved] 1 = some (event 1 86400000010) ∧
      (twice.disk 0).live 1 = [event 1 10] ∧ (twice.disk 86400000000).live 1 = [event 1 86400000010] :=
  ⟨⟨.snoc .nil order reborn rfl, rfl, rfl⟩, .snoc stored_applies order moved rfl, rfl, rfl, rfl⟩

end GrowlerDB.Engine
