import GrowlerDB.Connector.ShardedWriteClient
import GrowlerDB.Index.Rebuild

namespace GrowlerDB.Connector
open Core Index Lib Replay List Option ShardedWriteClient Changelog DocOp

variable {n : Nat}

variable {K : Type} [DecidableEq K] {T : Tantivy K (Document K)} {log : Changelog K} {job : Job K}
  {router : KeyRouter K}

def share (log : Changelog K) (router : KeyRouter K) (i : Nat) : Changelog K :=
  log.restrict (fun k => decide (router.route k = i))

noncomputable def endOf (log : Changelog K) (table : String) (i : Nat) (id : String) : SourceCheckpoint :=
  open Classical in
  if h : ∃ (e : Int) (start : Option Int), batchId table start e ++ "#s" ++ toString i = id then
    checkpointOf log h.choose
  else ⟨0, none⟩

omit [DecidableEq K] in
lemma endOf_part (table : String) (i : Nat) (start : Option Int) (e : Int) :
    endOf log table i (batchId table start e ++ "#s" ++ toString i) = checkpointOf log e := by
  have h : ∃ (e' : Int) (start' : Option Int),
      batchId table start' e' ++ "#s" ++ toString i = batchId table start e ++ "#s" ++ toString i :=
    ⟨e, start, rfl⟩
  rw [endOf, dif_pos h]
  obtain ⟨start', heq⟩ := h.choose_spec
  have hsuffix : ∀ a : String, a ++ "#s" ++ toString i = a ++ ("#s" ++ toString i) := fun a => String.append_assoc
  exact congrArg _ (batchId_end ((hsuffix _).symm.trans (heq.trans (hsuffix _))))

variable {i : Nat} {rest : List (Commit K)} {c : Commit K} {start : Option Int}

section

variable {keep : K → Bool}

omit [DecidableEq K] in
lemma entries_eq_rows (log : Changelog K) :
    log.entries = (changelogRows log).map (fun e => (e.1, e.2.op.change)) := by
  simp only [entries, viewOf, changelogRows, List.map_flatMap, List.map_map, id]
  rfl

omit [DecidableEq K] in
lemma changes_changelog (log : Changelog K) (start : Option Int) (e : Int) :
    (changelog log start e).map (·.op.change) =
      between log.entries (placeOf log start) (placeOf log (some e)) := by
  rw [between, entries_eq_rows, List.filter_map, List.map_map, changelog, List.map_map]
  refine congrArg _ (List.filter_congr (fun r _ => ?_))
  simp only [Function.comp_apply]
  congr

lemma lastChange_scan (start : Option Int) (e : Int) (hk : keep k) :
    lastChange ((scan log keep start e).map (·.op.change)) k =
      lastChange (between log.entries (placeOf log start) (placeOf log (some e))) k := by
  have hfilter : (scan log keep start e).map (·.op.change) =
      ((changelog log start e).map (·.op.change)).filter (fun c => keep c.1) := by
    rw [List.filter_map, scan]
    refine congrArg _ (filter_congr fun row _ => ?_)
    simp
  rw [hfilter, lastChange_filter, hk, if_pos rfl, changes_changelog]

omit [DecidableEq K] in
lemma between_restrict (log : Changelog K) (p : K → Bool) (lo hi : WithBot Int) :
    between (log.restrict p).entries lo hi = (between log.entries lo hi).filter (fun c => p c.1) := by
  rw [entries_restrict, between, between, List.filter_map, List.filter_filter, List.filter_filter]
  refine congrArg _ (List.filter_congr fun e _ => ?_)
  simp [Bool.and_comm]

lemma lastChange_share (lo hi : WithBot Int) (k : K) : lastChange (between (share log router i).entries lo hi) k =
      if router.route k = i then lastChange (between log.entries lo hi) k else none := by
  rw [share, between_restrict, lastChange_filter _ (fun k => decide (router.route k = i))]
  simp

omit [DecidableEq K] in
lemma Planned.forward {head : Int} {commits : List (Commit K)}
    (h : Planned log keep head start commits) : placeOf log start < placeOf log (some head) := by
  induction h with
  | last hlt => exact hlt
  | cut _ hlt _ ih => exact hlt.trans ih

omit [DecidableEq K] in
lemma Planned.next (ht : t ∈ log.snapshots)
    (h : Planned log keep t.snapshotId start (c :: rest)) :
    ∃ s ∈ log.snapshots, c = ⟨start, s.snapshotId, scan log keep start s.snapshotId⟩ ∧
      placeOf log start < placeOf log (some s.snapshotId) ∧
      placeOf log (some s.snapshotId) ≤ placeOf log (some t.snapshotId) ∧
      ((rest = [] ∧ s = t) ∨ (rest ≠ [] ∧ Planned log keep t.snapshotId (some s.snapshotId) rest)) := by
  cases h with
  | last hlt => exact ⟨t, ht, rfl, hlt, le_rfl, .inl ⟨rfl, rfl⟩⟩
  | cut hs hlt htail =>
    refine ⟨_, hs, rfl, hlt, htail.forward.le, .inr ⟨?_, htail⟩⟩
    rintro rfl
    cases htail

end

lemma Job.lastChange_mapper (hapart : KeysApart log job) (keep : K → Bool) (start : Option Int) (e : Int)
    (k : K) : lastChange ((job.mapper (scan log keep start e)).map change) k =
      lastChange ((scan log keep start e).map (·.op.change)) k := by
  have hrow : ∀ row ∈ scan log keep start e, ∃ r ∈ changelogRows log, r.2 = row := by
    intro row hrow
    obtain ⟨r, hr, rfl⟩ := List.mem_map.mp (List.mem_filter.mp hrow).1
    exact ⟨r, (List.mem_filter.mp hr).1, rfl⟩
  rw [Job.mapper, List.map_map]
  refine (LinkedMap.lastChange_ofList ?_ k).trans ?_
  · intro x hx y hy
    obtain ⟨a, ha, rfl⟩ := List.mem_map.mp hx
    obtain ⟨b, hb, rfl⟩ := List.mem_map.mp hy
    obtain ⟨ra, hra, rfl⟩ := hrow a ha
    obtain ⟨rb, hrb, rfl⟩ := hrow b hb
    rw [change_key, change_key]
    exact ⟨hapart ra hra rb hrb, congrArg job.keyString⟩
  · rw [List.map_map]
    rfl

variable {s : SourceSnapshot K}

lemma covers_part (hlog : Numbered log) (hapart : KeysApart log job) (hs : s ∈ log.snapshots)
    (hstart : ∀ x, start = some x → ∃ t ∈ log.snapshots, t.snapshotId = x)
    (hforward : placeOf log start < placeOf log (some s.snapshotId))
    (hkeep : ∀ k, router.route k = i → keep k) :
    Covers (share log router i) (endOf log job.table i) (part router
      (job.toBatch log cursor ⟨start, s.snapshotId, scan log keep start s.snapshotId⟩) i) where
  hasEnd := has_restrict.mpr ⟨s, hs, (checkpointOf_eq hlog hs).symm⟩
  hasFrom := by
    intro f hf
    obtain ⟨x, hx, rfl⟩ := map_eq_some_iff.mp hf
    obtain ⟨t, ht, rfl⟩ := hstart x hx
    exact has_restrict.mpr ⟨t, ht, (checkpointOf_eq hlog ht).symm⟩
  forward := hforward
  named := endOf_part job.table i start s.snapshotId
  window := by
    intro k
    have hops : (part router (job.toBatch log cursor
          ⟨start, s.snapshotId, scan log keep start s.snapshotId⟩) i).changes =
        ((job.mapper (scan log keep start s.snapshotId)).map change).filter
          (fun c => decide (router.route c.1 = i)) := by
      rw [CommitBatch.changes, List.filter_map]
      refine congrArg _ (filter_congr fun op _ => ?_)
      simp
    rw [hops, lastChange_filter _ (fun k => decide (router.route k = i))]
    refine Eq.trans ?_ (lastChange_share (placeOf log start) (placeOf log (some s.snapshotId)) k).symm
    by_cases hk : router.route k = i
    · simp only [hk, decide_true, if_true]
      rw [job.lastChange_mapper hapart, lastChange_scan start s.snapshotId (hkeep k hk)]
    · simp [hk]

variable {r : StagedRef K} {w : Writer K} {st' : Ingesting T} {owned : List Nat}

variable {st : Ingesting T}

variable {reach : WithBot Int → WithBot Int → Prop}

/-- A snapshot of the changelog, or its start, that each of the shards has reached. -/
structure Behind (reach : WithBot Int → WithBot Int → Prop) (log : Changelog K) (st : Ingesting T) (shards : Nat)
    (owned : List Nat) (id : Option Int) : Prop where
  known : ∀ x, id = some x → ∃ s ∈ log.snapshots, s.snapshotId = x
  le : ∀ i ∈ owned, i < shards → reach (placeOf log id) (position (st.shards i).checkpoint)

/-- A connector resumes, reads and commits only from where all its shards are; what was acknowledged
to it, the shards have reached. -/
structure WriterOk (reach : WithBot Int → WithBot Int → Prop) (log : Changelog K) (job : Job K) (router : KeyRouter K)
    (st : Ingesting T) (w : Writer K) : Prop where
  resumed : Behind reach log st router.shards (w.owned router) w.resumeFrom
  reading : Behind reach log st router.shards (w.owned router) w.cursor
  resumed_le : placeOf log w.resumeFrom ≤ placeOf log st.head
  reading_le : placeOf log w.cursor ≤ placeOf log st.head
  planned : w.pending ≠ [] → ∃ s ∈ log.snapshots, w.current = some s.snapshotId ∧
    placeOf log (some s.snapshotId) ≤ placeOf log st.head ∧ ∃ start, Planned log (w.keeps router) s.snapshotId start
      w.pending ∧ Behind reach log st router.shards (w.owned router) start
  acked : ∀ e ∈ w.acked, reach (position (some (endOf log job.table e.1 e.2))) (position (st.shards e.1).checkpoint)

/-- Every shard follows its share of the changelog up to the head, and what was sent or staged for it
covers a window that starts no later than the shard is. -/
structure InStep (log : Changelog K) (job : Job K) (router : KeyRouter K) (st : Ingesting T) : Prop where
  follows : ∀ i < router.shards,
    Follows (share log router i) (endOf log job.table i) (fun _ => True) (st.shards i)
  reached : ∀ i < router.shards, position (st.shards i).checkpoint ≤ placeOf log st.head
  furthest : ∀ i < router.shards, (st.shards i).furthest ≤ placeOf log st.head
  sent : ∀ e ∈ st.sent, e.1 < router.shards ∧ Covers (share log router e.1) (endOf log job.table e.1) e.2 ∧
    position e.2.fromCheckpoint ≤ position (st.shards e.1).checkpoint ∧
    position (some e.2.checkpoint) ≤ placeOf log st.head
  staged : ∀ i, ∀ r ∈ (st.shards i).staged, i < router.shards ∧
    position r.fromCheckpoint ≤ position (st.shards i).checkpoint ∧
    position (some r.checkpoint) ≤ placeOf log st.head
  writers : ∀ w, WriterOk (· ≤ ·) log job router st (st.writers w)

lemma Behind.mono {id : Option Int} (h : Behind reach log st shards owned id)
    (hcp : ∀ i a, reach a (position (st.shards i).checkpoint) → reach a (position (st'.shards i).checkpoint)) :
    Behind reach log st' shards owned id :=
  ⟨h.known, fun i hi hlt => hcp i _ (h.le i hi hlt)⟩

lemma WriterOk.mono (h : WriterOk reach log job router st w)
    (hcp : ∀ i a, reach a (position (st.shards i).checkpoint) → reach a (position (st'.shards i).checkpoint))
    (hhead : placeOf log st.head ≤ placeOf log st'.head) : WriterOk reach log job router st' w where
  resumed := h.resumed.mono hcp
  reading := h.reading.mono hcp
  resumed_le := h.resumed_le.trans hhead
  reading_le := h.reading_le.trans hhead
  planned := by
    intro hp
    obtain ⟨s, hs, hcur, hle, start, hplan, hstart⟩ := h.planned hp
    exact ⟨s, hs, hcur, hle.trans hhead, start, hplan, hstart.mono hcp⟩
  acked e he := hcp e.1 _ (h.acked e he)

lemma InStep.setWriter (h : InStep log job router st) (w : Nat) {x : Writer K}
    (hx : WriterOk (· ≤ ·) log job router st x) : InStep log job router (st.setWriter w x) where
  follows := h.follows
  reached := h.reached
  furthest := h.furthest
  sent := h.sent
  staged := h.staged
  writers := st.setWriter_forall (hx.mono (fun _ _ hr => hr) le_rfl)
    fun v _ => (h.writers v).mono (fun _ _ hr => hr) le_rfl

lemma InStep.setShard (h : InStep log job router st) {s : Ingest T}
    (hf : Follows (share log router i) (endOf log job.table i) (fun _ => True) s)
    (hle : position (st.shards i).checkpoint ≤ position s.checkpoint)
    (hhead : position s.checkpoint ≤ placeOf log st.head) (hfar : s.furthest ≤ placeOf log st.head)
    (hstaged : ∀ r ∈ s.staged, i < router.shards ∧ position r.fromCheckpoint ≤ position s.checkpoint ∧
      position (some r.checkpoint) ≤ placeOf log st.head) :
    InStep log job router (st.setShard i s) := by
  have hcp := st.setShard_forall (P := fun j s => position (st.shards j).checkpoint ≤ position s.checkpoint)
    hle fun _ _ => le_rfl
  refine ⟨st.setShard_forall (P := fun j s => j < router.shards → Follows (share log router j) _ _ s)
      (fun _ => hf) fun j _ => h.follows j,
    st.setShard_forall (P := fun j s => j < router.shards → position s.checkpoint ≤ _) (fun _ => hhead)
      fun j _ => h.reached j,
    st.setShard_forall (P := fun j s => j < router.shards → s.furthest ≤ _) (fun _ => hfar) fun j _ => h.furthest j,
    fun e he => ?_,
    st.setShard_forall (P := fun j s => ∀ r ∈ s.staged, j < router.shards ∧
      position r.fromCheckpoint ≤ position s.checkpoint ∧ position (some r.checkpoint) ≤ placeOf log st.head)
      hstaged fun j _ => h.staged j,
    fun w => (h.writers w).mono (fun i _ hr => hr.trans (hcp i)) le_rfl⟩
  obtain ⟨hlt, hcov, hfrom, hend⟩ := h.sent e he
  exact ⟨hlt, hcov, hfrom.trans (hcp e.1), hend⟩

lemma writerOk_start (chunk : Nat → Nat) (hbot : ∀ p, reach ⊥ p) :
    WriterOk reach log job router (Ingesting.start (T := T) chunk) ((Ingesting.start (T := T) chunk).writers n) := by
  have hbehind : Behind reach log (Ingesting.start (T := T) chunk) router.shards [] none :=
    ⟨fun x hx => (nomatch hx), fun i _ _ => hbot _⟩
  exact ⟨hbehind, hbehind, bot_le, bot_le, fun hp => absurd rfl hp, fun e he => absurd he not_mem_nil⟩

lemma inStep_start (chunk : Nat → Nat) : InStep log job router (Ingesting.start (T := T) chunk) where
  follows i _ := Follows.start _
  reached i _ := bot_le
  furthest i _ := bot_le
  sent e he := absurd he not_mem_nil
  staged i r hr := absurd hr not_mem_nil
  writers w := writerOk_start chunk fun _ => bot_le

lemma WriterOk.fail (h : WriterOk reach log job router st w) : WriterOk reach log job router st w.fail :=
  ⟨h.resumed, h.resumed, h.resumed_le, h.resumed_le, fun hp => absurd rfl hp, h.acked⟩

omit [DecidableEq K] in
lemma mem_parts : e ∈ w.parts router log job c ↔ e.1 < router.shards ∧ e.1 ∈ w.owned router ∧
      e.2 = ShardedWriteClient.part router (job.toBatch log w.cursor c) e.1 := by
  rw [Writer.parts, List.mem_filter, decide_eq_true_iff, ShardedWriteClient.partition, List.mem_map]
  constructor
  · rintro ⟨⟨i, hi, rfl⟩, howned⟩
    exact ⟨List.mem_range.mp hi, howned, rfl⟩
  · rintro ⟨hi, howned, hpart⟩
    exact ⟨⟨e.1, List.mem_range.mpr hi, Prod.ext rfl hpart.symm⟩, howned⟩

omit [DecidableEq K] in
lemma part_mem (hlt : i < router.shards) (hi : i ∈ w.owned router) (c : Commit K) :
    (i, part router (job.toBatch log w.cursor c) i) ∈ w.parts router log job c :=
  mem_parts.mpr ⟨hlt, hi, rfl⟩

omit [DecidableEq K] in
lemma Writer.keeps_owned (hi : i ∈ w.owned router)
    (hk : router.route k = i) : w.keeps router k := by
  unfold Writer.keeps Writer.owned at *
  cases hg : w.group with
  | none => rfl
  | some owned =>
    rw [hg] at hi
    exact decide_eq_true (hk ▸ hi)

section

variable (hlog : Numbered log)
include hlog

/-- Where a connector resumes, none of its shards is before; it resumes at the start if it has none. -/
lemma resumeMin_behind (shards : Nat)
    (hhas : ∀ i ∈ owned, ∀ c, (st.shards i).checkpoint = some c → log.Has c) :
    Behind (· ≤ ·) log st shards owned (st.resumeMin log owned) ∧
      ∀ p, (∀ i ∈ owned, position (st.shards i).checkpoint ≤ p) → placeOf log (st.resumeMin log owned) ≤ p := by
  have hstart : Behind (· ≤ ·) log st shards owned none ∧ ∀ p,
      (∀ i ∈ owned, position (st.shards i).checkpoint ≤ p) → placeOf log none ≤ p :=
    ⟨⟨fun x hx => (nomatch hx), fun i _ _ => bot_le⟩, fun _ _ => bot_le⟩
  unfold Ingesting.resumeMin resumeMin
  split
  · exact hstart
  · rename_i cps hcps
    obtain ⟨hto, hfrom⟩ := mem_of_mapM_some hcps
    have hof : ∀ x ∈ cps, ∃ i ∈ owned, ∃ c, (st.shards i).checkpoint = some c ∧ x = .ofSource c := by
      intro x hx
      obtain ⟨cp, hcp, hx⟩ := hfrom x hx
      obtain ⟨i, hi, rfl⟩ := mem_map.mp hcp
      obtain ⟨c, hc, rfl⟩ := map_eq_some_iff.mp hx
      exact ⟨i, hi, c, hc, rfl⟩
    cases hmin : resumeMinOf cps (sequenceOf log) with
    | none => exact hstart
    | some id =>
      obtain ⟨s, hs, rfl, hleast⟩ := resumeMinOf_least hlog (fun x hx => by
        obtain ⟨i, hi, c, hc, rfl⟩ := hof x hx
        exact ⟨c, hhas i hi c hc, rfl⟩) hmin
      have hle : ∀ i ∈ owned, placeOf log (some s.snapshotId) ≤ position (st.shards i).checkpoint := by
        intro i hi
        obtain ⟨x, hx, hcp⟩ := hto _ (mem_map_of_mem hi)
        obtain ⟨c, hc, rfl⟩ := map_eq_some_iff.mp hcp
        rw [placeOf_eq hlog hs, hc]
        exact hleast c (hhas i hi c hc) hx
      refine ⟨⟨fun x hx => ⟨s, hs, some.inj hx⟩, fun i hi _ => hle i hi⟩, fun p hp => ?_⟩
      cases cps with
      | nil => cases hmin
      | cons x rest =>
        obtain ⟨i, hi, -⟩ := hof x mem_cons_self
        exact (hle i hi).trans (hp i hi)

lemma writerOk_idle (hreach : ∀ a b, a ≤ b → reach a b) (group : Option (List Nat))
    (hhas : ∀ i ∈ group.getD (List.range router.shards), ∀ c, (st.shards i).checkpoint = some c → log.Has c)
    (hreached : ∀ i ∈ group.getD (List.range router.shards), position (st.shards i).checkpoint ≤ placeOf log st.head) :
    WriterOk reach log job router st (.idle group (st.resumeMin log (group.getD (List.range router.shards)))) := by
  obtain ⟨⟨hknown, hplace⟩, hle⟩ := resumeMin_behind hlog router.shards hhas
  have hbehind : Behind reach log st router.shards _ _ := ⟨hknown, fun i hi hlt => hreach _ _ (hplace i hi hlt)⟩
  exact ⟨hbehind, hbehind, hle _ hreached, hle _ hreached, fun hp => absurd rfl hp, fun e he => (nomatch he)⟩

lemma InStep.started (h : InStep log job router st) (w : Nat)
    (hgroup : ∀ owned, group = some owned → ∀ i ∈ owned, i < router.shards) :
    InStep log job router (st.resume log router w group) := by
  have hrange : ∀ i ∈ group.getD (List.range router.shards), i < router.shards := by
    cases hg : group with
    | none => exact fun i hi => mem_range.mp hi
    | some owned => exact hgroup owned hg
  exact h.setWriter w (writerOk_idle hlog (fun _ _ hle => hle) group
    (fun i hi c hc => has_restrict.mp ((h.follows i (hrange i hi)).has c hc))
    fun i hi => h.reached i (hrange i hi))

omit [DecidableEq K] in
lemma place_lt_of_new (hknown : ∀ x, cursor = some x → ∃ t ∈ log.snapshots, t.snapshotId = x)
    (hs : s ∈ log.snapshots) (hnew : cursor ≠ some s.snapshotId)
    (hle : placeOf log cursor ≤ placeOf log (some s.snapshotId)) :
    placeOf log cursor < placeOf log (some s.snapshotId) := by
  refine lt_of_le_of_ne hle fun heq => hnew ?_
  cases cursor with
  | none =>
    rw [placeOf_eq hlog hs] at heq
    exact absurd heq.symm WithBot.coe_ne_bot
  | some x =>
    obtain ⟨t, ht, rfl⟩ := hknown x rfl
    rw [placeOf_eq hlog hs, placeOf_eq hlog ht, WithBot.coe_inj] at heq
    rw [(id_eq_iff ht hs).mpr heq]

lemma WriterOk.trigger (h : WriterOk reach log job router st w)
    (hs : s ∈ log.snapshots) (hhead : placeOf log (some s.snapshotId) ≤ placeOf log st.head)
    (new : w.cursor ≠ some s.snapshotId) (ancestor : placeOf log w.cursor ≤ placeOf log (some s.snapshotId)) :
    WriterOk reach log job router st (w.trigger router log job s.snapshotId) := by
  have hforward := place_lt_of_new hlog h.reading.known hs new ancestor
  exact { h with planned := fun _ => ⟨s, hs, rfl, hhead, _, planned_streamCommits hlog _ hforward, h.reading⟩ }

lemma InStep.triggered (h : InStep log job router st) (w : Nat)
    (hs : s ∈ log.snapshots) (later : placeOf log st.head ≤ placeOf log (some s.snapshotId))
    (new : (st.writers w).cursor ≠ some s.snapshotId)
    (ancestor : placeOf log (st.writers w).cursor ≤ placeOf log (some s.snapshotId)) :
    InStep log job router (st.trigger log job router w s.snapshotId) := by
  have hahead : InStep log job router { st with head := some s.snapshotId } := by
    refine ⟨h.follows, fun i hi => (h.reached i hi).trans later, fun i hi => (h.furthest i hi).trans later, ?_, ?_,
      fun v => (h.writers v).mono (fun _ _ hr => hr) later⟩
    · intro e he
      obtain ⟨hlt, hcov, hfrom, hend⟩ := h.sent e he
      exact ⟨hlt, hcov, hfrom, hend.trans later⟩
    · intro i r hr
      obtain ⟨hlt, hfrom, hend⟩ := h.staged i r hr
      exact ⟨hlt, hfrom, hend.trans later⟩
  exact hahead.setWriter w ((hahead.writers w).trigger hlog hs le_rfl new ancestor)

lemma InStep.sends (hapart : KeysApart log job) (h : InStep log job router st) (w : Nat)
    (next : (st.writers w).pending = c :: rest) :
    InStep log job router (st.send log job router w c) := by
  have hw := h.writers w
  obtain ⟨t, ht, -, htop, start, hplan, hstart⟩ := hw.planned (by simp [next])
  rw [next] at hplan
  obtain ⟨s, hs, rfl, hforward, hle, -⟩ := hplan.next ht
  have hset := h.setWriter w (x := { st.writers w with acked := [] }) { hw with acked := fun e he => (nomatch he) }
  refine ⟨hset.follows, hset.reached, hset.furthest, fun e he => ?_, hset.staged,
    fun v => (hset.writers v).mono (fun _ _ hr => hr) le_rfl⟩
  rcases mem_append.mp he with he | he
  · exact hset.sent e he
  · obtain ⟨hi, howned, hpart⟩ := mem_parts.mp he
    rw [hpart]
    refine ⟨hi, covers_part hlog hapart hs hstart.known hforward fun k hk => Writer.keeps_owned howned hk, ?_, ?_⟩
    · exact hstart.le e.1 howned hi
    · exact hle.trans htop

end

lemma WriterOk.ack {id : String} (h : WriterOk reach log job router st w)
    (hend : reach (position (some (endOf log job.table i id))) (position (st.shards i).checkpoint)) :
    WriterOk reach log job router st { w with acked := (i, id) :: w.acked } := by
  refine { h with acked := fun e he => ?_ }
  rcases mem_cons.mp he with rfl | he
  · exact hend
  · exact h.acked e he

lemma WriterOk.answer (h : WriterOk reach log job router st w) (next : w.pending = c :: rest)
    (acks : ∀ e ∈ w.parts router log job c, (e.1, e.2.batchId) ∈ w.acked) :
    WriterOk reach log job router st (w.answer rest) := by
  obtain ⟨t, ht, hcur, htop, start, hplan, hstart⟩ := h.planned (by simp [next])
  rw [next] at hplan
  obtain ⟨s, hs, rfl, -, hle, hrest⟩ := hplan.next ht
  have hbehind : Behind reach log st router.shards (w.owned router) (some s.snapshotId) := by
    refine ⟨fun x hx => ⟨s, hs, some.inj hx⟩, fun i hi hlt => ?_⟩
    have hack := h.acked _ (acks _ (part_mem hlt hi _))
    change reach (position (some (endOf log job.table i
      (batchId job.table start s.snapshotId ++ "#s" ++ toString i)))) _ at hack
    rwa [endOf_part] at hack
  rcases hrest with ⟨rfl, rfl⟩ | ⟨hne, htail⟩
  · refine { h with reading := ?_, reading_le := ?_, planned := fun hp => absurd rfl hp }
    · rwa [Writer.answer, if_pos rfl, hcur]
    · rwa [Writer.answer, if_pos rfl, hcur]
  · refine { h with reading := ?_, reading_le := ?_, planned := fun _ => ⟨t, ht, hcur, htop, _, htail, hbehind⟩ }
    · rw [Writer.answer, if_neg hne]
      exact h.reading
    · rw [Writer.answer, if_neg hne]
      exact h.reading_le

section

variable (h : InStep log job router st)
include h

lemma InStep.staging {e : Nat × CommitBatch K} {order : HashOrder (K × DocOp K)} (he : e ∈ st.sent)
    (ok : (st.shards e.1).shard.stageBatch order e.2 = .ok r) : InStep log job router (st.stage e.1 r) := by
  obtain ⟨hlt, hcov, hfrom, hend⟩ := h.sent e he
  obtain ⟨hcp, hf, -, -⟩ := Shard.stageBatch_ok ok
  refine h.setShard ((h.follows e.1 hlt).stage (hcov.feeds hfrom) ok) le_rfl (h.reached e.1 hlt)
    (h.furthest e.1 hlt) ?_
  intro r' hr'
  rcases mem_cons.mp hr' with rfl | hr'
  · exact ⟨hlt, hf ▸ hfrom, hcp ▸ hend⟩
  · exact h.staged e.1 r' hr'

lemma InStep.commits {shard : Shard T}
    (held : r ∈ (st.shards i).staged) (ok : (st.shards i).shard.commitStaged [r] = .ok (shard, n)) :
    InStep log job router (st.commit i shard) ∧
      position (some (endOf log job.table i r.batchId)) ≤ position shard.redb.checkpoint := by
  obtain ⟨hlt, -, hend⟩ := h.staged i r held
  have hf := h.follows i hlt
  obtain ⟨hf', hle, hreach, hcp⟩ := hf.commit held ok
  have hhead : position shard.redb.checkpoint ≤ placeOf log st.head := by
    rcases hcp with hcp | hcp
    · rw [hcp]
      exact h.reached i hlt
    · rwa [hcp]
  refine ⟨h.setShard hf' hle hhead (h.furthest i hlt) fun r' hr' => ?_, ?_⟩
  · obtain ⟨-, hfrom', hend'⟩ := h.staged i r' hr'
    exact ⟨hlt, hfrom'.trans hle, hend'⟩
  · rwa [(hf.staged r held).named]

lemma InStep.acknowledges (w : Nat) (held : r ∈ (st.shards i).staged)
    (ok : (st.shards i).shard.commitStaged [r] = .ok (shard, n)) :
    InStep log job router ((st.commit i shard).ack w i r) := by
  obtain ⟨h', hend⟩ := h.commits held ok
  refine h'.setWriter w ((h'.writers w).ack ?_)
  rwa [Ingesting.commit, Ingesting.setShard_self]

lemma InStep.crashes {plan : Plan K} (stop : Nat) (held : r ∈ (st.shards i).staged)
    (ok : (st.shards i).shard.commitPlan [r] = .ok (plan, n)) :
    InStep log job router (st.crash i r plan stop) := by
  obtain ⟨hlt, -, hend⟩ := h.staged i r held
  obtain ⟨hf', hle, hcp⟩ := (h.follows i hlt).crash held ok stop
  refine h.setShard hf' hle ?_ (max_le (h.furthest i hlt) ?_) fun r' hr' => (nomatch hr')
  · rcases hcp with hcp | hcp
    · rw [Ingest.checkpoint, hcp]
      exact h.reached i hlt
    · rwa [Ingest.checkpoint, hcp]
  · exact (commitEnd_le _ _).trans hend

end

def InRange (router : KeyRouter K) (groups : Option (List Nat) → Prop) : Prop :=
  ∀ owned, groups (some owned) → ∀ i ∈ owned, i < router.shards

variable {groups : Option (List Nat) → Prop}

structure Deployed (log : Changelog K) (job : Job K) (router : KeyRouter K)
    (groups : Option (List Nat) → Prop) : Prop where
  numbered : Numbered log
  apart : KeysApart log job
  inRange : InRange router groups

lemma InStep.step (hd : Deployed log job router groups)
    (h : InStep log job router st) (hs : Ingesting.Step log job router groups st st') :
    InStep log job router st' := by
  cases hs with
  | started w hg => exact h.started hd.numbered w fun owned heq => hd.inRange owned (heq ▸ hg)
  | failed w => exact h.setWriter w (h.writers w).fail
  | triggered w _ hs later new ancestor => exact h.triggered hd.numbered w hs later new ancestor
  | sent w next => exact h.sends hd.numbered hd.apart w next
  | staged he ok => exact h.staging he ok
  | committed held ok => exact (h.commits held ok).1
  | acknowledged w held ok => exact h.acknowledges w held ok
  | crashed held ok => exact h.crashes _ held ok
  | answered w next acks => exact h.setWriter w ((h.writers w).answer next acks)

lemma Ingesting.Reached.inStep (hd : Deployed log job router groups)
    (hr : Ingesting.Reached log job router groups chunk st) : InStep log job router st := by
  induction hr with
  | start => exact inStep_start chunk
  | step _ hs ih => exact ih.step hd hs

end GrowlerDB.Connector
