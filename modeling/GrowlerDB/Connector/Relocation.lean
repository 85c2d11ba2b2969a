import GrowlerDB.Connector.Relocating
import GrowlerDB.Connector.ShardedIngest

namespace GrowlerDB.Connector
open Core Engine Index Lib Replay List Option Function Relocating

variable {rebuilt : Nat → Option Int} {w : Nat} {v : MapVersion} {id : String}

variable {K : Type} [DecidableEq K] {T : Tantivy K (Document K)} {log : Changelog K} {job : Job K}
  {r : Relocation K} {reads : SourceReads log} {st : Relocating T}

/-- Of the rows in the window of a commit, those of buckets that move to the shard are not newer than
the snapshot `stamp`. -/
def Passes (log : Changelog K) (r : Relocation K) (i : Nat) (stamp : Int) (c : Commit K) : Prop :=
  ∀ row ∈ changelog log c.fromExclusive c.checkpointSnapshot, r.new.route row.op.key = i →
    r.old.route row.op.key ≠ i → placeOf log (some row.commitSnapshotId) ≤ placeOf log (some stamp)

instance (i : Nat) (stamp : Int) (c : Commit K) : Decidable (Passes log r i stamp c) :=
  inferInstanceAs (Decidable (∀ row ∈ changelog log c.fromExclusive c.checkpointSnapshot, _))

def Generation.stampAt (reads : SourceReads log) (g : Generation T) (head : Int) : Int :=
  if reads.appendFastPath then head else g.stamp

/-- No commit sent by the old map has a row of a moved bucket newer than the rebuild of the bucket's new shard: not
when it is sent after the rebuild, and not when the rebuilt shard is swapped in after it. -/
def Relocating.Undisturbed (log : Changelog K) (r : Relocation K) (reads : SourceReads log)
    (st : Relocating T) : MoveEvent K → Prop
  | .sends w => st.maps w = .old → ∀ c ∈ (st.ingest.writers w).pending.head?,
      ∀ i < r.old.shards, ∀ stamp ∈ st.rebuilt i, Passes log r i stamp c
  | .promotes i _ head => i < r.old.shards → ∀ g ∈ st.staging i, ∀ c ∈ st.stale,
      Passes log r i (g.stampAt reads head) c
  | _ => True

/-- The keys a shard answers for: those the new map gives it, and where they moved there, once it has
been rebuilt. -/
def Serves (r : Relocation K) (rebuilt : Nat → Option Int) (i : Nat) (k : K) : Prop :=
  r.new.route k = i ∧ (r.old.route k = i ∨ (rebuilt i).isSome)

/-- What is past the start stays past it. -/
def Begun (a p : WithBot Int) : Prop := a ≠ ⊥ → p ≠ ⊥

/-- A part in flight: it brings the keys that the map of its connector gives its shard to its end, and
has nothing of the others. -/
structure SentBy (log : Changelog K) (job : Job K) (r : Relocation K) (st : Ingesting T) (stale : List (Commit K))
    (v : MapVersion) (e : Nat × CommitBatch K) : Prop where
  hasEnd : log.Has e.2.checkpoint
  hasFrom : ∀ f, e.2.fromCheckpoint = some f → log.Has f
  named : endOf log job.table e.1 e.2.batchId = e.2.checkpoint
  started : Begun (position e.2.fromCheckpoint) (position (st.shards e.1).checkpoint)
  ended : position (some e.2.checkpoint) ≤ placeOf log st.head
  inMap : e.1 < (r.map v).shards
  window : ∀ k, (r.map v).route k = e.1 → lastChange e.2.changes k =
    lastChange (between log.entries (position e.2.fromCheckpoint) (position (some e.2.checkpoint))) k
  others : ∀ k, (r.map v).route k ≠ e.1 → lastChange e.2.changes k = none
  known : v = .old → ∃ c ∈ stale, position e.2.fromCheckpoint = placeOf log c.fromExclusive ∧
    position (some e.2.checkpoint) = placeOf log (some c.checkpointSnapshot)

structure StagingSound (log : Changelog K) (r : Relocation K) (head : Option Int) (i : Nat)
    (g : Generation T) : Prop where
  rows : ∃ s ∈ log.snapshots, ∃ t ∈ log.snapshots, g.stamp = s.snapshotId ∧ g.scanned = t.snapshotId ∧
    s.sequenceNumber ≤ t.sequenceNumber ∧ Rebuilt log (Relocating.owns r i) s t g.shard
  plain : ∀ id ∈ g.shard.redb.batchKeys.map Prod.fst, 'c' ∉ id.toList
  seen : placeOf log (some g.scanned) ≤ placeOf log head

structure MoveSound (log : Changelog K) (job : Job K) (r : Relocation K) (st : Relocating T) : Prop where
  follows : ∀ i, Follows log (endOf log job.table i) (Serves r st.rebuilt i) (st.ingest.shards i)
  reached : ∀ i, position (st.ingest.shards i).checkpoint ≤ placeOf log st.ingest.head
  furthest : ∀ i, (st.ingest.shards i).furthest ≤ placeOf log st.ingest.head
  sent : ∀ e ∈ st.ingest.sent, ∃ v, SentBy log job r st.ingest st.stale v e
  staged : ∀ i, ∀ ref ∈ (st.ingest.shards i).staged, position (some ref.checkpoint) ≤ placeOf log st.ingest.head
  writers : ∀ w, WriterOk Begun log job (st.routerOf r w) st.ingest (st.ingest.writers w)
  rebuilds : ∀ i stamp, st.rebuilt i = some stamp → placeOf log (some stamp) ≠ ⊥ ∧
    placeOf log (some stamp) ≤ position (st.ingest.shards i).checkpoint ∧
      (i < r.old.shards → ∀ c ∈ st.stale, Passes log r i stamp c)
  staging : ∀ i g, st.staging i = some g → StagingSound log r st.ingest.head i g
  adopted : ∀ w, st.maps w = .new → st.published = .new
  published : st.published = .new → ∀ i ∈ r.build, (st.rebuilt i).isSome

variable {i : Nat}

lemma Passes.quiet (hlog : Numbered log) (h : Passes log r i stamp c)
    (hnew : r.new.route k = i) (hold : r.old.route k ≠ i) :
    lastChange (between log.entries (max (placeOf log c.fromExclusive) (placeOf log (some stamp)))
      (placeOf log (some c.checkpointSnapshot))) k = none := by
  refine lastChange_eq_none.mpr ?_
  rintro ch hch rfl
  obtain ⟨⟨p, ch⟩, hin, rfl⟩ := mem_map.mp hch
  obtain ⟨hentry, hwindow⟩ := mem_filter.mp hin
  rw [entries_eq_rows] at hentry
  obtain ⟨⟨seq, row⟩, hrow, heq⟩ := mem_map.mp hentry
  obtain ⟨rfl, rfl⟩ := Prod.mk.inj heq
  simp only [Bool.and_eq_true, decide_eq_true_eq, max_lt_iff] at hwindow
  obtain ⟨⟨hfrom, hstamp⟩, hend⟩ := hwindow
  have hmem : row ∈ changelog log c.fromExclusive c.checkpointSnapshot :=
    mem_map.mpr ⟨(seq, row), mem_filter.mpr ⟨hrow, by simp [hfrom, hend]⟩, rfl⟩
  rw [DocOp.change_key] at hnew hold
  have hle := h row hmem hnew hold
  rw [place_of_row hlog hrow] at hle
  exact absurd hstamp (not_lt.mpr hle)

variable {e : Nat × CommitBatch K}

omit [DecidableEq K] in
lemma ne_bot_of_has (h : log.Has c) : position (some c) ≠ ⊥ := by
  obtain ⟨seq, -, hseq⟩ := h.position
  rw [hseq]
  exact WithBot.coe_ne_bot

lemma MoveSound.feeds (hlog : Numbered log) (h : MoveSound log job r st)
    (he : SentBy log job r st.ingest st.stale v e) :
    Feeds log (endOf log job.table e.1) (Serves r st.rebuilt e.1)
      (position (st.ingest.shards e.1).checkpoint) e.2 where
  hasEnd := he.hasEnd
  hasFrom := he.hasFrom
  named := he.named
  boot := by
    intro hbot
    by_contra hfrom
    obtain ⟨f, hf⟩ := ne_none_iff_exists'.mp hfrom
    refine he.started ?_ hbot
    rw [hf]
    exact ne_bot_of_has (he.hasFrom f hf)
  brings := by
    rintro k ⟨hnew, hkept⟩
    by_cases hroute : (r.map v).route k = e.1
    · exact ⟨_, le_max_left _ _, he.window k hroute⟩
    · -- only the old map sends the key elsewhere, and then the shard was rebuilt with its rows
      cases v with
      | new => exact absurd hnew hroute
      | old =>
        obtain ⟨stamp, hstamp⟩ := isSome_iff_exists.mp (hkept.resolve_left hroute)
        obtain ⟨-, hsince, hpassed⟩ := h.rebuilds e.1 stamp hstamp
        obtain ⟨c, hc, hfrom, hend⟩ := he.known rfl
        refine ⟨max (position e.2.fromCheckpoint) (placeOf log (some stamp)), max_le_max le_rfl hsince, ?_⟩
        rw [he.others k hroute, hfrom, hend, (hpassed he.inMap c hc).quiet hlog hnew hroute]

variable {st' : Ingesting T}

lemma SentBy.mono {st : Ingesting T} {stale stale' : List (Commit K)} (h : SentBy log job r st stale v e)
    (hcp : ∀ i a, Begun a (position (st.shards i).checkpoint) → Begun a (position (st'.shards i).checkpoint))
    (hhead : placeOf log st.head ≤ placeOf log st'.head) (hstale : ∀ c ∈ stale, c ∈ stale') :
    SentBy log job r st' stale' v e where
  hasEnd := h.hasEnd
  hasFrom := h.hasFrom
  named := h.named
  started := hcp e.1 _ h.started
  ended := h.ended.trans hhead
  inMap := h.inMap
  window := h.window
  others := h.others
  known hv := by
    obtain ⟨c, hc, hwindow⟩ := h.known hv
    exact ⟨c, hstale c hc, hwindow⟩

lemma StagingSound.mono {head head' : Option Int} (h : StagingSound log r head i g)
    (hhead : placeOf log head ≤ placeOf log head') : StagingSound log r head' i g :=
  ⟨h.rows, h.plain, h.seen.trans hhead⟩

section

variable (h : MoveSound log job r st)
include h

lemma MoveSound.advance {head : Option Int}
    (hle : placeOf log st.ingest.head ≤ placeOf log head) :
    MoveSound log job r { st with ingest := { st.ingest with head := head } } where
  follows := h.follows
  reached i := (h.reached i).trans hle
  furthest i := (h.furthest i).trans hle
  sent e he := by
    obtain ⟨v, hv⟩ := h.sent e he
    exact ⟨v, hv.mono (fun _ _ hr => hr) hle (fun _ hc => hc)⟩
  staged i ref href := (h.staged i ref href).trans hle
  writers w := (h.writers w).mono (fun _ _ hr => hr) hle
  rebuilds := h.rebuilds
  staging i g hg := (h.staging i g hg).mono hle
  adopted := h.adopted
  published := h.published

lemma MoveSound.assign {x : Writer K} {maps : Nat → MapVersion}
    (hmaps : ∀ v ≠ w, maps v = st.maps v) (hadopt : maps w = .new → st.published = .new)
    (hx : WriterOk Begun log job (r.map (maps w)) st.ingest x) :
    MoveSound log job r { st with ingest := st.ingest.setWriter w x, maps := maps } where
  follows := h.follows
  reached := h.reached
  furthest := h.furthest
  sent e he := by
    obtain ⟨v, hv⟩ := h.sent e he
    exact ⟨v, hv.mono (fun _ _ hr => hr) le_rfl (fun _ hc => hc)⟩
  staged := h.staged
  writers := by
    refine st.ingest.setWriter_forall (P := fun v x => WriterOk Begun log job (r.map (maps v)) _ x)
      (hx.mono (fun _ _ hr => hr) le_rfl) fun v hv => ?_
    rw [hmaps v hv]
    exact (h.writers v).mono (fun _ _ hr => hr) le_rfl
  rebuilds := h.rebuilds
  staging := h.staging
  adopted v hv := by
    by_cases hvw : v = w
    · subst hvw
      exact hadopt hv
    · exact h.adopted v ((hmaps v hvw).symm.trans hv)
  published := h.published

lemma MoveSound.setWriter (w : Nat)
    (hx : WriterOk Begun log job (st.routerOf r w) st.ingest x) :
    MoveSound log job r { st with ingest := st.ingest.setWriter w x } :=
  h.assign (fun _ _ => rfl) (h.adopted w) hx

/-- One shard is changed or replaced; nothing else is, but that it may have been rebuilt. -/
lemma MoveSound.replace {s : Ingest T}
    {staging : Nat → Option (Generation T)} (hrebuilt : ∀ j ≠ i, rebuilt j = st.rebuilt j)
    (hkept : (st.rebuilt i).isSome → (rebuilt i).isSome)
    (hstaging : ∀ j g, staging j = some g → st.staging j = some g)
    (hf : Follows log (endOf log job.table i) (Serves r rebuilt i) s)
    (hstart : position (st.ingest.shards i).checkpoint ≠ ⊥ → position s.checkpoint ≠ ⊥)
    (hhead : position s.checkpoint ≤ placeOf log st.ingest.head) (hfar : s.furthest ≤ placeOf log st.ingest.head)
    (hstaged : ∀ ref ∈ s.staged, position (some ref.checkpoint) ≤ placeOf log st.ingest.head)
    (hnow : ∀ stamp, rebuilt i = some stamp → placeOf log (some stamp) ≠ ⊥ ∧
      placeOf log (some stamp) ≤ position s.checkpoint ∧
      (i < r.old.shards → ∀ c ∈ st.stale, Passes log r i stamp c)) :
    MoveSound log job r { st with ingest := st.ingest.setShard i s, rebuilt := rebuilt, staging := staging } := by
  have hcp := st.ingest.setShard_forall (P := fun j s => ∀ a, Begun a (position (st.ingest.shards j).checkpoint) →
    Begun a (position s.checkpoint)) (fun a hb ha => hstart (hb ha)) fun _ _ _ hj => hj
  refine ⟨st.ingest.setShard_forall hf fun j hji => ?_,
    st.ingest.setShard_forall (P := fun _ s => position s.checkpoint ≤ _) hhead fun j _ => h.reached j,
    st.ingest.setShard_forall (P := fun _ s => s.furthest ≤ _) hfar fun j _ => h.furthest j,
    fun e he => ?_,
    st.ingest.setShard_forall (P := fun _ s => ∀ ref ∈ s.staged, position (some ref.checkpoint) ≤ _)
      hstaged fun j _ => h.staged j,
    fun w => (h.writers w).mono hcp le_rfl,
    st.ingest.setShard_forall (P := fun j s => ∀ stamp, rebuilt j = some stamp →
      placeOf log (some stamp) ≠ ⊥ ∧ placeOf log (some stamp) ≤ position s.checkpoint ∧
        (j < r.old.shards → ∀ c ∈ st.stale, Passes log r j stamp c)) hnow fun j hji stamp hj => ?_,
    fun j g hg => h.staging j g (hstaging j g hg), h.adopted, fun hnew j hj => ?_⟩
  · rw [show Serves r rebuilt j = Serves r st.rebuilt j by unfold Serves; rw [hrebuilt j hji]]
    exact h.follows j
  · obtain ⟨v, hv⟩ := h.sent e he
    exact ⟨v, hv.mono hcp le_rfl (fun _ hc => hc)⟩
  · exact h.rebuilds j stamp ((hrebuilt j hji).symm.trans hj)
  · by_cases hji : j = i
    · subst hji
      exact hkept (h.published hnew j hj)
    · change (rebuilt j).isSome
      rw [hrebuilt j hji]
      exact h.published hnew j hj

lemma MoveSound.setShard
    (hf : Follows log (endOf log job.table i) (Serves r st.rebuilt i) s)
    (hle : position (st.ingest.shards i).checkpoint ≤ position s.checkpoint)
    (hhead : position s.checkpoint ≤ placeOf log st.ingest.head) (hfar : s.furthest ≤ placeOf log st.ingest.head)
    (hstaged : ∀ ref ∈ s.staged, position (some ref.checkpoint) ≤ placeOf log st.ingest.head) :
    MoveSound log job r { st with ingest := st.ingest.setShard i s } := by
  refine h.replace (fun _ _ => rfl) (fun hsome => hsome) (fun _ _ hg => hg) hf
    (fun hne => ne_bot_of_le_ne_bot hne hle) hhead hfar hstaged fun stamp hstamp => ?_
  obtain ⟨hknown, hsince, hpassed⟩ := h.rebuilds i stamp hstamp
  exact ⟨hknown, hsince.trans hle, hpassed⟩

end

lemma moveSound_start (chunk : Nat → Nat) : MoveSound log job r (start (T := T) chunk) where
  follows i := Follows.start _
  reached i := bot_le
  furthest i := bot_le
  sent e he := absurd he not_mem_nil
  staged i ref href := absurd href not_mem_nil
  writers w := writerOk_start chunk fun _ hne => absurd rfl hne
  rebuilds i stamp hi := absurd hi (some_ne_none stamp).symm
  staging i g hg := absurd hg (some_ne_none g).symm
  adopted w hw := hw
  published hnew := by cases hnew

omit [DecidableEq K] in
lemma mem_of_snapshotOf {id : Int} (h : snapshotOf log id = some s) : s ∈ log.snapshots ∧ s.snapshotId = id := by
  have hid := List.find?_some h
  exact ⟨mem_of_find?_eq_some h, of_decide_eq_true hid⟩

omit [DecidableEq K] in
lemma place_ne_bot (hlog : Numbered log) (hs : s ∈ log.snapshots) : placeOf log (some s.snapshotId) ≠ ⊥ := by
  rw [placeOf_eq hlog hs]
  exact WithBot.coe_ne_bot

section

variable (h : MoveSound log job r st)
include h

section

variable (hlog : Numbered log)
include hlog

lemma MoveSound.starts (w : Nat) (group : Option (List Nat))
    (hv : version = .old ∨ st.published = .new) :
    MoveSound log job r { st with
      ingest := st.ingest.resume log (r.map version) w group
      maps := update st.maps w version } := by
  refine h.assign (fun v hv => update_of_ne hv _ _) (fun hnew => ?_) ?_
  · rw [update_self] at hnew
    exact hv.resolve_left (by rw [hnew]; decide)
  · rw [update_self]
    exact writerOk_idle hlog (fun _ _ hle hne => ne_bot_of_le_ne_bot hne hle) group (fun i _ => (h.follows i).has)
      fun i _ => h.reached i

lemma MoveSound.triggers (w : Nat) (snapshot : Int) :
    MoveSound log job r (st.trigger log job r w snapshot) := by
  unfold trigger
  split
  · exact h
  · rename_i s hs
    obtain ⟨hmem, rfl⟩ := mem_of_snapshotOf hs
    split_ifs with hguard
    · obtain ⟨-, later, new, ancestor⟩ := hguard
      have hahead := h.advance later
      exact hahead.setWriter w ((hahead.writers w).trigger hlog hmem le_rfl new ancestor)
    · exact h

lemma sentBy_parts (hapart : KeysApart log job)
    (next : (st.ingest.writers w).pending = c :: rest)
    (he : e ∈ (st.ingest.writers w).parts (st.routerOf r w) log job c)
    {stale : List (Commit K)} (hstale : st.maps w = .old → c ∈ stale) :
    SentBy log job r st.ingest stale (st.maps w) e := by
  obtain ⟨t, ht, -, htop, start, hplan, hstart⟩ := (h.writers w).planned (by simp [next])
  rw [next] at hplan
  obtain ⟨s, hs, rfl, hforward, hle, -⟩ := hplan.next ht
  obtain ⟨hi, howned, hpart⟩ := mem_parts.mp he
  have hcover : Covers (share log (st.routerOf r w) e.1) (endOf log job.table e.1) e.2 := by
    rw [hpart]
    exact covers_part hlog hapart hs hstart.known hforward fun k hk => Writer.keeps_owned howned hk
  have hfrom : e.2.fromCheckpoint = start.map (checkpointOf log) := by
    rw [hpart]
    rfl
  have hend : e.2.checkpoint = checkpointOf log s.snapshotId := by
    rw [hpart]
    rfl
  refine ⟨Changelog.has_restrict.mp hcover.hasEnd, fun f hf => Changelog.has_restrict.mp (hcover.hasFrom f hf),
    hcover.named, ?_, ?_, hi, fun k hk => ?_, fun k hk => ?_, fun hold => ⟨_, hstale hold, ?_, ?_⟩⟩
  · rw [hfrom]
    exact hstart.le e.1 howned hi
  · rw [hend]
    exact hle.trans htop
  · rw [hcover.window k, lastChange_share]
    exact if_pos hk
  · rw [hcover.window k, lastChange_share]
    exact if_neg hk
  · rw [hfrom]
    rfl
  · rw [hend]
    rfl

lemma MoveSound.sends (hapart : KeysApart log job) (w : Nat)
    (hquiet : st.Undisturbed log r reads (.sends w)) : MoveSound log job r (st.send log job r w) := by
  unfold send
  split
  · exact h
  · rename_i c rest next
    have hw := h.writers w
    have hset := h.setWriter w (x := { st.ingest.writers w with acked := [] })
      { hw with acked := fun e he => absurd he not_mem_nil }
    have hgrow : ∀ c' ∈ st.stale, c' ∈ (if st.maps w = .old then c :: st.stale else st.stale) := by
      intro c' hc'
      split_ifs
      · exact mem_cons_of_mem _ hc'
      · exact hc'
    refine ⟨hset.follows, hset.reached, hset.furthest, fun e he => ?_, hset.staged,
      fun v => (hset.writers v).mono (fun _ _ hr => hr) le_rfl, fun i stamp hi => ?_, hset.staging, hset.adopted,
      hset.published⟩
    · rcases mem_append.mp he with he | he
      · obtain ⟨v, hv⟩ := hset.sent e he
        exact ⟨v, hv.mono (fun _ _ hr => hr) le_rfl hgrow⟩
      · refine ⟨_, (sentBy_parts h hlog hapart next he fun hold => ?_).mono (fun _ _ hr => hr) le_rfl
          (fun _ hc => hc)⟩
        rw [if_pos hold]
        exact mem_cons_self
    · obtain ⟨hknown, hsince, hpassed⟩ := h.rebuilds i stamp hi
      refine ⟨hknown, hsince, fun hlt c' hc' => ?_⟩
      by_cases hold : st.maps w = .old
      · change c' ∈ (if st.maps w = .old then c :: st.stale else st.stale) at hc'
        rw [if_pos hold] at hc'
        rcases mem_cons.mp hc' with rfl | hc'
        · exact hquiet hold c' (by simp [next]) i hlt stamp hi
        · exact hpassed hlt c' hc'
      · change c' ∈ (if st.maps w = .old then c :: st.stale else st.stale) at hc'
        rw [if_neg hold] at hc'
        exact hpassed hlt c' hc'

lemma MoveSound.stages (n : Nat) (order : HashOrder (K × DocOp K)) :
    MoveSound log job r (st.stage n order) := by
  unfold stage
  split
  · exact h
  · rename_i e he
    split
    · exact h
    · rename_i ref ok
      obtain ⟨v, hv⟩ := h.sent e (mem_of_getElem? he)
      obtain ⟨hcp, -, -, -⟩ := Shard.stageBatch_ok ok
      refine h.setShard ((h.follows e.1).stage (h.feeds hlog hv) ok) le_rfl (h.reached e.1) (h.furthest e.1) ?_
      intro ref' href'
      rcases mem_cons.mp href' with rfl | href'
      · exact hcp ▸ hv.ended
      · exact h.staged e.1 ref' href'

end

lemma MoveSound.commit {n : Nat} {ref : StagedRef K}
    (held : ref ∈ (st.ingest.shards i).staged)
    (ok : (st.ingest.shards i).shard.commitStaged [ref] = .ok (shard, n)) :
    MoveSound log job r { st with ingest := st.ingest.commit i shard } ∧ position shard.redb.checkpoint ≠ ⊥ := by
  obtain ⟨hf, hle, hreach, hcp⟩ := (h.follows i).commit held ok
  have hhead : position shard.redb.checkpoint ≤ placeOf log st.ingest.head := by
    rcases hcp with hcp | hcp
    · rw [hcp]
      exact h.reached i
    · rw [hcp]
      exact h.staged i ref held
  refine ⟨h.setShard hf hle hhead (h.furthest i) (h.staged i), ne_bot_of_le_ne_bot ?_ hreach⟩
  exact ne_bot_of_has ((h.follows i).staged ref held).hasEnd

end

section

variable (h : MoveSound log job r st)
include h

lemma MoveSound.commits (i n : Nat) : MoveSound log job r (st.commit i n (fun _ ingest => ingest)) := by
  unfold Relocating.commit
  split
  · exact h
  · rename_i ref held
    split
    · exact h
    · rename_i ok
      exact (h.commit (mem_of_getElem? held) ok).1

lemma MoveSound.acks (w i n : Nat) :
    MoveSound log job r (st.commit i n (fun ref ingest => ingest.ack w i ref)) := by
  unfold Relocating.commit
  split
  · exact h
  · rename_i ref held
    split
    · exact h
    · rename_i shard _ ok
      obtain ⟨hset, hstarted⟩ := h.commit (mem_of_getElem? held) ok
      refine hset.setWriter w ((hset.writers w).ack fun _ => ?_)
      change position ((st.ingest.setShard i _).shards i).checkpoint ≠ ⊥
      rwa [Ingesting.setShard_self]

lemma MoveSound.stops (i n cut : Nat) : MoveSound log job r (st.stop i n cut) := by
  unfold stop
  split
  · exact h
  · rename_i ref held
    split
    · exact h
    · rename_i ok
      have hend := h.staged i ref (mem_of_getElem? held)
      obtain ⟨hf, hle, hcp⟩ := (h.follows i).crash (mem_of_getElem? held) ok cut
      refine h.setShard hf hle ?_ (max_le (h.furthest i) ((commitEnd_le _ _).trans hend))
        fun ref' href' => absurd href' not_mem_nil
      rcases hcp with hcp | hcp
      · rw [Ingest.checkpoint, hcp]
        exact h.reached i
      · rwa [Ingest.checkpoint, hcp]

lemma MoveSound.answers (w : Nat) : MoveSound log job r (st.answer log job r w) := by
  unfold answer
  split
  · exact h
  · rename_i c rest next
    split_ifs with acks
    · exact h.setWriter w ((h.writers w).answer next acks)
    · exact h

end

omit [DecidableEq K] in
lemma endOf_plain (h : '#' ∉ id.toList) : position (some (endOf log table i id)) = ⊥ := by
  have hno : ¬ ∃ (e : Int) (start : Option Int), batchId table start e ++ "#s" ++ toString i = id := by
    rintro ⟨e, start, rfl⟩
    refine h ?_
    simp only [String.toList_append, mem_append]
    exact .inl (.inr (by decide))
  rw [endOf, dif_neg hno]
  rfl

/-- A generation that is swapped in follows the changelog on the keys of its shard. -/
lemma follows_rebuilt
    (hlog : Numbered log) (hs : s ∈ log.snapshots) (ht : t ∈ log.snapshots) (hle : s.sequenceNumber ≤ t.sequenceNumber)
    (h : Rebuilt log (owns r i) s t shard) :
    Follows log (endOf log job.table i) (Serves r rebuilt i) ⟨shard.reopen, [], placeOf log (some t.snapshotId)⟩ := by
  have hcp : shard.reopen.redb.checkpoint = some s.checkpoint := h.stamped
  obtain ⟨m, hm, hdocs⟩ := h.docs
  refine ⟨⟨⟨m, hm.reopen, fun k hk => ?_⟩, fun c hc => ?_, fun id hid => ?_,
    fun ref href => absurd href not_mem_nil⟩, fun ref href => absurd href not_mem_nil, h.writable⟩
  · refine ⟨position (some t.checkpoint), ?_, ?_, hdocs k (decide_eq_true hk.1)⟩
    · rw [Ingest.checkpoint, hcp]
      exact WithBot.coe_le_coe.mpr hle
    · rw [placeOf_eq hlog ht]
      exact le_max_right _ _
  · exact ⟨s, hs, some.inj (hcp.symm.trans hc)⟩
  · rw [endOf_plain (h.ids id hid)]
    exact bot_le

variable (h : MoveSound log job r st)
include h

lemma MoveSound.discards (i : Nat) :
    MoveSound log job r { st with staging := update st.staging i none } := by
  refine { h with staging := fun j g hg => ?_ }
  change update st.staging i none j = some g at hg
  by_cases hj : j = i
  · subst hj
    simp [update_self] at hg
  · rw [update_of_ne hj] at hg
    exact h.staging j g hg

variable (hlog : Numbered log)
include hlog

lemma MoveSound.install (hs : s ∈ log.snapshots) (ht : t ∈ log.snapshots) (hle : s.sequenceNumber ≤ t.sequenceNumber)
    (hshard : Rebuilt log (owns r i) s t shard)
    (hseen : placeOf log (some t.snapshotId) ≤ placeOf log st.ingest.head)
    (hpassed : i < r.old.shards → ∀ c ∈ st.stale, Passes log r i s.snapshotId c) :
    MoveSound log job r (st.install log i shard s.snapshotId t.snapshotId) := by
  have hcp : position shard.reopen.redb.checkpoint = placeOf log (some s.snapshotId) := by
    rw [placeOf_eq hlog hs]
    exact congrArg position hshard.stamped
  have hplace : placeOf log (some s.snapshotId) ≤ placeOf log (some t.snapshotId) := by
    rw [placeOf_eq hlog hs, placeOf_eq hlog ht]
    exact WithBot.coe_le_coe.mpr hle
  refine h.replace (fun j hj => update_of_ne hj _ _) (fun _ => ?_) (fun j g hg => ?_)
    (follows_rebuilt hlog hs ht hle hshard) (fun _ => ?_) ?_ hseen (fun ref href => absurd href not_mem_nil)
    (fun stamp hstamp => ?_)
  · rw [update_self]
    rfl
  · by_cases hj : j = i
    · subst hj
      simp [update_self] at hg
    · rwa [update_of_ne hj] at hg
  · rw [Ingest.checkpoint, hcp]
    exact place_ne_bot hlog hs
  · rw [Ingest.checkpoint, hcp]
    exact hplace.trans hseen
  · rw [update_self] at hstamp
    cases hstamp
    refine ⟨place_ne_bot hlog hs, ?_, hpassed⟩
    rw [Ingest.checkpoint, hcp]

lemma MoveSound.promotes (i : Nat)
    (order : HashOrder (K × DocOp K)) (head : Int) (hquiet : st.Undisturbed log r reads (.promotes i order head)) :
    MoveSound log job r (st.promote log r reads i order head) := by
  unfold promote
  split
  · exact h
  · rename_i g hg
    obtain ⟨⟨s, hs, t, ht, hstamp, hscanned, hle, hrows⟩, hplain, hseen⟩ := h.staging i g hg
    by_cases hfast : reads.appendFastPath
    · rw [if_pos hfast]
      split
      · exact h
      · rename_i u hu
        obtain ⟨hmem, rfl⟩ := mem_of_snapshotOf hu
        split_ifs with hlate
        · split
          · exact h
          · rename_i shard hshard
            have hseq : t.sequenceNumber ≤ u.sequenceNumber := by
              have := (hscanned ▸ hseen).trans hlate
              rw [placeOf_eq hlog ht, placeOf_eq hlog hmem] at this
              exact WithBot.coe_le_coe.mp this
            refine (h.advance hlate).install hlog hmem hmem le_rfl
              (hrows.catchUp hplain hfast hs hmem hle hseq hshard) le_rfl fun hlt c hc => ?_
            have := hquiet hlt g hg c hc
            rwa [Generation.stampAt, if_pos hfast] at this
        · exact h
    · rw [if_neg hfast, hstamp, hscanned]
      refine h.install hlog hs ht hle hrows (hscanned ▸ hseen) fun hlt c hc => ?_
      have := hquiet hlt g hg c hc
      rwa [Generation.stampAt, if_neg hfast, hstamp] at this

lemma MoveSound.builds (i : Nat) (order : HashOrder (K × DocOp K))
    (stamp scanned : Int) : MoveSound log job r (st.build log r reads i order stamp scanned) := by
  unfold Relocating.build
  split
  · rename_i s t hs ht
    obtain ⟨hmem, rfl⟩ := mem_of_snapshotOf hs
    obtain ⟨hmem', rfl⟩ := mem_of_snapshotOf ht
    split_ifs with hguard
    · obtain ⟨-, -, hlate, hle⟩ := hguard
      split
      · exact h
      · rename_i shard hshard
        obtain ⟨hrows, hplain⟩ := buildGeneration_rebuilt hmem' (hlog s hmem) hshard
        have hset := h.advance (hlate.trans hle)
        refine { hset with staging := fun j g hg => ?_ }
        by_cases hj : j = i
        · subst hj
          change update st.staging j _ j = some g at hg
          rw [update_self] at hg
          cases hg
          rw [placeOf_eq hlog hmem, placeOf_eq hlog hmem'] at hle
          exact ⟨⟨s, hmem, t, hmem', rfl, rfl, WithBot.coe_le_coe.mp hle, hrows⟩, hplain, le_rfl⟩
        · change update st.staging i _ j = some g at hg
          rw [update_of_ne hj] at hg
          exact hset.staging j g hg
    · exact h
  · exact h

lemma MoveSound.step (hapart : KeysApart log job) (e : MoveEvent K)
    (hquiet : st.Undisturbed log r reads e) : MoveSound log job r (st.step log job r reads e) := by
  cases e with
  | starts w group version =>
    simp only [Relocating.step]
    split_ifs with hv
    · exact h.starts hlog w group hv
    · exact h
  | fails w => exact h.setWriter w (h.writers w).fail
  | triggers w snapshot => exact h.triggers hlog w snapshot
  | sends w => exact h.sends hlog hapart w hquiet
  | stages n order => exact h.stages hlog n order
  | commits i n => exact h.commits i n
  | acks w i n => exact h.acks w i n
  | stops i n cut => exact h.stops i n cut
  | answers w => exact h.answers w
  | builds i order stamp scanned => exact h.builds hlog i order stamp scanned
  | promotes i order head => exact h.promotes hlog i order head hquiet
  | discards i => exact h.discards i
  | retires w i id =>
    simp only [Relocating.step]
    split_ifs with hsome
    · obtain ⟨stamp, hstamp⟩ := isSome_iff_exists.mp hsome
      obtain ⟨hknown, hsince, -⟩ := h.rebuilds i stamp hstamp
      exact h.setWriter w ((h.writers w).ack fun _ => ne_bot_of_le_ne_bot hknown hsince)
    · exact h
  | setBucketMap =>
    simp only [Relocating.step]
    split_ifs with hall
    · exact { h with adopted := fun _ _ => rfl, published := fun _ => hall.2 }
    · exact h

end GrowlerDB.Connector
