import GrowlerDB.Index.Shard

namespace GrowlerDB.Index
open Core Lib Replay List WriteBack Prod Shard Except IndexWrite Redb

variable {K : Type} [DecidableEq K] {T : Tantivy K (Document K)} {log : Changelog K}

variable {fromCp : Option SourceCheckpoint} {e : SourceCheckpoint}

omit [DecidableEq K] in
/-- On positions of one changelog the guard is a comparison of the window with the shard. -/
lemma continuity_eq {c : SourceCheckpoint}
    (hc : log.Has c) (he : log.Has e) (hf : ∀ f, fromCp = some f → log.Has f) :
    continuity (some c) fromCp e = if position (some e) < position (some c) then .noOp
      else if position (some e) = position (some c) then (if fromCp = none then .apply else .noOp)
      else if position fromCp ≤ position (some c) then .apply else .gap := by
  obtain ⟨x, y, hx, hy, hcmp⟩ := Changelog.lineageCmp_eq he hc
  rw [hx, hy]
  simp only [continuity, hcmp, WithBot.coe_lt_coe, WithBot.coe_inj]
  cases hxy : compare x y with
  | lt => simp [compare_lt_iff_lt.mp hxy]
  | eq =>
    obtain rfl := compare_eq_iff_eq.mp hxy
    cases fromCp <;> simp
  | gt =>
    have hlt : y < x := compare_gt_iff_gt.mp hxy
    rw [if_neg (not_lt.mpr hlt.le), if_neg hlt.ne']
    cases fromCp with
    | none => simp
    | some f =>
      obtain ⟨u, v, hu, hv, hfc⟩ := Changelog.lineageCmp_eq (hf f rfl) hc
      obtain rfl : v = y := WithBot.coe_inj.mp (hv.symm.trans hy)
      simp only [hfc, hu, WithBot.coe_le_coe]
      cases huv : compare u v with
      | lt => simp [(compare_lt_iff_lt.mp huv).le]
      | eq => simp [(compare_eq_iff_eq.mp huv).le]
      | gt => simp [not_le.mpr (compare_gt_iff_gt.mp huv)]

variable {current : Option SourceCheckpoint}

section

variable (hc : ∀ c, current = some c → log.Has c) (he : log.Has e) (hf : ∀ f, fromCp = some f → log.Has f)
include hc he hf

omit [DecidableEq K] in
lemma continuity_apply (hboot : current = none → fromCp = none) (h : continuity current fromCp e = .apply) :
    position fromCp ≤ position current ∧ position current ≤ position (some e) ∧
      ¬ (position (some e) ≤ position current ∧
        (fromCp = none → position (some e) < position current)) := by
  cases current with
  | none =>
    obtain ⟨x, _, hx⟩ := he.position
    simp [hboot rfl, hx]
  | some c =>
    rw [continuity_eq (hc c rfl) he hf] at h
    split_ifs at h with hlt heq hnone hle
    · exact ⟨by simp [hnone], heq.ge, fun hs => hlt (hs.2 hnone)⟩
    · exact ⟨hle, not_lt.mp hlt, fun hs => heq (le_antisymm hs.1 (not_lt.mp hlt))⟩

omit [DecidableEq K] in
lemma continuity_noOp (h : continuity current fromCp e = .noOp) :
    position (some e) ≤ position current ∧ (fromCp = none → position (some e) < position current) := by
  cases current with
  | none => simp [continuity] at h
  | some c =>
    rw [continuity_eq (hc c rfl) he hf] at h
    split_ifs at h with hlt heq hnone
    · exact ⟨hlt.le, fun _ => hlt⟩
    · exact ⟨heq.le, fun hn => absurd hn hnone⟩

end

omit [DecidableEq K] in
lemma continuity_gap {c : SourceCheckpoint}
    (hc : log.Has c) (he : log.Has e) (hf : ∀ f, fromCp = some f → log.Has f)
    (hgap : position (some c) < position fromCp) (hfwd : position fromCp < position (some e)) :
    continuity (some c) fromCp e = .gap := by
  have hlt := hgap.trans hfwd
  rw [continuity_eq hc he hf, if_neg hlt.le.not_gt, if_neg hlt.ne', if_neg hgap.not_ge]

omit [DecidableEq K] in
lemma continuity_reached (hc : ∀ c, current = some c → log.Has c) (he : log.Has e)
    (hf : ∀ f, fromCp = some f → log.Has f) (hle : position fromCp ≤ position current) :
    continuity current fromCp e ≠ .gap := by
  cases current with
  | none => simp [continuity]
  | some c =>
    rw [continuity_eq (hc c rfl) he hf]
    split_ifs <;> simp

lemma continuity_fromless
    (h : ∀ c, current = some c → e.lineageCmp c ≠ some .lt) : continuity current none e = .apply := by
  cases current with
  | none => rfl
  | some c =>
    have hc := h c rfl
    unfold continuity
    cases hcmp : e.lineageCmp c with
    | none => simp [hcmp]
    | some o =>
      cases o with
      | lt => exact absurd hcmp hc
      | eq => simp [hcmp]
      | gt => simp [hcmp]

variable {order : HashOrder (K × DocOp K)} {plan : Plan K} {s : Shard T} {b : CommitBatch K} {n : Nat}

namespace Shard

lemma writePlan_ok (h : s.writePlan order b = .ok (plan, n)) :
    ∃ r, s.stageBatch order b = .ok r ∧ s.commitPlan [r] = .ok (plan, n) := by
  unfold writePlan at h
  split at h
  · cases h
  · rename_i r hr
    exact ⟨r, hr, h⟩

lemma writePlan_writable (h : s.writePlan order b = .ok (plan, n)) : s.readOnly = false := by
  obtain ⟨r, -, hr⟩ := writePlan_ok h
  unfold commitPlan at hr
  split_ifs at hr with hro
  exact Bool.eq_false_iff.mpr hro

def KeepsBounds (plan : Plan K) : Prop := ∀ e ∈ plan, ∀ lo hi, e ≠ .txn (.eventBounds lo hi)

omit [DecidableEq K] in
lemma KeepsBounds.take (h : KeepsBounds plan) (n : Nat) : KeepsBounds (plan.take n) := fun e he => h e (mem_of_mem_take he)

omit [DecidableEq K] in
lemma recordBatches_bounds (snapshot : Nat) (r : Redb) (committed : List (StagedRef K)) :
    (committed.foldl (recordBatch snapshot) r).eventBounds = r.eventBounds := by
  induction committed generalizing r with
  | nil => rfl
  | cons s committed ih => exact ih _

omit [DecidableEq K] in
lemma advance_bounds (c : SourceCheckpoint) (n : Nat) (applied : List (StagedRef K)) (r : Redb) :
    ((RedbTxn.advance c n applied).run r).eventBounds = r.eventBounds := by
  simp only [RedbTxn.run, recordAndPruneBatches]
  split
  · exact recordBatches_bounds n _ applied
  · exact recordBatches_bounds n _ applied

lemma KeepsBounds.exec (h : KeepsBounds plan) (s : Shard T) :
    (s.exec plan).redb.eventBounds = s.redb.eventBounds := by
  induction plan generalizing s with
  | nil => rfl
  | cons e plan ih =>
    change ((s.exec [e]).exec plan).redb.eventBounds = _
    rw [ih (fun d hd => h d (mem_cons_of_mem _ hd))]
    cases e with
    | write w => rfl
    | flush => rfl
    | txn x =>
      cases x with
      | advance c n applied => exact advance_bounds c n applied s.redb
      | eventBounds lo hi => exact absurd rfl (h _ mem_cons_self lo hi)

lemma commitPlan_keepsBounds {staged : List (StagedRef K)}
    (h : s.commitPlan staged = .ok (plan, n)) : KeepsBounds plan := by
  obtain ⟨applied, -, ⟨-, rfl⟩ | ⟨last, -, ⟨-, rfl⟩ | ⟨body, hb, -, rfl⟩⟩⟩ := commitPlan_ok h
  · simp [KeepsBounds]
  · simp [KeepsBounds]
  · intro e he lo hi
    rcases mem_append.mp he with he | he
    · exact hb e he _
    · rcases mem_pair.mp he with rfl | rfl <;> simp

lemma writePlan_keepsBounds (h : s.writePlan order b = .ok (plan, n)) : KeepsBounds plan := by
  obtain ⟨r, -, hr⟩ := writePlan_ok h
  exact commitPlan_keepsBounds hr

lemma writePlan_cases (h : s.writePlan order b = .ok (plan, n)) :
    (plan = [] ∧ ((s.redb.batchSnapshot b.batchId).isSome ∨
      continuity s.redb.checkpoint b.fromCheckpoint b.checkpoint = .noOp)) ∨
    (continuity s.redb.checkpoint b.fromCheckpoint b.checkpoint = .apply ∧
      ∃ r : StagedRef K, r.checkpoint = b.checkpoint ∧ r.batchId = b.batchId ∧
        (r.changes.map fst).Nodup ∧ (∀ k, lastChange r.changes k = lastChange b.changes k) ∧
        s.commitPlan [r] = .ok (plan, n) ∧ applicable s.redb.checkpoint [r] = .ok [r]) := by
  obtain ⟨r, hr, hp⟩ := writePlan_ok h
  obtain ⟨hcp, hfrom, hid, hcases⟩ := stageBatch_ok hr
  have hnothing : applicable s.redb.checkpoint [r] = .ok [] → plan = [] := by
    intro hnone
    obtain ⟨applied, ha, hplan⟩ := commitPlan_ok hp
    obtain rfl : [] = applied := Except.ok.inj (hnone.symm.trans ha)
    rcases hplan with ⟨-, hnil⟩ | ⟨last, hlast, -⟩
    · exact hnil
    · cases hlast
  rcases hcases with ⟨ha, hrec⟩ | ⟨ha, -, hno⟩ | ⟨ha, hnd, hlast, happ⟩
  · exact .inl ⟨hnothing (by simp [applicable, ha]), .inl hrec⟩
  · refine .inl ⟨hnothing ?_, .inr hno⟩
    rw [← hfrom, ← hcp] at hno
    simp [applicable, ha, hno]
  · refine .inr ⟨happ, r, hcp, hid, hnd, hlast, hp, ?_⟩
    rw [← hfrom, ← hcp] at happ
    simp [applicable, ha, happ, Except.map]

end Shard

variable {m : K → Option (Document K)}

lemma Shard.Reflects.commit_one (h : s.Reflects m) {r : StagedRef K} (hc : s.commitPlan [r] = .ok (plan, n))
    (ha : applicable s.redb.checkpoint [r] = .ok [r]) :
    (s.exec plan).Reflects (replay m r.changes) ∧
      (s.exec plan).redb.checkpoint = some r.checkpoint ∧
      ∀ id ∈ (s.exec plan).redb.batchKeys.map fst, id = r.batchId ∨ id ∈ s.redb.batchKeys.map fst := by
  obtain ⟨applied, ha', href, hredb⟩ := h.commit hc
  obtain rfl : [r] = applied := ok.inj (ha.symm.trans ha')
  have hredb : (s.exec plan).redb = (RedbTxn.advance r.checkpoint n [r]).run s.redb := hredb
  refine ⟨?_, ?_, fun id hin => ?_⟩
  · rwa [flatMap_singleton] at href
  · rw [hredb, RedbTxn.run, recordAndPrune_checkpoint]
  · rw [hredb] at hin
    rcases mem_recordAndPrune hin with ⟨r', hr', rfl⟩ | hin
    · exact .inl (by rw [mem_singleton.mp hr'])
    · exact .inr hin

section

variable (h : s.Reflects m) (hp : s.writePlan order b = .ok (plan, n))
include h hp

lemma Shard.Reflects.write : (s.exec plan = s ∧ ((s.redb.batchSnapshot b.batchId).isSome ∨
      continuity s.redb.checkpoint b.fromCheckpoint b.checkpoint = .noOp)) ∨
    (continuity s.redb.checkpoint b.fromCheckpoint b.checkpoint = .apply ∧
      (s.exec plan).Reflects (replay m b.changes) ∧
      (s.exec plan).redb.checkpoint = some b.checkpoint ∧
      ∀ id ∈ (s.exec plan).redb.batchKeys.map fst, id = b.batchId ∨ id ∈ s.redb.batchKeys.map fst) := by
  rcases writePlan_cases hp with ⟨rfl, hwhy⟩ | ⟨happ, r, hcp, hid, -, hlast, hc, ha⟩
  · exact .inl ⟨rfl, hwhy⟩
  · obtain ⟨href, hpos, hids⟩ := h.commit_one hc ha
    rw [replay_of_lastChange hlast] at href
    exact .inr ⟨happ, href, hcp ▸ hpos, hid ▸ hids⟩

lemma Shard.Reflects.write_fresh (hid : b.batchId ∉ s.redb.batchKeys.map fst) (hfrom : b.fromCheckpoint = none)
    (hcp : ∀ c, s.redb.checkpoint = some c → b.checkpoint.lineageCmp c ≠ some .lt) :
    (s.exec plan).Reflects (replay m b.changes) ∧
      (s.exec plan).redb.checkpoint = some b.checkpoint ∧
      ∀ id ∈ (s.exec plan).redb.batchKeys.map fst, id = b.batchId ∨ id ∈ s.redb.batchKeys.map fst := by
  have happ := continuity_fromless hcp
  rcases h.write hp with ⟨-, hrec | hno⟩ | ⟨-, hdone⟩
  · exact absurd (batchSnapshot_mem hrec) hid
  · rw [hfrom, happ] at hno
    cases hno
  · exact hdone

/-- A write cut short leaves every key as it was or as the batch leaves it, and the tables as they
were unless it had completed. -/
lemma Shard.Reflects.write_stop (stop : Nat) :
    ∃ m', (s.crash plan stop).Reflects m' ∧ (∀ k, m' k = m k ∨ m' k = replay m b.changes k) ∧
      ((s.crash plan stop).redb = s.redb ∨ s.crash plan stop = s.exec plan) := by
  rcases Shard.writePlan_cases hp with ⟨rfl, -⟩ | ⟨-, r, -, -, hnd, hlast, hc, ha⟩
  · refine ⟨m, ⟨rfl, ?_⟩, fun k => .inl rfl, .inl ?_⟩
    · simpa [Shard.crash, WriteBack.crash, WriteBack.run, WriteBack.reopen] using h.holds
    · simp [Shard.redb, Shard.crash, WriteBack.crash, WriteBack.run, WriteBack.reopen]
  · rcases h.crash hc stop with ⟨applied, cs, ha', hcs, href, hredb⟩ | hdone
    · obtain rfl : [r] = applied := ok.inj (ha.symm.trans ha')
      rw [flatMap_singleton] at hcs
      refine ⟨replay m cs, href, fun k => ?_, .inl hredb⟩
      rw [replay_apply, replay_apply, ← hlast]
      cases hk : lastChange cs k with
      | none => exact .inl rfl
      | some v =>
        right
        rw [lastChange_of_nodup hnd (hcs.subset (lastChange_mem hk))]
    · obtain ⟨href, -⟩ := h.commit_one hc ha
      rw [replay_of_lastChange hlast] at href
      exact ⟨_, hdone ▸ href, fun k => .inr rfl, .inr hdone⟩

end

lemma Shard.Reflects.txn (h : s.Reflects m) (x : RedbTxn K) : (s.exec [.txn x]).Reflects m :=
  ⟨h.clean, h.holds⟩

lemma Shard.Reflects.reopen (h : s.Reflects m) : s.reopen.Reflects m :=
  ⟨rfl, h.holds⟩

@[simp] lemma Shard.exec_txn_redb (s : Shard T) (x : RedbTxn K) :
    (s.exec [.txn x]).redb = x.run s.redb := rfl

@[simp] lemma Redb.setEventBounds_batchKeys (r : Redb) (lo hi : Option Int) :
    (r.setEventBounds lo hi).batchKeys = r.batchKeys := by
  cases lo <;> cases hi <;> rfl

@[simp] lemma Redb.setEventBounds_checkpoint (r : Redb) (lo hi : Option Int) :
    (r.setEventBounds lo hi).checkpoint = r.checkpoint := by
  cases lo <;> cases hi <;> rfl

lemma Redb.eventBounds_set (r : Redb) (lo hi : Int) :
    (r.setEventBounds (some lo) (some hi)).eventBounds = some (match r.eventBounds with
        | some (l, h) => (min l lo, max h hi)
        | none => (lo, hi)) := rfl

lemma Redb.setEventBounds_congr {r r' : Redb} (h : r.eventBounds = r'.eventBounds)
    (lo hi : Option Int) :
    (r.setEventBounds lo hi).eventBounds = (r'.setEventBounds lo hi).eventBounds := by
  cases lo with
  | none => exact h
  | some lo =>
    cases hi with
    | none => exact h
    | some hi => rw [eventBounds_set, eventBounds_set, h]

def Tantivy.logged (T : Tantivy K (Document K)) : Tantivy K (Document K) where
  Idx := T.Idx × List (K × Document K)
  empty := (T.empty, [])
  deleteTerm k i := (T.deleteTerm k i.1, i.2)
  addDocument k d i := (T.addDocument k d i.1, i.2 ++ [(k, d)])
  find i k := T.find i.1 k
  find_empty k := T.find_empty k
  find_delete k i k' := T.find_delete k i.1 k'
  find_add k d i k' := T.find_add k d i.1 k'

def journal (i : T.logged.Idx) : List (K × Document K) :=
  (show T.Idx × List (K × Document K) from i).2

def Shard.Wrote (s : Shard T.logged) (doc : Document K) : Prop :=
  (doc.key, doc) ∈ journal s.store.durable

def IndexWrite.added : IndexWrite K → Option (K × Document K)
  | .deleteTerm _ => none
  | .upsert enc doc => some (enc, doc)

lemma journal_writes (ws : List (IndexWrite K)) (i : T.logged.Idx) :
    journal (ws.foldl (fun i w => w.run T.logged i) i) = journal i ++ ws.filterMap added := by
  induction ws generalizing i with
  | nil => exact (append_nil _).symm
  | cons w ws ih =>
    rw [foldl_cons, ih]
    cases w with
    | deleteTerm enc => rfl
    | upsert enc doc =>
      rw [filterMap_cons, show journal ((upsert enc doc).run T.logged i) =
        journal i ++ [(enc, doc)] from rfl, append_assoc]
      rfl

variable {s : Shard T.logged}

lemma Shard.Wrote.exec (h : s.Wrote doc)
    (hc : WriteBack.Clean s.store) (plan : Plan K) : (s.exec plan).Wrote doc := by
  obtain ⟨ws, -, hd⟩ := run_durable (run T.logged) RedbTxn.run s.store plan hc
  change (doc.key, doc) ∈ journal (run _ _ s.store plan).durable
  rw [hd, journal_writes]
  exact mem_append_left _ h

lemma Shard.wrote_commit {r : StagedRef K}
    (hc : s.commitPlan [r] = .ok (plan, n)) (ha : Shard.applicable s.redb.checkpoint [r] = .ok [r])
    {doc : Document K} (hdoc : (k, some doc) ∈ r.changes) (hk : doc.key = k) :
    (s.exec plan).Wrote doc := by
  obtain ⟨w, hw, hchange⟩ := mem_map.mp hdoc
  have hadd : w.added = some (doc.key, doc) := by
    cases w with
    | deleteTerm enc => cases hchange
    | upsert enc d =>
      obtain ⟨rfl, hd⟩ := Prod.ext_iff.mp hchange
      obtain rfl : d = doc := Option.some.inj hd
      rw [hk]
      rfl
  obtain ⟨applied, ha', hplan⟩ := Shard.commitPlan_ok hc
  obtain rfl : [r] = applied := ok.inj (ha.symm.trans ha')
  rcases hplan with ⟨hnil, -⟩ | ⟨last, -, ⟨hnone, -⟩ | ⟨body, hb, hws, rfl⟩⟩
  · cases hnil
  · rw [flatMap_singleton] at hnone
    rw [hnone] at hw
    cases hw
  · change (doc.key, doc) ∈ journal (WriteBack.run _ _ s.store _).durable
    rw [WriteBack.run_flush_txn _ _ _ _ _ hb, hws, flatMap_singleton, journal_writes]
    exact mem_append_right _ (mem_filterMap.mpr ⟨w, hw, hadd⟩)

/-- A write on a shard with a journal: nothing happens, or the batch becomes the shard's position
and the last document of each of its keys has been written. -/
lemma Shard.Reflects.write_journal (h : s.Reflects m) {b : CommitBatch K}
    (hp : s.writePlan order b = .ok (plan, n)) :
    (s.exec plan = s ∧ ((s.redb.batchSnapshot b.batchId).isSome ∨
      continuity s.redb.checkpoint b.fromCheckpoint b.checkpoint = .noOp)) ∨
    (continuity s.redb.checkpoint b.fromCheckpoint b.checkpoint = .apply ∧
      (s.exec plan).redb.checkpoint = some b.checkpoint ∧
      (∀ id ∈ (s.exec plan).redb.batchKeys.map Prod.fst, id = b.batchId ∨ id ∈ s.redb.batchKeys.map Prod.fst) ∧
      ∀ k doc, lastChange b.changes k = some (some doc) → (s.exec plan).Wrote doc) := by
  rcases Shard.writePlan_cases hp with ⟨rfl, hwhy⟩ | ⟨happ, r, hcp, hid, -, hlast, hc, ha⟩
  · exact .inl ⟨rfl, hwhy⟩
  · obtain ⟨-, hpos, hids⟩ := h.commit_one hc ha
    refine .inr ⟨happ, hcp ▸ hpos, hid ▸ hids, fun k doc hk => ?_⟩
    obtain ⟨op, -, hop⟩ := mem_map.mp (lastChange_mem hk)
    refine Shard.wrote_commit hc ha (lastChange_mem ((hlast k).trans hk)) ?_
    cases op with
    | upsert d =>
      obtain ⟨hkey, hd⟩ := Prod.ext_iff.mp hop
      obtain rfl : d = doc := Option.some.inj hd
      exact hkey
    | delete key => cases hop

end GrowlerDB.Index
