import GrowlerDB.Connector.ChangelogMapper
import GrowlerDB.Connector.Convergence

namespace GrowlerDB.Connector
open Core Index Lib Replay List Except Nat

variable {current : Int} {start : Option Int}

namespace ShardGroup

def ownedFrom (workers shards : Nat) : Nat → Nat → List Nat
  | 0, _ => []
  | fuel + 1, s => if s < shards then s :: ownedFrom workers shards fuel (s + workers) else []

def owned (workerId workers shards : Int) : Except JavaError (List Nat) :=
  if workers < 1 then .error (.illegalArgument ("workers must be >= 1, got " ++ toString workers))
  else if workerId < 0 ∨ workerId ≥ workers then
    .error (.illegalArgument ("worker-id must be in [0, " ++ toString workers ++ "), got " ++ toString workerId))
  else if shards < 1 then .error (.illegalArgument ("shards must be >= 1, got " ++ toString shards))
  else .ok (ownedFrom workers.toNat shards.toNat shards.toNat workerId.toNat)

lemma mem_ownedFrom (hw : 0 < workers) (fuel s i : Nat) (hfuel : shards ≤ s + fuel) :
    i ∈ ownedFrom workers shards fuel s ↔ i < shards ∧ s ≤ i ∧ workers ∣ i - s := by
  induction fuel generalizing s with
  | zero =>
    simp only [ownedFrom, not_mem_nil, false_iff]
    rintro ⟨hi, hle, -⟩
    omega
  | succ fuel ih =>
    rw [ownedFrom]
    split_ifs with hs
    · rw [mem_cons, ih (s + workers) (by omega)]
      constructor
      · rintro (rfl | ⟨hi, hle, hdvd⟩)
        · exact ⟨hs, le_rfl, by simp⟩
        · refine ⟨hi, by omega, ?_⟩
          have : i - s = (i - (s + workers)) + workers := by omega
          rw [this]
          exact Nat.dvd_add hdvd (Nat.dvd_refl workers)
      · rintro ⟨hi, hle, hdvd⟩
        rcases Nat.eq_or_lt_of_le hle with rfl | hlt
        · exact .inl rfl
        · have hstep : workers ≤ i - s := Nat.le_of_dvd (by omega) hdvd
          refine .inr ⟨hi, by omega, ?_⟩
          have : i - (s + workers) = (i - s) - workers := by omega
          rw [this]
          exact Nat.dvd_sub hdvd (Nat.dvd_refl workers)
    · simp only [not_mem_nil, false_iff]
      rintro ⟨hi, hle, -⟩
      omega

lemma owned_ok {workerId workers shards : Nat} (hw : workerId < workers) (hs : 0 < shards) :
    ∃ group, owned workerId workers shards = .ok group ∧ ∀ i, i ∈ group ↔ i < shards ∧ i % workers = workerId := by
  refine ⟨_, by rw [owned, if_neg (by omega), if_neg (by omega), if_neg (by omega)], fun i => ?_⟩
  simp only [Int.toNat_natCast]
  rw [mem_ownedFrom (by omega) shards workerId i (by omega)]
  refine and_congr_right fun _ => ⟨fun ⟨hle, hdvd⟩ => ?_, fun hmod => ?_⟩
  · obtain ⟨q, hq⟩ := hdvd
    have hi : i = workerId + workers * q := by omega
    rw [hi, add_mul_mod_self_left, mod_eq_of_lt hw]
  · refine ⟨hmod ▸ mod_le i workers, ?_⟩
    rw [← hmod]
    exact dvd_sub_mod i

end ShardGroup

namespace OwnedRowFilter

variable {X : Type}

def keyFields (row : ChangelogRow X) (names : List String) : Option (List (String × WireValue)) :=
  names.mapM (fun name => (row.columns.lookup name).map (fun value => (name, value)))

def call (mapping : IndexMapping) (router : ShardRouter) (owned : List Nat) (row : ChangelogRow X) :
    Except JavaError Bool :=
  match keyFields row mapping.partitionFields with
  | none => .ok true
  | some partition =>
    match keyFields row mapping.identifierFields with
    | none => .ok true
    | some identifier => do
      let shard ← router.route ⟨partition, identifier⟩
      .ok (decide (shard.toNat ∈ owned))

lemma keyFields_of_field
    (h : names.mapM (ChangelogMapper.field · row) = .ok fields) : keyFields row names = some fields := by
  induction names generalizing fields with
  | nil =>
    cases h
    rfl
  | cons name names ih =>
    obtain ⟨f, fs, hf, hfs, rfl⟩ := mapM_ok_cons h
    have hlookup : (row.columns.lookup name).map (fun value => (name, value)) = some f := by
      unfold ChangelogMapper.field at hf
      split at hf
      · cases hf
      · rename_i value hv
        rw [hv]
        exact congrArg some (ok.inj hf)
    have hrest := ih hfs
    rw [keyFields] at hrest ⊢
    rw [mapM_cons, hlookup, hrest]
    rfl

lemma call_of_coordinates {mapper : ChangelogMapper}
    (h : mapper.coordinates row = .ok key) {router : ShardRouter} {shard : JInt}
    (hroute : router.route key = .ok shard) (owned : List Nat) :
    call mapper.mapping router owned row = .ok (decide (shard.toNat ∈ owned)) := by
  obtain ⟨partition, hp, h₁⟩ := bind_ok h
  obtain ⟨identifier, hi, h₂⟩ := bind_ok h₁
  cases h₂
  rw [call, keyFields_of_field hp]
  simp only [keyFields_of_field hi, hroute]
  rfl

end OwnedRowFilter

section

variable {K : Type}

lemma mem_streamLoop (rows : List (SourceRow K)) :
    (∃ c ∈ streamLoop maxCommitRows current rows cursor buf bufEnd, row ∈ c.rows) ↔ row ∈ buf ++ rows := by
  induction rows generalizing cursor buf bufEnd with
  | nil => simp [streamLoop]
  | cons next rows ih =>
    rw [streamLoop]
    split_ifs
    · rw [exists_mem_cons_iff, ih, singleton_append, mem_append]
    · rw [ih, append_assoc]
      rfl

lemma mem_streamCommits :
    (∃ c ∈ streamCommits rows maxCommitRows start current, row ∈ c.rows) ↔ row ∈ rows := by
  rw [streamCommits, mem_streamLoop, nil_append]

end

variable {K : Type} [DecidableEq K] {T : Tantivy K (Document K)} {log : Changelog K} {job : Job K}
  {router : KeyRouter K}

/-- A connector with these shards, reading from `start` to `current`, sends the row to the shard of
its key. -/
def Writes (log : Changelog K) (job : Job K) (router : KeyRouter K) (owned : List Nat)
    (start : Option Int) (current : Int) (row : SourceRow K) : Prop :=
  let w : Writer K := (Writer.idle (some owned) start).trigger router log job current
  ∃ c ∈ w.pending, row ∈ c.rows ∧ ∃ e ∈ w.parts router log job c, e.1 = router.route row.op.key

omit [DecidableEq K] in
lemma writes_iff {owned : List Nat} {row : SourceRow K} (hrow : row ∈ changelog log start current) :
    Writes log job router owned start current row ↔ router.route row.op.key ∈ owned := by
  constructor
  · rintro ⟨c, -, -, e, he, hroute⟩
    rw [← hroute]
    exact (mem_parts.mp he).2.1
  · intro howned
    have hkept : row ∈ scan log (Writer.keeps router (Writer.idle (some owned) start)) start current :=
      mem_filter.mpr ⟨hrow, decide_eq_true howned⟩
    obtain ⟨c, hc, hin⟩ := mem_streamCommits.mpr hkept
    refine ⟨c, hc, hin, _, part_mem (w := (Writer.idle (some owned) start).trigger router log job current)
      (router.route_lt row.op.key) howned c, rfl⟩

def AnySet (router : KeyRouter K) (group : Option (List Nat)) : Prop :=
  ∃ workers workerId owned, workers ≤ router.shards ∧ workerId < workers ∧
    ShardGroup.owned (workerId : Nat) (workers : Nat) router.shards = .ok owned ∧ group = some owned

omit [DecidableEq K] in
lemma anySet_inRange : InRange router (AnySet router) := by
  rintro owned ⟨workers, workerId, owned', hle, hlt, hok, heq⟩ i hi
  cases heq
  obtain ⟨group, hgroup, hmem⟩ := ShardGroup.owned_ok hlt (show 0 < router.shards by omega)
  obtain rfl : group = owned := ok.inj (hgroup.symm.trans hok)
  exact ((hmem i).mp hi).1

def Ingesting.runAll (log : Changelog K) (job : Job K) (router : KeyRouter K) (order : HashOrder (K × DocOp K))
    (ws : List Nat) (current : Int) (st : Ingesting T) : Except StoreError (Ingesting T) :=
  ws.foldlM (fun st w => Ingesting.runOnce log job router order w current st) st

variable {groups : Option (List Nat) → Prop} {chunk : Nat → Nat}

lemma Ingesting.Reached.runAll (hd : Deployed log job router groups)
    (order : HashOrder (K × DocOp K)) (hs : s ∈ log.snapshots) (ws : List Nat)
    (hr : Ingesting.Reached log job router groups chunk st)
    (idle : ∀ w ∈ ws, (st.writers w).pending = [])
    (later : placeOf log st.head ≤ placeOf log (some s.snapshotId)) :
    ∃ st', Ingesting.runAll log job router order ws s.snapshotId st = .ok st' ∧
      Ingesting.Reached log job router groups chunk st' ∧
      (∀ w, (st'.writers w).group = (st.writers w).group) ∧
      (∀ w ∈ ws, (st'.writers w).cursor = some s.snapshotId) ∧
      (∀ w ∉ ws, st'.writers w = st.writers w) ∧
      placeOf log st'.head ≤ placeOf log (some s.snapshotId) := by
  induction ws generalizing st with
  | nil => exact ⟨st, rfl, hr, fun _ => rfl, fun w hw => absurd hw not_mem_nil, fun _ _ => rfl, later⟩
  | cons w ws ih =>
    obtain ⟨st₁, hok₁, hr₁, hgroup₁, hidle₁, hothers₁, hhead₁, hcursor₁⟩ :=
      hr.runOnce hd order w hs (idle w mem_cons_self) later
    have hidle : ∀ v ∈ ws, (st₁.writers v).pending = [] := by
      intro v hv
      by_cases hvw : v = w
      · rw [hvw, hidle₁]
      · rw [hothers₁ v hvw]
        exact idle v (mem_cons_of_mem _ hv)
    obtain ⟨st₂, hok₂, hr₂, hgroup₂, hcursor₂, hothers₂, hhead₂⟩ := ih hr₁ hidle hhead₁
    refine ⟨st₂, ?_, hr₂, fun v => ?_, fun v hv => ?_, fun v hv => ?_, hhead₂⟩
    · rw [Ingesting.runAll, foldlM_cons, hok₁]
      exact hok₂
    · by_cases hvw : v = w
      · rw [hgroup₂, hvw, hgroup₁]
      · rw [hgroup₂, hothers₁ v hvw]
    · by_cases hmem : v ∈ ws
      · exact hcursor₂ v hmem
      · rcases mem_cons.mp hv with rfl | hv
        · rw [hothers₂ v hmem, hcursor₁]
        · exact absurd hv hmem
    · rw [mem_cons, not_or] at hv
      rw [hothers₂ v hv.2, hothers₁ v hv.1]

lemma ShardGroup.owner_unique {workers shards : Nat} (hpos : 0 < workers) {i : Nat} (hi : i < shards)
    (P : List Nat → Prop) (hP : ∀ owned, P owned ↔ i ∈ owned) :
    ∃! v : Nat, v < workers ∧ ∃ owned, ShardGroup.owned v workers shards = .ok owned ∧ P owned := by
  have hshards : 0 < shards := by omega
  refine ⟨i % workers, ⟨mod_lt i hpos, ?_⟩, ?_⟩
  · obtain ⟨owned, hok, hmem⟩ := ShardGroup.owned_ok (mod_lt i hpos) hshards
    exact ⟨owned, hok, (hP owned).mpr ((hmem i).mpr ⟨hi, rfl⟩)⟩
  · rintro v ⟨hv, owned, hok, hown⟩
    obtain ⟨owned', hok', hmem⟩ := ShardGroup.owned_ok hv hshards
    obtain rfl : owned' = owned := ok.inj (hok'.symm.trans hok)
    exact ((hmem i).mp ((hP owned').mp hown)).2.symm

/-- Where no two keys are rendered alike, a set of connectors equals the single one: exactly one worker keeps a row
and writes a window; in every run of workers and of the single connector, with whatever failures and restarts, a shard
at the newest head holds the same documents; and both get there. -/
theorem connector_set_equals_single (job : Job K) (router : KeyRouter K) (hlog : Numbered log)
    (hapart : KeysApart log job) {workers : Nat} (hpos : 0 < workers) :
    (∀ (X : Type) (mapper : ChangelogMapper) (java : ShardRouter) (row : ChangelogRow X) (key : Coordinates)
      (shard : JInt), mapper.coordinates row = .ok key → java.route key = .ok shard →
      shard.toNat < router.shards → ∃! v : Nat, v < workers ∧ ∃ owned,
        ShardGroup.owned v workers router.shards = .ok owned ∧
        OwnedRowFilter.call mapper.mapping java owned row = .ok true) ∧
    (∀ start current, ∀ row ∈ changelog log start current, ∃! v : Nat, v < workers ∧ ∃ owned,
      ShardGroup.owned v workers router.shards = .ok owned ∧ Writes log job router owned start current row) ∧
    (∀ (chunk chunk₁ : Nat → Nat) (job₁ : Job K) (st st₁ : Ingesting T), job₁.keyString = job.keyString →
      Ingesting.Reached log job router (AnySet router) chunk st →
      Ingesting.Reached log job₁ router (fun group => group = none) chunk₁ st₁ →
      ∀ s ∈ log.snapshots, placeOf log st.head ≤ placeOf log (some s.snapshotId) →
      placeOf log st₁.head ≤ placeOf log (some s.snapshotId) →
      (∀ i < router.shards, (st.shards i).checkpoint = some s.checkpoint →
        (st₁.shards i).checkpoint = some s.checkpoint →
        ∀ k, (st.shards i).shard.live k = (st₁.shards i).shard.live k) ∧
      ∀ order (slot : Nat → Nat) (ws : List Nat) (w₁ : Nat),
        (∀ v < workers, slot v ∈ ws ∧ ∃ owned, ShardGroup.owned (v : Nat) workers router.shards = .ok owned ∧
          (st.writers (slot v)).group = some owned) →
        (∀ w ∈ ws, (st.writers w).pending = []) →
        (st₁.writers w₁).group = none → (st₁.writers w₁).pending = [] →
        ∃ st' st₁', Ingesting.runAll log job router order ws s.snapshotId st = .ok st' ∧
          Ingesting.runOnce log job₁ router order w₁ s.snapshotId st₁ = .ok st₁' ∧
          ∀ i < router.shards, (st'.shards i).checkpoint = some s.checkpoint ∧
            (st₁'.shards i).checkpoint = some s.checkpoint ∧
            ∀ k, (st'.shards i).shard.live k = (st₁'.shards i).shard.live k) := by
  have hset : Deployed log job router (AnySet router) := ⟨hlog, hapart, anySet_inRange⟩
  refine ⟨?_, ?_, ?_⟩
  · intro X mapper java row key shard hkey hroute hshard
    refine ShardGroup.owner_unique hpos hshard _ fun owned => ?_
    rw [OwnedRowFilter.call_of_coordinates hkey hroute]
    simp
  · intro start current row hrow
    exact ShardGroup.owner_unique hpos (router.route_lt row.op.key) _ fun owned => writes_iff hrow
  · intro chunk chunk₁ job₁ st st₁ hkeys hr hr₁ s hs later later₁
    have hone : Deployed log job₁ router (fun group => group = none) :=
      ⟨hlog, fun a ha b hb => by rw [hkeys]; exact hapart a ha b hb, fun owned hg => (nomatch hg)⟩
    refine ⟨fun i hi hcp hcp₁ k => ?_, ?_⟩
    · rw [(hr.inStep hset).live_at_head hlog hi hs later hcp,
        (hr₁.inStep hone).live_at_head hlog hi hs later₁ hcp₁]
    · intro order slot ws w₁ hslots hidle hgroup₁ hidle₁
      obtain ⟨st', hok, hr', hgroup, hcursor, -, hhead⟩ := hr.runAll hset order hs ws hidle later
      obtain ⟨st₁', hok₁, hr₁', hgroup₁', -, -, hhead₁, hcursor₁⟩ := hr₁.runOnce hone order w₁ hs hidle₁ later₁
      have hsound := hr'.inStep hset
      have hsound₁ := hr₁'.inStep hone
      refine ⟨st', st₁', hok, hok₁, fun i hi => ?_⟩
      have hcp : (st'.shards i).checkpoint = some s.checkpoint := by
        have hv := Nat.mod_lt i hpos
        obtain ⟨hmem, owned, howned, hslot⟩ := hslots _ hv
        obtain ⟨owned', howned', hin⟩ := ShardGroup.owned_ok hv (show 0 < router.shards by omega)
        obtain rfl : owned' = owned := Except.ok.inj (howned'.symm.trans howned)
        refine hsound.at_head hlog hs (hcursor _ hmem) hhead hi ?_
        rw [Writer.owned, hgroup, hslot]
        exact (hin i).mpr ⟨hi, rfl⟩
      have hcp₁ : (st₁'.shards i).checkpoint = some s.checkpoint := by
        refine hsound₁.at_head hlog hs hcursor₁ hhead₁ hi ?_
        rw [Writer.owned, hgroup₁', hgroup₁]
        exact mem_range.mpr hi
      refine ⟨hcp, hcp₁, fun k => ?_⟩
      rw [hsound.live_at_head hlog hi hs hhead hcp, hsound₁.live_at_head hlog hi hs hhead₁ hcp₁]

open TwoShards in
theorem connector_set_two_workers : 0 < 2 ∧ 2 ≤ evenOdd.shards ∧ ∃! v : Nat, v < 2 ∧ ∃ owned,
    ShardGroup.owned v 2 evenOdd.shards = .ok owned ∧
    Writes table task evenOdd owned none 10 ⟨10, .upsert (doc 1)⟩ := by
  have hall := connector_set_equals_single (T := Index) task evenOdd numbered apart (show 0 < 2 by decide)
  exact ⟨by decide, by decide, hall.2.1 none 10 _ (by decide +kernel)⟩

namespace Rendered

abbrev Key := String × String

def keyString (k : Key) : String := "ia=S:" ++ k.1 ++ ";ib=S:" ++ k.2 ++ ";"

def one : Key := ("x;ib=S:y", "z")

def other : Key := ("x", "y;ib=S:z")

def table : Changelog Key where
  snapshots := [⟨10, 1, [.upsert ⟨one, []⟩, .upsert ⟨other, []⟩]⟩]
  increasing := by simp
  distinct := by simp

def apart : KeyRouter Key := ⟨2, fun k => if k = one then 0 else 1, fun k => by split <;> decide⟩

def task : Job Key := ⟨"t", 100, keyString⟩

abbrev Index := listTantivy Key (Document Key)

def single : Ingesting Index := (Ingesting.start (fun _ => 0)).resume table apart 0 none

def set : Ingesting Index :=
  ((Ingesting.start (fun _ => 0)).resume table apart 0 (some [0])).resume table apart 1 (some [1])

lemma set_reached : Ingesting.Reached table task apart (AnySet apart) (fun _ => 0) set :=
  .step (.step .start (.started 0 ⟨2, 0, [0], by decide, by decide, rfl, rfl⟩))
    (.started 1 ⟨2, 1, [1], by decide, by decide, rfl, rfl⟩)

lemma single_reached : Ingesting.Reached table task apart (· = none) (fun _ => 0) single :=
  .step .start (.started 0 rfl)

end Rendered

open Rendered in
/-- Two keys that are rendered alike and go to different shards: the set holds both, and the single
connector has lost one. -/
theorem connector_set_differs : Ingesting.Reached table task apart (AnySet apart) (fun _ => 0) Rendered.set ∧
    Ingesting.Reached table task apart (fun group => group = none) (fun _ => 0) single ∧
    ∃ st' st₁', Ingesting.runAll table task apart (HashOrder.insertion _) [0, 1] 10 Rendered.set = .ok st' ∧
      Ingesting.runOnce table task apart (HashOrder.insertion _) 0 10 single = .ok st₁' ∧
      (st'.shards 0).checkpoint = some ⟨10, some 1⟩ ∧ (st₁'.shards 0).checkpoint = some ⟨10, some 1⟩ ∧
      (st'.shards 0).shard.live one = [⟨one, []⟩] ∧ (st₁'.shards 0).shard.live one = [] :=
  ⟨set_reached, single_reached, _, _, rfl, rfl, rfl, rfl, rfl, rfl⟩

end GrowlerDB.Connector
