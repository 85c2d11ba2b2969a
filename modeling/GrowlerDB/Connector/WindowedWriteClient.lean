import GrowlerDB.Engine.WindowedIngest

namespace GrowlerDB.Connector
open Core Engine Index Lib

inductive RouteError
  | overflow
  | unsupportedFormat (format : TimeFormat)
  | missingWindowField (field : String)
  deriving DecidableEq

structure WindowRouter where
  field : String
  fieldFormat : Option TimeFormat
  granularityMicros : Int

namespace WindowRouter

def granularityMicrosOf : WindowGranularity → Int
  | .hourly => 3600000000
  | .daily => 86400000000
  | .weekly => 7 * 86400000000

def ofConfig (windowing : TimeWindowing) (formatOf : String → Option TimeFormat) : WindowRouter :=
  ⟨windowing.field, formatOf windowing.field, granularityMicrosOf windowing.granularity⟩

def multiplyExact (a b : Int) : Except RouteError Int :=
  match checkedMul a b with
  | some c => .ok c
  | none => .error .overflow

def toMicros (v : Value) (format : Option TimeFormat) : Except RouteError Int :=
  match format with
  | none =>
    match v with
    | .int i => .ok i
    | _ => .ok 0
  | some format =>
    match v with
    | .ts t => .ok t
    | .int i =>
      match format with
      | .epochMicros => .ok i
      | .epochSeconds => multiplyExact i 1000000
      | .epochMillis => multiplyExact i 1000
      | .epochNanos => .ok (i.tdiv 1000)
      | _ => .error (.unsupportedFormat format)
    | _ => .ok 0

def windowOf (router : WindowRouter) (value : Value) : Except RouteError Int := do
  let micros ← toMicros value router.fieldFormat
  pure (wrap64 (micros / router.granularityMicros * router.granularityMicros))

end WindowRouter

section

variable {K : Type} (router : WindowRouter)

def routeOp (acc : List (Int × List (DocOp K)) × List (DocOp K)) (op : DocOp K) :
    Except RouteError (List (Int × List (DocOp K)) × List (DocOp K)) :=
  match op with
  | .upsert doc =>
    match doc.get router.field with
    | none => .error (.missingWindowField router.field)
    | some value => do
      let window ← router.windowOf value
      pure (OrdMap.alter (fun ops => ops.getD [] ++ [op]) window acc.1, acc.2)
  | .delete _ => .ok (acc.1, acc.2 ++ [op])

def subBatch (batch : CommitBatch K) (window : Int) (ops : List (DocOp K)) : CommitBatch K where
  ops := ops
  checkpoint := batch.checkpoint
  batchId := batch.batchId ++ "#w" ++ toString window
  fromCheckpoint := none
  safeCheckpoint := batch.safeCheckpoint

def partition (batch : CommitBatch K) (knownWindows : List Int) :
    Except RouteError (List (Int × CommitBatch K)) := do
  let split ← batch.ops.foldlM (routeOp router) ([], [])
  let targets := if split.2 = [] then split.1
    else knownWindows.foldl (fun m w => OrdMap.alter (fun ops => ops.getD []) w m) split.1
  pure (targets.map (fun e => (e.1, subBatch batch e.1 (e.2 ++ split.2))))

end

structure ShardCheckpoint where
  snapshotId : Int
  sequenceNumber : Option Int

def ShardCheckpoint.ofSource (c : SourceCheckpoint) : ShardCheckpoint :=
  ⟨c.snapshotId, c.sequenceNumber.filter (fun seq => decide (0 < seq))⟩

def ShardCheckpoint.sequence (lineage : Int → Option Int) (c : ShardCheckpoint) : Option Int :=
  c.sequenceNumber.or (lineage c.snapshotId)

def lineageMin (lineage : Int → Option Int) :
    List ShardCheckpoint → Option Int × Int → Option (Option Int × Int)
  | [], best => some best
  | c :: rest, best =>
    match c.sequence lineage with
    | none => none
    | some seq => lineageMin lineage rest (if seq < best.2 then (some c.snapshotId, seq) else best)

def resumeMinOf (checkpoints : List ShardCheckpoint) (lineage : Int → Option Int) : Option Int :=
  match checkpoints with
  | [] => none
  | first :: _ =>
    if checkpoints.all (fun c => c.snapshotId == first.snapshotId) then some first.snapshotId
    else match lineageMin lineage checkpoints (none, 2 ^ 63 - 1) with
      | some best => best.1
      | none => (checkpoints.map ShardCheckpoint.snapshotId).min?

structure ShardStatus (N : Type) where
  window : Int
  primary : Option N

variable {K N : Type} [DecidableEq K] [DecidableEq N] (T : Tantivy K (Document K))

/-- The nodes, the control plane's shard map, and the connector: the windows it has resolved and the
parts of its batch still to be sent. -/
structure Cluster (N : Type) where
  nodes : N → WindowedNode T
  shardStatus : List (ShardStatus N)
  windowClient : List Int
  queue : List (Int × CommitBatch K)

variable {T} (svc : WindowedWriteService) (owner : Int → N)

def place (status : List (ShardStatus N)) (window : Int) : List (ShardStatus N) :=
  if (status.map ShardStatus.window).contains window then status
  else status ++ [⟨window, some (owner window)⟩]

def readCheckpoint (fences : N → PrimaryFence) (nodes : N → WindowedNode T)
    (out : List ShardCheckpoint) (s : ShardStatus N) : Except Status (List ShardCheckpoint) :=
  match s.primary with
  | none => .ok out
  | some n =>
    if s.window = 0 then .ok out
    else match (svc.under (fences n)).getCheckpoint (nodes n) s.window with
      | .error e => .error e
      | .ok (none, _) => .ok out
      | .ok (some c, _) => .ok (out ++ [.ofSource c])

namespace Cluster

def start (commitChunk : Nat) (muxed : N → List Int) : Cluster T N :=
  ⟨fun n => .empty commitChunk (muxed n), [], [], []⟩

def resolve (st : Cluster T N) (window : Int) : Cluster T N :=
  { st with
    shardStatus := place owner st.shardStatus window
    windowClient := window :: st.windowClient }

def restart (st : Cluster T N) : Cluster T N := { st with windowClient := [], queue := [] }

def shard (st : Cluster T N) (window : Int) : Shard T := (st.nodes (owner window)).disk window

def deliver (order : StagingOrder K) (fence : PrimaryFence) (st : Cluster T N) (window : Int)
    (sub : CommitBatch K) (rest : List (Int × CommitBatch K)) : Cluster T N :=
  let node := st.nodes (owner window)
  { st.resolve owner window with
    nodes := Function.update st.nodes (owner window)
      (Script.after node ((svc.under fence).write order sub node).1)
    queue := rest }

def windowCheckpoints (fences : N → PrimaryFence) (st : Cluster T N) :
    Except Status (List ShardCheckpoint) :=
  st.shardStatus.foldlM (readCheckpoint svc fences st.nodes) []

def checkpointSnapshotId (fences : N → PrimaryFence) (lineage : Int → Option Int)
    (st : Cluster T N) : Except Status (Option Int) := do
  let committed ← st.windowCheckpoints svc fences
  pure (resumeMinOf committed lineage)

end Cluster

namespace WindowRouter

lemma granularityMicrosOf_eq (g : WindowGranularity) : granularityMicrosOf g = g.micros := by
  cases g <;> rfl

def InFirstWindow (g : WindowGranularity) (us : Int) : Prop := 0 ≤ us ∧ us < g.micros

/-- A text that the engine does not read in the format, or reads as an instant of the first window. -/
def TextAgrees (cal : Calendar) (g : WindowGranularity) (s : String) : TimeFormat → Prop
  | .epochSeconds => ∀ n, Text.parseI64 (Text.trim s) = some n → InI64 (n * 1000000) →
      InFirstWindow g (n * 1000000)
  | .epochMillis => ∀ n, Text.parseI64 (Text.trim s) = some n → InI64 (n * 1000) → InFirstWindow g (n * 1000)
  | .epochMicros => ∀ n, Text.parseI64 (Text.trim s) = some n → InFirstWindow g n
  | .epochNanos => ∀ n, Text.parseI64 (Text.trim s) = some n → 0 ≤ n ∧ n < 1000 * g.micros
  | .rfc3339 => ∀ us, cal.rfc3339 (Text.trim s) = some us → InFirstWindow g us
  | .dateOnly => ∀ us, cal.dateOnly (Text.trim s) = some us → InFirstWindow g us

/-- No text that the engine reads into another window, and no part of a microsecond at the end of a window before the
epoch. -/
def Agrees (cal : Calendar) (g : WindowGranularity) : Option TimeFormat → Value → Prop
  | some .epochNanos, .int i => ¬ (i < 0 ∧ ¬ 1000 ∣ i ∧ g.micros ∣ i / 1000 + 1)
  | some format, .str s => TextAgrees cal g s format
  | _, _ => True

section

variable {windowing : TimeWindowing} {us : Int}

lemma windowOf_eq_zero_iff (h : InI64 us) : windowing.windowOf us = 0 ↔ InFirstWindow windowing.granularity us := by
  have hpos := windowing.granularity.micros_pos
  have hsmall := windowing.granularity.micros_small
  have hlt := Int.emod_lt_of_pos us hpos
  have hnonneg := Int.emod_nonneg us hpos.ne'
  have hsplit := Int.mul_ediv_add_emod us windowing.granularity.micros
  obtain ⟨hlo, hhi⟩ := h
  rw [TimeWindowing.windowOf, mul_comm, InFirstWindow]
  constructor
  · generalize windowing.granularity.micros * (us / windowing.granularity.micros) = base at hsplit ⊢
    intro hzero
    unfold wrap64 at hzero
    omega
  · rintro ⟨hge, hfirst⟩
    rw [Int.ediv_eq_zero_of_lt hge hfirst, mul_zero]
    rfl

lemma windowOf_succ_iff :
    windowing.windowOf (us + 1) = windowing.windowOf us ↔ ¬ windowing.granularity.micros ∣ us + 1 := by
  have hpos := windowing.granularity.micros_pos
  have hsmall := windowing.granularity.micros_small
  have hsucc : (us + 1) / windowing.granularity.micros =
      us / windowing.granularity.micros + if windowing.granularity.micros ∣ us + 1 then 1 else 0 := by
    cases windowing.granularity <;> simp only [WindowGranularity.micros, WindowGranularity.millis] <;>
      split_ifs <;> omega
  rw [TimeWindowing.windowOf, TimeWindowing.windowOf, hsucc, add_mul]
  split_ifs with hdvd
  · refine iff_of_false (fun heq => ?_) (not_not.mpr hdvd)
    unfold wrap64 at heq
    omega
  · rw [zero_mul, add_zero]
    exact iff_of_true rfl hdvd

lemma windowOf_tdiv_iff : windowing.windowOf (i.tdiv 1000) = windowing.windowOf (i / 1000) ↔
    ¬ (i < 0 ∧ ¬ 1000 ∣ i ∧ windowing.granularity.micros ∣ i / 1000 + 1) := by
  by_cases hexact : 0 ≤ i ∨ 1000 ∣ i
  · rw [Int.tdiv_eq_ediv, if_pos hexact, add_zero]
    exact iff_of_true rfl (by omega)
  · rw [Int.tdiv_eq_ediv, if_neg hexact, show Int.sign 1000 = 1 from rfl, windowOf_succ_iff]
    have hneg : i < 0 ∧ ¬ 1000 ∣ i := by omega
    simp [hneg]

end

section

variable {cal : Calendar} {windowing : TimeWindowing} {formatOf : String → Option TimeFormat}

lemma windowOf_ofConfig (value : Value) : (ofConfig windowing formatOf).windowOf value =
    (toMicros value (formatOf windowing.field)).map windowing.windowOf := by
  rw [windowOf, ofConfig, granularityMicrosOf_eq]
  cases toMicros value (formatOf windowing.field) <;> rfl

lemma multiplyExact_ok (h : multiplyExact a b = .ok m) : checkedMul a b = some m := by
  unfold multiplyExact at h
  split at h
  · rename_i c hc
    rw [hc, Except.ok.inj h]
  · cases h

lemma windowOf_zero : windowing.windowOf 0 = 0 :=
  (windowOf_eq_zero_iff (by decide)).mpr ⟨le_rfl, windowing.granularity.micros_pos⟩

lemma toMicros_str {format : TimeFormat} : format.toMicros cal path (.str s) = .ok us ↔ match format with
      | .epochSeconds => ∃ n, Text.parseI64 (Text.trim s) = some n ∧ InI64 (n * 1000000) ∧ n * 1000000 = us
      | .epochMillis => ∃ n, Text.parseI64 (Text.trim s) = some n ∧ InI64 (n * 1000) ∧ n * 1000 = us
      | .epochMicros => Text.parseI64 (Text.trim s) = some us
      | .epochNanos => ∃ n, Text.parseI64 (Text.trim s) = some n ∧ n / 1000 = us
      | .rfc3339 => cal.rfc3339 (Text.trim s) = some us
      | .dateOnly => cal.dateOnly (Text.trim s) = some us := by
  cases format with
  | rfc3339 => cases h : cal.rfc3339 (Text.trim s) <;> simp [TimeFormat.toMicros, TimeFormat.stringToMicros, h]
  | dateOnly => cases h : cal.dateOnly (Text.trim s) <;> simp [TimeFormat.toMicros, TimeFormat.stringToMicros, h]
  | _ =>
    cases h : Text.parseI64 (Text.trim s) with
    | none => simp [TimeFormat.toMicros, TimeFormat.epochToMicros, h]
    | some n =>
      simp only [TimeFormat.toMicros, TimeFormat.epochToMicros, TimeFormat.scale, checkedMul, h]
      try split_ifs
      all_goals simp_all

lemma textAgrees_iff {format : TimeFormat} (path : String) :
    windowing.windowOf ((format.toMicros cal path (.str s)).toOption.getD 0) = 0 ↔
      TextAgrees cal windowing.granularity s format := by
  have hread : windowing.windowOf ((format.toMicros cal path (.str s)).toOption.getD 0) = 0 ↔
      ∀ us, format.toMicros cal path (.str s) = .ok us → InFirstWindow windowing.granularity us := by
    cases h : format.toMicros cal path (.str s) with
    | error e => exact iff_of_true windowOf_zero fun us hus => (nomatch hus)
    | ok us =>
      have hrange : InI64 us := TimeFormat.toMicros_range (v := .str s) trivial h
      refine (windowOf_eq_zero_iff hrange).trans ⟨?_, fun hall => hall us rfl⟩
      rintro hfirst _ ⟨⟩
      exact hfirst
  rw [hread]
  simp only [toMicros_str]
  cases format with
  | epochNanos =>
    have hnanos : ∀ n : Int, InFirstWindow windowing.granularity (n / 1000) ↔
        0 ≤ n ∧ n < 1000 * windowing.granularity.micros := by
      intro n
      unfold InFirstWindow
      omega
    simp [TextAgrees, hnanos]
  | epochMicros => rfl
  | rfc3339 => rfl
  | dateOnly => rfl
  | _ => exact ⟨fun h n hn hin => h _ ⟨n, hn, hin, rfl⟩, fun h us ⟨n, hn, hin, hus⟩ => hus ▸ h n hn hin⟩

/-- The connector and the engine agree on the window of a value exactly if it is none of the two
kinds of values that they read differently. -/
theorem windowOf_agrees_iff {K : Type} (cal : Calendar) (windowing : TimeWindowing)
    (formatOf : String → Option TimeFormat) {doc : Document K} {value : Value}
    (hvalue : doc.get windowing.field = some value) :
    (∀ id, (ofConfig windowing formatOf).windowOf value = .ok id →
      id = windowing.docWindow cal doc (formatOf windowing.field)) ↔
      Agrees cal windowing.granularity (formatOf windowing.field) value := by
  -- where both sides have the same micros, nothing is left of the question
  have hsame : ∀ {o : Except RouteError Int} {us : Int}, (∀ m, o = .ok m → m = us) →
      ((∀ id, o.map windowing.windowOf = .ok id → id = windowing.windowOf us) ↔ True) := by
    intro o us ho
    refine iff_true_intro fun id hid => ?_
    cases o with
    | error e => cases hid
    | ok m =>
      rw [← ho m rfl]
      exact (Except.ok.inj hid).symm
  have hone : ∀ {m us : Int}, (∀ id, (Except.ok m : Except RouteError Int).map windowing.windowOf = .ok id →
      id = windowing.windowOf us) ↔ windowing.windowOf m = windowing.windowOf us := by
    intro m us
    exact ⟨fun h => h _ rfl, fun h id hid => (Except.ok.inj hid).symm.trans h⟩
  rw [windowOf_ofConfig, TimeWindowing.docWindow, fieldMicros, hvalue]
  cases hf : formatOf windowing.field with
  | none => cases value <;> exact hsame fun m hm => (Except.ok.inj hm).symm
  | some format =>
    cases value with
    | str s =>
      have hagrees : Agrees cal windowing.granularity (some format) (.str s) =
          TextAgrees cal windowing.granularity s format := by cases format <;> rfl
      rw [hagrees, ← textAgrees_iff windowing.field]
      refine hone.trans ?_
      rw [windowOf_zero]
      exact eq_comm
    | int i =>
      cases format with
      | epochNanos => exact hone.trans windowOf_tdiv_iff
      | epochMicros => exact hsame fun m hm => (Except.ok.inj hm).symm
      | epochSeconds | epochMillis =>
        refine hsame fun m hm => ?_
        simp [TimeFormat.toMicros, TimeFormat.epochToMicros, TimeFormat.scale, multiplyExact_ok hm, Except.toOption]
      | _ => exact hsame fun m hm => (nomatch hm)
    | ts t => cases format <;> exact hsame fun m hm => (Except.ok.inj hm).symm
    | float f => cases format <;> exact hsame fun m hm => (Except.ok.inj hm).symm
    | bool b => cases format <;> exact hsame fun m hm => (Except.ok.inj hm).symm
    | vector v => cases format <;> exact hsame fun m hm => (Except.ok.inj hm).symm

end

def Sample.daily : TimeWindowing := ⟨"ts", .daily, none⟩

def Sample.doc (value : Value) : Document Nat := ⟨0, [("ts", value)]⟩

open Sample

theorem windowOf_agrees_on_millis :
    (doc (.int 100000000)).get daily.field = some (.int 100000000) ∧
      daily.docWindow .blank (doc (.int 100000000)) (some .epochMillis) = 86400000000 := by
  have hvalue : (doc (.int 100000000)).get daily.field = some (.int 100000000) := by decide
  have hagree := (windowOf_agrees_iff .blank daily (fun _ => some .epochMillis) hvalue).mpr trivial
  exact ⟨hvalue, (hagree 86400000000 (by decide)).symm⟩

/-- One nanosecond before the epoch, and an instant written as text, are in the first window for the
connector and in another for the engine. -/
theorem windowOf_differs :
    (ofConfig daily (fun _ => some .epochNanos)).windowOf (.int (-1)) = .ok 0 ∧
      daily.docWindow .blank (doc (.int (-1))) (some .epochNanos) = -86400000000 ∧
      (ofConfig daily (fun _ => some .epochMillis)).windowOf (.str "100000000") = .ok 0 ∧
      daily.docWindow .blank (doc (.str "100000000")) (some .epochMillis) = 86400000000 := by
  decide

end WindowRouter

end GrowlerDB.Connector
