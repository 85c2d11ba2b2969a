import GrowlerDB.Core.Doc
import GrowlerDB.Core.Query
import GrowlerDB.Lib.OrdMap
import Mathlib.Data.List.Induction
import Mathlib.Data.List.MinMax

namespace GrowlerDB.Core
open Lib Except Int

def Value.Fits : Value → Prop
  | .int i => InI64 i
  | .ts t => InI64 t
  | _ => True

inductive TimeFormat
  | epochSeconds
  | epochMillis
  | epochMicros
  | epochNanos
  | rfc3339
  | dateOnly
  deriving DecidableEq

/-- The calendar library: text to epoch microseconds, for an offset-aware date-time and for a bare
date at UTC midnight. -/
structure Calendar where
  rfc3339 : String → Option Int
  dateOnly : String → Option Int
  rfc3339_range : ∀ s x, rfc3339 s = some x → InI64 x
  dateOnly_range : ∀ s x, dateOnly s = some x → InI64 x

def Calendar.blank : Calendar := ⟨fun _ => none, fun _ => none, by simp, by simp⟩

inductive TimeParseError
  | notInteger (path : String) (format : TimeFormat) (value : Value)
  | notParsable (path : String) (format : TimeFormat) (value : Value)
  | overflow (path : String) (format : TimeFormat) (value : Int)

def TimeFormat.debug : TimeFormat → String
  | .epochSeconds => "EpochSeconds"
  | .epochMillis => "EpochMillis"
  | .epochMicros => "EpochMicros"
  | .epochNanos => "EpochNanos"
  | .rfc3339 => "Rfc3339"
  | .dateOnly => "DateOnly"

def TimeParseError.display (shown : Value → String) : TimeParseError → String
  | .notInteger path format value =>
    "field `" ++ path ++ "`: expected an integer epoch (" ++ format.debug ++ ") but got `" ++ shown value ++ "`"
  | .notParsable path format value =>
    "field `" ++ path ++ "`: could not parse `" ++ shown value ++ "` as " ++ format.debug
  | .overflow path format value =>
    "field `" ++ path ++ "`: epoch value " ++ String.ofList (Text.renderI64 value) ++ " (" ++ format.debug ++
      ") overflows i64 microseconds"

namespace TimeFormat

def scale (format : TimeFormat) (path : String) (n : Int) : Except TimeParseError Int :=
  let refused : Option Int → Except TimeParseError Int
    | some us => .ok us
    | none => .error (.overflow path format n)
  match format with
  | .epochSeconds => refused (checkedMul n 1000000)
  | .epochMillis => refused (checkedMul n 1000)
  | .epochNanos => .ok (n / 1000)
  | _ => .ok n

def epochToMicros (format : TimeFormat) (path : String) (value : Value) :
    Except TimeParseError Int :=
  match value with
  | .int i => format.scale path i
  | .str s =>
    match Text.parseI64 (Text.trim s) with
    | some n => format.scale path n
    | none => .error (.notInteger path format value)
  | _ => .error (.notInteger path format value)

section

variable (cal : Calendar) (format : TimeFormat) (path : String)

def stringToMicros (value : Value) : Except TimeParseError Int :=
  match value with
  | .str s =>
    let parsed := match format with
      | .dateOnly => cal.dateOnly (Text.trim s)
      | _ => cal.rfc3339 (Text.trim s)
    match parsed with
    | some us => .ok us
    | none => .error (.notParsable path format (.str (Text.trim s)))
  | _ => .error (.notParsable path format value)

def toMicros (value : Value) : Except TimeParseError Int :=
  match value with
  | .ts micros => .ok micros
  | _ =>
    match format with
    | .rfc3339 => format.stringToMicros cal path value
    | .dateOnly => format.stringToMicros cal path value
    | _ => format.epochToMicros path value

end

lemma scale_range {format : TimeFormat} {path : String} (hn : InI64 n)
    (h : format.scale path n = .ok us) : InI64 us := by
  have hmul : ∀ b : Int, ∀ e : TimeParseError, (match checkedMul n b with
      | some us => ok us
      | none => .error e) = .ok us → InI64 us := by
    intro b e hb
    unfold checkedMul at hb
    split_ifs at hb with hin
    · cases hb
      exact hin
  unfold scale at h
  cases format with
  | epochSeconds => exact hmul _ _ h
  | epochMillis => exact hmul _ _ h
  | epochNanos =>
    cases h
    unfold InI64 at hn ⊢
    omega
  | _ => exact ok.inj h ▸ hn

end TimeFormat

lemma TimeFormat.toMicros_range {cal : Calendar} {format : TimeFormat} {path : String}
    (hv : v.Fits) (h : format.toMicros cal path v = .ok us) : InI64 us := by
  have hepoch : format.epochToMicros path v = .ok us → InI64 us := by
    intro h
    unfold epochToMicros at h
    split at h
    · exact scale_range hv h
    · split at h
      · rename_i n hn
        exact scale_range (Text.parseI64_range hn) h
      · cases h
    · cases h
  have hstring : format.stringToMicros cal path v = .ok us → InI64 us := by
    intro h
    unfold stringToMicros at h
    split at h
    · dsimp only at h
      split at h
      · rename_i x hx
        cases h
        split at hx
        · exact cal.dateOnly_range _ _ hx
        · exact cal.rfc3339_range _ _ hx
      · cases h
    · cases h
  unfold toMicros at h
  split at h
  · exact ok.inj h ▸ hv
  · cases format with
    | rfc3339 => exact hstring h
    | dateOnly => exact hstring h
    | _ => exact hepoch h

def parseDateQueryBound (cal : Calendar) (s : String) : Option Int :=
  let s := Text.trim s
  ((Text.parseI64 s).or (cal.rfc3339 s)).or (cal.dateOnly s)

lemma parseDateQueryBound_of_parse (cal : Calendar)
    (h : Text.parseI64 s = some x) : parseDateQueryBound cal s = some x := by
  simp [parseDateQueryBound, Text.trim_of_parse h, h]

inductive WindowGranularity
  | hourly
  | daily
  | weekly
  deriving DecidableEq

namespace WindowGranularity

def millis : WindowGranularity → Int
  | .hourly => 3600000
  | .daily => 86400000
  | .weekly => 7 * 86400000

def micros (g : WindowGranularity) : Int := g.millis * 1000

lemma micros_pos (g : WindowGranularity) : 0 < g.micros := by cases g <;> decide

lemma micros_small (g : WindowGranularity) : g.micros < 2 ^ 40 := by cases g <;> decide

end WindowGranularity

structure TimeWindowing where
  field : String
  granularity : WindowGranularity
  eventTimeField : Option String
  deriving DecidableEq

variable {K : Type}

def fieldMicros (cal : Calendar) (doc : Document K) (field : String) (format : Option TimeFormat) :
    Option Int :=
  match doc.get field with
  | none => none
  | some v =>
    match format with
    | some fmt => (fmt.toMicros cal field v).toOption
    | none =>
      match v with
      | .int i => some i
      | _ => none

def rangeOverlaps (min max : Int) (lo hi : Option Int) : Bool :=
  lo.all (fun l => decide (l ≤ max)) && hi.all (fun h => decide (min ≤ h))

lemma rangeOverlaps_iff {min max : Int} {lo hi : Option Int} :
    rangeOverlaps min max lo hi ↔ (∀ l, lo = some l → l ≤ max) ∧ ∀ h, hi = some h → min ≤ h := by
  cases lo <;> cases hi <;> simp [rangeOverlaps]

structure WindowAcc (K : Type) where
  ops : List (DocOp K)
  eventMin : Option Int
  eventMax : Option Int

structure WindowBatch (K : Type) where
  window : Int
  batch : CommitBatch K
  eventMin : Option Int
  eventMax : Option Int

structure TimeFields where
  cal : Calendar
  windowFormat : Option TimeFormat
  eventTimeField : Option String
  eventFormat : Option TimeFormat

def TimeFields.eventMicros (f : TimeFields) (doc : Document K) : Option Int :=
  f.eventTimeField.bind (fun field => fieldMicros f.cal doc field f.eventFormat)

def WindowAcc.push (event : Option Int) (op : DocOp K) (acc : Option (WindowAcc K)) : WindowAcc K :=
  let acc := acc.getD ⟨[], none, none⟩
  { ops := acc.ops ++ [op]
    eventMin := match event with
      | some ev => some (acc.eventMin.elim ev (min · ev))
      | none => acc.eventMin
    eventMax := match event with
      | some ev => some (acc.eventMax.elim ev (max · ev))
      | none => acc.eventMax }

namespace TimeWindowing

variable (w : TimeWindowing)

def windowOf (epochUs : Int) : Int :=
  wrap64 (epochUs / w.granularity.micros * w.granularity.micros)

def docWindow (cal : Calendar) (doc : Document K) (format : Option TimeFormat) : Int :=
  w.windowOf ((fieldMicros cal doc w.field format).getD 0)

def windowOverlaps (windowStart : Int) (lo hi : Option Int) : Bool :=
  let windowEnd := wrap64 (windowStart + w.granularity.micros)
  lo.all (fun l => decide (l < windowEnd)) && hi.all (fun h => decide (windowStart ≤ h))

lemma windowOverlaps_iff {w : TimeWindowing} {windowStart : Int} {lo hi : Option Int} :
    w.windowOverlaps windowStart lo hi ↔
      (∀ l, lo = some l → l < wrap64 (windowStart + w.granularity.micros)) ∧
        ∀ h, hi = some h → windowStart ≤ h := by
  cases lo <;> cases hi <;> simp [windowOverlaps]

def keeps (window : Int) (zone : Option (Int × Int)) (query : Query) : Bool :=
  let ingest := query.rangeBounds w.field
  if !w.windowOverlaps window ingest.1 ingest.2 then false
  else match w.eventTimeField, zone with
    | some field, some (lo, hi) =>
      let event := query.rangeBounds field
      rangeOverlaps lo hi event.1 event.2
    | _, _ => true

lemma keeps_iff {w : TimeWindowing} : w.keeps window zone query ↔
      w.windowOverlaps window (query.rangeBounds w.field).1 (query.rangeBounds w.field).2 ∧
      ∀ field lo hi, w.eventTimeField = some field → zone = some (lo, hi) →
        rangeOverlaps lo hi (query.rangeBounds field).1 (query.rangeBounds field).2 := by
  cases h : w.windowOverlaps window (query.rangeBounds w.field).1 (query.rangeBounds w.field).2 with
  | false => simp [keeps, h]
  | true =>
    cases he : w.eventTimeField with
    | none => simp [keeps, h, he]
    | some field =>
      cases zone with
      | none => simp [keeps, h, he]
      | some z =>
        obtain ⟨lo, hi⟩ := z
        simp only [keeps, h, he, Bool.not_true, Bool.false_eq_true, if_false, true_and,
          Option.some.injEq, Prod.mk.injEq, and_imp]
        constructor
        · rintro hz _ _ _ rfl rfl rfl
          exact hz
        · exact fun hz => hz field lo hi rfl rfl rfl

def prune (windows : List (Int × Option (Int × Int))) (query : Query) : List Int :=
  (windows.filter (fun e => w.keeps e.1 e.2 query)).map Prod.fst

def partitionOp (f : TimeFields) (acc : List (Int × WindowAcc K) × List (DocOp K))
    (op : DocOp K) : List (Int × WindowAcc K) × List (DocOp K) :=
  match op with
  | .upsert doc =>
    (OrdMap.alter (WindowAcc.push (f.eventMicros doc) op) (w.docWindow f.cal doc f.windowFormat) acc.1,
      acc.2)
  | .delete _ => (acc.1, acc.2 ++ [op])

def partitionBatch (f : TimeFields) (batch : CommitBatch K) :
    List (WindowBatch K) × List (DocOp K) :=
  let split := batch.ops.foldl (w.partitionOp f) ([], [])
  (split.1.map (fun e =>
    { window := e.1
      batch :=
        { ops := e.2.ops
          checkpoint := batch.checkpoint
          batchId := batch.batchId ++ "#w" ++ toString e.1
          fromCheckpoint := none
          safeCheckpoint := batch.safeCheckpoint }
      eventMin := e.2.eventMin
      eventMax := e.2.eventMax }), split.2)

end TimeWindowing

open List

def DocOp.isDelete : DocOp K → Bool
  | .upsert _ => false
  | .delete _ => true

def TimeWindowing.upsertsIn (w : TimeWindowing) (f : TimeFields) (window : Int) (ops : List (DocOp K)) :
    List (DocOp K) :=
  ops.filter (fun op => match op with
    | .upsert doc => decide (w.docWindow f.cal doc f.windowFormat = window)
    | .delete _ => false)

def TimeFields.events (f : TimeFields) (ops : List (DocOp K)) : List Int :=
  ops.filterMap (fun op => match op with
    | .upsert doc => f.eventMicros doc
    | .delete _ => none)

lemma min?_snoc (l : List Int) (a : Int) : (l ++ [a]).min? = some (l.min?.elim a (min · a)) := by
  cases l with
  | nil => rfl
  | cons b l => simp [List.min?]

lemma max?_snoc (l : List Int) (a : Int) : (l ++ [a]).max? = some (l.max?.elim a (max · a)) := by
  cases l with
  | nil => rfl
  | cons b l => simp [List.max?]

namespace TimeWindowing

variable {w : TimeWindowing} {f : TimeFields}

def window? (w : TimeWindowing) (f : TimeFields) (ops : List (DocOp K)) (window : Int) :
    Option (WindowAcc K) :=
  if w.upsertsIn f window ops = [] then none
  else some ⟨w.upsertsIn f window ops, (f.events (w.upsertsIn f window ops)).min?,
    (f.events (w.upsertsIn f window ops)).max?⟩

section

variable (ops : List (DocOp K))

lemma upsertsIn_snoc_upsert (doc : Document K) (window : Int) :
    w.upsertsIn f window (ops ++ [.upsert doc]) =
      if w.docWindow f.cal doc f.windowFormat = window then w.upsertsIn f window ops ++ [.upsert doc]
      else w.upsertsIn f window ops := by
  by_cases h : w.docWindow f.cal doc f.windowFormat = window <;> simp [upsertsIn, h]

lemma upsertsIn_snoc_delete (key : K) (window : Int) :
    w.upsertsIn f window (ops ++ [.delete key]) = w.upsertsIn f window ops := by
  simp [upsertsIn]

lemma push_window? (doc : Document K) (window : Int) :
    WindowAcc.push (f.eventMicros doc) (.upsert doc) (w.window? f ops window) =
      ⟨w.upsertsIn f window ops ++ [.upsert doc],
        (f.events (w.upsertsIn f window ops ++ [.upsert doc])).min?,
        (f.events (w.upsertsIn f window ops ++ [.upsert doc])).max?⟩ := by
  have hacc : (w.window? f ops window).getD ⟨[], none, none⟩ = ⟨w.upsertsIn f window ops,
      (f.events (w.upsertsIn f window ops)).min?, (f.events (w.upsertsIn f window ops)).max?⟩ := by
    unfold window?
    split
    · rename_i h
      simp [h, TimeFields.events]
    · rfl
  simp only [WindowAcc.push, hacc]
  cases he : f.eventMicros doc with
  | none => simp [TimeFields.events, he]
  | some ev => simp [TimeFields.events, he, min?_snoc, max?_snoc]

lemma partition_fold : OrdMap.Sorted (ops.foldl (w.partitionOp f) ([], [])).1 ∧
    (∀ window, OrdMap.get? (ops.foldl (w.partitionOp f) ([], [])).1 window = w.window? f ops window) ∧
    (ops.foldl (w.partitionOp f) ([], [])).2 = ops.filter DocOp.isDelete := by
  induction ops using List.reverseRecOn with
  | nil => exact ⟨Pairwise.nil, fun _ => rfl, rfl⟩
  | append_singleton ops op ih =>
    obtain ⟨hs, hget, hdel⟩ := ih
    rw [foldl_append, foldl_cons, foldl_nil]
    cases op with
    | delete key =>
      refine ⟨hs, fun window => ?_, ?_⟩
      · simp only [partitionOp, hget, window?, upsertsIn_snoc_delete]
      · rw [filter_append, partitionOp, hdel]
        rfl
    | upsert doc =>
      refine ⟨hs.alter _ _, fun window => ?_, ?_⟩
      · simp only [partitionOp, OrdMap.get?_alter hs, hget]
        by_cases h : w.docWindow f.cal doc f.windowFormat = window
        · rw [if_pos h, h, push_window?, window?, upsertsIn_snoc_upsert, if_pos h, if_neg (by simp)]
        · rw [if_neg h, window?, window?, upsertsIn_snoc_upsert, if_neg h]
      · rw [filter_append, partitionOp, hdel]
        exact (append_nil _).symm

end

def windowBatch (w : TimeWindowing) (f : TimeFields) (batch : CommitBatch K) (window : Int) :
    WindowBatch K where
  window := window
  batch :=
    { ops := w.upsertsIn f window batch.ops
      checkpoint := batch.checkpoint
      batchId := batch.batchId ++ "#w" ++ toString window
      fromCheckpoint := none
      safeCheckpoint := batch.safeCheckpoint }
  eventMin := (f.events (w.upsertsIn f window batch.ops)).min?
  eventMax := (f.events (w.upsertsIn f window batch.ops)).max?

lemma mem_partition :
    wb ∈ (w.partitionBatch f batch).1 ↔ w.upsertsIn f wb.window batch.ops ≠ [] ∧
      wb = w.windowBatch f batch wb.window := by
  obtain ⟨hs, hget, _⟩ := partition_fold (w := w) (f := f) batch.ops
  have hmem : ∀ window acc, (window, acc) ∈ (batch.ops.foldl (w.partitionOp f) ([], [])).1 ↔
      w.upsertsIn f window batch.ops ≠ [] ∧ acc = ⟨w.upsertsIn f window batch.ops,
        (f.events (w.upsertsIn f window batch.ops)).min?,
        (f.events (w.upsertsIn f window batch.ops)).max?⟩ := by
    intro window acc
    rw [OrdMap.mem_iff_get? hs, hget, window?]
    split
    · rename_i h
      simp [h]
    · rename_i h
      exact ⟨fun he => ⟨h, (Option.some.inj he).symm⟩, fun he => congrArg some he.2.symm⟩
  simp only [partitionBatch, mem_map]
  constructor
  · rintro ⟨⟨window, acc⟩, hin, rfl⟩
    obtain ⟨hne, rfl⟩ := (hmem window acc).mp hin
    exact ⟨hne, rfl⟩
  · rintro ⟨hne, hwb⟩
    exact ⟨(wb.window, _), (hmem _ _).mpr ⟨hne, rfl⟩, hwb.symm⟩

lemma partition_deletes (batch : CommitBatch K) :
    (w.partitionBatch f batch).2 = batch.ops.filter DocOp.isDelete :=
  (partition_fold batch.ops).2.2

lemma partition_sorted (batch : CommitBatch K) :
    (w.partitionBatch f batch).1.Pairwise (fun a b => a.window < b.window) := by
  simp only [partitionBatch, pairwise_map]
  exact (partition_fold batch.ops).1

end TimeWindowing

open Option

def windowStart (len epochUs : Int) : Int := wrap64 (epochUs / len * len)

def spanOverlaps (len windowStart : Int) (lo hi : Option Int) : Bool :=
  let windowEnd := wrap64 (windowStart + len)
  lo.all (fun l => decide (l < windowEnd)) && hi.all (fun h => decide (windowStart ≤ h))

/-- Over the integers: the multiple of the length whose window has the instant in it. -/
structure IsWindow (len t start : Int) : Prop where
  multiple : len ∣ start
  le : start ≤ t
  lt : t < start + len

/-- An instant of the 64-bit range that lies in the window and within the bounds. -/
structure Meets (len start : Int) (lo hi : Option Int) (t : Int) : Prop where
  range : InI64 t
  le : start ≤ t
  lt : t < start + len
  lower : ∀ l, lo = some l → l ≤ t
  upper : ∀ h, hi = some h → t ≤ h

/-- Without a lower bound the test is exact, and so it is for a window after the upper bound. Otherwise it is exact if
the window ends inside the 64-bit range and the bounds are in order, or the window ends before them. A window that
ends outside has its end wrapped round: then it is exact below that end, or for bounds out of order. -/
def OverlapExact (len start : Int) (lo hi : Option Int) : Prop :=
  ∀ l, lo = some l → (∃ h, hi = some h ∧ h < start) ∨
    if start + len < 2 ^ 63 then start + len ≤ l ∨ ∀ h, hi = some h → l ≤ h
    else l < start + len - 2 ^ 64 ∨ ∃ h, hi = some h ∧ h < l

variable {len t start : Int}

lemma IsWindow.floor (hlen : 0 < len) (t : Int) : IsWindow len t (t / len * len) := by
  have hsplit := ediv_mul_add_emod t len
  have hlo := emod_nonneg t hlen.ne'
  have hhi := emod_lt_of_pos t hlen
  exact ⟨dvd_mul_left _ _, by omega, by omega⟩

lemma IsWindow.unique (hlen : 0 < len) (h : IsWindow len t start) : start = t / len * len := by
  obtain ⟨k, rfl⟩ := h.multiple
  have hk : t / len = k := by
    rw [ediv_eq_iff_of_pos hlen]
    constructor
    · linarith [h.le]
    · linarith [h.lt]
  rw [hk, mul_comm]

lemma wrap64_eq_self : wrap64 x = x ↔ InI64 x := by
  unfold wrap64 InI64
  omega

lemma windowStart_exact (hlen : 0 < len) (ht : InI64 t) :
    (InI64 (t / len * len) ∧ IsWindow len t (windowStart len t)) ↔ -2 ^ 63 ≤ t / len * len := by
  constructor
  · exact fun h => h.1.1
  · intro hlo
    have hin : InI64 (t / len * len) := ⟨hlo, (IsWindow.floor hlen t).le.trans_lt ht.2⟩
    refine ⟨hin, ?_⟩
    rw [windowStart, wrap64_eq_self.mpr hin]
    exact .floor hlen t

lemma exists_meets (hlen : 0 < len) (hs : InI64 start) (hlo : ∀ l, lo = some l → InI64 l) :
    (∃ t, Meets len start lo hi t) ↔ (∀ h, hi = some h → start ≤ h) ∧
      ∀ l, lo = some l → l < start + len ∧ ∀ h, hi = some h → l ≤ h := by
  constructor
  · rintro ⟨t, ht⟩
    refine ⟨fun h hh => ht.le.trans (ht.upper h hh), fun l hl => ⟨(ht.lower l hl).trans_lt ht.lt, fun h hh => ?_⟩⟩
    exact (ht.lower l hl).trans (ht.upper h hh)
  · rintro ⟨hstart, hbounds⟩
    cases lo with
    | none => exact ⟨start, hs, le_rfl, by omega, nofun, hstart⟩
    | some l =>
      obtain ⟨hend, hupper⟩ := hbounds l rfl
      obtain ⟨hl₁, hl₂⟩ := hlo l rfl
      refine ⟨max start l, ⟨?_, ?_⟩, le_max_left _ _, ?_, ?_, ?_⟩
      · exact hs.1.trans (le_max_left _ _)
      · exact max_lt hs.2 hl₂
      · exact max_lt (by omega) hend
      · intro l' hl'
        exact some.inj hl' ▸ le_max_right _ _
      · exact fun h hh => max_le (hstart h hh) (hupper h hh)

lemma spanOverlaps_iff : spanOverlaps len start lo hi ↔
    (∀ l, lo = some l → l < wrap64 (start + len)) ∧ ∀ h, hi = some h → start ≤ h := by
  cases lo <;> cases hi <;> simp [spanOverlaps]

lemma spanOverlaps_exact (hlen : InI64 len) (hpos : 0 < len) (hs : InI64 start)
    (hlo : ∀ l, lo = some l → InI64 l) :
    (spanOverlaps len start lo hi ↔ ∃ t, Meets len start lo hi t) ↔ OverlapExact len start lo hi := by
  rw [spanOverlaps_iff, exists_meets hpos hs hlo, OverlapExact]
  cases lo with
  | none => simp
  | some l =>
    obtain ⟨hl₁, hl₂⟩ := hlo l rfl
    unfold InI64 at hlen hs
    by_cases hend : start + len < 2 ^ 63
    · rw [wrap64_eq_self.mpr ⟨by omega, hend⟩]
      cases hi with
      | none =>
        simp only [if_pos hend]
        simp
      | some h =>
        simp only [some.injEq, forall_eq', exists_eq_left', if_pos hend]
        omega
    · have hwrap : wrap64 (start + len) = start + len - 2 ^ 64 := by
        unfold wrap64
        omega
      rw [hwrap]
      cases hi with
      | none =>
        have hlast : l < start + len := by omega
        simp only [if_neg hend]
        simp [hlast]
      | some h =>
        simp only [some.injEq, forall_eq', exists_eq_left', if_neg hend]
        omega

/-- Window arithmetic over the 64-bit range, for every window length: where it is exact. -/
theorem window_arithmetic_exact_iff (hlen : InI64 len) (hpos : 0 < len) :
    (∀ (w : TimeWindowing) (t : Int), w.windowOf t = windowStart w.granularity.micros t) ∧
    (∀ (w : TimeWindowing) (start : Int) (lo hi : Option Int),
      w.windowOverlaps start lo hi = spanOverlaps w.granularity.micros start lo hi) ∧
    (∀ t, InI64 t → ((InI64 (t / len * len) ∧ IsWindow len t (windowStart len t) ∧
      ∀ start, IsWindow len t start → start = windowStart len t) ↔ -2 ^ 63 ≤ t / len * len)) ∧
    ∀ start lo hi, InI64 start → (∀ l, lo = some l → InI64 l) → (∀ h, hi = some h → InI64 h) →
      ((spanOverlaps len start lo hi = true ↔ ∃ t, Meets len start lo hi t) ↔ OverlapExact len start lo hi) := by
  refine ⟨fun _ _ => rfl, fun _ _ _ _ => rfl, fun t ht => ?_, fun start lo hi hs hlo _ =>
    spanOverlaps_exact hlen hpos hs hlo⟩
  rw [← windowStart_exact hpos ht]
  constructor
  · exact fun h => ⟨h.1, h.2.1⟩
  · exact fun h => ⟨h.1, h.2, fun start hw => (hw.unique hpos).trans (h.2.unique hpos).symm⟩

/-- A day of 2024, and a query of it. -/
theorem window_arithmetic_one_day : IsWindow 86400000000 1704067260000000 (windowStart 86400000000 1704067260000000) ∧
    (spanOverlaps 86400000000 1704067200000000 (some 1704067260000000) none = true ↔
      ∃ t, Meets 86400000000 1704067200000000 (some 1704067260000000) none t) := by
  obtain ⟨-, -, hstart, hspan⟩ := @window_arithmetic_exact_iff 86400000000 (by decide) (by decide)
  refine ⟨((hstart 1704067260000000 (by decide)).mpr (by decide)).2.1, (hspan _ _ _ (by decide) ?_ (by simp)).mpr ?_⟩
  · intro l hl
    exact some.inj hl ▸ by decide
  · rintro l ⟨⟩
    exact .inr (by decide)

/-- The first instant of the range has its window outside of it: the start is wrapped round and lies after the
instant. The last hour of the range ends outside: no instant of it is found by a query with a lower bound. And a
window is found by bounds that no instant satisfies. -/
theorem window_arithmetic_wraps : windowStart 3600000000 (-2 ^ 63) = 9223372033309551616 ∧
    spanOverlaps 3600000000 9223372036800000000 (some 9223372036800000000) none = false ∧
    Meets 3600000000 9223372036800000000 (some 9223372036800000000) none 9223372036800000000 ∧
    spanOverlaps 3600000000 0 (some 8) (some 3) = true ∧ ¬ ∃ t, Meets 3600000000 0 (some 8) (some 3) t := by
  refine ⟨by decide, by decide, ⟨by decide, le_rfl, by decide, ?_, nofun⟩, by decide, ?_⟩
  · exact fun l hl => (some.inj hl).ge
  · rintro ⟨t, ht⟩
    have h₁ := ht.lower 8 rfl
    have h₂ := ht.upper 3 rfl
    omega

end GrowlerDB.Core
