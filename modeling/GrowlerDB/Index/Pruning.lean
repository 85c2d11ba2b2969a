import GrowlerDB.Index.Schema
import GrowlerDB.Index.Shard

namespace GrowlerDB.Index
open Core Lib List Option Segment TimeWindowing Except Text Query

variable {e : String} {window : Int} {cal : Calendar} {v : Value}

variable {K : Type} {s : Segment K} {w : TimeWindowing} {f : TimeFields}

/-- The bounds hold of what the column holds; a document without a value leaves them open. -/
def Bounded (s : Segment K) (doc : Document K) (field : String) (format : Option TimeFormat)
    (bounds : Option Int × Option Int) : Prop :=
  match s.dateColumn doc field format with
  | none => bounds = (none, none)
  | some x => Admits bounds x

lemma Bounded.open (doc : Document K) (field : String) (format : Option TimeFormat) :
    Bounded s doc field format (none, none) := by
  unfold Bounded
  split
  · rfl
  · exact ⟨by simp, by simp⟩

variable {doc : Document K} {format : Option TimeFormat} {field : String}

lemma Bounded.narrowAll (ha : Bounded s doc field format acc)
    (hq : ∀ q ∈ qs, Bounded s doc field format (q.rangeBounds field)) :
    Bounded s doc field format (Query.narrowAll field acc qs) := by
  cases hx : s.dateColumn doc field format with
  | none =>
    simp only [Bounded, hx] at ha hq ⊢
    subst ha
    induction qs with
    | nil => rfl
    | cons q qs ih =>
      rw [Query.narrowAll, hq q mem_cons_self]
      exact ih (fun r hr => hq r (mem_cons_of_mem _ hr))
  | some x =>
    simp only [Bounded, hx] at ha hq ⊢
    exact ha.narrowAll hq

variable {x : Int}

lemma rangeBound_of_parse {v : Option String} (h : v.bind parseI64 = some x) :
    s.rangeBound v = .ok (some x) := by
  cases v with
  | none => simp at h
  | some v => simp [Segment.rangeBound, parseDateQueryBound_of_parse s.cal h]

lemma execRange_bounded (h : s.execRange doc field format lower li upper ui = .ok true) :
    Bounded s doc field format (lower.bind parseI64, upper.bind parseI64) := by
  unfold execRange at h
  split at h
  · rename_i lo hi hlo hhi
    unfold Bounded
    cases hx : s.dateColumn doc field format with
    | none => simp [hx] at h
    | some x =>
      simp only [hx, ok.injEq, Bool.and_eq_true] at h
      constructor
      · intro l hl
        have hlow : lo = some l := by
          rw [rangeBound_of_parse hl] at hlo
          exact (ok.inj hlo).symm
        have hle := h.1
        simp only [aboveLower, hlow, all_some] at hle
        split at hle
        · exact of_decide_eq_true hle
        · exact (of_decide_eq_true hle).le
      · intro u hu
        have hhigh : hi = some u := by
          rw [rangeBound_of_parse hu] at hhi
          exact (ok.inj hhi).symm
        have hle := h.2
        simp only [belowUpper, hhigh, all_some] at hle
        split at hle
        · exact of_decide_eq_true hle
        · exact (of_decide_eq_true hle).le
  all_goals cases h

section

section

variable {P : Query → Prop} (hf : s.dateFields field = some format)
  (hbool : ∀ must should mustNot filter, P (.bool must should mustNot filter) →
    (∀ q ∈ must, P q) ∧ ∀ q ∈ filter, P q)
  (hrange : ∀ f lower li upper ui, P (.range f lower li upper ui) →
    s.exec doc (.range f lower li upper ui) = .ok true)
include hf hbool hrange

mutual

/-- A property of queries that passes to their conjunctions, and by which a range matches, forces only
bounds that the document's column meets. -/
lemma bounded_of :
    (q : Query) → P q → Bounded s doc field format (q.rangeBounds field)
  | .range f lower li upper ui, h => by
    rw [rangeBounds]
    split
    · rename_i hff
      subst hff
      have hexec := hrange _ _ _ _ _ h
      simp only [exec, hf] at hexec
      exact execRange_bounded hexec
    · exact Bounded.open doc field format
  | .bool must should mustNot filter, h => by
    obtain ⟨hm, hfl⟩ := hbool _ _ _ _ h
    rw [rangeBounds]
    exact ((Bounded.open doc field format).narrowAll (bounded_of_all must hm)).narrowAll
      (bounded_of_all filter hfl)
  | .matchAll, _ | .term _ _, _ | .terms _ _, _ | .matchText _ _ _, _ | .phrase _ _ _, _
  | .startsWith _ _, _ | .wildcard _ _, _ | .fuzzy _ _ _, _ | .regex _ _, _ | .fieldExists _, _
  | .ipCidr _ _, _ | .boost _ _, _ | .knn _ _ _ _, _ => Bounded.open doc field format

lemma bounded_of_all :
    (qs : List Query) → (∀ q ∈ qs, P q) → ∀ q ∈ qs, Bounded s doc field format (q.rangeBounds field)
  | [], _ => by simp
  | q :: qs, h => by
    intro r hr
    rcases mem_cons.mp hr with he | hr
    · rw [he]
      exact bounded_of q (h q mem_cons_self)
    · exact bounded_of_all qs (fun p hp => h p (mem_cons_of_mem _ hp)) r hr

end

end

end

/-- The shard's schema and the windowing describe the same fields: both time fields are DATE fields
under the declared formats. -/
structure Deployed (w : TimeWindowing) (f : TimeFields) (s : Segment K) : Prop where
  cal : s.cal = f.cal
  window : s.dateFields w.field = some f.windowFormat
  zone : f.eventTimeField = w.eventTimeField
  event : ∀ e, w.eventTimeField = some e → s.dateFields e = some f.eventFormat

def placement (format : Option TimeFormat) (v : Value) (m : Int) : Int :=
  match format, v with
  | none, .ts _ => 0
  | _, _ => m

def InWindowOf (w : TimeWindowing) (p x : Int) : Prop :=
  let start := p / w.granularity.micros * w.granularity.micros
  InI64 start ∧ InI64 (start + w.granularity.micros) ∧ start ≤ x ∧ x < start + w.granularity.micros

lemma windowOverlaps_point (hp : InI64 p) (x : Int) :
    w.windowOverlaps (w.windowOf p) (some x) (some x) ↔ InWindowOf w p x := by
  have hpos := w.granularity.micros_pos
  have hsmall := w.granularity.micros_small
  have hlow : p / w.granularity.micros * w.granularity.micros ≤ p := Int.ediv_mul_le p hpos.ne'
  have hhigh : p < p / w.granularity.micros * w.granularity.micros + w.granularity.micros := by
    have := Int.lt_ediv_add_one_mul_self p hpos
    rwa [Int.add_mul, Int.one_mul] at this
  simp only [windowOverlaps_iff, windowOf, InWindowOf, some.injEq, forall_eq']
  generalize p / w.granularity.micros * w.granularity.micros = start at *
  generalize w.granularity.micros = len at *
  unfold InI64 at *
  unfold wrap64
  omega

lemma windowOverlaps_admits (h : w.windowOverlaps window (some x) (some x)) (hb : Admits bounds x) :
    w.windowOverlaps window bounds.1 bounds.2 := by
  rw [windowOverlaps_iff] at h ⊢
  exact ⟨fun l hl => lt_of_le_of_lt (hb.1 l hl) (h.1 x rfl), fun u hu => (h.2 x rfl).trans (hb.2 u hu)⟩

/-- What the zone map of the document's window has been told: the bounds stored before the batch
and the event times of the batch's upserts into that window. -/
def recordedLows (f : TimeFields) (prior : Redb) (ops : List (DocOp K)) : List Int :=
  (prior.eventBounds.map Prod.fst).toList ++ f.events ops

def recordedHighs (f : TimeFields) (prior : Redb) (ops : List (DocOp K)) : List Int :=
  (prior.eventBounds.map Prod.snd).toList ++ f.events ops

lemma zone_recorded (prior : Redb) (ops : List (DocOp K)) :
    match (prior.setEventBounds (f.events ops).min? (f.events ops).max?).eventBounds with
    | none => recordedLows f prior ops = []
    | some (lo, hi) => recordedLows f prior ops ≠ [] ∧
        (∀ x, lo ≤ x ↔ ∃ a ∈ recordedLows f prior ops, a ≤ x) ∧
        ∀ x, x ≤ hi ↔ ∃ b ∈ recordedHighs f prior ops, x ≤ b := by
  unfold recordedLows recordedHighs
  cases hmin : (f.events ops).min? with
  | none =>
    have hnil := List.min?_eq_none_iff.mp hmin
    simp only [Redb.setEventBounds, hnil]
    cases hz : prior.eventBounds with
    | none => simp
    | some z => simp
  | some lo =>
    cases hmax : (f.events ops).max? with
    | none => simp [List.max?_eq_none_iff.mp hmax] at hmin
    | some hi =>
      obtain ⟨hlo, hlo'⟩ := List.min?_eq_some_iff.mp hmin
      obtain ⟨hhi, hhi'⟩ := List.max?_eq_some_iff.mp hmax
      have hlows : ∀ x, lo ≤ x ↔ ∃ a ∈ f.events ops, a ≤ x :=
        fun x => ⟨fun h => ⟨lo, hlo, h⟩, fun ⟨a, ha, hax⟩ => (hlo' a ha).trans hax⟩
      have hhighs : ∀ x, x ≤ hi ↔ ∃ b ∈ f.events ops, x ≤ b :=
        fun x => ⟨fun h => ⟨hi, hhi, h⟩, fun ⟨b, hb, hxb⟩ => hxb.trans (hhi' b hb)⟩
      simp only [Redb.setEventBounds]
      cases hz : prior.eventBounds with
      | none => simp [Redb.eventBounds, ne_nil_of_mem hlo, hlows, hhighs]
      | some z => simp [Redb.eventBounds, hlows, hhighs]

lemma fieldMicros_placement (hv : doc.get field = some v) (hm : dateValue cal field format v = some m) :
    (fieldMicros cal doc field format).getD 0 = placement format v m := by
  cases format with
  | some fmt =>
    have hm : (fmt.toMicros cal field v).toOption = some m := hm
    simp [fieldMicros, hv, hm, placement]
  | none => cases v <;> simp_all [fieldMicros, dateValue, placement]

lemma placement_range (hv : v.Fits) (hm : dateValue cal field format v = some m) :
    InI64 (placement format v m) := by
  cases format with
  | some fmt =>
    have hm : (fmt.toMicros cal field v).toOption = some m := hm
    cases ht : fmt.toMicros cal field v with
    | error e => simp [ht, Except.toOption] at hm
    | ok us =>
      obtain rfl : us = m := by simpa [ht, Except.toOption] using hm
      exact TimeFormat.toMicros_range hv ht
  | none =>
    cases v with
    | int i => exact (some.inj hm) ▸ hv
    | ts t =>
      change InI64 0
      decide
    | _ => cases hm

lemma dateColumn_some (hd : s.cal = f.cal) (h : s.dateColumn doc field format = some x) :
    ∃ v m, doc.get field = some v ∧ dateValue f.cal field format v = some m ∧ x = s.column m := by
  simp only [dateColumn, map_eq_some_iff, bind_eq_some_iff] at h
  obtain ⟨m, ⟨v, hv, hm⟩, rfl⟩ := h
  exact ⟨v, m, hv, hd ▸ hm, rfl⟩

lemma window_kept (hd : Deployed w f s) (hfit : ∀ field v, doc.get field = some v → v.Fits) :
    (∀ v m, doc.get w.field = some v → dateValue f.cal w.field f.windowFormat v = some m →
      InWindowOf w (placement f.windowFormat v m) (s.column m)) ↔
    ∀ x, s.dateColumn doc w.field f.windowFormat = some x →
      w.windowOverlaps (w.docWindow f.cal doc f.windowFormat) (some x) (some x) := by
  constructor
  · intro h x hx
    obtain ⟨v, m, hv, hm, rfl⟩ := dateColumn_some hd.cal hx
    rw [docWindow, fieldMicros_placement hv hm, windowOverlaps_point (placement_range (hfit _ v hv) hm)]
    exact h v m hv hm
  · intro h v m hv hm
    have hx : s.dateColumn doc w.field f.windowFormat = some (s.column m) := by
      simp [dateColumn, hv, hd.cal, hm]
    rw [← windowOverlaps_point (placement_range (hfit _ v hv) hm), ← fieldMicros_placement hv hm]
    exact h _ hx

abbrev Recorded (f : TimeFields) (prior : Redb) (ops : List (DocOp K)) (x : Int) : Prop :=
  recordedLows f prior ops = [] ∨ ((∃ a ∈ recordedLows f prior ops, a ≤ x) ∧ ∃ b ∈ recordedHighs f prior ops, x ≤ b)

section

variable (hd : Deployed w f s)
include hd

lemma event_kept (prior : Redb)
    (hz : (prior.setEventBounds (f.events ops).min? (f.events ops).max?).eventBounds = some (lo, hi)) :
    (∀ v m, doc.get e = some v → dateValue f.cal e f.eventFormat v = some m →
      Recorded f prior ops (s.column m)) ↔
    ∀ x, s.dateColumn doc e f.eventFormat = some x → lo ≤ x ∧ x ≤ hi := by
  have hrec := zone_recorded (f := f) prior ops
  rw [hz] at hrec
  obtain ⟨hne, hlo, hhi⟩ := hrec
  constructor
  · intro h x hx
    obtain ⟨v, m, hv, hm, rfl⟩ := dateColumn_some hd.cal hx
    rw [hlo, hhi]
    exact (h v m hv hm).resolve_left hne
  · intro h v m hv hm
    have hx : s.dateColumn doc e f.eventFormat = some (s.column m) := by simp [dateColumn, hv, hd.cal, hm]
    right
    rw [← hlo, ← hhi]
    exact h _ hx

/-- A document that reads back inside its window keeps the window for bounds that its column meets. -/
lemma windowOverlaps_bounded
    (hfit : ∀ field v, doc.get field = some v → v.Fits)
    (hsafe : ∀ v m, doc.get w.field = some v → dateValue f.cal w.field f.windowFormat v = some m →
      InWindowOf w (placement f.windowFormat v m) (s.column m))
    (hb : Bounded s doc w.field f.windowFormat bounds) :
    w.windowOverlaps (w.docWindow f.cal doc f.windowFormat) bounds.1 bounds.2 := by
  unfold Bounded at hb
  split at hb
  · simp [hb, windowOverlaps_iff]
  · rename_i x hx
    exact windowOverlaps_admits ((window_kept hd hfit).mp hsafe x hx) hb

lemma rangeOverlaps_bounded (prior : Redb)
    (hz : (prior.setEventBounds (f.events ops).min? (f.events ops).max?).eventBounds = some (lo, hi))
    (hsafe : ∀ v m, doc.get e = some v → dateValue f.cal e f.eventFormat v = some m →
      Recorded f prior ops (s.column m))
    (hb : Bounded s doc e f.eventFormat bounds) : rangeOverlaps lo hi bounds.1 bounds.2 := by
  unfold Bounded at hb
  split at hb
  · simp [hb, rangeOverlaps_iff]
  · rename_i x hx
    obtain ⟨hlo, hhi⟩ := (event_kept hd prior hz).mp hsafe x hx
    rw [rangeOverlaps_iff]
    exact ⟨fun l hl => (hb.1 l hl).trans hhi, fun u hu => hlo.trans (hb.2 u hu)⟩

end

namespace SampleWindows

def segment : Segment K where
  cal := .blank
  dateFields field := if field = "ts" then some none else none
  column := wrap64
  column_range := wrap64_in
  combine must should mustNot := must.all id && !mustNot.any id && (!must.isEmpty || should.any id)
  combine_must must should mustNot h := by
    simp only [Bool.and_eq_true, List.all_eq_true] at h
    exact h.1.1
  leaf _ _ := .ok false

def windowing : TimeWindowing := ⟨"ts", .daily, none⟩

def fields : TimeFields := ⟨.blank, none, none, none⟩

def instant : Int := 432000000000

def native : Document Nat := ⟨1, [("ts", .ts instant)]⟩

def batch : CommitBatch Nat := ⟨[.upsert native], ⟨10, some 1⟩, "a", none, none⟩

end SampleWindows

open SampleWindows

end GrowlerDB.Index
