import GrowlerDB.Engine.WindowedRun
import GrowlerDB.Index.Pruning

namespace GrowlerDB.Engine
open Core Index Lib List

variable {K : Type} [DecidableEq K] {T : Tantivy K (Document K)}

def Spans (zone : Option (Int × Int)) (x : Int) : Prop :=
  ∀ lo hi, zone = some (lo, hi) → lo ≤ x ∧ x ≤ hi

section

variable (svc : WindowedWriteService)

def WindowedWriteService.zoneValue (doc : Document K) : Option Int :=
  svc.windowing.eventTimeField.bind fun field => (doc.get field).bind (dateValue svc.cal field (svc.formatOf field))

def Visible (s : Shard T) (doc : Document K) : Prop := ∃ k, doc ∈ s.live k

def Recorded (r : Redb) (ops : List (DocOp K)) (x : Int) : Prop :=
  recordedLows svc.timeFields r ops = [] ∨
    ((∃ a ∈ recordedLows svc.timeFields r ops, a ≤ x) ∧ ∃ b ∈ recordedHighs svc.timeFields r ops, x ≤ b)

/-- A batch that moves no zone map: its upserts lie inside the stored and published bounds, and first bounds reach
over every document. -/
structure ZoneSafe (svc : WindowedWriteService) (node : WindowedNode T) (batch : CommitBatch K) :
    Prop where
  stored : ∀ w doc x, .upsert doc ∈ svc.upserts batch w → svc.zoneValue doc = some x →
    Spans (node.disk w).redb.eventBounds x
  published : ∀ d ∈ node.gateway, ∀ doc x, .upsert doc ∈ svc.upserts batch d.window →
    svc.zoneValue doc = some x → Spans d.zone x
  recorded : ∀ w doc x, svc.upserts batch w ≠ [] →
    Visible (node.disk w) doc ∨ .upsert doc ∈ svc.upserts batch w → svc.zoneValue doc = some x →
    Recorded svc (node.disk w).redb (svc.upserts batch w) x

/-- The bounds stored for every window span its visible documents. -/
def StoredCover (node : WindowedNode T) : Prop :=
  ∀ w doc x, Visible (node.disk w) doc → svc.zoneValue doc = some x → Spans (node.disk w).redb.eventBounds x

def GatewayCover (node : WindowedNode T) : Prop :=
  ∀ d ∈ node.gateway, ∀ doc x, Visible (node.disk d.window) doc → svc.zoneValue doc = some x → Spans d.zone x

end

variable {doc : Document K}

section

variable {svc : WindowedWriteService} {order : StagingOrder K} {batch : CommitBatch K}
  {start node : WindowedNode T} {w : Int} {s s' : Shard T}

omit [DecidableEq K] in
lemma Recorded.spans (h : Recorded svc r (svc.upserts batch w) x) :
    Spans (r.setEventBounds (svc.windowBatch batch w).eventMin
      (svc.windowBatch batch w).eventMax).eventBounds x := by
  intro lo hi hz
  have hrec := zone_recorded (f := svc.timeFields) r (svc.upserts batch w)
  change (r.setEventBounds (svc.timeFields.events (svc.upserts batch w)).min?
    (svc.timeFields.events (svc.upserts batch w)).max?).eventBounds = _ at hz
  rw [hz] at hrec
  obtain ⟨hne, hlo, hhi⟩ := hrec
  obtain ⟨hlow, hhigh⟩ := h.resolve_left hne
  exact ⟨(hlo x).mpr hlow, (hhi x).mpr hhigh⟩

lemma reflects_visible (h : s.Reflects m) : Visible s doc ↔ ∃ k, m k = some doc := by
  simp only [Visible, h.live, Option.mem_toList]

lemma Visible.grown (hr : s.Reflects m)
    (hr' : s'.Reflects m') (hg : GrownFrom svc batch w m m') (hv : Visible s' doc) :
    Visible s doc ∨ .upsert doc ∈ svc.upserts batch w := by
  obtain ⟨k, hk⟩ := (reflects_visible hr').mp hv
  exact (hg k doc hk).imp_left (fun h => (reflects_visible hr).mpr ⟨k, h⟩)

lemma ZoneSafe.spans (hc : ZoneSafe svc start batch) (hi : StoredCover svc start)
    (hx : svc.zoneValue doc = some x)
    (hv : Visible (start.disk w) doc ∨ .upsert doc ∈ svc.upserts batch w)
    (hb : s.redb.eventBounds = (start.disk w).redb.eventBounds ∨
      s.redb.eventBounds = ((start.disk w).redb.setEventBounds (svc.windowBatch batch w).eventMin
        (svc.windowBatch batch w).eventMax).eventBounds) : Spans s.redb.eventBounds x := by
  have hold : Spans (start.disk w).redb.eventBounds x := by
    rcases hv with hv | hv
    · exact hi w doc x hv hx
    · exact hc.stored w doc x hv hx
  rcases hb with hb | hb
  · rwa [hb]
  · rw [hb]
    by_cases hne : svc.upserts batch w = []
    · -- no upserts, so the batch carries no event bounds for this window
      have hnone : (svc.windowBatch batch w).eventMin = none := by
        change (svc.timeFields.events (svc.upserts batch w)).min? = none
        rw [hne]
        rfl
      rwa [hnone]
    · exact (hc.recorded w doc x hne hv hx).spans

lemma StoredCover.inside (hi : StoredCover svc start) (hc : ZoneSafe svc start batch)
    (hset : Settled start) (hin : InStages svc order batch start node) : StoredCover svc node := by
  intro w doc x hv hx
  obtain ⟨m, hm⟩ := hset w
  obtain ⟨m', hm', hg, hb⟩ := (hin.shards w).reflects hm
  exact hc.spans hi hx (Visible.grown hm hm' hg hv) hb

lemma GatewayCover.kept (hi : GatewayCover svc start) (hc : ZoneSafe svc start batch)
    (hset : Settled start) (hret : Returned svc order batch start node)
    (hg : node.gateway = start.gateway) : GatewayCover svc node := by
  intro d hd doc x hv hx
  rw [hg] at hd
  obtain ⟨m, hm⟩ := hset d.window
  obtain ⟨m', hm', hgrown, -⟩ := (hret.shards d.window).reflects hm
  rcases Visible.grown hm hm' hgrown hv with hold | hnew
  · exact hi d hd doc x hold hx
  · exact hc.published d hd doc x hnew hx

lemma StoredCover.gateway (hi : StoredCover svc node) (hst : Steady node)
    (hg : node.gateway = node.descriptors) : GatewayCover svc node := by
  intro d hd doc x hv hx
  rw [hg] at hd
  obtain ⟨e, he, rfl⟩ := mem_map.mp hd
  change Spans e.2 x
  rw [hst.zones e he]
  exact hi e.1 doc x hv hx

/-- In every state of a run whose calls are all zone safe, the stored bounds cover the data, also half way through a
call and after a crash, and the gateway's copy does whenever no write is in progress. -/
theorem zone_maps_cover {commitChunk : Nat} {muxed : List Int} {busy : Bool}
    (h : Reached svc ZoneSafe commitChunk muxed busy node) :
    StoredCover svc node ∧ (busy = false → GatewayCover svc node) := by
  induction h with
  | boot =>
    refine ⟨?_, fun _ d hd => by cases hd⟩
    rintro w doc x ⟨k, hk⟩
    have hnone := (empty_reflects (T := T) commitChunk).live k
    exact absurd hk (by rw [WindowedNode.empty, hnone]; exact not_mem_nil)
  | returned hr fence order batch hc ih =>
    obtain ⟨hst, hset⟩ := hr.basic.2.1 rfl
    have hret := write_returned (svc.under fence) hst order batch
    have hcover : StoredCover (svc.under fence) _ := StoredCover.inside ih.1 hc hset
      ⟨fun w => (hret.shards w).stage, hret.untouched, hret.steady.toBootable⟩
    refine ⟨hcover, fun _ => ?_⟩
    rcases hret.gateway with hg | hg
    · have hkept : GatewayCover (svc.under fence) _ := GatewayCover.kept (ih.2 rfl) hc hset hret hg
      exact hkept
    · exact hcover.gateway hret.steady hg
  | inside hr fence order batch hc n ih =>
    obtain ⟨hst, hset⟩ := hr.basic.2.1 rfl
    have hcover : StoredCover (svc.under fence) _ := StoredCover.inside ih.1 hc hset
      ((write_meets (svc.under fence) order batch hst _ rfl).1 n)
    exact ⟨hcover, (nomatch ·)⟩
  | @crashed _ node hr ih =>
    have hcover : StoredCover svc node.reboot := ih.1
    exact ⟨hcover, fun _ => hcover.gateway hr.basic.1.reboot rfl⟩

end

namespace SampleNode

def late : CommitBatch Nat := ⟨[.upsert (event 2 20)], ⟨20, some 2⟩, "b", none, none⟩

def published : WindowedNode Docs :=
  Script.after boot (svc.write order first boot).1

def widened : WindowedNode Docs :=
  Script.after published (svc.write order late published).1

/-- An event within the bounds that the first one has set. -/
def spanned : CommitBatch Nat := ⟨[.upsert (event 3 10)], ⟨20, some 2⟩, "b", none, none⟩

lemma upserts_single {batch : CommitBatch Nat} (hb : batch.ops = [.upsert (event key 10)]) (hne : svc.upserts batch w ≠ []) :
    w = 0 ∧ svc.upserts batch w = [.upsert (event key 10)] := by
  simp only [WindowedWriteService.upserts, TimeWindowing.upsertsIn, hb] at hne ⊢
  rw [filter_cons] at hne ⊢
  split_ifs at hne ⊢ with hw
  · exact ⟨(of_decide_eq_true hw).symm, rfl⟩
  · exact absurd rfl hne

lemma first_safe : ZoneSafe svc boot first := by
  refine ⟨fun _ _ _ _ _ _ _ hz => (nomatch hz), fun _ hd => (nomatch hd), ?_⟩
  intro w doc x hne hv hx
  obtain ⟨-, hops⟩ := upserts_single rfl hne
  rw [hops] at hv ⊢
  rcases hv with ⟨k, hk⟩ | hv
  · have hk : doc ∈ Docs.find [] k := hk
    cases hk
  · obtain rfl : doc = event 1 10 := by simpa using hv
    obtain rfl : (10 : Int) = x := Option.some.inj hx
    rw [show (boot.disk w).redb = Redb.empty from rfl]
    exact .inr ⟨⟨10, by decide, le_refl _⟩, 10, by decide, le_refl _⟩

lemma spanned_safe : ZoneSafe svc published spanned := by
  have hbounds : (published.disk 0).redb.eventBounds = some (10, 10) := rfl
  have hspans : Spans (some (10, 10)) 10 := by
    rintro lo hi ⟨⟩
    exact ⟨le_refl _, le_refl _⟩
  have hmem : ∀ w doc x, .upsert doc ∈ svc.upserts spanned w → svc.zoneValue doc = some x → w = 0 ∧ x = 10 := by
    intro w doc x hdoc hx
    obtain ⟨hw, hops⟩ := upserts_single (show spanned.ops = [.upsert (event 3 10)] from rfl) (ne_nil_of_mem hdoc)
    rw [hops] at hdoc
    obtain rfl : doc = event 3 10 := by simpa using hdoc
    exact ⟨hw, (Option.some.inj hx).symm⟩
  refine ⟨fun w doc x hdoc hx => ?_, fun d hd doc x hdoc hx => ?_, fun w doc x hne hv hx => ?_⟩
  · obtain ⟨rfl, rfl⟩ := hmem w doc x hdoc hx
    rwa [hbounds]
  · obtain ⟨-, rfl⟩ := hmem _ doc x hdoc hx
    obtain rfl : d = ⟨0, some (10, 10), false⟩ := mem_singleton.mp hd
    exact hspans
  · obtain ⟨rfl, hops⟩ := upserts_single (show spanned.ops = [.upsert (event 3 10)] from rfl) hne
    have hx10 : x = 10 := by
      rcases hv with ⟨k, hk⟩ | hv
      · have hk : doc ∈ Docs.find [(1, event 1 10)] k := hk
        have hdoc : doc = event 1 10 := by
          simp [Docs, listTantivy] at hk
          exact hk.2
        rw [hdoc] at hx
        exact (Option.some.inj hx).symm
      · exact (hmem 0 doc x hv hx).2
    subst hx10
    rw [hops]
    exact .inr ⟨⟨10, by decide +kernel, le_refl _⟩, 10, by decide +kernel, le_refl _⟩

end SampleNode

open SampleNode

/-- A second batch whose event the published zone map spans. -/
theorem zone_maps_cover_second : StoredCover svc (Script.after published (svc.write order spanned published).1) ∧
      (false = false → GatewayCover svc (Script.after published (svc.write order spanned published).1)) :=
  zone_maps_cover (.returned (.returned .boot .unrestricted order first first_safe) .unrestricted order spanned
    spanned_safe)

/-- A late event in a window that is published already widens the stored bounds only: with no write
in progress the gateway's copy leaves the event out. -/
theorem gateway_zone_stale : Reached svc (fun _ _ _ => True) 0 [] false widened ∧ ∃ d ∈ widened.gateway, ∃ doc x,
        Visible (widened.disk d.window) doc ∧ svc.zoneValue doc = some x ∧
        ¬ Spans d.zone x := by
  refine ⟨.returned (.returned .boot .unrestricted order first trivial)
    .unrestricted order late trivial, ⟨0, some (10, 10), false⟩, ?_,
    event 2 20, 20, ⟨2, ?_⟩, rfl, ?_⟩
  · rw [show widened.gateway = [⟨0, some (10, 10), false⟩] from rfl]
    exact mem_cons_self
  · rw [show (widened.disk 0).live 2 = [event 2 20] from rfl]
    exact mem_cons_self
  · intro h
    exact absurd (h 10 10 rfl).2 (by decide)

end GrowlerDB.Engine
