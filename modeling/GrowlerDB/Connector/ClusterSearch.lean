import GrowlerDB.Connector.Convergence
import GrowlerDB.Engine.ScatterGather

namespace GrowlerDB.Connector
open Core Engine Index Lib.Ranking Lib.Replay List

variable {K : Type} [LinearOrder K] {T : Tantivy K (Document K)} {log : Changelog K} {router : KeyRouter K}
  {found : K → Document K → Option (SearchHit K)} {json : CursorJson K} {req : SearchRequest json.Token}

/-- A query's matches in a view, in order; `found` is what the query makes of a document. -/
structure Ranked (found : K → Document K → Option (SearchHit K)) (sort : List SortKey) (docs : K → List (Document K))
    (hits : List (SearchHit K)) : Prop where
  sorted : hits.Pairwise (fun a b => hitCmp sort a b = .lt)
  once : (hits.map hitKey).Nodup
  mem_iff : ∀ h, h ∈ hits ↔ ∃ k, ∃ d ∈ docs k, found k d = some h

lemma stateAt_share (p : WithBot Int) (k : K) : stateAt (share log router i).entries p k =
    if router.route k = i then stateAt log.entries p k else none := by
  rw [stateAt, stateAt, replay_apply, replay_apply, lastChange_share]
  split <;> rfl

lemma Ingesting.Reached.live_table {st : Ingesting T} (hd : Deployed log job router groups)
    (hr : Ingesting.Reached log job router groups chunk st) (hi : i < router.shards)
    (hat : (st.shards i).checkpoint = c ∧ (st.shards i).furthest ≤ position c) (k : K) :
    (st.shards i).shard.live k = (if router.route k = i then stateAt log.entries (position c) k else none).toList := by
  rw [(hr.inStep hd).live_exact hi (hat.1 ▸ hat.2), hat.1, stateAt_share]

/-- In every run, whenever all shards stand at one checkpoint with no interrupted commit past it, a page gathered from
them is that page of the source table at the checkpoint. -/
theorem search_reads_table {st : Ingesting T} (hd : Deployed log job router groups)
    (hr : Ingesting.Reached log job router groups chunk st)
    (hat : ∀ i < router.shards, (st.shards i).checkpoint = c ∧ (st.shards i).furthest ≤ position c)
    (hu : Ranked found req.sort (fun k => (stateAt log.entries (position c) k).toList) u)
    (hparts : ∀ i < router.shards, Ranked found req.sort (st.shards i).shard.live (part i))
    (hans : Forall₂ (AnswersTop req (req.offset + req.limit)) shards ((range router.shards).map part))
    (hany : shards ≠ []) (harrived : arrived.Perm (range router.shards)) (hlim : 1 ≤ req.limit)
    (hfirst : req.searchAfter = none) :
    ∃ resp, scatterGather shards total arrived req = .ok resp ∧
      resp.hits.map hitKey = ((u.drop req.offset).take req.limit).map hitKey := by
  have hlive := fun i (hi : i < router.shards) => hr.live_table hd hi (hat i hi)
  have hin : ∀ l ∈ (range router.shards).map part, ∀ a ∈ l, a ∈ u := by
    intro l hl a ha
    obtain ⟨i, hi, rfl⟩ := mem_map.mp hl
    have hi := mem_range.mp hi
    obtain ⟨k, d, hd, hh⟩ := ((hparts i hi).mem_iff a).mp ha
    rw [hlive i hi] at hd
    refine (hu.mem_iff a).mpr ⟨k, d, ?_, hh⟩
    split at hd
    · exact hd
    · simp at hd
  have hunion : IsUnion (hitCmp req.sort) hitKey ((range router.shards).map part) u := by
    refine ⟨hu.sorted, fun a ha => ?_, fun l hl a ha => ⟨a, hin l hl a ha, rfl⟩⟩
    obtain ⟨k, d, hd, hh⟩ := (hu.mem_iff a).mp ha
    have hi := router.route_lt k
    refine ⟨_, mem_map_of_mem (mem_range.mpr hi), ((hparts _ hi).mem_iff a).mpr ⟨k, d, ?_, hh⟩⟩
    rwa [hlive _ hi, if_pos rfl]
  have hranks := hunion.ranks (hitCmp_swap req.sort) (hitCmp_self req.sort) (fun a b => key_of_hitCmp_eq)
    (by
      rintro a a' ⟨l, hl, ha⟩ ⟨l', hl', ha'⟩ hk b
      rw [inj_on_of_nodup_map hu.once (hin l hl a ha) (hin l' hl' a' ha') hk])
  have hoffset : effectiveOffset req = req.offset := by simp [effectiveOffset, hfirst]
  have hlen : shards.length = router.shards := by simpa using hans.length_eq
  obtain ⟨resp, hresp, hhits, -⟩ := scatterGather_answers total hany (by simp [hfirst]) (hlen ▸ harrived) hans
  refine ⟨resp, hresp, ?_⟩
  rw [hhits, ← hoffset]
  exact (mergePage_exact hlim (by simpa using harrived) (by rw [hoffset]) (sorted_of_answers hans) hranks hunion rfl).1

namespace TwoShards

def first : SearchRequest SampleSearch.plainJson.Token := { SampleSearch.request with offset := 0 }

def one : SearchHit Nat := SampleSearch.hit 1 1

def onlyOne (k : Nat) (_ : Document Nat) : Option (SearchHit Nat) := if k = 1 then some one else none

lemma ranked_one {docs : Nat → List (Document Nat)} (o : Option (Document Nat)) (h : docs 1 = o.toList) :
    Ranked onlyOne first.sort docs (o.map fun _ => one).toList := by
  refine ⟨by cases o <;> simp, by cases o <;> simp, fun a => ⟨fun ha => ?_, fun ⟨k, d, hd, ha⟩ => ?_⟩⟩
  · obtain ⟨d, rfl, rfl⟩ := Option.map_eq_some_iff.mp (Option.mem_toList.mp ha)
    exact ⟨1, d, by simp [h], rfl⟩
  · unfold onlyOne at ha
    split_ifs at ha with hk
    subst hk
    rw [h, Option.mem_toList] at hd
    simpa [hd] using ha.symm

end TwoShards

open TwoShards SampleSearch in
theorem search_reads_two_shards : ∃ st', Ingesting.runOnce table task evenOdd (HashOrder.insertion _) 0 10
      started = .ok st' ∧ (st'.shards 1).shard.live 1 = [doc 1] ∧
    ∃ resp, scatterGather [top [], top [one]] 2 [1, 0] first = .ok resp ∧ resp.hits.map hitKey = [hitKey one] := by
  have hd : Deployed table task evenOdd (· = none) := ⟨numbered, apart, fun owned hg => (nomatch hg)⟩
  obtain ⟨st', hok, hr, hgroup, -, -, hhead, hcursor⟩ :=
    started_reached.runOnce hd (HashOrder.insertion _) 0 (mem_singleton.mpr rfl) rfl bot_le
  have hat : ∀ i < 2, (st'.shards i).checkpoint = some ⟨10, some 1⟩ ∧
      (st'.shards i).furthest ≤ position (some ⟨10, some 1⟩) := by
    intro i hi
    have hin := hr.inStep hd
    refine ⟨hin.at_head numbered (mem_singleton.mpr rfl) hcursor hhead hi ?_, (hin.furthest i hi).trans hhead⟩
    rw [Writer.owned, hgroup]
    exact mem_range.mpr hi
  have hans : Forall₂ (AnswersTop first 2) [top [], top [one]] [[], [one]] :=
    .cons ⟨by decide, _, rfl, rfl⟩ (.cons ⟨by decide, _, rfl, rfl⟩ .nil)
  exact ⟨st', hok, hr.live_table hd (by decide) (hat 1 (by decide)) 1,
    search_reads_table hd hr hat (ranked_one (some (doc 1)) rfl)
      (fun i hi => ranked_one (if evenOdd.route 1 = i then some (doc 1) else none) (hr.live_table hd hi (hat i hi) 1))
      hans (by simp) (Perm.swap 0 1 []) (by decide) rfl⟩

end GrowlerDB.Connector
