import GrowlerDB.Engine.Gateway

namespace GrowlerDB.Engine
open Core Lib Ranking List Ordering

variable {K : Type} [LinearOrder K]

def SameRank (sort : List SortKey) (a b : SearchHit K) : Prop :=
  match sort with
  | [] => a.score = b.score
  | _ => a.sortValues = b.sortValues

instance (sort : List SortKey) (a b : SearchHit K) : Decidable (SameRank sort a b) := by
  cases sort <;> unfold SameRank <;> infer_instance

lemma scoreCmp_swap (x y : F64) : (y.partialCmp x).getD .eq = ((x.partialCmp y).getD .eq).swap :=
  cmpSortValue_swap .asc (.num x) (.num y)

lemma cmpSortValues_swap (orders : List SortOrder) (a b : List SortValue) :
    cmpSortValues orders b a = (cmpSortValues orders a b).swap := by
  induction orders generalizing a b with
  | nil => rfl
  | cons order orders ih => rw [cmpSortValues, cmpSortValues, swap_then, ← ih, ← cmpSortValue_swap]

lemma hitCmp_swap (sort : List SortKey) (a b : SearchHit K) : hitCmp sort b a = (hitCmp sort a b).swap := by
  have hkey : compare (hitKey b) (hitKey a) = (compare (hitKey a) (hitKey b)).swap := Std.OrientedCmp.eq_swap
  unfold hitCmp
  rw [swap_then, hkey]
  cases sort with
  | nil => rw [← scoreCmp_swap]
  | cons s sort => rw [← cmpSortValues_swap]

lemma hitCmp_self (sort : List SortKey) (a : SearchHit K) : hitCmp sort a a = .eq :=
  eq_of_eq_swap (hitCmp_swap sort a a)

lemma hitCmp_copy (hk : hitKey a = hitKey a')
    (hr : SameRank sort a a') (b : SearchHit K) : hitCmp sort a b = hitCmp sort a' b := by
  unfold hitCmp
  rw [hk]
  cases sort with
  | nil =>
    have hr : a.score = a'.score := hr
    simp [hr]
  | cons s sort =>
    have hr : a.sortValues = a'.sortValues := hr
    simp [hr]

lemma key_of_hitCmp_eq {sort : List SortKey} {a b : SearchHit K} (h : hitCmp sort a b = .eq) :
    hitKey a = hitKey b := by
  unfold hitCmp at h
  rw [then_eq_eq, compare_eq_iff_eq] at h
  exact h.2

variable {json : CursorJson K} {req : SearchRequest json.Token}

lemma mergePage_eq (hits : List (SearchHit K)) (hlim : 1 ≤ req.limit) :
    mergePage req hits = ((firsts hitKey [] (sortBy (hitCmp req.sort) hits)).drop
      (effectiveOffset req)).take req.limit := by
  unfold mergePage
  have hpos : req.limit > 0 := hlim
  simp only [hpos, if_true]
  cases hs : req.sort with
  | nil => rfl
  | cons s sort => rfl

/-- A shard that answers the request's body with the first `n` of its own matches. -/
def AnswersTop (req : SearchRequest json.Token) (n : Nat) (shard : ShardSearch json)
    (matching : List (SearchHit K)) : Prop :=
  matching.Pairwise (fun a b => hitCmp req.sort a b = .lt) ∧
    ∃ r, shard (shardBody req) = .ok r ∧ r.hits = matching.take n

variable {shards : List (ShardSearch json)} {lists : List (List (SearchHit K))} {n : Nat} {arrived : List Nat}

lemma sorted_of_answers (hans : List.Forall₂ (AnswersTop req n) shards lists) :
    ∀ l ∈ lists, l.Pairwise (fun a b => hitCmp req.sort a b = .lt) := by
  intro l hl
  obtain ⟨i, hi, rfl⟩ := getElem_of_mem hl
  exact (hans.get (hans.length_eq ▸ hi) hi).1

lemma gather_answers (hans : List.Forall₂ (AnswersTop req n) shards lists) (arrived : List Nat) :
    ∃ bodies : List (SearchResponse K json.Token), gatherResponses shards arrived (shardBody req) = bodies.map .ok ∧
      bodies.map SearchResponse.hits = (arrived.filterMap (fun i => lists[i]?)).map (List.take n) := by
  induction arrived with
  | nil => exact ⟨[], rfl, rfl⟩
  | cons i arrived ih =>
    obtain ⟨bodies, hgather, hhits⟩ := ih
    have hlen := hans.length_eq
    unfold gatherResponses at hgather ⊢
    by_cases hi : i < shards.length
    · have hi' : i < lists.length := hlen ▸ hi
      obtain ⟨-, r, hr, htop⟩ := hans.get hi hi'
      refine ⟨r :: bodies, ?_, ?_⟩
      · rw [filterMap_cons, List.getElem?_eq_getElem hi]
        simp only [Option.map_some, map_cons, hgather]
        exact congrArg (· :: _) hr
      · rw [filterMap_cons, List.getElem?_eq_getElem hi']
        simp only [map_cons, hhits]
        exact congrArg (· :: _) htop
    · have hi' : ¬ i < lists.length := hlen ▸ hi
      refine ⟨bodies, ?_, ?_⟩
      · rwa [filterMap_cons, List.getElem?_eq_none (not_lt.mp hi)]
      · rwa [filterMap_cons, List.getElem?_eq_none (not_lt.mp hi')]

omit [LinearOrder K] in
lemma okBodies_map (bodies : List (SearchResponse K json.Token)) : okBodies (bodies.map .ok) = bodies := by
  induction bodies with
  | nil => rfl
  | cons r bodies ih => exact congrArg (r :: ·) ih

omit [LinearOrder K] in
lemma mem_arrived (harrived : arrived.Perm (List.range lists.length))
    (l : List (SearchHit K)) : l ∈ arrived.filterMap (fun i => lists[i]?) ↔ l ∈ lists := by
  rw [mem_filterMap]
  constructor
  · rintro ⟨i, -, hi⟩
    exact mem_of_getElem? hi
  · intro hl
    obtain ⟨i, hi, rfl⟩ := getElem_of_mem hl
    exact ⟨i, harrived.mem_iff.mpr (mem_range.mpr hi), List.getElem?_eq_getElem hi⟩

/-- The page merged from the tops of all the shards, in whatever order they arrived. -/
lemma mergePage_exact (hlim : 1 ≤ req.limit) (harrived : arrived.Perm (List.range lists.length))
    (hn : n = effectiveOffset req + req.limit)
    (hsorted : ∀ l ∈ lists, l.Pairwise (fun a b => hitCmp req.sort a b = .lt))
    (hr : Ranks (hitCmp req.sort) hitKey (fun h => ∃ l ∈ lists, h ∈ l))
    (hu : IsUnion (hitCmp req.sort) hitKey lists u)
    (hhits : hits = ((arrived.filterMap (fun i => lists[i]?)).map (List.take n)).flatten) :
    (mergePage req hits).map hitKey = ((u.drop (effectiveOffset req)).take req.limit).map hitKey ∧
      (∀ h ∈ mergePage req hits, ∃ l ∈ lists, h ∈ l) ∧ ((mergePage req hits).map hitKey).Nodup := by
  subst hhits
  let ls := arrived.filterMap (fun i => lists[i]?)
  let v := unionOf (hitCmp req.sort) hitKey (ls.map (List.take n))
  have hpage : mergePage req (ls.map (List.take n)).flatten =
      (v.drop (effectiveOffset req)).take req.limit := mergePage_eq _ hlim
  have hmem : ∀ l, l ∈ ls ↔ l ∈ lists := mem_arrived harrived
  have hin : ∀ l ∈ ls, ∀ a ∈ l, ∃ l ∈ lists, a ∈ l := fun l hl a ha => ⟨l, (hmem l).mp hl, ha⟩
  have htops : ∀ t ∈ ls.map (List.take n), ∀ a ∈ t, ∃ l ∈ lists, a ∈ l := by
    intro t ht a ha
    obtain ⟨l, hl, rfl⟩ := mem_map.mp ht
    exact hin l hl a (mem_of_mem_take ha)
  have hv : IsUnion (hitCmp req.sort) hitKey (ls.map (List.take n)) v := hr.unionOf htops
  have htake := hr.take_union hin (fun l hl => hsorted l ((hmem l).mp hl)) (hu.congr hmem) hv
  have hvin : ∀ h ∈ v, ∃ l ∈ lists, h ∈ l := fun h hh => by
    obtain ⟨t, ht, hht⟩ := hv.sound h hh
    exact htops t ht h hht
  rw [hpage]
  refine ⟨?_, fun h hh => hvin h (mem_of_mem_drop (mem_of_mem_take hh)), ?_⟩
  · rw [take_drop, take_drop, map_drop, map_drop, ← hn, htake]
  · exact (hr.nodup_keys hv.sorted hvin).sublist
      (((take_sublist _ _).trans (drop_sublist _ _)).map hitKey)

variable {limits : GatewayLimits} {shardsTotal : Nat}

lemma searchInner_refused (h : limits.maxFetch > 0 ∧ req.offset + req.limit > limits.maxFetch) :
    ∃ e, searchInner limits shards shardsTotal arrived req = .error e :=
  ⟨_, if_pos h⟩

lemma searchInner_many (h : ¬ (limits.maxFetch > 0 ∧ req.offset + req.limit > limits.maxFetch))
    (hmany : 2 ≤ shards.length) : searchInner limits shards shardsTotal arrived req =
      scatterGather shards shardsTotal arrived req := by
  unfold searchInner
  rw [if_neg h]
  match shards, hmany with
  | _ :: _ :: _, _ => rfl

variable (shardsTotal) in
lemma scatterGather_answers (hany : shards ≠ [])
    (hallowed : ¬ (req.searchAfter.isSome ∧ (req.sort = [] ∨ sortHasScore req.sort)))
    (harrived : arrived.Perm (List.range shards.length))
    (hans : List.Forall₂ (AnswersTop req n) shards lists) :
    ∃ resp, scatterGather shards shardsTotal arrived req = .ok resp ∧ resp.hits = mergePage req
        ((arrived.filterMap (fun i => lists[i]?)).map (List.take n)).flatten ∧
      resp.nextCursor = nextCursor req resp.hits := by
  obtain ⟨bodies, hgather, hhits⟩ := gather_answers hans arrived
  have hlen : bodies.length = shards.length := by
    have hsome : ∀ i ∈ arrived, (lists[i]?).isSome := by
      intro i hi
      have hi := mem_range.mp (harrived.mem_iff.mp hi)
      rw [hans.length_eq] at hi
      rw [List.getElem?_eq_getElem hi]
      rfl
    have hlists := filterMap_length_eq_length.mpr hsome
    have hbodies := congrArg List.length hhits
    simp only [length_map] at hbodies
    rw [hbodies, hlists, harrived.length_eq, length_range]
  have hne : bodies ≠ [] := fun hnil => by
    rw [hnil] at hlen
    exact hany (length_eq_zero_iff.mp hlen.symm)
  have hfailed : ¬ (req.requireComplete ∧ shards.length - bodies.length > 0) := by
    rw [hlen]
    omega
  unfold scatterGather
  simp only [hgather, okBodies_map, if_neg hallowed, if_neg hne, if_neg hfailed]
  refine ⟨_, rfl, ?_, rfl⟩
  rw [flatMap_def, hhits]

/-- Over two or more shards that all answer with the top of their matches, in whatever order, the page is the
requested slice of the duplicate-free union of all matches in the requested order. A request past the fetch ceiling is
refused. -/
theorem page_exact {u : List (SearchHit K)} (hlim : 1 ≤ req.limit) (hfirst : req.searchAfter = none)
    (hmany : 2 ≤ shards.length) (harrived : arrived.Perm (List.range shards.length))
    (hans : List.Forall₂ (AnswersTop req (req.offset + req.limit)) shards lists)
    (hu : IsUnion (hitCmp req.sort) hitKey lists u)
    (hcopies : ∀ l ∈ lists, ∀ a ∈ l, ∀ l' ∈ lists, ∀ b ∈ l', hitKey a = hitKey b → SameRank req.sort a b) :
    (0 < limits.maxFetch ∧ limits.maxFetch < req.offset + req.limit ∧
      ∃ e, searchInner limits shards shardsTotal arrived req = .error e) ∨
    ∃ resp, searchInner limits shards shardsTotal arrived req = .ok resp ∧
      resp.hits.map hitKey = ((u.drop req.offset).take req.limit).map hitKey ∧
      (∀ h ∈ resp.hits, ∃ l ∈ lists, h ∈ l) ∧ (resp.hits.map hitKey).Nodup := by
  have hoffset : effectiveOffset req = req.offset := by simp [effectiveOffset, hfirst]
  have hallowed : ¬ (req.searchAfter.isSome ∧ (req.sort = [] ∨ sortHasScore req.sort = true)) := by simp [hfirst]
  have hranks : Ranks (hitCmp req.sort) hitKey (fun h => ∃ l ∈ lists, h ∈ l) :=
    hu.ranks (hitCmp_swap req.sort) (hitCmp_self req.sort) (fun a b => key_of_hitCmp_eq)
      (fun a a' ⟨l, hl, ha⟩ ⟨l', hl', ha'⟩ hk => hitCmp_copy hk (hcopies l hl a ha l' hl' a' ha' hk))
  by_cases hfetch : limits.maxFetch > 0 ∧ req.offset + req.limit > limits.maxFetch
  · exact .inl ⟨hfetch.1, hfetch.2, searchInner_refused hfetch⟩
  · have hany : shards ≠ [] := by
      rintro rfl
      simp at hmany
    obtain ⟨resp, hresp, hhits, -⟩ := scatterGather_answers shardsTotal hany hallowed harrived hans
    refine .inr ⟨resp, (searchInner_many hfetch hmany).trans hresp, ?_⟩
    rw [hhits, ← hoffset]
    exact mergePage_exact hlim (hans.length_eq ▸ harrived) (by rw [hoffset])
      (sorted_of_answers hans) hranks hu rfl

namespace SampleSearch

def survives : SortValue → Bool
  | .num x => x.isFinite
  | _ => true

def plainJson : CursorJson Nat where
  Token := SearchAfter Nat
  encodeCursor := id
  decodeCursor c := if c.sortValues.all survives then some c else none
  decode_infinite c x hx hinf := by
    refine if_neg (fun hall => ?_)
    have := all_eq_true.mp hall _ hx
    rw [survives, hinf] at this
    cases this
  decode_comparable t c h v hv := by
    split_ifs at h with hall
    cases h
    have hv := all_eq_true.mp hall _ hv
    cases v with
    | num x =>
      simp only [survives, F64.isFinite, decide_eq_true_eq] at hv
      simp only [SortValue.Comparable, F64.isNan, decide_eq_false_iff_not]
      omega
    | missing => trivial
    | str s => trivial

def hit (key : Nat) (bits : BitVec 64) : SearchHit Nat := ⟨some key, ⟨0⟩, [.num ⟨bits⟩]⟩

def left : List (SearchHit Nat) := [hit 1 0x3FF0000000000000, hit 3 0x4008000000000000]

def right : List (SearchHit Nat) := [hit 2 0x4000000000000000, hit 3 0x4008000000000000]

def all : List (SearchHit Nat) :=
  [hit 1 0x3FF0000000000000, hit 2 0x4000000000000000, hit 3 0x4008000000000000]

def top (matching : List (SearchHit Nat)) : ShardSearch plainJson :=
  fun req => .ok ⟨matching.take req.limit, matching.length, none, false, 0, 0, []⟩

def request : SearchRequest plainJson.Token := ⟨"*", 2, 1, [⟨"n", .asc⟩], none, false⟩

lemma all_union : IsUnion (hitCmp request.sort) hitKey [left, right] all := by
  refine ⟨by decide, by decide, ?_⟩
  intro l hl a ha
  simp only [mem_cons, not_mem_nil, or_false] at hl
  rcases hl with rfl | rfl <;> simp only [left, right, mem_cons, not_mem_nil, or_false] at ha
    <;> rcases ha with rfl | rfl <;> simp [all]

lemma shards_answer : List.Forall₂ (AnswersTop request 3) [top left, top right] [left, right] :=
  .cons ⟨by decide, _, rfl, rfl⟩ (.cons ⟨by decide, _, rfl, rfl⟩ .nil)

end SampleSearch

open SampleSearch

theorem page_exact_overlap :
    ∃ resp, searchInner ⟨100⟩ [top left, top right]
        2 [1, 0] request = .ok resp ∧
      resp.hits.map hitKey = ((all.drop 1).take 2).map hitKey ∧
      (∀ h ∈ resp.hits, ∃ l ∈ [left, right], h ∈ l) ∧
      (resp.hits.map hitKey).Nodup := by
  refine Or.resolve_left (page_exact (by decide) rfl (by decide) (Perm.swap 0 1 [])
    shards_answer all_union (by decide)) ?_
  rintro ⟨-, hlt, -⟩
  exact absurd hlt (by decide)

end GrowlerDB.Engine
