import GrowlerDB.Engine.ScatterGather
import GrowlerDB.Lib.Paging

namespace GrowlerDB.Engine
open Core Lib Ranking Paging List Option Except

variable {K : Type} [LinearOrder K] {sort : List SortKey} {lists : List (List (Hit K))}

def ranking (sort : List SortKey) (lists : List (List (Hit K))) : List (Hit K) :=
  sortBy (Hit.cmp sort) lists.flatten

/-- Shards over disjoint documents, none of whose sort values is a NaN, so that the sort orders
them. -/
structure DisjointDocs (lists : List (List (Hit K))) : Prop where
  comparable : ∀ h ∈ lists.flatten, ∀ v ∈ h.sortValues, v.Comparable
  keys : (lists.flatten.map Hit.key).Nodup

lemma compare_toWire (a b : Hit K) : compare (hitKey a.toWire) (hitKey b.toWire) = compare a.key b.key := by
  have hkey : ∀ h : Hit K, hitKey h.toWire = (h.key : WithBot K) := fun _ => rfl
  rw [hkey, hkey]
  rcases lt_trichotomy a.key b.key with h | h | h
  · rw [compare_lt_iff_lt.mpr h, compare_lt_iff_lt.mpr (WithBot.coe_lt_coe.mpr h)]
  · rw [h, compare_eq_iff_eq.mpr rfl, compare_eq_iff_eq.mpr rfl]
  · rw [compare_gt_iff_gt.mpr h, compare_gt_iff_gt.mpr (WithBot.coe_lt_coe.mpr h)]

lemma hitCmp_toWire (hsort : sort ≠ []) (a b : Hit K) : hitCmp sort a.toWire b.toWire = a.cmp sort b := by
  unfold hitCmp Hit.cmp SearchAfter.cmp
  rw [compare_toWire]
  cases sort with
  | nil => exact absurd rfl hsort
  | cons s sort => rfl

lemma Hit.cmp_orders (sort : List SortKey) : Orders (Hit.cmp (K := K) sort) (fun h => ∀ v ∈ h.sortValues, v.Comparable) :=
  (SearchAfter.cmp_orders _).comap Hit.place (fun _ h => h)

variable {a : Hit K}

lemma mem_ranking {h : Hit K} : h ∈ ranking sort lists ↔ h ∈ lists.flatten := mem_sortBy

lemma filter_isAfter_none (sort : List SortKey) (l : List (Hit K)) :
    l.filter (isAfter sort none) = l := filter_eq_self.mpr (fun _ _ => rfl)

section

variable (h : DisjointDocs lists)
include h

omit [LinearOrder K] in
lemma DisjointDocs.key_inj (ha : a ∈ lists.flatten)
    (hb : b ∈ lists.flatten) (hk : a.key = b.key) : a = b :=
  inj_on_of_nodup_map h.keys ha hb hk

lemma DisjointDocs.ranks (sort : List SortKey) :
    Ranks (Hit.cmp sort) Hit.key (· ∈ lists.flatten) := by
  have horders := (Hit.cmp_orders sort).mono h.comparable
  refine ⟨horders, fun a b ha hb => ⟨fun hc => ?_, fun hk => ?_⟩⟩
  · unfold Hit.cmp SearchAfter.cmp at hc
    rw [Ordering.then_eq_eq, compare_eq_iff_eq] at hc
    exact hc.2
  · obtain rfl := h.key_inj ha hb hk
    exact horders.self ha

lemma DisjointDocs.nodup_keys (sort : List SortKey) :
    ((ranking sort lists).map Hit.key).Nodup :=
  (((perm_insertionSort _ _).map Hit.key).nodup_iff).mpr h.keys

lemma DisjointDocs.sorted (sort : List SortKey) :
    (ranking sort lists).Pairwise (fun a b => a.cmp sort b = .lt) :=
  (h.ranks sort).sortBy_lt (fun _ ha => ha) h.keys

lemma DisjointDocs.after_eq_drop (hc : ∀ v ∈ c.sortValues, v.Comparable) :
    (ranking sort lists).filter (isAfter sort (some c)) = (ranking sort lists).drop
      ((ranking sort lists).takeWhile (fun a => !isAfter sort (some c) a)).length := by
  refine filter_eq_drop ((h.sorted sort).imp_of_mem (fun {a b} ha hb hlt hafter => ?_))
  have horders := SearchAfter.cmp_orders (K := K) (sort.map SortKey.order)
  have hva : ∀ v ∈ a.place.sortValues, v.Comparable := h.comparable a (mem_ranking.mp ha)
  have hvb : ∀ v ∈ b.place.sortValues, v.Comparable := h.comparable b (mem_ranking.mp hb)
  simp only [isAfter, beq_iff_eq] at hafter ⊢
  have hca : SearchAfter.cmp (sort.map SortKey.order) c a.place = .lt := by
    rw [horders.swap a.place c hva hc, hafter]
    rfl
  have hcb := horders.lt_of_lt_of_le hc hva hvb hca (by
    have hlt : SearchAfter.cmp (sort.map SortKey.order) a.place b.place = .lt := hlt
    rw [hlt]
    rfl)
  rw [horders.swap c b.place hc hvb, hcb]
  rfl

lemma DisjointDocs.after_hit (hsplit : ranking sort lists = before ++ a :: rest) :
    (ranking sort lists).filter (isAfter sort (some a.place)) = rest := by
  have hsorted := h.sorted sort
  have hin : ∀ b ∈ before ++ a :: rest, b ∈ lists.flatten := fun b hb => mem_ranking.mp (hsplit ▸ hb)
  have hranks := h.ranks sort
  have ha : a ∈ lists.flatten := hin a (by simp)
  rw [hsplit] at hsorted ⊢
  obtain ⟨-, hrest, hbefore⟩ := pairwise_append.mp hsorted
  have hnone : before.filter (isAfter sort (some a.place)) = [] := by
    refine filter_eq_nil_iff.mpr (fun b hb => ?_)
    have hlt : b.cmp sort a = .lt := hbefore b hb a mem_cons_self
    simp only [isAfter, beq_iff_eq]
    exact fun hgt => nomatch hlt.symm.trans hgt
  have hself : ¬ isAfter sort (some a.place) a := by
    have heq : a.cmp sort a = .eq := (hranks.eq_iff a a ha ha).mpr rfl
    simp only [isAfter, beq_iff_eq]
    exact fun hgt => nomatch heq.symm.trans hgt
  have hall : rest.filter (isAfter sort (some a.place)) = rest := by
    refine filter_eq_self.mpr (fun b hb => ?_)
    have hlt : a.cmp sort b = .lt := rel_of_pairwise_cons hrest hb
    simp only [isAfter, beq_iff_eq]
    exact hranks.gt_of_lt ha (hin b (by simp [hb])) hlt
  rw [filter_append, hnone, filter_cons_of_neg hself, hall, nil_append]

end

section

variable {json : CursorJson K}

omit [LinearOrder K] in
lemma decodeAfter_comparable
    (h : decodeAfter json t = .ok (some cursor)) : ∀ v ∈ cursor.sortValues, v.Comparable := by
  cases t with
  | none => cases h
  | some token =>
    unfold decodeAfter at h
    cases hc : json.decodeCursor token with
    | none =>
      simp only [hc] at h
      cases h
    | some c =>
      simp only [hc] at h
      obtain rfl := some.inj (ok.inj h)
      exact json.decode_comparable token c hc

variable {store : StorePages K} {matching : List (Hit K)} {total : Nat} {req : SearchRequest json.Token}

omit [LinearOrder K] in
lemma nodeSearch_lost (h : decodeAfter json req.searchAfter = .error e) :
    nodeSearch json store total req = .error e := by
  unfold nodeSearch
  rw [h]
  rfl

variable (total req) in
lemma nodeSearch_ok {cursor : Option (SearchAfter K)}
    (hd : decodeAfter json req.searchAfter = .ok cursor) (hoff : req.offset = 0)
    (hlim : req.limit ≤ maxNodeFetch) (hs : ServesRanking req.sort store matching) :
    nodeSearch json store total req =
      .ok (pageResponse json ((matching.filter (isAfter req.sort cursor)).take req.limit)
        (storeNext req.sort ((matching.filter (isAfter req.sort cursor)).take req.limit)) total) := by
  have hceil : ¬ 0 + req.limit > maxNodeFetch := by omega
  unfold nodeSearch
  rw [hd, hoff]
  change (if 0 + req.limit > maxNodeFetch then _ else _) = _
  rw [if_neg hceil, hs.pages]
  rfl

end

section

variable {json : CursorJson K}

def leftAfter (sort : List SortKey) (cursor : Option (SearchAfter K)) (l : List (Hit K)) :
    List (SearchHit K) :=
  (l.filter (isAfter sort cursor)).map Hit.toWire

lemma DisjointDocs.wire_inj (h : DisjointDocs lists) (cursor : Option (SearchAfter K))
    {a b : SearchHit K} (ha : ∃ l ∈ lists.map (leftAfter sort cursor), a ∈ l)
    (hb : ∃ l ∈ lists.map (leftAfter sort cursor), b ∈ l) (hk : hitKey a = hitKey b) : a = b := by
  have hwire : ∀ {a : SearchHit K}, (∃ l ∈ lists.map (leftAfter sort cursor), a ∈ l) →
      ∃ h ∈ lists.flatten, h.toWire = a := by
    rintro a ⟨l', hl', ha⟩
    obtain ⟨l, hl, rfl⟩ := mem_map.mp hl'
    obtain ⟨h, hh, rfl⟩ := mem_map.mp ha
    exact ⟨h, mem_flatten.mpr ⟨l, hl, (mem_filter.mp hh).1⟩, rfl⟩
  obtain ⟨h₁, hin₁, rfl⟩ := hwire ha
  obtain ⟨h₂, hin₂, rfl⟩ := hwire hb
  rw [h.key_inj hin₁ hin₂ (WithBot.coe_inj.mp hk)]

lemma DisjointDocs.union (h : DisjointDocs lists) (hsort : sort ≠ [])
    (cursor : Option (SearchAfter K)) : IsUnion (hitCmp sort) hitKey
      (lists.map (leftAfter sort cursor)) (leftAfter sort cursor (ranking sort lists)) where
  sorted := by
    refine pairwise_map.mpr (((h.sorted sort).filter _).imp (fun {a b} hlt => ?_))
    rw [hitCmp_toWire hsort, hlt]
  sound a ha := by
    obtain ⟨h, hh, rfl⟩ := mem_map.mp ha
    obtain ⟨hin, hafter⟩ := mem_filter.mp hh
    obtain ⟨l, hl, hhl⟩ := mem_flatten.mp (mem_ranking.mp hin)
    exact ⟨_, mem_map_of_mem hl, mem_map_of_mem (mem_filter.mpr ⟨hhl, hafter⟩)⟩
  complete l' hl' a ha := by
    obtain ⟨l, hl, rfl⟩ := mem_map.mp hl'
    obtain ⟨h, hh, rfl⟩ := mem_map.mp ha
    obtain ⟨hin, hafter⟩ := mem_filter.mp hh
    have hrank : h ∈ ranking sort lists := mem_ranking.mpr (mem_flatten.mpr ⟨l, hl, hin⟩)
    exact ⟨_, mem_map_of_mem (mem_filter.mpr ⟨hrank, hafter⟩), rfl⟩

variable {limits : GatewayLimits} {req : SearchRequest json.Token} {nodes : List (StorePages K × Nat)}

def nodeShards (json : CursorJson K) (nodes : List (StorePages K × Nat)) : List (ShardSearch json) :=
  nodes.map (fun node => nodeSearch json node.1 node.2)

/-- A scroll that the gateway and its nodes accept, by a sort with no score, over shards that page
correctly through matches that do not change. -/
structure Scrollable (limits : GatewayLimits) (req : SearchRequest json.Token)
    (nodes : List (StorePages K × Nat)) (lists : List (List (Hit K))) : Prop where
  offset : req.offset = 0
  limit_pos : 1 ≤ req.limit
  node_limit : req.limit ≤ maxNodeFetch
  gateway_limit : ¬ (limits.maxFetch > 0 ∧ req.limit > limits.maxFetch)
  sort : req.sort ≠ []
  no_score : sortHasScore req.sort = false
  serves : List.Forall₂ (fun node l => ServesRanking req.sort node.1 l) nodes lists
  docs : DisjointDocs lists

def hasNext (shards limit : Nat) (page : List (SearchHit K)) : Bool :=
  if shards = 1 then !page.isEmpty else page.length == limit

def cursorOf (json : CursorJson K) (h : SearchHit K) : Option json.Token :=
  (searchAfterFromHit h).map json.encodeCursor

def nextPage (json : CursorJson K) (shards : Nat) (req : SearchRequest json.Token)
    (lists : List (List (Hit K))) (cursor : Option (SearchAfter K)) :
    List (SearchHit K) × Option json.Token :=
  let page := (leftAfter req.sort cursor (ranking req.sort lists)).take req.limit
  (page, cursorAfter (hasNext shards req.limit) (cursorOf json) page)

omit [LinearOrder K] in
lemma getLast?_toWire (page : List (Hit K)) :
    (page.map Hit.toWire).getLast?.bind (cursorOf json) =
      (page.getLast?.map Hit.place).map json.encodeCursor := by
  rw [List.getLast?_map]
  cases page.getLast? <;> rfl

variable {cursor : Option (SearchAfter K)} {shardsTotal : Nat} {arrived : List Nat}

section

variable (h : Scrollable limits req nodes lists)
include h

lemma Scrollable.under_ceiling :
    ¬ (limits.maxFetch > 0 ∧ req.offset + req.limit > limits.maxFetch) := by
  rw [h.offset, Nat.zero_add]
  exact h.gateway_limit

lemma Scrollable.effectiveOffset : effectiveOffset req = 0 := by
  simp [Engine.effectiveOffset, h.offset]

lemma Scrollable.answers
    (hd : decodeAfter json req.searchAfter = .ok cursor) :
    List.Forall₂ (AnswersTop req req.limit) (nodeShards json nodes)
      (lists.map (leftAfter req.sort cursor)) := by
  have hlimit : (shardBody req).limit = req.limit := by
    have hpos := h.limit_pos
    have hle := h.node_limit
    unfold maxNodeFetch at hle
    change perShardLimit req = req.limit
    rw [perShardLimit, h.effectiveOffset, if_neg (by omega)]
    omega
  refine List.forall₂_map_left_iff.mpr (List.forall₂_map_right_iff.mpr (h.serves.imp ?_))
  intro node l hs
  refine ⟨pairwise_map.mpr ((hs.sorted.filter _).imp (fun {a b} hlt => ?_)), ?_⟩
  · exact (hitCmp_toWire h.sort a b).trans hlt
  · have hreply := nodeSearch_ok node.2 (shardBody req) hd rfl (hlimit.trans_le h.node_limit) hs
    refine ⟨_, hreply, ?_⟩
    unfold pageResponse leftAfter
    rw [hlimit, map_take]
    rfl

lemma Scrollable.nextCursor_eq
    (page : List (SearchHit K)) : nextCursor req page =
      if page.length == req.limit then page.getLast?.bind (cursorOf json) else none := by
  unfold nextCursor
  simp only [beq_iff_eq]
  by_cases hfull : page.length = req.limit
  · rw [if_pos ⟨h.sort, h.no_score, h.limit_pos, hfull⟩, if_pos hfull]
    cases page.getLast? <;> rfl
  · rw [if_neg (fun hc => hfull hc.2.2.2), if_neg hfull]

end

lemma Scrollable.search_one {node : StorePages K × Nat} {l : List (Hit K)}
    (h : Scrollable limits req [node] [l]) (harrived : arrived.Perm (List.range 1))
    (hd : decodeAfter json req.searchAfter = .ok cursor) :
    ∃ resp, searchInner limits (nodeShards json [node]) shardsTotal arrived req = .ok resp ∧
      (resp.hits, resp.nextCursor) = nextPage json 1 req [l] cursor := by
  obtain ⟨hs, -⟩ := List.forall₂_cons.mp h.serves
  have hin : arrived.contains 0 := contains_iff_mem.mpr (harrived.mem_iff.mpr (mem_range.mpr Nat.one_pos))
  have hreply := nodeSearch_ok node.2 req hd h.offset h.node_limit hs
  have hl : ranking req.sort [l] = l := by
    unfold ranking sortBy
    rw [flatten_cons, flatten_nil, append_nil]
    exact (hs.sorted.imp (fun {a b} hlt => by rw [hlt]; rfl)).insertionSort_eq
  unfold searchInner
  rw [if_neg h.under_ceiling]
  refine ⟨_, (if_pos hin).trans (congrArg _ hreply), ?_⟩
  simp only [nextPage, hl, leftAfter, ← map_take, pageResponse, storeNext, h.sort, h.no_score,
    cursorAfter, getLast?_toWire]
  cases (l.filter (isAfter req.sort cursor)).take req.limit <;> rfl

lemma okBodies_lost (hd : decodeAfter json req.searchAfter = .error e)
    (arrived : List Nat) :
    okBodies (gatherResponses (nodeShards json nodes) arrived (shardBody req)) = [] := by
  unfold okBodies gatherResponses
  rw [filterMap_eq_nil_iff]
  intro reply hreply
  obtain ⟨i, -, hi⟩ := mem_filterMap.mp hreply
  obtain ⟨shard, hshard, rfl⟩ := map_eq_some_iff.mp hi
  obtain ⟨node, -, rfl⟩ := mem_map.mp (mem_of_getElem? hshard)
  rw [nodeSearch_lost (by exact hd)]
  rfl

variable (h : Scrollable limits req nodes lists)
include h

lemma Scrollable.search_many (hmany : 2 ≤ nodes.length)
    (harrived : arrived.Perm (List.range nodes.length))
    (hd : decodeAfter json req.searchAfter = .ok cursor) :
    ∃ resp, searchInner limits (nodeShards json nodes) shardsTotal arrived req = .ok resp ∧
      (resp.hits, resp.nextCursor) = nextPage json nodes.length req lists cursor := by
  have hshards : (nodeShards json nodes).length = nodes.length := length_map _
  have hlists : (lists.map (leftAfter req.sort cursor)).length = nodes.length := by rw [length_map, h.serves.length_eq]
  have hany : nodeShards json nodes ≠ [] := ne_nil_of_length_pos (by omega)
  have hallowed : ¬ (req.searchAfter.isSome ∧ (req.sort = [] ∨ sortHasScore req.sort)) := by
    simp [h.sort, h.no_score]
  have hunion := h.docs.union h.sort cursor
  have hinj : ∀ a b, (∃ l ∈ lists.map (leftAfter req.sort cursor), a ∈ l) →
      (∃ l ∈ lists.map (leftAfter req.sort cursor), b ∈ l) → hitKey a = hitKey b → a = b :=
    fun a b => h.docs.wire_inj cursor
  have hranks := hunion.ranks (hitCmp_swap req.sort) (hitCmp_self req.sort)
    (fun a b => key_of_hitCmp_eq) (fun a a' ha ha' hk b => by rw [hinj a a' ha ha' hk])
  obtain ⟨resp, hresp, hhits, hnext⟩ := scatterGather_answers shardsTotal hany hallowed
    (hshards ▸ harrived) (h.answers hd)
  refine ⟨resp, (searchInner_many h.under_ceiling (hshards ▸ hmany)).trans hresp, ?_⟩
  obtain ⟨hkeys, hmem, -⟩ := mergePage_exact h.limit_pos (hlists ▸ harrived)
    (by rw [h.effectiveOffset, Nat.zero_add]) (sorted_of_answers (h.answers hd)) hranks hunion rfl
  rw [h.effectiveOffset, drop_zero] at hkeys
  have hpage := eq_of_keys hinj hmem
    (fun a ha => hunion.sound a (mem_of_mem_take ha)) hkeys
  rw [← hhits] at hpage
  rw [hnext, hpage, nextPage]
  refine Prod.ext rfl ?_
  have hone : nodes.length ≠ 1 := by omega
  simp only [h.nextCursor_eq, cursorAfter, hasNext, if_neg hone]

lemma Scrollable.search_ok (harrived : arrived.Perm (List.range nodes.length))
    (hd : decodeAfter json req.searchAfter = .ok cursor) :
    ∃ resp, searchInner limits (nodeShards json nodes) shardsTotal arrived req = .ok resp ∧
      (resp.hits, resp.nextCursor) = nextPage json nodes.length req lists cursor := by
  match nodes, lists, h.serves with
  | [], [], _ =>
    unfold searchInner
    rw [if_neg h.under_ceiling]
    refine ⟨_, rfl, ?_⟩
    simp [nextPage, leftAfter, ranking, sortBy, cursorAfter]
  | [_], [_], _ => exact h.search_one harrived hd
  | _ :: _ :: _, _ :: _ :: _, _ => exact h.search_many (by simp) harrived hd

lemma Scrollable.search_lost (hany : nodes ≠ [])
    (hd : decodeAfter json req.searchAfter = .error e) :
    ∃ e, searchInner limits (nodeShards json nodes) shardsTotal arrived req = .error e := by
  have hallowed : ¬ (req.searchAfter.isSome ∧ (req.sort = [] ∨ sortHasScore req.sort)) := by
    simp [h.sort, h.no_score]
  match hnodes : nodes with
  | [] => exact absurd rfl hany
  | [node] =>
    unfold searchInner
    rw [if_neg h.under_ceiling]
    simp only [nodeShards, map_cons, map_nil, nodeSearch_lost hd]
    split_ifs <;> exact ⟨_, rfl⟩
  | a :: b :: rest =>
    rw [searchInner_many h.under_ceiling (by simp [nodeShards])]
    unfold scatterGather
    simp only [if_neg hallowed, okBodies_lost hd, if_true]
    exact ⟨_, rfl⟩

end

section

variable {json : CursorJson K} {limits : GatewayLimits} {req : SearchRequest json.Token}
  {nodes : List (StorePages K × Nat)} {shardsTotal : Nat}
  {schedule : Option json.Token → List Nat}

def gatewayFetch (limits : GatewayLimits) (shards : List (ShardSearch json)) (shardsTotal : Nat)
    (schedule : Option json.Token → List Nat) (req : SearchRequest json.Token)
    (c : Option json.Token) : Except RpcStatus (List (SearchHit K) × Option json.Token) :=
  (searchInner limits shards shardsTotal (schedule c) { req with searchAfter := c }).map
    (fun resp => (resp.hits, resp.nextCursor))

section

variable (h : Scrollable limits req nodes lists)
include h

lemma Scrollable.resume (c : Option json.Token) : Scrollable limits { req with searchAfter := c } nodes lists :=
  ⟨h.offset, h.limit_pos, h.node_limit, h.gateway_limit, h.sort, h.no_score, h.serves, h.docs⟩

def placeOf (json : CursorJson K) (sort : List SortKey) (lists : List (List (Hit K)))
    (token : json.Token) : Option Nat :=
  (json.decodeCursor token).map (fun c => ((ranking sort lists).takeWhile (fun a => !isAfter sort (some c) a)).length)

lemma Scrollable.fetch_ok (hsched : ∀ c, (schedule c).Perm (List.range nodes.length))
    (hd : decodeAfter json c = .ok cursor) :
    gatewayFetch limits (nodeShards json nodes) shardsTotal schedule req c =
      .ok (nextPage json nodes.length req lists cursor) := by
  obtain ⟨resp, hresp, hpage⟩ := (h.resume c).search_ok (hsched c) hd
  unfold gatewayFetch
  rw [hresp]
  exact congrArg ok hpage

lemma Scrollable.paged (hany : nodes ≠ []) (hsched : ∀ c, (schedule c).Perm (List.range nodes.length)) :
    Paged (gatewayFetch limits (nodeShards json nodes) shardsTotal schedule req)
      ((ranking req.sort lists).map Hit.toWire) req.limit (hasNext nodes.length req.limit)
      (cursorOf json) (placeOf json req.sort lists) where
  size := h.limit_pos
  more_ne page hmore := by
    have := h.limit_pos
    rintro rfl
    unfold hasNext at hmore
    split_ifs at hmore
    · cases hmore
    · rw [length_nil, beq_iff_eq] at hmore
      omega
  short page hle hmore := by
    have := h.limit_pos
    unfold hasNext at hmore
    split_ifs at hmore
    · rw [Bool.not_eq_false', List.isEmpty_iff] at hmore
      rw [hmore, length_nil]
      omega
    · rw [beq_eq_false_iff_ne] at hmore
      omega
  token_some a ha := by
    obtain ⟨hit, -, rfl⟩ := mem_map.mp ha
    exact ⟨_, rfl⟩
  first := by
    rw [h.fetch_ok hsched rfl, nextPage, leftAfter, filter_isAfter_none]
    rfl
  next token place hplace := by
    obtain ⟨c, hc, rfl⟩ := map_eq_some_iff.mp hplace
    have hd : decodeAfter json (some token) = .ok (some c) := by rw [decodeAfter, hc]
    rw [h.fetch_ok hsched hd, nextPage, leftAfter, h.docs.after_eq_drop (decodeAfter_comparable hd), map_drop]
    rfl
  lost token hplace := by
    have hc := map_eq_none_iff.mp hplace
    have hd : decodeAfter json (some token) =
        .error ⟨.invalidArgument, "invalid search_after cursor"⟩ := by rw [decodeAfter, hc]
    obtain ⟨e, he⟩ := (h.resume (some token)).search_lost hany hd
    exact ⟨e, by rw [gatewayFetch, he]; rfl⟩

end

/-- The cursor after a hit reads back as one that parts the documents where the hit does. -/
def CursorSurvives (json : CursorJson K) (sort : List SortKey) (docs : List (Hit K)) (h : Hit K) :
    Prop :=
  ∃ c, json.decodeCursor (json.encodeCursor h.place) = some c ∧
    ∀ a ∈ docs, isAfter sort (some c) a = isAfter sort (some h.place) a

def pageEnd (shards limit : Nat) (u : List (Hit K)) (place : Nat) : Option (Hit K) :=
  let page := pageAt u limit place
  if shards = 1 ∨ page.length = limit then page.getLast? else none

omit [LinearOrder K] in
lemma getLast?_of_pageEnd
    (h : pageEnd shards limit u place = some a) : (pageAt u limit place).getLast? = some a := by
  simp only [pageEnd] at h
  split_ifs at h
  exact h

lemma cursorAfter_toWire (shards limit place : Nat) (u : List (Hit K)) :
    cursorAfter (hasNext shards limit) (cursorOf json) (pageAt (u.map Hit.toWire) limit place) =
      (pageEnd shards limit u place).map (fun h => json.encodeCursor h.place) := by
  unfold cursorAfter pageEnd pageAt
  rw [← List.map_drop, ← List.map_take, getLast?_toWire, Option.map_map]
  generalize (u.drop place).take limit = page
  unfold hasNext
  by_cases hone : shards = 1
  · rw [if_pos hone]
    simp only [hone, true_or, if_true]
    cases page <;> rfl
  · rw [if_neg hone, List.length_map]
    simp only [hone, false_or, beq_iff_eq]
    split_ifs <;> rfl

omit [LinearOrder K] in
lemma toWire_injective : Function.Injective (Hit.toWire (K := K)) := by
  rintro ⟨key, score, values⟩ ⟨key', score', values'⟩ h
  simp only [Hit.toWire, SearchHit.mk.injEq, some.injEq] at h
  obtain ⟨rfl, rfl, rfl⟩ := h
  rfl

lemma DisjointDocs.after_pageEnd (h : DisjointDocs lists)
    (ha : pageEnd shards limit (ranking sort lists) place = some a) :
    (ranking sort lists).filter (isAfter sort (some a.place)) =
      (ranking sort lists).drop (place + limit) := by
  obtain ⟨front, hfront⟩ := List.getLast?_eq_some_iff.mp (getLast?_of_pageEnd ha)
  have hsplit : ranking sort lists = ((ranking sort lists).take place ++ front) ++
      a :: (ranking sort lists).drop (place + limit) := by
    calc ranking sort lists
        = (ranking sort lists).take place ++ (pageAt (ranking sort lists) limit place ++
            ((ranking sort lists).drop place).drop limit) := by
          rw [pageAt, take_append_drop, take_append_drop]
      _ = _ := by rw [hfront, drop_drop, append_assoc, append_assoc]; rfl
  exact h.after_hit hsplit

/-- A cursor leads to the end of its page exactly when it survives. -/
lemma Scrollable.leads_iff (h : Scrollable limits req nodes lists) (place : Nat) :
    Leads ((ranking req.sort lists).map Hit.toWire) req.limit (hasNext nodes.length req.limit)
        (cursorOf json) (placeOf json req.sort lists) place ↔
      ∀ a, pageEnd nodes.length req.limit (ranking req.sort lists) place = some a →
        CursorSurvives json req.sort (ranking req.sort lists) a := by
  unfold Leads
  rw [cursorAfter_toWire]
  cases hend : pageEnd nodes.length req.limit (ranking req.sort lists) place with
  | none => simp
  | some a =>
    have hafter := h.docs.after_pageEnd hend
    simp only [map_some, some.injEq, forall_eq', CursorSurvives, placeOf]
    constructor
    · rintro ⟨next, hnext, hdrop⟩
      obtain ⟨c, hc, rfl⟩ := map_eq_some_iff.mp hnext
      refine ⟨c, hc, ?_⟩
      rw [← map_drop, ← map_drop, toWire_injective.list_map.eq_iff,
        ← h.docs.after_eq_drop (json.decode_comparable _ c hc), ← hafter] at hdrop
      intro b hb
      have hmem := congrArg (b ∈ ·) hdrop
      simpa only [mem_filter, hb, true_and, eq_iff_iff, ← Bool.eq_iff_iff] using hmem
    · rintro ⟨c, hc, hsame⟩
      refine ⟨_, map_eq_some_iff.mpr ⟨c, hc, rfl⟩, ?_⟩
      rw [← map_drop, ← map_drop, toWire_injective.list_map.eq_iff,
        ← h.docs.after_eq_drop (json.decode_comparable _ c hc), ← hafter]
      exact filter_congr hsame

/-- Feeding back each page's cursor ends with all matches in order, each once, exactly when every cursor given out
survives the way to the client and back. -/
theorem scroll_visits_all_iff (h : Scrollable limits req nodes lists)
    (hsched : ∀ c, (schedule c).Perm (List.range nodes.length)) :
    Collects (gatewayFetch limits (nodeShards json nodes) shardsTotal schedule req) none
        ((ranking req.sort lists).map Hit.toWire) ↔
      ∀ i a, pageEnd nodes.length req.limit (ranking req.sort lists) (i * req.limit) = some a →
        CursorSurvives json req.sort (ranking req.sort lists) a := by
  by_cases hany : nodes = []
  · -- with no shard there is one page, and it is empty
    subst hany
    obtain rfl := List.forall₂_nil_left_iff.mp h.serves
    have hempty : nextPage json 0 req [] none = ([], none) := by
      simp [nextPage, leftAfter, ranking, sortBy, cursorAfter]
    rw [collects_last ((h.fetch_ok hsched rfl).trans (congrArg Except.ok hempty))]
    refine ⟨fun _ i a ha => ?_, fun _ => rfl⟩
    simp [pageEnd, pageAt, ranking, sortBy] at ha
  · have hnodup : ((ranking req.sort lists).map Hit.toWire).Nodup :=
      (h.docs.nodup_keys req.sort).of_map.map toWire_injective
    rw [(h.paged hany hsched).collects_iff hnodup]
    exact forall_congr' (fun i => h.leads_iff _)

end

namespace SampleScroll
open SampleSearch

def doc (key : Nat) (bits : BitVec 64) : Hit Nat := ⟨key, ⟨0⟩, [.num ⟨bits⟩]⟩

def store (matching : List (Hit Nat)) : StorePages Nat := fun k sort offset cursor =>
  let page := ((matching.filter (isAfter sort cursor)).drop offset).take k
  .ok (page, storeNext sort page)

def request : SearchRequest plainJson.Token := ⟨"*", 1, 0, [⟨"price", .desc⟩], none, false⟩

def nodes (a b : Hit Nat) : List (StorePages Nat × Nat) := [(store [a], 1), (store [b], 1)]

lemma scrollable {a b : Hit Nat} (ha : ∀ v ∈ a.sortValues, v.Comparable)
    (hb : ∀ v ∈ b.sortValues, v.Comparable) (hne : a.key ≠ b.key) :
    Scrollable ⟨100⟩ request (nodes a b) [[a], [b]] where
  offset := rfl
  limit_pos := Nat.le_refl 1
  node_limit := by decide
  gateway_limit := by decide
  sort := by decide
  no_score := by decide
  serves := .cons ⟨pairwise_singleton _ _, fun _ _ => rfl⟩
    (.cons ⟨pairwise_singleton _ _, fun _ _ => rfl⟩ .nil)
  docs := ⟨by simpa using ⟨ha, hb⟩, by simp [hne]⟩

lemma doc_comparable (h : (⟨bits⟩ : F64).isNan = false) : ∀ v ∈ (doc key bits).sortValues, v.Comparable := by
  intro v hv
  obtain rfl := mem_singleton.mp hv
  exact h

end SampleScroll

open SampleScroll

theorem scroll_visits_all_finite : Collects (gatewayFetch ⟨100⟩ (nodeShards SampleSearch.plainJson
        (nodes (doc 1 0x3FF0000000000000)
          (doc 2 0x4000000000000000))) 2 (fun _ => [1, 0]) request) none
      ((ranking request.sort [[doc 1 0x3FF0000000000000], [doc 2 0x4000000000000000]]).map Hit.toWire) := by
  refine (scroll_visits_all_iff (scrollable
    (doc_comparable (by decide)) (doc_comparable (by decide))
    (by decide)) (fun _ => Perm.swap 0 1 [])).mpr (fun i a ha => ⟨a.place, ?_, fun _ _ => rfl⟩)
  have hin := mem_ranking.mp (mem_of_mem_drop (mem_of_mem_take
    (mem_of_getLast? (getLast?_of_pageEnd ha))))
  simp only [flatten_cons, flatten_nil, append_nil, cons_append, nil_append, mem_cons, not_mem_nil, or_false] at hin
  rcases hin with rfl | rfl <;> rfl

/-- A document with an infinite price ends a full page: its cursor cannot be read back, and the
document after it is never reached. -/
theorem infinite_price_stops_scroll : Scrollable ⟨100⟩ request
        (nodes (doc 1 0x7FF0000000000000)
          (doc 2 0x3FF0000000000000))
        [[doc 1 0x7FF0000000000000], [doc 2 0x3FF0000000000000]] ∧
      ¬ ∃ u, Collects (gatewayFetch ⟨100⟩ (nodeShards SampleSearch.plainJson
          (nodes (doc 1 0x7FF0000000000000)
            (doc 2 0x3FF0000000000000))) 2 (fun _ => [1, 0]) request)
        none u := by
  refine ⟨scrollable (doc_comparable (by decide))
    (doc_comparable (by decide)) (by decide), ?_⟩
  rintro ⟨u, hu⟩
  have hfirst : gatewayFetch ⟨100⟩ (nodeShards SampleSearch.plainJson
      (nodes (doc 1 0x7FF0000000000000)
        (doc 2 0x3FF0000000000000))) 2 (fun _ => [1, 0]) request none =
      .ok ([(doc 1 0x7FF0000000000000).toWire], some (doc 1 0x7FF0000000000000).place) := rfl
  obtain ⟨rest, -, hrest⟩ := (collects_more hfirst).mp hu
  exact not_collects_error (by rfl) hrest

end GrowlerDB.Engine
