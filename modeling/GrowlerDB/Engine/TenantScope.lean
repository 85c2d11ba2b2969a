import GrowlerDB.Engine.ScatterGather
import GrowlerDB.Index.KeysetPaging
import GrowlerDB.Index.Reader

namespace GrowlerDB.Engine
open Core Index Lib Snapshot

def storeStatus : IndexError → RpcStatus
  | .queryType m => ⟨.invalidArgument, "query type error: " ++ m⟩
  | .unknownField f => ⟨.invalidArgument, "unknown or non-searchable field: `" ++ f ++ "`"⟩
  | .noDefaultField => ⟨.invalidArgument, "index schema has no TEXT field to search"⟩
  | .costGuard m => ⟨.invalidArgument, "query rejected (cost guard): " ++ m⟩
  | .tantivy m => ⟨.internal, m⟩

def ofStore {A : Type} (x : Except IndexError A) : Except RpcStatus A :=
  match x with
  | .ok a => .ok a
  | .error e => .error (storeStatus e)

def invalid (m : String) : RpcStatus := ⟨.invalidArgument, m⟩

def noTenant (field : String) : RpcStatus :=
  ⟨.permissionDenied, "index is tenant-scoped on `" ++ field ++ "`; request carries no verified tenant"⟩

section

variable (schema : IndexSchema) (query : Query) (tenant : Option String)

def tenantScope : Except RpcStatus Query :=
  match schema.tenantField with
  | none => .ok query
  | some field =>
    match tenant with
    | none => .error (noTenant field)
    | some tenant => .ok (query.andFilter field tenant)

def tenantScopeKnn : Except RpcStatus Query :=
  match schema.tenantField with
  | none => .ok query
  | some field =>
    match tenant with
    | none => .error (noTenant field)
    | some tenant => .ok (query.withKnnFilter (.term (some field) tenant))

end

structure SearchNode (K T : Type) [LinearOrder K] [LinearOrder T] where
  text : TextStd
  live : Snapshot K T
  pits : Nat → Option (Snapshot K T)
  pit_schema : ∀ id s, pits id = some s → s.schema = live.schema

structure NodeRequest (Token : Type) extends SearchRequest Token where
  dialect : Syntax
  collapse : String
  pitId : Nat

structure NodeHit (K : Type) where
  key : K
  score : F64
  group : Option Value
  groupCount : Nat
  sortValues : List SortValue

structure NodeResponse (K Token : Type) where
  hits : List (NodeHit K)
  total : Nat
  nextCursor : Option Token

structure ExportRequest where
  query : String
  sort : List SortKey
  pageSize : Nat
  pitId : Nat

structure SemanticRequest where
  vectorField : String
  queryText : String
  k : Nat
  rerank : Bool
  rerankTopK : Nat
  filter : String
  dialect : Syntax

def defaultExportPageSize : Nat := 1000

variable {K T : Type} [LinearOrder K] [LinearOrder T]

def pageHit (row : Searcher.Row K) : NodeHit K := ⟨row.1.key, row.1.score, none, 0, row.2⟩

def groupHit (g : CollapsedHit K) : NodeHit K := ⟨g.hit.key, g.hit.score, some g.group, g.count, g.sortValues⟩

def knnHit (h : Index.Hit K) : NodeHit K := ⟨h.key, h.score, none, 0, []⟩

def rerankHits (order : Option (List (Nat × F64))) (hits : List (Index.Hit K)) (topK : Nat) : List (Index.Hit K) :=
  match order with
  | some order => order.filterMap (fun o => hits[o.1]?.map (fun h => { h with score := o.2 }))
  | none => hits.take topK

namespace SearchNode

variable (node : SearchNode K T) (json : CursorJson K)

def parse (dialect : Syntax) (query : String) : Except RpcStatus Query :=
  match Query.parseWith node.text dialect query with
  | .ok q => .ok q
  | .error e => .error (invalid e.display)

def snapshot (pitId : Nat) : Except RpcStatus (Snapshot K T) :=
  if pitId = 0 then .ok node.live
  else match node.pits pitId with
    | some s => .ok s
    | none => .error ⟨.failedPrecondition, "unknown or expired point-in-time handle: " ++ toString pitId⟩

def answer (req : NodeRequest json.Token) (query : Query) (after : Option (SearchAfter K)) :
    Except RpcStatus (NodeResponse K json.Token) := do
  let s ← node.snapshot req.pitId
  if req.collapse ≠ "" then do
    let groups ← ofStore (s.toReader.collapsedIn query req.limit req.sort req.collapse)
    .ok ⟨groups.map groupHit, groups.length, none⟩
  else do
    let (hits, next) ← ofStore (s.searcher.pageInValues query req.limit req.sort req.offset after)
    let total ← ofStore (s.toReader.count query)
    .ok ⟨hits.map pageHit, total, next.map json.encodeCursor⟩

variable (authorized : Except RpcStatus Unit) (tenant : Option String)

def admitSearch (req : NodeRequest json.Token) : Except RpcStatus (Query × Option (SearchAfter K)) := do
  authorized
  let query ← node.parse req.dialect req.query
  let after ← decodeAfter json req.searchAfter
  if req.offset + req.limit > maxNodeFetch then
    .error (invalid ("offset+limit (" ++ toString (req.offset + req.limit) ++
      ") exceeds the maximum page fetch (" ++ toString maxNodeFetch ++ ")"))
  else if req.collapse ≠ "" ∧ req.sort = [] then
    .error (invalid "collapse requires a non-empty sort")
  else do
    let query ← tenantScope node.live.schema query tenant
    .ok (query, after)

def search (req : NodeRequest json.Token) : Except RpcStatus (NodeResponse K json.Token) := do
  let (query, after) ← node.admitSearch json authorized tenant req
  node.answer json req query after

def exportPages (s : Snapshot K T) (query : Query) (sort : List SortKey) (pageSize total : Nat) :
    Nat → Option (SearchAfter K) → List (Except RpcStatus (NodeResponse K json.Token))
  | 0, _ => []
  | n + 1, cursor =>
    match s.searcher.pageInValues query pageSize sort 0 cursor with
    | .error e => [.error (storeStatus e)]
    | .ok (hits, next) =>
      if hits = [] then []
      else .ok ⟨hits.map pageHit, total, next.map json.encodeCursor⟩ ::
        match next with
        | some c => exportPages s query sort pageSize total n (some c)
        | none => []

def admitExport (authorized admitted : Except RpcStatus Unit) (tenant : Option String)
    (req : ExportRequest) : Except RpcStatus Query := do
  authorized
  let query ← node.parse .lucene req.query
  if req.sort = [] then .error (invalid "export requires a non-empty sort")
  else do
    admitted
    tenantScope node.live.schema query tenant

def exportStream (authorized admitted : Except RpcStatus Unit) (tenant : Option String)
    (req : ExportRequest) :
    Except RpcStatus (Nat → List (Except RpcStatus (NodeResponse K json.Token))) := do
  let query ← node.admitExport authorized admitted tenant req
  let pageSize := if req.pageSize = 0 then defaultExportPageSize else min req.pageSize maxNodeFetch
  .ok fun n =>
    match node.snapshot req.pitId with
    | .error e => [.error e]
    | .ok s =>
      match ofStore (s.toReader.count query) with
      | .error e => [.error e]
      | .ok total => exportPages json s query req.sort pageSize total n none

def explain (authorized : Except RpcStatus Unit) (tenant : Option String) (dialect : Syntax)
    (query : String) (coordinates : Option K) : Except RpcStatus ExplainHit := do
  authorized
  let query ← node.parse dialect query
  match coordinates with
  | none => .error (invalid "explain requires a document coordinate")
  | some key => do
    let query ← tenantScope node.live.schema query tenant
    ofStore (node.live.toReader.explain query key)

def aggregate {A R : Type} (authorized admitted : Except RpcStatus Unit) (tenant : Option String)
    (query : String) (aggs : Except String A)
    (collect : A → List (StoredDoc K T) → Except IndexError R) : Except RpcStatus R := do
  authorized
  let query ← node.parse .lucene query
  match aggs with
  | .error e => .error (invalid e)
  | .ok aggs => do
    admitted
    let query ← tenantScope node.live.schema query tenant
    let matching ← ofStore (node.live.searcher.build query)
    ofStore (collect aggs (node.live.searcher.docs.filter matching))

def parseFilter (dialect : Syntax) (filter : String) : Except RpcStatus (Option Query) :=
  if Text.trim filter = "" then .ok none
  else match node.parse dialect filter with
    | .ok q => .ok (some q)
    | .error e => .error e

def admitSemantic (embed : String → Except RpcStatus (List (BitVec 32)))
    (req : SemanticRequest) (fetch : Nat) : Except RpcStatus Query := do
  authorized
  if fetch > maxNodeFetch then
    .error (invalid ("fetch (" ++ toString fetch ++ ") exceeds the maximum page fetch (" ++
      toString maxNodeFetch ++ ")"))
  else if node.live.schema.hasVector req.vectorField = false then
    .error (invalid ("`" ++ req.vectorField ++ "` is not a VECTOR field on this index"))
  else do
    let vector ← embed req.queryText
    let filter ← node.parseFilter req.dialect req.filter
    tenantScopeKnn node.live.schema (.knn req.vectorField vector fetch filter) tenant

def semanticSearch (embed : String → Except RpcStatus (List (BitVec 32)))
    (rerank : List (Index.Hit K) → Option (List (Nat × F64))) (req : SemanticRequest) :
    Except RpcStatus (NodeResponse K json.Token) := do
  let fetch := if req.rerank then max req.rerankTopK req.k else req.k
  let query ← node.admitSemantic authorized tenant embed req fetch
  let rows ← ofStore (node.live.searcher.pageWithValues query fetch [] 0 none)
  let hits := rows.map Prod.fst
  let hits := if req.rerank then rerankHits (rerank hits) hits req.k else hits
  .ok ⟨hits.map knnHit, hits.length, none⟩

end SearchNode

open List Except

variable {embed : String → Except RpcStatus (List (BitVec 32))} {query q : Query}

variable {K T : Type} [LinearOrder K] [LinearOrder T]

lemma ofStore_ok {A : Type} {x : Except IndexError A} {a : A} (h : ofStore x = .ok a) : x = .ok a := by
  cases x with
  | ok b => exact congrArg ok (ok.inj h)
  | error e => cases h

section

variable {s : Snapshot K T} {tf t : String}

lemma andFilter_selects (htf : s.schema.tenantField = some tf) (q : Query) :
    s.Selects (s.Carries t) (q.andFilter tf t) :=
  fun _ _ hb hm => filter_carries htf (mem_singleton_self _) hb hm

lemma withKnnFilter_selects (htf : s.schema.tenantField = some tf) (field : String)
    (vector : List (BitVec 32)) (k : Nat) (filter : Option Query) :
    ∃ q, (Query.knn field vector k filter).withKnnFilter (.term (some tf) t) = .knn field vector k (some q) ∧
      s.Selects (s.Carries t) q := by
  cases filter with
  | none => exact ⟨_, rfl, fun _ _ hb hm => term_carries htf hb hm⟩
  | some existing => exact ⟨_, rfl, fun _ _ hb hm => filter_carries htf (by simp) hb hm⟩

variable {schema : IndexSchema} (htf : schema.tenantField = some tf)
include htf

lemma tenantScope_ok (h : tenantScope schema q (some t) = .ok q') : q' = q.andFilter tf t := by
  simp only [tenantScope, htf, ok.injEq] at h
  exact h.symm

lemma tenantScope_refused (q : Query) :
    tenantScope schema q none = .error (noTenant tf) := by
  simp [tenantScope, htf]

lemma tenantScopeKnn_refused (q : Query) :
    tenantScopeKnn schema q none = .error (noTenant tf) := by
  simp [tenantScopeKnn, htf]

end

/-- A response is about documents with a property only: those it returns, those a group counts, and those of the
total. -/
structure NodeResponse.About {Token : Type} (s : Snapshot K T) (P : StoredDoc K T → Prop)
    (resp : NodeResponse K Token) : Prop where
  hits : ∀ h ∈ resp.hits, s.Has P h.key
  groups : ∀ h ∈ resp.hits, h.group.isSome = true → s.Counts P h.groupCount
  total : s.Counts P resp.total ∨ resp.total = resp.hits.length

variable {s : Snapshot K T}

namespace SearchNode

variable {node : SearchNode K T} {json : CursorJson K} {tf t : String} {authorized admitted : Except RpcStatus Unit}

lemma snapshot_schema (h : node.snapshot pitId = .ok s) : s.schema = node.live.schema := by
  unfold snapshot at h
  split at h
  · cases h
    rfl
  · split at h
    · rename_i s' hs
      cases h
      exact node.pit_schema _ _ hs
    · cases h

lemma about_page {Token : Type} {P : StoredDoc K T → Prop}
    (hs : s.Selects P q) (hq : Snapshot.IsLexical q)
    {after next : Option (SearchAfter K)}
    (hp : s.searcher.pageInValues q k sort offset after = .ok (page, next))
    (ht : s.toReader.count q = .ok total) (cursor : Option Token) :
    NodeResponse.About s P (⟨page.map pageHit, total, cursor⟩ : NodeResponse K Token) where
  hits h hh := by
    obtain ⟨row, hrow, rfl⟩ := mem_map.mp hh
    exact pageInValues_has hs hq hp row hrow
  groups h hh hg := by
    obtain ⟨row, -, rfl⟩ := mem_map.mp hh
    cases hg
  total := .inl (count_counts hs hq ht)

lemma admitSearch_ok (htf : node.live.schema.tenantField = some tf) {after : Option (SearchAfter K)}
    (h : node.admitSearch json authorized (some t) req = .ok (query, after)) :
    ∃ q : Query, query = q.andFilter tf t := by
  unfold admitSearch at h
  obtain ⟨_, -, h⟩ := bind_ok h
  obtain ⟨q, -, h⟩ := bind_ok h
  obtain ⟨after', -, h⟩ := bind_ok h
  split at h
  · cases h
  · split at h
    · cases h
    · obtain ⟨q', hscope, h⟩ := bind_ok h
      cases h
      exact ⟨q, tenantScope_ok htf hscope⟩

variable {resp : NodeResponse K json.Token}

lemma search_about (htf : node.live.schema.tenantField = some tf) {req : NodeRequest json.Token}
    (h : node.search json authorized (some t) req = .ok resp) :
    ∃ s, node.snapshot req.pitId = .ok s ∧ resp.About s (s.Carries t) := by
  unfold search at h
  obtain ⟨⟨query, after⟩, hadmit, h⟩ := bind_ok h
  obtain ⟨q, rfl⟩ := admitSearch_ok htf hadmit
  unfold answer at h
  obtain ⟨s, hs, h⟩ := bind_ok h
  have hsel : s.Selects (s.Carries t) (q.andFilter tf t) :=
    andFilter_selects ((congrArg IndexSchema.tenantField (snapshot_schema hs)).trans htf) q
  refine ⟨s, hs, ?_⟩
  split at h
  · obtain ⟨groups, hg, h⟩ := bind_ok h
    cases h
    have hhas := collapsedIn_has hsel (ofStore_ok hg)
    refine ⟨fun hit hh => ?_, fun hit hh _ => ?_, .inr (by simp)⟩
    · obtain ⟨g, hg, rfl⟩ := mem_map.mp hh
      exact (hhas g hg).1
    · obtain ⟨g, hg, rfl⟩ := mem_map.mp hh
      exact (hhas g hg).2
  · obtain ⟨⟨page, next⟩, hp, h⟩ := bind_ok h
    obtain ⟨total, ht, h⟩ := bind_ok h
    cases h
    exact about_page hsel trivial (ofStore_ok hp) (ofStore_ok ht) _

lemma exportPages_about {P : StoredDoc K T → Prop}
    (hs : s.Selects P q) (hq : Snapshot.IsLexical q) {pageSize total : Nat}
    (ht : s.toReader.count q = .ok total) (n : Nat) (cursor : Option (SearchAfter K))
    (h : .ok resp ∈ exportPages json s q sort pageSize total n cursor) : resp.About s P := by
  induction n generalizing cursor with
  | zero => cases h
  | succ n ih =>
    rw [exportPages] at h
    split at h
    · simp at h
    · rename_i page next hp
      split at h
      · cases h
      · rcases mem_cons.mp h with h | h
        · cases h
          exact about_page hs hq hp ht _
        · split at h
          · exact ih _ h
          · cases h

section

variable (htf : node.live.schema.tenantField = some tf)
include htf

lemma admitExport_ok (h : node.admitExport authorized admitted (some t) req = .ok query) :
    ∃ q : Query, query = q.andFilter tf t := by
  unfold admitExport at h
  obtain ⟨_, -, h⟩ := bind_ok h
  obtain ⟨q, -, h⟩ := bind_ok h
  split at h
  · cases h
  · obtain ⟨_, -, h⟩ := bind_ok h
    exact ⟨q, tenantScope_ok htf h⟩

lemma export_about {req : ExportRequest} {pages : Nat → List (Except RpcStatus (NodeResponse K json.Token))}
    (h : node.exportStream json authorized admitted (some t) req = .ok pages) {n : Nat}
    (hr : .ok resp ∈ pages n) : ∃ s, node.snapshot req.pitId = .ok s ∧ resp.About s (s.Carries t) := by
  unfold exportStream at h
  obtain ⟨query, hadmit, h⟩ := bind_ok h
  cases h
  obtain ⟨q, rfl⟩ := admitExport_ok htf hadmit
  simp only at hr
  split at hr
  · simp at hr
  · rename_i s hs
    have hsel : s.Selects (s.Carries t) (q.andFilter tf t) :=
      andFilter_selects ((congrArg IndexSchema.tenantField (snapshot_schema hs)).trans htf) q
    split at hr
    · simp at hr
    · rename_i total ht
      exact ⟨s, hs, exportPages_about hsel trivial (ofStore_ok ht) n none hr⟩

lemma explain_about {dialect : Syntax} {query : String} {coordinates : Option K} {e : ExplainHit}
    (h : node.explain authorized (some t) dialect query coordinates = .ok e) (hm : e.matched) :
    ∃ key, coordinates = some key ∧ node.live.Has (node.live.Carries t) key := by
  unfold explain at h
  obtain ⟨_, -, h⟩ := bind_ok h
  obtain ⟨q, -, h⟩ := bind_ok h
  cases coordinates with
  | none => cases h
  | some key =>
    obtain ⟨q', hscope, h⟩ := bind_ok h
    obtain rfl := tenantScope_ok htf hscope
    exact ⟨key, rfl, explain_has (andFilter_selects htf q) (ofStore_ok h) hm⟩

lemma aggregate_about {A R : Type} {query : String}
    {aggs : Except String A} {collect : A → List (StoredDoc K T) → Except IndexError R} {r : R}
    (h : node.aggregate authorized admitted (some t) query aggs collect = .ok r) :
    ∃ spec docs, aggs = .ok spec ∧ (∀ d ∈ docs, d ∈ node.live.searcher.docs ∧ node.live.Carries t d) ∧
      collect spec docs = .ok r := by
  unfold aggregate at h
  obtain ⟨_, -, h⟩ := bind_ok h
  obtain ⟨q, -, h⟩ := bind_ok h
  cases aggs with
  | error e => cases h
  | ok spec =>
    obtain ⟨_, -, h⟩ := bind_ok h
    obtain ⟨q', hscope, h⟩ := bind_ok h
    obtain rfl := tenantScope_ok htf hscope
    obtain ⟨matching, hb, h⟩ := bind_ok h
    refine ⟨spec, _, rfl, fun d hd => ?_, ofStore_ok h⟩
    obtain ⟨hdocs, hm⟩ := mem_filter.mp hd
    exact ⟨hdocs, andFilter_selects htf q matching d (ofStore_ok hb) hm⟩

end

omit [LinearOrder K] in
lemma mem_rerankHits
    (hh : h ∈ rerankHits order hits topK) : ∃ h' ∈ hits, h'.key = h.key := by
  unfold rerankHits at hh
  split at hh
  · obtain ⟨o, -, he⟩ := mem_filterMap.mp hh
    obtain ⟨h', hget, rfl⟩ := Option.map_eq_some_iff.mp he
    exact ⟨h', mem_of_getElem? hget, rfl⟩
  · exact ⟨h, mem_of_mem_take hh, rfl⟩

lemma admitSemantic_ok (htf : node.live.schema.tenantField = some tf) (h : node.admitSemantic authorized (some t) embed req fetch = .ok query) :
    ∃ field vector k filter, query =
      (Query.knn field vector k filter).withKnnFilter (.term (some tf) t) := by
  unfold admitSemantic at h
  obtain ⟨_, -, h⟩ := bind_ok h
  split at h
  · cases h
  · split at h
    · cases h
    · obtain ⟨vector, -, h⟩ := bind_ok h
      obtain ⟨filter, -, h⟩ := bind_ok h
      simp only [tenantScopeKnn, htf, ok.injEq] at h
      exact ⟨_, _, _, _, h.symm⟩

lemma semanticSearch_about (htf : node.live.schema.tenantField = some tf)
    {rerank : List (Index.Hit K) → Option (List (Nat × F64))} {req : SemanticRequest}
    (h : node.semanticSearch json authorized (some t) embed rerank req = .ok resp) :
    resp.About node.live (node.live.Carries t) := by
  unfold semanticSearch at h
  simp only at h
  obtain ⟨query, hadmit, h⟩ := bind_ok h
  obtain ⟨rows, hrows, h⟩ := bind_ok h
  cases h
  obtain ⟨field, vector, k, filter, rfl⟩ := admitSemantic_ok htf hadmit
  obtain ⟨q, hq, hsel⟩ := withKnnFilter_selects (t := t) htf field vector k filter
  have hall : ∀ row ∈ rows, node.live.Has (node.live.Carries t) row.1.key :=
    pageWithValues_knn_has hsel (hq ▸ ofStore_ok hrows)
  have hhit : ∀ hit ∈ rows.map Prod.fst, node.live.Has (node.live.Carries t) hit.key := by
    intro hit hh
    obtain ⟨row, hrow, rfl⟩ := mem_map.mp hh
    exact hall row hrow
  refine ⟨fun n hn => ?_, fun n hn hg => ?_, .inr (by simp)⟩
  · obtain ⟨hit, hh, rfl⟩ := mem_map.mp hn
    split at hh
    · obtain ⟨hit', hh', hkey⟩ := mem_rerankHits hh
      exact (congrArg (node.live.Has _) hkey).mp (hhit hit' hh')
    · exact hhit hit hh
  · obtain ⟨hit, -, rfl⟩ := mem_map.mp hn
    cases hg

/-- A call that fails in one way on every shard with this node's schema, so without a look at its
documents. -/
def RefusesUnread {R : Type} (node : SearchNode K T) (call : SearchNode K T → Except RpcStatus R) : Prop :=
  ∃ e, ∀ node' : SearchNode K T, node'.text = node.text → node'.live.schema = node.live.schema → call node' = .error e

variable {A R : Type}

lemma RefusesUnread.fails (e : RpcStatus) : node.RefusesUnread (fun _ => (.error e : Except RpcStatus R)) :=
  ⟨e, fun _ _ _ => rfl⟩

lemma RefusesUnread.seq (h : node.RefusesUnread call)
    (next : SearchNode K T → A → Except RpcStatus R) :
    node.RefusesUnread (fun n => call n >>= next n) := by
  obtain ⟨e, he⟩ := h
  refine ⟨e, fun node' htext hschema => ?_⟩
  simp only [he node' htext hschema]
  rfl

/-- A first step that reads only the text rules and the schema of the node may fail too. -/
lemma RefusesUnread.reading {first : SearchNode K T → Except RpcStatus A}
    (hfirst : ∀ node' : SearchNode K T, node'.text = node.text → node'.live.schema = node.live.schema →
      first node' = first node)
    {next : A → SearchNode K T → Except RpcStatus R} (h : ∀ a, node.RefusesUnread (next a)) :
    node.RefusesUnread (fun n => first n >>= fun a => next a n) := by
  cases hf : first node with
  | error e =>
    refine ⟨e, fun node' htext hschema => ?_⟩
    simp only [hfirst node' htext hschema, hf]
    rfl
  | ok a =>
    obtain ⟨e, he⟩ := h a
    refine ⟨e, fun node' htext hschema => ?_⟩
    simp only [hfirst node' htext hschema, hf]
    exact he node' htext hschema

lemma RefusesUnread.after (x : Except RpcStatus A) {next : A → SearchNode K T → Except RpcStatus R}
    (h : ∀ a, node.RefusesUnread (next a)) : node.RefusesUnread (fun n => x >>= fun a => next a n) :=
  .reading (fun _ _ _ => rfl) h

lemma parse_congr {node' : SearchNode K T} (htext : node'.text = node.text) (dialect : Syntax)
    (query : String) : node'.parse dialect query = node.parse dialect query := by
  unfold SearchNode.parse
  rw [htext]

lemma RefusesUnread.parse (dialect : Syntax) (query : String)
    {next : Query → SearchNode K T → Except RpcStatus R} (h : ∀ q, node.RefusesUnread (next q)) :
    node.RefusesUnread (fun n => n.parse dialect query >>= fun q => next q n) :=
  .reading (fun _ htext _ => parse_congr htext dialect query) h

lemma RefusesUnread.ite {c : IndexSchema → Prop} [DecidablePred c]
    (hyes : node.RefusesUnread yes)
    (hno : node.RefusesUnread no) :
    node.RefusesUnread (fun n => if c n.live.schema then yes n else no n) := by
  by_cases hc : c node.live.schema
  · obtain ⟨e, he⟩ := hyes
    exact ⟨e, fun node' htext hschema => (if_pos (hschema ▸ hc)).trans (he node' htext hschema)⟩
  · obtain ⟨e, he⟩ := hno
    exact ⟨e, fun node' htext hschema => (if_neg (hschema ▸ hc)).trans (he node' htext hschema)⟩

lemma parseFilter_congr {node' : SearchNode K T} (htext : node'.text = node.text) (dialect : Syntax)
    (filter : String) : node'.parseFilter dialect filter = node.parseFilter dialect filter := by
  unfold parseFilter
  rw [parse_congr htext]

variable (htf : node.live.schema.tenantField = some tf)
include htf

lemma RefusesUnread.scope (query : Query) : node.RefusesUnread (fun n => tenantScope n.live.schema query none) :=
  ⟨noTenant tf, fun _ _ hschema => tenantScope_refused (hschema ▸ htf) query⟩

lemma search_refused (req : NodeRequest json.Token) :
    node.RefusesUnread (fun n => n.search json authorized none req) := by
  refine .seq (.after authorized fun _ => .parse _ _ fun q => .after _ fun after => ?_) _
  exact .ite (c := fun _ => _) (.fails _) (.ite (c := fun _ => _) (.fails _) ((RefusesUnread.scope htf q).seq _))

lemma export_refused (req : ExportRequest) :
    node.RefusesUnread (fun n => n.exportStream json authorized admitted none req) := by
  refine .seq (.after authorized fun _ => .parse _ _ fun q => ?_) _
  exact .ite (c := fun _ => _) (.fails _) (.after admitted fun _ => RefusesUnread.scope htf q)

lemma explain_refused (dialect : Syntax) (query : String) (coordinates : Option K) :
    node.RefusesUnread (fun n => n.explain authorized none dialect query coordinates) := by
  refine .after authorized fun _ => .parse _ _ fun q => ?_
  cases coordinates with
  | none => exact .fails _
  | some key => exact (RefusesUnread.scope htf q).seq _

lemma aggregate_refused (query : String) (aggs : Except String A)
    (collect : A → List (StoredDoc K T) → Except IndexError R) :
    node.RefusesUnread (fun n => n.aggregate authorized admitted none query aggs collect) := by
  refine .after authorized fun _ => .parse _ _ fun q => ?_
  cases aggs with
  | error e => exact .fails _
  | ok spec => exact .after admitted fun _ => (RefusesUnread.scope htf q).seq _

lemma semanticSearch_refused (embed : String → Except RpcStatus (List (BitVec 32)))
    (rerank : List (Index.Hit K) → Option (List (Nat × F64))) (req : SemanticRequest) :
    node.RefusesUnread (fun n => n.semanticSearch json authorized none embed rerank req) := by
  refine .seq (.after authorized fun _ => .ite (c := fun _ => _) (.fails _) ?_) _
  refine .ite (c := fun schema => schema.hasVector req.vectorField = false) (.fails _) ?_
  refine .after _ fun vector => .reading (fun _ htext _ => parseFilter_congr htext _ _) fun filter => ?_
  exact ⟨noTenant tf, fun _ _ hschema => tenantScopeKnn_refused (hschema ▸ htf) _⟩

end SearchNode

/-- On an index with a tenant field, every document a read returns or counts is the verified tenant's; without a
tenant the read is refused. -/
theorem tenant_scope_not_widened (node : SearchNode K T) (json : CursorJson K) {tf : String}
    (htf : node.live.schema.tenantField = some tf) (authorized admitted : Except RpcStatus Unit) :
    (∀ t req resp, node.search json authorized (some t) req = .ok resp →
      ∃ s, node.snapshot req.pitId = .ok s ∧ resp.About s (s.Carries t)) ∧
    (∀ t req pages, node.exportStream json authorized admitted (some t) req = .ok pages →
      ∀ n resp, .ok resp ∈ pages n → ∃ s, node.snapshot req.pitId = .ok s ∧ resp.About s (s.Carries t)) ∧
    (∀ t dialect query coordinates e,
      node.explain authorized (some t) dialect query coordinates = .ok e → e.matched = true →
        ∃ key, coordinates = some key ∧ node.live.Has (node.live.Carries t) key) ∧
    (∀ (A R : Type) t query (aggs : Except String A)
      (collect : A → List (StoredDoc K T) → Except IndexError R) r,
      node.aggregate authorized admitted (some t) query aggs collect = .ok r → ∃ spec docs, aggs = .ok spec ∧
          (∀ d ∈ docs, d ∈ node.live.searcher.docs ∧ node.live.Carries t d) ∧ collect spec docs = .ok r) ∧
    (∀ t embed rerank req resp, node.semanticSearch json authorized (some t) embed rerank req = .ok resp →
        resp.About node.live (node.live.Carries t)) ∧
    (∀ req, node.RefusesUnread (fun n => n.search json authorized none req)) ∧
    (∀ req, node.RefusesUnread (fun n => n.exportStream json authorized admitted none req)) ∧
    (∀ dialect query coordinates, node.RefusesUnread (fun n => n.explain authorized none dialect query coordinates)) ∧
    (∀ (A R : Type) query (aggs : Except String A)
      (collect : A → List (StoredDoc K T) → Except IndexError R),
      node.RefusesUnread (fun n => n.aggregate authorized admitted none query aggs collect)) ∧
    ∀ embed rerank req, node.RefusesUnread (fun n => n.semanticSearch json authorized none embed rerank req) :=
  ⟨fun _ _ _ h => SearchNode.search_about htf h, fun _ _ _ h _ _ hr => SearchNode.export_about htf h hr,
    fun _ _ _ _ _ h hm => SearchNode.explain_about htf h hm,
    fun _ _ _ _ _ _ _ h => SearchNode.aggregate_about htf h,
    fun _ _ _ _ _ h => SearchNode.semanticSearch_about htf h,
    fun req => SearchNode.search_refused htf req,
    fun req => SearchNode.export_refused htf req,
    fun dialect query coordinates => SearchNode.explain_refused htf dialect query coordinates,
    fun _ _ query aggs collect => SearchNode.aggregate_refused htf query aggs collect,
    fun embed rerank req => SearchNode.semanticSearch_refused htf embed rerank req⟩

namespace SampleTenants

abbrev Instant := I64

def definition : ResolvedIndex :=
  ⟨[⟨"tenant", .keyword, none, true, true, .basic, none⟩], some "tenant"⟩

def schema : IndexSchema := ⟨definition.fields, definition.tenantField, by decide⟩

def std : IndexStd := ⟨.blank, id, fun _ => "", fun _ => none, fun _ => none⟩

def text : TextStd := { TextStd.ascii with isIpAddr := fun _ => false }

abbrev Rows := List (Nat × String)

def stored (rows : Rows) : List (StoredDoc Nat Instant) := rows.map (fun r => ⟨r.1, ⟨0, r.1⟩, fun _ => none⟩)

def source (rows : Rows) (d : StoredDoc Nat Instant) : Document Nat × List VariantLeaves :=
  (⟨d.key, (rows.lookup d.key).toList.map (fun t => ("tenant", .str t))⟩, [])

def leaf (q : TvQuery) (doc : List (String × TvValue)) : Bool :=
  match q with
  | .term field (.text t) _ => (field, .text t) ∈ doc
  | _ => false

def combine (must should mustNot : List Bool) : Bool :=
  if must = [] then should.any id && !mustNot.any id else must.all id && !mustNot.any id

lemma combine_must (must mustNot : List Bool) (h : must ≠ []) :
    combine must [] mustNot = (must.all id && !mustNot.any id) := if_neg h

def searcher (rows : Rows) (h : (rows.map Prod.fst).Nodup) : Searcher Nat Instant where
  cols := SampleSegment.columns
  docs := stored rows
  fields _ := none
  build q := (build std .blank schema q).map (fun tq d =>
    tq.eval combine leaf (toTantivy std schema (source rows d).1 (source rows d).2))
  knnSearch q :=
    match q with
    | .knn field .. =>
      match schema.getField field with
      | none => .error (.unknownField field)
      | some .bytes => .ok []
      | some _ => .error (.queryType ("field `" ++ field ++ "` is not a VECTOR field — KNN needs a vector field"))
    | _ => .ok []
  combine := combine
  docSet q := (stored rows).filter q
  topDocs q field order n :=
    (Ranking.sortBy (SampleSegment.columns.windowCmp field order) ((stored rows).filter q)).take n
  topByScore q n := (((stored rows).filter q).take n).map (fun d => (⟨0⟩, d))
  explain _ _ := ⟨0⟩
  combine_must := combine_must
  combine_should should _ := by simp [combine]
  docSet_perm _ := .refl _
  topDocs_perm _ _ _ _ := .refl _
  typed d hd field c hc := by
    obtain ⟨r, -, rfl⟩ := mem_map.mp hd
    cases hc
  keys := by simpa [stored, map_map, Function.comp_def] using h
  addresses := by
    have := h.map (f := fun n => (⟨0, n⟩ : DocAddress)) (fun a b h => congrArg DocAddress.docId h)
    simpa [stored, map_map, Function.comp_def] using this

def snapshot (rows : Rows) (h : (rows.map Prod.fst).Nodup) : Snapshot Nat Instant where
  std := std
  analysis := .blank
  schema := schema
  searcher := searcher rows h
  source := source rows
  leaf := leaf
  hasIndexDir := false
  hasAnn _ _ := false
  neighbours _ _ _ := []
  vectorScore _ _ _ := ⟨0⟩
  builds _ := rfl
  raw_term field t record fast doc _ h := by simpa [leaf] using h
  definition := definition
  checked := by decide
  derived := dif_pos schema.nodup
  knn field vector k filter := by
    simp only [searcher, Reader.knnSearch]
    cases schema.getField field with
    | none => rfl
    | some ty => cases ty <;> simp
  topByScore_mem matching n hit h := by
    obtain ⟨d, hd, rfl⟩ := mem_map.mp h
    exact mem_filter.mp (mem_of_mem_take hd)

lemma two_rows : (([(1, "a"), (2, "b")] : Rows).map Prod.fst).Nodup := by decide

def node : SearchNode Nat Instant where
  text := text
  live := snapshot [(1, "a"), (2, "b")] two_rows
  pits _ := none
  pit_schema _ _ h := (nomatch h)

def everything : NodeRequest SampleSearch.plainJson.Token := ⟨⟨"*", 10, 0, [], none, false⟩, .lucene, "", 0⟩

end SampleTenants

open SampleTenants SampleSearch in
theorem tenant_scope_of_everything : ∃ resp, node.search plainJson (.ok ()) (some "a") everything = .ok resp ∧
      resp.hits.map NodeHit.key = [1] ∧ resp.About node.live (node.live.Carries "a") := by
  have hkeys : (node.search plainJson (.ok ()) (some "a") everything).toOption.map
      (fun r => r.hits.map NodeHit.key) = some [1] := by decide +kernel
  cases hr : node.search plainJson (.ok ()) (some "a") everything with
  | error e =>
    rw [hr] at hkeys
    cases hkeys
  | ok resp =>
    rw [hr] at hkeys
    obtain ⟨s, hs, habout⟩ := (tenant_scope_not_widened node plainJson rfl (.ok ()) (.ok ())).1 "a" everything resp hr
    cases hs
    exact ⟨resp, rfl, Option.some.inj hkeys, habout⟩

end GrowlerDB.Engine
