import GrowlerDB.Core.Sort

namespace GrowlerDB.Engine
open Core Lib Ranking

inductive RpcCode
  | invalidArgument
  | failedPrecondition
  | notFound
  | permissionDenied
  | unauthenticated
  | unavailable
  | deadlineExceeded
  | resourceExhausted
  | unimplemented
  | internal
  deriving DecidableEq

structure RpcStatus where
  code : RpcCode
  message : String
  deriving DecidableEq

/-- The JSON library on cursors. A float that is not finite is written as null, which does not read
back as a number, and no JSON number reads as NaN. -/
structure CursorJson (K : Type) where
  Token : Type
  encodeCursor : SearchAfter K → Token
  decodeCursor : Token → Option (SearchAfter K)
  decode_infinite : ∀ c x, .num x ∈ c.sortValues → x.isFinite = false →
    decodeCursor (encodeCursor c) = none
  decode_comparable : ∀ t c, decodeCursor t = some c → ∀ v ∈ c.sortValues, v.Comparable

structure SearchRequest (Token : Type) where
  query : String
  limit : Nat
  offset : Nat
  sort : List SortKey
  searchAfter : Option Token
  requireComplete : Bool

structure SearchHit (K : Type) where
  coordinates : Option K
  score : F64
  sortValues : List SortValue
  deriving DecidableEq

structure SearchResponse (K Token : Type) where
  hits : List (SearchHit K)
  total : Nat
  nextCursor : Option Token
  incomplete : Bool
  shardsScanned : Nat
  shardsTotal : Nat
  warnings : List String

section

variable {K : Type}

def hitKey (h : SearchHit K) : WithBot K := h.coordinates

def searchAfterFromHit (h : SearchHit K) : Option (SearchAfter K) :=
  h.coordinates.map (fun key => ⟨h.sortValues, key⟩)

variable [LinearOrder K]

def hitCmp (sort : List SortKey) (a b : SearchHit K) : Ordering :=
  (match sort with
    | [] => (b.score.partialCmp a.score).getD .eq
    | _ => cmpSortValues (sort.map SortKey.order) a.sortValues b.sortValues).then
    (compare (hitKey a) (hitKey b))

def mergeFieldSorted (hits : List (SearchHit K)) (sort : List SortKey) : List (SearchHit K) :=
  sortBy (fun a b => (cmpSortValues (sort.map SortKey.order) a.sortValues b.sortValues).then
    (compare (hitKey a) (hitKey b))) hits

def mergeByScore (hits : List (SearchHit K)) : List (SearchHit K) :=
  sortBy (fun a b => ((b.score.partialCmp a.score).getD .eq).then (compare (hitKey a) (hitKey b))) hits

end

def RpcCode.isClientError : RpcCode → Bool
  | .invalidArgument => true
  | .failedPrecondition => true
  | .notFound => true
  | .permissionDenied => true
  | .unauthenticated => true
  | _ => false

def allShardsFailed (fallback : String) (errors : List RpcStatus) : RpcStatus :=
  match errors with
  | [] => ⟨.unavailable, fallback⟩
  | first :: _ => if errors.all (fun s => s.code.isClientError) then first else ⟨.unavailable, fallback⟩

def refusePartial (failed totalShards : Nat) (errors : List RpcStatus) : RpcStatus :=
  let first := match errors with
    | [] => ""
    | s :: _ => "; first shard error: " ++ s.message
  ⟨.unavailable, toString failed ++ " of " ++ toString totalShards ++
    " shards failed and the request requires complete results" ++ first⟩

def mergeWarnings (into : List String) (more : List String) : List String :=
  more.foldl (fun into w => if into.contains w then into else into ++ [w]) into

structure GatewayLimits where
  maxFetch : Nat

variable {K : Type} [LinearOrder K] (json : CursorJson K)

abbrev ShardSearch := SearchRequest json.Token → Except RpcStatus (SearchResponse K json.Token)

variable {json}

section

variable (req : SearchRequest json.Token)

/-- How deep each shard is asked to go: it cannot apply the global offset itself. A cursor is a
global position, so with one the offset does not count. -/
def effectiveOffset : Nat :=
  if req.searchAfter.isNone then req.offset else 0

def perShardLimit : Nat :=
  if req.limit = 0 then 0 else min (effectiveOffset req + req.limit) (2 ^ 32 - 1)

def shardBody : SearchRequest json.Token :=
  { req with offset := 0, limit := perShardLimit req }

def gatherResponses (shards : List (ShardSearch json)) (arrived : List Nat)
    (body : SearchRequest json.Token) : List (Except RpcStatus (SearchResponse K json.Token)) :=
  arrived.filterMap (fun i => (shards[i]?).map (fun shard => shard body))

def okBodies (replies : List (Except RpcStatus (SearchResponse K json.Token))) :
    List (SearchResponse K json.Token) :=
  replies.filterMap Except.toOption

def replyErrors (replies : List (Except RpcStatus (SearchResponse K json.Token))) : List RpcStatus :=
  replies.filterMap (fun r => match r with
    | .error e => some e
    | .ok _ => none)

def mergePage (hits : List (SearchHit K)) : List (SearchHit K) :=
  let merged := if req.sort = [] then mergeByScore hits else mergeFieldSorted hits req.sort
  let window := (firsts hitKey [] merged).drop (effectiveOffset req)
  if req.limit > 0 then window.take req.limit else window

def nextCursor (page : List (SearchHit K)) : Option json.Token :=
  if req.sort ≠ [] ∧ sortHasScore req.sort = false ∧ req.limit > 0 ∧ page.length = req.limit then
    (page.getLast?.bind searchAfterFromHit).map json.encodeCursor
  else none

end

def scatterGather (shards : List (ShardSearch json)) (shardsTotal : Nat) (arrived : List Nat)
    (req : SearchRequest json.Token) : Except RpcStatus (SearchResponse K json.Token) :=
  if req.searchAfter.isSome ∧ (req.sort = [] ∨ sortHasScore req.sort = true) then
    .error ⟨.invalidArgument, "search_after requires a non-`_score` sort on a multi-shard index: " ++
      "score-ranked keyset paging is unsupported because scores aren't a stable keyset."⟩
  else
    let replies := gatherResponses shards arrived (shardBody req)
    let bodies := okBodies replies
    let failed := shards.length - bodies.length
    if bodies = [] then
      .error (allShardsFailed ("all " ++ toString shards.length ++ " shards failed to respond")
        (replyErrors replies))
    else if req.requireComplete ∧ failed > 0 then
      .error (refusePartial failed shards.length (replyErrors replies))
    else
      let page := mergePage req (bodies.flatMap SearchResponse.hits)
      .ok
        { hits := page
          total := (bodies.map SearchResponse.total).sum
          nextCursor := nextCursor req page
          incomplete := decide (failed > 0)
          shardsScanned := shards.length
          shardsTotal := shardsTotal
          warnings := bodies.foldl (fun into r => mergeWarnings into r.warnings) [] }

def searchInner (limits : GatewayLimits) (shards : List (ShardSearch json)) (shardsTotal : Nat)
    (arrived : List Nat) (req : SearchRequest json.Token) :
    Except RpcStatus (SearchResponse K json.Token) :=
  let fetch := req.offset + req.limit
  if limits.maxFetch > 0 ∧ fetch > limits.maxFetch then
    .error ⟨.invalidArgument, "offset+limit (" ++ toString fetch ++
      ") exceeds the maximum page fetch (" ++ toString limits.maxFetch ++
      "); request a smaller page"⟩
  else match shards with
    | [] => .ok ⟨[], 0, none, false, 0, shardsTotal, []⟩
    | [shard] =>
      if arrived.contains 0 then
        (shard req).map (fun r => { r with shardsScanned := 1, shardsTotal := shardsTotal })
      else .error ⟨.deadlineExceeded, "query exceeded the per-request deadline"⟩
    | _ => scatterGather shards shardsTotal arrived req

structure Hit (K : Type) where
  key : K
  score : F64
  sortValues : List SortValue

variable {K : Type}

def Hit.place (h : Hit K) : SearchAfter K := ⟨h.sortValues, h.key⟩

def Hit.toWire (h : Hit K) : SearchHit K := ⟨some h.key, h.score, h.sortValues⟩

abbrev StorePages (K : Type) :=
  Nat → List SortKey → Nat → Option (SearchAfter K) → Except RpcStatus (List (Hit K) × Option (SearchAfter K))

def maxNodeFetch : Nat := 10000

def pageResponse (json : CursorJson K) (hits : List (Hit K)) (next : Option (SearchAfter K))
    (total : Nat) : SearchResponse K json.Token :=
  ⟨hits.map Hit.toWire, total, next.map json.encodeCursor, false, 0, 0, []⟩

def decodeAfter (json : CursorJson K) : Option json.Token →
    Except RpcStatus (Option (SearchAfter K))
  | none => .ok none
  | some token =>
    match json.decodeCursor token with
    | some c => .ok (some c)
    | none => .error ⟨.invalidArgument, "invalid search_after cursor"⟩

def nodeSearch (json : CursorJson K) (store : StorePages K) (total : Nat) : ShardSearch json :=
  fun req => do
    let after ← decodeAfter json req.searchAfter
    if req.offset + req.limit > maxNodeFetch then
      .error ⟨.invalidArgument, "offset+limit (" ++ toString (req.offset + req.limit) ++
        ") exceeds the maximum page fetch (" ++ toString maxNodeFetch ++ ")"⟩
    else
      let (hits, next) ← store req.limit req.sort req.offset after
      pure (pageResponse json hits next total)

def storeNext (sort : List SortKey) (page : List (Hit K)) : Option (SearchAfter K) :=
  if sort = [] ∨ sortHasScore sort = true then none else page.getLast?.map Hit.place

variable [LinearOrder K]

def Hit.cmp (sort : List SortKey) (a b : Hit K) : Ordering :=
  SearchAfter.cmp (sort.map SortKey.order) a.place b.place

def isAfter (sort : List SortKey) (cursor : Option (SearchAfter K)) (h : Hit K) : Bool :=
  match cursor with
  | none => true
  | some c => SearchAfter.cmp (sort.map SortKey.order) h.place c == .gt

/-- A store that pages correctly through its matches: they are in order, and each call returns the
first of those after the cursor. -/
structure ServesRanking (sort : List SortKey) (store : StorePages K) (matching : List (Hit K)) :
    Prop where
  sorted : matching.Pairwise (fun a b => a.cmp sort b = .lt)
  pages : ∀ k cursor, store k sort 0 cursor =
    .ok ((matching.filter (isAfter sort cursor)).take k,
      storeNext sort ((matching.filter (isAfter sort cursor)).take k))

end GrowlerDB.Engine
