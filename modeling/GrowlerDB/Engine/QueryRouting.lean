import GrowlerDB.Core.FieldGroups
import GrowlerDB.Core.DialectTrees
import GrowlerDB.Core.Routing
import GrowlerDB.Engine.WindowedIngest
import GrowlerDB.Index.Pruning
import GrowlerDB.Index.Reader

namespace GrowlerDB.Engine
open Core Index Lib List Option Query ShardRouter Or

mutual

def collectAndPins (fields : List String) : Query → List (String × String) → List (String × String)
  | .term (some f) value, out => if f ∈ fields then (f, value) :: out else out
  | .bool must _ _ filter, out => collectAllPins fields filter (collectAllPins fields must out)
  | _, out => out

def collectAllPins (fields : List String) : List Query → List (String × String) → List (String × String)
  | [], out => out
  | q :: qs, out => collectAllPins fields qs (collectAndPins fields q out)

end

def takePins : List String → List (String × String) → Option (List (String × Value))
  | [], _ => some []
  | f :: fs, pins =>
    match pins.lookup f with
    | none => none
    | some v => (takePins fs (pins.filter (fun p => p.1 ≠ f))).map ((f, .str v) :: ·)

structure RoutingState (Node : Type) where
  shards : List Node
  router : ShardRouter
  windowRouting : Option (TimeWindowing × List WindowDescriptor)

variable {Node : Type} (std : TextStd)

def partitionPrune (partitionFields : List String) (query : String) (rs : RoutingState Node) : Option Nat :=
  if partitionFields = [] then none
  else match Query.parseWith std .lucene query with
    | .error _ => none
    | .ok q =>
      match takePins partitionFields (collectAndPins partitionFields q []) with
      | none => none
      | some partition =>
        match rs.router.route ⟨partition, []⟩ with
        | some ord => if ord.toNat < rs.shards.length then some ord.toNat else none
        | none => none

section

variable {std} {fields : List String} {r q : Query}

mutual

lemma requires_of_pin : (q : Query) → {out : List (String × String)} →
    (f, v) ∈ collectAndPins fields q out → (f, v) ∈ out ∨ f ∈ fields ∧ q.Requires (.term (some f) v)
  | .term (some g) value, out, h => by
    rw [collectAndPins] at h
    split_ifs at h with hg
    · rcases mem_cons.mp h with heq | h
      · cases heq
        exact inr ⟨hg, .self _⟩
      · exact inl h
    · exact inl h
  | .bool must should mustNot filter, out, h => by
    rw [collectAndPins] at h
    rcases requires_of_pins filter h with h | ⟨hf, q, hq, h⟩
    · rcases requires_of_pins must h with h | ⟨hf, q, hq, h⟩
      · exact inl h
      · exact inr ⟨hf, .must hq h⟩
    · exact inr ⟨hf, .filter hq h⟩
  | .term none _, _, h | .matchAll, _, h | .terms _ _, _, h | .matchText _ _ _, _, h | .phrase _ _ _, _, h
  | .startsWith _ _, _, h | .wildcard _ _, _, h | .fuzzy _ _ _, _, h | .regex _ _, _, h | .fieldExists _, _, h
  | .range _ _ _ _ _, _, h | .ipCidr _ _, _, h | .boost _ _, _, h | .knn _ _ _ _, _, h => inl h

lemma requires_of_pins : (qs : List Query) → {out : List (String × String)} →
    (f, v) ∈ collectAllPins fields qs out →
      (f, v) ∈ out ∨ f ∈ fields ∧ ∃ q ∈ qs, q.Requires (.term (some f) v)
  | [], _, h => inl h
  | q :: qs, out, h => by
    rcases requires_of_pins qs h with h | ⟨hf, p, hp, h⟩
    · rcases requires_of_pin q h with h | ⟨hf, h⟩
      · exact inl h
      · exact inr ⟨hf, q, mem_cons_self, h⟩
    · exact inr ⟨hf, p, mem_cons_of_mem _ hp, h⟩

end

def partitionText {K : Type} (istd : IndexStd) (doc : Document K) : List String → Option (List (String × Value))
  | [] => some []
  | f :: fs =>
    match doc.get f with
    | none => none
    | some v => (partitionText istd doc fs).map ((f, .str (toIndexString istd v)) :: ·)

lemma takePins_own {K : Type} {istd : IndexStd} {doc : Document K} {pins : List (String × String)}
    {partition : List (String × Value)}
    (hown : ∀ f v, (f, v) ∈ pins → ∃ value, doc.get f = some value ∧ toIndexString istd value = v)
    (h : takePins fields pins = some partition) : partitionText istd doc fields = some partition := by
  induction fields generalizing pins partition with
  | nil => exact h
  | cons f fs ih =>
    rw [takePins] at h
    split at h
    · cases h
    · rename_i v hv
      obtain ⟨rest, hrest, rfl⟩ := map_eq_some_iff.mp h
      obtain ⟨before, after, rfl, -⟩ := lookup_eq_some_iff.mp hv
      obtain ⟨value, hvalue, rfl⟩ := hown f v (by simp)
      have htail := ih (fun g u hg => hown g u (mem_filter.mp hg).1) hrest
      rw [partitionText, hvalue, htail]
      rfl

end

section

variable {std} {K : Type} {s : Segment K} {doc : Document K} {q r : Query}

lemma exec_required (h : q.Requires r) (hq : s.exec doc q = .ok true) : s.exec doc r = .ok true := by
  induction h with
  | self => exact hq
  | must hin _ ih => exact ih ((Segment.exec_bool hq).1 _ hin)
  | filter hin _ ih => exact ih ((Segment.exec_bool hq).2 _ hin)

/-- What the Lucene parse requires holds of what matches the parse in the dialect of the request. -/
lemma exec_pinned (hq : parseWith std .lucene text = .ok q)
    (hq' : parseWith std dialect text = .ok q') (hexec : s.exec doc q' = .ok true) (hr : r.IsLeaf)
    (hreq : q.Requires r) : s.exec doc r = .ok true := by
  cases dialect with
  | lucene =>
    obtain rfl := Except.ok.inj (hq.symm.trans hq')
    exact exec_required hreq hexec
  | kql => exact exec_required (requires_kql hq hq' hr hreq) hexec

lemma kql_bounded {text : String} {q' : Query} (hq : parseWith std .lucene text = .ok q)
    (hq' : parseWith std .kql text = .ok q') (hexec : s.exec doc q' = .ok true) {field : String}
    {format : Option TimeFormat} (hf : s.dateFields field = some format) :
    Bounded s doc field format (q.rangeBounds field) := by
  refine bounded_of (P := fun p => ∀ r, r.IsLeaf → p.Requires r → s.exec doc r = .ok true) hf ?_ ?_ q ?_
  · intro must should mustNot filter h
    exact ⟨fun p hp r hr hreq => h r hr (.must hp hreq), fun p hp r hr hreq => h r hr (.filter hp hreq)⟩
  · intro f lower li upper ui h
    exact h _ trivial (.self _)
  · intro r hr hreq
    exact exec_pinned hq hq' hexec hr hreq

/-- A term on the field matches only documents whose value is indexed as the term's text. -/
def KeywordField (istd : IndexStd) (s : Segment K) (field : String) : Prop :=
  ∀ (doc : Document K) (v : String), s.exec doc (.term (some field) v) = .ok true →
    ∃ value, doc.get field = some value ∧ toIndexString istd value = v

lemma keywordField_of_build {istd : IndexStd} {an : Analysis} {schema : IndexSchema}
    {eval : TvQuery → List (String × TvValue) → Bool}
    (hleaf : ∀ q doc, s.leaf q doc = (build istd an schema q).map (fun tq => eval tq (toTantivy istd schema doc [])))
    (hraw : ∀ name t values, eval (.term name (.text t) .basic) values → (name, .text t) ∈ values)
    {f : ResolvedField} (hf : f ∈ schema.fields) (hk : f.ty = .keyword) : KeywordField istd s f.path := by
  intro doc v h
  change s.leaf (.term (some f.path) v) doc = _ at h
  rw [hleaf, build_keyword_term istd an hf hk] at h
  exact value_of_mem_toTantivy istd hf hk (hraw _ _ _ (Except.ok.inj h))

end

/-- The router places a document where it would place the texts of its partition fields. -/
def PinSafe (istd : IndexStd) (router : ShardRouter) (fields : List String) (doc : Document CompositeKey) : Prop :=
  ∀ partition, partitionText istd doc fields = some partition → router.route ⟨partition, []⟩ = router.route doc.key

section

variable {std} {istd : IndexStd} {s : Segment CompositeKey} {doc : Document CompositeKey} {fields : List String}
  {rs : RoutingState Node} {text : String} {q' : Query}

lemma pinSafe_of_text {router : ShardRouter} (hstrategy : router.strategy = .partition) (hfields : fields ≠ [])
    (hkey : ∀ partition, partitionText istd doc fields = some partition → doc.key.partition = partition) :
    PinSafe istd router fields doc := by
  intro partition h
  have hne : partition ≠ [] := by
    rintro rfl
    cases fields with
    | nil => exact hfields rfl
    | cons f fs =>
      rw [partitionText] at h
      split at h
      · cases h
      · obtain ⟨rest, -, hcons⟩ := map_eq_some_iff.mp h
        cases hcons
  have hbytes : router.strategyBytes ⟨partition, []⟩ = router.strategyBytes doc.key := by
    rw [strategyBytes, strategyBytes, hstrategy, hkey partition h]
    simp [hne]
  rw [route, route, bucket, bucket, hbytes]

lemma partitionPrune_eq_some : partitionPrune std fields text rs = some ord ↔
    fields ≠ [] ∧ ∃ q partition owner, parseWith std .lucene text = .ok q ∧
      takePins fields (collectAndPins fields q []) = some partition ∧
      rs.router.route ⟨partition, []⟩ = some owner ∧ owner.toNat = ord ∧ ord < rs.shards.length := by
  rw [partitionPrune]
  constructor
  · intro h
    split_ifs at h with hne
    split at h
    · cases h
    · rename_i q hq
      split at h
      · cases h
      · rename_i partition hpartition
        split at h
        · rename_i owner howner
          split_ifs at h with hlt
          cases h
          exact ⟨hne, q, partition, owner, hq, hpartition, howner, rfl, hlt⟩
        · cases h
  · rintro ⟨hne, q, partition, owner, hq, hpartition, howner, rfl, hlt⟩
    simp only [if_neg hne, hq, hpartition, howner, if_pos hlt]

/-- A pinned search that a document matches is sent where the texts of its partition fields are placed. -/
lemma partitionPrune_text (hkeyword : ∀ f ∈ fields, KeywordField istd s f) (hq' : parseWith std dialect text = .ok q')
    (hmatch : s.exec doc q' = .ok true) (h : partitionPrune std fields text rs = some ord) :
    ∃ partition owner, partitionText istd doc fields = some partition ∧
      rs.router.route ⟨partition, []⟩ = some owner ∧ owner.toNat = ord := by
  obtain ⟨-, q, partition, owner, hq, hpartition, howner, hord, -⟩ := partitionPrune_eq_some.mp h
  refine ⟨partition, owner, takePins_own (fun f v hfv => ?_) hpartition, howner, hord⟩
  obtain ⟨hf, hreq⟩ := (requires_of_pin q hfv).resolve_left not_mem_nil
  exact hkeyword f hf doc v (exec_pinned hq hq' hmatch trivial hreq)

variable {w : TimeWindowing} {f : TimeFields} {batch : CommitBatch CompositeKey} {prior : Redb}

/-- A document reads back inside its window and its zone, as far as the names of the time fields can be
written in a query. -/
structure TextSafe (std : TextStd) (w : TimeWindowing) (f : TimeFields) (s : Segment CompositeKey) (prior : Redb)
    (batch : CommitBatch CompositeKey) (doc : Document CompositeKey) : Prop where
  window : isIdentifier std w.field.toList = true → ∀ v m, doc.get w.field = some v →
    dateValue f.cal w.field f.windowFormat v = some m →
    InWindowOf w (placement f.windowFormat v m) (s.column m)
  event : ∀ e, w.eventTimeField = some e → isIdentifier std e.toList = true → ∀ v m, doc.get e = some v →
    dateValue f.cal e f.eventFormat v = some m →
    let ops := w.upsertsIn f (w.docWindow f.cal doc f.windowFormat) batch.ops
    recordedLows f prior ops = [] ∨
      ((∃ a ∈ recordedLows f prior ops, a ≤ s.column m) ∧ ∃ b ∈ recordedHighs f prior ops, s.column m ≤ b)

lemma TextSafe.keeps (hsafe : TextSafe std w f s prior batch doc) (hd : Deployed w f s)
    (hfit : ∀ field v, doc.get field = some v → v.Fits) (hq : parseWith std .lucene text = .ok q)
    (hq' : parseWith std .kql text = .ok q') (hmatch : s.exec doc q' = .ok true) :
    w.keeps (w.docWindow f.cal doc f.windowFormat) (prior.setEventBounds
      (w.windowBatch f batch (w.docWindow f.cal doc f.windowFormat)).eventMin
      (w.windowBatch f batch (w.docWindow f.cal doc f.windowFormat)).eventMax).eventBounds q := by
  rw [TimeWindowing.keeps_iff]
  constructor
  · by_cases hident : isIdentifier std w.field.toList
    · exact windowOverlaps_bounded hd hfit (hsafe.window hident) (kql_bounded hq hq' hmatch hd.window)
    · rw [rangeBounds_unwritten hq hident, TimeWindowing.windowOverlaps_iff]
      simp
  · intro e lo hi he hz
    by_cases hident : isIdentifier std e.toList
    · exact rangeOverlaps_bounded hd prior hz (hsafe.event e he hident) (kql_bounded hq hq' hmatch (hd.event e he))
    · rw [rangeBounds_unwritten hq hident, rangeOverlaps_iff]
      simp

end

open SampleWindows (windowing fields)

namespace SampleRoutes

def segment : Segment CompositeKey where
  __ := (SampleWindows.segment : Segment CompositeKey)
  leaf q doc :=
    match q with
    | .term (some "p") v => .ok (doc.get "p" = some (.str v))
    | _ => .ok false

def istd : IndexStd := ⟨.blank, id, fun _ => "", fun _ => none, fun _ => none⟩

lemma keyword : ∀ f ∈ ["p"], KeywordField istd segment f := by
  intro f hf doc v h
  obtain rfl := mem_singleton.mp hf
  have hget : doc.get "p" = some (.str v) := by simpa [segment, Segment.exec] using h
  exact ⟨.str v, hget, rfl⟩

def router : ShardRouter := .new 2 .partition

def document (ts : Value) : Document CompositeKey := ⟨⟨[("p", .str "a")], []⟩, [("p", .str "a"), ("ts", ts)]⟩

def batch (ts : Value) : CommitBatch CompositeKey := ⟨[.upsert (document ts)], ⟨10, some 1⟩, "a", none, none⟩

lemma fits (hts : ts.Fits) : ∀ field v, (document ts).get field = some v → v.Fits := by
  intro field v hv
  simp only [document, Document.get, lookup_cons, lookup_nil] at hv
  split at hv
  · cases hv
    trivial
  · split at hv
    · cases hv
      exact hts
    · cases hv

end SampleRoutes

open SampleRoutes

end GrowlerDB.Engine
