import GrowlerDB.Core.ReshardPlan
import GrowlerDB.Engine.QueryRouting

namespace GrowlerDB.Source
open Core

abbrev Row := List (String × Value)

def rowKey (partitionNames identifierNames : List String) (row : Row) : CompositeKey :=
  ⟨partitionNames.filterMap (fun n => (row.lookup n).map (n, ·)),
    identifierNames.filterMap (fun n => (row.lookup n).map (n, ·))⟩

end GrowlerDB.Source

namespace GrowlerDB.Engine
open Core Index Lib Source List Option

structure ResolvedKey where
  partitionFields : List String
  identifierFields : List String

def ResolvedKey.routingStrategy (key : ResolvedKey) : RoutingStrategy :=
  if key.partitionFields = [] then .hash else .partition

def keywordPartitionFields (key : ResolvedKey) (fields : List ResolvedField) : List String :=
  if key.partitionFields ≠ [] ∧
      ∀ pf ∈ key.partitionFields, fields.any (fun f => f.path = pf ∧ f.ty = .keyword) then
    key.partitionFields
  else []

def rowDocument (key : ResolvedKey) (fields : List ResolvedField) (row : Row) : Document CompositeKey :=
  ⟨rowKey key.partitionFields key.identifierFields row,
    fields.filterMap (fun f => (row.lookup f.path).map (f.path, ·))⟩

def asText (istd : IndexStd) (partition : List (String × Value)) : List (String × Value) :=
  partition.map (fun e => (e.1, .str (toIndexString istd e.2)))

/-- A segment that compiles its leaves against a schema, and in which Tantivy finds a raw term only where it
stands. -/
def CompiledFor {K : Type} (istd : IndexStd) (schema : IndexSchema) (s : Segment K) : Prop :=
  ∃ (an : Analysis) (eval : TvQuery → List (String × TvValue) → Bool),
    (∀ q doc, s.leaf q doc = (build istd an schema q).map (fun tq => eval tq (toTantivy istd schema doc []))) ∧
    ∀ name t values, eval (.term name (.text t) .basic) values = true → (name, .text t) ∈ values

section
variable {istd : IndexStd} {schema : IndexSchema} {key : ResolvedKey} {row : Row}

lemma mem_keywordPartitionFields {pf : String} (h : pf ∈ keywordPartitionFields key fields) :
    pf ∈ key.partitionFields ∧ ∃ f ∈ fields, f.path = pf ∧ f.ty = .keyword := by
  unfold keywordPartitionFields at h
  split_ifs at h with hall
  · have := any_eq_true.mp (hall.2 pf h)
    exact ⟨h, by simpa using this⟩
  · exact absurd h not_mem_nil

lemma keywordPartitionFields_eq (h : keywordPartitionFields key fields ≠ []) :
    keywordPartitionFields key fields = key.partitionFields ∧ key.partitionFields ≠ [] := by
  unfold keywordPartitionFields at h ⊢
  split_ifs at h ⊢ with hall
  · exact ⟨rfl, hall.1⟩
  · exact absurd rfl h

lemma get_rowDocument (hf : f ∈ fields) :
    (rowDocument key fields row).get f.path = row.lookup f.path := by
  change (fields.filterMap fun f => (row.lookup f.path).map (f.path, ·)).lookup f.path = row.lookup f.path
  induction fields with
  | nil => exact absurd hf not_mem_nil
  | cons g fields ih =>
    rw [filterMap_cons]
    by_cases hpath : g.path = f.path
    · rw [hpath]
      cases hrow : row.lookup f.path with
      | none =>
        rw [map_none]
        simp only [lookup_eq_none_iff]
        intro e he
        obtain ⟨g', -, hg'⟩ := mem_filterMap.mp he
        obtain ⟨v, hv, rfl⟩ := map_eq_some_iff.mp hg'
        simp only [bne_iff_ne, ne_eq]
        rintro heq
        rw [← heq, hrow] at hv
        cases hv
      | some v => simp
    · have hrest := ih ((mem_cons.mp hf).resolve_left fun heq => hpath (congrArg _ heq.symm))
      cases row.lookup g.path with
      | none => exact hrest
      | some v =>
        have hne : (f.path == g.path) = false := by simpa using Ne.symm hpath
        simp only [map_some, lookup_cons, hne]
        exact hrest

lemma partitionText_row
    (hfields : ∀ pf ∈ partitionFields, ∃ f ∈ fields, f.path = pf) {partition : List (String × Value)}
    (h : partitionText istd (rowDocument key fields row) partitionFields = some partition) :
    partition = asText istd (rowKey partitionFields key.identifierFields row).partition := by
  induction partitionFields generalizing partition with
  | nil => exact (some.inj h).symm
  | cons pf rest ih =>
    obtain ⟨f, hf, rfl⟩ := hfields pf mem_cons_self
    rw [partitionText, get_rowDocument hf] at h
    cases hv : row.lookup f.path with
    | none =>
      rw [hv] at h
      cases h
    | some v =>
      rw [hv] at h
      obtain ⟨tail, htail, rfl⟩ := map_eq_some_iff.mp h
      have hrest := ih (fun pf hpf => hfields pf (mem_cons_of_mem _ hpf)) htail
      rw [hrest, rowKey, rowKey, filterMap_cons, hv]
      rfl

lemma asText_of_text {partition : List (String × Value)} (h : ∀ e ∈ partition, ∃ t, e.2 = .str t) :
    asText istd partition = partition := by
  refine (map_congr_left fun e he => ?_).trans (map_id _)
  obtain ⟨t, ht⟩ := h e he
  rw [ht]
  exact Prod.ext rfl ht.symm

section
variable {Node : Type} {std : TextStd} {s : Segment CompositeKey} {rs : RoutingState Node} {text : String}
  {dialect : Syntax} {q : Query} {ord : Nat}

lemma CompiledFor.keyword {K : Type} {s : Segment K} (h : CompiledFor istd schema s) {pf : String}
    (hpf : ∃ f ∈ schema.fields, f.path = pf ∧ f.ty = .keyword) : KeywordField istd s pf := by
  obtain ⟨an, eval, hleaf, hraw⟩ := h
  obtain ⟨f, hf, rfl, hk⟩ := hpf
  exact keywordField_of_build hleaf hraw hf hk

lemma prunes_to_text (hcompiled : CompiledFor istd schema s) (hq : Query.parseWith std dialect text = .ok q)
    (hmatch : s.exec (rowDocument key schema.fields row) q = .ok true)
    (h : partitionPrune std (keywordPartitionFields key schema.fields) text rs = some ord) :
    key.partitionFields ≠ [] ∧ partitionText istd (rowDocument key schema.fields row) key.partitionFields =
        some (asText istd (rowDocument key schema.fields row).key.partition) ∧
      ∃ owner, rs.router.route ⟨asText istd (rowDocument key schema.fields row).key.partition, []⟩ = some owner ∧
        owner.toNat = ord := by
  obtain ⟨heq, hpartition⟩ := keywordPartitionFields_eq (partitionPrune_eq_some.mp h).1
  obtain ⟨partition, owner, htext, howner, hord⟩ :=
    partitionPrune_text (fun pf hpf => hcompiled.keyword (mem_keywordPartitionFields hpf).2) hq hmatch h
  rw [heq] at htext
  have hfields : ∀ pf ∈ key.partitionFields, ∃ f ∈ schema.fields, f.path = pf := by
    intro pf hpf
    rw [← heq] at hpf
    obtain ⟨-, f, hf, hpath, -⟩ := mem_keywordPartitionFields hpf
    exact ⟨f, hf, hpath⟩
  rw [partitionText_row hfields htext] at howner htext
  exact ⟨hpartition, htext, owner, howner, hord⟩

/-- On every index for which the gateway prunes and every router its registry describes, the shard owns a matching
document exactly if the router places the partition written as text where it places the key. -/
theorem partition_prune_owner_iff (hcompiled : CompiledFor istd schema s)
    (owners : List (BitVec 32)) (shardCount : BitVec 32)
    (hrouter : ShardRouter.fromRegistry key.routingStrategy owners shardCount = .ok rs.router)
    (hq : Query.parseWith std dialect text = .ok q)
    (hmatch : s.exec (rowDocument key schema.fields row) q = .ok true)
    (h : partitionPrune std (keywordPartitionFields key schema.fields) text rs = some ord) :
    ((∃ owner, rs.router.route (rowDocument key schema.fields row).key = some owner ∧ owner.toNat = ord) ↔
      rs.router.route ⟨asText istd (rowDocument key schema.fields row).key.partition, []⟩ =
        rs.router.route (rowDocument key schema.fields row).key) ∧
    ((∀ e ∈ (rowDocument key schema.fields row).key.partition, ∃ t, e.2 = .str t) →
      ∃ owner, rs.router.route (rowDocument key schema.fields row).key = some owner ∧ owner.toNat = ord) := by
  obtain ⟨hne, hpartition, owner, howner, hord⟩ := prunes_to_text hcompiled hq hmatch h
  have hiff : (∃ owner, rs.router.route (rowDocument key schema.fields row).key = some owner ∧ owner.toNat = ord) ↔
      rs.router.route ⟨asText istd (rowDocument key schema.fields row).key.partition, []⟩ =
        rs.router.route (rowDocument key schema.fields row).key := by
    rw [howner]
    constructor
    · rintro ⟨owner', howner', hord'⟩
      rw [howner', BitVec.eq_of_toNat_eq (hord.trans hord'.symm)]
    · intro heq
      exact ⟨owner, heq.symm, hord⟩
  refine ⟨hiff, fun htext => hiff.mpr ?_⟩
  have hstrategy : rs.router.strategy = .partition := by
    rw [(ShardRouter.fromRegistry_spec hrouter).2, ResolvedKey.routingStrategy, if_neg hne]
  refine pinSafe_of_text hstrategy hne (fun partition hp => ?_) _ hpartition
  rw [← some.inj (hpartition.symm.trans hp), asText_of_text htext]

end
end

namespace SamplePartitions

def partitionField : ResolvedField := ⟨"p", .keyword, none, false, true, .position, none⟩

lemma nodup : ((keyField, TvFieldType.bytes) :: (keyEncField, TvFieldType.bytes) ::
    [partitionField].flatMap ResolvedField.entries |>.map Prod.fst).Nodup := by decide

def schema : IndexSchema := ⟨[partitionField], none, nodup⟩

def evalTerm : TvQuery → List (String × TvValue) → Bool
  | .term name (.text t) .basic, values => values.any fun e => decide (e = (name, .text t))
  | _, _ => false

def leafOf (q : Query) (doc : Document CompositeKey) : Except IndexError Bool :=
  (build SampleRoutes.istd .blank schema q).map (fun tq => evalTerm tq (toTantivy SampleRoutes.istd schema doc []))

def segment : Segment CompositeKey := { SampleRoutes.segment with leaf := leafOf }

lemma compiled : CompiledFor SampleRoutes.istd schema segment :=
  ⟨.blank, evalTerm, fun _ _ => rfl, fun _ _ _ h => by simpa [evalTerm] using h⟩

def key : ResolvedKey := ⟨["p"], ["id"]⟩

def routing : RoutingState Unit := ⟨[(), (), ()], .new 3 .partition, none⟩

def rowOf (v : Value) : Row := [("p", v), ("id", .int 7)]

lemma parsed : Query.parseWith .ascii .lucene "p:1" = .ok (.term (some "p") "1") :=
  parseWith_iff.mpr ⟨.conj (.single (.plain (.atom "p:1".toList))), ⟨rfl, by decide, by decide⟩, rfl⟩

lemma pruned : partitionPrune .ascii (keywordPartitionFields key schema.fields) "p:1" routing = some 1 := by
  refine partitionPrune_eq_some.mpr ⟨by decide, _, [("p", .str "1")], 1, parsed, by decide, by decide +kernel, rfl, ?_⟩
  decide

end SamplePartitions

open SamplePartitions

theorem partition_prune_text : segment.exec (rowDocument key schema.fields
      (rowOf (.str "1"))) (.term (some "p") "1") = .ok true ∧
    ∃ owner, routing.router.route (rowDocument key schema.fields
      (rowOf (.str "1"))).key = some owner ∧ owner.toNat = 1 := by
  have hmatch : segment.exec (rowDocument key schema.fields
      (rowOf (.str "1"))) (.term (some "p") "1") = .ok true := by rfl
  refine ⟨hmatch, (partition_prune_owner_iff compiled [] 3 rfl parsed hmatch pruned).2 fun e he => ?_⟩
  obtain rfl := mem_singleton.mp he
  exact ⟨"1", rfl⟩

/-- An integer column mapped as KEYWORD: the search is sent to shard 1, and the document is on shard 0. -/
theorem partition_prune_misses : keywordPartitionFields key schema.fields = ["p"] ∧
    ShardRouter.fromRegistry key.routingStrategy [] 3 = .ok routing.router ∧
    segment.exec (rowDocument key schema.fields
      (rowOf (.int 1))) (.term (some "p") "1") = .ok true ∧
    partitionPrune .ascii (keywordPartitionFields key schema.fields) "p:1"
      routing = some 1 ∧
    routing.router.route (rowDocument key schema.fields
      (rowOf (.int 1))).key = some 0 := by
  have hterm : evalTerm (.term "p" (.text "1") .basic) (toTantivy SampleRoutes.istd
      schema (rowDocument key schema.fields
        (rowOf (.int 1))) []) = true := by decide +kernel
  exact ⟨by decide, rfl, congrArg Except.ok hterm, pruned, by decide +kernel⟩

end GrowlerDB.Engine
