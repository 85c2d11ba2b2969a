import GrowlerDB.Index.Build
import GrowlerDB.Index.SortedSearch
import Mathlib.Data.List.Nodup
import Mathlib.Data.List.Pairwise
import Mathlib.Data.List.ReduceOption

namespace GrowlerDB.Index
open Core Lib Ranking TvQuery Prod

mutual

def TvQuery.eval (combine : List Bool → List Bool → List Bool → Bool)
    (leaf : TvQuery → List (String × TvValue) → Bool) (doc : List (String × TvValue)) : TvQuery → Bool
  | .all => true
  | .empty => false
  | .boost q _ => q.eval combine leaf doc
  | .constScore q _ => q.eval combine leaf doc
  | .boolean must should mustNot =>
    combine (TvQuery.evals combine leaf doc must) (TvQuery.evals combine leaf doc should)
      (TvQuery.evals combine leaf doc mustNot)
  | q => leaf q doc

def TvQuery.evals (combine : List Bool → List Bool → List Bool → Bool)
    (leaf : TvQuery → List (String × TvValue) → Bool) (doc : List (String × TvValue)) :
    List TvQuery → List Bool
  | [] => []
  | q :: qs => q.eval combine leaf doc :: TvQuery.evals combine leaf doc qs

end

/-- A snapshot with its schema. `source` is the document indexed at an address; `leaf`, `neighbours` and `vectorScore`
are Tantivy and the ANN index. -/
structure Reader (K T : Type) [LinearOrder K] [LinearOrder T] where
  std : IndexStd
  analysis : Analysis
  schema : IndexSchema
  searcher : Searcher K T
  source : StoredDoc K T → Document K × List VariantLeaves
  leaf : TvQuery → List (String × TvValue) → Bool
  hasIndexDir : Bool
  hasAnn : String → Nat → Bool
  neighbours : String → List (BitVec 32) → Nat → List (StoredDoc K T × F64)
  vectorScore : String → List (BitVec 32) → List (BitVec 32) → F64
  builds : ∀ q, searcher.build q = (build std analysis schema q).map (fun tq d =>
    tq.eval searcher.combine leaf (toTantivy std schema (source d).1 (source d).2))
  raw_term : ∀ field t record fast doc, schema.getField field = some (.str (some stringIndexing) fast) →
    leaf (.term field (.text t) record) doc = true → (field, .text t) ∈ doc

structure CollapsedHit (K : Type) where
  hit : Hit K
  group : Value
  sortValues : List SortValue
  count : Nat

structure CollapseEntry (K : Type) where
  hit : Hit K
  group : Value
  sortValues : List SortValue

structure ExplainHit where
  found : Bool
  matched : Bool
  score : F64

namespace Reader

variable {K T : Type} [LinearOrder K] [LinearOrder T] (r : Reader K T)

def values (d : StoredDoc K T) : List (String × TvValue) :=
  toTantivy r.std r.schema (r.source d).1 (r.source d).2

def vectorOf (d : StoredDoc K T) (field : String) : Option (List (BitVec 32)) :=
  match (r.values d).lookup field with
  | some (.vector (x :: v)) => some (x :: v)
  | _ => none

def cmpNeighbours (a b : Hit K) : Ordering :=
  ((b.score.partialCmp a.score).getD .eq).then (compare a.key b.key)

def knnSearch (field : String) (vector : List (BitVec 32)) (k : Nat) (filter : Option Query) :
    Except IndexError (List (Hit K)) :=
  match r.schema.getField field with
  | none => .error (.unknownField field)
  | some .bytes =>
    if k = 0 ∨ r.hasIndexDir = false then .ok []
    else do
      let hits ← match filter with
        | some f => do
          let matching ← r.searcher.build f
          .ok (((r.searcher.docSet matching).filter (fun d => r.hasAnn field d.address.segmentOrd)).filterMap
            (fun d => (r.vectorOf d field).map (fun v => (⟨d.key, r.vectorScore field vector v⟩ : Hit K))))
        | none => .ok ((r.neighbours field vector k).map (fun n => (⟨n.1.key, n.2⟩ : Hit K)))
      .ok ((sortBy cmpNeighbours hits).take k)
  | some _ => .error (.queryType ("field `" ++ field ++ "` is not a VECTOR field — KNN needs a vector field"))

def count (query : Query) : Except IndexError Nat :=
  match query with
  | .knn field vector k filter => (r.knnSearch field vector k filter).map List.length
  | q => (r.searcher.build q).map (fun matching => (r.searcher.docs.filter matching).length)

def notFast (field : String) : IndexError :=
  .queryType ("collapse needs a fast field, got `" ++ field ++ "`")

def groupValue (d : StoredDoc K T) (field : String) : Except IndexError (Option Value) := do
  let ty ← r.schema.resolveTypedField field
  let v := (r.values d).lookup field
  match ty with
  | .str _ true => .ok (match v with | some (.text s) => some (.str s) | _ => none)
  | .i64 true => .ok (match v with | some (.i64 n) => some (.int n) | _ => none)
  | .f64 true => .ok (match v with | some (.f64 x) => some (.float x) | _ => none)
  | .bool true => .ok (match v with | some (.bool b) => some (.bool b) | _ => none)
  | .date true => .ok (match v with | some (.date m) => some (.int m) | _ => none)
  | _ => .error (notFast field)

def collapseEntry (sort : List SortKey) (collapse : String) (d : StoredDoc K T) :
    Except IndexError (Option (CollapseEntry K)) := do
  match ← r.groupValue d collapse with
  | none => .ok none
  | some group => do
    let values ← sort.mapM (fun key => r.searcher.fastValue d key.field)
    .ok (some ⟨⟨d.key, ⟨0⟩⟩, group, values⟩)

def collapseScan (query : Query) (sort : List SortKey) (collapse : String) :
    Except IndexError (List (CollapseEntry K)) := do
  let matching ← r.searcher.build query
  let entries ← (r.searcher.docSet matching).mapM (r.collapseEntry sort collapse)
  .ok entries.reduceOption

def addToGroups (groups : List (CollapsedHit K)) (e : CollapseEntry K) : List (CollapsedHit K) :=
  let key := toIndexString r.std e.group
  if groups.any (fun g => toIndexString r.std g.group = key) then
    groups.map (fun g => if toIndexString r.std g.group = key then { g with count := g.count + 1 } else g)
  else groups ++ [⟨e.hit, e.group, e.sortValues, 1⟩]

def collapsedIn (query : Query) (k : Nat) (sort : List SortKey) (collapse : String) :
    Except IndexError (List (CollapsedHit K)) :=
  if sort = [] then .error (.queryType "collapse requires at least one sort key")
  else do
    let entries ← r.collapseScan query sort collapse
    let ordered := sortBy (fun a b : CollapseEntry K =>
      Searcher.cmpHits sort (a.hit, a.sortValues) (b.hit, b.sortValues)) entries
    .ok ((ordered.foldl r.addToGroups []).take k)

def explain (query : Query) (key : K) : Except IndexError ExplainHit :=
  match r.searcher.docs.find? (fun d => d.key = key) with
  | none => .ok ⟨false, false, ⟨0⟩⟩
  | some d => do
    let matching ← r.searcher.build query
    if matching d then .ok ⟨true, true, r.searcher.explain matching d⟩
    else .ok ⟨true, false, ⟨0⟩⟩

end Reader

/-- A reader of an index with a checked definition, whose KNN queries go to its vectors and whose
scored window holds matches. -/
structure Snapshot (K T : Type) [LinearOrder K] [LinearOrder T] extends Reader K T where
  definition : ResolvedIndex
  checked : definition.checkTenantField = .ok ()
  derived : IndexSchema.fromResolved definition = some schema
  knn : ∀ field vector k filter, searcher.knnSearch (.knn field vector k filter) =
    toReader.knnSearch field vector k filter
  topByScore_mem : ∀ matching n hit, hit ∈ searcher.topByScore matching n →
    hit.2 ∈ searcher.docs ∧ matching hit.2 = true

open List Option IndexSchema

variable {name : String}

namespace IndexSchema

variable {schema : IndexSchema} {f g : ResolvedField}

lemma fromResolved_eq (h : fromResolved idx = some schema) :
    schema.fields = idx.fields ∧ schema.tenantField = idx.tenantField := by
  unfold fromResolved at h
  split at h
  · cases h
    exact ⟨rfl, rfl⟩
  · cases h

lemma keyword_of_checked (hc : idx.checkTenantField = .ok ())
    (hs : fromResolved idx = some schema) (ht : schema.tenantField = some tf) :
    ∃ f ∈ schema.fields, f.path = tf ∧ f.ty = .keyword := by
  obtain ⟨hf, htf⟩ := fromResolved_eq hs
  rw [ResolvedIndex.checkTenantField, ← htf, ht] at hc
  cases hfind : idx.fields.find? (·.path = tf) with
  | none => simp [hfind] at hc
  | some f =>
    refine ⟨f, hf ▸ mem_of_find?_eq_some hfind, by simpa using List.find?_some hfind, ?_⟩
    by_contra hne
    simp [hfind, hne] at hc

lemma names_nodup (schema : IndexSchema) :
    (schema.fields.flatMap (fun f => f.entries.map fst)).Nodup := by
  have h := schema.nodup
  rw [map_cons, map_cons, map_flatMap] at h
  exact (nodup_cons.mp (nodup_cons.mp h).2).2

lemma eq_of_name (hf : f ∈ schema.fields) (hg : g ∈ schema.fields)
    (h : name ∈ f.entries.map fst) (h' : name ∈ g.entries.map fst) : f = g := by
  by_contra hne
  have hp := (nodup_flatMap.mp schema.names_nodup).2
  have : Std.Symm (Function.onFun List.Disjoint fun f : ResolvedField => f.entries.map fst) :=
    ⟨fun _ _ h => disjoint_symm h⟩
  exact hp.forall hf hg hne h h'

lemma mem_entries_keyword (hk : f.ty = .keyword) :
    (f.path, .str (some stringIndexing) f.fast) ∈ f.entries := by
  simp [ResolvedField.entries, hk]

lemma path_mem_entries (hty : f.ty ≠ .variant) : f.path ∈ f.entries.map fst := by
  unfold ResolvedField.entries
  split
  · contradiction
  all_goals simp

lemma lookup_of_mem {A : Type} {l : List (String × A)} (hn : (l.map fst).Nodup)
    {a : A} (h : (name, a) ∈ l) : l.lookup name = some a := by
  induction l with
  | nil => cases h
  | cons e es ih =>
    obtain ⟨hne, hn⟩ := nodup_cons.mp hn
    rcases mem_cons.mp h with rfl | h
    · simp
    · have : name ≠ e.1 := by
        rintro rfl
        exact hne (mem_map.mpr ⟨_, h, rfl⟩)
      rw [lookup_cons, beq_false_of_ne this]
      exact ih hn h

lemma getField_of_mem {ty : TvFieldType} (h : (name, ty) ∈ schema.entries) : schema.getField name = some ty :=
  lookup_of_mem schema.nodup h

end IndexSchema

section

variable {schema : IndexSchema} {f : ResolvedField}

lemma getField_keyword (hf : f ∈ schema.fields) (hk : f.ty = .keyword) :
    schema.getField f.path = some (.str (some stringIndexing) f.fast) ∧ f.path ≠ keyField := by
  have hm : (f.path, TvFieldType.str (some stringIndexing) f.fast) ∈ schema.entries :=
    mem_cons_of_mem _ (mem_cons_of_mem _
      (mem_flatMap_of_mem hf (mem_entries_keyword hk)))
  have hget := getField_of_mem hm
  refine ⟨hget, fun hkey => ?_⟩
  have hbytes : schema.getField keyField = some .bytes := getField_of_mem mem_cons_self
  rw [hkey, hbytes] at hget
  cases hget

lemma build_keyword_term (std : IndexStd) (an : Analysis) (hf : f ∈ schema.fields)
    (hk : f.ty = .keyword) (t : String) :
    build std an schema (.term (some f.path) t) = .ok (.term f.path (.text t) .basic) := by
  obtain ⟨hget, hkey⟩ := getField_keyword hf hk
  have hflat : schema.flattenTermsField f.path = none := by simp [flattenTermsField, hget]
  have htyped : schema.resolveTypedField f.path = .ok (.str (some stringIndexing) f.fast) := by
    simp [resolveTypedField, hkey, hget]
  have hres : schema.resolveField (some f.path) = .ok (f.path, false) := by
    simp [resolveField, hkey, hget, fieldKind, stringIndexing]
  simp [build, buildTerm, buildNamedTerm, hflat, htyped, buildTextTerm, hres, bind, Except.bind]

variable {K : Type}

lemma name_of_mem_flattenLeaves (std : IndexStd) (h : (name, v) ∈ flattenLeaves std schema vc) :
    ∃ g ∈ schema.fields, g.ty = .variant ∧ name ∈ g.entries.map fst := by
  unfold flattenLeaves at h
  split at h
  · cases h
  · rename_i g hfind
    have hg := List.find?_some hfind
    simp only [Bool.decide_and, decide_eq_true_eq, Bool.and_eq_true, isSome_iff_exists] at hg
    obtain ⟨hty, ⟨flat, hflat⟩, -⟩ := hg
    refine ⟨g, mem_of_find?_eq_some hfind, hty, ?_⟩
    obtain ⟨leaf, -, h⟩ := mem_flatMap.mp h
    simp only [hflat, any_some] at h
    simp only [ResolvedField.entries, hty, hflat]
    rcases mem_append.mp h with h | h
    · split at h
      · rename_i hon
        simp_all
      · cases h
    · split at h
      · split at h
        · rename_i hon
          simp_all
        · cases h
      · cases h

lemma value_of_mem_toTantivy (std : IndexStd) (hf : f ∈ schema.fields) (hk : f.ty = .keyword)
    {doc : Document K} (h : (f.path, TvValue.text t) ∈ toTantivy std schema doc variants) :
    ∃ v, doc.get f.path = some v ∧ toIndexString std v = t := by
  have hname : f.path ∈ f.entries.map Prod.fst := mem_map_of_mem (mem_entries_keyword hk)
  rcases mem_append.mp h with h | h
  · obtain ⟨g, hg, he⟩ := mem_filterMap.mp h
    obtain ⟨v, hv, he⟩ := map_eq_some_iff.mp he
    obtain ⟨w, hw, hadd⟩ := bind_eq_some_iff.mp hv
    obtain ⟨hpath, rfl⟩ := Prod.mk.injEq .. ▸ he
    have hgty : g.ty ≠ .variant := by
      intro hvar
      simp [addTypedValue, hvar] at hadd
    obtain rfl : g = f := eq_of_name hg hf (hpath ▸ path_mem_entries hgty) hname
    refine ⟨w, hw, ?_⟩
    simpa [addTypedValue, hk] using hadd
  · obtain ⟨vc, -, h⟩ := mem_flatMap.mp h
    obtain ⟨g, hg, hvar, hgname⟩ := name_of_mem_flattenLeaves std h
    obtain rfl := eq_of_name hg hf hgname hname
    rw [hk] at hvar
    cases hvar

end

lemma evals_eq_map (combine : List Bool → List Bool → List Bool → Bool)
    (leaf : TvQuery → List (String × TvValue) → Bool) (doc : List (String × TvValue)) (qs : List TvQuery) :
    evals combine leaf doc qs = qs.map (eval combine leaf doc) := by
  induction qs with
  | nil => rfl
  | cons q qs ih => rw [evals, ih, map_cons]

lemma mem_of_buildAll (h : buildAll std an schema qs = .ok bs) (hq : q ∈ qs) :
    ∃ b ∈ bs, build std an schema q = .ok b := by
  induction qs generalizing bs with
  | nil => cases hq
  | cons p qs ih =>
    rw [buildAll] at h
    obtain ⟨b, hb, h⟩ := bind_ok h
    obtain ⟨bs', hbs, h⟩ := bind_ok h
    cases h
    rcases mem_cons.mp hq with rfl | hq
    · exact ⟨b, mem_cons_self, hb⟩
    · obtain ⟨c, hc, hcb⟩ := ih hbs hq
      exact ⟨c, mem_cons_of_mem b hc, hcb⟩

namespace Snapshot

variable {K T : Type} [LinearOrder K] [LinearOrder T] (s : Snapshot K T)

def Carries (t : String) (d : StoredDoc K T) : Prop :=
  ∃ field v, s.schema.tenantField = some field ∧ (s.source d).1.get field = some v ∧ toIndexString s.std v = t

variable {s} {tf t : String} {d : StoredDoc K T} {p : StoredDoc K T → Bool}

lemma term_carries (htf : s.schema.tenantField = some tf)
    (hb : s.searcher.build (.term (some tf) t) = .ok p) (hp : p d) : s.Carries t d := by
  obtain ⟨f, hf, rfl, hk⟩ := keyword_of_checked s.checked s.derived htf
  rw [s.builds, build_keyword_term s.std s.analysis hf hk] at hb
  cases hb
  have hmem := s.raw_term f.path t .basic f.fast _ (getField_keyword hf hk).1 hp
  obtain ⟨v, hv, ht⟩ := value_of_mem_toTantivy s.std hf hk hmem
  exact ⟨f.path, v, htf, hv, ht⟩

/-- A boolean query with the tenant term among its filters matches nothing else, whatever its other
clauses say. -/
lemma filter_carries (htf : s.schema.tenantField = some tf) {must filter : List Query}
    (hmem : .term (some tf) t ∈ filter)
    (hb : s.searcher.build (.bool must [] [] filter) = .ok p) (hp : p d) : s.Carries t d := by
  rw [s.builds] at hb
  obtain ⟨tq, htq, rfl⟩ := map_ok hb
  rw [build] at htq
  obtain ⟨m, hm, htq⟩ := bind_ok htq
  obtain ⟨sh, hsh, htq⟩ := bind_ok htq
  obtain ⟨n, hn, htq⟩ := bind_ok htq
  obtain ⟨fs, hfs, htq⟩ := bind_ok htq
  cases htq
  cases hsh
  cases hn
  obtain ⟨b, hbf, hbuild⟩ := mem_of_buildAll hfs hmem
  simp only [eval, evals_eq_map, map_nil] at hp
  have hne : fs ≠ [] := ne_nil_of_mem hbf
  rw [s.searcher.combine_must _ _ (by simp [hne])] at hp
  have hall := (Bool.and_eq_true_iff.mp hp).1
  have hconst : constScore b 0 ∈ fs.map (.constScore · 0) := mem_map_of_mem hbf
  have hterm := all_eq_true.mp hall _
    (mem_map_of_mem (mem_append_left _ (mem_append_right m hconst)))
  refine term_carries htf (p := fun d => b.eval s.searcher.combine s.leaf (s.values d)) ?_ ?_
  · rw [s.builds, hbuild]
    rfl
  · rwa [eval] at hterm

end Snapshot

open List Searcher Reader

variable {offset limit : Nat}

variable {K T : Type} [LinearOrder K] [LinearOrder T]

variable {rows : List (Searcher.Row K)} {d : StoredDoc K T} {k : Nat}

namespace Snapshot

variable (s : Snapshot K T) (P : StoredDoc K T → Prop)

def Selects (q : Query) : Prop := ∀ matching d, s.searcher.build q = .ok matching → matching d = true → P d

def Has (key : K) : Prop := ∃ d ∈ s.searcher.docs, d.key = key ∧ P d

def Counts (n : Nat) : Prop := ∃ keys : List K, keys.Nodup ∧ (∀ key ∈ keys, s.Has P key) ∧ keys.length = n

variable {s P} {q : Query} {matching : StoredDoc K T → Bool} {sort : List SortKey} {after : Option (SearchAfter K)}

lemma Selects.has (h : s.Selects P q) (hb : s.searcher.build q = .ok matching)
    (hd : d ∈ s.searcher.docs) (hm : matching d) : s.Has P d.key :=
  ⟨d, hd, rfl, h matching d hb hm⟩

lemma mem_docSet (h : d ∈ s.searcher.docSet matching) : d ∈ s.searcher.docs ∧ matching d :=
  mem_filter.mp ((s.searcher.docSet_perm matching).mem_iff.mp h)

lemma withCursor_matches {base : StoredDoc K T → Bool}
    (h : s.searcher.withCursor base sort after = .ok matching)
    (hm : matching d) : base d := by
  unfold withCursor at h
  cases after with
  | none =>
    cases h
    exact hm
  | some cursor =>
    simp only at h
    split at h
    · cases h
    · obtain ⟨keyset, -, h⟩ := bind_ok h
      cases h
      simp only [booleanQuery, map_cons, map_nil] at hm
      rw [s.searcher.combine_must _ _ (by simp)] at hm
      simp only [all_cons, id_eq, Bool.and_eq_true] at hm
      exact hm.1.1

lemma mem_candidateWindow (h : s.searcher.candidateWindow matching sort limit = .ok window)
    (hmem : hit ∈ window) : hit.2 ∈ s.searcher.docs ∧ matching hit.2 := by
  unfold candidateWindow at h
  split at h
  · cases h
    exact s.topByScore_mem matching limit hit hmem
  · unfold windowedByField at h
    split at h
    · cases h
      exact s.topByScore_mem matching limit hit hmem
    · obtain ⟨_, -, h⟩ := bind_ok h
      cases h
      obtain ⟨d, hd, rfl⟩ := mem_map.mp hmem
      have := mem_of_mem_take ((s.searcher.topDocs_perm ..).mem_iff.mp hd)
      exact mem_filter.mp (mem_sortBy.mp this)

lemma hitRow_key (h : s.searcher.hitRow sort byScore score d = .ok x) : x.1.key = d.key := by
  unfold hitRow at h
  obtain ⟨_, -, h⟩ := bind_ok h
  cases h
  rfl

def IsLexical : Query → Prop
  | .knn .. => False
  | _ => True

variable (hs : s.Selects P q)
include hs

lemma scanSorted_has (h : s.searcher.scanSorted q sort after = .ok rows) : ∀ row ∈ rows, s.Has P row.1.key := by
  unfold scanSorted at h
  obtain ⟨base, hb, h⟩ := bind_ok h
  obtain ⟨matching, hc, h⟩ := bind_ok h
  intro row hrow
  obtain ⟨d, hd, hf⟩ := mem_of_mapM h row hrow
  obtain ⟨hdocs, hm⟩ := mem_docSet hd
  rw [hitRow_key hf]
  exact hs.has hb hdocs (withCursor_matches hc hm)

lemma counts_keys (hb : s.searcher.build q = .ok matching)
    {keys : List K} (h : keys.Subperm ((s.searcher.docs.filter matching).map StoredDoc.key)) :
    s.Counts P keys.length := by
  refine ⟨keys, ?_, fun key hkey => ?_, rfl⟩
  · have hn : ((s.searcher.docs.filter matching).map StoredDoc.key).Nodup :=
      s.searcher.keys.sublist (filter_sublist.map _)
    obtain ⟨l, hperm, hsub⟩ := h
    exact hperm.nodup_iff.mp (hn.sublist hsub)
  · obtain ⟨d, hd, rfl⟩ := mem_map.mp (h.subset hkey)
    obtain ⟨hdocs, hm⟩ := mem_filter.mp hd
    exact hs.has hb hdocs hm

section

variable (hq : IsLexical q)
include hq

lemma searchSorted_has (h : s.searcher.searchSorted q limit sort after = .ok rows) :
    ∀ row ∈ rows, s.Has P row.1.key := by
  unfold searchSorted at h
  split at h
  · cases hq
  · obtain ⟨base, hb, h⟩ := bind_ok h
    obtain ⟨matching, hc, h⟩ := bind_ok h
    split at h
    · cases h
      simp
    · obtain ⟨window, hw, h⟩ := bind_ok h
      intro row hrow
      obtain ⟨hit, hhit, hf⟩ := mem_of_mapM h row hrow
      obtain ⟨hd, hm⟩ := mem_candidateWindow hw hhit
      rw [hitRow_key hf]
      exact hs.has hb hd (withCursor_matches hc hm)

lemma pageWithValues_has (h : s.searcher.pageWithValues q k sort offset after = .ok rows) :
    ∀ row ∈ rows, s.Has P row.1.key := by
  unfold pageWithValues at h
  intro row hrow
  simp only at h
  split at h
  · obtain ⟨hits, hh, h⟩ := bind_ok h
    cases h
    exact scanSorted_has hs hh row (mem_sortBy.mp (mem_of_mem_drop (mem_of_mem_take hrow)))
  · obtain ⟨hits, hh, h⟩ := bind_ok h
    cases h
    exact searchSorted_has hs hq hh row (mem_sortBy.mp (mem_of_mem_drop (mem_of_mem_take hrow)))

lemma pageInValues_has {page : List (Searcher.Row K)} {next : Option (SearchAfter K)}
    (h : s.searcher.pageInValues q k sort offset after = .ok (page, next)) :
    ∀ row ∈ page, s.Has P row.1.key := by
  unfold pageInValues at h
  obtain ⟨rows, hr, h⟩ := bind_ok h
  cases h
  exact pageWithValues_has hs hq hr

lemma count_counts (h : s.toReader.count q = .ok n) : s.Counts P n := by
  unfold Reader.count at h
  split at h
  · cases hq
  · obtain ⟨matching, hb, rfl⟩ := map_ok h
    have := counts_keys hs hb (List.Subperm.refl ((s.searcher.docs.filter matching).map StoredDoc.key))
    rwa [length_map] at this

end

lemma explain_has (h : s.toReader.explain q key = .ok e) (hm : e.matched) : s.Has P key := by
  unfold Reader.explain at h
  split at h
  · cases h
    cases hm
  · rename_i d hfind
    obtain ⟨matching, hb, h⟩ := bind_ok h
    split at h
    · rename_i hd
      have hkey : d.key = key := by simpa using List.find?_some hfind
      exact hkey ▸ hs.has hb (mem_of_find?_eq_some hfind) hd
    · cases h
      cases hm

lemma knnSearch_has (h : s.toReader.knnSearch field vector k (some q) = .ok hits) :
    ∀ hit ∈ hits, s.Has P hit.key := by
  unfold Reader.knnSearch at h
  split at h
  · cases h
  · split at h
    · cases h
      simp
    · obtain ⟨matching, hb, h⟩ := bind_ok h
      cases h
      intro hit hhit
      have hmem := mem_sortBy.mp (mem_of_mem_take hhit)
      obtain ⟨d, hd, he⟩ := mem_filterMap.mp hmem
      obtain ⟨v, -, rfl⟩ := Option.map_eq_some_iff.mp he
      obtain ⟨hdocs, hm⟩ := mem_docSet (mem_filter.mp hd).1
      exact hs.has hb hdocs hm
  · cases h

lemma pageWithValues_knn_has
    (h : s.searcher.pageWithValues (.knn field vector k (some q)) limit [] offset none = .ok rows) :
    ∀ row ∈ rows, s.Has P row.1.key := by
  unfold pageWithValues at h
  obtain ⟨hits, hh, h⟩ := bind_ok h
  cases h
  have hknn : ∃ found, s.toReader.knnSearch field vector k (some q) = .ok found ∧ ∀ row ∈ hits, row.1 ∈ found := by
    simp only [searchSorted, s.knn] at hh
    obtain ⟨found, hf, hh⟩ := bind_ok hh
    cases hh
    refine ⟨found, hf, fun row hrow => ?_⟩
    obtain ⟨hit, hhit, rfl⟩ := mem_map.mp hrow
    exact mem_of_mem_take hhit
  obtain ⟨found, hf, hmem⟩ := hknn
  intro row hrow
  have := mem_sortBy.mp (mem_of_mem_drop (mem_of_mem_take hrow))
  exact knnSearch_has hs hf row.1 (hmem row this)

end Snapshot

variable {groups : List (CollapsedHit K)}

section

variable (r : Reader K T)

/-- The groups of the entries seen so far: each is of one of them and counts all of its value. -/
structure Grouped (seen : List (CollapseEntry K)) (groups : List (CollapsedHit K)) : Prop where
  top : ∀ g ∈ groups, ∃ e ∈ seen, e.hit = g.hit
  count : ∀ g ∈ groups, g.count = (seen.filter (fun e =>
    toIndexString r.std e.group = toIndexString r.std g.group)).length
  covers : ∀ e ∈ seen, ∃ g ∈ groups, toIndexString r.std g.group = toIndexString r.std e.group

variable {r}

lemma Grouped.nil : Grouped r [] [] := ⟨by simp, by simp, by simp⟩

lemma Grouped.add (h : Grouped r seen groups) (e : CollapseEntry K) :
    Grouped r (seen ++ [e]) (r.addToGroups groups e) := by
  unfold addToGroups
  simp only [List.any_eq_true, decide_eq_true_eq]
  split
  · rename_i hex
    refine ⟨fun g hg => ?_, fun g hg => ?_, fun e' he' => ?_⟩
    · obtain ⟨g₀, hg₀, rfl⟩ := mem_map.mp hg
      obtain ⟨e₀, he₀, hhit⟩ := h.top g₀ hg₀
      refine ⟨e₀, mem_append_left _ he₀, ?_⟩
      split <;> exact hhit
    · obtain ⟨g₀, hg₀, rfl⟩ := mem_map.mp hg
      have hcount := h.count g₀ hg₀
      split
      · rename_i heq
        simp [filter_append, heq, hcount]
      · rename_i hne
        simp [filter_append, Ne.symm hne, hcount]
    · have : ∃ g ∈ groups, toIndexString r.std g.group = toIndexString r.std e'.group := by
        rcases mem_append.mp he' with he' | he'
        · exact h.covers e' he'
        · obtain rfl := mem_singleton.mp he'
          exact hex
      obtain ⟨g₀, hg₀, hkey⟩ := this
      refine ⟨_, mem_map_of_mem hg₀, ?_⟩
      split <;> exact hkey
  · rename_i hnew
    have hnone : seen.filter (fun e' => toIndexString r.std e'.group = toIndexString r.std e.group) = [] := by
      rw [filter_eq_nil_iff]
      intro e' he' heq
      obtain ⟨g₀, hg₀, hkey⟩ := h.covers e' he'
      exact hnew ⟨g₀, hg₀, hkey.trans (by simpa using heq)⟩
    refine ⟨fun g hg => ?_, fun g hg => ?_, fun e' he' => ?_⟩
    · rcases mem_append.mp hg with hg | hg
      · obtain ⟨e₀, he₀, hhit⟩ := h.top g hg
        exact ⟨e₀, mem_append_left _ he₀, hhit⟩
      · obtain rfl := mem_singleton.mp hg
        exact ⟨e, by simp, rfl⟩
    · rcases mem_append.mp hg with hg | hg
      · have hne : ¬ toIndexString r.std e.group = toIndexString r.std g.group := fun heq => hnew ⟨g, hg, heq.symm⟩
        simp [filter_append, hne, h.count g hg]
      · obtain rfl := mem_singleton.mp hg
        simp [filter_append, hnone]
    · rcases mem_append.mp he' with he' | he'
      · obtain ⟨g₀, hg₀, hkey⟩ := h.covers e' he'
        exact ⟨g₀, mem_append_left _ hg₀, hkey⟩
      · obtain rfl := mem_singleton.mp he'
        exact ⟨_, mem_append_right _ (mem_singleton_self _), rfl⟩

lemma Grouped.foldl
    (h : Grouped r seen groups) : Grouped r (seen ++ rest) (rest.foldl r.addToGroups groups) := by
  induction rest generalizing seen groups with
  | nil => simpa using h
  | cons e rest ih =>
    rw [foldl_cons, ← singleton_append, ← append_assoc]
    exact ih (h.add e)

end

namespace Snapshot

variable {s : Snapshot K T} {P : StoredDoc K T → Prop} {q : Query} {sort : List SortKey} {collapse : String}

lemma collapseEntries_keys {docs : List (StoredDoc K T)} {entries : List (Option (CollapseEntry K))}
    (h : docs.mapM (s.toReader.collapseEntry sort collapse) = .ok entries) :
    (entries.reduceOption.map (·.hit.key)).Sublist (docs.map StoredDoc.key) := by
  induction docs generalizing entries with
  | nil =>
    cases h
    exact .slnil
  | cons d docs ih =>
    obtain ⟨e, es, he, hes, rfl⟩ := mapM_ok_cons h
    cases e with
    | none =>
      rw [reduceOption_cons_of_none]
      exact (ih hes).cons _
    | some e =>
      have hkey : e.hit.key = d.key := by
        unfold collapseEntry at he
        obtain ⟨g, -, he⟩ := bind_ok he
        cases g with
        | none => cases he
        | some group =>
          obtain ⟨values, -, he⟩ := bind_ok he
          cases he
          rfl
      rw [reduceOption_cons_of_some, map_cons, map_cons, hkey]
      exact (ih hes).cons_cons _

lemma collapsedIn_has (hs : s.Selects P q)
    (h : s.toReader.collapsedIn q k sort collapse = .ok groups) :
    ∀ g ∈ groups, s.Has P g.hit.key ∧ s.Counts P g.count := by
  unfold collapsedIn at h
  split at h
  · cases h
  · obtain ⟨entries, he, h⟩ := bind_ok h
    unfold collapseScan at he
    obtain ⟨matching, hb, he⟩ := bind_ok he
    obtain ⟨all, hall, he⟩ := bind_ok he
    cases he
    cases h
    have hkeys : (all.reduceOption.map (·.hit.key)).Subperm
        ((s.searcher.docs.filter matching).map StoredDoc.key) :=
      (collapseEntries_keys hall).subperm.trans ((s.searcher.docSet_perm matching).map _).subperm
    have hgrouped : ∀ ordered : List (CollapseEntry K),
        Grouped s.toReader ordered (ordered.foldl s.toReader.addToGroups []) :=
      fun ordered => Grouped.nil.foldl
    intro g hg
    have hg := mem_of_mem_take hg
    refine ⟨?_, ?_⟩
    · obtain ⟨e, he, hhit⟩ := (hgrouped _).top g hg
      have hmem : g.hit.key ∈ all.reduceOption.map (·.hit.key) :=
        mem_map.mpr ⟨e, mem_sortBy.mp he, congrArg Hit.key hhit⟩
      obtain ⟨d, hd, hkey⟩ := mem_map.mp (hkeys.subset hmem)
      exact hkey ▸ hs.has hb (mem_filter.mp hd).1 (mem_filter.mp hd).2
    · rw [(hgrouped _).count g hg, ← length_map (·.hit.key)]
      refine counts_keys hs hb (List.Subperm.trans ?_ hkeys)
      exact ((filter_sublist.map _).subperm).trans
        ((perm_insertionSort _ _).map _).subperm

end Snapshot

end GrowlerDB.Index
