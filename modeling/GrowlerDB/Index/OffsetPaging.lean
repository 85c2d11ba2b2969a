import GrowlerDB.Index.KeysetPaging

namespace GrowlerDB.Index
open Core Lib Ranking List

variable {K T : Type} [LinearOrder K] [LinearOrder T]

def scoreCmp (score : StoredDoc K T → F64) (a b : StoredDoc K T) : Ordering :=
  (((score b).partialCmp (score a)).getD .eq).then (a.address.cmp b.address)

namespace Searcher

/-- The scores Tantivy gives the matches of a query: its collector keeps the highest, and its explanation of a
match has the same value. -/
structure Scores (s : Searcher K T) (score : (StoredDoc K T → Bool) → StoredDoc K T → F64) : Prop where
  top : ∀ q n, (s.topByScore q n).Perm
    (((sortBy (scoreCmp (score q)) (s.docs.filter q)).take n).map fun d => (score q d, d))
  explained : ∀ q d, d ∈ s.docs → q d = true → s.explain q d = score q d

def scansAll (sort : List SortKey) : Bool := decide (1 < sort.length) || scoreAscPrimary sort

section

variable (s : Searcher K T) (score : StoredDoc K T → F64) (sort : List SortKey)

def windowOrder : StoredDoc K T → StoredDoc K T → Ordering :=
  match sort with
  | [] => scoreCmp score
  | primary :: _ => if primary.isScore then scoreCmp score else s.cols.windowCmp primary.field primary.order

def scoredRow (d : StoredDoc K T) : Row K :=
  (⟨d.key, if sort.isEmpty || sortHasScore sort then score d else ⟨0⟩⟩,
    sort.map fun key => if key.isScore then .num (score d) else s.cols.fastOf (d.cell key.field))

end

def windowRows (s : Searcher K T) (score : (StoredDoc K T → Bool) → StoredDoc K T → F64) (query : Query)
    (sort : List SortKey) : List (Row K) :=
  match query with
  | .knn .. =>
    match s.knnSearch query with
    | .ok hits => hits.map fun hit => (hit, [])
    | .error _ => []
  | _ =>
    match s.build query with
    | .ok base => (sortBy (s.windowOrder (score base) sort) (s.docs.filter base)).map (s.scoredRow (score base) sort)
    | .error _ => []

/-- A search that the shard accepts; no score or sort value is a NaN, so that the ranking is an order, and the
matches are counted by a machine word. -/
structure Accepts (s : Searcher K T) (score : (StoredDoc K T → Bool) → StoredDoc K T → F64) (query : Query)
    (sort : List SortKey) : Prop where
  knn : ∀ field vector n filter, query = .knn field vector n filter →
    sort = [] ∧ ∃ hits, s.knnSearch query = .ok hits ∧ (hits.map Hit.key).Nodup
  plain : (∀ field vector n filter, query ≠ .knn field vector n filter) →
    (∃ base, s.build query = .ok base) ∧ ∀ key ∈ sort, key.isScore = false → ∃ type, s.sortColumn key.field = .ok type
  comparable : ∀ r ∈ s.windowRows score query sort, r.1.score.isNan = false ∧ ∀ v ∈ r.2, v.Comparable
  word : (s.windowRows score query sort).length < 2 ^ 64

variable {s : Searcher K T} {score : (StoredDoc K T → Bool) → StoredDoc K T → F64} {query : Query}
  {sort : List SortKey}

def placeOf (sort : List SortKey) (r : Row K) : SearchAfter K :=
  match sort with
  | [] => ⟨[.num r.1.score], r.1.key⟩
  | _ => ⟨r.2, r.1.key⟩

def rankOrders (sort : List SortKey) : List SortOrder :=
  match sort with
  | [] => [.desc]
  | _ => sort.map SortKey.order

lemma cmpHits_eq (sort : List SortKey) (a b : Row K) :
    cmpHits sort a b = SearchAfter.cmp (rankOrders sort) (placeOf sort a) (placeOf sort b) := by
  cases sort with
  | nil =>
    have hswap := cmpSortValue_swap .asc (.num a.1.score) (.num b.1.score)
    change ((b.1.score.partialCmp a.1.score).getD .eq).then _ = (Ordering.then _ .eq).then _
    rw [Ordering.then_eq]
    exact congrArg (Ordering.then · _) hswap
  | cons key sort => rfl

lemma cmpHits_ranks {rows : List (Row K)} (hkeys : (rows.map fun r => r.1.key).Nodup)
    (hcomp : ∀ r ∈ rows, r.1.score.isNan = false ∧ ∀ v ∈ r.2, v.Comparable) :
    Ranks (cmpHits sort) (·.1.key) (· ∈ rows) := by
  have hplace : ∀ r ∈ rows, ∀ v ∈ (placeOf sort r).sortValues, v.Comparable := by
    intro r hr
    cases sort with
    | nil =>
      intro v hv
      rw [mem_singleton.mp hv]
      exact (hcomp r hr).1
    | cons key sort => exact (hcomp r hr).2
  have horders : Orders (cmpHits sort) (· ∈ rows) := by
    have h := (SearchAfter.cmp_orders (K := K) (rankOrders sort)).comap (placeOf sort) hplace
    rwa [← show cmpHits sort = _ from funext fun a => funext fun b => cmpHits_eq sort a b] at h
  refine { horders with eq_iff := fun a b ha hb => ⟨fun h => ?_, fun h => ?_⟩ }
  · exact compare_eq_iff_eq.mp (Ordering.then_eq_eq.mp h).2
  · rw [inj_on_of_nodup_map hkeys ha hb h]
    exact horders.self hb

lemma sortValues_scored (hd : d ∈ s.docs) (x : F64)
    (hcols : ∀ key ∈ sort, key.isScore = false → ∃ type, s.sortColumn key.field = .ok type) :
    s.sortValues sort x d =
      .ok (sort.map fun key => if key.isScore then .num x else s.cols.fastOf (d.cell key.field)) := by
  refine mapM_eq_ok fun key hkey => ?_
  cases hscore : key.isScore with
  | true => rfl
  | false =>
    obtain ⟨type, htype⟩ := hcols key hkey hscore
    simp only [Bool.false_eq_true, if_false, fastValue, htype, bind, Except.bind]
    rw [columnValue_eq fun c hc => sortColumn_typed htype hd hc]

omit [LinearOrder K] in
lemma map_noScore (h : sortHasScore sort = false) (x y : F64) (d : StoredDoc K T) :
    (sort.map fun key => if key.isScore then SortValue.num x else s.cols.fastOf (d.cell key.field)) =
      sort.map fun key => if key.isScore then .num y else s.cols.fastOf (d.cell key.field) := by
  refine map_congr_left fun key hkey => ?_
  rw [any_eq_false.mp h key hkey |> Bool.eq_false_iff.mpr]
  rfl

lemma hitRow_scored (hd : d ∈ s.docs) (hsort : sort ≠ [])
    (hcols : ∀ key ∈ sort, key.isScore = false → ∃ type, s.sortColumn key.field = .ok type) :
    s.hitRow sort true (if sortHasScore sort then score base d else ⟨0⟩) d = .ok (s.scoredRow (score base) sort d) := by
  rw [hitRow, sortValues_scored hd _ hcols]
  have hempty : sort.isEmpty = false := by
    cases sort with
    | nil => exact absurd rfl hsort
    | cons key sort => rfl
  cases hscore : sortHasScore sort with
  | true => simp only [scoredRow, hempty, hscore, bind, Except.bind, if_true, Bool.false_or]
  | false =>
    simp only [scoredRow, hempty, hscore, bind, Except.bind, if_true, if_false, Bool.false_or, Bool.false_eq_true]
    rw [map_noScore hscore ⟨0⟩ (score base d)]

lemma knn_or_plain (query : Query) : (∃ field vector n filter, query = .knn field vector n filter) ∨
    ∀ field vector n filter, query ≠ .knn field vector n filter := by
  cases query <;> simp

omit [LinearOrder K] in
lemma windowRows_plain (hplain : ∀ field vector n filter, query ≠ .knn field vector n filter)
    (hbase : s.build query = .ok base) : s.windowRows score query sort =
      (sortBy (s.windowOrder (score base) sort) (s.docs.filter base)).map (s.scoredRow (score base) sort) := by
  unfold windowRows
  split
  · exact absurd rfl (hplain _ _ _ _)
  · rw [hbase]

lemma byField_perm {key : SortKey} (n : Nat) (hkey : key.isScore = false)
    (hcols : ∀ key' ∈ [key], key'.isScore = false → ∃ type, s.sortColumn key'.field = .ok type) :
    ∃ rows, ((s.topDocs base key.field key.order n).map fun d => ((⟨0⟩ : F64), d)).mapM
        (fun hit => s.hitRow [key] false hit.1 hit.2) = .ok rows ∧
      rows.Perm (((sortBy (s.cols.windowCmp key.field key.order) (s.docs.filter base)).map
        (s.scoredRow (score base) [key])).take n) := by
  refine ⟨(s.topDocs base key.field key.order n).map (s.scoredRow (score base) [key]), ?_, ?_⟩
  · rw [List.mapM_map]
    refine mapM_eq_ok fun d hd => ?_
    have hmem := (mem_topDocs hd).1
    simp only [Function.comp_apply, hitRow, sortValues_scored hmem ⟨0⟩ hcols, bind, Except.bind, scoredRow, sortHasScore, any_cons,
      any_nil, hkey, isEmpty_cons, Bool.or_false, Bool.false_eq_true, if_false, map_cons, map_nil]
  · rw [← map_take]
    exact (s.topDocs_perm base key.field key.order n).map _

lemma windowRows_keys (h : s.Accepts score query sort) :
    ((s.windowRows score query sort).map fun r => r.1.key).Nodup := by
  rcases knn_or_plain query with ⟨field, vector, m, filter, rfl⟩ | hplain
  · obtain ⟨-, hits, hhits, hnodup⟩ := h.knn field vector m filter rfl
    simp only [windowRows, hhits, map_map]
    exact hnodup
  · obtain ⟨⟨base, hbase⟩, -⟩ := h.plain hplain
    rw [windowRows_plain hplain hbase, map_map]
    exact (((perm_insertionSort _ _).map StoredDoc.key).nodup_iff).mpr (nodup_keys base)

variable (hs : s.Scores score)
include hs

lemma scanSorted_perm (h : s.Accepts score query sort) (hscan : scansAll sort) :
    ∃ rows, s.scanSorted query sort none = .ok rows ∧ rows.Perm (s.windowRows score query sort) := by
  have hsort : sort ≠ [] := by
    rintro rfl
    cases hscan
  have hplain : ∀ field vector n filter, query ≠ .knn field vector n filter := fun field vector n filter hq =>
    hsort (h.knn field vector n filter hq).1
  obtain ⟨⟨base, hbase⟩, hcols⟩ := h.plain hplain
  refine ⟨(s.docSet base).map (s.scoredRow (score base) sort), ?_, ?_⟩
  · unfold scanSorted
    simp only [hbase, withCursor, bind, Except.bind]
    refine mapM_eq_ok fun d hd => ?_
    obtain ⟨hmem, hmatch⟩ := mem_filter.mp ((s.docSet_perm base).mem_iff.mp hd)
    rw [hs.explained base d hmem hmatch]
    exact hitRow_scored hmem hsort hcols
  · rw [windowRows_plain hplain hbase]
    exact ((s.docSet_perm base).trans (perm_insertionSort _ _).symm).map _

omit [LinearOrder K] in
lemma byScore_perm (n : Nat)
    (hrow : ∀ d ∈ s.docs, s.hitRow sort true (score base d) d = .ok (s.scoredRow (score base) sort d)) :
    ∃ rows, (s.topByScore base n).mapM (fun hit => s.hitRow sort true hit.1 hit.2) = .ok rows ∧
      rows.Perm (((sortBy (scoreCmp (score base)) (s.docs.filter base)).map (s.scoredRow (score base) sort)).take n) := by
  refine ⟨(s.topByScore base n).map fun hit => s.scoredRow (score base) sort hit.2, mapM_eq_ok fun hit hhit => ?_, ?_⟩
  · obtain ⟨d, hd, rfl⟩ := mem_map.mp ((hs.top base n).mem_iff.mp hhit)
    exact hrow d (mem_filter.mp (mem_sortBy.mp (mem_of_mem_take hd))).1
  · rw [← map_take]
    have hperm := (hs.top base n).map fun hit => s.scoredRow (score base) sort hit.2
    rwa [map_map] at hperm

lemma searchSorted_perm (h : s.Accepts score query sort) (hscan : scansAll sort = false)
    (n : Nat) :
    ∃ rows, s.searchSorted query n sort none = .ok rows ∧ rows.Perm ((s.windowRows score query sort).take n) := by
  rcases knn_or_plain query with ⟨field, vector, m, filter, rfl⟩ | hplain
  · obtain ⟨rfl, hits, hhits, -⟩ := h.knn field vector m filter rfl
    refine ⟨(hits.take n).map fun hit => (hit, []), ?_, ?_⟩
    · simp only [searchSorted, hhits, ne_eq, not_true, Option.isSome_none, Bool.false_eq_true, or_self, if_false, bind,
        Except.bind]
    · simp only [windowRows, hhits, map_take]
      exact .refl _
  · obtain ⟨⟨base, hbase⟩, hcols⟩ := h.plain hplain
    rw [windowRows_plain hplain hbase]
    unfold searchSorted
    split
    · exact absurd rfl (hplain _ _ _ _)
    · simp only [hbase, withCursor, bind, Except.bind]
      by_cases hn : n = 0
      · rw [if_pos hn, hn]
        exact ⟨[], rfl, .refl _⟩
      · rw [if_neg hn]
        rcases sort with _ | ⟨key, _ | ⟨_, _⟩⟩
        · exact byScore_perm hs n fun d hd => rfl
        · cases hkey : key.isScore with
          | true =>
            have hfield : key.field = scoreSortKey := beq_iff_eq.mp hkey
            simp only [candidateWindow, windowedByField, hfield, if_true, windowOrder, hkey, List.head?_cons, Option.all_some]
            refine byScore_perm hs n fun d hd => ?_
            have hrow : s.hitRow [key] true (if sortHasScore [key] then score base d else ⟨0⟩) d =
                .ok (s.scoredRow (score base) [key] d) := hitRow_scored hd (cons_ne_nil key []) hcols
            rwa [show sortHasScore [key] = true by simp [sortHasScore, hkey], if_pos rfl] at hrow
          | false =>
            have hfield : key.field ≠ scoreSortKey := fun heq => by simp [SortKey.isScore, heq] at hkey
            obtain ⟨type, htype⟩ := hcols key mem_cons_self hkey
            simp only [candidateWindow, windowedByField, if_neg hfield, htype, windowOrder, hkey, List.head?_cons,
              Option.all_some, bind, Except.bind, Bool.false_eq_true, if_false]
            exact byField_perm n hkey hcols
        · simp [scansAll] at hscan

/-- The page is cut from a list with the rows of the matches, or of the first of them in the window's order. -/
lemma pageWithValues_eq (h : s.Accepts score query sort) (k offset : Nat) :
    ∃ rows, s.pageWithValues query k sort offset none = .ok (((sortBy (cmpHits sort) rows).drop offset).take k) ∧
      rows.Perm (if scansAll sort then s.windowRows score query sort
        else (s.windowRows score query sort).take (offset + k)) := by
  have hpage : ∀ {hits : Except IndexError (List (Row K))} {rows : List (Row K)}, hits = .ok rows →
      (do
        let hits ← hits
        .ok (((sortBy (cmpHits sort) hits).drop (if (none : Option (SearchAfter K)).isSome then 0 else offset)).take k) :
        Except IndexError (List (Row K))) = .ok (((sortBy (cmpHits sort) rows).drop offset).take k) := by
    rintro _ rows rfl
    rfl
  have hcond : (sort.length > 1 ∨ scoreAscPrimary sort) ↔ scansAll sort := by simp [scansAll]
  unfold pageWithValues
  cases hscan : scansAll sort with
  | true =>
    obtain ⟨rows, hrows, hperm⟩ := scanSorted_perm hs h hscan
    rw [if_pos (hcond.mpr hscan), if_pos rfl]
    exact ⟨rows, hpage hrows, hperm⟩
  | false =>
    obtain ⟨rows, hrows, hperm⟩ := searchSorted_perm hs h hscan (min (k + offset) (2 ^ 64 - 1))
    rw [if_neg (fun hc => by rw [hcond.mp hc] at hscan; cases hscan), if_neg Bool.false_ne_true]
    refine ⟨rows, hpage hrows, ?_⟩
    -- A window that the machine word bounds holds every match.
    have hword := h.word
    have htake : (s.windowRows score query sort).take (min (k + offset) (2 ^ 64 - 1)) =
        (s.windowRows score query sort).take (offset + k) := by
      rcases Nat.lt_or_ge (k + offset) (2 ^ 64) with hlt | hge
      · rw [show min (k + offset) (2 ^ 64 - 1) = offset + k by omega]
      · rw [take_of_length_le (by omega), take_of_length_le (by omega)]
    rwa [htake] at hperm

end Searcher

/-- A page by offset is the slice of the ranked matches exactly when all matches are scanned, the page has no place,
or what the window takes is ranked before what it leaves. -/
theorem offset_page_iff (s : Searcher K T) (score : (StoredDoc K T → Bool) → StoredDoc K T → F64) (hs : s.Scores score)
    (query : Query) (sort : List SortKey) (h : s.Accepts score query sort) (k offset : Nat) :
    s.pageWithValues query k sort offset none =
        .ok (((sortBy (Searcher.cmpHits sort) (s.windowRows score query sort)).drop offset).take k) ↔
      Searcher.scansAll sort = true ∨ k = 0 ∨
        ∀ a ∈ (s.windowRows score query sort).take (offset + k), ∀ b ∈ (s.windowRows score query sort).drop (offset + k),
          Searcher.cmpHits sort a b = .lt := by
  have hkeys := Searcher.windowRows_keys h
  have hranks : Ranks (Searcher.cmpHits sort) (fun r => r.1.key) (· ∈ s.windowRows score query sort) :=
    Searcher.cmpHits_ranks hkeys h.comparable
  obtain ⟨rows, hpage, hperm⟩ := Searcher.pageWithValues_eq hs h k offset
  rw [hpage, Except.ok.injEq]
  cases hscan : Searcher.scansAll sort with
  | true =>
    rw [hscan, if_pos rfl] at hperm
    rw [hranks.sortBy_perm (fun _ hr => hr) hkeys hperm]
    exact ⟨fun _ => .inl rfl, fun _ => rfl⟩
  | false =>
    rw [hscan, if_neg Bool.false_ne_true] at hperm
    have htaken : sortBy (Searcher.cmpHits sort) rows =
        sortBy (Searcher.cmpHits sort) ((s.windowRows score query sort).take (offset + k)) :=
      hranks.sortBy_perm (fun _ hr => mem_of_mem_take hr) (hkeys.sublist ((take_sublist _ _).map _)) hperm
    rw [htaken]
    rcases Nat.eq_zero_or_pos k with rfl | hk
    · rw [take_zero, take_zero]
      exact ⟨fun _ => .inr (.inl rfl), fun _ => rfl⟩
    · rw [hranks.slice_iff (fun _ hr => hr) hkeys hk]
      constructor
      · exact fun hcut => .inr (.inr hcut)
      · rintro (hall | rfl | hcut)
        · cases hall
        · exact absurd hk (Nat.lt_irrefl 0)
        · exact hcut

namespace SampleSegment

def noScore (_ : Doc → Bool) (_ : Doc) : F64 := ⟨0⟩

variable (key key' : Nat) (rank rank' : I64) (h : key ≠ key')
include h

lemma pair_scores : (pair key key' rank rank' h).Scores noScore := by
  refine ⟨fun q n => ?_, fun _ _ _ _ => rfl⟩
  have hzero : ((⟨0⟩ : F64).partialCmp ⟨0⟩).getD .eq = .eq := by decide +kernel
  have hlt : scoreCmp (noScore q) (doc key 0 rank) (doc key' 1 rank') = .lt := by
    rw [scoreCmp, noScore, noScore, hzero]
    rfl
  have hsorted : sortBy (scoreCmp (noScore q)) ([doc key 0 rank, doc key' 1 rank'].filter q) =
      [doc key 0 rank, doc key' 1 rank'].filter q := by
    refine Pairwise.insertionSort_eq ?_
    refine Pairwise.sublist filter_sublist (pairwise_pair.mpr ?_)
    rw [hlt]
    rfl
  change List.Perm ((([doc key 0 rank, doc key' 1 rank'].filter q).take n).map _)
    (((sortBy (scoreCmp (noScore q)) ([doc key 0 rank, doc key' 1 rank'].filter q)).take n).map _)
  rw [hsorted]
  exact .refl _

lemma pair_accepts : (pair key key' rank rank' h).Accepts noScore .matchAll byRank where
  knn field vector n filter hq := (by cases hq)
  plain _ := ⟨⟨_, rfl⟩, fun key hkey _ => ⟨.i64, by rw [mem_singleton.mp hkey]; rfl⟩⟩
  comparable r hr := by
    obtain ⟨d, hd, rfl⟩ := mem_map.mp hr
    have hcell : ∃ n : I64, d.cell "rank" = some (.i64 n) := by
      rcases mem_cons.mp (mem_sortBy.mp hd) with rfl | hd
      · exact ⟨rank, rfl⟩
      · rw [mem_singleton.mp hd]
        exact ⟨rank', rfl⟩
    obtain ⟨n, hn⟩ := hcell
    refine ⟨(by decide : (⟨0⟩ : F64).isNan = false), fun v hv => ?_⟩
    obtain rfl : v = (pair key key' rank rank' h).cols.fastOf (d.cell "rank") := mem_singleton.mp hv
    rw [hn]
    exact F64.isNan_ofInt n.2
  word := by
    have hlen : ((pair key key' rank rank' h).windowRows noScore .matchAll byRank).length = 2 := by
      rw [Searcher.windowRows_plain (fun _ _ _ _ hq => by cases hq) rfl, length_map, length_sortBy]
      rfl
    rw [hlen]
    decide

end SampleSegment

open SampleSegment

theorem offset_page_distinct : let s := pair 1 2 ⟨5, by decide⟩ ⟨7, by decide⟩ (by decide)
    s.pageWithValues .matchAll 1 byRank 0 none = .ok (((sortBy (Searcher.cmpHits byRank)
        (s.windowRows noScore .matchAll byRank)).drop 0).take 1) := by
  intro s
  refine (offset_page_iff s noScore (pair_scores _ _ _ _ _) .matchAll _
    (pair_accepts _ _ _ _ _) 1 0).mpr (.inr (.inr fun a ha b hb => ?_))
  change a ∈ [_] at ha
  change b ∈ [_] at hb
  rw [mem_singleton.mp ha, mem_singleton.mp hb]
  decide +kernel

/-- Two documents tie on the sort key, and the one with the greater key is stored first: it is on both pages, the
other on neither. -/
theorem tied_document_repeated : let s := pair 2 1 ⟨5, by decide⟩ ⟨5, by decide⟩ (by decide)
    s.Scores noScore ∧ s.Accepts noScore .matchAll byRank ∧
      s.pageWithValues .matchAll 1 byRank 0 none = .ok [(⟨2, ⟨0⟩⟩, [.num (F64.ofInt 5)])] ∧
      s.pageWithValues .matchAll 1 byRank 1 none = .ok [(⟨2, ⟨0⟩⟩, [.num (F64.ofInt 5)])] ∧
      sortBy (Searcher.cmpHits byRank) (s.windowRows noScore .matchAll byRank) =
        [(⟨1, ⟨0⟩⟩, [.num (F64.ofInt 5)]), (⟨2, ⟨0⟩⟩, [.num (F64.ofInt 5)])] :=
  ⟨pair_scores _ _ _ _ _, pair_accepts _ _ _ _ _, rfl, rfl, rfl⟩

end GrowlerDB.Index
