import GrowlerDB.Index.KeysetPredicate
import GrowlerDB.Lib.Keyset

namespace GrowlerDB.Index
open Core Lib Ranking Paging List StoredDoc DocAddress Ordering Columns

variable {K T : Type} [LinearOrder K] [LinearOrder T]

variable {q : StoredDoc K T → Bool} {a b d : StoredDoc K T} {after : Option (SearchAfter K)} {key : SortKey}

namespace Searcher

section

variable {s : Searcher K T} {sort : List SortKey} {types : List ColumnType}

variable {query : Query} {base : StoredDoc K T → Bool} {k : Nat}

/-- A scroll by field sorts that the shard accepts; no double among the sort values is a NaN, so that
the sort orders the documents. -/
structure Pageable (s : Searcher K T) (query : Query) (base : StoredDoc K T → Bool) (k : Nat)
    (sort : List SortKey) (types : List ColumnType) : Prop where
  size : 1 ≤ k
  word : k < 2 ^ 64
  sorts : sort ≠ []
  no_score : sortHasScore sort = false
  columns : sort.mapM (fun key => s.sortColumn key.field) = .ok types
  builds : s.build query = .ok base
  not_knn : ∀ field vector n filter, query ≠ .knn field vector n filter
  comparable : ∀ d ∈ s.docs, base d = true → ∀ key ∈ sort, ∀ x,
    d.cell key.field = some (.f64 x) → x.isNan = false

def docCmp (s : Searcher K T) (sort : List SortKey) (a b : StoredDoc K T) : Ordering :=
  cmpHits sort (s.row sort a) (s.row sort b)

def ranked (s : Searcher K T) (sort : List SortKey) (base : StoredDoc K T → Bool) :
    List (StoredDoc K T) :=
  sortBy (s.docCmp sort) (s.docs.filter base)

def candidates (s : Searcher K T) (sort : List SortKey) (k : Nat) (q : StoredDoc K T → Bool) :
    List (StoredDoc K T) :=
  match sort with
  | [key] => s.topDocs q key.field key.order k
  | _ => s.docSet q

def pageOf (s : Searcher K T) (sort : List SortKey) (base : StoredDoc K T → Bool) (k : Nat)
    (q : StoredDoc K T → Bool) : List (StoredDoc K T) :=
  (sortBy (s.docCmp sort) (s.candidates sort k (fun d => base d && q d))).take k

def token (s : Searcher K T) (sort : List SortKey) (d : StoredDoc K T) : SearchAfter K :=
  ⟨sort.map (fun key => s.cols.fastOf (d.cell key.field)), d.key⟩

omit [LinearOrder K] in
lemma mem_topDocs (h : d ∈ s.topDocs q field order n) : d ∈ s.docs ∧ q d :=
  mem_filter.mp (mem_sortBy.mp (mem_of_mem_take ((s.topDocs_perm q field order n).mem_iff.mp h)))

lemma mem_candidates (h : d ∈ s.candidates sort k q) : d ∈ s.docs ∧ q d := by
  unfold candidates at h
  split at h
  · exact mem_topDocs h
  · exact mem_filter.mp ((s.docSet_perm q).mem_iff.mp h)

lemma sortBy_rows (l : List (StoredDoc K T)) :
    sortBy (cmpHits sort) (l.map (s.row sort)) = (sortBy (s.docCmp sort) l).map (s.row sort) :=
  (map_insertionSort _ _ (s.row sort) l (fun _ _ _ _ => Iff.rfl)).symm

lemma Pageable.hitRow_eq (h : Pageable s query base k sort types)
    (hd : d ∈ s.docs) (byScore : Bool) : s.hitRow sort byScore ⟨0⟩ d = .ok (s.row sort d) := by
  unfold hitRow
  rw [sortValues_eq h.no_score h.columns hd, ite_self]
  rfl

lemma Pageable.searchSorted_eq (h : Pageable s query base k [key] types)
        (hq : s.withCursor base [key] after = .ok q) :
    s.searchSorted query k [key] after = .ok ((s.candidates [key] k q).map (s.row [key])) := by
  have hfield : key.field ≠ scoreSortKey := by
    have hscore := h.no_score
    simpa [sortHasScore, SortKey.isScore] using hscore
  obtain ⟨type, -, htype, -⟩ := mapM_ok_cons h.columns
  have hwindow : s.candidateWindow q [key] k = .ok ((s.topDocs q key.field key.order k).map (fun d => (⟨0⟩, d))) := by
    simp only [candidateWindow, windowedByField, if_neg hfield, htype]
    rfl
  have hsize : k ≠ 0 := Nat.one_le_iff_ne_zero.mp h.size
  unfold searchSorted
  split
  · exact absurd rfl (h.not_knn _ _ _ _)
  · simp only [h.builds, hq, bind, Except.bind, if_neg hsize, hwindow]
    rw [List.mapM_map]
    exact mapM_eq_ok (fun d hd => h.hitRow_eq (mem_topDocs hd).1 _)

variable (h : Pageable s query base k sort types)
include h

lemma Pageable.scanSorted_eq (hmany : 1 < sort.length) (hq : s.withCursor base sort after = .ok q) :
    s.scanSorted query sort after = .ok ((s.candidates sort k q).map (s.row sort)) := by
  have hcand : s.candidates sort k q = s.docSet q := by
    match sort, hmany with
    | _ :: _ :: _, _ => rfl
  unfold scanSorted
  simp only [h.builds, hq, bind, Except.bind, h.no_score, Bool.false_eq_true, if_false, hcand]
  refine mapM_eq_ok (fun d hd => h.hitRow_eq ?_ true)
  exact (mem_filter.mp ((s.docSet_perm q).mem_iff.mp hd)).1

lemma Pageable.pageWithValues_eq (hq : s.withCursor base sort after = .ok q) :
    s.pageWithValues query k sort 0 after =
      .ok (((sortBy (s.docCmp sort) (s.candidates sort k q)).take k).map (s.row sort)) := by
  have hword := h.word
  have hwant : (if after.isSome = true then k else min (k + 0) (2 ^ 64 - 1)) = k := by
    split_ifs
    · rfl
    · omega
  have hpage : ∀ hits : Except IndexError (List (Row K)), hits = .ok ((s.candidates sort k q).map (s.row sort)) →
      (do
        let hits ← hits
        .ok (((sortBy (cmpHits sort) hits).drop (if after.isSome then 0 else 0)).take k) :
        Except IndexError (List (Row K))) =
      .ok (((sortBy (s.docCmp sort) (s.candidates sort k q)).take k).map (s.row sort)) := by
    rintro _ rfl
    simp only [bind, Except.bind, ite_self, drop_zero, sortBy_rows, map_take]
  unfold pageWithValues
  match sort, h.sorts with
  | [key], _ =>
    have hscore : scoreAscPrimary [key] = false := by
      have hs := h.no_score
      simp only [sortHasScore, any_cons, any_nil, Bool.or_false] at hs
      simp only [scoreAscPrimary, hs, Bool.false_and]
    rw [if_neg (by simp [hscore]), hwant]
    exact hpage _ (h.searchSorted_eq hq)
  | key :: key' :: rest, _ =>
    rw [if_pos (.inl (by simp))]
    exact hpage _ (h.scanSorted_eq (by simp) hq)

lemma Pageable.searchAfter_eq (hq : s.withCursor base sort after = .ok (fun d => base d && q d)) :
    s.searchAfter query k sort after = .ok ((s.pageOf sort base k q).map (s.row sort),
      (s.pageOf sort base k q).getLast?.map (s.token sort)) := by
  unfold searchAfter pageInValues
  rw [if_neg h.sorts, h.pageWithValues_eq hq]
  simp only [bind, Except.bind, h.sorts, h.no_score, Bool.false_eq_true, or_self, if_false,
    List.getLast?_map, Option.map_map]
  rfl

end

variable {s : Searcher K T} {sort : List SortKey} {types : List ColumnType} {query : Query}
  {base : StoredDoc K T → Bool} {k : Nat}

lemma docCmp_eq (hsort : sort ≠ []) (a b : StoredDoc K T) : s.docCmp sort a b =
    SearchAfter.cmp (sort.map SortKey.order) (s.token sort a) (s.token sort b) := by
  unfold docCmp cmpHits
  cases sort with
  | nil => exact absurd rfl hsort
  | cons key sort => rfl

omit [LinearOrder K] in
lemma key_inj (ha : a ∈ s.docs) (hb : b ∈ s.docs) (h : a.key = b.key) : a = b := inj_on_of_nodup_map s.keys ha hb h

lemma Pageable.ranks (h : Pageable s query base k sort types) :
    Ranks (s.docCmp sort) StoredDoc.key (fun d => d ∈ s.docs ∧ base d = true) := by
  have horders : Orders (s.docCmp sort) (fun d => d ∈ s.docs ∧ base d = true) := by
    have hcmp := (SearchAfter.cmp_orders (K := K) (sort.map SortKey.order)).comap (s.token sort)
      (fun (d : StoredDoc K T) (hd : d ∈ s.docs ∧ base d) v hv => by
        obtain ⟨key, hkey, rfl⟩ := mem_map.mp hv
        exact fastOf_comparable (h.comparable d hd.1 hd.2 key hkey))
    have heq : s.docCmp sort = fun a b =>
        SearchAfter.cmp (sort.map SortKey.order) (s.token sort a) (s.token sort b) :=
      funext fun a => funext fun b => docCmp_eq h.sorts a b
    rwa [heq]
  refine ⟨horders, fun a b ha hb => ⟨fun hc => ?_, fun hk => ?_⟩⟩
  · rw [docCmp_eq h.sorts, SearchAfter.cmp, then_eq_eq, compare_eq_iff_eq] at hc
    exact hc.2
  · obtain rfl := key_inj ha.1 hb.1 hk
    exact horders.self ha

lemma mem_ranked : d ∈ s.ranked sort base ↔ d ∈ s.docs ∧ base d :=
  mem_sortBy.trans mem_filter

omit [LinearOrder K] in
lemma nodup_keys (p : StoredDoc K T → Bool) : ((s.docs.filter p).map StoredDoc.key).Nodup :=
  s.keys.sublist (filter_sublist.map _)

lemma Pageable.sorted (h : Pageable s query base k sort types) :
    (s.ranked sort base).Pairwise (fun a b => s.docCmp sort a b = .lt) :=
  h.ranks.sortBy_lt (fun _ ha => mem_filter.mp ha) (nodup_keys base)

lemma addressCmp_orders : Orders cmp (fun _ => True) :=
  (Orders.compare.comap segmentOrd (fun _ _ => trivial)).andThen
    (Orders.compare.comap docId (fun _ _ => trivial))

lemma address_of_cmp {a b : DocAddress} (h : a.cmp b = .eq) : a = b := by
  unfold DocAddress.cmp at h
  rw [then_eq_eq, compare_eq_iff_eq, compare_eq_iff_eq] at h
  obtain ⟨ord, id⟩ := a
  obtain ⟨ord', id'⟩ := b
  exact congrArg₂ DocAddress.mk h.1 h.2

variable (s) in
omit [LinearOrder K] in
lemma window_ranks (field : String) (order : SortOrder) : Ranks (s.cols.windowCmp (K := K) field order) address (· ∈ s.docs) := by
  have horders : Orders (s.cols.windowCmp (K := K) field order) (· ∈ s.docs) :=
    (s.cols.cmpCell_orders.comap (fun d : StoredDoc K T => d.cell field) (fun _ _ => trivial)).andThen
      (addressCmp_orders.comap address (fun _ _ => trivial))
  refine ⟨horders, fun a b ha hb => ⟨fun hc => ?_, fun hk => ?_⟩⟩
  · unfold windowCmp at hc
    rw [then_eq_eq] at hc
    exact address_of_cmp hc.2
  · obtain rfl := inj_on_of_nodup_map s.addresses ha hb hk
    exact horders.self ha

def takesBefore (s : Searcher K T) (sort : List SortKey) (a b : StoredDoc K T) : Prop :=
  match sort with
  | [key] => s.cols.windowCmp key.field key.order a b = .lt
  | _ => s.docCmp sort a b = .lt

lemma window_sorted (q : StoredDoc K T → Bool) (field : String) (order : SortOrder) :
    (sortBy (s.cols.windowCmp field order) (s.docs.filter q)).Pairwise
      (fun a b => s.cols.windowCmp field order a b = .lt) :=
  (s.window_ranks field order).sortBy_lt (fun _ ha => (mem_filter.mp ha).1)
    (s.addresses.sublist (filter_sublist.map _))

lemma candidates_nodup (q : StoredDoc K T → Bool) :
    ((s.candidates sort k q).map StoredDoc.key).Nodup := by
  unfold candidates
  split
  · rename_i key
    refine ((s.topDocs_perm q key.field key.order k).map _).nodup_iff.mpr ?_
    refine Nodup.sublist ((take_sublist _ _).map _) ?_
    exact ((perm_insertionSort _ _).map _).nodup_iff.mpr (nodup_keys q)
  · exact ((s.docSet_perm q).map _).nodup_iff.mpr (nodup_keys q)

lemma ranked_filter_perm (q : StoredDoc K T → Bool) :
    ((s.ranked sort base).filter q).Perm (s.docs.filter (fun d => base d && q d)) := by
  have hperm := (perm_insertionSort (fun a b => (s.docCmp sort a b).isLE = true)
    (s.docs.filter base)).filter q
  rw [filter_filter] at hperm
  have hcomm : (fun d => q d && base d) = fun d => base d && q d := funext fun d => Bool.and_comm _ _
  rwa [hcomm] at hperm

omit [LinearOrder K] in
lemma candidates_length (q : StoredDoc K T → Bool) :
    min k (s.candidates sort k q).length = min k (s.docs.filter q).length := by
  unfold candidates
  split
  · rename_i key
    rw [(s.topDocs_perm q key.field key.order k).length_eq, length_take, sortBy, length_insertionSort]
    omega
  · rw [(s.docSet_perm q).length_eq]

lemma mem_pageOf_single : d ∈ s.pageOf [key] base k q ↔ d ∈ (sortBy (s.cols.windowCmp key.field key.order)
      (s.docs.filter (fun d => base d && q d))).take k := by
  have hperm := s.topDocs_perm (fun d => base d && q d) key.field key.order k
  have hlen : (sortBy (s.docCmp [key]) (s.candidates [key] k (fun d => base d && q d))).length ≤ k := by
    rw [sortBy, length_insertionSort, candidates, hperm.length_eq]
    exact length_take_le _ _
  unfold pageOf
  rw [take_of_length_le hlen, mem_sortBy]
  exact hperm.mem_iff

lemma docCmp_single (a b : StoredDoc K T) : s.docCmp [key] a b =
    (cmpSortValue (s.cols.fastOf (a.cell key.field)) (s.cols.fastOf (b.cell key.field))
      key.order).then (compare a.key b.key) := by
  rw [docCmp_eq (by simp)]
  simp only [SearchAfter.cmp, token, map_cons, map_nil, cmpSortValues, headD_cons, then_eq]

lemma cmpPlace_single (key : SortKey) (a b : Option (Cell T)) (x y : K) :
    s.cols.cmpPlace [key.order] ([a], x) ([b], y) =
      (s.cols.cmpCell key.order a b).then (compare x y) := by
  simp only [cmpPlace, cmpCells, headD_cons, then_eq]

lemma Pageable.sameKind (h : Pageable s query base k [key] types)
    (ha : a ∈ s.docs) (hb : b ∈ s.docs) : SameKind (a.cell key.field) (b.cell key.field) := by
  obtain ⟨type, -, htype, -⟩ := mapM_ok_cons h.columns
  intro x y hx hy
  rw [sortColumn_typed htype ha hx, sortColumn_typed htype hb hy]

/-- With a single key, a document behind `b` that the window takes before `b` and the cursor of `b` lets through has
the sort value of `b`. -/
lemma Pageable.passes_window (h : Pageable s query base k [key] types)
    (ha : a ∈ s.ranked [key] base) (hb : b ∈ s.ranked [key] base)
    (hg : g ∈ s.ranked [key] base) (hab : s.docCmp [key] a b = .lt)
    (hbg : s.docCmp [key] b g = .lt) (hpab : s.cols.passes [key] a b)
    (hpbg : s.cols.passes [key] b g)
    (hw : s.cols.windowCmp key.field key.order g b = .lt) : s.cols.passes [key] a g := by
  obtain ⟨had, hba⟩ := mem_ranked.mp ha
  obtain ⟨hbd, hbb⟩ := mem_ranked.mp hb
  obtain ⟨hgd, hbg'⟩ := mem_ranked.mp hg
  rw [docCmp_single] at hab hbg
  rw [passes_iff] at hpab hpbg ⊢
  simp only [cursorPlace, stored, map_cons, map_nil] at hpab hpbg ⊢
  rw [cmpPlace_single] at hpab hpbg ⊢
  exact window_law (h.sameKind had hbd) (h.sameKind hgd had) (h.sameKind hgd hbd)
    (h.comparable a had hba key mem_cons_self) (h.comparable b hbd hbb key mem_cons_self)
    (h.comparable g hgd hbg' key mem_cons_self) hab hbg hpab hpbg (isLE_of_then_lt hw)

section

variable (h : Pageable s query base k sort types)
include h

lemma Pageable.windowed :
    Keyset.Windowed (s.ranked sort base) k (s.takesBefore sort) (s.pageOf sort base k) where
  size := h.size
  total a ha b hb hne := by
    have had := mem_ranked.mp ha
    have hbd := mem_ranked.mp hb
    unfold takesBefore
    split
    · rename_i key
      have hr := s.window_ranks key.field key.order
      have haddr : a.address ≠ b.address := fun heq => hne (inj_on_of_nodup_map s.addresses had.1 hbd.1 heq)
      rcases hr.total had.1 hbd.1 with hle | hle
      · exact .inl (hr.lt_of_le_of_ne had.1 hbd.1 hle haddr)
      · exact .inr (hr.lt_of_le_of_ne hbd.1 had.1 hle haddr.symm)
    · have hkey : a.key ≠ b.key := fun heq => hne (key_inj had.1 hbd.1 heq)
      rcases h.ranks.total had hbd with hle | hle
      · exact .inl (h.ranks.lt_of_le_of_ne had hbd hle hkey)
      · exact .inr (h.ranks.lt_of_le_of_ne hbd had hle hkey.symm)
  sub q := by
    refine (take_sublist _ _).trans (sublist_of_sorted (r := fun a b => s.docCmp sort a b = .lt)
      ?_ (h.sorted.filter q) ?_ ?_)
    · refine h.ranks.sortBy_lt (fun a ha => ?_) (candidates_nodup _)
      obtain ⟨had, hab⟩ := mem_candidates ha
      exact ⟨had, (Bool.and_eq_true_iff.mp hab).1⟩
    · intro a ha b hb
      exact h.ranks.lt_asymm (mem_ranked.mp (mem_filter.mp ha).1)
        (mem_ranked.mp (mem_filter.mp hb).1)
    · intro a ha
      obtain ⟨had, hab⟩ := mem_candidates (mem_sortBy.mp ha)
      obtain ⟨hab, haq⟩ := Bool.and_eq_true_iff.mp hab
      exact mem_filter.mpr ⟨mem_ranked.mpr ⟨had, hab⟩, haq⟩
  length q := by
    unfold pageOf
    rw [length_take, sortBy, length_insertionSort, candidates_length,
      (ranked_filter_perm q).length_eq]
  closed q a b ha hb hq hbefore := by
    obtain ⟨hbd, hbb⟩ := mem_ranked.mp hb
    have hbf : b ∈ s.docs.filter (fun d => base d && q d) := mem_filter.mpr ⟨hbd, Bool.and_eq_true_iff.mpr ⟨hbb, hq⟩⟩
    unfold takesBefore at hbefore
    split at hbefore
    · rename_i key
      rw [mem_pageOf_single] at ha ⊢
      refine mem_take_of_before (window_sorted _ _ _) (fun x hx y hy => ?_) ha
        (mem_sortBy.mpr hbf) hbefore
      exact (s.window_ranks key.field key.order).lt_asymm
        (mem_filter.mp (mem_sortBy.mp hx)).1 (mem_filter.mp (mem_sortBy.mp hy)).1
    · rename_i hmany
      have hcand : s.candidates sort k (fun d => base d && q d) = s.docSet (fun d => base d && q d) := by
        unfold candidates
        split
        · exact absurd rfl (hmany _)
        · rfl
      have hdocs : ∀ x ∈ s.candidates sort k (fun d => base d && q d), x ∈ s.docs ∧ base x = true := by
        intro x hx
        obtain ⟨hxd, hxb⟩ := mem_candidates hx
        exact ⟨hxd, (Bool.and_eq_true_iff.mp hxb).1⟩
      refine mem_take_of_before (h.ranks.sortBy_lt hdocs (candidates_nodup _))
        (fun x hx y hy => h.ranks.lt_asymm (hdocs x (mem_sortBy.mp hx)) (hdocs y (mem_sortBy.mp hy)))
        ha (mem_sortBy.mpr ?_) hbefore
      rw [hcand]
      exact (s.docSet_perm _).mem_iff.mpr hbf

lemma Pageable.withCursor_eq (hd : d ∈ s.docs) : s.withCursor base sort (some (s.token sort d)) =
      .ok (fun e => base e && s.cols.passes sort d e) := by
  obtain ⟨q, hq, hpasses⟩ := keysetAfter_spec h.no_score h.columns (fits_of_types h.columns hd)
  have hq : s.keysetAfter sort (s.token sort d) = .ok q := hq
  simp only [withCursor, if_neg h.sorts, hq]
  refine congrArg Except.ok (funext fun e => ?_)
  rw [s.booleanQuery_must (by simp)]
  simp [hpasses]

lemma Pageable.serves :
    Keyset.Serves (s.searchAfter query k sort) (s.ranked sort base) k (s.takesBefore sort)
      (fun a b => s.docCmp sort a b = .lt) (s.pageOf sort base k) (s.row sort)
      (s.cols.passes sort) (s.token sort) where
  toWindowed := h.windowed
  first := by
    refine h.searchAfter_eq (congrArg Except.ok (funext fun d => ?_))
    rw [Bool.and_true]
  next d hd := h.searchAfter_eq (h.withCursor_eq (mem_ranked.mp hd).1)
  view_inj a b ha hb hrow := by
    have hkey : a.key = b.key := congrArg (fun r : Row K => r.1.key) hrow
    exact key_inj (mem_ranked.mp ha).1 (mem_ranked.mp hb).1 hkey
  sorted := h.sorted
  asymm a ha b hb := h.ranks.lt_asymm (mem_ranked.mp ha) (mem_ranked.mp hb)
  chain a b d := passes_chain
  window a ha b hb g hg hab hbg hpab hpbg hw := by
    unfold takesBefore at hw
    split at hw
    · exact h.passes_window ha hb hg hab hbg hpab hpbg hw
    · exact absurd hw (h.ranks.lt_asymm (mem_ranked.mp hb) (mem_ranked.mp hg) hbg)

end

/-- With a single sort key, the documents up to the page's end come before those behind it by stored value and
address, and the cursor of its last lets through exactly those behind it. -/
def CutsPage (s : Searcher K T) (sort : List SortKey) (u : List (StoredDoc K T)) (k place : Nat) :
    Prop :=
  ∀ h, (pageAt u k place).getLast? = some h →
    (∀ key, sort = [key] → ∀ a ∈ u.take (place + k), ∀ b ∈ u.drop (place + k),
      s.cols.windowCmp key.field key.order a b = .lt) ∧
    ∀ d ∈ u, s.cols.passes sort h d = true ↔ d ∈ u.drop (place + k)

lemma Pageable.sound_iff (h : Pageable s query base k sort types) (place : Nat) :
    Keyset.Sound (s.ranked sort base) k (s.takesBefore sort) (s.cols.passes sort) place ↔
      s.CutsPage sort (s.ranked sort base) k place := by
  have hparts : Keyset.Parts (s.ranked sort base) (s.takesBefore sort) (place + k) ↔
      ∀ key, sort = [key] → ∀ a ∈ (s.ranked sort base).take (place + k), ∀ b ∈ (s.ranked sort base).drop (place + k),
          s.cols.windowCmp key.field key.order a b = .lt := by
    constructor
    · rintro hp key rfl
      exact hp
    · intro hw a ha b hb
      unfold takesBefore
      split
      · exact hw _ rfl a ha b hb
      · -- with several keys candidates are taken in the full order
        have hsorted := h.sorted
        rw [← take_append_drop (place + k) (s.ranked sort base)] at hsorted
        exact (pairwise_append.mp hsorted).2.2 a ha b hb
  exact forall_congr' (fun _ => imp_congr_right (fun _ => and_congr_left' hparts))

end Searcher

/-- Keyset paging makes up the matching documents in order, each once, exactly when every page cuts the documents
where the ranking does. -/
theorem keyset_pages_exact_iff {s : Searcher K T} {query : Query} {base : StoredDoc K T → Bool}
    {k : Nat} {sort : List SortKey} {types : List ColumnType}
    (h : s.Pageable query base k sort types) :
    Collects (s.searchAfter query k sort) none ((s.ranked sort base).map (s.row sort)) ↔
      ∀ i, s.CutsPage sort (s.ranked sort base) k (i * k) :=
  h.serves.collects_iff.trans (forall_congr' (fun i => h.sound_iff (i * k)))

lemma SampleSegment.pageable {key key' : Nat} {rank rank' : I64} {h : key ≠ key'} :
    (pair key key' rank rank' h).Pageable .matchAll (fun _ => true) 1 byRank [.i64] where
  size := le_refl 1
  word := by decide
  sorts := by decide
  no_score := by decide
  columns := rfl
  builds := rfl
  not_knn := by simp
  comparable d hd _ key _ x hx := by
    obtain ⟨-, htype⟩ : key.field = "rank" ∧ (Cell.f64 x : Cell I64).type = .i64 := by
      rcases mem_cons.mp hd with rfl | hd
      · exact doc_typed hx
      · obtain rfl := mem_singleton.mp hd
        exact doc_typed hx
    cases htype

open SampleSegment

theorem keyset_pages_exact_distinct : let s := pair 1 2 ⟨5, by decide⟩ ⟨7, by decide⟩ (by decide)
    Collects (s.searchAfter .matchAll 1 byRank) none
      ((s.ranked byRank (fun _ => true)).map (s.row byRank)) := by
  intro s
  refine (keyset_pages_exact_iff pageable).mpr (fun i => ?_)
  change s.CutsPage byRank [doc 1 0 ⟨5, by decide⟩, doc 2 1 ⟨7, by decide⟩] 1 (i * 1)
  rw [Nat.mul_one]
  intro h hlast
  rcases i with _ | _ | i
  · cases hlast
    refine ⟨fun key hkey a ha b hb => ?_, fun d hd => ?_⟩
    · obtain rfl := mem_singleton.mp ha
      obtain rfl := mem_singleton.mp hb
      obtain ⟨rfl, -⟩ := List.cons.inj hkey
      rfl
    · rcases mem_cons.mp hd with rfl | hd
      · refine ⟨fun hp => (nomatch hp), fun hin => ?_⟩
        exact absurd (congrArg StoredDoc.key (mem_singleton.mp hin)) (by decide)
      · obtain rfl := mem_singleton.mp hd
        exact ⟨fun _ => mem_singleton.mpr rfl, fun _ => rfl⟩
  · cases hlast
    refine ⟨fun key _ a _ b hb => (nomatch hb), fun d hd => ⟨fun hp => ?_, fun hin => (nomatch hin)⟩⟩
    rcases mem_cons.mp hd with rfl | hd
    · cases hp
    · obtain rfl := mem_singleton.mp hd
      cases hp
  · rw [pageAt_eq_nil (by simp)] at hlast
    cases hlast

/-- Two documents tie on the sort key, and the one with the greater key is stored first: the other is never returned.
-/
theorem tied_document_lost : let s := pair 2 1 ⟨5, by decide⟩ ⟨5, by decide⟩ (by decide)
    s.Pageable .matchAll (fun _ => true) 1 byRank [.i64] ∧ ¬ Collects (s.searchAfter .matchAll 1 byRank) none
        ((s.ranked byRank (fun _ => true)).map (s.row byRank)) := by
  refine ⟨pageable, fun hc => ?_⟩
  have hfirst : (pair 2 1 ⟨5, by decide⟩ ⟨5, by decide⟩ (by decide)).searchAfter .matchAll 1 byRank none =
      .ok ([(⟨2, ⟨0⟩⟩, [.num (F64.ofInt 5)])], some ⟨[.num (F64.ofInt 5)], 2⟩) := rfl
  have hsecond : (pair 2 1 ⟨5, by decide⟩ ⟨5, by decide⟩ (by decide)).searchAfter
      .matchAll 1 byRank (some ⟨[.num (F64.ofInt 5)], 2⟩) = .ok ([], none) := rfl
  obtain ⟨rest, hall, hrest⟩ := (collects_more hfirst).mp hc
  rw [← (collects_last hsecond).mp hrest] at hall
  exact absurd (congrArg List.length hall) (by decide)

end GrowlerDB.Index
