import GrowlerDB.Index.SortedSearch
import GrowlerDB.Lib.Results

namespace GrowlerDB.Index
open Core Lib Ranking List Columns SortKey

variable {val : SortValue} {field : String}

variable {K T : Type} [LinearOrder K] [LinearOrder T]

variable {type : ColumnType} {d : StoredDoc K T}

namespace Searcher

section

variable (s : Searcher K T)

omit [LinearOrder K] in
lemma booleanQuery_must (h : must ≠ []) (d : StoredDoc K T) : s.booleanQuery must [] [] d = must.all (· d) := by
  unfold booleanQuery
  rw [map_nil, s.combine_must _ _ (by simpa using h)]
  simp

omit [LinearOrder K] in
lemma booleanQuery_should (h : should ≠ [])
    (d : StoredDoc K T) : s.booleanQuery [] should [] d = should.any (· d) := by
  unfold booleanQuery
  rw [map_nil, s.combine_should _ (by simpa using h)]
  simp

omit [LinearOrder K] in
lemma notExists_eq (field : String) (d : StoredDoc K T) : s.notExists field d = (d.cell field).isNone := by
  unfold notExists booleanQuery
  rw [map_nil, s.combine_must _ _ (by simp)]
  cases hd : d.cell field <;> simp [hd]

variable {s}

omit [LinearOrder K] in
lemma sortTerm_fastOf (h : ∀ c, cell = some c → c.type = type) :
    s.sortTerm type (s.cols.fastOf cell) = .ok (s.cols.recast cell) := by
  rcases cell with _ | c
  · rfl
  · obtain rfl := h c rfl
    cases c <;> rfl

omit [LinearOrder K] in
lemma columnValue_eq
    (h : ∀ c, cell = some c → c.type = type) : s.columnValue type cell = s.cols.fastOf cell := by
  rcases cell with _ | c
  · cases type <;> rfl
  · obtain rfl := h c rfl
    cases c <;> rfl

omit [LinearOrder K] in
lemma cmp_swap (a b : Cell T) : s.cols.cmp b a = (s.cols.cmp a b).swap :=
  s.cols.cmp_orders.swap a b trivial trivial

lemma rangeExact_eq (field : String) (order : SortOrder) (t : Cell T) (d : StoredDoc K T) :
    s.rangeQuery field (.included t) (.included t) d =
      (s.cols.cmpCell order (some t) (d.cell field) == .eq) := by
  unfold rangeQuery
  cases d.cell field with
  | none => rfl
  | some c =>
    simp only [Option.any_some, aboveBound, belowBound, cmpCell]
    rw [cmp_swap t c]
    cases s.cols.cmp t c <;> cases order <;> rfl

lemma rangeAfter_eq (field : String) (order : SortOrder) (t : Cell T) (d : StoredDoc K T) :
    s.booleanQuery [] [s.rangeAfter field order t, s.notExists field] [] d =
      (s.cols.cmpCell order (some t) (d.cell field) == .lt) := by
  rw [s.booleanQuery_should (by simp)]
  simp only [any_cons, any_nil, Bool.or_false, s.notExists_eq]
  cases order <;> simp only [rangeAfter, rangeQuery] <;> cases d.cell field with
  | none => rfl
  | some c =>
    simp only [Option.any_some, aboveBound, belowBound, cmpCell, Option.isNone_some]
    rw [cmp_swap t c]
    cases s.cols.cmp t c <;> rfl

variable (s) in
lemma keyClause_spec (key : SortKey) (h : s.sortTerm type val = .ok term) :
    ∃ clause, s.keyClause key type val = .ok clause ∧
      (∀ d, clause.exact d = (s.cols.cmpCell key.order term (d.cell key.field) == .eq)) ∧
      ∀ d, clause.after.any (· d) = (s.cols.cmpCell key.order term (d.cell key.field) == .lt) := by
  unfold keyClause kvAfter kvExact
  rw [h]
  cases term with
  | none =>
    refine ⟨_, rfl, fun d => (s.notExists_eq key.field d).trans ?_, fun d => ?_⟩
    · cases d.cell key.field <;> rfl
    · cases d.cell key.field <;> rfl
  | some t =>
    exact ⟨_, rfl, fun d => rangeExact_eq key.field key.order t d, fun d => rangeAfter_eq key.field key.order t d⟩

variable (s) in
/-- Each sort value of a cursor stands for a value of its column. -/
inductive Reads : List SortKey → List ColumnType → List SortValue → List (Option (Cell T)) → Prop
  | nil : Reads [] [] [] []
  | cons {key : SortKey} {type : ColumnType} {val : SortValue} {term : Option (Cell T)} {sort : List SortKey}
      {types : List ColumnType} {vals : List SortValue} {terms : List (Option (Cell T))}
      (head : s.sortTerm type val = .ok term) (tail : Reads sort types vals terms) :
      Reads (key :: sort) (type :: types) (val :: vals) (term :: terms)

variable {sort : List SortKey} {types : List ColumnType}

omit [LinearOrder K] in
lemma Reads.length_eq (h : s.Reads sort types vals terms) : vals.length = sort.length := by
  induction h with
  | nil => rfl
  | cons _ _ ih => rw [length_cons, length_cons, ih]

lemma keyClauses_spec (h : s.Reads sort types vals terms) : ∃ clauses, s.keyClauses sort types vals = .ok clauses ∧
      (∀ earlier d, (s.afterClauses earlier clauses).any (· d) = (earlier.all (· d) &&
        (s.cols.cmpCells (sort.map order) terms (d.stored sort).1 == .lt))) ∧
      ∀ d, clauses.all (fun c => c.exact d) =
        (s.cols.cmpCells (sort.map order) terms (d.stored sort).1 == .eq) := by
  induction h with
  | nil => exact ⟨[], rfl, fun earlier d => by simp [afterClauses, cmpCells], fun d => rfl⟩
  | @cons key type val term sort types vals terms hterm _ ih =>
    obtain ⟨clauses, hclauses, hafter, hexact⟩ := ih
    obtain ⟨clause, hclause, hex, haf⟩ := keyClause_spec s key hterm
    refine ⟨clause :: clauses, ?_, fun earlier d => ?_, fun d => ?_⟩
    · simp only [keyClauses, hclause, hclauses]
      rfl
    · rw [afterClauses, any_append, hafter, all_append]
      have hhead : (clause.after.map (fun after =>
          s.booleanQuery (earlier ++ [after]) [] [])).toList.any (· d) =
            (earlier.all (· d) && clause.after.any (· d)) := by
        cases clause.after with
        | none => simp
        | some after => simp [s.booleanQuery_must]
      rw [hhead, haf, all_cons, all_nil, Bool.and_true, hex]
      simp only [StoredDoc.stored, map_cons, cmpCells, headD_cons, tail_cons]
      cases s.cols.cmpCell key.order term (d.cell key.field) <;> cases earlier.all (· d) <;> simp
    · rw [all_cons, hex, hexact]
      simp only [StoredDoc.stored, map_cons, cmpCells, headD_cons, tail_cons]
      cases s.cols.cmpCell key.order term (d.cell key.field) <;> simp

lemma keysetAfter_reads (hscore : sortHasScore sort = false)
    (htypes : sort.mapM (fun key => s.sortColumn key.field) = .ok types) (h : s.Reads sort types vals terms) (key : K) :
    ∃ q, s.keysetAfter sort ⟨vals, key⟩ = .ok q ∧
      ∀ d, q d = (s.cols.cmpPlace (sort.map order) (terms, key) (d.stored sort) == .lt) := by
  obtain ⟨clauses, hclauses, hafter, hexact⟩ := keyClauses_spec h
  unfold keysetAfter
  rw [hscore]
  simp only [Bool.false_eq_true, if_false, h.length_eq, ne_eq, not_true, htypes, bind, Except.bind, hclauses]
  refine ⟨_, rfl, fun d => ?_⟩
  rw [s.booleanQuery_should (by simp), any_append, hafter]
  simp only [any_cons, any_nil, Bool.or_false, all_nil, Bool.true_and]
  rw [s.booleanQuery_must (by simp), all_append, all_map]
  have hall : (clauses.all ((fun q : StoredDoc K T → Bool => q d) ∘ KeyClause.exact)) =
      clauses.all (fun c => c.exact d) := rfl
  rw [hall, hexact, all_cons, all_nil, Bool.and_true]
  unfold cmpPlace
  have hkey : decide (key < d.key) = (compare key d.key == .lt) := by
    rw [Bool.eq_iff_iff, decide_eq_true_eq, beq_iff_eq, compare_lt_iff_lt]
  cases s.cols.cmpCells (sort.map order) terms (d.stored sort).1 <;> simp [hkey, StoredDoc.stored]

/-- The column types of a sort, and documents whose values are of these types. -/
def Fits (sort : List SortKey) (types : List ColumnType) (d : StoredDoc K T) : Prop :=
  List.Forall₂ (fun key type => ∀ c, d.cell key.field = some c → c.type = type) sort types

lemma Fits.reads (hfit : Fits sort types h) :
    s.Reads sort types (sort.map (fun key => s.cols.fastOf (h.cell key.field))) (h.cursorPlace s.cols sort).1 := by
  induction hfit with
  | nil => exact .nil
  | cons htype _ ih => exact .cons (sortTerm_fastOf htype) ih

lemma keysetAfter_spec (hscore : sortHasScore sort = false)
    (htypes : sort.mapM (fun key => s.sortColumn key.field) = .ok types) (hfit : Fits sort types h) :
    ∃ q, s.keysetAfter sort ⟨sort.map (fun key => s.cols.fastOf (h.cell key.field)), h.key⟩ = .ok q ∧
      ∀ d, q d = s.cols.passes sort h d :=
  keysetAfter_reads hscore htypes hfit.reads h.key

end

section
variable {s : Searcher K T} {sort : List SortKey} {types : List ColumnType}

omit [LinearOrder K] in
lemma sortColumn_typed (h : s.sortColumn field = .ok type)
    (hd : d ∈ s.docs) (hc : d.cell field = some c) : c.type = type := by
  obtain ⟨fast, hentry⟩ := s.typed d hd field c hc
  unfold sortColumn resolveTypedField at h
  by_cases hkey : field = keyField
  · rw [if_pos hkey] at h
    cases h
  · rw [if_neg hkey, hentry] at h
    cases fast with
    | true => exact Except.ok.inj h
    | false => cases h

lemma fits_of_types (htypes : sort.mapM (fun key => s.sortColumn key.field) = .ok types)
    (hd : d ∈ s.docs) : Fits sort types d := by
  induction sort generalizing types with
  | nil =>
    cases htypes
    exact .nil
  | cons key sort ih =>
    obtain ⟨type, types', htype, hrest, rfl⟩ := mapM_ok_cons htypes
    exact .cons (fun c hc => sortColumn_typed htype hd hc) (ih hrest)

lemma sortValues_eq (hscore : sortHasScore sort = false)
    (htypes : sort.mapM (fun key => s.sortColumn key.field) = .ok types)
    (hd : d ∈ s.docs) (score : F64) :
    s.sortValues sort score d = .ok (sort.map (fun key => s.cols.fastOf (d.cell key.field))) := by
  induction sort generalizing types with
  | nil => rfl
  | cons key sort ih =>
    obtain ⟨type, types', htype, hrest, rfl⟩ := mapM_ok_cons htypes
    obtain ⟨hkey, hsort⟩ := Bool.or_eq_false_iff.mp hscore
    have hvalue : s.fastValue d key.field = .ok (s.cols.fastOf (d.cell key.field)) := by
      unfold fastValue
      rw [htype, ← columnValue_eq (fun c hc => sortColumn_typed htype hd hc)]
      rfl
    have htail := ih hsort hrest
    unfold sortValues at htail ⊢
    rw [mapM_cons, htail, hkey]
    simp only [Bool.false_eq_true, if_false, hvalue]
    rfl

end

section
variable {s : Searcher K T} {sort : List SortKey} {types : List ColumnType}
  {cursor : SearchAfter K} {q : StoredDoc K T → Bool}

variable (s) in
def cursorCell (key : SortKey) (val : SortValue) : Option (Cell T) :=
  match s.sortColumn key.field with
  | .ok type => (s.sortTerm type val).toOption.join
  | .error _ => none

omit [LinearOrder K] in
lemma keyClause_term
    (h : s.keyClause key type val = .ok clause) : ∃ term, s.sortTerm type val = .ok term := by
  cases hterm : s.sortTerm type val with
  | ok term => exact ⟨term, rfl⟩
  | error e =>
    unfold keyClause kvAfter at h
    rw [hterm] at h
    cases h

lemma reads_of_keyClauses (htypes : sort.mapM (fun key => s.sortColumn key.field) = .ok types)
    (h : s.keyClauses sort types vals = .ok clauses) (hlen : vals.length = sort.length) :
    s.Reads sort types vals (List.zipWith s.cursorCell sort vals) := by
  induction sort generalizing types vals clauses with
  | nil =>
    cases htypes
    obtain rfl := length_eq_zero_iff.mp hlen
    exact .nil
  | cons key sort ih =>
    obtain ⟨type, types', htype, hrest, rfl⟩ := mapM_ok_cons htypes
    cases vals with
    | nil => cases hlen
    | cons val vals =>
      rw [keyClauses] at h
      obtain ⟨clause, hclause, h⟩ := bind_ok h
      obtain ⟨later, hlater, -⟩ := bind_ok h
      obtain ⟨term, hterm⟩ := keyClause_term hclause
      have hcell : s.cursorCell key val = term := by
        rw [cursorCell, htype]
        dsimp only
        rw [hterm]
        rfl
      rw [zipWith_cons_cons, hcell]
      exact .cons hterm (ih hrest hlater (Nat.succ.inj hlen))

lemma keysetAfter_ok (h : s.keysetAfter sort cursor = .ok q) :
    sortHasScore sort = false ∧ (∃ types, sort.mapM (fun key => s.sortColumn key.field) = .ok types) ∧
      ∀ d, q d = (s.cols.cmpPlace (sort.map order) (List.zipWith s.cursorCell sort cursor.sortValues, cursor.key)
        (d.stored sort) == .lt) := by
  have hok := h
  unfold keysetAfter at h
  split_ifs at h with hscore hlen
  obtain ⟨types, htypes, h⟩ := bind_ok h
  obtain ⟨clauses, hclauses, -⟩ := bind_ok h
  have hreads := reads_of_keyClauses htypes hclauses (not_not.mp hlen)
  have hscore := Bool.eq_false_iff.mpr hscore
  obtain ⟨q', hq', hmeans⟩ := keysetAfter_reads hscore htypes hreads cursor.key
  obtain rfl := Except.ok.inj (hok.symm.trans hq')
  exact ⟨hscore, ⟨types, htypes⟩, hmeans⟩

def row (s : Searcher K T) (sort : List SortKey) (d : StoredDoc K T) : Row K :=
  (⟨d.key, ⟨0⟩⟩, sort.map (fun key => s.cols.fastOf (d.cell key.field)))

/-- The column values compare, as a tuple, as the sort values do; or one of the two comparisons ties and the keys
fall on the side that the other shows. -/
def ComparesAlike (s : Searcher K T) (sort : List SortKey) (cursor : SearchAfter K) (d : StoredDoc K T) : Prop :=
  let stored := s.cols.cmpCells (sort.map SortKey.order) (List.zipWith s.cursorCell sort cursor.sortValues) (d.stored sort).1
  let shown := cmpSortValues (sort.map SortKey.order) cursor.sortValues (s.row sort d).2
  stored = shown ∨ (stored = .eq ∧ (shown = .lt ↔ cursor.key < d.key)) ∨
    (shown = .eq ∧ (stored = .lt ↔ cursor.key < d.key))

end

end Searcher

namespace SampleSegment

def columns : Columns I64 where
  intoTimestampMicros t := t
  fromTimestampMicros m := if h : InI64 m then ⟨m, h⟩ else ⟨0, by decide⟩
  floatKey x := if x.isNegative then 2 ^ 63 - 1 - x.magnitude else 2 ^ 63 + x.magnitude
  micros_range t := t.2
  micros_mono _ _ h := h
  micros_from t := by rw [dif_pos (F64.toI64_range _)]
  floatKey_inj x y h := by
    have hx : x.magnitude < 2 ^ 63 := Nat.mod_lt _ (by decide)
    have hy : y.magnitude < 2 ^ 63 := Nat.mod_lt _ (by decide)
    cases hnx : x.isNegative <;> cases hny : y.isNegative <;>
      simp only [hnx, hny, Bool.false_eq_true, if_true, if_false] at h
    · exact F64.ext_of_magnitude (by omega) (hnx.trans hny.symm)
    · omega
    · omega
    · exact F64.ext_of_magnitude (by omega) (hnx.trans hny.symm)
  floatKey_mono x y _ _ h := by
    have hx : x.magnitude < 2 ^ 63 := Nat.mod_lt _ (by decide)
    have hy : y.magnitude < 2 ^ 63 := Nat.mod_lt _ (by decide)
    unfold F64.rank at h
    split_ifs at h ⊢ <;> omega

abbrev Doc := StoredDoc Nat I64

def doc (key docId : Nat) (rank : I64) : Doc :=
  ⟨key, ⟨0, docId⟩, fun field => if field = "rank" then some (.i64 rank) else none⟩

def searcher {type : ColumnType} (a b : Doc) (hkeys : a.key ≠ b.key) (haddr : a.address ≠ b.address)
    (htyped : ∀ d ∈ [a, b], ∀ field c, d.cell field = some c → field = "rank" ∧ c.type = type) :
    Searcher Nat I64 where
  cols := columns
  docs := [a, b]
  fields field := if field = "rank" then some (.column type true) else none
  build _ := .ok (fun _ => true)
  knnSearch _ := .ok []
  combine must should mustNot := if must = [] then should.any id && !mustNot.any id else must.all id && !mustNot.any id
  docSet q := [a, b].filter q
  topDocs q field order n := (sortBy (columns.windowCmp field order) ([a, b].filter q)).take n
  topByScore q n := (([a, b].filter q).take n).map (fun d => (⟨0⟩, d))
  explain _ _ := ⟨0⟩
  combine_must must mustNot h := if_neg h
  combine_should should _ := by simp
  docSet_perm _ := .refl _
  topDocs_perm _ _ _ _ := .refl _
  typed d hd field c hc := by
    obtain ⟨rfl, htype⟩ := htyped d hd field c hc
    exact ⟨true, by rw [htype]; rfl⟩
  keys := by simpa using hkeys
  addresses := by simpa using haddr

lemma doc_typed (h : (doc key docId rank).cell field = some c) : field = "rank" ∧ c.type = .i64 := by
  simp only [doc] at h
  split_ifs at h with hf
  cases h
  exact ⟨hf, rfl⟩

def pair (key key' : Nat) (rank rank' : I64) (h : key ≠ key') :
    Searcher Nat I64 :=
  searcher (doc key 0 rank) (doc key' 1 rank') h (by simp [doc]) (by
    intro d hd field c hc
    rcases mem_cons.mp hd with rfl | hd
    · exact doc_typed hc
    · obtain rfl := mem_singleton.mp hd
      exact doc_typed hc)

def byRank : List SortKey := [⟨"rank", .asc⟩]

end SampleSegment

open SampleSegment

/-- The query of a cursor matches a document exactly when the ranking has it after the cursor, if columns compare as
sort values do, and not otherwise. -/
theorem keyset_after_iff (s : Searcher K T) (sort : List SortKey) (hsort : sort ≠ []) (cursor : SearchAfter K)
    {q : StoredDoc K T → Bool} (hq : s.keysetAfter sort cursor = .ok q) (d : StoredDoc K T) (hd : d ∈ s.docs)
    {byScore : Bool} {score score' : F64} {r : Searcher.Row K} (hr : s.hitRow sort byScore score d = .ok r) :
    (q d = true ↔ Searcher.cmpHits sort (⟨cursor.key, score'⟩, cursor.sortValues) r = .lt) ↔
      s.ComparesAlike sort cursor d := by
  obtain ⟨hscore, ⟨types, htypes⟩, hmeans⟩ := Searcher.keysetAfter_ok hq
  have hvalues := Searcher.sortValues_eq hscore htypes hd score
  have hrow : r.1.key = d.key ∧ r.2 = (s.row sort d).2 := by
    unfold Searcher.hitRow at hr
    rw [hvalues] at hr
    cases hr
    exact ⟨rfl, rfl⟩
  have hcmp : Searcher.cmpHits sort (⟨cursor.key, score'⟩, cursor.sortValues) r =
      (cmpSortValues (sort.map SortKey.order) cursor.sortValues (s.row sort d).2).then (compare cursor.key d.key) := by
    cases sort with
    | nil => exact absurd rfl hsort
    | cons key sort =>
      rw [← hrow.1, ← hrow.2]
      rfl
  rw [hmeans, beq_iff_eq, hcmp, Searcher.ComparesAlike]
  simp only [Columns.cmpPlace, ← compare_lt_iff_lt]
  exact then_lt_iff _ _ _

theorem keyset_after_small : let s := pair 2 1 ⟨5, by decide⟩ ⟨7, by decide⟩ (by decide)
    ∃ q r, s.keysetAfter byRank ⟨[.num (F64.ofInt 5)], 2⟩ = .ok q ∧
      s.hitRow byRank false ⟨0⟩ (doc 1 1 ⟨7, by decide⟩) = .ok r ∧
      (q (doc 1 1 ⟨7, by decide⟩) = true ↔ Searcher.cmpHits byRank (⟨2, ⟨0⟩⟩, [.num (F64.ofInt 5)]) r = .lt) := by
  intro s
  obtain ⟨q, hq⟩ : ∃ q, s.keysetAfter byRank ⟨[.num (F64.ofInt 5)], 2⟩ = .ok q := ⟨_, rfl⟩
  obtain ⟨r, hr⟩ : ∃ r, s.hitRow byRank false ⟨0⟩ (doc 1 1 ⟨7, by decide⟩) = .ok r := ⟨_, rfl⟩
  have hdoc : doc 1 1 ⟨7, by decide⟩ ∈ s.docs := mem_cons_of_mem _ mem_cons_self
  exact ⟨q, r, hq, hr, (keyset_after_iff s _ (cons_ne_nil _ _) ⟨_, 2⟩ hq _ hdoc hr).mpr (.inl (by decide +kernel))⟩

/-- The cursor after an integer that no double has carries the next smaller one: it matches a document with the same
integer and a smaller key. -/
theorem rounded_cursor_repeats : let s := pair 2 1 ⟨2 ^ 53 + 1, by decide⟩ ⟨2 ^ 53 + 1, by decide⟩ (by decide)
    ∃ q r, s.keysetAfter byRank ⟨[.num (F64.ofInt (2 ^ 53 + 1))], 2⟩ = .ok q ∧
      s.hitRow byRank false ⟨0⟩ (doc 1 1 ⟨2 ^ 53 + 1, by decide⟩) = .ok r ∧
      q (doc 1 1 ⟨2 ^ 53 + 1, by decide⟩) = true ∧
      Searcher.cmpHits byRank (⟨2, ⟨0⟩⟩, [.num (F64.ofInt (2 ^ 53 + 1))]) r = .gt :=
  ⟨_, _, rfl, rfl, by decide +kernel, by decide +kernel⟩

end GrowlerDB.Index
