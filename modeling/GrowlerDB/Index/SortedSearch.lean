import GrowlerDB.Core.Sort
import GrowlerDB.Index.Schema

namespace GrowlerDB.Index
open Core Lib Ranking SortKey Orders Ordering

inductive ColumnType
  | i64
  | f64
  | date
  | str

inductive FieldEntry
  | column (type : ColumnType) (fast : Bool)
  | other

inductive Cell (T : Type)
  | i64 (n : I64)
  | f64 (x : F64)
  | date (t : T)
  | str (s : String)

def Cell.type {T : Type} : Cell T → ColumnType
  | .i64 _ => .i64
  | .f64 _ => .f64
  | .date _ => .date
  | .str _ => .str

/-- How Tantivy keeps column values: the instants a column keeps convert to microseconds, and back from these as a
float has them; floats are kept as integers in the order of their value. -/
structure Columns (T : Type) [LinearOrder T] where
  intoTimestampMicros : T → Int
  fromTimestampMicros : Int → T
  floatKey : F64 → Nat
  micros_range : ∀ t, InI64 (intoTimestampMicros t)
  micros_mono : ∀ s t, s ≤ t → intoTimestampMicros s ≤ intoTimestampMicros t
  micros_from : ∀ t, intoTimestampMicros (fromTimestampMicros (F64.ofInt (intoTimestampMicros t)).toI64) =
    (F64.ofInt (intoTimestampMicros t)).toI64
  floatKey_inj : ∀ x y, floatKey x = floatKey y → x = y
  floatKey_mono : ∀ x y, x.isNan = false → y.isNan = false → x.rank < y.rank →
    floatKey x < floatKey y

structure DocAddress where
  segmentOrd : Nat
  docId : Nat

def DocAddress.cmp (a b : DocAddress) : Ordering :=
  (compare a.segmentOrd b.segmentOrd).then (compare a.docId b.docId)

structure StoredDoc (K T : Type) where
  key : K
  address : DocAddress
  cell : String → Option (Cell T)

section

variable {K T : Type} [LinearOrder T] (cols : Columns T)

def Columns.cmp : Cell T → Cell T → Ordering
  | .i64 a, .i64 b => compare a b
  | .f64 x, .f64 y => compare (cols.floatKey x) (cols.floatKey y)
  | .date s, .date t => compare s t
  | .str s, .str t => compare s t
  | .i64 _, _ => .lt
  | _, .i64 _ => .gt
  | .f64 _, _ => .lt
  | _, .f64 _ => .gt
  | .date _, _ => .lt
  | _, .date _ => .gt

def Columns.cmpCell (order : SortOrder) : Option (Cell T) → Option (Cell T) → Ordering
  | none, none => .eq
  | none, some _ => .gt
  | some _, none => .lt
  | some a, some b => order.dir (cols.cmp a b)

def Columns.windowCmp (field : String) (order : SortOrder) (a b : StoredDoc K T) : Ordering :=
  (cols.cmpCell order (a.cell field) (b.cell field)).then (a.address.cmp b.address)

end

structure Hit (K : Type) where
  key : K
  score : F64

/-- A snapshot of the live documents, and what is used of Tantivy on it: `build` and `knnSearch` compile queries,
`combine` decides a boolean query, `docSet` collects every match, `topDocs` and `topByScore` the first by a column or
by score. -/
structure Searcher (K T : Type) [LinearOrder T] where
  cols : Columns T
  docs : List (StoredDoc K T)
  fields : String → Option FieldEntry
  build : Query → Except IndexError (StoredDoc K T → Bool)
  knnSearch : Query → Except IndexError (List (Hit K))
  combine : List Bool → List Bool → List Bool → Bool
  docSet : (StoredDoc K T → Bool) → List (StoredDoc K T)
  topDocs : (StoredDoc K T → Bool) → String → SortOrder → Nat → List (StoredDoc K T)
  topByScore : (StoredDoc K T → Bool) → Nat → List (F64 × StoredDoc K T)
  explain : (StoredDoc K T → Bool) → StoredDoc K T → F64
  combine_must : ∀ must mustNot, must ≠ [] →
    combine must [] mustNot = (must.all id && !mustNot.any id)
  combine_should : ∀ should, should ≠ [] → combine [] should [] = should.any id
  docSet_perm : ∀ q, (docSet q).Perm (docs.filter q)
  topDocs_perm : ∀ q field order n, (topDocs q field order n).Perm
    ((sortBy (cols.windowCmp field order) (docs.filter q)).take n)
  typed : ∀ d ∈ docs, ∀ field c, d.cell field = some c →
    ∃ fast, fields field = some (.column c.type fast)
  keys : (docs.map StoredDoc.key).Nodup
  addresses : (docs.map StoredDoc.address).Nodup

namespace Searcher

variable {K T : Type} [LinearOrder K] [LinearOrder T] (s : Searcher K T)

def booleanQuery (must should mustNot : List (StoredDoc K T → Bool)) : StoredDoc K T → Bool :=
  fun d => s.combine (must.map (· d)) (should.map (· d)) (mustNot.map (· d))

def resolveTypedField (name : String) : Except IndexError FieldEntry :=
  if name = keyField then .error (.unknownField name)
  else match s.fields name with
    | some entry => .ok entry
    | none => .error (.unknownField name)

def notASortField (field : String) : IndexError :=
  .queryType ("sort needs a numeric/date/keyword fast field, got `" ++ field ++ "`")

def sortColumn (field : String) : Except IndexError ColumnType := do
  match ← s.resolveTypedField field with
  | .column type true => .ok type
  | _ => .error (notASortField field)

def columnValue (type : ColumnType) (cell : Option (Cell T)) : SortValue :=
  match type, cell with
  | .i64, some (.i64 n) => .num (F64.ofInt n)
  | .f64, some (.f64 x) => .num x
  | .date, some (.date t) => .num (F64.ofInt (s.cols.intoTimestampMicros t))
  | .str, some (.str v) => .str v
  | _, _ => .missing

def fastValue (d : StoredDoc K T) (field : String) : Except IndexError SortValue := do
  let type ← s.sortColumn field
  .ok (s.columnValue type (d.cell field))

def sortTerm (type : ColumnType) (val : SortValue) : Except IndexError (Option (Cell T)) :=
  match val, type with
  | .missing, _ => .ok none
  | .num x, .i64 => .ok (some (.i64 ⟨x.toI64, F64.toI64_range x⟩))
  | .num x, .f64 => .ok (some (.f64 x))
  | .num x, .date => .ok (some (.date (s.cols.fromTimestampMicros x.toI64)))
  | .str v, .str => .ok (some (.str v))
  | _, _ => .error (.queryType "search_after cursor value does not match its sort field type")

inductive Bound (T : Type)
  | unbounded
  | included (t : Cell T)
  | excluded (t : Cell T)

def aboveBound (lower : Bound T) (c : Cell T) : Bool :=
  match lower with
  | .unbounded => true
  | .included t => (s.cols.cmp c t).isGE
  | .excluded t => s.cols.cmp c t == .gt

def belowBound (upper : Bound T) (c : Cell T) : Bool :=
  match upper with
  | .unbounded => true
  | .included t => (s.cols.cmp c t).isLE
  | .excluded t => s.cols.cmp c t == .lt

section

variable (field : String)

def rangeQuery (lower upper : Bound T) : StoredDoc K T → Bool :=
  fun d => (d.cell field).any (fun c => s.aboveBound lower c && s.belowBound upper c)

def notExists : StoredDoc K T → Bool :=
  s.booleanQuery [fun _ => true] [] [fun d => (d.cell field).isSome]

def kvExact (type : ColumnType) (val : SortValue) : Except IndexError (StoredDoc K T → Bool) := do
  match ← s.sortTerm type val with
  | some t => .ok (s.rangeQuery field (.included t) (.included t))
  | none => .ok (s.notExists field)

def rangeAfter (order : SortOrder) (t : Cell T) : StoredDoc K T → Bool :=
  match order with
  | .asc => s.rangeQuery field (.excluded t) .unbounded
  | .desc => s.rangeQuery field .unbounded (.excluded t)

def kvAfter (type : ColumnType) (val : SortValue) (order : SortOrder) :
    Except IndexError (Option (StoredDoc K T → Bool)) := do
  match ← s.sortTerm type val with
  | none => .ok none
  | some t => .ok (some (s.booleanQuery [] [s.rangeAfter field order t, s.notExists field] []))

end

structure KeyClause (K T : Type) where
  exact : StoredDoc K T → Bool
  after : Option (StoredDoc K T → Bool)

def keyClause (key : SortKey) (type : ColumnType) (val : SortValue) :
    Except IndexError (KeyClause K T) := do
  let after ← s.kvAfter key.field type val key.order
  let exact ← s.kvExact key.field type val
  .ok ⟨exact, after⟩

def afterClauses (earlier : List (StoredDoc K T → Bool)) :
    List (KeyClause K T) → List (StoredDoc K T → Bool)
  | [] => []
  | c :: rest =>
    (c.after.map (fun after => s.booleanQuery (earlier ++ [after]) [] [])).toList ++
      afterClauses (earlier ++ [c.exact]) rest

def keyClauses : List SortKey → List ColumnType → List SortValue →
    Except IndexError (List (KeyClause K T))
  | key :: sort, type :: types, val :: vals => do
    let c ← s.keyClause key type val
    let rest ← keyClauses sort types vals
    .ok (c :: rest)
  | _, _, _ => .ok []

section

variable (sort : List SortKey)

/-- The documents strictly after a cursor: all keys before one equal and that one after, or all
equal and a greater composite key. -/
def keysetAfter (cursor : SearchAfter K) : Except IndexError (StoredDoc K T → Bool) := do
  if sortHasScore sort then
    .error (.queryType "search_after (keyset paging) is not supported with a `_score` sort key; use offset paging")
  else if cursor.sortValues.length ≠ sort.length then
    .error (.queryType "search_after cursor arity does not match the sort keys")
  else
    let types ← sort.mapM (fun key => s.sortColumn key.field)
    let clauses ← s.keyClauses sort types cursor.sortValues
    let tie := s.booleanQuery
      (clauses.map KeyClause.exact ++ [fun d => decide (cursor.key < d.key)]) [] []
    .ok (s.booleanQuery [] (s.afterClauses [] clauses ++ [tie]) [])

abbrev Row (K : Type) := Hit K × List SortValue

def withCursor (base : StoredDoc K T → Bool) (sort : List SortKey) (after : Option (SearchAfter K)) :
    Except IndexError (StoredDoc K T → Bool) :=
  match after with
  | none => .ok base
  | some cursor =>
    if sort = [] then .error (.queryType "search_after requires at least one sort key")
    else do
      let keyset ← s.keysetAfter sort cursor
      .ok (s.booleanQuery [base, keyset] [] [])

def sortValues (score : F64) (d : StoredDoc K T) : Except IndexError (List SortValue) :=
  sort.mapM (fun key => if key.isScore then .ok (.num score) else s.fastValue d key.field)

def windowedByField (query : StoredDoc K T → Bool) (field : String) (order : SortOrder)
    (limit : Nat) : Except IndexError (List (F64 × StoredDoc K T)) :=
  if field = scoreSortKey then .ok (s.topByScore query limit)
  else do
    let _ ← s.sortColumn field
    .ok ((s.topDocs query field order limit).map (fun d => (⟨0⟩, d)))

def candidateWindow (matching : StoredDoc K T → Bool) (sort : List SortKey) (limit : Nat) :
    Except IndexError (List (F64 × StoredDoc K T)) :=
  match sort with
  | [] => .ok (s.topByScore matching limit)
  | primary :: _ => s.windowedByField matching primary.field primary.order limit

def hitRow (byScore : Bool) (score : F64) (d : StoredDoc K T) : Except IndexError (Row K) := do
  let values ← s.sortValues sort score d
  .ok (⟨d.key, if byScore then score else ⟨0⟩⟩, values)

def searchSorted (query : Query) (limit : Nat) (sort : List SortKey)
    (after : Option (SearchAfter K)) : Except IndexError (List (Row K)) :=
  match query with
  | .knn .. =>
    if sort ≠ [] ∨ after.isSome then
      .error (.queryType "KNN search cannot be combined with a field sort or keyset cursor")
    else do
      let hits ← s.knnSearch query
      .ok ((hits.take limit).map (fun h => (h, [])))
  | _ => do
    let base ← s.build query
    let matching ← s.withCursor base sort after
    if limit = 0 then .ok []
    else
      let window ← s.candidateWindow matching sort limit
      let byScore := sort.head?.all SortKey.isScore
      window.mapM (fun hit => s.hitRow sort byScore hit.1 hit.2)

def scanSorted (query : Query) (sort : List SortKey) (after : Option (SearchAfter K)) :
    Except IndexError (List (Row K)) := do
  let base ← s.build query
  let matching ← s.withCursor base sort after
  (s.docSet matching).mapM (fun d => s.hitRow sort true (if sortHasScore sort then s.explain matching d else ⟨0⟩) d)

def cmpHits (a b : Row K) : Ordering :=
  (match sort with
    | [] => (b.1.score.partialCmp a.1.score).getD .eq
    | _ => cmpSortValues (sort.map SortKey.order) a.2 b.2).then (compare a.1.key b.1.key)

end

def scoreAscPrimary : List SortKey → Bool
  | [key] => key.isScore && key.order == .asc
  | _ => false

variable (query : Query) (k : Nat) (sort : List SortKey)

/-- A page of the hits in their full order. A single key is served from its window, several keys by
scanning every match. -/
def pageWithValues (offset : Nat) (after : Option (SearchAfter K)) : Except IndexError (List (Row K)) := do
  let hits ← if sort.length > 1 ∨ scoreAscPrimary sort = true then s.scanSorted query sort after
    else
      let want := if after.isSome then k else min (k + offset) (2 ^ 64 - 1)
      s.searchSorted query want sort after
  let skip := if after.isSome then 0 else offset
  .ok (((sortBy (cmpHits sort) hits).drop skip).take k)

def pageInValues (offset : Nat) (after : Option (SearchAfter K)) :
    Except IndexError (List (Row K) × Option (SearchAfter K)) := do
  let page ← s.pageWithValues query k sort offset after
  let next := if sort = [] ∨ sortHasScore sort then none
    else page.getLast?.map (fun row => ⟨row.2, row.1.key⟩)
  .ok (page, next)

def searchAfter (after : Option (SearchAfter K)) :
    Except IndexError (List (Row K) × Option (SearchAfter K)) :=
  if sort = [] then .error (.queryType "search_after requires at least one sort key")
  else s.pageInValues query k sort 0 after

end Searcher

open F64 Columns

variable {K T : Type} [LinearOrder K] [LinearOrder T] {cols : Columns T}

variable {a b : Option (Cell T)}

namespace Columns

lemma cmp_orders : Orders cols.cmp (fun _ => True) := by
  constructor
  · intro a b _ _
    cases a <;> cases b <;> simp only [cmp] <;> first | rfl | exact compare.swap _ _ trivial trivial
  · intro a b c _ _ _ hab hbc
    -- values of different kinds are ordered by kind alone
    cases a <;> cases b <;> simp only [cmp] at hab <;> try cases hab
    all_goals cases c <;> simp only [cmp] at hbc ⊢ <;>
      first | rfl | exact compare.trans _ _ _ trivial trivial trivial hab hbc | cases hbc

variable {order : SortOrder}

lemma cmpCell_orders : Orders (cols.cmpCell order) (fun _ => True) := by
  have hdir := SortOrder.dir_orders (cols.cmp_orders) order
  constructor
  · intro a b _ _
    cases a <;> cases b <;> first | rfl | exact hdir.swap _ _ trivial trivial
  · intro a b c _ _ _ hab hbc
    cases a <;> cases b <;> try cases hab
    all_goals cases c <;> first
      | rfl | exact hdir.trans _ _ _ trivial trivial trivial hab hbc | cases hbc

variable (cols) in
def cmpCells : List SortOrder → List (Option (Cell T)) → List (Option (Cell T)) → Ordering
  | [], _, _ => .eq
  | order :: orders, a, b => (cols.cmpCell order (a.headD none) (b.headD none)).then (cmpCells orders a.tail b.tail)

variable (cols) in
def cmpPlace (orders : List SortOrder) (a b : List (Option (Cell T)) × K) : Ordering :=
  (cols.cmpCells orders a.1 b.1).then (compare a.2 b.2)

lemma cmpCells_orders (orders : List SortOrder) : Orders (cols.cmpCells orders) (fun _ => True) := by
  induction orders with
  | nil => exact ⟨fun _ _ _ _ => rfl, fun _ _ _ _ _ _ _ _ => rfl⟩
  | cons order orders ih =>
    exact (cols.cmpCell_orders.comap (List.headD · none) (fun _ _ => trivial)).andThen
      (ih.comap List.tail (fun _ _ => trivial))

lemma cmpPlace_orders (orders : List SortOrder) : Orders (cols.cmpPlace (K := K) orders) (fun _ => True) :=
  ((cols.cmpCells_orders orders).comap Prod.fst (fun _ _ => trivial)).andThen
    (compare.comap Prod.snd (fun _ _ => trivial))

variable (cols) in
def fastOf : Option (Cell T) → SortValue
  | none => .missing
  | some (.i64 n) => .num (F64.ofInt n)
  | some (.f64 x) => .num x
  | some (.date t) => .num (F64.ofInt (cols.intoTimestampMicros t))
  | some (.str v) => .str v

variable (cols) in
/-- What is left of a column value once a cursor has carried it as a sort value. -/
def recast : Option (Cell T) → Option (Cell T)
  | some (.i64 n) => some (.i64 ⟨(F64.ofInt n).toI64, F64.toI64_range _⟩)
  | some (.date t) => some (.date (cols.fromTimestampMicros (F64.ofInt (cols.intoTimestampMicros t)).toI64))
  | cell => cell

end Columns

def StoredDoc.stored (sort : List SortKey) (d : StoredDoc K T) : List (Option (Cell T)) × K :=
  (sort.map (fun key => d.cell key.field), d.key)

def StoredDoc.cursorPlace (cols : Columns T) (sort : List SortKey) (d : StoredDoc K T) :
    List (Option (Cell T)) × K :=
  (sort.map (fun key => cols.recast (d.cell key.field)), d.key)

def Columns.passes (cols : Columns T) (sort : List SortKey) (h d : StoredDoc K T) : Bool :=
  cols.cmpPlace (sort.map SortKey.order) (h.cursorPlace cols sort) (d.stored sort) == .lt

lemma Columns.passes_iff {sort : List SortKey} {h d : StoredDoc K T} : cols.passes sort h d ↔
      cols.cmpPlace (sort.map order) (h.cursorPlace cols sort) (d.stored sort) = .lt :=
  beq_iff_eq

lemma Columns.passes_chain {sort : List SortKey} {a b d : StoredDoc K T}
    (hab : cols.passes sort a b) (hbd : cols.passes sort b d)
    (hbb : cols.passes sort b b = false) : cols.passes sort a d := by
  have horders := cols.cmpPlace_orders (K := K) (sort.map order)
  rw [passes_iff] at hab hbd ⊢
  have hle : (cols.cmpPlace (sort.map order) (b.stored sort)
      (b.cursorPlace cols sort)).isLE := by
    rw [horders.swap _ _ trivial trivial]
    unfold passes at hbb
    cases hc : cols.cmpPlace (sort.map order) (b.cursorPlace cols sort) (b.stored sort) <;>
      rw [hc] at hbb <;> first | rfl | cases hbb
  have hbd' := horders.lt_of_le_of_lt trivial trivial trivial hle hbd
  exact horders.lt_of_lt_of_le trivial trivial trivial hab (by rw [hbd']; rfl)

variable {order : SortOrder}

def SameKind (a b : Option (Cell T)) : Prop :=
  ∀ x y, a = some x → b = some y → x.type = y.type

lemma fastOf_comparable
    (h : ∀ x, a = some (.f64 x) → x.isNan = false) : (cols.fastOf a).Comparable := by
  rcases a with _ | (n | x | t | v)
  · trivial
  · exact isNan_ofInt n.2
  · exact h x rfl
  · exact isNan_ofInt (cols.micros_range t)
  · trivial

lemma cmpSortValue_num (hx : x.isNan = false) (hy : y.isNan = false) :
    cmpSortValue (.num x) (.num y) order = order.dir (compare x.rank y.rank) := by
  simp [cmpSortValue, partialCmp, hx, hy]

lemma dir_compare_isLE {A : Type} [LinearOrder A] {a b : A} :
    (order.dir (compare a b)).isLE ↔ match order with
      | .asc => a ≤ b
      | .desc => b ≤ a := by
  cases order with
  | asc => exact isLE_iff_ne_gt.trans compare_le_iff_le
  | desc =>
    simp only [SortOrder.dir]
    rw [← compare.swap a b trivial trivial]
    exact isLE_iff_ne_gt.trans compare_le_iff_le

lemma fastOf_mono (hkind : SameKind a b)
    (ha : ∀ x, a = some (.f64 x) → x.isNan = false) (hb : ∀ x, b = some (.f64 x) → x.isNan = false)
    (h : (cols.cmpCell order a b).isLE) :
    (cmpSortValue (cols.fastOf a) (cols.fastOf b) order).isLE := by
  rcases a with _ | a <;> rcases b with _ | b
  · rfl
  · cases h
  · rcases a with n | x | t | v <;> rfl
  have htype := hkind a b rfl rfl
  rcases a with n | x | t | v <;> rcases b with m | y | t' | v' <;> try cases htype
  · simp only [fastOf]
    rw [cmpSortValue_num (isNan_ofInt n.2) (isNan_ofInt m.2), dir_compare_isLE]
    have h := dir_compare_isLE.mp h
    cases order with
    | asc => exact rank_ofInt_mono n.2 m.2 h
    | desc => exact rank_ofInt_mono m.2 n.2 h
  · have hx := ha x rfl
    have hy := hb y rfl
    have hkey : ∀ x y : F64, x.isNan = false → y.isNan = false →
        cols.floatKey x ≤ cols.floatKey y → x.rank ≤ y.rank := by
      intro x y hx hy hle
      by_contra hlt
      exact absurd (cols.floatKey_mono y x hy hx (not_le.mp hlt)) (not_lt.mpr hle)
    simp only [fastOf]
    rw [cmpSortValue_num hx hy, dir_compare_isLE]
    have h := dir_compare_isLE.mp h
    cases order with
    | asc => exact hkey x y hx hy h
    | desc => exact hkey y x hy hx h
  · have hr := cols.micros_range
    simp only [fastOf]
    rw [cmpSortValue_num (isNan_ofInt (hr t)) (isNan_ofInt (hr t')), dir_compare_isLE]
    have h := dir_compare_isLE.mp h
    cases order with
    | asc => exact rank_ofInt_mono (hr t) (hr t') (cols.micros_mono _ _ h)
    | desc => exact rank_ofInt_mono (hr t') (hr t) (cols.micros_mono _ _ h)
  · exact h

lemma recast_kind (a : Option (Cell T)) : SameKind a (cols.recast a) := by
  intro x y hx hy
  subst hx
  rcases x with n | x | t | v <;> obtain rfl := Option.some.inj hy <;> rfl

lemma fastOf_recast (ha : ∀ x, a = some (.f64 x) → x.isNan = false) :
    cmpSortValue (cols.fastOf (cols.recast a)) (cols.fastOf a) order = .eq := by
  have heven : ∀ n m : Int, InI64 n → InI64 m → (ofInt n).rank = (ofInt m).rank →
      cmpSortValue (.num (ofInt n)) (.num (ofInt m)) order = .eq := by
    intro n m hn hm hrank
    rw [cmpSortValue_num (isNan_ofInt hn) (isNan_ofInt hm), hrank, compare_eq_iff_eq.mpr rfl]
    cases order <;> rfl
  rcases a with _ | (n | x | t | v)
  · rfl
  · exact heven _ _ (toI64_range _) n.2 (rank_ofInt_toI64 n.2)
  · have hx := ha x rfl
    simp only [recast, fastOf]
    rw [cmpSortValue_num hx hx, compare_eq_iff_eq.mpr rfl]
    cases order <;> rfl
  · have hr := cols.micros_range t
    have hback := cols.micros_from t
    simp only [recast, fastOf, hback]
    exact heven _ _ (toI64_range _) hr (rank_ofInt_toI64 hr)
  · simp only [recast, fastOf, cmpSortValue]
    rw [compare_eq_iff_eq.mpr rfl]
    cases order <;> rfl

lemma rank_of_even (hx : x.isNan = false) (hy : y.isNan = false)
    (h : cmpSortValue (.num x) (.num y) order = .eq) : x.rank = y.rank := by
  rw [cmpSortValue_num hx hy] at h
  cases order with
  | asc => exact compare_eq_iff_eq.mp h
  | desc => exact compare_eq_iff_eq.mp (swap_eq_eq.mp h)

lemma toI64_of_even (hn : InI64 n) (hm : InI64 m)
    (h : cmpSortValue (.num (ofInt n)) (.num (ofInt m)) order = .eq) :
    (ofInt n).toI64 = (ofInt m).toI64 :=
  toI64_congr (isNan_ofInt hn) (isNan_ofInt hm)
    (rank_of_even (isNan_ofInt hn) (isNan_ofInt hm) h)

lemma recast_even (hkind : SameKind a b)
    (h : cmpSortValue (cols.fastOf a) (cols.fastOf b) order = .eq) :
    cols.recast a = cols.recast b ∨ cols.recast a = a := by
  rcases a with _ | a
  · exact .inr rfl
  rcases b with _ | b
  · rcases a with n | x | t | v <;> cases h
  have htype := hkind a b rfl rfl
  rcases a with n | x | t | v <;> rcases b with m | y | t' | v' <;> try cases htype
  · exact .inl (by simp only [recast, toI64_of_even n.2 m.2 h])
  · exact .inr rfl
  · exact .inl (by simp only [recast, toI64_of_even (cols.micros_range t) (cols.micros_range t') h])
  · exact .inr rfl

lemma isLE_of_then_lt {a b : Ordering} (h : a.then b = .lt) : a.isLE := by
  cases a <;> first | rfl | cases h

lemma recast_not_nan (ha : ∀ x, a = some (.f64 x) → x.isNan = false) :
    ∀ x, cols.recast a = some (.f64 x) → x.isNan = false := by
  intro x hx
  rcases a with _ | (n | y | t | v) <;> cases hx
  exact ha x rfl

lemma SameKind.recast (h : SameKind a b) : SameKind a (cols.recast b) := by
  intro x y hx hy
  rcases b with _ | z
  · cases hy
  · exact (h x z hx rfl).trans (recast_kind (some z) z y rfl hy)

/-- Three documents in order, where the column has `g` no later than `b`: if `b` lets `g` through and `a` lets `b`
through, `a` lets `g` through. -/
lemma window_law {g : Option (Cell T)} {ka kb kg : K} (hkab : SameKind a b)
    (hkga : SameKind g a) (hkgb : SameKind g b) (hna : ∀ x, a = some (.f64 x) → x.isNan = false)
    (hnb : ∀ x, b = some (.f64 x) → x.isNan = false) (hng : ∀ x, g = some (.f64 x) → x.isNan = false)
    (hab : (cmpSortValue (cols.fastOf a) (cols.fastOf b) order).then (compare ka kb) = .lt)
    (hbg : (cmpSortValue (cols.fastOf b) (cols.fastOf g) order).then (compare kb kg) = .lt)
    (hpab : (cols.cmpCell order (cols.recast a) b).then (compare ka kb) = .lt)
    (hpbg : (cols.cmpCell order (cols.recast b) g).then (compare kb kg) = .lt)
    (hgb : (cols.cmpCell order g b).isLE) :
    (cols.cmpCell order (cols.recast a) g).then (compare ka kg) = .lt := by
  have hcells : Orders (cols.cmpCell order) (fun _ => True) := cols.cmpCell_orders
  have hvals := cmpSortValue_orders order
  have hca : (cols.fastOf a).Comparable := fastOf_comparable hna
  have hcb : (cols.fastOf b).Comparable := fastOf_comparable hnb
  have hcg : (cols.fastOf g).Comparable := fastOf_comparable hng
  by_cases hlt : cols.cmpCell order (cols.recast a) g = .lt
  · rw [hlt]
    rfl
  have hle : (cols.cmpCell order g (cols.recast a)).isLE := by
    rw [hcells.swap _ _ trivial trivial]
    cases hc : cols.cmpCell order (cols.recast a) g <;> first | rfl | exact absurd hc hlt
  -- now all three have even sort values
  have hbg_val := isLE_of_then_lt hbg
  have hgb_val := fastOf_mono hkgb hng hnb hgb
  have hga_val : (cmpSortValue (cols.fastOf g) (cols.fastOf a) order).isLE := by
    refine hvals.trans _ _ _ hcg (fastOf_comparable (recast_not_nan hna)) hca
      (fastOf_mono hkga.recast hng (recast_not_nan hna) hle) ?_
    rw [fastOf_recast hna]
    rfl
  have htie_bg := hvals.eq_of_le_of_ge hcb hcg hbg_val hgb_val
  have htie_ab := hvals.eq_of_le_of_ge hca hcb (isLE_of_then_lt hab)
    (hvals.trans _ _ _ hcb hcg hca hbg_val hga_val)
  rw [htie_ab] at hab
  rw [htie_bg] at hbg
  have hkeys : compare ka kg = .lt :=
    compare_lt_iff_lt.mpr ((compare_lt_iff_lt.mp hab).trans (compare_lt_iff_lt.mp hbg))
  have hcase : (cols.cmpCell order (cols.recast a) g).isLE := by
    have htie_ba : cmpSortValue (cols.fastOf b) (cols.fastOf a) order = .eq := by
      rw [cmpSortValue_swap, htie_ab]
      rfl
    rcases recast_even (fun x y hx hy => (hkab y x hy hx).symm) htie_ba with hsame | hid
    · rw [← hsame]
      exact isLE_of_then_lt hpbg
    · rw [hid] at hpbg
      exact hcells.trans _ _ _ trivial trivial trivial (isLE_of_then_lt hpab) (isLE_of_then_lt hpbg)
  rw [hcells.eq_of_le_of_ge trivial trivial hcase hle]
  exact hkeys

end GrowlerDB.Index
