import GrowlerDB.Core.Doc
import GrowlerDB.Lib.Ranking
import Mathlib.Data.String.Basic

namespace GrowlerDB.Core
open Lib Ranking

inductive SortOrder
  | asc
  | desc
  deriving DecidableEq

def scoreSortKey : String := "_score"

structure SortKey where
  field : String
  order : SortOrder

def SortKey.isScore (s : SortKey) : Bool := s.field == scoreSortKey

def sortHasScore (sort : List SortKey) : Bool := sort.any SortKey.isScore

/-- What a document has in a sort field. -/
inductive SortValue
  | missing
  | num (x : F64)
  | str (s : String)
  deriving DecidableEq

def SortOrder.dir (order : SortOrder) (c : Ordering) : Ordering :=
  match order with
  | .asc => c
  | .desc => c.swap

/-- A missing value stands last in both directions. NaN compares equal to every number. -/
def cmpSortValue (a b : SortValue) (order : SortOrder) : Ordering :=
  match a, b with
  | .missing, .missing => .eq
  | .missing, _ => .gt
  | _, .missing => .lt
  | .num x, .num y => order.dir ((x.partialCmp y).getD .eq)
  | .str x, .str y => order.dir (compare x y)
  | .num _, .str _ => .lt
  | .str _, .num _ => .gt

/-- Key by key; a value that the list lacks is missing. -/
def cmpSortValues : List SortOrder → List SortValue → List SortValue → Ordering
  | [], _, _ => .eq
  | order :: orders, a, b =>
    (cmpSortValue (a.headD .missing) (b.headD .missing) order).then
      (cmpSortValues orders a.tail b.tail)

/-- A place in a ranking: the sort values of a hit, and its key, which breaks ties. -/
structure SearchAfter (K : Type) where
  sortValues : List SortValue
  key : K

def SearchAfter.cmp {K : Type} [LinearOrder K] (orders : List SortOrder) (a b : SearchAfter K) :
    Ordering :=
  (cmpSortValues orders a.sortValues b.sortValues).then (compare a.key b.key)

/-- Without NaN the comparison is an order. -/
def SortValue.Comparable : SortValue → Prop
  | .num x => x.isNan = false
  | _ => True

lemma SortOrder.dir_swap (order : SortOrder) (c : Ordering) : order.dir c.swap = (order.dir c).swap := by
  cases order <;> rfl

lemma cmpSortValue_swap (order : SortOrder) (a b : SortValue) :
    cmpSortValue b a order = (cmpSortValue a b order).swap := by
  have hnum : ∀ x y : F64, (y.partialCmp x).getD .eq = ((x.partialCmp y).getD .eq).swap := by
    intro x y
    unfold F64.partialCmp
    rw [Bool.or_comm]
    split
    · rfl
    · exact (Std.OrientedCmp.eq_swap : compare y.rank x.rank = _)
  cases a with
  | missing => cases b <;> rfl
  | num x =>
    cases b with
    | num y => rw [cmpSortValue, cmpSortValue, hnum, SortOrder.dir_swap]
    | missing => rfl
    | str y => rfl
  | str x =>
    cases b with
    | str y => rw [cmpSortValue, cmpSortValue, ← SortOrder.dir_swap, ← Std.OrientedCmp.eq_swap]
    | missing => rfl
    | num y => rfl

lemma SortOrder.dir_orders {A : Type} {cmp : A → A → Ordering} {s : A → Prop}
    (h : Orders cmp s) (order : SortOrder) : Orders (fun a b => order.dir (cmp a b)) s := by
  cases order with
  | asc => exact h
  | desc =>
    refine ⟨fun a b ha hb => ?_, fun a b c ha hb hc hab hbc => ?_⟩
    · simp only [SortOrder.dir]
      rw [h.swap a b ha hb]
    · simp only [SortOrder.dir] at hab hbc ⊢
      rw [← h.swap a b ha hb] at hab
      rw [← h.swap b c hb hc] at hbc
      rw [← h.swap a c ha hc]
      exact h.trans c b a hc hb ha hbc hab

lemma partialCmp_orders : Orders (fun x y : F64 => (x.partialCmp y).getD .eq) (·.isNan = false) := by
  have h : Orders (fun x y : F64 => compare x.rank y.rank) (·.isNan = false) :=
    Orders.compare.comap F64.rank (fun _ _ => trivial)
  have heq : ∀ x y : F64, x.isNan = false → y.isNan = false →
      (x.partialCmp y).getD .eq = compare x.rank y.rank := by
    intro x y hx hy
    simp [F64.partialCmp, hx, hy]
  refine ⟨fun a b ha hb => ?_, fun a b c ha hb hc => ?_⟩
  · rw [heq a b ha hb, heq b a hb ha]
    exact h.swap a b ha hb
  · rw [heq a b ha hb, heq b c hb hc, heq a c ha hc]
    exact h.trans a b c ha hb hc

/-- One sort key orders the values that are comparable. -/
lemma cmpSortValue_orders (order : SortOrder) :
    Orders (fun a b => cmpSortValue a b order) SortValue.Comparable := by
  refine ⟨fun a b _ _ => cmpSortValue_swap order a b, fun a b c ha hb hc => ?_⟩
  have hnum := SortOrder.dir_orders partialCmp_orders order
  have hstr := SortOrder.dir_orders (Orders.compare : Orders (compare : String → String → Ordering) _) order
  cases a <;> cases b <;> cases c <;> simp only [cmpSortValue] <;> try simp
  · exact hnum.trans _ _ _ ha hb hc
  · exact hstr.trans _ _ _ trivial trivial trivial

lemma cmpSortValues_orders (orders : List SortOrder) :
    Orders (cmpSortValues orders) (fun vs => ∀ v ∈ vs, v.Comparable) := by
  induction orders with
  | nil => exact ⟨fun _ _ _ _ => rfl, fun _ _ _ _ _ _ _ _ => rfl⟩
  | cons order orders ih =>
    have hhead : ∀ vs : List SortValue, (∀ v ∈ vs, v.Comparable) →
        (vs.headD .missing).Comparable := by
      intro vs hvs
      cases vs with
      | nil => trivial
      | cons v vs => exact hvs v List.mem_cons_self
    have htail : ∀ vs : List SortValue, (∀ v ∈ vs, v.Comparable) →
        ∀ v ∈ vs.tail, v.Comparable := fun vs hvs v hv => hvs v (List.mem_of_mem_tail hv)
    exact ((cmpSortValue_orders order).comap (List.headD · .missing) hhead).andThen
      (ih.comap List.tail htail)

/-- Places of comparable values are totally ordered. -/
lemma SearchAfter.cmp_orders {K : Type} [LinearOrder K] (orders : List SortOrder) :
    Orders (SearchAfter.cmp (K := K) orders) (fun c => ∀ v ∈ c.sortValues, v.Comparable) :=
  ((cmpSortValues_orders orders).comap SearchAfter.sortValues (fun _ h => h)).andThen
    (Orders.compare.comap SearchAfter.key (fun _ _ => trivial))

end GrowlerDB.Core
