import GrowlerDB.Lib.Machine

namespace GrowlerDB.Core
open Lib

inductive MatchOp
  | and
  | or

inductive Query
  | matchAll
  | term (field : Option String) (value : String)
  | terms (field : String) (values : List String)
  | matchText (field : Option String) (text : String) (op : MatchOp)
  | phrase (field : Option String) (terms : List String) (slop : Nat)
  | startsWith (field : Option String) (stem : String)
  | wildcard (field : Option String) (pattern : String)
  | fuzzy (field : Option String) (value : String) (distance : Nat)
  | regex (field : Option String) (pattern : String)
  | fieldExists (field : String)
  | range (field : String) (lower : Option String) (lowerInclusive : Bool) (upper : Option String)
      (upperInclusive : Bool)
  | ipCidr (field cidr : String)
  | bool (must should mustNot filter : List Query)
  | boost (query : Query) (factor : BitVec 32)
  | knn (field : String) (vector : List (BitVec 32)) (k : Nat) (filter : Option Query)

def Query.andFilter (q : Query) (field value : String) : Query :=
  .bool [q] [] [] [.term (some field) value]

def Query.withKnnFilter (q : Query) (extra : Query) : Query :=
  match q with
  | .knn field vector k none => .knn field vector k (some extra)
  | .knn field vector k (some existing) => .knn field vector k (some (.bool [] [] [] [existing, extra]))
  | other => other

def narrow (acc bounds : Option Int × Option Int) : Option Int × Option Int :=
  (match bounds.1 with | some l => some (acc.1.elim l (max · l)) | none => acc.1,
   match bounds.2 with | some h => some (acc.2.elim h (min · h)) | none => acc.2)

mutual

def Query.rangeBounds (field : String) : Query → Option Int × Option Int
  | .range f lower _ upper _ => if f = field then (lower.bind Text.parseI64, upper.bind Text.parseI64) else (none, none)
  | .bool must _ _ filter => Query.narrowAll field (Query.narrowAll field (none, none) must) filter
  | _ => (none, none)

def Query.narrowAll (field : String) (acc : Option Int × Option Int) :
    List Query → Option Int × Option Int
  | [] => acc
  | q :: qs => Query.narrowAll field (narrow acc (q.rangeBounds field)) qs

end

def Admits (bounds : Option Int × Option Int) (x : Int) : Prop :=
  (∀ l, bounds.1 = some l → l ≤ x) ∧ ∀ h, bounds.2 = some h → x ≤ h

lemma Admits.narrow (ha : Admits acc x) (hb : Admits bounds x) : Admits (narrow acc bounds) x := by
  obtain ⟨alo, ahi⟩ := acc
  obtain ⟨blo, bhi⟩ := bounds
  constructor
  · intro l hl
    cases blo with
    | none => exact ha.1 l hl
    | some b =>
      cases alo with
      | none => exact hb.1 l hl
      | some a =>
        obtain rfl : max a b = l := by simpa [Core.narrow] using hl
        exact max_le (ha.1 a rfl) (hb.1 b rfl)
  · intro h hh
    cases bhi with
    | none => exact ha.2 h hh
    | some b =>
      cases ahi with
      | none => exact hb.2 h hh
      | some a =>
        obtain rfl : min a b = h := by simpa [Core.narrow] using hh
        exact le_min (ha.2 a rfl) (hb.2 b rfl)

lemma Admits.narrowAll (ha : Admits acc x) (hq : ∀ q ∈ qs, Admits (q.rangeBounds field) x) :
    Admits (Query.narrowAll field acc qs) x := by
  induction qs generalizing acc with
  | nil => exact ha
  | cons q qs ih =>
    rw [Query.narrowAll]
    exact ih (ha.narrow (hq q List.mem_cons_self)) (fun r hr => hq r (List.mem_cons_of_mem _ hr))

end GrowlerDB.Core
