import Mathlib.Tactic.SplitIfs

namespace GrowlerDB.Lib

/-- A document under optimistic locking. -/
structure Versioned (D : Type) where
  doc : D
  version : Nat

namespace Versioned

variable {D : Type} {s s' : Versioned D} {v w : Nat} {d : D} {P Q : D → Prop}

/-- A write that names the version it was read at. A document of version 0 takes any. -/
def swap (s : Versioned D) (expected : Nat) (d : D) : Option (Versioned D) :=
  if s.version = 0 ∨ s.version = expected then some ⟨d, expected + 1⟩ else none

/-- The version was current at some time, and if it still is then `P` holds of the document. -/
def AsOf (s : Versioned D) (v : Nat) (P : D → Prop) : Prop := v ≤ s.version ∧ (v = s.version → P s.doc)

lemma asOf_current (h : P s.doc) : s.AsOf s.version P := ⟨Nat.le_refl _, fun _ => h⟩

lemma AsOf.mono (h : s.AsOf v P) (hPQ : ∀ d, P d → Q d) : s.AsOf v Q :=
  ⟨h.1, fun hv => hPQ _ (h.2 hv)⟩

lemma AsOf.swap (h : s.AsOf v P) (hs : s.swap v d = some s') :
    P s.doc ∧ s'.doc = d ∧ v = s.version ∧ s'.version = s.version + 1 := by
  unfold Versioned.swap at hs
  split_ifs at hs with hc
  have hv : v = s.version := by
    have := h.1
    omega
  cases hs
  exact ⟨h.2 hv, rfl, hv, by rw [hv]⟩

lemma AsOf.stale (h : s.AsOf v P) (hs : s'.version = s.version + 1) : s'.AsOf v Q := by
  have := h.1
  exact ⟨by omega, fun hv => by omega⟩

end Versioned

end GrowlerDB.Lib
