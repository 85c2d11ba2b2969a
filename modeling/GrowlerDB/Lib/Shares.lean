import Mathlib.Algebra.BigOperators.Group.Finset.Basic
import Mathlib.Algebra.BigOperators.Ring.Finset
import Mathlib.Algebra.Order.BigOperators.Group.Finset

namespace GrowlerDB.Lib
open Finset

structure EvenShares (n total : Nat) (c : Nat → Nat) : Prop where
  sum_eq : ∑ s ∈ range n, c s = total
  near : ∀ s < n, ∀ t < n, c s ≤ c t + 1

/-- The even shares that give the remainder to the first places. -/
def firstShare (n total s : Nat) : Nat := total / n + if s < total % n then 1 else 0

lemma sum_ones (h : k ≤ n) : ∑ s ∈ range n, (if s < k then 1 else 0) = k := by
  have hfilter : (range n).filter (· < k) = range k := by
    ext s
    simp only [mem_filter, mem_range]
    omega
  rw [sum_boole, hfilter, card_range, Nat.cast_id]

lemma sum_firstShare (total : Nat) (hn : 0 < n) : ∑ s ∈ range n, firstShare n total s = total := by
  unfold firstShare
  rw [sum_add_distrib, sum_ones (Nat.mod_lt total hn).le, sum_const_nat fun _ _ => rfl, card_range]
  exact Nat.div_add_mod _ _

lemma EvenShares.first (total : Nat) (hn : 0 < n) : EvenShares n total (firstShare n total) := by
  refine ⟨sum_firstShare total hn, fun s _ t _ => ?_⟩
  unfold firstShare
  split <;> split <;> omega

namespace EvenShares
variable {n total : Nat} {c : Nat → Nat}

variable (h : EvenShares n total c)
include h

lemma quotient_le (hs : s < n) : total / n ≤ c s := by
  by_contra hlt
  -- One place below the quotient keeps every place at the quotient or below.
  have hall : ∀ t ∈ range n, c t ≤ total / n := by
    intro t ht
    have := h.near t (mem_range.mp ht) s hs
    omega
  have hsum := sum_lt_sum hall ⟨s, mem_range.mpr hs, Nat.lt_of_not_le hlt⟩
  rw [h.sum_eq, sum_const_nat fun _ _ => rfl, card_range] at hsum
  have := Nat.mul_div_le total n
  omega

lemma le_succ_quotient (hs : s < n) : c s ≤ total / n + 1 := by
  by_contra hlt
  have hall : ∀ t ∈ range n, total / n + 1 ≤ c t := by
    intro t ht
    have := h.near s hs t (mem_range.mp ht)
    omega
  have hsum := sum_lt_sum hall ⟨s, mem_range.mpr hs, Nat.lt_of_not_le hlt⟩
  rw [h.sum_eq, sum_const_nat fun _ _ => rfl, card_range] at hsum
  have := Nat.lt_mul_div_succ total (Nat.zero_lt_of_lt hs)
  omega

lemma sum_over : ∑ s ∈ range n, (c s - total / n) = total % n := by
  have hsplit : ∑ s ∈ range n, (c s - total / n) + ∑ s ∈ range n, total / n = ∑ s ∈ range n, c s := by
    rw [← sum_add_distrib]
    exact sum_congr rfl fun s hs => Nat.sub_add_cancel (h.quotient_le (mem_range.mp hs))
  rw [h.sum_eq, sum_const_nat fun _ _ => rfl, card_range] at hsplit
  have := Nat.div_add_mod total n
  omega

lemma sum_min (o : Nat → Nat) : ∑ s ∈ range n, min (o s) (c s) = ∑ s ∈ range n, min (o s) (total / n) +
      ∑ s ∈ range n, (if total / n < o s then c s - total / n else 0) := by
  rw [← sum_add_distrib]
  refine sum_congr rfl fun s hs => ?_
  have hlow := h.quotient_le (mem_range.mp hs)
  have hhigh := h.le_succ_quotient (mem_range.mp hs)
  split_ifs <;> omega

/-- No even shares have more in common with the counts than those for the first places, if the first all have more
than the quotient or the others all have no more. -/
lemma sum_min_le (hn : 0 < n) {o : Nat → Nat}
    (ho : (∀ s < total % n, total / n < o s) ∨ ∀ s, total % n ≤ s → s < n → o s ≤ total / n) :
    ∑ s ∈ range n, min (o s) (c s) ≤ ∑ s ∈ range n, min (o s) (firstShare n total s) := by
  rw [h.sum_min o, (first total hn).sum_min o]
  apply Nat.add_le_add_left
  have hextra : ∀ s, firstShare n total s - total / n = if s < total % n then 1 else 0 :=
    fun s => Nat.add_sub_cancel_left _ _
  simp only [hextra]
  rcases ho with hfirst | hothers
  · calc ∑ s ∈ range n, (if total / n < o s then c s - total / n else 0)
        ≤ ∑ s ∈ range n, (c s - total / n) := sum_le_sum fun s _ => by split_ifs <;> omega
      _ = ∑ s ∈ range n, (if s < total % n then 1 else 0) := by rw [h.sum_over, sum_ones (Nat.mod_lt total hn).le]
      _ ≤ ∑ s ∈ range n, (if total / n < o s then (if s < total % n then 1 else 0) else 0) := by
          refine sum_le_sum fun s _ => ?_
          by_cases hs : s < total % n
          · rw [if_pos (hfirst s hs)]
          · rw [if_neg hs]
            exact Nat.zero_le _
  · refine sum_le_sum fun s hs => ?_
    have hhigh := h.le_succ_quotient (mem_range.mp hs)
    have hnone := fun hge => hothers s hge (mem_range.mp hs)
    split_ifs <;> omega

end EvenShares
end GrowlerDB.Lib
