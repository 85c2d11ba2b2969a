import GrowlerDB.Connector.Relocating
import GrowlerDB.Core.Rebalance

namespace GrowlerDB.Connector
open Core Lib BucketMap List

variable {n m : Nat} {plan : Reassignment}

lemma growth_accepts (hgrow : n < m) (hserved : ∀ ord < m, (nodes ord).isSome)
    (h : ∀ e ∈ plan.moved, n ≤ e.2.2.toNat) : ∃ growth, planGrowthReshard nodes plan n m = .ok growth := by
  have hnone : plan.moved.find? (fun e => e.2.2.toNat < n) = none :=
    find?_eq_none.mpr fun e he => by simpa using h e he
  rw [planGrowthReshard, if_neg (Nat.not_le_of_lt hgrow), hnone]
  dsimp only
  rw [mapM_eq_ok (g := fun ord => (ord, (nodes ord).getD "")) fun ord hord => ?_]
  · exact ⟨_, rfl⟩
  · obtain ⟨node, hnode⟩ := Option.isSome_iff_exists.mp (hserved ord (mem_range.mp hord))
    rw [hnode]
    rfl

lemma fills_new_iff {map : BucketMap} (hr : Reassigned map m plan) (h : map.Balanced n)
    (hgrow : n < m) : (∀ e ∈ plan.moved, n ≤ e.2.2.toNat) ↔ ∀ s < n, target m s ≤ map.owned s := by
  refine ⟨fun hall s hs => ?_, fun hshares e he => ?_⟩
  · by_contra hlt
    rw [not_le, ← hr.shares s (by omega)] at hlt
    obtain ⟨b, hnew, hold⟩ := exists_gained hlt
    obtain ⟨_, -, ho⟩ := exists_ownerAt (lt_of_ownerAt hnew) h.below
    obtain ⟨source, hsource, -⟩ := Option.map_eq_some_iff.mp ho
    obtain ⟨dest, hdest, rfl⟩ := Option.map_eq_some_iff.mp hnew
    refine absurd (hall _ ((hr.moved b source dest).mpr ⟨hsource, hdest, fun heq => hold ?_⟩)) (Nat.not_le_of_lt hs)
    rw [ownerAt, hsource, heq]
    rfl
  · by_contra hlt
    have := hr.short e he
    have := hshares _ (Nat.lt_of_not_le hlt)
    omega

/-- Growing an even map is accepted exactly if every shard owns its new share already. Then all buckets move from the
old shards to the new ones. -/
theorem growth_accepted_iff {map : BucketMap} (h : map.Balanced n) (hgrow : n < m) (hm : m ≤ Core.numBuckets.toNat)
    (hserved : ∀ ord < m, (nodes ord).isSome) : ∃ plan, map.reassign m = some plan ∧
      ((∃ growth, planGrowthReshard nodes plan n m = .ok growth) ↔ ∀ s < n, target m s ≤ map.owned s) ∧
      ((∃ growth, planGrowthReshard nodes plan n m = .ok growth) ↔
        ∀ e ∈ plan.moved, e.2.1.toNat < n ∧ n ≤ e.2.2.toNat) := by
  obtain ⟨plan, hplan, hr⟩ := reassign_spec map (n := m) (by omega) (hm.trans_lt (by decide))
  have haccepts : (∃ growth, planGrowthReshard nodes plan n m = .ok growth) ↔ ∀ e ∈ plan.moved, n ≤ e.2.2.toNat :=
    ⟨fun ⟨_, hok⟩ => (planGrowthReshard_ok hok).2.2.1, growth_accepts hgrow hserved⟩
  refine ⟨plan, hplan, haccepts.trans (fills_new_iff hr h hgrow), haccepts.trans (forall₂_congr fun e he => ?_)⟩
  exact (and_iff_right (h.below _ (mem_of_getElem? ((hr.moved _ _ _).mp he).1))).symm

def staffed (_ : Nat) : Option String := some "node"

theorem growth_accepted_three : ∃ plan, secondLarger.reassign 4 = some plan ∧
    ∃ growth, planGrowthReshard staffed plan 3 4 = .ok growth := by
  have hserved : ∀ ord < 4, (staffed ord).isSome := fun _ _ => rfl
  obtain ⟨plan, hplan, hiff, -⟩ := growth_accepted_iff secondLarger_balanced.1 (by decide) (by decide) hserved
  refine ⟨plan, hplan, hiff.mpr ?_⟩
  simp only [owned_secondLarger]
  decide

/-- A bucket for each of 1022 shards, and one more for the last two. -/
def lastLarger : BucketMap :=
  ⟨(range 1022 ++ [1020, 1021]).map (BitVec.ofNat 32), by rw [length_map, length_append, length_range]; rfl⟩

lemma owned_lastLarger (hs : s < 1022) : lastLarger.owned s = 1 + if 1020 ≤ s then 1 else 0 := by
  have hone : (range 1022).countP (fun b => (BitVec.ofNat 32 b).toNat = s) = 1 := by
    rw [countP_congr (q := (· == s)) fun b hb => ?_, ← count_eq_countP, nodup_range.count,
      if_pos (mem_range.mpr hs)]
    have := mem_range.mp hb
    simp
    omega
  simp only [owned, lastLarger, countP_map, countP_append]
  refine congrArg₂ _ hone ?_
  simp [countP_cons]
  split_ifs <;> omega

lemma lastLarger_balanced : lastLarger.Balanced 1022 ∧ lastLarger.Dense := by
  have hbelow : ∀ o ∈ lastLarger.owners, o.toNat < 1022 := by
    simp only [lastLarger, forall_mem_map, BitVec.toNat_ofNat]
    intro b hb
    simp at hb
    omega
  refine balanced_of_even (by decide) (by decide +kernel) hbelow ⟨sum_owned hbelow, fun s hs t ht => ?_⟩
  rw [owned_lastLarger hs, owned_lastLarger ht]
  split_ifs <;> omega

/-- Shard 0 of 1023 is to own two buckets, and takes one from another old shard. -/
theorem growth_rejected : lastLarger.Dense ∧ lastLarger.Balanced 1022 ∧ ∃ plan, lastLarger.reassign 1023 = some plan ∧
    ∀ nodes growth, planGrowthReshard nodes plan 1022 1023 ≠ .ok growth := by
  obtain ⟨plan, hplan, hr⟩ := reassign_spec lastLarger (n := 1023) (by decide) (by decide)
  refine ⟨lastLarger_balanced.2, lastLarger_balanced.1, plan, hplan, fun nodes growth hok => ?_⟩
  have hshare := (fills_new_iff hr lastLarger_balanced.1 (by decide)).mp (planGrowthReshard_ok hok).2.2.1 0 (by decide)
  rw [owned_lastLarger (by decide)] at hshare
  revert hshare
  decide

end GrowlerDB.Connector
