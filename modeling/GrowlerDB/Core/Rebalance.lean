import GrowlerDB.Core.Routing
import GrowlerDB.Lib.Shares
import Mathlib.Data.List.Nodup
import Mathlib.Data.List.Range

namespace GrowlerDB.Core.BucketMap
open Finset Lib Function Option Nat

def ownerAt (owners : List (BitVec 32)) (b : Nat) : Option Nat := (owners[b]?).map BitVec.toNat

lemma target_eq (n s : Nat) : target n s = firstShare n numBuckets.toNat s := rfl

variable {n : Nat}

lemma sum_target (hn : 1 ≤ n) : ∑ s ∈ range n, target n s = numBuckets.toNat := by
  simp only [target_eq]
  exact sum_firstShare _ hn

lemma update_le_target (hle : ∀ s, held s ≤ target n s) (hroom : held m < target n m) :
    ∀ s, update held m (held m + 1) s ≤ target n s :=
  (forall_update_iff held fun s c => c ≤ target n s).mpr ⟨hroom, fun s _ => hle s⟩

lemma keep_spec (n : Nat) (before rest : List (BitVec 32)) (held : Nat → Nat)
    (hle : ∀ s, held s ≤ target n s) :
    ∃ kept : List Nat, (kept ++ (keep n before.length rest held).2).Perm (List.range' before.length rest.length) ∧
      (∀ s, (keep n before.length rest held).1 s =
        held s + kept.countP (fun b => ownerAt (before ++ rest) b = some s)) ∧
      (∀ b ∈ kept, ∃ s < n, ownerAt (before ++ rest) b = some s) ∧
      (∀ s, (keep n before.length rest held).1 s ≤ target n s) ∧
      ∀ b ∈ (keep n before.length rest held).2, ∃ s, ownerAt (before ++ rest) b = some s ∧
        (s < n → (keep n before.length rest held).1 s = target n s) := by
  induction rest generalizing before held with
  | nil => exact ⟨[], by simp [keep], by simp [keep], by simp, by simpa [keep] using hle, by simp [keep]⟩
  | cons owner rest ih =>
    have hat : ownerAt (before ++ owner :: rest) before.length = some owner.toNat := by simp [ownerAt]
    have hlength : before.length + 1 = (before ++ [owner]).length := by simp
    have hlist : before ++ owner :: rest = (before ++ [owner]) ++ rest := by simp
    by_cases hkeep : owner.toNat < n ∧ held owner.toNat < target n owner.toNat
    · obtain ⟨kept, hperm, hheld, hown, hmax, hdisp⟩ := ih (before ++ [owner]) _ (update_le_target hle hkeep.2)
      have heq : keep n before.length (owner :: rest) held = keep n (before ++ [owner]).length rest
          (update held owner.toNat (held owner.toNat + 1)) := by
        rw [keep, if_pos hkeep, hlength]
      rw [heq, hlist]
      rw [hlist] at hat
      refine ⟨before.length :: kept, ?_, fun s => ?_, fun b hb => ?_, hmax, hdisp⟩
      · rw [List.length_cons, List.range'_succ, List.cons_append, hlength]
        exact hperm.cons _
      · rw [hheld, List.countP_cons, hat]
        by_cases hs : s = owner.toNat
        · rw [hs, update_self]
          simp
          omega
        · rw [update_of_ne hs]
          simp [Ne.symm hs]
      · rcases List.mem_cons.mp hb with rfl | hb
        · exact ⟨_, hkeep.1, hat⟩
        · exact hown b hb
    · obtain ⟨kept, hperm, hheld, hown, hmax, hdisp⟩ := ih (before ++ [owner]) held hle
      have heq : keep n before.length (owner :: rest) held =
          ((keep n (before ++ [owner]).length rest held).1,
            before.length :: (keep n (before ++ [owner]).length rest held).2) := by
        rw [keep, if_neg hkeep, hlength]
      rw [heq, hlist]
      rw [hlist] at hat
      refine ⟨kept, ?_, hheld, hown, hmax, fun b hb => ?_⟩
      · rw [List.length_cons, List.range'_succ, hlength]
        exact List.perm_middle.trans (hperm.cons _)
      · rcases List.mem_cons.mp hb with rfl | hb
        · -- the shard goes away or was full before, and stays so
          refine ⟨_, hat, fun hlt => ?_⟩
          have := hmax owner.toNat
          have := hheld owner.toNat
          have : ¬ held owner.toNat < target n owner.toNat := fun h => hkeep ⟨hlt, h⟩
          dsimp only
          omega
        · exact hdisp b hb

variable {held : Nat → Nat}

lemma nextFree_spec (hlow : next ≤ s) (hhigh : s < next + fuel) (hroom : held s < target n s) :
    ∃ m, nextFree n held fuel next = some m ∧ next ≤ m ∧ held m < target n m ∧
      ∀ k, next ≤ k → k < m → target n k ≤ held k := by
  induction fuel generalizing next with
  | zero => omega
  | succ fuel ih =>
    rw [nextFree]
    split_ifs with hfull
    · have hne : next ≠ s := fun heq => absurd hroom (by rw [← heq]; omega)
      have hlow' : next + 1 ≤ s := by omega
      obtain ⟨m, hm, hle, hlt, hfulls⟩ := ih hlow' (by omega)
      refine ⟨m, hm, by omega, hlt, fun k hk hkm => ?_⟩
      by_cases hnext : k = next
      · rwa [hnext]
      · exact hfulls k (by omega) hkm
    · exact ⟨next, rfl, le_rfl, by omega, fun k hk hkm => by omega⟩

lemma sum_room_update (hm : m < n) (hroom : held m < target n m) :
    ∑ s ∈ range n, (target n s - update held m (held m + 1) s) + 1 =
      ∑ s ∈ range n, (target n s - held s) := by
  have hmem := mem_range.mpr hm
  rw [← add_sum_erase _ _ hmem, ← add_sum_erase (range n) (fun s => target n s - held s) hmem, update_self]
  have hrest : ∑ s ∈ (range n).erase m, (target n s - update held m (held m + 1) s) =
      ∑ s ∈ (range n).erase m, (target n s - held s) := by
    apply sum_congr rfl
    intro s hs
    rw [update_of_ne (ne_of_mem_erase hs)]
  rw [hrest]
  omega

/-- The second pass finds a shard for every displaced bucket, and fills all shards. -/
lemma handOut_spec (hn : n < 2 ^ 32) {old : List (BitVec 32)} {displaced : List Nat}
    {owners : List (BitVec 32)} (hlen : owners.length = old.length)
    (hin : ∀ b ∈ displaced, b < old.length) (hnodup : displaced.Nodup) (hle : ∀ s, held s ≤ target n s)
    (hfull : ∀ s < next, target n s ≤ held s)
    (hsum : displaced.length = ∑ s ∈ range n, (target n s - held s)) :
    ∃ owners' moved, handOut n old displaced next held owners = some (owners', moved) ∧
      moved.map Prod.fst = displaced ∧ (∀ b, b ∉ displaced → owners'[b]? = owners[b]?) ∧
      (∀ e ∈ moved, old[e.1]? = some e.2.1 ∧ owners'[e.1]? = some e.2.2 ∧ e.2.2.toNat < n ∧
        held e.2.2.toNat < target n e.2.2.toNat) ∧
      ∀ s < n, displaced.countP (fun b => ownerAt owners' b = some s) = target n s - held s := by
  induction displaced generalizing next held owners with
  | nil =>
    refine ⟨owners, [], rfl, rfl, fun _ _ => rfl, fun e he => absurd he List.not_mem_nil, fun s hs => ?_⟩
    exact (sum_eq_zero_iff.mp hsum.symm s (mem_range.mpr hs)).symm
  | cons b displaced ih =>
    -- a shard with room, at or behind the place the search has come to
    obtain ⟨s, hs, hroom⟩ : ∃ s < n, held s < target n s := by
      by_contra hnone
      have hzero : ∑ s ∈ range n, (target n s - held s) = 0 := by
        apply sum_eq_zero
        intro s hs
        have : ¬ held s < target n s := fun h => hnone ⟨s, mem_range.mp hs, h⟩
        omega
      simp [hzero] at hsum
    have hnext : next ≤ s := by
      by_contra hlt
      have := hfull s (by omega)
      omega
    have hhigh : s < next + (n - next) := by omega
    obtain ⟨m, hm, hnm, hmroom, hbetween⟩ := nextFree_spec hnext hhigh hroom
    have hmn : m < n := by
      have := nextFree_lt hm
      omega
    have hb := hin b List.mem_cons_self
    have hbm : (BitVec.ofNat 32 m).toNat = m := by rw [BitVec.toNat_ofNat, mod_eq_of_lt (by omega)]
    obtain ⟨hbnot, hnodup⟩ := List.nodup_cons.mp hnodup
    have hupdate : ∀ s, s ≠ m → update held m (held m + 1) s = held s := fun s h => update_of_ne h _ _
    have hlen' : (owners.set b (BitVec.ofNat 32 m)).length = old.length := by rw [List.length_set, hlen]
    have hfull' : ∀ s < m, target n s ≤ update held m (held m + 1) s := by
      intro s hs
      rw [hupdate s (by omega)]
      by_cases hlow : s < next
      · exact hfull s hlow
      · exact hbetween s (by omega) hs
    have hsum' : displaced.length = ∑ s ∈ range n, (target n s - update held m (held m + 1) s) := by
      have := sum_room_update hmn hmroom
      rw [List.length_cons] at hsum
      omega
    obtain ⟨owners', moved, hout, hfst, hsame, hmoved, hcount⟩ :=
      ih hlen' (fun c hc => hin c (List.mem_cons_of_mem _ hc)) hnodup (update_le_target hle hmroom) hfull' hsum'
    have hset : owners'[b]? = some (BitVec.ofNat 32 m) := by rw [hsame b hbnot, List.getElem?_set_self (by omega)]
    refine ⟨owners', (b, old[b], BitVec.ofNat 32 m) :: moved, ?_, ?_, fun c hc => ?_, fun e he => ?_, fun s hs => ?_⟩
    · rw [handOut, hm]
      change (old[b]?).bind _ = _
      rw [List.getElem?_eq_getElem hb, bind_some, hout]
      rfl
    · rw [List.map_cons, hfst]
    · rw [List.mem_cons, not_or] at hc
      obtain ⟨hne, hc⟩ := hc
      rw [hsame c hc, List.getElem?_set_ne (Ne.symm hne)]
    · rcases List.mem_cons.mp he with rfl | he
      · exact ⟨List.getElem?_eq_getElem hb, hset, hbm.symm ▸ hmn, hbm.symm ▸ hmroom⟩
      · obtain ⟨hold, hnew, hlt, hroom⟩ := hmoved e he
        refine ⟨hold, hnew, hlt, ?_⟩
        by_cases hem : e.2.2.toNat = m
        · rwa [hem]
        · rwa [hupdate _ hem] at hroom
    · rw [List.countP_cons, hcount s hs, ownerAt, hset, map_some, hbm]
      by_cases hsm : s = m
      · rw [hsm, update_self]
        simp
        omega
      · rw [hupdate s hsm]
        simp [Ne.symm hsm]

def owned (map : BucketMap) (s : Nat) : Nat := map.owners.countP (fun o => o.toNat = s)

lemma countP_range (owners : List (BitVec 32)) (s : Nat) :
    (List.range owners.length).countP (fun b => ownerAt owners b = some s) =
      owners.countP (·.toNat = s) := by
  induction owners using List.reverseRecOn with
  | nil => rfl
  | append_singleton owners o ih =>
    rw [List.length_append, List.length_singleton, List.range_succ, List.countP_append, List.countP_append, ← ih]
    congr 1
    · apply List.countP_congr
      intro b hb
      rw [ownerAt, ownerAt, List.getElem?_append_left (List.mem_range.mp hb)]
    · simp [ownerAt, List.countP_singleton]

lemma owned_eq (map : BucketMap) (s : Nat) :
    map.owned s = (List.range numBuckets.toNat).countP (fun b => ownerAt map.owners b = some s) := by
  rw [owned, ← countP_range, map.length_eq]

lemma sum_countP {f : Nat → Option Nat} {l : List Nat} (h : ∀ b ∈ l, ∃ s < n, f b = some s) :
    ∑ s ∈ range n, l.countP (fun b => f b = some s) = l.length := by
  induction l with
  | nil => simp
  | cons b l ih =>
    obtain ⟨s, hs, hb⟩ := h b List.mem_cons_self
    simp only [List.countP_cons, hb, some.injEq, decide_eq_true_eq, sum_add_distrib,
      sum_ite_eq, mem_range, hs, if_true, List.length_cons,
      ih fun c hc => h c (List.mem_cons_of_mem _ hc)]

/-- A reassignment brings each shard to its share, moves the buckets that changed owners, and leaves every shard what
it may keep. -/
structure Reassigned (map : BucketMap) (n : Nat) (r : Reassignment) : Prop where
  shares : ∀ s < n, r.map.owned s = target n s
  below : ∀ b s, ownerAt r.map.owners b = some s → s < n
  moved : ∀ b source target, (b, source, target) ∈ r.moved ↔
    map.owners[b]? = some source ∧ r.map.owners[b]? = some target ∧ source ≠ target
  once : (r.moved.map Prod.fst).Nodup
  kept : r.moved.length + ∑ s ∈ range n, min (map.owned s) (target n s) = numBuckets.toNat
  short : ∀ e ∈ r.moved, map.owned e.2.2.toNat < target n e.2.2.toNat

structure FirstPass (map : BucketMap) (n : Nat) (held : Nat → Nat) (displaced : List Nat) : Prop where
  nodup : displaced.Nodup
  inRange : ∀ b ∈ displaced, b < numBuckets.toNat
  le : ∀ s, held s ≤ target n s
  kept : displaced.length + ∑ s ∈ range n, held s = numBuckets.toNat
  stays : ∀ b < numBuckets.toNat, b ∉ displaced → ∃ s < n, ownerAt map.owners b = some s
  full : ∀ b ∈ displaced, ∃ s, ownerAt map.owners b = some s ∧ (s < n → held s = target n s)
  counts : ∀ owners : List (BitVec 32), (∀ b, b ∉ displaced → owners[b]? = map.owners[b]?) → ∀ s,
    (List.range numBuckets.toNat).countP (fun b => ownerAt owners b = some s) =
      held s + displaced.countP (fun b => ownerAt owners b = some s)

lemma firstPass (map : BucketMap) (n : Nat) :
    FirstPass map n (keep n 0 map.owners fun _ => 0).1 (keep n 0 map.owners fun _ => 0).2 := by
  obtain ⟨kept, hperm, hheld, hown, hmax, hdisp⟩ := keep_spec n [] map.owners (fun _ => 0) fun _ => zero_le _
  simp only [List.nil_append, List.length_nil, zero_add, map.length_eq] at hperm hheld hown hmax hdisp
  rw [← List.range_eq_range'] at hperm
  have hnodup := List.nodup_append.mp (hperm.nodup_iff.mpr List.nodup_range)
  have hmem : ∀ b, b ∈ kept ∨ b ∈ (keep n 0 map.owners fun _ => 0).2 ↔ b < numBuckets.toNat := by
    intro b
    rw [← List.mem_append, hperm.mem_iff, List.mem_range]
  refine ⟨hnodup.2.1, fun b hb => (hmem b).mp (.inr hb), hmax, ?_, fun b hb hd => ?_, hdisp, ?_⟩
  · have hlength := hperm.length_eq
    rw [List.length_append, List.length_range] at hlength
    have hsum : ∑ s ∈ range n, (keep n 0 map.owners fun _ => 0).1 s = kept.length := by
      rw [← sum_countP hown]
      exact sum_congr rfl fun s _ => hheld s
    omega
  · exact hown b (((hmem b).mpr hb).resolve_right hd)
  · intro owners hsame s
    rw [← hperm.countP_eq, List.countP_append, hheld]
    congr 1
    apply List.countP_congr
    intro b hb
    have heq := hsame b fun hd => hnodup.2.2 b hb b hd rfl
    rw [show ownerAt owners b = ownerAt map.owners b from congrArg _ heq]

variable {map : BucketMap} {displaced : List Nat}

lemma FirstPass.held_eq (h : FirstPass map n held displaced) (hs : s < n) :
    held s = min (map.owned s) (target n s) := by
  have hcounts := h.counts map.owners (fun _ _ => rfl) s
  have hle := h.le s
  rw [owned_eq, hcounts]
  rcases Nat.eq_zero_or_pos (displaced.countP fun b => ownerAt map.owners b = some s) with hzero | hpos
  · omega
  · obtain ⟨b, hb, hbs⟩ := List.countP_pos_iff.mp hpos
    obtain ⟨s', hs', hfull⟩ := h.full b hb
    obtain rfl : s' = s := some.inj (hs'.symm.trans (by simpa using hbs))
    have := hfull hs
    omega

lemma FirstPass.room (h : FirstPass map n held displaced) (h1 : 1 ≤ n) :
    displaced.length = ∑ s ∈ range n, (target n s - held s) := by
  have hsplit : ∑ s ∈ range n, (target n s - held s) + ∑ s ∈ range n, held s = ∑ s ∈ range n, target n s := by
    rw [← sum_add_distrib]
    exact sum_congr rfl fun s _ => Nat.sub_add_cancel (h.le s)
  rw [sum_target h1] at hsplit
  have := h.kept
  omega

lemma reassign_spec (map : BucketMap) (h1 : 1 ≤ n) (hn : n < 2 ^ 32) :
    ∃ r, map.reassign n = some r ∧ Reassigned map n r := by
  have hfirst := map.firstPass n
  set held := (keep n 0 map.owners fun _ => 0).1 with hheld
  set displaced := (keep n 0 map.owners fun _ => 0).2 with hdisplaced
  have hin : ∀ b ∈ displaced, b < map.owners.length := fun b hb => map.length_eq.symm ▸ hfirst.inRange b hb
  have hnone : ∀ s < 0, target n s ≤ held s := fun s hs => absurd hs (not_lt_zero s)
  obtain ⟨owners, moved, hout, hfst, hsame, hmoved, hcount⟩ :=
    handOut_spec hn (Eq.refl map.owners.length) hin hfirst.nodup hfirst.le hnone (hfirst.room h1)
  have hlen : owners.length = numBuckets.toNat := (moved_of_handOut hout).1.trans map.length_eq
  have hchanged : ∀ e ∈ moved, map.owners[e.1]? = some e.2.1 ∧ owners[e.1]? = some e.2.2 ∧ e.2.1 ≠ e.2.2 := by
    intro e he
    obtain ⟨hold, hnew, hlt, hroom⟩ := hmoved e he
    refine ⟨hold, hnew, fun heq => ?_⟩
    -- a shard that had to give a bucket away was full, and takes none
    obtain ⟨s, hs, hfull⟩ := hfirst.full e.1 (hfst ▸ List.mem_map_of_mem he)
    rw [ownerAt, hold, map_some, heq] at hs
    obtain rfl := some.inj hs
    have := hfull hlt
    omega
  refine ⟨⟨⟨owners, hlen⟩, moved⟩, ?_, ⟨fun s hs => ?_, fun b s hb => ?_, fun b source target => ?_, ?_, ?_, ?_⟩⟩
  · unfold reassign
    dsimp only
    split
    · rename_i hnone
      rw [max_eq_left h1, hout] at hnone
      cases hnone
    · rename_i hsome
      rw [max_eq_left h1, hout] at hsome
      cases hsome
      rfl
  · have hle := hfirst.le s
    rw [owned_eq, hfirst.counts owners hsame s, hcount s hs]
    omega
  · by_cases hd : b ∈ displaced
    · obtain ⟨e, he, rfl⟩ := List.mem_map.mp (hfst.symm ▸ hd)
      obtain ⟨-, hnew, hlt, -⟩ := hmoved e he
      rw [ownerAt, hnew, map_some] at hb
      exact some.inj hb ▸ hlt
    · have hlt : b < numBuckets.toNat := by
        obtain ⟨o, ho, -⟩ := map_eq_some_iff.mp hb
        exact hlen ▸ (List.getElem?_eq_some_iff.mp ho).1
      obtain ⟨s', hs', heq⟩ := hfirst.stays b hlt hd
      rw [ownerAt, hsame b hd, ← ownerAt, heq] at hb
      exact some.inj hb ▸ hs'
  · constructor
    · exact fun he => hchanged _ he
    · rintro ⟨hold, hnew, hne⟩
      have hd : b ∈ displaced := by
        by_contra hd
        have heq := hsame b hd
        rw [hold] at heq
        exact hne (some.inj (heq.symm.trans hnew))
      obtain ⟨e, he, rfl⟩ := List.mem_map.mp (hfst.symm ▸ hd)
      obtain ⟨hold', hnew', -⟩ := hchanged e he
      obtain rfl := some.inj (hold.symm.trans hold')
      obtain rfl := some.inj (hnew.symm.trans hnew')
      exact he
  · rw [hfst]
    exact hfirst.nodup
  · have hmin : ∑ s ∈ range n, min (map.owned s) (target n s) = ∑ s ∈ range n, held s :=
      sum_congr rfl fun s hs => (hfirst.held_eq (mem_range.mp hs)).symm
    have hmoves : moved.length = displaced.length := by rw [← hfst, List.length_map]
    rw [hmin, hmoves]
    exact hfirst.kept
  · intro e he
    obtain ⟨-, -, hlt, hroom⟩ := hmoved e he
    rw [hfirst.held_eq hlt] at hroom
    omega

/-- A map over `n` shards whose numbers of buckets differ by one at most. -/
structure Balanced (map : BucketMap) (n : Nat) : Prop where
  shards_eq : map.shards = n
  near : ∀ s < n, ∀ t < n, map.owned s ≤ map.owned t + 1

def changed (old new : BucketMap) : List Nat :=
  (List.range numBuckets.toNat).filter (fun b => old.owners[b]? ≠ new.owners[b]?)

/-- The first shards, which are to have the larger shares, have the larger shares already, or no other shard
has. -/
def FirstHoldSurplus (map : BucketMap) (n : Nat) : Prop :=
  (∀ s < numBuckets.toNat % n, numBuckets.toNat / n < map.owned s) ∨
    ∀ s, numBuckets.toNat % n ≤ s → s < n → map.owned s ≤ numBuckets.toNat / n

variable {map new : BucketMap} {n : Nat} {r : Reassignment}

variable {b : Nat}

lemma mem_changed : b ∈ map.changed new ↔ b < numBuckets.toNat ∧ map.owners[b]? ≠ new.owners[b]? := by
  simp [changed]

lemma changed_nodup : (map.changed new).Nodup := List.nodup_range.filter _

lemma ownerAt_ne_iff : map.owners[b]? ≠ new.owners[b]? ↔ ownerAt map.owners b ≠ ownerAt new.owners b :=
  not_congr (map_injective fun _ _ => BitVec.eq_of_toNat_eq).eq_iff.symm

lemma exists_ownerAt (hb : b < numBuckets.toNat) (hbelow : ∀ o ∈ map.owners, o.toNat < n) :
    ∃ s < n, ownerAt map.owners b = some s := by
  rw [← map.length_eq] at hb
  exact ⟨_, hbelow _ (List.getElem_mem hb), congrArg _ (List.getElem?_eq_getElem hb)⟩

lemma lt_of_ownerAt (h : ownerAt map.owners b = some s) : b < numBuckets.toNat := by
  obtain ⟨o, ho, -⟩ := map_eq_some_iff.mp h
  rw [← map.length_eq]
  exact (List.getElem?_eq_some_iff.mp ho).1

lemma sum_owned (hbelow : ∀ o ∈ map.owners, o.toNat < n) : ∑ s ∈ range n, map.owned s = numBuckets.toNat := by
  have hall : ∀ b ∈ List.range numBuckets.toNat, ∃ s < n, ownerAt map.owners b = some s :=
    fun b hb => exists_ownerAt (List.mem_range.mp hb) hbelow
  calc ∑ s ∈ range n, map.owned s
      = ∑ s ∈ range n, (List.range numBuckets.toNat).countP (fun b => ownerAt map.owners b = some s) :=
        sum_congr rfl fun s _ => map.owned_eq s
    _ = numBuckets.toNat := (sum_countP hall).trans List.length_range

lemma Balanced.below (h : map.Balanced n) : ∀ o ∈ map.owners, o.toNat < n := by
  intro o ho
  rw [← h.shards_eq]
  exact lt_succ_of_le (le_maxOwner ho)

lemma Balanced.even (h : map.Balanced n) : EvenShares n numBuckets.toNat map.owned := ⟨sum_owned h.below, h.near⟩

lemma balanced_of_even (h1 : 1 ≤ n) (hn : n ≤ numBuckets.toNat) (hbelow : ∀ o ∈ map.owners, o.toNat < n)
    (heven : EvenShares n numBuckets.toNat map.owned) : map.Balanced n ∧ map.Dense := by
  have howns : ∀ s < n, ∃ o ∈ map.owners, o.toNat = s := by
    intro s hs
    have hpos : 0 < map.owned s := lt_of_lt_of_le (div_pos hn h1) (heven.quotient_le hs)
    obtain ⟨o, ho, heq⟩ := List.countP_pos_iff.mp hpos
    exact ⟨o, ho, of_decide_eq_true heq⟩
  have hshards : map.shards = n := by
    obtain ⟨o, ho, hlast⟩ := howns (n - 1) (by omega)
    obtain ⟨o', ho', hmax⟩ := map.exists_maxOwner
    have := le_maxOwner ho
    have := hbelow o' ho'
    rw [shards]
    omega
  refine ⟨⟨hshards, heven.near⟩, fun s hs => howns s (hshards ▸ hs)⟩

lemma le_changed_add (hbelow : ∀ o ∈ new.owners, o.toNat < n) :
    numBuckets.toNat ≤ (map.changed new).length + ∑ s ∈ range n, min (map.owned s) (new.owned s) := by
  set kept := (List.range numBuckets.toNat).filter (fun b => !decide (map.owners[b]? ≠ new.owners[b]?)) with hkept
  have hsplit : numBuckets.toNat = (map.changed new).length + kept.length := by
    have := List.length_eq_length_filter_add (l := List.range numBuckets.toNat)
      (fun b => decide (map.owners[b]? ≠ new.owners[b]?))
    rwa [List.length_range] at this
  have hin : ∀ b ∈ kept, ∃ s < n, ownerAt new.owners b = some s := by
    intro b hb
    exact exists_ownerAt (List.mem_range.mp (List.mem_of_mem_filter hb)) hbelow
  have hle : ∀ s ∈ range n, kept.countP (fun b => ownerAt new.owners b = some s) ≤
      min (map.owned s) (new.owned s) := by
    intro s _
    have hsame : kept.countP (fun b => ownerAt new.owners b = some s) =
        kept.countP (fun b => ownerAt map.owners b = some s) := by
      apply List.countP_congr
      intro b hb
      have heq : map.owners[b]? = new.owners[b]? := by simpa using List.of_mem_filter hb
      rw [ownerAt, ownerAt, heq]
    refine Nat.le_min.mpr ⟨?_, ?_⟩
    · rw [hsame, owned_eq]
      exact List.filter_sublist.countP_le
    · rw [owned_eq]
      exact List.filter_sublist.countP_le
  rw [hsplit, ← sum_countP hin]
  exact Nat.add_le_add_left (sum_le_sum hle) _

namespace Reassigned
variable (h : Reassigned map n r)
include h

lemma lt_of_mem : ∀ o ∈ r.map.owners, o.toNat < n := by
  intro o ho
  obtain ⟨b, hb, rfl⟩ := List.mem_iff_getElem.mp ho
  exact h.below b _ (congrArg _ (List.getElem?_eq_getElem hb))

lemma even (h1 : 1 ≤ n) : EvenShares n numBuckets.toNat r.map.owned := by
  have hfirst := EvenShares.first numBuckets.toNat h1
  refine ⟨sum_owned h.lt_of_mem, fun s hs t ht => ?_⟩
  rw [h.shares s hs, h.shares t ht]
  exact hfirst.near s hs t ht

lemma changed_perm : (map.changed r.map).Perm (r.moved.map Prod.fst) := by
  refine (List.perm_ext_iff_of_nodup changed_nodup h.once).mpr fun b => ?_
  rw [mem_changed, List.mem_map]
  constructor
  · rintro ⟨hb, hne⟩
    have hold : b < map.owners.length := map.length_eq ▸ hb
    have hnew : b < r.map.owners.length := r.map.length_eq ▸ hb
    rw [List.getElem?_eq_getElem hold, List.getElem?_eq_getElem hnew] at hne
    refine ⟨(b, map.owners[b], r.map.owners[b]), (h.moved _ _ _).mpr ⟨List.getElem?_eq_getElem hold,
      List.getElem?_eq_getElem hnew, fun heq => hne (congrArg some heq)⟩, rfl⟩
  · rintro ⟨⟨b', source, target⟩, hmem, rfl⟩
    obtain ⟨hold, hnew, hne⟩ := (h.moved _ _ _).mp hmem
    refine ⟨map.length_eq ▸ (List.getElem?_eq_some_iff.mp hold).1, fun heq => hne ?_⟩
    exact some.inj (hold.symm.trans (heq.trans hnew))

lemma length_changed :
    (map.changed r.map).length + ∑ s ∈ range n, min (map.owned s) (target n s) = numBuckets.toNat := by
  rw [h.changed_perm.length_eq, List.length_map]
  exact h.kept

lemma length_changed_le (h1 : 1 ≤ n) (hfirst : map.FirstHoldSurplus n) (heven : new.Balanced n) :
    (map.changed r.map).length ≤ (map.changed new).length := by
  have hcommon : ∑ s ∈ range n, min (map.owned s) (new.owned s) ≤ ∑ s ∈ range n, min (map.owned s) (target n s) :=
    heven.even.sum_min_le h1 hfirst
  have hother : numBuckets.toNat ≤ (map.changed new).length + ∑ s ∈ range n, min (map.owned s) (new.owned s) :=
    le_changed_add heven.below
  have hthis := h.length_changed
  omega

end Reassigned

lemma exists_gained (h : map.owned s < new.owned s) :
    ∃ b, ownerAt new.owners b = some s ∧ ownerAt map.owners b ≠ some s := by
  by_contra hnone
  push Not at hnone
  refine absurd h (Nat.not_lt_of_le ?_)
  rw [owned_eq, owned_eq]
  apply List.countP_mono_left
  intro b _ hb
  simpa using hnone b (by simpa using hb)

def give (map : BucketMap) (b : Nat) (o : BitVec 32) : BucketMap :=
  ⟨map.owners.set b o, (List.length_set ..).trans map.length_eq⟩

lemma owned_give (hb : ownerAt map.owners b = some t) :
    (map.give b o).owned s + (if t = s then 1 else 0) = map.owned s + if o.toNat = s then 1 else 0 := by
  obtain ⟨old, hold, rfl⟩ := map_eq_some_iff.mp hb
  simpa [owned, give] using countP_set_add (b := o) (fun o : BitVec 32 => decide (o.toNat = s)) hold

lemma ownerAt_give_self (hb : b < numBuckets.toNat) : ownerAt (map.give b o).owners b = some o.toNat := by
  rw [ownerAt, give, List.getElem?_set_self (map.length_eq ▸ hb)]
  rfl

lemma ownerAt_give_ne (hne : b ≠ c) : ownerAt (map.give b o).owners c = ownerAt map.owners c := by
  rw [ownerAt, give, List.getElem?_set_ne hne]
  rfl

lemma give_below (hbelow : ∀ o ∈ map.owners, o.toNat < n) (ho : o.toNat < n) :
    ∀ p ∈ (map.give b o).owners, p.toNat < n := by
  intro p hp
  rcases List.mem_or_eq_of_mem_set hp with hp | rfl
  · exact hbelow p hp
  · exact ho

/-- Otherwise one of the first shards was given a bucket that another shard could have kept: passing the larger
share on to that shard changes one bucket less. -/
lemma Reassigned.improvable (h : Reassigned map n r) (h1 : 1 ≤ n) (hn : n ≤ numBuckets.toNat)
    (hnot : ¬ map.FirstHoldSurplus n) :
    ∃ m : BucketMap, m.Balanced n ∧ (map.changed m).length < (map.changed r.map).length := by
  unfold FirstHoldSurplus at hnot
  push Not at hnot
  obtain ⟨⟨s0, hs0, hpoor⟩, s1, hs1, hs1n, hrich⟩ := hnot
  have hrem : numBuckets.toNat % n < n := mod_lt _ h1
  have hshare : ∀ s < n, r.map.owned s = numBuckets.toNat / n + if s < numBuckets.toNat % n then 1 else 0 := h.shares
  have hgains : map.owned s0 < r.map.owned s0 := by
    rw [hshare s0 (by omega), if_pos hs0]
    omega
  have hloses : r.map.owned s1 < map.owned s1 := by
    rw [hshare s1 hs1n, if_neg (by omega)]
    omega
  obtain ⟨b0, hb0, hb0old⟩ := exists_gained hgains
  obtain ⟨b1, hb1old, hb1⟩ := exists_gained hloses
  obtain ⟨t, ht, hb1t⟩ := exists_ownerAt (lt_of_ownerAt hb1old) h.lt_of_mem
  have hsmall : ∀ s < n, (BitVec.ofNat 32 s).toNat = s := by
    intro s hs
    exact mod_eq_of_lt (lt_trans (lt_of_lt_of_le hs hn) (by decide))
  -- The displaced bucket stays, and the bucket that was gained takes its place.
  have hmid : ownerAt (r.map.give b0 (BitVec.ofNat 32 t)).owners b1 = some t := by
    by_cases heq : b0 = b1
    · rw [heq, ownerAt_give_self (lt_of_ownerAt hb1old), hsmall t ht]
    · rw [ownerAt_give_ne heq, hb1t]
  have howned : ∀ s, ((r.map.give b0 (BitVec.ofNat 32 t)).give b1 (BitVec.ofNat 32 s1)).owned s +
      (if s0 = s then 1 else 0) = r.map.owned s + if s1 = s then 1 else 0 := by
    intro s
    have hfirst := owned_give (s := s) (o := BitVec.ofNat 32 t) hb0
    have hsecond := owned_give (s := s) (o := BitVec.ofNat 32 s1) hmid
    rw [hsmall t ht] at hfirst
    rw [hsmall s1 hs1n] at hsecond
    omega
  have hbelow := give_below (b := b1) (give_below (b := b0) h.lt_of_mem ((hsmall t ht).symm ▸ ht))
    ((hsmall s1 hs1n).symm ▸ hs1n)
  refine ⟨_, (balanced_of_even h1 hn hbelow ⟨sum_owned hbelow, fun s hs u hu => ?_⟩).1, ?_⟩
  · have hat : ∀ s < n, numBuckets.toNat / n ≤
        ((r.map.give b0 (BitVec.ofNat 32 t)).give b1 (BitVec.ofNat 32 s1)).owned s ∧
        ((r.map.give b0 (BitVec.ofNat 32 t)).give b1 (BitVec.ofNat 32 s1)).owned s ≤ numBuckets.toNat / n + 1 := by
      intro s hs
      have := howned s
      rw [hshare s hs] at this
      split_ifs at this <;> omega
    have := hat s hs
    have := hat u hu
    omega
  · have hmem : b1 ∈ map.changed r.map := by
      rw [mem_changed, ownerAt_ne_iff, hb1old]
      exact ⟨lt_of_ownerAt hb1old, hb1.symm⟩
    have hfewer : ((map.changed r.map).erase b1).length < (map.changed r.map).length := by
      rw [List.length_erase_of_mem hmem]
      exact sub_lt (List.length_pos_of_mem hmem) one_pos
    refine lt_of_le_of_lt (changed_nodup.length_le_of_subset ?_) hfewer
    intro b hb
    rw [mem_changed, ownerAt_ne_iff] at hb
    have hne : b ≠ b1 := by
      rintro rfl
      rw [ownerAt_give_self hb.1, hsmall s1 hs1n] at hb
      exact hb.2 hb1old
    rw [changed_nodup.mem_erase_iff, mem_changed, ownerAt_ne_iff]
    refine ⟨hne, hb.1, ?_⟩
    by_cases heq : b = b0
    · rw [heq, hb0]
      exact hb0old
    · rw [ownerAt_give_ne (Ne.symm hne), ownerAt_give_ne (Ne.symm heq)] at hb
      exact hb.2

/-- A reassignment gives a dense map with even numbers of buckets and lists every bucket that changes its owner once.
No such map moves fewer exactly if the surplus is where the reassignment wants it. -/
theorem reassign_minimal_iff (map : BucketMap) (n : Nat) (h1 : 1 ≤ n) (hn : n ≤ numBuckets.toNat) :
    ∃ r, map.reassign n = some r ∧ r.map.Dense ∧ r.map.Balanced n ∧
      (∀ b source target, (b, source, target) ∈ r.moved ↔
        map.owners[b]? = some source ∧ r.map.owners[b]? = some target ∧ source ≠ target) ∧
      (r.moved.map Prod.fst).Nodup ∧
      ((∀ m : BucketMap, m.Balanced n → (map.changed r.map).length ≤ (map.changed m).length) ↔
        map.FirstHoldSurplus n) := by
  obtain ⟨r, hr, h⟩ := reassign_spec map h1 (hn.trans_lt (by decide))
  obtain ⟨hbalanced, hdense⟩ := balanced_of_even h1 hn h.lt_of_mem (h.even h1)
  refine ⟨r, hr, hdense, hbalanced, h.moved, h.once, fun hmin => ?_, fun hfirst m hm => ?_⟩
  · by_contra hnot
    obtain ⟨m, hm, hless⟩ := h.improvable h1 hn hnot
    exact absurd (hmin m hm) (Nat.not_le_of_lt hless)
  · exact h.length_changed_le h1 hfirst hm

def secondLargerOwners : List (BitVec 32) :=
  List.replicate 341 0 ++ (List.replicate 342 1 ++ List.replicate 341 2)

lemma length_secondLargerOwners : secondLargerOwners.length = numBuckets.toNat := by
  rw [secondLargerOwners, List.length_append, List.length_append, List.length_replicate, List.length_replicate,
    List.length_replicate]
  rfl

def secondLarger : BucketMap := ⟨secondLargerOwners, length_secondLargerOwners⟩

lemma owned_secondLarger (s : Nat) :
    secondLarger.owned s = (if s = 0 then 341 else 0) + ((if s = 1 then 342 else 0) + if s = 2 then 341 else 0) := by
  change secondLargerOwners.countP _ = _
  rw [secondLargerOwners, List.countP_append, List.countP_append, List.countP_replicate, List.countP_replicate,
    List.countP_replicate]
  simp [eq_comm]

lemma secondLarger_below : ∀ o ∈ secondLarger.owners, o.toNat < 3 := by
  intro o ho
  simp only [secondLarger, secondLargerOwners, List.mem_append, List.mem_replicate] at ho
  rcases ho with ⟨-, rfl⟩ | ⟨-, rfl⟩ | ⟨-, rfl⟩ <;> decide

lemma secondLarger_balanced : secondLarger.Balanced 3 ∧ secondLarger.Dense := by
  refine balanced_of_even (by decide) (by decide) secondLarger_below ⟨sum_owned secondLarger_below, ?_⟩
  intro s hs t ht
  rw [owned_secondLarger, owned_secondLarger]
  split_ifs <;> omega

/-- A map that is even already has a bucket moved. -/
theorem reassign_moves_needlessly :
    secondLarger.Dense ∧ secondLarger.Balanced 3 ∧ secondLarger.changed secondLarger = [] ∧
      ∃ r, secondLarger.reassign 3 = some r ∧ r.moved.length = 1 ∧
        (secondLarger.changed r.map).length = 1 := by
  obtain ⟨r, hr, h⟩ := reassign_spec secondLarger (n := 3) (by decide) (by decide)
  have hkept : r.moved.length + 1023 = 1024 := by
    have hsum : ∑ s ∈ range 3, min (secondLarger.owned s) (target 3 s) = 1023 := by
      simp only [owned_secondLarger]
      decide
    have := h.kept
    rwa [hsum] at this
  refine ⟨secondLarger_balanced.2, secondLarger_balanced.1, ?_, r, hr, by omega, ?_⟩
  · simp [changed]
  · rw [h.changed_perm.length_eq, List.length_map]
    omega

theorem reassign_minimal_shrinks : ∃ r, secondLarger.reassign 2 = some r ∧ r.map.Dense ∧ r.map.Balanced 2 ∧
      ∀ m : BucketMap, m.Balanced 2 → (secondLarger.changed r.map).length ≤ (secondLarger.changed m).length := by
  obtain ⟨r, hr, hdense, hbalanced, -, -, hmin⟩ := reassign_minimal_iff secondLarger 2 (by decide) (by decide)
  exact ⟨r, hr, hdense, hbalanced, hmin.mpr (.inl fun s hs => absurd hs (Nat.not_lt_zero s))⟩

/-- Planning again for the count just planned for moves nothing. -/
theorem reassign_settles (map : BucketMap) (n : Nat) (h1 : 1 ≤ n) (hn : n < 2 ^ 32) :
    ∃ r, map.reassign n = some r ∧ r.map.reassign n = some ⟨r.map, []⟩ := by
  obtain ⟨r, hr, h⟩ := reassign_spec map h1 hn
  obtain ⟨⟨m, moved⟩, hr', h'⟩ := reassign_spec r.map h1 hn
  have hmoved : moved = [] := by
    have hkept := h'.kept
    rw [sum_congr rfl fun s hs => by rw [h.shares s (mem_range.mp hs), min_self], sum_target h1] at hkept
    exact List.length_eq_zero_iff.mp (Nat.add_eq_right.mp hkept)
  subst hmoved
  have howners : m.owners = r.map.owners := by
    apply List.ext_getElem (m.length_eq.trans r.map.length_eq.symm)
    intro b hb hb'
    by_contra hne
    have := (h'.moved b _ _).mpr ⟨List.getElem?_eq_getElem hb', List.getElem?_eq_getElem hb, Ne.symm hne⟩
    simp at this
  obtain rfl : m = r.map := by
    cases m
    cases hm : r.map
    simp_all
  exact ⟨r, hr, hr'⟩

theorem reassign_settles_three : ∃ r, secondLarger.reassign 3 = some r ∧ r.map.reassign 3 = some ⟨r.map, []⟩ :=
  reassign_settles secondLarger 3 (by decide) (by decide)

end GrowlerDB.Core.BucketMap
