import GrowlerDB.ControlPlane.Placement

namespace GrowlerDB.ControlPlane
open Lib List Option IndexEntry Prod BTreeMap

variable {a : ShardAssignment} {p : NodeId} {replicas live : List NodeId} {r : Nat}

lemma pickLeastLoaded_eq_none : pickLeastLoaded load exclude = none ↔ ∀ n ∈ load.map fst, n ∈ exclude := by
  have hsome : ∀ (choose : Option (NodeId × Nat) → NodeId × Nat → Option (NodeId × Nat)),
      (∀ b e, ∃ c, choose (some b) e = some c) → ∀ (l : List _) b, l.foldl choose (some b) ≠ none := by
    intro choose hchoose l
    induction l with
    | nil => exact some_ne_none
    | cons e l ih =>
      intro b
      obtain ⟨c, hc⟩ := hchoose b e
      rw [foldl_cons, hc]
      exact ih c
  rw [pickLeastLoaded, map_eq_none_iff]
  cases hl : load.filter (fun e => decide (e.1 ∉ exclude)) with
  | nil => simpa [filter_eq_nil_iff] using hl
  | cons d l =>
    have hd : d ∈ load.filter (fun e => decide (e.1 ∉ exclude)) := hl ▸ mem_cons_self
    obtain ⟨hin, hout⟩ := mem_filter.mp hd
    refine iff_of_false (hsome _ (fun b e => ?_) l d)
      fun hall => of_decide_eq_true hout (hall d.1 (mem_map_of_mem hin))
    dsimp only
    split_ifs <;> exact ⟨_, rfl⟩

lemma addLoad_nodes (node : NodeId) (load : List (NodeId × Nat)) :
    (addLoad node load).map fst = load.map fst := by
  rw [addLoad, List.map_map]
  apply List.map_congr_left
  intro e _
  rw [Function.comp_apply]
  split_ifs <;> rfl

/-- Replicas are added one by one, each on a capable node that does not hold the unit, up to the number asked for or
until there is no such node. -/
lemma topUp_spec (incapable : Finset NodeId) (n : Nat) (load : List (NodeId × Nat)) (a : ShardAssignment) :
    ∃ extra, topUp incapable n load a = ⟨a.primary, a.replicas ++ extra⟩ ∧ extra.Nodup ∧
      (∀ x ∈ extra, x ∈ load.map fst ∧ x ∉ a.nodes) ∧ extra.length ≤ n ∧
      (extra.length = n ∨ ∀ x ∈ load.map fst, x ∈ a.nodes ++ extra ∨ x ∈ incapable) := by
  induction n generalizing load a with
  | zero => exact ⟨[], by simp [topUp], nodup_nil, by simp, le_rfl, .inl rfl⟩
  | succ n ih =>
    rw [topUp]
    cases hpick : pickLeastLoaded load (a.nodes.toFinset ∪ incapable) with
    | none =>
      refine ⟨[], by simp, nodup_nil, by simp, Nat.zero_le _, .inr fun x hx => ?_⟩
      simpa using pickLeastLoaded_eq_none.mp hpick x hx
    | some pick =>
      obtain ⟨e, he, rfl, hout⟩ := mem_of_pickLeastLoaded hpick
      have hfree : e.1 ∉ a.nodes := fun hin => hout (by simp [hin])
      obtain ⟨extra, heq, hnodup, hextra, hlen, hfull⟩ := ih (addLoad e.1 load) ⟨a.primary, a.replicas ++ [e.1]⟩
      have hnodes : (⟨a.primary, a.replicas ++ [e.1]⟩ : ShardAssignment).nodes = a.nodes ++ [e.1] := by
        simp [ShardAssignment.nodes]
      simp only [hnodes, addLoad_nodes] at hextra hfull
      refine ⟨e.1 :: extra, by simp [heq], nodup_cons.mpr ⟨fun hin => ?_, hnodup⟩, ?_, ?_, ?_⟩
      · exact (hextra _ hin).2 (by simp)
      · intro x hx
        rcases mem_cons.mp hx with rfl | hx
        · exact ⟨mem_map_of_mem he, hfree⟩
        · exact ⟨(hextra x hx).1, fun hin => (hextra x hx).2 (mem_append_left _ hin)⟩
      · simpa using hlen
      · refine hfull.imp (fun h => by simp [h]) fun h x hx => ?_
        simpa using h x hx

lemma topUp_of_covered
    (h : ∀ x ∈ load.map fst, x ∈ a.nodes ∨ x ∈ incapable) (n : Nat) : topUp incapable n load a = a := by
  cases n with
  | zero => rfl
  | succ n =>
    have hnone : pickLeastLoaded load (a.nodes.toFinset ∪ incapable) = none :=
      pickLeastLoaded_eq_none.mpr fun x hx => by simpa using h x hx
    rw [topUp, hnone]

variable {S : Type} {st : Placement S} {index : String} {unit : UnitId} {now : Int}

lemma pruned_primary : (a.pruned live).primary = some p ↔ a.primary = some p ∧ p ∈ live := by
  rw [ShardAssignment.pruned, filter_eq_some_iff, decide_eq_true_iff]

lemma nodes_pruned (live : List NodeId) (a : ShardAssignment) :
    (a.pruned live).nodes = a.nodes.filter (fun n => decide (n ∈ live)) := by
  obtain ⟨primary, replicas⟩ := a
  cases primary with
  | none => rfl
  | some p => by_cases hp : p ∈ live <;> simp [ShardAssignment.pruned, ShardAssignment.nodes, Option.filter, hp]

lemma pruned_of_live (h : ∀ n ∈ a.nodes, n ∈ live) : a.pruned live = a := by
  obtain ⟨primary, replicas⟩ := a
  have hreplicas : replicas.filter (fun n => decide (n ∈ live)) = replicas :=
    filter_eq_self.mpr fun n hn => decide_eq_true (h n (mem_append_right _ hn))
  cases primary with
  | none => simp [ShardAssignment.pruned, hreplicas]
  | some p => simp [ShardAssignment.pruned, hreplicas, Option.filter, h p (by simp [ShardAssignment.nodes])]

/-- There is no node for the primary: no holder is live, and no placement node is, or the unit never had a primary, the
entitlement is used up and no placement node holds one. -/
def Placement.Stuck (st : Placement S) (entitled : Nat) (now : Int) (a : ShardAssignment) : Prop :=
  (∀ n ∈ a.nodes, n ∉ st.pool.liveNodes now) ∧
    (st.pool.placementNodes now = [] ∨ a.primary = none ∧ entitled ≤ (entitlementNodes st.indexes st.pool now).card ∧
      ∀ n ∈ st.pool.placementNodes now, n ∉ entitlementNodes st.indexes st.pool now)

instance (entitled : Nat) (a : ShardAssignment) : Decidable (st.Stuck entitled now a) :=
  inferInstanceAs (Decidable (_ ∧ _))

lemma loadOf_nodes (st : Placement S) (now : Int) : (loadOf st now).map fst = st.pool.placementNodes now := by
  rw [loadOf, List.map_map]
  exact List.map_id _

lemma mem_placement_of_pick
    (hload : ∀ e ∈ load, e ∈ loadOf st now) (h : pickLeastLoaded load exclude = some pick) :
    pick ∈ st.pool.placementNodes now := by
  obtain ⟨e, he, rfl, -⟩ := mem_of_pickLeastLoaded h
  rw [← loadOf_nodes]
  exact mem_map_of_mem (hload e he)

lemma choosePrimary_empty (index : String) (unit : UnitId) (entitled : Nat) (a : ShardAssignment)
    (hdead : ∀ n ∈ a.nodes, n ∉ st.pool.liveNodes now)
    (hfresh : freshNodes = if a.primary = none then some (entitlementNodes st.indexes st.pool now) else none) :
    (st.Stuck entitled now a ∧ ∃ e, choosePrimary index unit [] (loadOf st now) freshNodes entitled = .error e ∧
      ∀ i, e ≠ .notFound i) ∨
    ¬ st.Stuck entitled now a ∧ ∃ pick ∈ st.pool.placementNodes now, Placed st now entitled a pick ∧
      choosePrimary index unit [] (loadOf st now) freshNodes entitled =
        .ok (⟨some pick, []⟩, addLoad pick (loadOf st now)) := by
  unfold choosePrimary
  dsimp only
  cases hpick : pickLeastLoaded (loadOf st now) ∅ with
  | none =>
    refine .inl ⟨⟨hdead, .inl ?_⟩, _, rfl, fun i => by simp⟩
    rw [← loadOf_nodes]
    exact eq_nil_iff_forall_not_mem.mpr fun n hn => absurd (pickLeastLoaded_eq_none.mp hpick n hn) (by simp)
  | some pick =>
    have hin := mem_placement_of_pick (fun e he => he) hpick
    have hne : st.pool.placementNodes now ≠ [] := ne_nil_of_mem hin
    by_cases hprimary : a.primary = none
    · rw [if_pos hprimary] at hfresh
      subst hfresh
      dsimp only
      split_ifs with hgate
      · cases hpick' : pickLeastLoaded ((loadOf st now).filter
            (fun e => decide (e.1 ∈ entitlementNodes st.indexes st.pool now))) ∅ with
        | none =>
          refine .inl ⟨⟨hdead, .inr ⟨hprimary, hgate.1, fun n hn hheld => ?_⟩⟩, _, rfl, fun i => by simp⟩
          rw [← loadOf_nodes] at hn
          obtain ⟨e, he, rfl⟩ := mem_map.mp hn
          have hnode := pickLeastLoaded_eq_none.mp hpick' e.1
            (mem_map_of_mem (mem_filter.mpr ⟨he, decide_eq_true hheld⟩))
          exact absurd hnode (Finset.notMem_empty _)
        | some pick' =>
          have hin' := mem_placement_of_pick (fun e he => (mem_filter.mp he).1) hpick'
          obtain ⟨e, he, rfl, -⟩ := mem_of_pickLeastLoaded hpick'
          have hheld := of_decide_eq_true (mem_filter.mp he).2
          refine .inr ⟨fun hstuck => ?_, e.1, hin', .picked hin' fun _ _ => hheld, rfl⟩
          exact (hstuck.2.resolve_left hne).2.2 e.1 hin' hheld
      · have hplaced : Placed st now entitled a pick :=
          .picked hin fun _ hcap => not_not.mp fun hnot => hgate ⟨hcap, hnot⟩
        refine .inr ⟨fun hstuck => hgate ?_, pick, hin, hplaced, rfl⟩
        obtain ⟨-, hcap, hnone⟩ := hstuck.2.resolve_left hne
        exact ⟨hcap, hnone pick hin⟩
    · rw [if_neg hprimary] at hfresh
      subst hfresh
      exact .inr ⟨fun hstuck => hprimary (hstuck.2.resolve_left hne).1, pick, hin,
        .picked hin fun hnone => absurd hnone hprimary, rfl⟩

/-- The primary of a resolve: the first live holder if there is one, and else a placement node, unless there is none. -/
lemma withPrimary_spec (index : String) (unit : UnitId) (entitled : Nat) (a : ShardAssignment) :
    (st.Stuck entitled now a ∧ ∃ e, withPrimary st index unit entitled now a = .error e ∧ ∀ i, e ≠ .notFound i) ∨
    ¬ st.Stuck entitled now a ∧ ∃ b load p, withPrimary st index unit entitled now a = .ok (b, load) ∧
      load.map fst = st.pool.placementNodes now ∧ b.primary = some p ∧ Placed st now entitled a p ∧
      (b.nodes = (a.pruned (st.pool.liveNodes now)).nodes ∨
        (a.pruned (st.pool.liveNodes now)).nodes = [] ∧ b.nodes = [p] ∧ p ∈ st.pool.placementNodes now) := by
  rw [withPrimary]
  set kept := a.pruned (st.pool.liveNodes now) with hkept
  have hfree : ∀ {n rest}, kept.nodes = n :: rest → ¬ st.Stuck entitled now a := by
    intro n rest hnodes hstuck
    have hn : n ∈ kept.nodes := hnodes ▸ mem_cons_self
    rw [hkept, nodes_pruned] at hn
    exact hstuck.1 n (mem_filter.mp hn).1 (of_decide_eq_true (mem_filter.mp hn).2)
  cases hp : kept.primary with
  | some p =>
    have hnodes : kept.nodes = p :: kept.replicas := by
      simp [ShardAssignment.nodes, hp]
    exact .inr ⟨hfree hnodes, _, _, p, rfl, loadOf_nodes st now, hp, .kept (pruned_primary.mp hp).1, .inl rfl⟩
  | none =>
    cases hr : kept.replicas with
    | cons n rest =>
      have hnodes : kept.nodes = n :: rest := by simp [ShardAssignment.nodes, hp, hr]
      have hn : n ∈ kept.replicas := hr ▸ mem_cons_self
      refine .inr ⟨hfree hnodes, _, _, n, rfl, loadOf_nodes st now, rfl, .promoted (mem_filter.mp hn).1, .inl ?_⟩
      rw [hnodes]
      rfl
    | nil =>
      have hnodes : kept.nodes = [] := by simp [ShardAssignment.nodes, hp, hr]
      have hdead : ∀ n ∈ a.nodes, n ∉ st.pool.liveNodes now := by
        intro n hn hlive
        rw [hkept, nodes_pruned] at hnodes
        exact absurd (decide_eq_true hlive) (filter_eq_nil_iff.mp hnodes n hn)
      rcases choosePrimary_empty index unit entitled a hdead rfl with h | ⟨hfree, pick, hin, hplaced, heq⟩
      · exact .inl h
      · refine .inr ⟨hfree, _, _, pick, heq, ?_, rfl, hplaced, .inr ⟨hnodes, rfl, hin⟩⟩
        rw [addLoad_nodes, loadOf_nodes]

/-- What a resolve leaves of a unit: live holders, as many as asked for or all that can be had, the first live one of
before as the primary. They are distinct if those that were kept are. -/
structure Resolved (st : Placement S) (r : Nat) (now : Int) (a : ShardAssignment) (p : NodeId)
    (replicas : List NodeId) : Prop where
  live : ∀ n ∈ p :: replicas, n ∈ st.pool.liveNodes now
  atMost : replicas.length ≤ r - 1
  full : replicas.length = r - 1 ∨
    ∀ n ∈ st.pool.placementNodes now, n ∈ st.pool.replicaCapable → n ∈ p :: replicas
  distinct : (p :: replicas).Nodup ↔ ((a.nodes.filter (fun n => decide (n ∈ st.pool.liveNodes now))).take (max r 1)).Nodup
  first : ∀ n rest, a.nodes.filter (fun n => decide (n ∈ st.pool.liveNodes now)) = n :: rest → p = n

lemma nodup_append_extra {base extra : List NodeId} (hnodup : extra.Nodup) (hnew : ∀ x ∈ extra, x ∉ base) :
    (base ++ extra).Nodup ↔ base.Nodup := by
  rw [nodup_append]
  exact ⟨And.left, fun h => ⟨h, hnodup, fun x hx y hy heq => hnew y hy (heq ▸ hx)⟩⟩

lemma resolved_of_extra {extra : List NodeId}
    (hbase : p :: replicas = a.nodes.filter (fun n => decide (n ∈ st.pool.liveNodes now)) ∨
      a.nodes.filter (fun n => decide (n ∈ st.pool.liveNodes now)) = [] ∧ replicas = [] ∧
        p ∈ st.pool.placementNodes now) (hnodup : extra.Nodup)
    (hextra : ∀ x ∈ extra, x ∈ st.pool.placementNodes now ∧ x ∉ p :: replicas)
    (hlen : extra.length ≤ max r 1 - 1 - replicas.length)
    (hfull : extra.length = max r 1 - 1 - replicas.length ∨ ∀ x ∈ st.pool.placementNodes now,
      x ∈ p :: replicas ++ extra ∨ x ∈ (st.pool.liveNodes now).toFinset \ st.pool.replicaCapable) :
    Resolved st r now a p ((replicas ++ extra).take (max r 1 - 1)) := by
  have hlive : ∀ n ∈ st.pool.placementNodes now, n ∈ st.pool.liveNodes now := fun n hn => (mem_filter.mp hn).1
  -- either the unit is over-full and nothing was added, or nothing is trimmed
  have hcut : extra = [] ∧ max r 1 - 1 ≤ replicas.length ∨ replicas.length + extra.length ≤ max r 1 - 1 := by
    by_cases hover : max r 1 - 1 ≤ replicas.length
    · exact .inl ⟨length_eq_zero_iff.mp (by omega), hover⟩
    · exact .inr (by omega)
  have hnodes : p :: (replicas ++ extra).take (max r 1 - 1) = (p :: replicas).take (max r 1) ++ extra := by
    have hr : max r 1 = max r 1 - 1 + 1 := by omega
    rw [hr, take_succ_cons, Nat.add_sub_cancel]
    rcases hcut with ⟨rfl, -⟩ | hcut
    · simp
    · rw [take_of_length_le (by simpa using hcut), take_of_length_le (by omega), cons_append]
  have hkept : ∀ n ∈ p :: replicas, n ∈ st.pool.liveNodes now := by
    rcases hbase with heq | ⟨-, rfl, hp⟩
    · intro n hn
      rw [heq] at hn
      exact of_decide_eq_true (mem_filter.mp hn).2
    · intro n hn
      exact mem_singleton.mp hn ▸ hlive p hp
  refine ⟨fun n hn => ?_, ?_, ?_, ?_, ?_⟩
  · rw [hnodes] at hn
    rcases mem_append.mp hn with hn | hn
    · exact hkept n (mem_of_mem_take hn)
    · exact hlive n (hextra n hn).1
  · rw [length_take]
    omega
  · rcases hcut with ⟨rfl, hover⟩ | hcut
    · left
      rw [length_take, append_nil]
      omega
    · rw [take_of_length_le (by simpa using hcut), length_append]
      refine hfull.imp (fun h => by omega) fun h n hn hcapable => ?_
      rcases h n hn with hin | hout
      · exact hin
      · exact absurd hcapable (Finset.mem_sdiff.mp hout).2
  · rw [hnodes, nodup_append_extra hnodup fun x hx hin => (hextra x hx).2 (mem_of_mem_take hin)]
    rcases hbase with heq | ⟨hnil, rfl, -⟩
    · rw [heq]
    · have hone : ([p].take (max r 1)).Nodup := (nodup_singleton p).sublist (take_sublist _ _)
      simp [hnil, hone]
  · intro n rest hfilter
    rcases hbase with heq | ⟨hnil, -, -⟩
    · rw [hfilter] at heq
      exact (List.cons.inj heq).1
    · simp [hnil] at hfilter

/-- A resolve of one assignment: stuck, it leaves what was pruned; and else the holders of which it speaks, and they
differ from those of before if it says so. -/
lemma resolveAssignment_spec (index : String) (unit : UnitId) (r entitled : Nat) (a : ShardAssignment) :
    (st.Stuck entitled now a ∧ ∃ e, resolveAssignment st index unit r entitled now a = (⟨none, []⟩, .error e) ∧
      ∀ i, e ≠ .notFound i) ∨ ¬ st.Stuck entitled now a ∧ ∃ p replicas changed moved,
      resolveAssignment st index unit r entitled now a =
        (⟨some p, replicas⟩, .ok ⟨p, replicas, changed, moved⟩) ∧ Resolved st r now a p replicas ∧
      Placed st now entitled a p ∧ (changed → (⟨some p, replicas⟩ : ShardAssignment) ≠ a) := by
  rcases @withPrimary_spec S st now index unit entitled a with
    ⟨hstuck, e, he, hother⟩ | ⟨hfree, b, load, p, hw, hload, hp, hplaced, hnodes⟩
  · refine .inl ⟨hstuck, e, ?_, hother⟩
    have hnone : (a.pruned (st.pool.liveNodes now)).nodes = [] := by
      rw [nodes_pruned, filter_eq_nil_iff]
      exact fun n hn hlive => hstuck.1 n hn (of_decide_eq_true hlive)
    have hpruned : a.pruned (st.pool.liveNodes now) = ⟨none, []⟩ := by
      generalize a.pruned (st.pool.liveNodes now) = kept at hnone
      obtain ⟨primary, replicas⟩ := kept
      cases primary <;> simp_all [ShardAssignment.nodes]
    simp only [resolveAssignment, he, hpruned]
  · refine .inr ⟨hfree, ?_⟩
    obtain ⟨primary, replicas⟩ := b
    obtain rfl : primary = some p := hp
    obtain ⟨extra, htop, hnodup, hextra, hlen, hfull⟩ := topUp_spec
      ((st.pool.liveNodes now).toFinset \ st.pool.replicaCapable) (max r 1 - 1 - replicas.length) load
      ⟨some p, replicas⟩
    rw [hload] at hextra hfull
    have hcons : (⟨some p, replicas⟩ : ShardAssignment).nodes = p :: replicas := rfl
    rw [hcons] at hextra hfull hnodes
    have hres : Resolved st r now a p ((replicas ++ extra).take (max r 1 - 1)) := by
      refine resolved_of_extra ?_ hnodup hextra hlen hfull
      rw [← nodes_pruned]
      exact hnodes.imp_right fun h => ⟨h.1, (List.cons.inj h.2.1).2, h.2.2⟩
    refine ⟨p, (replicas ++ extra).take (max r 1 - 1),
      decide ((a.pruned (st.pool.liveNodes now)).primary = none) || decide (a.pruned (st.pool.liveNodes now) ≠ a) ||
        decide ((⟨some p, replicas ++ extra⟩ : ShardAssignment) ≠ ⟨some p, replicas⟩) ||
        decide (max r 1 < (replicas ++ extra).length + 1),
      decide ((a.pruned (st.pool.liveNodes now)).primary = none), ?_, hres, hplaced, ?_⟩
    · simp only [resolveAssignment, hw, htop, getD_some]
    · -- were it the same as before, then nothing would have been pruned, chosen, added or trimmed
      intro hchanged heq
      have hall : ∀ n ∈ a.nodes, n ∈ st.pool.liveNodes now := by
        rw [← heq]
        exact hres.live
      have hkept := pruned_of_live hall
      have hbase : replicas = a.replicas := by
        have := hnodes.resolve_right fun h => by
          rw [hkept, ← heq] at h
          cases h.1
        rw [hkept, ← heq] at this
        rw [← heq]
        exact (List.cons.inj this).2
      have hreplicas : (replicas ++ extra).take (max r 1 - 1) = replicas := by
        rw [hbase]
        conv_rhs => rw [← heq, hbase]
      have hlength := congrArg List.length hreplicas
      rw [length_take, length_append] at hlength
      have hextra0 : extra = [] := length_eq_zero_iff.mp (by omega)
      have hprimary : a.primary = some p := by rw [← heq]
      simp [hkept, hprimary, hextra0] at hchanged
      omega

lemma Resolved.stable
    (h : Resolved st r now a p replicas) (index : String) (unit : UnitId) (entitled : Nat) (indexes : Indexes S) :
    resolveAssignment ⟨indexes, st.pool⟩ index unit r entitled now ⟨some p, replicas⟩ =
      (⟨some p, replicas⟩, .ok ⟨p, replicas, false, false⟩) := by
  have hkept : (⟨some p, replicas⟩ : ShardAssignment).pruned (st.pool.liveNodes now) = ⟨some p, replicas⟩ :=
    pruned_of_live h.live
  have htop : topUp ((st.pool.liveNodes now).toFinset \ st.pool.replicaCapable)
      (max r 1 - 1 - replicas.length) (loadOf ⟨indexes, st.pool⟩ now) ⟨some p, replicas⟩ = ⟨some p, replicas⟩ := by
    rcases h.full with hlen | hheld
    · rw [show max r 1 - 1 - replicas.length = 0 by omega, topUp]
    · refine topUp_of_covered (fun x hx => ?_) _
      rw [loadOf_nodes] at hx
      by_cases hcapable : x ∈ st.pool.replicaCapable
      · exact .inl (hheld x hx hcapable)
      · refine .inr (Finset.mem_sdiff.mpr ⟨?_, hcapable⟩)
        exact mem_toFinset.mpr (mem_filter.mp hx).1
  have hmost := h.atMost
  have hw : withPrimary ⟨indexes, st.pool⟩ index unit entitled now ⟨some p, replicas⟩ =
      .ok (⟨some p, replicas⟩, loadOf ⟨indexes, st.pool⟩ now) := by
    simp only [withPrimary, hkept]
  have htrim : ¬ max r 1 < replicas.length + 1 := by omega
  simp [resolveAssignment, hw, htop, hkept, take_of_length_le (show replicas.length ≤ max r 1 - 1 by omega), htrim]

lemma IndexEntry.setAssignment_self {entry : IndexEntry S}
    (h : entry.unitAssignment unit = some b) : entry.setAssignment unit b = entry := by
  cases unit with
  | shard ordinal => rw [setAssignment, insert_self h]
  | window id =>
    obtain ⟨w, hw, rfl⟩ := map_eq_some_iff.mp h
    rw [setAssignment, entry_self hw rfl]

variable {indexes : Indexes S} {entry : IndexEntry S}

lemma insert_setAssignment_eq_iff (h : indexes.get? index = some entry) (b : ShardAssignment) :
    indexes.insert index (entry.setAssignment unit b) = indexes ↔ entry.unitAssignment unit = some b := by
  constructor
  · intro heq
    have hget := get?_insert indexes index index (entry.setAssignment unit b)
    rw [heq, h, if_pos rfl] at hget
    rw [some.inj hget, unitAssignment_setAssignment, if_pos rfl]
  · intro hb
    rw [setAssignment_self hb, insert_self h]

lemma assignmentOf_of_eq_some (h : entry.unitAssignment unit = some a) : entry.assignmentOf unit = a := by
  rw [assignmentOf, h]
  rfl

/-- A call that finds a unit resolved changes nothing. -/
lemma Resolved.again {entitled : Nat}
    (h : Resolved st r now a p replicas) (hgrace : st.pool.placementGraceActive now = false)
    (hget : indexes.get? index = some entry) (hunit : entry.unitAssignment unit = some ⟨some p, replicas⟩) :
    resolveUnitHolders ⟨indexes, st.pool⟩ index unit r entitled now = (indexes, .ok ⟨p, replicas, false, false⟩) := by
  have hlive : st.pool.liveNodes now ≠ [] := ne_nil_of_mem (h.live p mem_cons_self)
  rw [resolveUnitHolders]
  simp only [hget, hgrace, Bool.false_eq_true, if_false, hlive, assignmentOf_of_eq_some hunit, h.stable]
  rw [(insert_setAssignment_eq_iff hget _).mpr hunit]

/-- A call of `resolve_unit_holders`: nothing is registered or live, the unit is left alone in the grace window, there is
no node for it, or it is resolved. -/
lemma resolveUnitHolders_cases (st : Placement S) (index : String) (unit : UnitId) (r entitled : Nat) (now : Int) :
    (∃ e, resolveUnitHolders st index unit r entitled now = (st.indexes, .error e) ∧
      (st.indexes.get? index = none ∧ e = .notFound index ∨
        (st.indexes.get? index).isSome ∧ st.pool.liveNodes now = [] ∧ ∀ i, e ≠ .notFound i)) ∨
    (st.pool.placementGraceActive now ∧
      ∃ p replicas, resolveUnitHolders st index unit r entitled now = (st.indexes, .ok ⟨p, replicas, false, false⟩)) ∨
    ∃ entry, st.indexes.get? index = some entry ∧ st.pool.liveNodes now ≠ [] ∧
      (st.pool.placementGraceActive now → entry.unitPrimary unit = none) ∧
      ((st.Stuck entitled now (entry.assignmentOf unit) ∧ ∃ e, resolveUnitHolders st index unit r entitled now =
          (st.indexes.insert index (entry.setAssignment unit ⟨none, []⟩), .error e) ∧ ∀ i, e ≠ .notFound i) ∨
        ¬ st.Stuck entitled now (entry.assignmentOf unit) ∧ ∃ p replicas changed moved,
          resolveUnitHolders st index unit r entitled now =
            (st.indexes.insert index (entry.setAssignment unit ⟨some p, replicas⟩),
              .ok ⟨p, replicas, changed, moved⟩) ∧
          Resolved st r now (entry.assignmentOf unit) p replicas ∧
          Placed st now entitled (entry.assignmentOf unit) p ∧
          (changed → (⟨some p, replicas⟩ : ShardAssignment) ≠ entry.assignmentOf unit)) := by
  rw [resolveUnitHolders]
  cases hentry : st.indexes.get? index with
  | none => exact .inl ⟨_, rfl, .inl ⟨rfl, rfl⟩⟩
  | some entry =>
    dsimp only
    split
    · rename_i holders hholders
      split_ifs at hholders with hgrace
      rw [assignedHolders, bind_eq_some_iff] at hholders
      obtain ⟨a, -, hmap⟩ := hholders
      obtain ⟨p, -, rfl⟩ := map_eq_some_iff.mp hmap
      exact .inr (.inl ⟨hgrace, p, a.replicas, rfl⟩)
    · rename_i hholders
      split_ifs with hlive
      · exact .inl ⟨_, rfl, .inr ⟨rfl, hlive, fun i => by simp⟩⟩
      · refine .inr (.inr ⟨entry, rfl, hlive, fun hgrace => ?_, ?_⟩)
        · rw [if_pos hgrace, assignedHolders] at hholders
          rw [unitPrimary]
          cases ha : entry.unitAssignment unit with
          | none => rfl
          | some a =>
            rw [ha] at hholders
            exact map_eq_none_iff.mp hholders
        rcases @resolveAssignment_spec S st now index unit r entitled (entry.assignmentOf unit) with
          ⟨hstuck, e, he, hother⟩ | ⟨hfree, p, replicas, changed, moved, heq, hwhole⟩
        · exact .inl ⟨hstuck, e, by rw [he], hother⟩
        · exact .inr ⟨hfree, p, replicas, changed, moved, by rw [heq], hwhole⟩

lemma resolve_cases (st : Placement S) (index : String) (unit : UnitId) (now : Int) (r entitled : Nat) :
    (resolveUnitHolders st index unit r entitled now).1 = st.indexes ∨
    ∃ entry b, st.indexes.get? index = some entry ∧
      (st.pool.placementGraceActive now → entry.unitPrimary unit = none) ∧
      (resolveUnitHolders st index unit r entitled now).1 = st.indexes.insert index (entry.setAssignment unit b) ∧
      (∀ p ∈ st.pool.liveNodes now, entry.unitPrimary unit = some p → b.primary = some p) ∧
      (b.primary = none → b.replicas = []) ∧ ∀ p, b.primary = some p →
        p ∈ st.pool.liveNodes now ∧ Placed st now entitled (entry.assignmentOf unit) p := by
  rcases resolveUnitHolders_cases st index unit r entitled now with ⟨e, heq, -⟩ | ⟨-, p, replicas, heq⟩ |
    ⟨entry, hentry, -, hgrace, ⟨hstuck, e, heq, -⟩ | ⟨-, p, replicas, changed, moved, heq, hres, hplaced, -⟩⟩
  · exact .inl (by rw [heq])
  · exact .inl (by rw [heq])
  · refine .inr ⟨entry, ⟨none, []⟩, hentry, hgrace, by rw [heq], fun p hlive hold => ?_, fun _ => rfl, by simp⟩
    rw [unitPrimary_eq] at hold
    exact absurd hlive (hstuck.1 p (by simp [ShardAssignment.nodes, hold]))
  · refine .inr ⟨entry, ⟨some p, replicas⟩, hentry, hgrace, by rw [heq], fun q hlive hold => ?_, by simp, ?_⟩
    · rw [unitPrimary_eq] at hold
      rw [hres.first q _ (by simp [ShardAssignment.nodes, hold, hlive]; rfl)]
    · intro q hq
      cases hq
      exact ⟨hres.live p mem_cons_self, hplaced⟩

end GrowlerDB.ControlPlane
