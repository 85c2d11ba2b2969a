import GrowlerDB.ControlPlane.Catalog
import GrowlerDB.ControlPlane.Leadership

namespace GrowlerDB.ControlPlane.Registry
open List Function Option

variable {retry : Bool}

variable {V E : Type} {muts : Nat → Mutation V E} {loaded : CoreMap → V} {st st' : Registry muts loaded} {t u : Nat}

@[simp] lemma move_self (p : Phase muts loaded) : (st.move t p).phase t = p := update_self ..

lemma move_ne (h : u ≠ t) (p : Phase muts loaded) : (st.move t p).phase u = st.phase u :=
  update_of_ne h _ _

lemma made_update (maps : Maps muts loaded) (m m' : CoreMap) (c : Contents muts loaded m) :
    (update maps m c m').made = if m' = m then c.made else (maps m').made := by
  by_cases h : m' = m
  · subst h
    rw [update_self, if_pos rfl]
  · rw [update_of_ne h, if_neg h]

lemma holds_apply (h : (muts t).change (st.memory (muts t).map).value = .ok v) :
    Holds (update st.memory (muts t).map ((st.memory (muts t).map).apply h)) u ↔ Holds st.memory u ∨ u = t := by
  rw [Holds, made_update, Holds]
  split_ifs with hm
  · rw [hm, Contents.apply, mem_append, mem_singleton]
  · exact ⟨.inl, fun hu => hu.resolve_right fun heq => hm (heq ▸ rfl)⟩

lemma holds_update (maps other : Maps muts loaded) (m : CoreMap) :
    Holds (update maps m (other m)) u ↔ if (muts u).map = m then Holds other u else Holds maps u := by
  rw [Holds, made_update]
  split_ifs with hm
  · rw [Holds, hm]
  · rfl

/-- Each map that has been cloned has what the store has, and nothing that the memory has not. -/
def Cloned (st : Registry muts loaded) (t : Nat) (left : List CoreMap) (snapshot : Maps muts loaded) : Prop :=
  ∀ u, (muts u).map ∉ left → (Holds st.store u → Holds snapshot u) ∧ (Holds snapshot u → Holds st.memory u) ∧
    (u = t → Holds snapshot u)

def PhaseOk (st : Registry muts loaded) (t : Nat) : Phase muts loaded → Prop
  | .waiting => ¬ Holds st.memory t
  | .applied => Holds st.memory t
  | .cloning left snapshot => st.flushLock = some t ∧ Holds st.memory t ∧ st.rollbackFailed = false ∧
      st.Cloned t left snapshot
  | .failed retry => st.flushLock = some t ∧ st.Alone t ∧ (retry = false → st.rollbackFailed = false)
  | .restoring left stored retry => st.flushLock = some t ∧ st.Alone t ∧
      (retry = false → st.rollbackFailed = false) ∧ stored = st.store ∧ ∀ m ∉ left, st.memory m = st.store m
  | .returned true => Holds st.store t
  | .returned false => ¬ Holds st.store t ∧ (Holds st.memory t → st.rollbackFailed = true)

structure Accounted (st : Registry muts loaded) : Prop where
  stored : ∀ t, Holds st.store t → Holds st.memory t
  phases : ∀ t, st.PhaseOk t (st.phase t)

def Outside : Phase muts loaded → Prop
  | .waiting => True
  | .applied => True
  | .returned _ => True
  | _ => False

variable {p : Phase muts loaded}

lemma outside_cases (h : Outside p) : p = .waiting ∨ p = .applied ∨ p = .returned true ∨ p = .returned false := by
  cases p with
  | returned ok => cases ok <;> simp
  | _ => first | exact h.elim | simp

lemma settled_cases (h : p.Settled) : p = .waiting ∨ p = .returned true ∨ p = .returned false := by
  cases p with
  | returned ok => cases ok <;> simp
  | _ => first | exact h.elim | simp

lemma PhaseOk.frame (hp : Outside p) (h : st.PhaseOk u p)
    (hmem : Holds st'.memory u ↔ Holds st.memory u) (hstore : Holds st'.store u ↔ Holds st.store u)
    (hflag : st.rollbackFailed → st'.rollbackFailed) : st'.PhaseOk u p := by
  cases p with
  | waiting => exact fun hu => h (hmem.mp hu)
  | applied => exact hmem.mpr h
  | returned ok =>
    cases ok with
    | true => exact hstore.mpr h
    | false => exact ⟨fun hu => h.1 (hstore.mp hu), fun hu => hflag (h.2 (hmem.mp hu))⟩
  | _ => exact hp.elim

lemma accounted_of_move (hphase : st'.phase = (st.move t p).phase) (hs : ∀ u, Holds st'.store u → Holds st'.memory u)
    (ht : st'.PhaseOk t p) (hu : ∀ u ≠ t, st'.PhaseOk u (st.phase u)) : st'.Accounted := by
  refine ⟨hs, ?_⟩
  rw [hphase]
  exact (forall_update_iff st.phase fun u p => st'.PhaseOk u p).mpr ⟨ht, hu⟩

lemma accounted_start : (start : Registry muts loaded).Accounted :=
  ⟨fun _ ht => (nomatch ht), fun _ ht => (nomatch ht)⟩

lemma Alone.move (h : st.Alone t) (p : Phase muts loaded) : (st.move t p).Alone t :=
  ⟨h.1, fun u hu => by rw [move_ne hu]; exact h.2 u hu⟩

section

variable (h : st.Accounted)
include h

lemma Accounted.phaseAt (hp : st.phase t = p) : st.PhaseOk t p := hp ▸ h.phases t

lemma Accounted.outside (hl : st.flushLock ≠ some u) : Outside (st.phase u) := by
  have hu := h.phases u
  cases hp : st.phase u <;> rw [hp] at hu <;> first | trivial | exact hl hu.1

/-- One mutation moves on, inside the flush lock or into it or out of it, and the others see no change. -/
lemma Accounted.inside (hphase : st'.phase = (st.move t p).phase) (hmem : st'.memory = st.memory)
    (hstore : st'.store = st.store) (hflag : st.rollbackFailed → st'.rollbackFailed)
    (hl : ∀ u ≠ t, st.flushLock ≠ some u) (ht : st'.PhaseOk t p) : st'.Accounted := by
  refine accounted_of_move hphase ?_ ht fun u hut => ?_
  · rw [hmem, hstore]
    exact h.stored
  · exact (h.phases u).frame (h.outside (hl u hut)) (by rw [hmem]) (by rw [hstore]) hflag

lemma Accounted.refused (hp : st.phase t = .waiting) :
    (st.move t (.returned false)).Accounted := by
  have ht : ¬ Holds st.memory t := h.phaseAt hp
  refine accounted_of_move rfl h.stored ⟨fun hs => ht (h.stored t hs), fun hm => absurd hm ht⟩ fun u _ => ?_
  -- a mutation that is alone stays alone: the other one is still settled
  have halone : ∀ {v}, st.Alone v → (st.move t (.returned false)).Alone v := by
    rintro v ⟨hs, hset⟩
    refine ⟨hs, fun w hw => ?_⟩
    by_cases hwt : w = t
    · rw [hwt, move_self]
      trivial
    · rw [move_ne hwt]
      exact hset w hw
  have hu := h.phases u
  cases hpu : st.phase u with
  | waiting => rwa [hpu] at hu
  | applied => rwa [hpu] at hu
  | cloning => rwa [hpu] at hu
  | returned ok => cases ok <;> rwa [hpu] at hu
  | _ =>
    rw [hpu] at hu
    exact ⟨hu.1, halone hu.2.1, hu.2.2⟩

lemma Accounted.applies (hcalm : ∀ u, ¬ (st.phase u).RollingBack)
    (hv : (muts t).change (st.memory (muts t).map).value = .ok v) :
    Accounted { st.move t .applied with memory := update st.memory (muts t).map ((st.memory (muts t).map).apply hv) } := by
  refine accounted_of_move rfl (fun u hu => (holds_apply hv).mpr (.inl (h.stored u hu)))
    ((holds_apply hv).mpr (.inr rfl)) fun u hut => ?_
  have hmem := holds_apply (u := u) hv
  have hback : Holds (update st.memory (muts t).map ((st.memory (muts t).map).apply hv)) u →
      Holds st.memory u := fun hu => (hmem.mp hu).resolve_right hut
  have hu := h.phases u
  cases hpu : st.phase u with
  | failed retry => exact absurd (by rw [hpu]; trivial) (hcalm u)
  | restoring left stored retry => exact absurd (by rw [hpu]; trivial) (hcalm u)
  | waiting =>
    rw [hpu] at hu
    exact fun hn => hu (hback hn)
  | applied =>
    rw [hpu] at hu
    exact hmem.mpr (.inl hu)
  | cloning left snapshot =>
    rw [hpu] at hu
    obtain ⟨hl, hm, hf, hc⟩ := hu
    refine ⟨hl, hmem.mpr (.inl hm), hf, fun w hw => ?_⟩
    obtain ⟨hs, hsub, hself⟩ := hc w hw
    exact ⟨hs, fun hsn => (holds_apply hv).mpr (.inl (hsub hsn)), hself⟩
  | returned ok =>
    rw [hpu] at hu
    cases ok with
    | true => exact hu
    | false => exact ⟨hu.1, fun hn => hu.2 (hback hn)⟩

lemma Accounted.persists (hp : st.phase t = .cloning [] snapshot) :
    Accounted { st.move t (.returned true) with store := snapshot, flushLock := none } := by
  obtain ⟨hl, -, hflag, hcloned⟩ := h.phaseAt hp
  have hall := fun u => hcloned u not_mem_nil
  refine accounted_of_move rfl (fun u hu => (hall u).2.1 hu) ((hall t).2.2 rfl) fun u hut => ?_
  have hu := h.phases u
  have hout := h.outside (u := u) (by rw [hl]; exact fun heq => hut (some.inj heq).symm)
  rcases outside_cases hout with hpu | hpu | hpu | hpu <;> rw [hpu] at hu ⊢
  · exact hu
  · exact hu
  · exact (hall u).1 hu
  · -- a change that was rolled back is not in memory, so no clone has it
    have hnot : ¬ Holds st.memory u := fun hm => by
      rw [hu.2 hm] at hflag
      cases hflag
    exact ⟨fun hs => hnot ((hall u).2.1 hs), fun hm => absurd hm hnot⟩

lemma Accounted.restores {m : CoreMap} {left : List CoreMap}
    {stored : Maps muts loaded} (hp : st.phase t = .restoring (m :: left) stored retry) :
    Accounted { st.move t (.restoring left stored retry) with memory := update st.memory m (stored m) } := by
  obtain ⟨hl, halone, hretry, rfl, hsame⟩ := h.phaseAt hp
  have hmem := fun u => holds_update (u := u) st.memory st.store m
  have hkeep : ∀ u, Holds st.store u → Holds (update st.memory m (st.store m)) u := by
    intro u hu
    rw [hmem]
    split_ifs
    · exact hu
    · exact h.stored u hu
  have hback : ∀ u, ¬ Holds st.store u → Holds (update st.memory m (st.store m)) u → Holds st.memory u := by
    intro u hs hu
    rw [hmem] at hu
    split_ifs at hu
    · exact absurd hu hs
    · exact hu
  refine accounted_of_move rfl hkeep ⟨hl, halone.move _, hretry, rfl, fun m' hm' => ?_⟩ fun u hut => ?_
  · by_cases heq : m' = m
    · subst heq
      exact update_self ..
    · exact (update_of_ne heq _ _).trans
        (hsame m' fun hin => (mem_cons.mp hin).elim heq hm')
  · have hu := h.phases u
    rcases settled_cases (halone.2 u hut) with hpu | hpu | hpu <;> rw [hpu] at hu ⊢
    · exact fun hn => hu (hback u (fun hs => hu (h.stored u hs)) hn)
    · exact hu
    · exact ⟨hu.1, fun hn => hu.2 (hback u hu.1 hn)⟩

lemma Accounted.finishes {stored : Maps muts loaded}
    (hp : st.phase t = .restoring [] stored retry) : Accounted { st.move t (.returned false) with
      rollbackFailed := if retry then false else st.rollbackFailed
      flushLock := none } := by
  obtain ⟨hl, halone, hretry, rfl, hsame⟩ := h.phaseAt hp
  have hback : ∀ u, Holds st.memory u → Holds st.store u := by
    intro u hu
    rw [Holds, hsame _ not_mem_nil] at hu
    exact hu
  refine accounted_of_move rfl h.stored ⟨halone.1, fun hm => absurd (hback t hm) halone.1⟩ fun u hut => ?_
  have hu := h.phases u
  rcases settled_cases (halone.2 u hut) with hpu | hpu | hpu <;> rw [hpu] at hu ⊢
  · exact hu
  · exact hu
  · exact ⟨hu.1, fun hm => absurd (hback u hm) hu.1⟩

lemma Accounted.step (hcalm : st.Calm e) (hs : st.step e = some st') : st'.Accounted := by
  have hheld : ∀ {t}, st.flushLock = some t → ∀ u ≠ t, st.flushLock ≠ some u := by
    intro t hl u hut heq
    exact hut (some.inj (heq.symm.trans hl))
  cases steps_of_step hs with
  | refused hp => exact h.refused hp
  | applied hp hv => exact h.applies hcalm hv
  | persisted hp => exact h.persists hp
  | restored hp => exact h.restores hp
  | finished hp => exact h.finishes hp
  | retried hp hl hf => exact h.inside rfl rfl rfl id (fun u _ => by rw [hl]; nofun) ⟨rfl, (hcalm hf).move _, nofun⟩
  | entered hp hl hf =>
    exact h.inside rfl rfl rfl id (fun u _ => by rw [hl]; nofun)
      ⟨rfl, h.phaseAt hp, hf, fun u hu => absurd (CoreMap.mem_all _) hu⟩
  | cloned hp =>
    obtain ⟨hl, hm, hf, hc⟩ := h.phaseAt hp
    refine h.inside rfl rfl rfl id (hheld hl) ⟨hl, hm, hf, fun u hu => ?_⟩
    rw [holds_update]
    split_ifs with hum
    · exact ⟨h.stored u, id, fun hut => hut ▸ hm⟩
    · exact hc u fun hin => (mem_cons.mp hin).elim hum hu
  | notPersisted hp =>
    obtain ⟨hl, -, hf, -⟩ := h.phaseAt hp
    exact h.inside rfl rfl rfl id (hheld hl) ⟨hl, Alone.move hcalm _, fun _ => hf⟩
  | loaded hp =>
    obtain ⟨hl, halone, hretry⟩ := h.phaseAt hp
    exact h.inside rfl rfl rfl id (hheld hl)
      ⟨hl, halone.move _, hretry, rfl, fun m hm => absurd (CoreMap.mem_all m) hm⟩
  | notLoaded hp =>
    obtain ⟨hl, halone, -⟩ := h.phaseAt hp
    exact h.inside rfl rfl rfl (fun _ => rfl) (hheld hl) ⟨halone.1, fun _ => rfl⟩

end

lemma Reached.accounted (h : Reached Calm st) : st.Accounted := by
  induction h with
  | start => exact accounted_start
  | step _ hcalm hs ih => exact ih.step hcalm hs

lemma rollbackFailed_of_loads {P : Registry muts loaded → Event → Prop}
    (h : Reached (fun st e => P st e ∧ e.Loads) st) : st.rollbackFailed = false := by
  induction h with
  | start => rfl
  | step _ ha hs ih =>
    cases steps_of_step hs with
    | notLoaded => cases ha.2
    | finished =>
      change (if _ then false else _) = false
      rw [ih, ite_self]
    | _ => exact ih

/-- In every run in which maps are rolled back only if no other mutation is under way or has stored its change, and
none starts meanwhile: a mutation that returned Ok is in the store and in memory; one that returned an error is not in
the store, nor in memory unless a restore is still owed. -/
theorem mutations_atomic (h : Reached Calm st) (t : Nat) :
    (st.phase t = .returned true → Holds st.store t ∧ Holds st.memory t) ∧
    (st.phase t = .returned false → ¬ Holds st.store t ∧ (st.rollbackFailed = false → ¬ Holds st.memory t)) ∧
    (Reached (fun st e => st.Calm e ∧ e.Loads) st → st.phase t = .returned false → ¬ Holds st.memory t) := by
  have hacc := h.accounted
  have ht := hacc.phases t
  have herror : st.phase t = .returned false →
      ¬ Holds st.store t ∧ (st.rollbackFailed = false → ¬ Holds st.memory t) := by
    intro hp
    rw [hp] at ht
    refine ⟨ht.1, fun hf hm => ?_⟩
    rw [ht.2 hm] at hf
    cases hf
  refine ⟨fun hp => ?_, herror, fun hl hp => (herror hp).2 (rollbackFailed_of_loads hl)⟩
  rw [hp] at ht
  exact ⟨ht, hacc.stored t ht⟩

lemma Reached.run {P : Registry muts loaded → Event → Prop} (h : Reached P st) (events : List Event)
    (hall : ∀ st, ∀ e ∈ events, P st e) (hrun : st.run events = some st') : Reached P st' := by
  induction events generalizing st with
  | nil =>
    cases hrun
    exact h
  | cons e events ih =>
    rw [Registry.run, foldlM_cons] at hrun
    obtain ⟨next, hnext, hrest⟩ := bind_eq_some_iff.mp hrun
    exact ih (h.step (hall st e mem_cons_self) hnext)
      (fun st e he => hall st e (mem_cons_of_mem _ he)) hrest

def Event.mutation : Event → Nat
  | .apply t | .enter t | .clone t | .persist t _ | .load t _ | .restore t | .finish t => t

lemma run_frame {events : List Event} (hrun : st.run events = some st')
    (hu : ∀ e ∈ events, u ≠ Event.mutation e) : st'.phase u = st.phase u := by
  induction events generalizing st with
  | nil =>
    cases hrun
    rfl
  | cons e events ih =>
    rw [Registry.run, foldlM_cons] at hrun
    obtain ⟨next, hnext, hrest⟩ := bind_eq_some_iff.mp hrun
    rw [ih hrest fun e he => hu e (mem_cons_of_mem _ he)]
    have hne := hu e mem_cons_self
    cases steps_of_step hnext <;> exact move_ne hne _

namespace Sample

def creates (t : Nat) : Mutation (Indexes Nat) RegistryError :=
  ⟨.indexes, create ⟨if t = 0 then "a" else "b", 1, none, 0⟩⟩

def flush (t : Nat) (ok : Bool) : List Event := .enter t :: List.replicate 7 (.clone t) ++ [.persist t ok]

def rollback (t : Nat) : List Event := .load t true :: List.replicate 7 (.restore t) ++ [.finish t]

abbrev State := Registry creates (fun _ => (.empty : Indexes Nat))

def lost : List Event := [.apply 0, .apply 1] ++ flush 1 false ++ rollback 1 ++ flush 0 true

def leaked : List Event := [.apply 0, .apply 1] ++ flush 0 true ++ flush 1 false ++ rollback 1

def after (events : List Event) : State := ((start : State).run events).getD start

end Sample

open Sample

/-- The first mutation fails alone and is rolled back; the next one succeeds. -/
theorem mutation_after_failed_one :
    let st := after (.apply 1 :: flush 1 false ++ rollback 1 ++ .apply 0 :: flush 0 true)
    Reached Calm st ∧ (¬ Holds st.store 1 ∧ ¬ Holds st.memory 1) ∧ Holds st.store 0 ∧ Holds st.memory 0 := by
  intro st
  have hothers : ∀ events : List Event, (start : State).run events = some (after events) →
      (∀ e ∈ events, Event.mutation e = 1) → ∀ u ≠ 1, (after events).phase u = .waiting :=
    fun events hrun hall u hu => run_frame hrun fun e he => hall e he ▸ hu
  have happlied : Reached Calm (after [.apply 1]) := .step (e := .apply 1) .start (fun _ h => h) rfl
  have hentered : Reached Calm (after [.apply 1, .enter 1]) :=
    .step (e := .enter 1) happlied (fun h => absurd h (by decide +kernel)) rfl
  have hcloned : Reached Calm (after (.apply 1 :: .enter 1 :: List.replicate 7 (.clone 1))) :=
    hentered.run (List.replicate 7 (.clone 1)) (fun st e he => eq_of_mem_replicate he ▸ trivial) rfl
  have hfailed : Reached Calm (after (.apply 1 :: flush 1 false)) :=
    hcloned.step (e := .persist 1 false) ⟨by decide +kernel, fun u hu => by
      rw [hothers _ rfl (by decide) u hu]
      trivial⟩ rfl
  have hrestored : Reached Calm (after (.apply 1 :: flush 1 false ++ rollback 1)) :=
    hfailed.run (rollback 1) (fun st e he => by
      revert e
      simp [rollback, Calm]) rfl
  have hnext : Reached Calm (after (.apply 1 :: flush 1 false ++ rollback 1 ++ [.apply 0])) :=
    hrestored.step (e := .apply 0) (fun u => by
      by_cases hu : u = 1
      · subst hu
        exact id
      · rw [hothers _ rfl (by decide) u hu]
        exact id) rfl
  have hreached : Reached Calm st :=
    (hnext.step (e := .enter 0) (fun h => absurd h (by decide +kernel)) rfl).run
      (List.replicate 7 (.clone 0) ++ [.persist 0 true]) (fun st e he => by
      revert e
      simp [Calm]) rfl
  have herror := (mutations_atomic hreached 1).2.1 rfl
  exact ⟨hreached, ⟨herror.1, herror.2 rfl⟩, (mutations_atomic hreached 0).1 rfl⟩

/-- A mutation that overlaps another returns Ok and is gone, or returns an error and is stored. -/
theorem mutations_not_atomic :
    (∃ st, (start : State).run lost = some st ∧ st.phase 0 = .returned true ∧
      ¬ Holds st.store 0 ∧ ¬ Holds st.memory 0) ∧
    ∃ st, (start : State).run leaked = some st ∧ st.phase 1 = .returned false ∧
      Holds st.store 1 ∧ Holds st.memory 1 :=
  ⟨⟨_, rfl, rfl, by decide +kernel, by decide +kernel⟩, _, rfl, rfl, by decide +kernel, by decide +kernel⟩

end GrowlerDB.ControlPlane.Registry
