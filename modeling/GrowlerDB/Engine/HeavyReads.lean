import GrowlerDB.Lib.Results
import GrowlerDB.Lib.Runs
import Mathlib.Logic.Function.Basic
import Mathlib.Data.Finset.Card
import Mathlib.Data.List.Nodup

namespace GrowlerDB.Engine
open Lib List Function

inductive ReadPhase
  | acquired
  | checking (globalFreeAfter : Nat)
  | deciding (globalFreeAfter live cur : Nat)
  | admitted
  | releasing
  | shed
  | finished
  deriving DecidableEq

def ReadPhase.holdsPermit : ReadPhase → Bool
  | .shed | .finished => false
  | _ => true

structure HeavyReads where
  nodeCap : Nat
  liveIndexes : Nat
  available : Nat
  inFlight : Nat → Nat
  calls : List (Nat × ReadPhase)

inductive HeavyEvent
  | arrive (index : Nat)
  | readFree (k : Nat)
  | load (k : Nat)
  | exchange (k : Nat) (spurious : Bool)
  | dropIndex (k : Nat)
  | dropGlobal (k : Nat)

def fairShare (nodeCap live : Nat) : Nat := max (nodeCap / live) 1

namespace HeavyReads

section

variable (s : HeavyReads)

def goOn (k index : Nat) (phase : ReadPhase) : HeavyReads :=
  { s with calls := s.calls.set k (index, phase) }

@[simp]
lemma goOn_available (k index : Nat) (phase : ReadPhase) :
    (s.goOn k index phase).available = s.available := rfl

@[simp]
lemma goOn_inFlight (k index : Nat) (phase : ReadPhase) :
    (s.goOn k index phase).inFlight = s.inFlight := rfl

def live : Nat := max s.liveIndexes 1

def step : HeavyEvent → HeavyReads
  | .arrive index =>
    if s.available = 0 then { s with calls := s.calls ++ [(index, .shed)] }
    else { s with available := s.available - 1, calls := s.calls ++ [(index, .acquired)] }
  | .readFree k =>
    match s.calls[k]? with
    | some (index, .acquired) => s.goOn k index (.checking s.available)
    | _ => s
  | .load k =>
    match s.calls[k]? with
    | some (index, .checking free) => s.goOn k index (.deciding free s.live (s.inFlight index))
    | _ => s
  | .exchange k spurious =>
    match s.calls[k]? with
    | some (index, .deciding free live cur) =>
      if fairShare s.nodeCap live ≤ cur ∧ free < live - 1 then
        { s.goOn k index .shed with available := s.available + 1 }
      else if s.inFlight index = cur ∧ spurious = false then
        { s.goOn k index .admitted with inFlight := update s.inFlight index (cur + 1) }
      -- Another call has changed the counter, or the exchange has failed for no reason.
      else s.goOn k index (.deciding free live (s.inFlight index))
    | _ => s
  | .dropIndex k =>
    match s.calls[k]? with
    | some (index, .admitted) =>
      { s.goOn k index .releasing with inFlight := update s.inFlight index (s.inFlight index - 1) }
    | _ => s
  | .dropGlobal k =>
    match s.calls[k]? with
    | some (index, .releasing) => { s.goOn k index .finished with available := s.available + 1 }
    | _ => s

def idle (nodeCap liveIndexes : Nat) : HeavyReads := ⟨nodeCap, liveIndexes, nodeCap, fun _ => 0, []⟩

def Served (e : HeavyEvent) : Prop := ∀ index, e = .arrive index → index < s.live

def guards (index : Nat) : Nat := s.calls.countP (fun c => c = (index, .admitted))

def admitted (s : HeavyReads) : Nat := s.calls.countP (fun c => c.2 = .admitted)

def held (index : Nat) : Nat := s.calls.countP (fun c => c.1 = index ∧ c.2.holdsPermit)

def admitHeavy (index : Nat) : HeavyReads :=
  [.arrive index, .readFree s.calls.length, .load s.calls.length, .exchange s.calls.length false].foldl step s

def release (k : Nat) : HeavyReads := [.dropIndex k, .dropGlobal k].foldl step s

def Admits (index : Nat) : Prop :=
  (s.admitHeavy index).calls[s.calls.length]? = some (index, .admitted)

/-- An index that has fewer reads than its share is admitted. -/
def Promised : Prop :=
  ∀ index < s.live, s.held index < fairShare s.nodeCap s.live → s.Admits index

end

/-- What every operation keeps: the permits are those of the semaphore, and a counter counts the guards. -/
structure Accounted (s : HeavyReads) (nodeCap liveIndexes : Nat) : Prop where
  cap_eq : s.nodeCap = nodeCap
  live_eq : s.liveIndexes = liveIndexes
  permits : s.available + s.calls.countP (fun c => c.2.holdsPermit) = nodeCap
  counter : ∀ index, s.inFlight index = s.guards index
  served : ∀ c ∈ s.calls, c.1 < s.live

namespace Accounted
variable {s : HeavyReads} {nodeCap liveIndexes : Nat}

lemma idle (nodeCap liveIndexes : Nat) : (idle nodeCap liveIndexes).Accounted nodeCap liveIndexes :=
  ⟨rfl, rfl, rfl, fun _ => rfl, fun _ h => absurd h not_mem_nil⟩

lemma goOn (h : s.Accounted nodeCap liveIndexes) {p q : ReadPhase}
    (hk : s.calls[k]? = some (index, p))
    (ha : a + (if q.holdsPermit then 1 else 0) = s.available + if p.holdsPermit then 1 else 0)
    (hf : ∀ j, f j + (if (index, p) = (j, .admitted) then 1 else 0) =
      s.inFlight j + if (index, q) = (j, .admitted) then 1 else 0) :
    Accounted { s.goOn k index q with available := a, inFlight := f } nodeCap liveIndexes := by
  refine ⟨h.cap_eq, h.live_eq, ?_, fun j => ?_, fun c hc => ?_⟩
  · have hset := countP_set_add (b := (index, q)) (fun c : Nat × ReadPhase => c.2.holdsPermit) hk
    have := h.permits
    simp only [HeavyReads.goOn] at hset ⊢
    omega
  · have hset := countP_set_add (b := (index, q)) (fun c : Nat × ReadPhase => decide (c = (j, .admitted))) hk
    have hcounter := h.counter j
    have := hf j
    simp only [decide_eq_true_eq, guards, HeavyReads.goOn] at hset hcounter ⊢
    omega
  · rcases mem_or_eq_of_mem_set hc with hc | rfl
    · exact h.served c hc
    · exact h.served (index, p) (mem_of_getElem? hk)

lemma arrive (h : s.Accounted nodeCap liveIndexes) {q : ReadPhase} (hi : index < s.live)
    (ha : a + (if q.holdsPermit then 1 else 0) = s.available) (hq : q ≠ .admitted) :
    Accounted { s with available := a, calls := s.calls ++ [(index, q)] } nodeCap liveIndexes := by
  refine ⟨h.cap_eq, h.live_eq, ?_, fun j => ?_, fun c hc => ?_⟩
  · have := h.permits
    simp only [countP_append, countP_singleton]
    omega
  · have hnot : ¬ (index, q) = (j, .admitted) := fun heq => hq (Prod.mk.inj heq).2
    rw [guards, countP_append, countP_singleton, decide_eq_false hnot]
    exact h.counter j
  · rcases mem_append.mp hc with hc | hc
    · exact h.served c hc
    · rw [mem_singleton.mp hc]
      exact hi

lemma step (h : s.Accounted nodeCap liveIndexes) {e : HeavyEvent} (he : s.Served e) :
    (s.step e).Accounted nodeCap liveIndexes := by
  cases e with
  | arrive index =>
    rw [HeavyReads.step]
    split_ifs with hfree
    · exact h.arrive (he index rfl) rfl (by decide)
    · exact h.arrive (he index rfl) (Nat.sub_add_cancel (Nat.pos_of_ne_zero hfree)) (by decide)
  | readFree k =>
    dsimp only [HeavyReads.step]
    split
    · rename_i index hk
      exact h.goOn hk rfl fun j => by simp
    · exact h
  | load k =>
    dsimp only [HeavyReads.step]
    split
    · rename_i index free hk
      exact h.goOn hk rfl fun j => by simp
    · exact h
  | exchange k spurious =>
    dsimp only [HeavyReads.step]
    split
    · rename_i index free live cur hk
      split_ifs with hshed hswap
      · exact h.goOn hk rfl fun j => by simp
      · refine h.goOn hk rfl fun j => ?_
        by_cases hj : j = index
        · rw [hj, update_self, hswap.1]
          simp
        · rw [update_of_ne hj]
          simp [Ne.symm hj]
      · exact h.goOn hk rfl fun j => by simp
    · exact h
  | dropIndex k =>
    dsimp only [HeavyReads.step]
    split
    · rename_i index hk
      refine h.goOn hk rfl fun j => ?_
      by_cases hj : j = index
      · have hpos : 0 < s.inFlight index := by
          rw [h.counter, guards]
          exact countP_pos_iff.mpr ⟨_, mem_of_getElem? hk, decide_eq_true rfl⟩
        rw [hj, update_self]
        simp
        omega
      · rw [update_of_ne hj]
        simp [Ne.symm hj]
    · exact h
  | dropGlobal k =>
    dsimp only [HeavyReads.step]
    split
    · rename_i index hk
      exact h.goOn hk rfl fun j => by simp
    · exact h

lemma run (h : Runs HeavyReads.step Served (HeavyReads.idle nodeCap liveIndexes) s) :
    s.Accounted nodeCap liveIndexes :=
  h.invariant (idle nodeCap liveIndexes) fun s _ he (hs : s.Accounted nodeCap liveIndexes) => hs.step he

lemma admitted_le (h : s.Accounted nodeCap liveIndexes) : s.admitted ≤ nodeCap := by
  have hle : s.admitted ≤ s.calls.countP (·.2.holdsPermit) := by
    apply countP_mono_left
    intro c _ hc
    rw [of_decide_eq_true hc]
    rfl
  have := h.permits
  omega

end Accounted

end HeavyReads

open HeavyReads

inductive WholeCall
  | admitHeavy (index : Nat)
  | release (k : Nat)

namespace HeavyReads
variable {s : HeavyReads} {nodeCap liveIndexes index k : Nat}

def whole (s : HeavyReads) : WholeCall → HeavyReads
  | .admitHeavy index => s.admitHeavy index
  | .release k => s.release k

def ServedWhole (s : HeavyReads) (c : WholeCall) : Prop := ∀ index, c = .admitHeavy index → index < s.live

lemma set_concat {α : Type} (l : List α) (a b : α) : (l ++ [a]).set l.length b = l ++ [b] := by
  rw [set_append_right _ _ (Nat.le_refl _), Nat.sub_self]
  rfl

lemma admitHeavy_eq (s : HeavyReads) (index : Nat) : s.admitHeavy index =
      if s.available = 0 ∨ fairShare s.nodeCap s.live ≤ s.inFlight index ∧ s.available < s.live then
        { s with calls := s.calls ++ [(index, .shed)] }
      else { s with
        available := s.available - 1
        inFlight := update s.inFlight index (s.inFlight index + 1)
        calls := s.calls ++ [(index, .admitted)] } := by
  have hat : ∀ phase, (s.calls ++ [(index, phase)])[s.calls.length]? = some (index, phase) :=
    fun _ => List.getElem?_concat_length
  by_cases hfree : s.available = 0
  · simp only [admitHeavy, foldl_cons, foldl_nil, step, hfree, if_true, hat, true_or]
  · have hreserve : s.available - 1 < s.live - 1 ↔ s.available < s.live := by omega
    have hback : s.available - 1 + 1 = s.available := Nat.sub_add_cancel (Nat.pos_of_ne_zero hfree)
    have hlive : ∀ a f c, (mk s.nodeCap s.liveIndexes a f c).live = s.live := fun _ _ _ => rfl
    simp only [admitHeavy, foldl_cons, foldl_nil, step, hfree, if_false, hat, goOn, set_concat, false_or,
      hlive, hreserve, hback, and_self, if_true]

lemma admits_iff :
    s.Admits index ↔ 0 < s.available ∧ (s.inFlight index < fairShare s.nodeCap s.live ∨ s.live ≤ s.available) := by
  rw [Admits, admitHeavy_eq]
  split_ifs with hshed
  · rw [List.getElem?_concat_length]
    refine ⟨fun h => ?_, fun h => ?_⟩
    · cases h
    · omega
  · rw [List.getElem?_concat_length]
    exact ⟨fun _ => by omega, fun _ => rfl⟩

lemma release_eq (hk : s.calls[k]? = some (index, .admitted)) : s.release k = { s with
      available := s.available + 1
      inFlight := update s.inFlight index (s.inFlight index - 1)
      calls := s.calls.set k (index, .finished) } := by
  have hlt := (List.getElem?_eq_some_iff.mp hk).1
  simp only [release, foldl_cons, foldl_nil, step, hk, goOn, List.getElem?_set_self hlt, set_set]

lemma runs_of_whole (h : Runs whole ServedWhole s0 s) : Runs step Served s0 s := by
  induction h with
  | start => exact .start
  | step h ha ih =>
    rename_i s e
    cases e with
    | admitHeavy index =>
      refine ih.foldl _ ⟨fun j hj => ?_, ?_⟩
      · cases hj
        exact ha index rfl
      · exact ⟨fun _ hj => (by cases hj), fun _ hj => (by cases hj), fun _ hj => (by cases hj), trivial⟩
    | release k => exact ih.foldl _ ⟨fun _ hj => (by cases hj), fun _ hj => (by cases hj), trivial⟩

def Settled (s : HeavyReads) : Prop := ∀ c ∈ s.calls, c.2 = .admitted ∨ c.2.holdsPermit = false

lemma Settled.admitHeavy (h : s.Settled) (index : Nat) : (s.admitHeavy index).Settled := by
  rw [admitHeavy_eq]
  split_ifs
  · intro c hc
    rcases mem_append.mp hc with hc | hc
    · exact h c hc
    · exact .inr (by rw [mem_singleton.mp hc]; rfl)
  · intro c hc
    rcases mem_append.mp hc with hc | hc
    · exact h c hc
    · exact .inl (by rw [mem_singleton.mp hc])

lemma Settled.release_cases (h : s.Settled) (k : Nat) :
    s.release k = s ∨ ∃ index, s.calls[k]? = some (index, .admitted) := by
  cases hk : s.calls[k]? with
  | none => exact .inl (by simp only [release, foldl_cons, foldl_nil, step, hk])
  | some c =>
    obtain ⟨index, phase⟩ := c
    rcases h _ (mem_of_getElem? hk) with hadm | hfree
    · cases hadm
      exact .inr ⟨index, rfl⟩
    · refine .inl ?_
      cases phase with
      | shed | finished => simp only [release, foldl_cons, foldl_nil, step, hk]
      | _ => cases hfree

lemma Settled.release (h : s.Settled) (k : Nat) : (s.release k).Settled := by
  rcases h.release_cases k with heq | ⟨index, hk⟩
  · rwa [heq]
  · rw [release_eq hk]
    intro c hc
    rcases mem_or_eq_of_mem_set hc with hc | rfl
    · exact h c hc
    · exact .inr rfl

lemma Settled.run (h : Runs whole ServedWhole (idle nodeCap liveIndexes) s) : s.Settled := by
  refine h.invariant (P := Settled) (fun c hc => absurd hc not_mem_nil) ?_
  rintro s (index | k) - hs
  · exact hs.admitHeavy index
  · exact hs.release k

lemma Settled.held_eq (h : s.Settled) (ha : s.Accounted nodeCap liveIndexes) (index : Nat) :
    s.held index = s.inFlight index := by
  rw [ha.counter, held, guards]
  apply countP_congr
  intro c hc
  obtain ⟨j, phase⟩ := c
  have hset : phase = .admitted ∨ phase.holdsPermit = false := h _ hc
  simp only [decide_eq_true_eq, Prod.mk.injEq]
  refine and_congr_right fun _ => ⟨fun hp => hset.resolve_right (by rw [hp]; decide), fun hp => ?_⟩
  rw [hp]
  rfl

def readless (n : Nat) (f : Nat → Nat) : Finset Nat := (Finset.range n).filter (fun i => f i = 0)

lemma mem_readless : i ∈ readless n f ↔ i < n ∧ f i = 0 := by
  rw [readless, Finset.mem_filter, Finset.mem_range]

lemma readless_update_le (n i v : Nat) (f : Nat → Nat) :
    (readless n (update f i v)).card ≤ (readless n f).card + 1 := by
  refine (Finset.card_le_card fun j hj => ?_).trans (Finset.card_insert_le i _)
  rw [mem_readless] at hj
  rw [Finset.mem_insert, mem_readless]
  by_cases hji : j = i
  · exact .inl hji
  · rw [update_of_ne hji] at hj
    exact .inr hj

lemma readless_update (n i : Nat) (f : Nat → Nat) : readless n (update f i (f i + 1)) = (readless n f).erase i := by
  ext j
  rw [mem_readless, Finset.mem_erase, mem_readless]
  by_cases hji : j = i
  · simp [hji]
  · simp [hji]

lemma readless_card_lt (hi : i < n) (hf : f i ≠ 0) : (readless n f).card < n := by
  have hss : readless n f ⊂ Finset.range n := Finset.filter_ssubset.mpr ⟨i, Finset.mem_range.mpr hi, hf⟩
  simpa using Finset.card_lt_card hss

/-- There is a permit for every index without a read. -/
def Reserved (s : HeavyReads) : Prop := (readless s.live s.inFlight).card ≤ s.available

lemma Reserved.admitHeavy (h : s.Reserved) (hi : index < s.live) (hshare : fairShare s.nodeCap s.live = 1) :
    (s.admitHeavy index).Reserved := by
  rw [admitHeavy_eq]
  split_ifs with hshed
  · exact h
  · change (readless s.live (update s.inFlight index (s.inFlight index + 1))).card ≤ s.available - 1
    have hle : (readless s.live s.inFlight).card ≤ s.available := h
    rw [readless_update]
    by_cases hzero : s.inFlight index = 0
    · rw [Finset.card_erase_of_mem (mem_readless.mpr ⟨hi, hzero⟩)]
      omega
    -- A further read is an overflow, and leaves a permit for each of the other indexes.
    · rw [Finset.erase_eq_of_notMem fun hmem => hzero (mem_readless.mp hmem).2]
      have := readless_card_lt hi hzero
      omega

lemma Reserved.release (h : s.Reserved) (hs : s.Settled) (k : Nat) : (s.release k).Reserved := by
  rcases hs.release_cases k with heq | ⟨index, hk⟩
  · rwa [heq]
  · rw [release_eq hk]
    exact (readless_update_le _ _ _ _).trans (Nat.succ_le_succ h)

section
variable {n : Nat}

lemma live_of_run (hn : 1 ≤ n) (h : s.Accounted nodeCap n) : s.live = n := by
  rw [live, h.live_eq]
  exact Nat.max_eq_left hn

lemma fairShare_one (hlow : n ≤ nodeCap) (hhigh : nodeCap < 2 * n) : fairShare nodeCap n = 1 := by
  have : nodeCap / n = 1 := Nat.div_eq_of_lt_le (by omega) (by omega)
  rw [fairShare, this]
  rfl

lemma Reserved.run (hn : 1 ≤ n) (hlow : n ≤ nodeCap) (hhigh : nodeCap < 2 * n)
    (h : Runs whole ServedWhole (idle nodeCap n) s) : s.Reserved := by
  induction h with
  | start =>
    refine (Finset.card_le_card (Finset.filter_subset _ _)).trans ?_
    rwa [Finset.card_range, live_of_run hn (Accounted.idle nodeCap n)]
  | step h ha ih =>
    rename_i s e
    have hacc := Accounted.run (runs_of_whole h)
    cases e with
    | admitHeavy index =>
      refine ih.admitHeavy (ha index rfl) ?_
      rw [hacc.cap_eq, live_of_run hn hacc]
      exact fairShare_one hlow hhigh
    | release k => exact ih.release (Settled.run h) k

lemma promised_of_reserved (hn : 1 ≤ n) (hlow : n ≤ nodeCap) (hhigh : nodeCap < 2 * n)
    (h : Runs whole ServedWhole (idle nodeCap n) s) : s.Promised := by
  have hacc := Accounted.run (runs_of_whole h)
  intro index hi hheld
  rw [(Settled.run h).held_eq hacc] at hheld
  have hzero : s.inFlight index = 0 := by
    have hone := fairShare_one hlow hhigh
    rw [hacc.cap_eq, live_of_run hn hacc, hone] at hheld
    omega
  have hpos := Finset.card_pos.mpr ⟨index, mem_readless.mpr ⟨hi, hzero⟩⟩
  exact admits_iff.mpr ⟨Nat.lt_of_lt_of_le hpos (Reserved.run hn hlow hhigh h), .inl hheld⟩

lemma promised_of_single (hcap : 1 ≤ nodeCap) (h : s.Accounted nodeCap 1) : s.Promised := by
  have hlive := live_of_run (Nat.le_refl 1) h
  intro index hi hheld
  rw [hlive] at hi
  have hall : s.calls.countP (·.2.holdsPermit) = s.held index := by
    apply countP_congr
    intro c hc
    have := h.served c hc
    have hindex : c.1 = index := by omega
    simp [hindex]
  have hshare : fairShare s.nodeCap s.live = nodeCap := by
    rw [hlive, h.cap_eq, fairShare, Nat.div_one]
    exact Nat.max_eq_left hcap
  have := h.permits
  rw [hall] at this
  rw [hshare] at hheld
  refine admits_iff.mpr ⟨by omega, .inr ?_⟩
  rw [hlive]
  omega

lemma not_admits (h : s.available = 0) : ¬ s.Admits index :=
  fun ha => absurd (admits_iff.mp ha).1 (by omega)

/-- A flood on the first index takes all permits but the reserve, or none; then other indexes take one each. -/
lemma exists_flooded (hn : 1 ≤ n) (m j : Nat) (hm : m = 0 ∨ m + n ≤ nodeCap + 1) (hj : j < n)
    (hmj : m + j ≤ nodeCap) :
    ∃ s, Runs whole ServedWhole (idle nodeCap n) s ∧ s.available + m + j = nodeCap ∧
      ∀ i, s.inFlight i = if i = 0 then m else if i ≤ j then 1 else 0 := by
  induction j with
  | zero =>
    induction m with
    | zero => exact ⟨_, .start, rfl, fun i => by split_ifs <;> first | rfl | omega⟩
    | succ m ih =>
      obtain ⟨s, h, havail, hflight⟩ := ih (.inr (by omega)) (by omega)
      have hacc := Accounted.run (runs_of_whole h)
      have hlive := live_of_run hn hacc
      have hnot : ¬ (s.available = 0 ∨ fairShare s.nodeCap s.live ≤ s.inFlight 0 ∧ s.available < s.live) := by
        rw [hlive]
        omega
      refine ⟨_, h.step (e := .admitHeavy 0) fun i hi => ?_, ?_⟩
      · cases hi
        rw [hlive]
        exact hn
      · rw [whole, admitHeavy_eq, if_neg hnot]
        refine ⟨?_, fun i => ?_⟩
        · dsimp only
          omega
        · dsimp only
          by_cases hi : i = 0
          · rw [hi, update_self, hflight, if_pos rfl, if_pos rfl]
          · rw [update_of_ne hi, hflight, if_neg hi, if_neg hi]
  | succ j ih =>
    obtain ⟨s, h, havail, hflight⟩ := ih (by omega) (by omega)
    have hlive := live_of_run hn (Accounted.run (runs_of_whole h))
    have hnone : s.inFlight (j + 1) = 0 := by rw [hflight, if_neg (by omega), if_neg (by omega)]
    have hnot : ¬ (s.available = 0 ∨ fairShare s.nodeCap s.live ≤ s.inFlight (j + 1) ∧ s.available < s.live) := by
      have : 1 ≤ fairShare s.nodeCap s.live := Nat.le_max_right _ _
      omega
    refine ⟨_, h.step (e := .admitHeavy (j + 1)) fun i hi => ?_, ?_⟩
    · cases hi
      rwa [hlive]
    · rw [whole, admitHeavy_eq, if_neg hnot]
      refine ⟨?_, fun i => ?_⟩
      · dsimp only
        omega
      · dsimp only
        by_cases hi : i = j + 1
        · rw [hi, update_self, hnone, if_neg (by omega), if_pos (by omega)]
        · rw [update_of_ne hi, hflight]
          have : i ≤ j ↔ i ≤ j + 1 := by omega
          simp [this]

lemma config_of_promised (hn : 1 ≤ n)
    (h : ∀ s, Runs whole ServedWhole (idle nodeCap n) s → s.Promised) :
    n = 1 ∨ n ≤ nodeCap ∧ nodeCap < 2 * n := by
  by_contra hnot
  have hrefused : ∀ (s : HeavyReads) (index : Nat), Runs whole ServedWhole (idle nodeCap n) s →
      s.available = 0 → index < n → s.inFlight index < fairShare nodeCap n → False := by
    intro s index hs hfull hi hless
    have hacc := Accounted.run (runs_of_whole hs)
    refine not_admits hfull (h s hs index (by rw [live_of_run hn hacc]; exact hi) ?_)
    rwa [(Settled.run hs).held_eq hacc, hacc.cap_eq, live_of_run hn hacc]
  rcases Nat.lt_or_ge nodeCap n with hfew | hmany
  · -- There are fewer permits than indexes.
    obtain ⟨s, hs, havail, hflight⟩ := exists_flooded hn 0 nodeCap (.inl rfl) hfew (Nat.zero_add _).le
    refine hrefused s 0 hs (by omega) hn ?_
    rw [hflight, if_pos rfl]
    exact Nat.le_max_right _ _
  · -- The flood leaves a permit for each other index, and the shares are larger.
    have hall : nodeCap + 1 - n + (n - 1) = nodeCap := by omega
    obtain ⟨s, hs, havail, hflight⟩ := exists_flooded hn (nodeCap + 1 - n) (n - 1) (.inr (by omega)) (by omega) hall.le
    have hshare : 2 ≤ nodeCap / n := (Nat.le_div_iff_mul_le hn).mpr (by omega)
    refine hrefused s 1 hs (by omega) (by omega) ?_
    rw [hflight, if_neg Nat.one_ne_zero, if_pos (by omega)]
    exact lt_of_lt_of_le hshare (Nat.le_max_left _ _)

lemma exists_arrived (hn : 1 ≤ n) (hm : m ≤ nodeCap) :
    ∃ s, Runs step Served (idle nodeCap n) s ∧ s.available + m = nodeCap ∧
      s.calls = List.replicate m (0, .acquired) := by
  induction m with
  | zero => exact ⟨_, .start, rfl, rfl⟩
  | succ m ih =>
    obtain ⟨s, h, havail, hcalls⟩ := ih (by omega)
    have hlive := live_of_run hn (Accounted.run h)
    refine ⟨_, h.step (e := .arrive 0) fun i hi => ?_, ?_⟩
    · cases hi
      rwa [hlive]
    · rw [step, if_neg (by omega)]
      dsimp only
      rw [hcalls, replicate_succ']
      exact ⟨by omega, rfl⟩

lemma single_of_promised (hn : 1 ≤ n)
    (h : ∀ s, Runs step Served (idle nodeCap n) s → s.Promised) : n = 1 := by
  by_contra hne
  obtain ⟨s, hs, havail, hcalls⟩ := exists_arrived hn (Nat.le_refl nodeCap)
  have hacc := Accounted.run hs
  refine not_admits (by omega) (h s hs 1 (by rw [live_of_run hn hacc]; omega) ?_)
  have hnone : s.held 1 = 0 := by
    rw [held, hcalls, countP_replicate]
    rfl
  rw [hnone]
  exact Nat.le_max_right _ _

/-- The admitted reads stay within the cap, however operations are interleaved. The promise to an index below its
share is kept by calls one after the other exactly if the node serves one index or the share is one permit and there
is one for each; by calls that overlap exactly if it serves one index. -/
theorem heavy_admission_fair_iff (nodeCap n : Nat) (hcap : 1 ≤ nodeCap) (hn : 1 ≤ n) :
    (∀ s, Runs step Served (HeavyReads.idle nodeCap n) s →
      s.admitted ≤ nodeCap ∧ ∀ index, s.inFlight index = s.guards index) ∧
    ((∀ s, Runs whole ServedWhole (HeavyReads.idle nodeCap n) s → s.Promised) ↔
      n = 1 ∨ n ≤ nodeCap ∧ nodeCap < 2 * n) ∧
    ((∀ s, Runs step Served (HeavyReads.idle nodeCap n) s → s.Promised) ↔ n = 1) := by
  refine ⟨fun s hs => ?_, ⟨config_of_promised hn, ?_⟩, ⟨single_of_promised hn, ?_⟩⟩
  · exact ⟨(Accounted.run hs).admitted_le, (Accounted.run hs).counter⟩
  · rintro (rfl | ⟨hlow, hhigh⟩) s hs
    · exact promised_of_single hcap (Accounted.run (runs_of_whole hs))
    · exact promised_of_reserved hn hlow hhigh hs
  · rintro rfl s hs
    exact promised_of_single hcap (Accounted.run hs)

theorem heavy_admission_three_permits : ∃ s, Runs whole ServedWhole (HeavyReads.idle 3 2) s ∧
      s.calls = [(0, .admitted), (0, .admitted)] ∧ s.Promised := by
  have hrun : Runs whole ServedWhole (HeavyReads.idle 3 2)
      ([WholeCall.admitHeavy 0, .admitHeavy 0].foldl whole (HeavyReads.idle 3 2)) := by
    refine Runs.start.foldl _ ⟨fun i hi => ?_, fun i hi => ?_, trivial⟩ <;> cases hi <;> decide
  exact ⟨_, hrun, by decide, (heavy_admission_fair_iff 3 2 (by decide) (by decide)).2.1.mpr (.inr (by decide)) _ hrun⟩

/-- Two indexes share four permits, two for each. The first takes three; then the second takes one, and is
refused another. -/
theorem below_share_refused : ∃ s, Runs whole ServedWhole (HeavyReads.idle 4 2) s ∧
      s = [WholeCall.admitHeavy 0, .admitHeavy 0, .admitHeavy 0, .admitHeavy 1].foldl whole (HeavyReads.idle 4 2) ∧
      s.calls = [(0, .admitted), (0, .admitted), (0, .admitted), (1, .admitted)] ∧
      s.held 1 = 1 ∧ fairShare 4 2 = 2 ∧ (s.admitHeavy 1).calls = s.calls ++ [(1, .shed)] := by
  refine ⟨_, Runs.start.foldl _ ?_, rfl, by decide, by decide, by decide, by decide⟩
  refine ⟨fun i hi => ?_, fun i hi => ?_, fun i hi => ?_, fun i hi => ?_, trivial⟩ <;> cases hi <;> decide

end

end HeavyReads

def maxOpenPits : Nat := 64

/-- What an export takes on a node: open points in time of the shard, whose ids are never given twice, and the two
halves of a heavy-read permit. -/
structure ExportNode where
  pits : List Nat
  nextPit : Nat
  nodeCap : Nat
  liveIndexes : Nat
  available : Nat
  inFlight : Nat
  fresh : ∀ pit ∈ pits, pit < nextPit

inductive ExportError (E : Type)
  | tooManyPits
  | shed
  | failed (error : E)

inductive PageStep (H C E : Type)
  | failed (error : E)
  | hits (hits : List H) (next : Option C) (taken : Bool)

/-- How the steps of one export go: the checks of the request, the tenant filter, the snapshot for a point in time,
the count, and the pages up to the one without hits. -/
structure ExportSteps (H C E : Type) where
  checked : Except E Unit
  tenant : Except E Unit
  snapshot : Except E Unit
  count : Except E Nat
  pages : List (PageStep H C E)

variable {H C E : Type}

namespace ExportNode

variable (node : ExportNode)

def openPit (snapshot : Except E Unit) : Except (ExportError E) (Nat × ExportNode) :=
  match snapshot with
  | .error e => .error (.failed e)
  | .ok _ =>
    if maxOpenPits ≤ node.pits.length then .error .tooManyPits
    else .ok (node.nextPit, { node with
      pits := node.pits ++ [node.nextPit]
      nextPit := node.nextPit + 1
      fresh := by
        intro pit hpit
        rcases mem_append.mp hpit with h | h
        · exact Nat.lt_succ_of_lt (node.fresh pit h)
        · exact mem_singleton.mp h ▸ Nat.lt_succ_self _ })

def closePit (pit : Nat) : ExportNode :=
  { node with
    pits := node.pits.filter (fun p => decide (p ≠ pit))
    fresh := fun p hp => node.fresh p (mem_of_mem_filter hp) }

def admitHeavy : Option ExportNode :=
  let live := max node.liveIndexes 1
  if node.available = 0 then none
  else if fairShare node.nodeCap live ≤ node.inFlight ∧ node.available - 1 < live - 1 then none
  else some { node with available := node.available - 1, inFlight := node.inFlight + 1 }

def dropPermit : ExportNode :=
  { node with available := node.available + 1, inFlight := node.inFlight - 1 }

end ExportNode

def sendPages (total : Nat) : List (PageStep H C E) → List (Except E (List H × Nat))
  | [] => []
  | .failed e :: _ => [.error e]
  | .hits _ _ false :: _ => []
  | .hits hits none true :: _ => [.ok (hits, total)]
  | .hits hits (some _) true :: pages => .ok (hits, total) :: sendPages total pages

section

variable (node : ExportNode) (given : Nat) (steps : ExportSteps H C E)

def produce : ExportNode × List (Except (ExportError E) (List H × Nat)) :=
  let opened := if given ≠ 0 then .ok (given, node) else node.openPit steps.snapshot
  match opened with
  | .error e => (node, [.error e])
  | .ok (pit, node) =>
    match steps.count with
    -- the task ends here, with the point in time it has opened
    | .error e => (node, [.error (.failed e)])
    | .ok total => (if given ≠ 0 then node else node.closePit pit,
        (sendPages total steps.pages).map (fun m => m.mapError .failed))

def exportStream : ExportNode × List (Except (ExportError E) (List H × Nat)) :=
  match steps.checked with
  | .error e => (node, [.error (.failed e)])
  | .ok _ =>
    match node.admitHeavy with
    | none => (node, [.error .shed])
    | some admitted =>
      match steps.tenant with
      | .error e => (admitted.dropPermit, [.error (.failed e)])
      | .ok _ => ((produce admitted given steps).1.dropPermit, (produce admitted given steps).2)

end

/-- A point in time is opened for the export, and the count on it fails. -/
def LeavesPit (node : ExportNode) (steps : ExportSteps H C E) : Prop :=
  steps.checked.toBool = true ∧ node.admitHeavy.isSome = true ∧ steps.tenant.toBool = true ∧
    steps.snapshot.toBool = true ∧ node.pits.length < maxOpenPits ∧ steps.count.toBool = false

namespace ExportNode

variable {node node' : ExportNode} {steps : ExportSteps H C E}

def held (node : ExportNode) : List Nat × Nat × Nat := (node.pits, node.available, node.inFlight)

/-- What one index of a node sees of the heavy reads. -/
structure Shows (node : ExportNode) (s : HeavyReads) (index : Nat) : Prop where
  nodeCap : node.nodeCap = s.nodeCap
  liveIndexes : node.liveIndexes = s.liveIndexes
  available : node.available = s.available
  inFlight : node.inFlight = s.inFlight index

/-- An export is admitted as a call that no other one interrupts, with the same permits left. -/
lemma Shows.admitHeavy {s : HeavyReads} {index : Nat} (h : node.Shows s index) :
    (node.admitHeavy.isSome ↔ s.Admits index) ∧
      ∀ node', node.admitHeavy = some node' → node'.Shows (s.admitHeavy index) index := by
  obtain ⟨hcap, hlive, havailable, hflight⟩ := h
  have hmax : max node.liveIndexes 1 = s.live := by rw [hlive, HeavyReads.live]
  unfold ExportNode.admitHeavy
  rw [HeavyReads.admits_iff, HeavyReads.admitHeavy_eq, hmax, hcap, havailable, hflight]
  have hreserve : s.available ≠ 0 → (s.available - 1 < s.live - 1 ↔ s.available < s.live) := by omega
  by_cases hfree : s.available = 0
  · simp [hfree]
  · by_cases hshed : fairShare s.nodeCap s.live ≤ s.inFlight index ∧ s.available < s.live
    · simp only [hfree, hreserve hfree, hshed, if_false, and_self, if_true]
      refine ⟨iff_of_false (by simp) ?_, by simp⟩
      omega
    · simp only [hfree, hreserve hfree, hshed, if_false, or_self]
      refine ⟨iff_of_true rfl (by omega), ?_⟩
      rintro node' ⟨⟩
      exact ⟨rfl, hlive, rfl, by simp⟩

lemma admitHeavy_pits (h : node.admitHeavy = some node') : node'.pits = node.pits := by
  unfold admitHeavy at h
  dsimp only at h
  split_ifs at h
  rw [← Option.some.inj h]

lemma admitHeavy_dropPermit (h : node.admitHeavy = some node') :
    node'.available + 1 = node.available ∧ node'.inFlight - 1 = node.inFlight := by
  unfold admitHeavy at h
  dsimp only at h
  split_ifs at h with hfree
  rw [← Option.some.inj h]
  exact ⟨Nat.sub_add_cancel (Nat.pos_of_ne_zero hfree), Nat.add_sub_cancel _ _⟩

lemma openPit_ok (h : node.openPit snapshot = .ok (pit, node')) :
    pit = node.nextPit ∧ node'.pits = node.pits ++ [node.nextPit] ∧ node'.available = node.available ∧
      node'.inFlight = node.inFlight ∧ snapshot.toBool ∧ node.pits.length < maxOpenPits := by
  unfold openPit at h
  split at h
  · cases h
  · split_ifs at h with hroom
    cases h
    exact ⟨rfl, rfl, rfl, rfl, rfl, Nat.not_le.mp hroom⟩

lemma openPit_error (h : node.openPit snapshot = .error e) :
    snapshot.toBool = false ∨ maxOpenPits ≤ node.pits.length := by
  unfold openPit at h
  split at h
  · exact .inl rfl
  · split_ifs at h with hroom
    exact .inr hroom

lemma close_fresh (node : ExportNode) :
    (node.pits ++ [node.nextPit]).filter (fun p => decide (p ≠ node.nextPit)) = node.pits := by
  rw [filter_append, filter_eq_self.mpr]
  · simp
  · intro pit hpit
    exact decide_eq_true (Nat.ne_of_lt (node.fresh pit hpit))

lemma produce_held (node : ExportNode) (steps : ExportSteps H C E) :
    (produce node 0 steps).1.available = node.available ∧ (produce node 0 steps).1.inFlight = node.inFlight ∧
    ((produce node 0 steps).1.pits = node.pits ↔
      ¬ (steps.snapshot.toBool ∧ node.pits.length < maxOpenPits ∧ steps.count.toBool = false)) := by
  unfold produce
  simp only [ne_eq, not_true_eq_false, if_false]
  cases hopen : node.openPit steps.snapshot with
  | error e =>
    refine ⟨rfl, rfl, iff_of_true rfl ?_⟩
    rintro ⟨hs, hroom, -⟩
    rcases openPit_error hopen with h | h
    · rw [hs] at h
      cases h
    · exact absurd hroom (Nat.not_lt.mpr h)
  | ok opened =>
    obtain ⟨pit, node'⟩ := opened
    obtain ⟨rfl, hpits, havailable, hflight, hsnapshot, hroom⟩ := openPit_ok hopen
    cases hcount : steps.count with
    | error e =>
      refine ⟨havailable, hflight, iff_of_false ?_ ?_⟩
      · simp [hpits]
      · exact not_not.mpr ⟨hsnapshot, hroom, rfl⟩
    | ok total =>
      refine ⟨havailable, hflight, iff_of_true ?_ ?_⟩
      · simp only [closePit, hpits, close_fresh]
      · simp [Except.toBool]

/-- An export that brings no point in time of its own gives its permit back however its steps go, and leaves the open
points in time as they were unless the count fails. -/
theorem export_releases_iff (node : ExportNode) (steps : ExportSteps H C E) :
    (exportStream node 0 steps).1.available = node.available ∧ (exportStream node 0 steps).1.inFlight = node.inFlight ∧
    ((exportStream node 0 steps).1.pits = node.pits ↔ ¬ LeavesPit node steps) := by
  unfold exportStream LeavesPit
  cases hchecked : steps.checked with
  | error e => simp [Except.toBool]
  | ok u =>
    cases hadmit : node.admitHeavy with
    | none => simp
    | some admitted =>
      obtain ⟨havailable, hflight⟩ := admitHeavy_dropPermit hadmit
      have hpits := admitHeavy_pits hadmit
      cases htenant : steps.tenant with
      | error e => exact ⟨havailable, hflight, by simp [dropPermit, hpits, Except.toBool]⟩
      | ok u =>
        obtain ⟨havailable', hflight', hpits'⟩ := produce_held admitted steps
        simp only [dropPermit, havailable', hflight', havailable, hflight, true_and]
        rw [← hpits, hpits']
        simp [Except.toBool]

/-- A shard without open points in time, and an export whose count fails (a query on an unknown field): the point in
time it has opened stays open. -/
theorem export_leaves_pit :
    ((exportStream ⟨[], 1, 4, 1, 4, 0, nofun⟩ 0
      (⟨.ok (), .ok (), .ok (), .error "unknown field", []⟩ : ExportSteps Unit Unit String)).1.held) = ([1], 4, 0) := by
  decide

end ExportNode

end GrowlerDB.Engine
