import Mathlib.Data.List.Basic
import Mathlib.Data.List.Sort
import Mathlib.Order.MinMax
import Mathlib.Order.WithBot

namespace GrowlerDB.Lib.Replay
open List Option Prod

section

variable {K V : Type} [DecidableEq K]

/-- The post-image the log leaves at a key; a delete leaves `some none`. -/
def lastChange : List (K × Option V) → K → Option (Option V)
  | [], _ => none
  | c :: log, k => (lastChange log k).or (if c.1 = k then some c.2 else none)

def applyChange (m : K → Option V) (c : K × Option V) : K → Option V :=
  fun k => if c.1 = k then c.2 else m k

def replay (m : K → Option V) (log : List (K × Option V)) : K → Option V :=
  log.foldl applyChange m

@[simp] lemma lastChange_nil (k : K) : lastChange ([] : List (K × Option V)) k = none := rfl

lemma lastChange_cons (c : K × Option V) (log : List (K × Option V)) (k : K) :
    lastChange (c :: log) k = (lastChange log k).or (if c.1 = k then some c.2 else none) := rfl

@[simp] lemma lastChange_append (xs ys : List (K × Option V)) (k : K) :
    lastChange (xs ++ ys) k = (lastChange ys k).or (lastChange xs k) := by
  induction xs with
  | nil => simp
  | cons c xs ih => simp [lastChange_cons, ih, Option.or_assoc]

lemma lastChange_eq_none {log : List (K × Option V)} {k : K} : lastChange log k = none ↔ ∀ c ∈ log, c.1 ≠ k := by
  induction log with
  | nil => simp
  | cons c log ih => simp [lastChange_cons, ih, and_comm]

lemma lastChange_mem {log : List (K × Option V)} {k : K} {v : Option V}
    (h : lastChange log k = some v) : (k, v) ∈ log := by
  induction log with
  | nil => simp at h
  | cons c log ih =>
    rw [lastChange_cons] at h
    cases hl : lastChange log k with
    | some w =>
      have hw : w = v := by simpa [hl] using h
      exact mem_cons_of_mem _ (ih (hw ▸ hl))
    | none =>
      by_cases hk : c.1 = k
      · have hv : c.2 = v := by simpa [hl, hk] using h
        exact mem_cons.mpr (Or.inl (Prod.ext hk.symm hv.symm))
      · simp [hl, hk] at h

lemma lastChange_of_agree {log : List (K × Option V)} {k : K} {v : Option V}
    (hm : (k, v) ∈ log) (ha : ∀ w, (k, w) ∈ log → w = v) : lastChange log k = some v := by
  cases hl : lastChange log k with
  | none => exact absurd rfl (lastChange_eq_none.mp hl _ hm)
  | some w => rw [ha w (lastChange_mem hl)]

lemma lastChange_filter_ne (log : List (K × Option V)) (k k' : K) :
    lastChange (log.filter (fun c => !decide (c.1 = k))) k' = if k = k' then none else lastChange log k' := by
  by_cases hk : k = k'
  · subst hk
    rw [if_pos rfl]
    exact lastChange_eq_none.mpr (fun c hc => by simpa using (mem_filter.mp hc).2)
  · rw [if_neg hk]
    induction log with
    | nil => rfl
    | cons c log ih => by_cases hc : c.1 = k <;> simp [lastChange_cons, hc, hk, ih]

lemma lastChange_filter (log : List (K × Option V)) (p : K → Bool) (k : K) :
    lastChange (log.filter (fun c => p c.1)) k = if p k then lastChange log k else none := by
  induction log with
  | nil => simp
  | cons c log ih =>
    rw [filter_cons, lastChange_cons]
    by_cases hc : c.1 = k
    · subst hc
      cases hp : p c.1 <;> simp [hp, lastChange_cons, ih]
    · cases hp : p c.1 <;> simp [hc, lastChange_cons, ih]

lemma lastChange_of_nodup {log : List (K × Option V)}
    (hn : (log.map fst).Nodup) (hm : (k, v) ∈ log) : lastChange log k = some v := by
  apply lastChange_of_agree hm
  intro w hw
  exact congrArg snd (inj_on_of_nodup_map hn hw hm rfl)

lemma lastChange_perm {log log' : List (K × Option V)} (hn : (log.map fst).Nodup)
    (hp : log'.Perm log) (k : K) : lastChange log' k = lastChange log k := by
  cases hl : lastChange log k with
  | none =>
    have hk := lastChange_eq_none.mp hl
    exact lastChange_eq_none.mpr (fun c hc => hk c (hp.mem_iff.mp hc))
  | some v =>
    exact lastChange_of_nodup ((hp.map fst).nodup_iff.mpr hn)
      (hp.mem_iff.mpr (lastChange_mem hl))

lemma replay_apply (m : K → Option V) (log : List (K × Option V)) (k : K) :
    replay m log k = (lastChange log k).getD (m k) := by
  induction log generalizing m with
  | nil => rfl
  | cons c log ih =>
    change replay (applyChange m c) log k = _
    rw [ih, lastChange_cons]
    cases lastChange log k with
    | some w => simp
    | none => by_cases hk : c.1 = k <;> simp [applyChange, hk]

lemma replay_of_lastChange {m : K → Option V} {xs ys : List (K × Option V)}
    (h : ∀ k, lastChange xs k = lastChange ys k) : replay m xs = replay m ys := by
  funext k
  rw [replay_apply, replay_apply, h k]

lemma lastChange_of_replay [Nonempty V] {xs ys : List (K × Option V)}
    (h : ∀ m, replay m xs = replay m ys) (k : K) : lastChange xs k = lastChange ys k := by
  have hget : ∀ v : Option V, (lastChange xs k).getD v = (lastChange ys k).getD v := by
    intro v
    have := congrFun (h (fun _ => v)) k
    rwa [replay_apply, replay_apply] at this
  have hv := hget none
  have hw := hget (some (Classical.arbitrary V))
  cases hx : lastChange xs k with
  | none =>
    cases hy : lastChange ys k with
    | none => rfl
    | some y =>
      rw [hx, hy] at hv hw
      cases hv.trans hw.symm
  | some x =>
    cases hy : lastChange ys k with
    | none =>
      rw [hx, hy] at hv hw
      cases hv.symm.trans hw
    | some y =>
      rw [hx, hy] at hv
      exact congrArg some hv

lemma replay_append (m : K → Option V) (xs ys : List (K × Option V)) :
    replay m (xs ++ ys) = replay (replay m xs) ys := foldl_append

end

section

variable {K V P : Type} [LinearOrder P]

/-- A positioned log: changes in source order, each at the position that carries it. -/
abbrev Log (P K V : Type) := List (P × (K × Option V))

def between (log : Log P K V) (lo hi : WithBot P) : List (K × Option V) :=
  (log.filter (fun e => decide (lo < e.1) && decide ((e.1 : WithBot P) ≤ hi))).map Prod.snd

def Ordered (log : Log P K V) : Prop := log.Pairwise (fun a b => a.1 ≤ b.1)

lemma between_empty (log : Log P K V) (h : hi ≤ lo) : between log lo hi = [] := by
  rw [between, filter_eq_nil_iff.mpr, map_nil]
  intro e _ he
  simp only [Bool.and_eq_true, decide_eq_true_eq] at he
  exact absurd (he.2.trans h) (not_le.mpr he.1)

lemma filter_split {A : Type} {pos : A → P} {l : List A} (hs : l.Pairwise (fun a b => pos a ≤ pos b))
    {lo c hi : WithBot P} (hlo : lo ≤ c) (hhi : c ≤ hi) :
    l.filter (fun a => decide (lo < pos a) && decide ((pos a : WithBot P) ≤ hi)) =
      l.filter (fun a => decide (lo < pos a) && decide ((pos a : WithBot P) ≤ c)) ++
        l.filter (fun a => decide (c < pos a) && decide ((pos a : WithBot P) ≤ hi)) := by
  induction l with
  | nil => rfl
  | cons e l ih =>
    obtain ⟨he, hs⟩ := pairwise_cons.mp hs
    have ih := ih hs
    simp only [filter_cons]
    by_cases hec : (pos e : WithBot P) ≤ c
    · by_cases hle : lo < pos e <;> simp [hec, hle, hec.trans hhi, not_lt.mpr hec, ih]
    · -- everything after `e` is past `c` too, so the first half of the split is empty
      have hlate : l.filter (fun a => decide (lo < pos a) && decide ((pos a : WithBot P) ≤ c)) = [] := by
        apply filter_eq_nil_iff.mpr
        intro d hd hdc
        simp only [Bool.and_eq_true, decide_eq_true_eq] at hdc
        exact hec ((WithBot.coe_le_coe.mpr (he d hd)).trans hdc.2)
      have hce := not_le.mp hec
      rw [hlate, nil_append] at ih
      simp only [hec, hce, hlo.trans_lt hce, hlate, decide_true, decide_false, Bool.and_false,
        Bool.true_and, Bool.false_eq_true, if_false, nil_append]
      split <;> simp [ih]

lemma append_inj_of_split {A : Type} {pos : A → P} {c : P} {xs ys xs' ys' : List A}
    (h : xs ++ ys = xs' ++ ys') (hx : ∀ a ∈ xs, pos a ≤ c) (hy : ∀ a ∈ ys, c < pos a)
    (hx' : ∀ a ∈ xs', pos a ≤ c) (hy' : ∀ a ∈ ys', c < pos a) : xs = xs' ∧ ys = ys' := by
  have hfilter : ∀ (us vs : List A), (∀ a ∈ us, pos a ≤ c) → (∀ a ∈ vs, c < pos a) →
      (us ++ vs).filter (fun a => decide (pos a ≤ c)) = us := by
    intro us vs hu hv
    rw [filter_append, filter_eq_self.mpr (by simpa using hu), filter_eq_nil_iff.mpr (by simpa using hv), append_nil]
  have hxs : xs = xs' := by rw [← hfilter xs ys hx hy, h, hfilter xs' ys' hx' hy']
  subst hxs
  exact ⟨rfl, append_cancel_left h⟩

lemma between_split {log : Log P K V} (hs : Ordered log) {lo c hi : WithBot P}
    (hlo : lo ≤ c) (hhi : c ≤ hi) : between log lo hi = between log lo c ++ between log c hi := by
  rw [between, filter_split hs hlo hhi, map_append]
  rfl

end

variable {K V P : Type} [DecidableEq K] [LinearOrder P] {log : Log P K V}

def stateAt (log : Log P K V) (c : WithBot P) : K → Option V :=
  replay (fun _ => none) (between log ⊥ c)

@[simp] lemma stateAt_bot (log : Log P K V) (k : K) : stateAt log ⊥ k = none := by
  simp [stateAt, between_empty log (le_refl ⊥), replay]

lemma stateAt_split (hs : Ordered log) {c t : WithBot P} (h : c ≤ t) :
    stateAt log t = replay (stateAt log c) (between log c t) := by
  rw [stateAt, between_split hs bot_le h, replay_append, stateAt]

lemma stateAt_of_lastChange (hs : Ordered log)
    (h : lastChange (between log lo t) k = some v) : stateAt log t k = v := by
  rcases le_total lo t with hlo | hlo
  · rw [stateAt_split hs hlo, replay_apply, h, getD_some]
  · simp [between_empty log hlo] at h

lemma stateAt_of_quiet (hs : Ordered log) {lo c t : WithBot P} {k : K} (hlo : lo ≤ c)
    (hct : c ≤ t) (h : lastChange (between log lo t) k = none) : stateAt log t k = stateAt log c k := by
  rw [between_split hs hlo hct, lastChange_append, or_eq_none_iff] at h
  rw [stateAt_split hs hct, replay_apply, h.1, getD_none]

/-- `m` is at position `c`, except that it may already be as far as `hi`: the key holds what the source held for it
at some position between the two. -/
def WithinAt (log : Log P K V) (c hi : WithBot P) (m : K → Option V) (k : K) : Prop :=
  ∃ p, c ≤ p ∧ p ≤ max c hi ∧ m k = stateAt log p k

lemma WithinAt.start (log : Log P K V) (k : K) : WithinAt log ⊥ ⊥ (fun _ => none) k :=
  ⟨⊥, le_rfl, bot_le, by simp⟩

lemma WithinAt.exact (h : WithinAt log c hi m k) (hle : hi ≤ c) : m k = stateAt log c k := by
  obtain ⟨p, hcp, hp, hm⟩ := h
  rw [hm, le_antisymm (hp.trans (max_le le_rfl hle)) hcp]

lemma WithinAt.mono (h : WithinAt log c hi m k) (hle : hi ≤ hi') : WithinAt log c hi' m k := by
  obtain ⟨p, hcp, hp, hm⟩ := h
  exact ⟨p, hcp, hp.trans (max_le_max_left c hle), hm⟩

/-- Writing the key's last change of a window that starts at or before `c` moves the key to the
window's end, however far it had run ahead. -/
lemma WithinAt.window (hs : Ordered log)
    (h : WithinAt log c hi m k) (hlo : lo ≤ c) (hct : c ≤ t)
    (hw : lastChange ws k = lastChange (between log lo t) k) : WithinAt log t hi (replay m ws) k := by
  rw [WithinAt, replay_apply, hw]
  cases hl : lastChange (between log lo t) k with
  | some v => exact ⟨t, le_rfl, le_max_left t hi, (stateAt_of_lastChange hs hl).symm⟩
  | none =>
    obtain ⟨p, hcp, hp, hm⟩ := h
    rcases le_total p t with hpt | htp
    · exact ⟨t, le_rfl, le_max_left t hi, hm.trans (stateAt_of_quiet hs (hlo.trans hcp) hpt hl).symm⟩
    · exact ⟨p, htp, hp.trans (max_le_max_right hi hct), hm⟩

/-- A key written by part of the last changes of windows that end in `[c, t]`, as a crash may leave
it, only runs ahead towards `t`. -/
lemma WithinAt.interrupted (hs : Ordered log) {c hi t : WithBot P} {m : K → Option V} {k : K}
    {ws : List (K × Option V)} (h : WithinAt log c hi m k)
    (hw : ∀ v, (k, v) ∈ ws → ∃ lo t', c ≤ t' ∧ t' ≤ t ∧
      lastChange (between log lo t') k = some v) : WithinAt log c (max hi t) (replay m ws) k := by
  rw [WithinAt, replay_apply]
  cases hl : lastChange ws k with
  | none => exact h.mono (le_max_left hi t)
  | some v =>
    obtain ⟨lo, t', hct, ht, hv⟩ := hw v (lastChange_mem hl)
    exact ⟨t', hct, (ht.trans (le_max_right hi t)).trans (le_max_right c _),
      (stateAt_of_lastChange hs hv).symm⟩

end GrowlerDB.Lib.Replay
