import GrowlerDB.Lib.OrdMap
import GrowlerDB.Lib.Runs

namespace GrowlerDB.Engine.LoginThrottle
open Lib List BTreeMap

def loginFailuresBeforeLockout : Nat := 5

def loginLockoutBaseSecs : Nat := 1

def loginLockoutMaxSecs : Nat := 300

def maxTrackedAccounts : Nat := 10000

/-- The instants are in nanoseconds. -/
structure Attempt where
  failures : Nat
  lockedUntil : Option Nat

def lockoutSecs (failures : Nat) : Nat :=
  min (loginLockoutBaseSecs <<< min (failures - loginFailuresBeforeLockout) 20) loginLockoutMaxSecs

def Attempt.fail (a : Attempt) (now : Nat) : Attempt :=
  let failures := min (a.failures + 1) 4294967295
  ⟨failures, if loginFailuresBeforeLockout ≤ failures then some (now + 1000000000 * lockoutSecs failures) else a.lockedUntil⟩

def Attempt.live (now : Nat) (a : Attempt) : Bool := a.lockedUntil.any (now < ·)

section

variable {U : Type} [LinearOrder U]

def prune (accounts : BTreeMap U Attempt) (now : Nat) : BTreeMap U Attempt :=
  if maxTrackedAccounts ≤ accounts.entries.length then
    accounts.filterMap (fun _ a => if a.live now then some a else none)
  else accounts

/-- The clock is read once to prune and once to lock. -/
def recordFailure (accounts : BTreeMap U Attempt) (subject : U) (now later : Nat) : BTreeMap U Attempt :=
  let kept := prune accounts now
  if maxTrackedAccounts ≤ kept.entries.length ∧ kept.get? subject = none then kept
  else kept.entry subject (fun a => (a.getD ⟨0, none⟩).fail later)

inductive LoginEvent (U : Type)
  | failure (subject : U) (now later : Nat)
  | success (subject : U)

def throttle (accounts : BTreeMap U Attempt) : LoginEvent U → BTreeMap U Attempt
  | .failure subject now later => recordFailure accounts subject now later
  | .success subject => accounts.remove subject

/-- A failure finds room in the map, or its account there among live lockouts only. -/
def Roomy (accounts : BTreeMap U Attempt) : LoginEvent U → Prop
  | .failure subject now _ => accounts.entries.length < maxTrackedAccounts ∨
      accounts.get? subject ≠ none ∧ ∀ name a, accounts.get? name = some a → a.live now
  | .success _ => True

/-- An account as its own logins alone leave it. -/
def alone (name : U) (a : Option Attempt) : LoginEvent U → Option Attempt
  | .failure subject _ later => if subject = name then some ((a.getD ⟨0, none⟩).fail later) else a
  | .success subject => if name = subject then none else a

lemma get?_throttle (m : BTreeMap U Attempt) (e : LoginEvent U) (h : Roomy m e) (name : U) :
    (throttle m e).get? name = alone name (m.get? name) e := by
  cases e with
  | success subject => exact get?_remove subject name
  | failure subject now later =>
    have hkept (k : U) : (prune m now).get? k = m.get? k := by
      unfold prune
      split_ifs with hfull
      · have hlive := (h.resolve_left (by omega)).2 k
        rw [get?_filterMap]
        cases hk : m.get? k with
        | none => rfl
        | some a => simp [hlive a hk]
      · rfl
    have hroom : ¬ (maxTrackedAccounts ≤ (prune m now).entries.length ∧ (prune m now).get? subject = none) := by
      rintro ⟨hfull, hnone⟩
      rcases h with hlen | htracked
      · rw [prune, if_neg (by omega)] at hfull
        omega
      · exact htracked.1 (hkept subject ▸ hnone)
    simp only [throttle, recordFailure, alone]
    rw [if_neg hroom, get?_entry, hkept, hkept]
    split_ifs with heq
    · rw [heq]
    · rfl

lemma lockoutSecs_mono (h : m ≤ n) : lockoutSecs m ≤ lockoutSecs n := by
  have hpow : 2 ^ min (m - 5) 20 ≤ 2 ^ min (n - 5) 20 := Nat.pow_le_pow_right (by decide) (by omega)
  simp only [lockoutSecs, loginLockoutBaseSecs, loginFailuresBeforeLockout, Nat.one_shiftLeft]
  omega

lemma lockoutSecs_fail (a : Attempt) (now : Nat) : lockoutSecs a.failures ≤ lockoutSecs (a.fail now).failures := by
  by_cases hfew : a.failures ≤ 4294967295
  · exact lockoutSecs_mono (by simp only [Attempt.fail]; omega)
  · have hmax : (a.fail now).failures = 4294967295 := by simp only [Attempt.fail]; omega
    rw [hmax]
    exact min_le_right _ _

/-- Where every failure finds room, an account is as its own logins alone leave it, and past the threshold each
failure locks it for at least as long as the one before. -/
theorem throttle_alone (events : List (LoginEvent U)) (h : AllAllowed throttle Roomy .empty events) (name : U) :
    (events.foldl throttle .empty).get? name = events.foldl (alone name) none ∧
    ∀ a now, (events.foldl throttle .empty).get? name = some a → loginFailuresBeforeLockout ≤ a.failures →
      ∃ secs, (a.fail now).lockedUntil = some (now + 1000000000 * secs) ∧ lockoutSecs a.failures ≤ secs := by
  constructor
  · have hrun : ∀ (m : BTreeMap U Attempt), AllAllowed throttle Roomy m events →
        (events.foldl throttle m).get? name = events.foldl (alone name) (m.get? name) := by
      clear h
      induction events with
      | nil => exact fun m _ => rfl
      | cons e events ih =>
        intro m h
        rw [foldl_cons, foldl_cons, ih _ h.2, get?_throttle m e h.1]
    exact hrun _ h
  · intro a now _ hmany
    refine ⟨_, if_pos ?_, lockoutSecs_fail a now⟩
    unfold loginFailuresBeforeLockout at hmany ⊢
    omega

end

theorem throttle_alone_two : ([.failure 0 0 0, .failure 1 0 0].foldl throttle .empty : BTreeMap Nat Attempt).get? 0 =
    some ⟨1, none⟩ :=
  (throttle_alone [.failure 0 0 0, .failure 1 0 0] ⟨.inl (by decide), .inl (by decide), trivial⟩ 0).1

lemma length_entries {m : BTreeMap Nat V} (h : ∀ k, (m.get? k).isSome ↔ k < n) : m.entries.length = n := by
  have hnodup : m.keys.Nodup := pairwise_map.mpr (m.sorted.imp ne_of_lt)
  have hperm : m.keys ~ range n := (perm_ext_iff_of_nodup hnodup nodup_range).mpr fun k => by
    rw [BTreeMap.mem_keys, h, mem_range]
  simpa [BTreeMap.keys] using hperm.length_eq

/-- Four failures of one account, then one each of `n` others. -/
def sprayed (n : Nat) : BTreeMap Nat Attempt :=
  foldl throttle .empty (replicate 4 (.failure 0 0 0) ++ (range n).map fun k => .failure (k + 1) 0 0)

lemma sprayed_succ (n : Nat) : sprayed (n + 1) = throttle (sprayed n) (.failure (n + 1) 0 0) := by
  simp [sprayed, range_succ]

lemma get?_sprayed (hn : n < maxTrackedAccounts) (k : Nat) : (sprayed n).get? k =
      if k = 0 then some ⟨4, none⟩ else if k ≤ n then some ⟨1, none⟩ else none := by
  induction n generalizing k with
  | zero =>
    have hfour : sprayed 0 = ⟨[(0, ⟨4, none⟩)], pairwise_singleton _ _⟩ := rfl
    rw [hfour]
    cases k <;> rfl
  | succ n ih =>
    have hlen : (sprayed n).entries.length = n + 1 := length_entries fun k => by
      rw [ih (by omega)]
      grind
    have hroom : Roomy (sprayed n) (.failure (n + 1) 0 0) := .inl (by omega)
    rw [sprayed_succ, get?_throttle _ _ hroom, ih (by omega)]
    grind [alone, Attempt.fail, loginFailuresBeforeLockout]

theorem throttle_reset : (sprayed 9999).get? 0 = some ⟨4, none⟩ ∧ (throttle (sprayed 9999) (.failure 10000 0 0)).get? 0 = none := by
  have hget := get?_sprayed (n := 9999) (by decide)
  refine ⟨hget 0, ?_⟩
  have hlen : (sprayed 9999).entries.length = 10000 := length_entries fun k => by
    rw [hget]
    grind
  have hkept : ∀ k, (prune (sprayed 9999) 0).get? k = none := fun k => by
    rw [prune, if_pos (by rw [hlen]; decide), BTreeMap.get?_filterMap, hget]
    grind [Attempt.live]
  simp only [throttle, recordFailure]
  split_ifs
  · exact hkept 0
  · rw [BTreeMap.get?_entry, if_neg (by omega), hkept]

end GrowlerDB.Engine.LoginThrottle
