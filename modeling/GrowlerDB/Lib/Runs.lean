import Mathlib.Data.List.Basic

namespace GrowlerDB.Lib

variable {σ ε : Type}

/-- The states that allowed events lead to. -/
inductive Runs (step : σ → ε → σ) (allowed : σ → ε → Prop) (s : σ) : σ → Prop
  | start : Runs step allowed s s
  | step (h : Runs step allowed s s') (ha : allowed s' e) : Runs step allowed s (step s' e)

/-- Each event of the list is allowed in the state that it finds. -/
def AllAllowed (step : σ → ε → σ) (allowed : σ → ε → Prop) (s : σ) : List ε → Prop
  | [] => True
  | e :: events => allowed s e ∧ AllAllowed step allowed (step s e) events

instance AllAllowed.decidable (step : σ → ε → σ) (allowed : σ → ε → Prop) [∀ s e, Decidable (allowed s e)] :
    (s : σ) → (events : List ε) → Decidable (AllAllowed step allowed s events)
  | _, [] => inferInstanceAs (Decidable True)
  | s, e :: events =>
    have := AllAllowed.decidable step allowed (step s e) events
    inferInstanceAs (Decidable (allowed s e ∧ AllAllowed step allowed (step s e) events))

/-- The states that a list of events runs through all satisfy `P`. -/
def Always (P : σ → Prop) (step : σ → ε → σ) (s : σ) : List ε → Prop
  | [] => P s
  | e :: events => P s ∧ Always P step (step s e) events

/-- An invariant that allowed events keep, and that no other event leaves `P` with. -/
lemma always_iff {step : σ → ε → σ} {allowed : σ → ε → Prop} {I P : σ → Prop} (hsafe : ∀ s, I s → P s)
    (hkeep : ∀ s e, I s → allowed s e → I (step s e)) (hbreak : ∀ s e, I s → P (step s e) → allowed s e) (h : I s)
    (events : List ε) : Always P step s events ↔ AllAllowed step allowed s events := by
  have hhead : ∀ s events, Always P step s events → P s := by
    intro s events hs
    cases events with
    | nil => exact hs
    | cons e events => exact hs.1
  induction events generalizing s with
  | nil => exact iff_of_true (hsafe s h) trivial
  | cons e events ih =>
    constructor
    · intro hs
      have ha := hbreak s e h (hhead _ events hs.2)
      exact ⟨ha, (ih (hkeep s e h ha)).mp hs.2⟩
    · intro hs
      exact ⟨hsafe s h, (ih (hkeep s e h hs.1)).mpr hs.2⟩

namespace Runs

variable {step : σ → ε → σ} {allowed : σ → ε → Prop} {s s' : σ}

/-- What holds at the start and is kept by every allowed event holds in every state of a run. -/
lemma invariant {P : σ → Prop} (h : Runs step allowed s s') (h0 : P s)
    (hstep : ∀ s e, allowed s e → P s → P (step s e)) : P s' := by
  induction h with
  | start => exact h0
  | step _ ha ih => exact hstep _ _ ha ih

lemma foldl (h : Runs step allowed s s') (events : List ε) (ha : AllAllowed step allowed s' events) :
    Runs step allowed s (events.foldl step s') := by
  induction events generalizing s' with
  | nil => exact h
  | cons e events ih => exact ih (h.step ha.1) ha.2

end Runs

end GrowlerDB.Lib
