import GrowlerDB.Lib.Runs
import Mathlib.Logic.Function.Basic

namespace GrowlerDB.Engine
open Lib Function

inductive WriteStage
  | idle
  | admitted
  | pinned (generation : Nat)
  deriving DecidableEq

inductive PromoteStage
  | idle
  | engaged
  | promoted (generation : Nat)
  | installed
  deriving DecidableEq

/-- A shard under reindex: the generation that is live on disk, the one its handle serves, and the requests. -/
structure CutoverNode where
  disk : Nat
  handle : Nat
  fence : Bool
  staged : Bool
  writes : Nat → WriteStage
  promotions : Nat → PromoteStage
  /-- the generation of each acknowledged write, and the one that was live then -/
  acked : List (Nat × Nat)

inductive CutoverEvent
  | write (w : Nat)
  | pin (w : Nat)
  | commit (w : Nat) (ok : Bool)
  | build
  | engage (r : Nat)
  | promote (r : Nat)
  | install (r : Nat)
  /-- the promotion returns, or fails, and its guard is dropped -/
  | finish (r : Nat)
  | discard

namespace CutoverNode

def start : CutoverNode := ⟨0, 0, false, false, fun _ => .idle, fun _ => .idle, []⟩

def step (s : CutoverNode) : CutoverEvent → CutoverNode
  | .write w => if s.writes w = .idle ∧ s.fence = false then { s with writes := update s.writes w .admitted } else s
  | .pin w => if s.writes w = .admitted then { s with writes := update s.writes w (.pinned s.handle) } else s
  | .commit w ok =>
    match s.writes w with
    | .pinned g => { s with writes := update s.writes w .idle, acked := if ok then (g, s.disk) :: s.acked else s.acked }
    | _ => s
  | .build => { s with staged := true }
  | .engage r =>
    if s.promotions r = .idle ∧ s.fence = false then
      { s with fence := true, promotions := update s.promotions r .engaged }
    else s
  | .promote r =>
    if s.promotions r = .engaged then
      { s with disk := s.disk + 1, promotions := update s.promotions r (.promoted (s.disk + 1)) }
    else s
  | .install r =>
    match s.promotions r with
    | .promoted g => { s with handle := g, promotions := update s.promotions r .installed }
    | _ => s
  | .finish r =>
    if s.promotions r = .idle then s
    else { s with
      fence := false
      staged := s.staged && s.promotions r ≠ .installed
      promotions := update s.promotions r .idle }
  | .discard => { s with fence := false, staged := false }

/-- Every acknowledged write is in the generation that was live, and a promotion under way is fenced. -/
def Held (s : CutoverNode) : Prop :=
  (∀ a ∈ s.acked, a.1 = a.2) ∧ ∀ r, s.promotions r ≠ .idle → s.fence = true

/-- No write is in flight when the fence is engaged, no promotion fails between the swap on disk and the new handle,
and no discard finishes during one. -/
def Orderly (s : CutoverNode) : CutoverEvent → Prop
  | .engage _ => s.fence = false → ∀ w, s.writes w = .idle
  | .finish r => ∀ g, s.promotions r ≠ .promoted g
  | .discard => ∀ r, s.promotions r = .idle
  | _ => True

structure Fenced (s : CutoverNode) : Prop where
  acked : ∀ a ∈ s.acked, a.1 = a.2
  pinned : ∀ w g, s.writes w = .pinned g → g = s.disk
  handle : (∀ r g, s.promotions r ≠ .promoted g) → s.handle = s.disk
  promoted : ∀ r g, s.promotions r = .promoted g → g = s.disk
  alone : ∀ r, s.promotions r ≠ .idle → s.fence = true ∧ (∀ w, s.writes w = .idle) ∧
    ∀ r', s.promotions r' ≠ .idle → r' = r

lemma Fenced.step {s : CutoverNode} (h : s.Fenced) (e : CutoverEvent) (ho : s.Orderly e) : (s.step e).Fenced := by
  have ⟨hacked, hpinned, hhandle, hpromoted, halone⟩ := h
  cases e with
  | build => exact { h with }
  | engage r =>
    simp only [CutoverNode.step]
    split
    · constructor <;> grind [update_apply, Orderly]
    · exact h
  | promote r =>
    simp only [CutoverNode.step]
    split
    · refine ⟨hacked, ?_, fun hno => absurd (update_self ..) (hno r _), ?_, ?_⟩ <;> grind [update_apply]
    · exact h
  | finish r =>
    simp only [CutoverNode.step]
    split
    · exact h
    · constructor <;> grind [update_apply, Orderly]
  | discard => exact { h with alone := fun r hr => absurd (ho r) hr }
  | _ =>
    simp only [CutoverNode.step]
    split
    · constructor <;> grind [update_apply]
    · exact h

def written (w : Nat) : List CutoverEvent := [.write w, .pin w, .commit w true]

def cutover : List CutoverEvent := written 0 ++ [.build, .engage 0, .promote 0, .install 0, .finish 0] ++ written 1

end CutoverNode

end GrowlerDB.Engine
