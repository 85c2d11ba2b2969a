import Mathlib.Data.List.Basic
import Mathlib.Data.List.Induction

namespace GrowlerDB.Lib.WriteBack
open List

inductive Effect (W X : Type)
  | write (w : W)
  | flush
  | txn (x : X)

structure Store (σ μ : Type) where
  durable : σ
  pending : σ
  table : μ

variable {W X σ μ : Type} (applyW : W → σ → σ) (applyX : X → μ → μ)

variable (s : Store σ μ)

def exec : Effect W X → Store σ μ
  | .write w => { s with pending := applyW w s.pending }
  | .flush => { s with durable := s.pending }
  | .txn x => { s with table := applyX x s.table }

def run (plan : List (Effect W X)) : Store σ μ := plan.foldl (exec applyW applyX) s

def reopen : Store σ μ := { s with pending := s.durable }

def crash (plan : List (Effect W X)) (n : Nat) : Store σ μ :=
  reopen (run applyW applyX s (plan.take n))

def writes : List (Effect W X) → List W
  | [] => []
  | .write w :: plan => w :: writes plan
  | _ :: plan => writes plan

def Clean : Prop := s.pending = s.durable

lemma run_append (p q : List (Effect W X)) :
    run applyW applyX s (p ++ q) = run applyW applyX (run applyW applyX s p) q :=
  foldl_append

@[simp] lemma writes_append (p q : List (Effect W X)) :
    writes (p ++ q) = writes p ++ writes q := by
  induction p with
  | nil => rfl
  | cons e p ih => cases e <;> simp [writes, ih]

lemma run_pending (plan : List (Effect W X)) :
    (run applyW applyX s plan).pending = (writes plan).foldl (fun i w => applyW w i) s.pending := by
  induction plan generalizing s with
  | nil => rfl
  | cons e plan ih =>
    change (run applyW applyX (exec applyW applyX s e) plan).pending = _
    rw [ih]
    cases e <;> rfl

lemma run_table (plan : List (Effect W X))
    (hp : ∀ e ∈ plan, ∀ x, e ≠ .txn x) : (run applyW applyX s plan).table = s.table := by
  induction plan generalizing s with
  | nil => rfl
  | cons e plan ih =>
    change (run applyW applyX (exec applyW applyX s e) plan).table = _
    rw [ih _ (fun d hd => hp d (mem_cons_of_mem _ hd))]
    cases e with
    | write w => rfl
    | flush => rfl
    | txn x => exact absurd rfl (hp _ mem_cons_self x)

lemma run_images {μ' : Type} {applyX' : X → μ' → μ'} {s : Store σ μ} {s' : Store σ μ'}
    (hd : s.durable = s'.durable) (hp : s.pending = s'.pending) (plan : List (Effect W X)) :
    (run applyW applyX s plan).durable = (run applyW applyX' s' plan).durable ∧
      (run applyW applyX s plan).pending = (run applyW applyX' s' plan).pending := by
  induction plan generalizing s s' with
  | nil => exact ⟨hd, hp⟩
  | cons e plan ih =>
    apply ih
    · cases e with
      | write w => exact hd
      | flush => exact hp
      | txn x => exact hd
    · cases e with
      | write w => exact congrArg (applyW w) hp
      | flush => exact hp
      | txn x => exact hp

lemma run_durable (plan : List (Effect W X)) (hc : Clean s) : ∃ ws, ws <+: writes plan ∧
      (run applyW applyX s plan).durable = ws.foldl (fun i w => applyW w i) s.durable := by
  -- the last effect decides: only a flush moves the durable image, and then to all writes so far
  induction plan using List.reverseRecOn with
  | nil => exact ⟨[], prefix_refl _, rfl⟩
  | append_singleton plan e ih =>
    obtain ⟨ws, hws, hd⟩ := ih
    have hlast : run applyW applyX s (plan ++ [e]) = exec applyW applyX (run applyW applyX s plan) e := by
      rw [run_append]
      rfl
    rw [hlast, writes_append]
    cases e with
    | write w => exact ⟨ws, hws.trans (prefix_append _ _), hd⟩
    | txn x => exact ⟨ws, hws.trans (prefix_append _ _), hd⟩
    | flush =>
      refine ⟨writes plan, prefix_append _ _, ?_⟩
      change (run applyW applyX s plan).pending = _
      rw [run_pending, hc]

lemma run_flush_txn (body : List (Effect W X)) (x : X) (hb : ∀ e ∈ body, ∀ y, e ≠ .txn y) :
    run applyW applyX s (body ++ [.flush, .txn x]) = ⟨(writes body).foldl (fun i w => applyW w i) s.pending,
        (writes body).foldl (fun i w => applyW w i) s.pending, applyX x s.table⟩ := by
  rw [run_append]
  change Store.mk (run applyW applyX s body).pending (run applyW applyX s body).pending
    (applyX x (run applyW applyX s body).table) = _
  rw [run_pending, run_table applyW applyX s body hb]

/-- A crash inside such a plan either loses the transaction and keeps some prefix of the writes,
or comes after the whole plan. -/
lemma crash_flush_txn (body : List (Effect W X)) (x : X) (n : Nat) (hc : Clean s) (hb : ∀ e ∈ body, ∀ y, e ≠ .txn y) :
    (∃ ws, ws <+: writes body ∧ crash applyW applyX s (body ++ [.flush, .txn x]) n =
        ⟨ws.foldl (fun i w => applyW w i) s.durable, ws.foldl (fun i w => applyW w i) s.durable,
          s.table⟩) ∨ crash applyW applyX s (body ++ [.flush, .txn x]) n =
      run applyW applyX s (body ++ [.flush, .txn x]) := by
  by_cases hn : n ≤ body.length + 1
  · left
    have htake : (body ++ [Effect.flush, .txn x]).take n = (body ++ [Effect.flush]).take n := by
      have he : body ++ [Effect.flush, .txn x] = (body ++ [.flush]) ++ [.txn x] := by simp
      rw [he, take_append_of_le_length (by simpa using hn)]
    have hpart := take_prefix n (body ++ [.flush] : List (Effect W X))
    obtain ⟨ws, hws, hd⟩ := run_durable applyW applyX s ((body ++ [Effect.flush]).take n) hc
    have hbody : ∀ e ∈ (body ++ [Effect.flush]).take n, ∀ y, e ≠ .txn y := by
      intro e he y
      rcases mem_append.mp (hpart.subset he) with hm | hm
      · exact hb e hm y
      · simp [mem_singleton.mp hm]
    refine ⟨ws, hws.trans ?_, ?_⟩
    · obtain ⟨rest, hr⟩ := hpart
      refine ⟨writes rest, ?_⟩
      rw [← writes_append, hr]
      simp [writes]
    · rw [crash, htake]
      simp only [reopen, hd, run_table applyW applyX s _ hbody]
  · right
    rw [crash, take_of_length_le (by simp; omega), run_flush_txn applyW applyX s body x hb]
    rfl

end GrowlerDB.Lib.WriteBack
