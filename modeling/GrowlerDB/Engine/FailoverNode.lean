import Mathlib.Data.List.Infix

namespace GrowlerDB.Engine.FailoverNode
open Function List

inductive Code
  | unavailable
  | deadlineExceeded
  | cancelled
  | unknown
  | internal
  | failedPrecondition
  | other (code : Nat)
deriving DecidableEq

structure Status where
  code : Code
  message : String
  /-- It was made here of a transport error, not read off the wire. -/
  source : Bool
  /-- The code of its structured detail. -/
  detail : Option String

def unavailable (message : String) : Status := ⟨.unavailable, message, false, none⟩

def isHolderDown (status : Status) : Bool :=
  match status.code with
  | .unavailable | .deadlineExceeded | .cancelled => true
  | .unknown | .internal => status.source || decide ("transport error".toList <:+: status.message.toList) ||
      decide ("connection".toList <:+: status.message.toList)
  | _ => false

def isUnitNotServed (status : Status) : Bool :=
  status.code = .failedPrecondition && status.detail = some "UNIT_NOT_SERVED"

/-- In nanoseconds. -/
def requestTimeout : Nat := 30000000000

/-- In milliseconds. -/
def holderDownCooldown : Nat := 3000

def skip (mark now : Nat) : Bool := mark ≠ 0 && now + 1 - mark < holderDownCooldown

def candidates (n : Nat) (marks : Nat → Nat) (now : Nat) : List Nat :=
  let live := (range n).filter fun i => !skip (marks i) now
  if live = [] then range n else live

/-- What a holder would answer, after how long, and the clock then. -/
structure Answer (R : Type) where
  result : Except Status R
  took : Nat
  now : Nat

/-- `tried` are the holders that failed, ran over their slice or declined. -/
structure Outcome (R : Type) where
  marks : Nat → Nat
  tried : List Nat
  took : Nat
  result : Except Status R

variable {R : Type} (debug : Nat → String) (slice : Nat) (answers : Nat → Answer R)

def tryHolders : List Nat → Outcome R → Outcome R
  | [], out => out
  | i :: left, out =>
    let a := answers i
    if a.took ≤ slice then
      let out := { out with took := out.took + a.took }
      match a.result with
      | .ok resp => { out with marks := update out.marks i 0, result := .ok resp }
      | .error status =>
        if isHolderDown status then
          tryHolders left { out with
            marks := update out.marks i (a.now + 1), tried := i :: out.tried, result := .error status }
        else if isUnitNotServed status then
          let declined := unavailable ("no holder serves the unit: " ++ status.message)
          tryHolders left { out with tried := i :: out.tried, result := .error declined }
        else { out with result := .error status }
    else
      let message := "holder did not answer within the " ++ debug slice ++ " failover slice"
      tryHolders left ⟨update out.marks i (a.now + 1), i :: out.tried, out.took + slice,
        .error ⟨.deadlineExceeded, message, false, none⟩⟩

/-- `marks` are the down-marks as this read loads them, whatever reads before and beside it left there. -/
def failoverRead (n : Nat) (marks : Nat → Nat) (now : Nat) : Outcome R :=
  let tries := candidates n marks now
  tryHolders debug (requestTimeout / max tries.length 1) answers tries
    ⟨marks, [], 0, .error (unavailable "no holders for unit")⟩

variable {debug slice answers}

/-- The read goes on to the next holder: this one ran over its slice, failed or declined. -/
def Answer.passedOver (slice : Nat) (a : Answer R) : Bool :=
  slice < a.took || match a.result with
    | .ok _ => false
    | .error status => isHolderDown status || isUnitNotServed status

/-- From `out` to `fin` the holders `left` were asked in order, up to the first one that answered for good. -/
structure Asked (slice : Nat) (answers : Nat → Answer R) (left : List Nat) (out fin : Outcome R) : Prop where
  took : fin.took ≤ out.took + left.length * slice
  answered : ∀ before i after, left = before ++ i :: after → (∀ j ∈ before, (answers j).passedOver slice) →
    (answers i).passedOver slice = false → fin.result = (answers i).result ∧ fin.tried = before.reverse ++ out.tried
  exhausted : (∀ i ∈ left, (answers i).passedOver slice) →
    (∃ e, fin.result = .error e ∧ isHolderDown e) ∧ fin.tried = left.reverse ++ out.tried

lemma Asked.next {out next : Outcome R} (h : Asked slice answers left next fin) (hi : (answers i).passedOver slice)
    (htook : next.took ≤ out.took + slice) (htried : next.tried = i :: out.tried) :
    Asked slice answers (i :: left) out fin := by
  refine ⟨Nat.le_trans h.took ?_, ?_, fun hall => ?_⟩
  · rw [length_cons, Nat.succ_mul]
    omega
  · rintro (_ | ⟨b, before⟩) k after hsplit hbefore hk <;> cases hsplit
    · rw [hi] at hk
      cases hk
    · obtain ⟨hresult, htried'⟩ := h.answered before k after rfl (fun j hj => hbefore j (mem_cons_of_mem _ hj)) hk
      exact ⟨hresult, by simp [htried', htried]⟩
  · obtain ⟨hdown, htried'⟩ := h.exhausted fun j hj => hall j (mem_cons_of_mem _ hj)
    exact ⟨hdown, by simp [htried', htried]⟩

lemma Asked.final {out fin : Outcome R} (hi : (answers i).passedOver slice = false) (htook : fin.took ≤ out.took + slice)
    (hresult : fin.result = (answers i).result) (htried : fin.tried = out.tried) :
    Asked slice answers (i :: left) out fin := by
  refine ⟨Nat.le_trans htook (Nat.add_le_add_left (Nat.le_mul_of_pos_left _ (by simp)) _), ?_, fun hall => ?_⟩
  · rintro (_ | ⟨b, before⟩) k after hsplit hbefore hk <;> cases hsplit
    · exact ⟨hresult, htried⟩
    · simp [hbefore i mem_cons_self] at hi
  · simp [hall i mem_cons_self] at hi

lemma tryHolders_asked (left : List Nat) {out : Outcome R} (h : ∃ e, out.result = .error e ∧ isHolderDown e) :
    Asked slice answers left out (tryHolders debug slice answers left out) := by
  induction left generalizing out with
  | nil => exact ⟨Nat.le_add_right .., fun before i after hsplit => by simp at hsplit, fun _ => ⟨h, rfl⟩⟩
  | cons i left ih =>
    unfold tryHolders
    dsimp only
    split_ifs with htook
    · have hslice : ¬ slice < (answers i).took := Nat.not_lt.mpr htook
      split
      · rename_i resp hresp
        exact .final (by simp [Answer.passedOver, hslice, hresp]) (by dsimp only; omega) hresp.symm rfl
      · rename_i status hstatus
        split_ifs with hdown hserved
        · exact (ih ⟨_, rfl, hdown⟩).next (by simp [Answer.passedOver, hstatus, hdown]) (by dsimp only; omega) rfl
        · exact (ih ⟨_, rfl, rfl⟩).next (by simp [Answer.passedOver, hstatus, hserved]) (by dsimp only; omega) rfl
        · exact .final (by simp [Answer.passedOver, hslice, hstatus, hdown, hserved]) (by dsimp only; omega)
            hstatus.symm rfl
    · exact (ih ⟨_, rfl, rfl⟩).next (by simp [Answer.passedOver, Nat.lt_of_not_le htook]) (Nat.le_refl _) rfl

lemma all_candidates : (∀ i < n, i ∈ candidates n marks now) ↔
    (∀ i < n, skip (marks i) now = false) ∨ ∀ i < n, skip (marks i) now := by
  simp only [candidates]
  split_ifs with hlive
  · simp_all [filter_eq_nil_iff]
  · have hsome : ¬ ∀ i < n, skip (marks i) now := by simpa [filter_eq_nil_iff] using hlive
    simp +contextual [hsome]

/-- A read takes no longer than the request timeout. It asks the candidates in order and returns the first answer that
is no failure, time-out or refusal as it is, an error of the request too. It fails with unavailability if there is none;
and then all holders failed, timed out or declined in it exactly if it found none of them freshly down-marked, or all. -/
theorem failover_read_exhausts_iff (n : Nat) (marks : Nat → Nat) (now : Nat) :
    let tries := candidates n marks now
    let slice := requestTimeout / max tries.length 1
    let out := failoverRead debug answers n marks now
    out.took ≤ requestTimeout ∧
    (∀ before i after, tries = before ++ i :: after → (∀ j ∈ before, (answers j).passedOver slice) →
      (answers i).passedOver slice = false → out.result = (answers i).result ∧ out.tried = before.reverse) ∧
    ((∀ i ∈ tries, (answers i).passedOver slice) → ∃ e, out.result = .error e ∧ isHolderDown e = true) ∧
    ∀ e, out.result = .error e → isHolderDown e = true →
      (∀ i ∈ out.tried, (answers i).passedOver slice) ∧
      ((∀ i < n, i ∈ out.tried) ↔ (∀ i < n, skip (marks i) now = false) ∨ ∀ i < n, skip (marks i) now = true) := by
  intro tries slice out
  have hasked : Asked slice answers tries _ out := tryHolders_asked _ ⟨_, rfl, rfl⟩
  refine ⟨Nat.le_trans hasked.took ?_, fun before i after hsplit hbefore hi => ?_, fun hall => (hasked.exhausted hall).1,
    fun e he hdown => ?_⟩
  · rw [Nat.zero_add]
    exact Nat.le_trans (Nat.mul_le_mul_right _ (Nat.le_max_left ..)) (Nat.mul_div_le ..)
  · simpa using hasked.answered before i after hsplit hbefore hi
  · have hall : ∀ i ∈ tries, (answers i).passedOver slice := by
      by_contra hsome
      obtain ⟨i, hfind⟩ := Option.isSome_iff_exists.mp (find?_isSome (p := fun i => !(answers i).passedOver slice).mpr
        (by simpa using hsome))
      obtain ⟨hi, before, after, hsplit, hbefore⟩ := find?_eq_some_iff_append.mp hfind
      -- what is returned for good is no unavailability
      have hresult := (hasked.answered before i after hsplit (by simpa using hbefore) (by simpa using hi)).1
      simp [Answer.passedOver, ← hresult, he, hdown] at hi
    have htried : out.tried = tries.reverse := by simpa using (hasked.exhausted hall).2
    rw [← all_candidates, htried]
    simp only [mem_reverse]
    exact ⟨hall, Iff.rfl⟩

/-- A holder that hung is down-marked, and a read that skips it fails with the other one. -/
theorem failover_read_skips :
    let first := failoverRead (fun _ => "") (fun i => ⟨.ok (), if i = 0 then requestTimeout else 0, 0⟩) 2 (fun _ => 0) 0
    let answers : Nat → Answer Unit := fun i => ⟨if i = 0 then .ok () else .error (unavailable ""), 0, 1000⟩
    let second := failoverRead (fun _ => "") answers 2 first.marks 1000
    second.result = .error (unavailable "") ∧ second.tried = [1] ∧ (answers 0).result = .ok () := by
  exact ⟨rfl, rfl, rfl⟩

end GrowlerDB.Engine.FailoverNode
