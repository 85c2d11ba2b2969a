import Mathlib.Data.List.Basic
import Mathlib.Data.List.Range
import Mathlib.Data.List.Perm.Basic

namespace GrowlerDB.Lib
open List

variable {α β γ ε : Type}

variable {f : α → Except ε β} {x : Except ε α}

lemma bind_ok {b : β} (h : x >>= f = .ok b) : ∃ a, x = .ok a ∧ f a = .ok b := by
  cases x with
  | error e => cases h
  | ok a => exact ⟨a, rfl, h⟩

lemma map_ok {f : α → β} {b : β} (h : x.map f = .ok b) : ∃ a, x = .ok a ∧ f a = b := by
  cases x with
  | error e => cases h
  | ok a => exact ⟨a, rfl, Except.ok.inj h⟩

lemma bind_same {k : α → Except ε γ} {k' : α → Except ε β} {g : β → γ} (h : ∀ a, k a = (k' a).map g) :
    (x >>= k) = (x >>= k').map g := by
  cases x with
  | error e => rfl
  | ok a => exact h a

lemma bind_map {y : Except ε β} {k : α → Except ε γ} {k' : β → Except ε δ} {p : β → α} {g : δ → γ}
    (hx : x = y.map p) (h : ∀ b, k (p b) = (k' b).map g) : (x >>= k) = (y >>= k').map g := by
  subst hx
  cases y with
  | error e => rfl
  | ok b => exact h b

lemma toOption_map (f : α → β) (x : Except ε α) : (x.map f).toOption = x.toOption.map f := by
  cases x <;> rfl

lemma toOption_eq_some {a : α} : x.toOption = some a ↔ x = .ok a := by
  cases x <;> simp [Except.toOption]

variable {l : List α} {bs : List β}

lemma mapM_ok_cons
    (h : (a :: l).mapM f = .ok bs) : ∃ b bs', f a = .ok b ∧ l.mapM f = .ok bs' ∧ bs = b :: bs' := by
  rw [mapM_cons] at h
  obtain ⟨b, hb, h⟩ := bind_ok h
  obtain ⟨bs', hbs, h⟩ := bind_ok h
  exact ⟨b, bs', hb, hbs, (Except.ok.inj h).symm⟩

lemma mapM_eq_ok {g : α → β} (h : ∀ a ∈ l, f a = .ok (g a)) : l.mapM f = .ok (l.map g) := by
  induction l with
  | nil => rfl
  | cons a l ih =>
    rw [mapM_cons, h a mem_cons_self, ih (fun b hb => h b (mem_cons_of_mem _ hb))]
    rfl

lemma mapM_map {g : β → γ} (l : List α) : l.mapM (fun a => (f a).map g) = (l.mapM f).map (List.map g) := by
  induction l with
  | nil => rfl
  | cons a l ih =>
    rw [mapM_cons, mapM_cons, ih]
    cases f a with
    | error e => rfl
    | ok b => cases l.mapM f <;> rfl

lemma mapM_eq_map {f' : α → Except ε γ} {g : γ → β} (h : ∀ a, f a = (f' a).map g) (l : List α) :
    l.mapM f = (l.mapM f').map (List.map g) := by
  rw [← mapM_map]
  exact congrArg (l.mapM ·) (funext h)

lemma map_of_mapM
    (h : l.mapM f = .ok bs) (hf : ∀ a b, f a = .ok b → q b = p a) : bs.map q = l.map p := by
  induction l generalizing bs with
  | nil =>
    cases h
    rfl
  | cons a l ih =>
    obtain ⟨b, bs', hb, hbs, rfl⟩ := mapM_ok_cons h
    rw [map_cons, map_cons, ih hbs, hf a b hb]

lemma mem_of_mapM (h : l.mapM f = .ok bs) : ∀ b ∈ bs, ∃ a ∈ l, f a = .ok b := by
  induction l generalizing bs with
  | nil =>
    cases h
    simp
  | cons a l ih =>
    obtain ⟨b, bs', hb, hbs, rfl⟩ := mapM_ok_cons h
    intro c hc
    rcases mem_cons.mp hc with rfl | hc
    · exact ⟨a, mem_cons_self, hb⟩
    · obtain ⟨d, hd, hf⟩ := ih hbs c hc
      exact ⟨d, mem_cons_of_mem a hd, hf⟩

lemma ok_of_mapM (h : l.mapM f = .ok bs) : ∀ a ∈ l, ∃ b, f a = .ok b := by
  induction l generalizing bs with
  | nil => simp
  | cons a l ih =>
    obtain ⟨b, bs', hb, hbs, rfl⟩ := mapM_ok_cons h
    exact forall_mem_cons.mpr ⟨⟨b, hb⟩, ih hbs⟩

lemma mem_of_mapM_some {f : α → Option β} (h : l.mapM f = some bs) :
    (∀ a ∈ l, ∃ b ∈ bs, f a = some b) ∧ ∀ b ∈ bs, ∃ a ∈ l, f a = some b := by
  induction l generalizing bs with
  | nil =>
    cases h
    simp
  | cons a l ih =>
    rw [mapM_cons] at h
    obtain ⟨b, hb, h₁⟩ := Option.bind_eq_some_iff.mp h
    obtain ⟨bs', hbs, h₂⟩ := Option.bind_eq_some_iff.mp h₁
    cases h₂
    obtain ⟨hto, hfrom⟩ := ih hbs
    constructor
    · intro x hx
      rcases mem_cons.mp hx with rfl | hx
      · exact ⟨b, mem_cons_self, hb⟩
      · obtain ⟨y, hy, hf⟩ := hto x hx
        exact ⟨y, mem_cons_of_mem _ hy, hf⟩
    · intro y hy
      rcases mem_cons.mp hy with rfl | hy
      · exact ⟨a, mem_cons_self, hb⟩
      · obtain ⟨x, hx, hf⟩ := hfrom y hy
        exact ⟨x, mem_cons_of_mem _ hx, hf⟩

variable {α : Type} {l : List α}

lemma countP_set_add (p : α → Bool) (h : l[k]? = some a) :
    (l.set k b).countP p + (if p a then 1 else 0) = l.countP p + if p b then 1 else 0 := by
  obtain ⟨hk, rfl⟩ := List.getElem?_eq_some_iff.mp h
  have hle := List.boole_getElem_le_countP (p := p) hk
  rw [List.countP_set hk]
  omega

variable {α : Type}

def pushAt (i : Nat) (x : α) (groups : List (List α)) : Option (List (List α)) :=
  if i < groups.length then some (groups.modify i (· ++ [x])) else none

def distribute (groupOf : α → Option Nat) (n : Nat) (xs : List α) : Option (List (List α)) :=
  xs.foldlM (fun groups x => (groupOf x).bind fun i => pushAt i x groups) (List.replicate n [])

variable {groupOf : α → Option Nat} {n : Nat} {xs : List α}

lemma foldlM_pushAt {groups : List (List α)} (h : ∀ x ∈ xs, ∃ i < groups.length, groupOf x = some i) :
    xs.foldlM (fun groups x => (groupOf x).bind fun i => pushAt i x groups) groups =
      some (groups.mapIdx fun i group => group ++ xs.filter (fun x => groupOf x = some i)) := by
  induction xs generalizing groups with
  | nil =>
    refine congrArg some (ext_getElem? fun j => ?_)
    simp
  | cons x xs ih =>
    obtain ⟨i, hi, hx⟩ := h x mem_cons_self
    have hpush : pushAt i x groups = some (groups.modify i (· ++ [x])) := if_pos hi
    have htail : ∀ y ∈ xs, ∃ j < (groups.modify i (· ++ [x])).length, groupOf y = some j := by
      intro y hy
      rw [length_modify]
      exact h y (mem_cons_of_mem _ hy)
    rw [foldlM_cons, hx, Option.bind_some, hpush]
    change xs.foldlM _ _ = _
    rw [ih htail]
    congr 1
    apply ext_getElem?
    intro j
    simp only [List.getElem?_mapIdx, List.getElem?_modify, filter_cons, hx, Option.some.injEq]
    cases groups[j]? with
    | none => simp
    | some group => by_cases hij : i = j <;> simp [hij]

lemma distribute_eq (h : ∀ x ∈ xs, ∃ i < n, groupOf x = some i) :
    distribute groupOf n xs = some ((List.range n).map fun i => xs.filter (fun x => groupOf x = some i)) := by
  rw [distribute, foldlM_pushAt (by simpa using h)]
  congr 1
  apply ext_getElem?
  intro j
  by_cases hj : j < n <;> simp [hj]

lemma flatMap_groups (groupOf : α → Option Nat) (n : Nat) (xs : List α) :
    ((List.range n).flatMap fun i => xs.filter (fun x => groupOf x = some i)).Perm
      (xs.filter (fun x => ∃ i < n, groupOf x = some i)) := by
  induction n with
  | zero => simp
  | succ n ih =>
    have hlow : (xs.filter (fun x => ∃ i < n + 1, groupOf x = some i)).filter (fun x => ¬ groupOf x = some n) =
        xs.filter (fun x => ∃ i < n, groupOf x = some i) := by
      rw [filter_filter]
      apply filter_congr
      intro x _
      rw [← Bool.decide_and]
      refine decide_eq_decide.mpr ⟨fun ⟨hne, i, hi, hx⟩ => ⟨i, ?_, hx⟩, fun ⟨i, hi, hx⟩ => ⟨?_, i, by omega, hx⟩⟩
      · have : i ≠ n := fun heq => hne (heq ▸ hx)
        omega
      · rw [hx]
        exact fun heq => absurd (Option.some.inj heq) (by omega)
    have hlast : (xs.filter (fun x => ∃ i < n + 1, groupOf x = some i)).filter (fun x => groupOf x = some n) =
        xs.filter (fun x => groupOf x = some n) := by
      rw [filter_filter]
      apply filter_congr
      intro x _
      rw [← Bool.decide_and]
      exact decide_eq_decide.mpr ⟨And.left, fun hx => ⟨hx, n, by omega, hx⟩⟩
    rw [range_succ, flatMap_append, flatMap_singleton]
    refine (ih.append_right _).trans ?_
    rw [← hlow, ← hlast]
    have hsplit := filter_append_perm (fun x => decide (groupOf x = some n))
      (xs.filter (fun x => ∃ i < n + 1, groupOf x = some i))
    refine perm_append_comm.trans ?_
    simpa using hsplit

end GrowlerDB.Lib
