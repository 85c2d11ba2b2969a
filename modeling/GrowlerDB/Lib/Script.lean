import Mathlib.Data.List.Basic

namespace GrowlerDB.Lib
open List

class Effects (S E : Type) where
  exec : S → E → S

def Script (S E ε A : Type) : Type := S → List E × Except ε A

namespace Script

variable {S E ε A B α : Type} [Effects S E]

def after (s : S) (es : List E) : S := es.foldl Effects.exec s

@[simp] lemma after_nil (s : S) : after s ([] : List E) = s := rfl

@[simp] lemma after_cons (s : S) (e : E) (es : List E) :
    after s (e :: es) = after (Effects.exec s e) es := rfl

lemma after_append (s : S) (es fs : List E) : after s (es ++ fs) = after (after s es) fs :=
  foldl_append

instance : Monad (Script S E ε) where
  pure a := fun _ => ([], .ok a)
  bind p f := fun s => match p s with
    | (es, .error e) => (es, .error e)
    | (es, .ok a) => (es ++ (f a (after s es)).1, (f a (after s es)).2)

def look : Script S E ε S := fun s => ([], .ok s)

def perform (es : List E) : Script S E ε Unit := fun _ => (es, .ok ())

def fail (e : ε) : Script S E ε A := fun _ => ([], .error e)

def onlyIf (test : S → Bool) (p : Script S E ε Unit) : Script S E ε Unit :=
  look >>= fun s => if test s then p else pure ()

def attempt (p : Script S E ε A) : Script S E ε Unit := fun s => ((p s).1, .ok ())

/-- Started in `P`, the program passes only through states in `C` and ends as `Q` allows. -/
def Meets (P : S → Prop) (p : Script S E ε A) (C : S → Prop) (Q : Except ε A → S → Prop) : Prop :=
  ∀ s, P s → (∀ n, C (after s ((p s).1.take n))) ∧ Q (p s).2 (after s (p s).1)

variable {P C R T : S → Prop} {p : Script S E ε A} {Q : Except ε A → S → Prop}

lemma Meets.pure (h : ∀ s, P s → C s ∧ Q (.ok a) s) : Meets P (Pure.pure a : Script S E ε A) C Q := by
  intro s hs
  refine ⟨fun n => ?_, (h s hs).2⟩
  rw [show ((Pure.pure a : Script S E ε A) s).1 = [] from rfl, take_nil]
  exact (h s hs).1

lemma Meets.fail (h : ∀ s, P s → C s ∧ Q (.error e) s) : Meets P (Script.fail e : Script S E ε A) C Q := by
  intro s hs
  refine ⟨fun n => ?_, (h s hs).2⟩
  rw [show ((Script.fail e : Script S E ε A) s).1 = [] from rfl, take_nil]
  exact (h s hs).1

lemma Meets.perform {Q : Except ε Unit → S → Prop}
    (h : ∀ s, P s → (∀ n, C (after s (es.take n))) ∧ Q (.ok ()) (after s es)) :
    Meets P (Script.perform es : Script S E ε Unit) C Q := h

lemma Meets.bind {R : Except ε B → S → Prop} (hp : Meets P p C Q)
    (hf : ∀ a, Meets (Q (.ok a)) (f a) C R) (he : ∀ e s, Q (.error e) s → R (.error e) s) :
    Meets P (p >>= f) C R := by
  intro s hs
  obtain ⟨hc, hr⟩ := hp s hs
  rw [show (p >>= f) s = match p s with
    | (es, .error e) => (es, .error e)
    | (es, .ok a) => (es ++ (f a (after s es)).1, (f a (after s es)).2) from rfl]
  rcases h : p s with ⟨es, r⟩
  rw [h] at hc hr
  cases r with
  | error e => exact ⟨hc, he e _ hr⟩
  | ok a =>
    obtain ⟨hc', hq⟩ := hf a _ hr
    refine ⟨fun n => ?_, ?_⟩
    · -- a stop inside the first program, or after it inside the second
      rw [take_append, after_append]
      by_cases hn : n ≤ es.length
      · rw [Nat.sub_eq_zero_of_le hn, take_zero]
        exact hc n
      · rw [take_of_length_le (Nat.le_of_not_le hn)]
        exact hc' _
    · rw [after_append]
      exact hq

lemma Meets.each (h : ∀ s, P s → Meets (· = s) p C Q) : Meets P p C Q :=
  fun s hs => h s hs s rfl

lemma Meets.look_bind {f : S → Script S E ε A}
    (h : ∀ s, P s → Meets (· = s) (f s) C Q) : Meets P (look >>= f) C Q :=
  fun s hs => h s hs s rfl

lemma Meets.conseq {P' C' : S → Prop} {Q' : Except ε A → S → Prop} (h : Meets P p C Q)
    (hP : ∀ s, P' s → P s) (hC : ∀ s, C s → C' s) (hQ : ∀ r s, Q r s → Q' r s) : Meets P' p C' Q' :=
  fun s hs => ⟨fun n => hC _ ((h s (hP s hs)).1 n), hQ _ _ (h s (hP s hs)).2⟩

lemma Meets.onlyIf {test : S → Bool} {p : Script S E ε Unit} {Q : Except ε Unit → S → Prop}
    (ht : Meets (fun s => P s ∧ test s = true) p C Q)
    (hf : ∀ s, P s → test s = false → C s ∧ Q (.ok ()) s) : Meets P (Script.onlyIf test p) C Q := by
  refine Meets.look_bind fun s hs => ?_
  by_cases h : test s
  · rw [if_pos h]
    rintro _ rfl
    exact ht _ ⟨hs, h⟩
  · rw [if_neg h]
    refine Meets.pure ?_
    rintro _ rfl
    exact hf _ hs (by simpa using h)

def OnOk (R : S → Prop) (r : Except ε A) (s : S) : Prop := ∀ a, r = .ok a → R s

lemma Meets.attempt (h : Meets P p C fun _ => R) : Meets P (Script.attempt p) C (OnOk R) :=
  fun s hs => ⟨(h s hs).1, fun _ _ => (h s hs).2⟩

lemma Meets.seq (hp : Meets P p C (OnOk R)) (hq : Meets R q C (OnOk T)) :
    Meets P (p >>= fun _ => q) C (OnOk T) := by
  refine hp.bind (fun a => ?_) ?_
  · exact hq.conseq (fun s h => h a rfl) (fun _ h => h) (fun _ _ h => h)
  · intro e s _ a h
    exact (nomatch h)

lemma Meets.ends (h : Meets P p C Q) : Meets P p C fun _ => C := by
  intro s hs
  refine ⟨(h s hs).1, ?_⟩
  have := (h s hs).1 (p s).1.length
  rwa [take_length] at this

lemma Meets.fail_onOk (h : ∀ s, P s → C s) : Meets P (Script.fail e : Script S E ε A) C (OnOk R) :=
  Meets.fail fun s hs => ⟨h s hs, fun _ h => (nomatch h)⟩

lemma Meets.perform_one {Q : Except ε Unit → S → Prop}
    (h : ∀ s, P s → C s ∧ C (Effects.exec s e) ∧ Q (.ok ()) (Effects.exec s e)) :
    Meets P (Script.perform [e] : Script S E ε Unit) C Q := by
  refine Meets.perform fun s hs => ⟨fun n => ?_, (h s hs).2.2⟩
  cases n with
  | zero => exact (h s hs).1
  | succ n =>
    rw [take_of_length_le (by simp)]
    exact (h s hs).2.1

lemma Meets.perform_onOk (h : ∀ s, P s → C s ∧ C (Effects.exec s e) ∧ R (Effects.exec s e)) :
    Meets P (Script.perform [e] : Script S E ε Unit) C (OnOk R) :=
  Meets.perform_one fun s hs => ⟨(h s hs).1, (h s hs).2.1, fun _ _ => (h s hs).2.2⟩

def Ends (F R : S → Prop) : Except ε A → S → Prop
  | .error _ => F
  | .ok _ => R

lemma Meets.bind_ends {F : S → Prop} (hp : Meets P p C (Ends F R))
    (hf : ∀ a s, R s → Meets (· = s) (f a) C (Ends F T)) : Meets P (p >>= f) C (Ends F T) :=
  hp.bind (fun a => Meets.each (hf a)) (fun _ _ h => h)

lemma Meets.foldlM {F : S → Prop} {f : B → α → Script S E ε B} {I : List α → S → Prop}
    (l : List α) (b : B) (step : ∀ done x rest b, l = done ++ x :: rest →
      Meets (I done) (f b x) C (Ends F (I (done ++ [x]))))
    (last : ∀ s, I l s → C s ∧ R s) : Meets (I []) (l.foldlM f b) C (Ends F R) := by
  suffices h : ∀ rest done b, l = done ++ rest → Meets (I done) (rest.foldlM f b) C (Ends F R) from h l [] b rfl
  intro rest
  induction rest with
  | nil =>
    intro done b hl
    obtain rfl : l = done := by simpa using hl
    exact Meets.pure last
  | cons x rest ih =>
    intro done b hl
    rw [foldlM_cons]
    exact (step done x rest b hl).bind (fun b' => ih (done ++ [x]) b' (by simpa using hl))
      (fun _ _ h => h)

def Returns (P : S → Prop) (p : Script S E ε Unit) (R : S → Prop) : Prop :=
  ∀ s, P s → (p s).2 = .ok () ∧ R (after s (p s).1)

lemma Returns.seq {p q : Script S E ε Unit} (hp : Returns P p R)
    (hq : Returns R q T) : Returns P (p >>= fun _ => q) T := by
  intro s hs
  obtain ⟨ho, hr⟩ := hp s hs
  rcases h : p s with ⟨es, r⟩
  rw [h] at ho hr
  obtain rfl : r = .ok () := ho
  simp only [bind, h, after_append]
  exact hq _ hr

lemma Returns.perform (h : ∀ s, P s → R (after s es)) : Returns P (Script.perform es : Script S E ε Unit) R :=
  fun s hs => ⟨rfl, h s hs⟩

lemma Returns.onlyIf {test : S → Bool} {p : Script S E ε Unit}
    (ht : Returns (fun s => P s ∧ test s = true) p R) (hf : ∀ s, P s → test s = false → R s) :
    Returns P (Script.onlyIf test p) R := by
  intro s hs
  rw [show Script.onlyIf test p s = (if test s then p else pure ()) s from rfl]
  by_cases h : test s
  · rw [if_pos h]
    exact ht s ⟨hs, h⟩
  · rw [if_neg h]
    exact ⟨rfl, hf s hs (by simpa using h)⟩

/-- All effects of the program satisfy `P`, whatever state it starts in. -/
def Emits (P : E → Prop) (p : Script S E ε A) : Prop := ∀ s, ∀ e ∈ (p s).1, P e

section

variable {P : E → Prop}

lemma Emits.pure (a : A) : Emits P (Pure.pure a : Script S E ε A) := fun _ _ he => absurd he not_mem_nil

omit [Effects S E] in
lemma Emits.fail (e : ε) : Emits P (Script.fail e : Script S E ε A) := fun _ _ he => absurd he not_mem_nil

omit [Effects S E] in
lemma Emits.look : Emits P (Script.look : Script S E ε S) := fun _ _ he => absurd he not_mem_nil

omit [Effects S E] in
lemma Emits.perform (h : ∀ e ∈ es, P e) : Emits P (Script.perform es : Script S E ε Unit) :=
  fun _ => h

lemma Emits.bind (hp : Emits P p) (hf : ∀ a, Emits P (f a)) : Emits P (p >>= f) := by
  intro s e he
  have hs := hp s
  simp only [Bind.bind] at he
  rcases h : p s with ⟨es, r⟩
  rw [h] at he hs
  cases r with
  | error => exact hs e he
  | ok a =>
    rcases mem_append.mp he with he | he
    · exact hs e he
    · exact hf a _ e he

lemma Emits.foldlM {f : B → α → Script S E ε B} {l : List α} (h : ∀ x ∈ l, ∀ b, Emits P (f b x)) (b : B) :
    Emits P (l.foldlM f b) := by
  induction l generalizing b with
  | nil => exact .pure b
  | cons x l ih =>
    rw [foldlM_cons]
    exact (h x mem_cons_self b).bind fun b' => ih (fun y hy => h y (mem_cons_of_mem _ hy)) b'

end

lemma after_induct {I : S → Prop} {es : List E} (h : ∀ e ∈ es, ∀ s, I s → I (Effects.exec s e)) {s : S}
    (hs : I s) : I (after s es) := by
  induction es generalizing s with
  | nil => exact hs
  | cons e es ih => exact ih (fun f hf => h f (mem_cons_of_mem _ hf)) (h e mem_cons_self s hs)

end Script

end GrowlerDB.Lib
