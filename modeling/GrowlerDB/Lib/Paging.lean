import Mathlib.Data.List.Nodup

namespace GrowlerDB.Lib.Paging
open List Option

variable {A C E : Type}

def scroll (fetch : Option C → Except E (List A × Option C)) :
    Nat → Option C → Option (Except E (List (List A)))
  | 0, _ => none
  | fuel + 1, c =>
    match fetch c with
    | .error e => some (.error e)
    | .ok (page, none) => some (.ok [page])
    | .ok (page, some c') => (scroll fetch fuel (some c')).map (fun r => r.map (page :: ·))

/-- The scroll from a cursor ends, and its pages make up `u`. -/
def Collects (fetch : Option C → Except E (List A × Option C)) (c : Option C) (u : List A) : Prop :=
  ∃ fuel pages, scroll fetch fuel c = some (.ok pages) ∧ pages.flatten = u

section

variable {fetch : Option C → Except E (List A × Option C)} {c : Option C} {page u : List A}

lemma collects_last (h : fetch c = .ok (page, none)) : Collects fetch c u ↔ page = u := by
  constructor
  · rintro ⟨fuel, pages, hs, rfl⟩
    cases fuel with
    | zero => cases hs
    | succ fuel =>
      rw [scroll, h] at hs
      obtain rfl := Except.ok.inj (some.inj hs)
      simp
  · rintro rfl
    exact ⟨1, [page], by rw [scroll, h], by simp⟩

lemma collects_more (h : fetch c = .ok (page, some c')) :
    Collects fetch c u ↔ ∃ rest, u = page ++ rest ∧ Collects fetch (some c') rest := by
  constructor
  · rintro ⟨fuel, pages, hs, rfl⟩
    cases fuel with
    | zero => cases hs
    | succ fuel =>
      rw [scroll, h] at hs
      cases hrest : scroll fetch fuel (some c') with
      | none =>
        simp only [hrest] at hs
        cases hs
      | some r =>
        simp only [hrest, map_some] at hs
        cases r with
        | error e => cases hs
        | ok rest =>
          obtain rfl := Except.ok.inj (some.inj hs)
          exact ⟨rest.flatten, rfl, fuel, rest, hrest, rfl⟩
  · rintro ⟨-, rfl, fuel, rest, hs, rfl⟩
    refine ⟨fuel + 1, page :: rest, ?_, rfl⟩
    rw [scroll, h]
    simp only [hs, map_some]
    rfl

lemma not_collects_error (h : fetch c = .error e) : ¬ Collects fetch c u := by
  rintro ⟨fuel, pages, hs, -⟩
  cases fuel with
  | zero => cases hs
  | succ fuel =>
    rw [scroll, h] at hs
    cases hs

end

lemma filter_eq_drop {u : List A} (h : u.Pairwise (fun a b => p a = true → p b = true)) :
    u.filter p = u.drop (u.takeWhile (fun a => !p a)).length := by
  induction u with
  | nil => rfl
  | cons a u ih =>
    obtain ⟨ha, h⟩ := pairwise_cons.mp h
    cases hp : p a with
    | true =>
      rw [filter_cons_of_pos hp, takeWhile_cons_of_neg (by simp [hp]), length_nil,
        drop_zero, filter_eq_self.mpr (fun b hb => ha b hb hp)]
    | false =>
      rw [filter_cons_of_neg (by simp [hp]), takeWhile_cons_of_pos (by simp [hp]), ih h, length_cons, drop_succ_cons]

def pageAt (u : List A) (k place : Nat) : List A := (u.drop place).take k

lemma pageAt_append_drop (u : List A) (k place : Nat) : pageAt u k place ++ u.drop (place + k) = u.drop place := by
  rw [pageAt, ← drop_drop, take_append_drop]

lemma forall_places {P : Nat → Prop} :
    (∀ i, P (place + i * k)) ↔ P place ∧ ∀ i, P (place + k + i * k) := by
  have hshift : ∀ i, place + (i + 1) * k = place + k + i * k := by
    intro i
    rw [Nat.succ_mul]
    omega
  constructor
  · intro h
    exact ⟨by simpa using h 0, fun i => hshift i ▸ h (i + 1)⟩
  · rintro ⟨hzero, hrest⟩ i
    cases i with
    | zero => simpa using hzero
    | succ i => exact hshift i ▸ hrest i

def cursorAfter (more : List A → Bool) (token : A → Option C) (page : List A) : Option C :=
  if more page then page.getLast?.bind token else none

/-- Fetching cuts pages out of one list: a cursor leads to a place of the list, or to an error. -/
structure Paged (fetch : Option C → Except E (List A × Option C)) (u : List A) (k : Nat)
    (more : List A → Bool) (token : A → Option C) (resume : C → Option Nat) : Prop where
  size : 0 < k
  more_ne : ∀ page, more page = true → page ≠ []
  short : ∀ page, page.length ≤ k → more page = false → page.length < k
  token_some : ∀ a ∈ u, ∃ c, token a = some c
  first : fetch none = .ok (pageAt u k 0, cursorAfter more token (pageAt u k 0))
  next : ∀ c place, resume c = some place →
    fetch (some c) = .ok (pageAt u k place, cursorAfter more token (pageAt u k place))
  lost : ∀ c, resume c = none → ∃ e, fetch (some c) = .error e

variable {place : Nat}

variable {fetch : Option C → Except E (List A × Option C)} {u : List A} {k : Nat}
  {more : List A → Bool} {token : A → Option C} {resume : C → Option Nat}

/-- If the page at a place gives out a cursor, it leads to where the page ends. -/
def Leads (u : List A) (k : Nat) (more : List A → Bool) (token : A → Option C)
    (resume : C → Option Nat) (place : Nat) : Prop :=
  ∀ c, cursorAfter more token (pageAt u k place) = some c →
    ∃ next, resume c = some next ∧ u.drop next = u.drop (place + k)

lemma pageAt_eq_nil (h : u.length ≤ place) : pageAt u k place = [] := by
  rw [pageAt, drop_eq_nil_of_le h, take_nil]

variable (h : Paged fetch u k more token resume)
include h

lemma Paged.more_nil : more [] = false := by
  cases hm : more [] with
  | false => rfl
  | true => exact absurd rfl (h.more_ne [] hm)

lemma Paged.last_page (hc : cursorAfter more token (pageAt u k place) = none) :
    pageAt u k place = u.drop place ∧ u.length ≤ place + k := by
  have hmore : more (pageAt u k place) = false := by
    cases hm : more (pageAt u k place) with
    | false => rfl
    | true =>
      obtain ⟨a, ha⟩ := isSome_iff_exists.mp
        (List.getLast?_isSome.mpr (h.more_ne _ hm))
      have hin : a ∈ u := mem_of_mem_drop (mem_of_mem_take (mem_of_getLast? ha))
      obtain ⟨c, hc'⟩ := h.token_some a hin
      rw [cursorAfter, if_pos hm, ha, bind_some, hc'] at hc
      cases hc
  have hlen := h.short _ (length_take_le _ _) hmore
  unfold pageAt at hlen ⊢
  rw [length_take, length_drop] at hlen
  constructor
  · exact take_of_length_le (by rw [length_drop]; omega)
  · omega

lemma Paged.place_lt (hc : cursorAfter more token (pageAt u k place) = some c) : place < u.length := by
  by_contra hge
  rw [pageAt_eq_nil (Nat.not_lt.mp hge), cursorAfter, h.more_nil] at hc
  cases hc

/-- A scroll from a cursor that leads elsewhere does not make up the rest of the list. -/
lemma Paged.drop_eq_of_collects (hn : u.Nodup) {c : C}
    {next : Nat} (hr : resume c = some next) (hc : Collects fetch (some c) (u.drop place)) :
    u.drop next = u.drop place := by
  have hstart : ∃ rest, u.drop place = pageAt u k next ++ rest ∧
      (u.drop next = [] → rest = []) := by
    have hfetch := h.next c next hr
    cases hcur : cursorAfter more token (pageAt u k next) with
    | none =>
      rw [hcur] at hfetch
      exact ⟨[], by rw [(collects_last hfetch).mp hc, append_nil], fun _ => rfl⟩
    | some c' =>
      rw [hcur] at hfetch
      obtain ⟨rest, hrest, -⟩ := (collects_more hfetch).mp hc
      refine ⟨rest, hrest, fun hnil => ?_⟩
      exact absurd (drop_eq_nil_iff.mp hnil) (Nat.not_le.mpr (h.place_lt hcur))
  obtain ⟨rest, hrest, hnil⟩ := hstart
  cases hnext : u.drop next with
  | nil => rw [hrest, pageAt, hnext, hnil hnext, take_nil, nil_append]
  | cons y tail =>
    -- both begin with `y`, which has one place in the list
    obtain ⟨k', rfl⟩ : ∃ k', k = k' + 1 := ⟨k - 1, by have := h.size; omega⟩
    have hy : u[place]? = some y := by
      have hhead := congrArg List.head? hrest
      rw [List.head?_drop, pageAt, hnext, take_succ_cons, cons_append, List.head?_cons] at hhead
      exact hhead
    have hy' : u[next]? = some y := by
      have hhead := congrArg List.head? hnext
      rwa [List.head?_drop, List.head?_cons] at hhead
    obtain ⟨hp, hpy⟩ := List.getElem?_eq_some_iff.mp hy
    obtain ⟨hq, hqy⟩ := List.getElem?_eq_some_iff.mp hy'
    have hplaces : next = place := (hn.getElem_inj_iff).mp (hqy.trans hpy.symm)
    rw [← hnext, hplaces]

lemma Paged.collects_from (hn : u.Nodup) {c : Option C} (hfetch : fetch c = .ok (pageAt u k place,
      cursorAfter more token (pageAt u k place))) :
    Collects fetch c (u.drop place) ↔ ∀ i, Leads u k more token resume (place + i * k) := by
  -- by induction on how much of the list is left
  generalize hleft : u.length - place = left
  induction left using Nat.strongRecOn generalizing c place with
  | ind left ih =>
    cases hcur : cursorAfter more token (pageAt u k place) with
    | none =>
      obtain ⟨hpage, hend⟩ := h.last_page hcur
      rw [hcur] at hfetch
      rw [collects_last hfetch, hpage]
      refine ⟨fun _ i c' hc' => ?_, fun _ => rfl⟩
      cases i with
      | zero =>
        rw [Nat.zero_mul, Nat.add_zero, hcur] at hc'
        cases hc'
      | succ i =>
        have hlt := h.place_lt hc'
        have : k ≤ (i + 1) * k := Nat.le_mul_of_pos_left k (Nat.succ_pos i)
        omega
    | some c' =>
      have hlt := h.place_lt hcur
      rw [hcur] at hfetch
      have hsplit : Collects fetch c (u.drop place) ↔ Collects fetch (some c') (u.drop (place + k)) := by
        rw [collects_more hfetch, ← pageAt_append_drop u k place]
        exact ⟨fun ⟨_, hrest, hcol⟩ => append_cancel_left hrest ▸ hcol, fun hcol => ⟨_, rfl, hcol⟩⟩
      have hsize := h.size
      have hrest : ∀ next, resume c' = some next → u.drop next = u.drop (place + k) →
          (Collects fetch (some c') (u.drop (place + k)) ↔ ∀ i, Leads u k more token resume (place + k + i * k)) := by
        intro next hres hdrop
        have hpages : pageAt u k next = pageAt u k (place + k) := by rw [pageAt, pageAt, hdrop]
        exact ih _ (by omega) (hpages ▸ h.next c' next hres) rfl
      rw [hsplit, forall_places]
      constructor
      · intro hcol
        cases hres : resume c' with
        | none =>
          obtain ⟨e, he⟩ := h.lost c' hres
          exact absurd hcol (not_collects_error he)
        | some next =>
          have hdrop := h.drop_eq_of_collects hn hres hcol
          refine ⟨fun c'' hc'' => ?_, (hrest next hres hdrop).mp hcol⟩
          obtain rfl := some.inj (hcur.symm.trans hc'')
          exact ⟨next, hres, hdrop⟩
      · rintro ⟨hzero, hall⟩
        obtain ⟨next, hres, hdrop⟩ := hzero c' hcur
        exact (hrest next hres hdrop).mpr hall

/-- The scroll from the start makes up the whole list exactly when each cursor it gives out leads to
the end of its page. -/
lemma Paged.collects_iff (hn : u.Nodup) : Collects fetch none u ↔ ∀ i, Leads u k more token resume (i * k) := by
  have hall := h.collects_from hn h.first
  rw [drop_zero] at hall
  simpa only [Nat.zero_add] using hall

end GrowlerDB.Lib.Paging
