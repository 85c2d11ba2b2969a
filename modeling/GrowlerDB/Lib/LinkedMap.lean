import GrowlerDB.Lib.Replay

namespace GrowlerDB.Lib.LinkedMap
open List Option Prod

variable {I V : Type} [DecidableEq I]

def put (i : I) (v : V) : List (I × V) → List (I × V)
  | [] => [(i, v)]
  | e :: m => if e.1 = i then (i, v) :: m else e :: put i v m

def get : List (I × V) → I → Option V
  | [], _ => none
  | e :: m, i => if e.1 = i then some e.2 else get m i

def remove (i : I) (m : List (I × V)) : List (I × V) := m.filter (fun e => e.1 ≠ i)

def ofList (entries : List (I × V)) : List (I × V) := entries.foldl (fun m e => put e.1 e.2 m) []

def lastValue : List (I × V) → I → Option V
  | [], _ => none
  | e :: es, i => (lastValue es i).or (if e.1 = i then some e.2 else none)

@[simp] lemma get_nil (i : I) : get ([] : List (I × V)) i = none := rfl

lemma get_put (m : List (I × V)) (i j : I) (v : V) : get (put i v m) j = if i = j then some v else get m j := by
  induction m with
  | nil => rfl
  | cons e m ih =>
    rw [put]
    split_ifs with he hij hij
    · simp [get, hij]
    · have hej : e.1 ≠ j := fun h => hij (he.symm.trans h)
      simp [get, hij, hej]
    · have hej : e.1 ≠ j := fun h => he (h.trans hij.symm)
      rw [get, if_neg hej, ih, if_pos hij]
    · rw [get, get, ih, if_neg hij]

lemma get_remove (m : List (I × V)) (i j : I) : get (remove i m) j = if i = j then none else get m j := by
  induction m with
  | nil => simp [remove]
  | cons e m ih =>
    by_cases he : e.1 = i
    · rw [remove, filter_cons_of_neg (by simpa using he)]
      split_ifs with hij
      · exact ih.trans (if_pos hij)
      · have hej : e.1 ≠ j := fun h => hij (he.symm.trans h)
        rw [get, if_neg hej]
        exact ih.trans (if_neg hij)
    · rw [remove, filter_cons_of_pos (by simpa using he), get, get]
      split_ifs with hej hij hij
      · exact absurd (hej.trans hij.symm) he
      · rfl
      · exact ih.trans (if_pos hij)
      · exact ih.trans (if_neg hij)

variable {m : List (I × V)}

lemma get_eq_some_of_mem (h : (m.map fst).Nodup) (he : e ∈ m) : get m e.1 = some e.2 := by
  induction m with
  | nil => cases he
  | cons d m ih =>
    obtain ⟨hd, h⟩ := nodup_cons.mp h
    rcases mem_cons.mp he with rfl | he
    · simp [get]
    · have hne : d.1 ≠ e.1 := fun heq => hd (heq ▸ mem_map_of_mem he)
      simp [get, hne, ih h he]

lemma mem_of_get (h : get m i = some v) : (i, v) ∈ m := by
  induction m with
  | nil => cases h
  | cons e m ih =>
    by_cases he : e.1 = i
    · obtain rfl : e.2 = v := by simpa [get, he] using h
      exact mem_cons.mpr (.inl (Prod.ext he.symm rfl))
    · exact mem_cons_of_mem _ (ih (by simpa [get, he] using h))

lemma mem_keys_put : j ∈ (put i v m).map fst ↔ j = i ∨ j ∈ m.map fst := by
  induction m with
  | nil => simp [put]
  | cons e m ih =>
    by_cases he : e.1 = i
    · simp [put, he]
    · rw [put, if_neg he, map_cons, mem_cons, ih, map_cons, mem_cons]
      tauto

lemma nodup_put (h : (m.map fst).Nodup) (i : I) (v : V) : ((put i v m).map fst).Nodup := by
  induction m with
  | nil => exact nodup_singleton _
  | cons e m ih =>
    obtain ⟨he, hm⟩ := nodup_cons.mp h
    by_cases hi : e.1 = i
    · subst hi
      simpa [put] using h
    · rw [put, if_neg hi]
      refine nodup_cons.mpr ⟨fun hmem => ?_, ih hm⟩
      rcases mem_keys_put.mp hmem with heq | hmem
      · exact hi heq
      · exact he hmem

section

variable (es : List (I × V))

lemma get_foldl_put (m : List (I × V)) (i : I) :
    get (es.foldl (fun m e => put e.1 e.2 m) m) i = (lastValue es i).or (get m i) := by
  induction es generalizing m with
  | nil => rfl
  | cons e es ih =>
    rw [List.foldl_cons, ih, get_put, lastValue, Option.or_assoc]
    split_ifs <;> rfl

lemma get_ofList (i : I) : get (ofList es) i = lastValue es i := by
  rw [ofList, get_foldl_put, get_nil, or_none]

lemma nodup_ofList : ((ofList es).map fst).Nodup := by
  suffices h : ∀ m : List (I × V), (m.map fst).Nodup →
      ((es.foldl (fun m e => put e.1 e.2 m) m).map fst).Nodup from h [] nodup_nil
  induction es with
  | nil => exact fun m hm => hm
  | cons e es ih => exact fun m hm => ih _ (nodup_put hm e.1 e.2)

variable {es}

lemma mem_of_lastValue (h : lastValue es i = some v) : (i, v) ∈ es := by
  induction es with
  | nil => cases h
  | cons e es ih =>
    rw [lastValue] at h
    rcases or_eq_some_iff.mp h with h | ⟨_, h⟩
    · exact mem_cons_of_mem _ (ih h)
    · split_ifs at h with he
      cases h
      exact mem_cons.mpr (.inl (Prod.ext he.symm rfl))

lemma lastValue_isSome (h : i ∈ es.map fst) : ∃ v, lastValue es i = some v := by
  induction es with
  | nil => cases h
  | cons e es ih =>
    cases hl : lastValue es i with
    | some v => exact ⟨v, by simp [lastValue, hl]⟩
    | none =>
      rcases mem_cons.mp h with heq | h
      · exact ⟨e.2, by rw [lastValue, hl, if_pos heq.symm, none_or]⟩
      · obtain ⟨v, hv⟩ := ih h
        cases hl.symm.trans hv

lemma mem_ofList : (i, v) ∈ ofList es ↔ lastValue es i = some v := by
  rw [← get_ofList]
  exact ⟨fun h => get_eq_some_of_mem (nodup_ofList es) h, mem_of_get⟩

end

section

open Replay

variable {K W : Type} [DecidableEq K] {change : V → K × Option W} {es : List (I × V)}

lemma lastValue_of_lastChange
    (h : ∀ e ∈ es, ∀ d ∈ es, e.1 = d.1 → (change e.2).1 = (change d.2).1) {k : K} {v : Option W}
    (hk : lastChange (es.map (fun e => change e.2)) k = some v) :
    ∃ i x, lastValue es i = some x ∧ change x = (k, v) := by
  induction es with
  | nil => cases hk
  | cons e es ih =>
    rw [map_cons, lastChange_cons] at hk
    rcases or_eq_some_iff.mp hk with hk | ⟨hnone, hk⟩
    · obtain ⟨i, x, hx, hchange⟩ := ih (fun a ha b hb => h a (mem_cons_of_mem _ ha) b (mem_cons_of_mem _ hb)) hk
      exact ⟨i, x, by rw [lastValue, hx, some_or], hchange⟩
    · split_ifs at hk with hek
      -- an entry after `e` under its name would have changed its key
      have hlast : lastValue es e.1 = none := by
        cases hl : lastValue es e.1 with
        | none => rfl
        | some x =>
          have hmem := mem_of_lastValue hl
          have hkey := h e mem_cons_self _ (mem_cons_of_mem _ hmem) rfl
          exact absurd (hkey.symm.trans hek)
            (lastChange_eq_none.mp hnone _ (mem_map.mpr ⟨_, hmem, rfl⟩))
      exact ⟨e.1, e.2, by rw [lastValue, hlast, if_pos rfl, none_or], Prod.ext hek (some.inj hk)⟩

/-- Where names tell the keys apart, the map changes each key as all its entries do in order. -/
lemma lastChange_ofList
    (h : ∀ e ∈ es, ∀ d ∈ es, (e.1 = d.1 ↔ (change e.2).1 = (change d.2).1)) (k : K) :
    lastChange ((ofList es).map (fun e => change e.2)) k = lastChange (es.map (fun e => change e.2)) k := by
  have hsub : ∀ e ∈ ofList es, e ∈ es := fun e he => mem_of_lastValue (mem_ofList.mp he)
  have hnodup : (((ofList es).map (fun e => change e.2)).map fst).Nodup := by
    rw [List.map_map]
    refine Nodup.map_on (fun e he d hd heq => ?_) (Nodup.of_map _ (nodup_ofList es))
    have hname := (h e (hsub e he) d (hsub d hd)).mpr heq
    exact inj_on_of_nodup_map (nodup_ofList es) he hd hname
  cases hall : lastChange (es.map (fun e => change e.2)) k with
  | none =>
    refine lastChange_eq_none.mpr fun c hc => ?_
    obtain ⟨e, he, rfl⟩ := mem_map.mp hc
    exact lastChange_eq_none.mp hall _ (mem_map.mpr ⟨e, hsub e he, rfl⟩)
  | some v =>
    obtain ⟨i, x, hx, hchange⟩ := lastValue_of_lastChange (fun e he d hd => (h e he d hd).mp) hall
    exact lastChange_of_nodup hnodup (mem_map.mpr ⟨(i, x), mem_ofList.mpr hx, hchange⟩)

end

/-- Each asker takes the value under its key out of the map. -/
def handOut : List (I × V) → List I → List (Option V)
  | _, [] => []
  | m, i :: is => get m i :: handOut (remove i m) is

lemma getElem?_handOut (m : List (I × V)) (is : List I) (n : Nat) :
    (handOut m is)[n]? = is[n]?.map (fun i => if i ∈ is.take n then none else get m i) := by
  induction is generalizing m n with
  | nil => rfl
  | cons j is ih =>
    cases n with
    | zero => simp [handOut]
    | succ n =>
      rw [handOut, List.getElem?_cons_succ, ih, List.getElem?_cons_succ, take_succ_cons]
      cases is[n]? with
      | none => rfl
      | some i =>
        rw [map_some, map_some, get_remove]
        by_cases hij : j = i
        · simp [hij]
        · simp [hij, Ne.symm hij]

end GrowlerDB.Lib.LinkedMap
