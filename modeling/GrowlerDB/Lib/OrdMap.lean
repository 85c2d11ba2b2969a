import Mathlib.Data.List.Sort
import Mathlib.Order.Basic

namespace GrowlerDB.Lib.OrdMap
open List Option OrdMap Prod Or

variable {K V : Type} [LinearOrder K]

/-- Sets the value of a key from the one it has, at the place of the key. -/
def alter (f : Option V → V) (k : K) : List (K × V) → List (K × V)
  | [] => [(k, f none)]
  | (k', v) :: m =>
    if k < k' then (k, f none) :: (k', v) :: m
    else if k = k' then (k, f (some v)) :: m
    else (k', v) :: alter f k m

def get? (m : List (K × V)) (k : K) : Option V := (m.find? (fun e => decide (e.1 = k))).map Prod.snd

/-- The keys increase, so no key stands twice. -/
def Sorted (m : List (K × V)) : Prop := m.Pairwise (fun a b => a.1 < b.1)

lemma get?_cons (e : K × V) (m : List (K × V)) (k : K) :
    get? (e :: m) k = if e.1 = k then some e.2 else get? m k := by
  by_cases h : e.1 = k <;> simp [get?, h]

variable {m : List (K × V)}

lemma mem_alter {f : Option V → V} {k : K} {e : K × V} (h : e ∈ alter f k m) : e.1 = k ∨ e ∈ m := by
  induction m with
  | nil =>
    obtain rfl := mem_singleton.mp h
    exact inl rfl
  | cons d m ih =>
    simp only [alter] at h
    split_ifs at h with hlt heq
    · rcases mem_cons.mp h with rfl | h
      · exact inl rfl
      · exact inr h
    · rcases mem_cons.mp h with rfl | h
      · exact inl rfl
      · exact inr (mem_cons_of_mem _ h)
    · rcases mem_cons.mp h with rfl | h
      · exact inr mem_cons_self
      · exact (ih h).imp_right (mem_cons_of_mem _)

lemma mem_keys_alter {f : Option V → V} {k x : K} :
    x ∈ (alter f k m).map fst ↔ x = k ∨ x ∈ m.map fst := by
  induction m with
  | nil => simp [alter]
  | cons d m ih =>
    simp only [alter]
    split_ifs with hlt heq
    · simp
    · subst heq
      simp
    · simp only [map_cons, mem_cons, ih]
      tauto

lemma Sorted.alter (h : Sorted m) (f : Option V → V) (k : K) : Sorted (OrdMap.alter f k m) := by
  induction m with
  | nil => exact pairwise_singleton _ _
  | cons d m ih =>
    obtain ⟨hd, hm⟩ := pairwise_cons.mp h
    simp only [OrdMap.alter]
    split_ifs with hlt heq
    · refine pairwise_cons.mpr ⟨?_, h⟩
      intro e he
      rcases mem_cons.mp he with rfl | he
      · exact hlt
      · exact hlt.trans (hd e he)
    · subst heq
      exact pairwise_cons.mpr ⟨hd, hm⟩
    · refine pairwise_cons.mpr ⟨?_, ih hm⟩
      intro e he
      rcases mem_alter he with he | he
      · exact he ▸ lt_of_le_of_ne (not_lt.mp hlt) (Ne.symm heq)
      · exact hd e he

/-- What a key holds after another one or itself was set. -/
lemma get?_alter (h : Sorted m) (f : Option V → V) (k k' : K) :
    get? (alter f k m) k' = if k = k' then some (f (get? m k)) else get? m k' := by
  induction m with
  | nil => by_cases hk : k = k' <;> simp [alter, get?, hk]
  | cons d m ih =>
    obtain ⟨hd, hm⟩ := pairwise_cons.mp h
    have hlate : k < d.1 → get? m k = none := by
      intro hlt
      simp only [get?, map_eq_none_iff, List.find?_eq_none, decide_eq_true_eq]
      intro e he hek
      exact absurd (hlt.trans (hd e he)) (hek ▸ lt_irrefl _)
    rcases lt_trichotomy k d.1 with hlt | heq | hgt
    · simp only [alter, if_pos hlt, get?_cons, hlate hlt, hlt.ne', if_false]
    · simp only [alter, heq, lt_irrefl, if_false, if_true, get?_cons]
      split_ifs <;> rfl
    · simp only [alter, hgt.not_gt, hgt.ne', if_false, get?_cons, ih hm, hgt.ne]
      by_cases hk : k = k'
      · simp [hk, hk ▸ hgt.ne]
      · simp [hk]

/-- In a sorted list the entries are what is found. -/
lemma mem_iff_get? (h : Sorted m) {k : K} {v : V} : (k, v) ∈ m ↔ get? m k = some v := by
  induction m with
  | nil => simp [get?]
  | cons d m ih =>
    obtain ⟨hd, hm⟩ := pairwise_cons.mp h
    rw [get?_cons, mem_cons]
    by_cases hk : d.1 = k
    · rw [if_pos hk]
      constructor
      · rintro (he | he)
        · simp [← he]
        · exact absurd (hd _ he) (hk ▸ lt_irrefl _)
      · intro hv
        left
        exact Prod.ext hk.symm (some.inj hv).symm
    · rw [if_neg hk, ← ih hm]
      constructor
      · rintro (he | he)
        · exact absurd (congrArg Prod.fst he).symm hk
        · exact he
      · exact Or.inr

lemma sorted_filterMap (f : K → V → Option V) (h : Sorted m) :
    Sorted (m.filterMap (fun e => (f e.1 e.2).map (e.1, ·))) := by
  refine Pairwise.filterMap _ ?_ h
  intro a a' hlt b hb b' hb'
  obtain ⟨v, -, rfl⟩ := map_eq_some_iff.mp hb
  obtain ⟨v', -, rfl⟩ := map_eq_some_iff.mp hb'
  exact hlt

lemma alter_self {f : Option V → V} {k : K} {v : V} (h : Sorted m) (hv : get? m k = some v)
    (hf : f (some v) = v) : alter f k m = m := by
  induction m with
  | nil => cases hv
  | cons d m ih =>
    obtain ⟨hd, hm⟩ := pairwise_cons.mp h
    rw [get?_cons] at hv
    split_ifs at hv with hk
    · rw [← some.inj hv] at hf
      simp [alter, ← hk, hf]
    · have hlt : d.1 < k := hd _ ((mem_iff_get? hm).mpr hv)
      simp [alter, hlt.not_gt, hlt.ne', ih hm hv]

end GrowlerDB.Lib.OrdMap

namespace GrowlerDB.Lib
open List

/-- A finite map whose entries stand in the order of their keys. -/
structure BTreeMap (K V : Type) [LinearOrder K] where
  entries : List (K × V)
  sorted : OrdMap.Sorted entries

namespace BTreeMap

variable {K V : Type} [LinearOrder K] (m : BTreeMap K V)

def empty : BTreeMap K V := ⟨[], Pairwise.nil⟩

def get? (k : K) : Option V := OrdMap.get? m.entries k

/-- `entry(k)` and what is made of the value found there. -/
def entry (k : K) (f : Option V → V) : BTreeMap K V :=
  ⟨OrdMap.alter f k m.entries, m.sorted.alter f k⟩

def insert (k : K) (v : V) : BTreeMap K V := m.entry k (fun _ => v)

def values : List V := m.entries.map Prod.snd

def keys : List K := m.entries.map Prod.fst

def filterMap (f : K → V → Option V) : BTreeMap K V :=
  ⟨m.entries.filterMap (fun e => (f e.1 e.2).map (e.1, ·)), OrdMap.sorted_filterMap f m.sorted⟩

def remove (k : K) : BTreeMap K V := m.filterMap (fun k' v => if k' = k then none else some v)

@[simp] lemma get?_empty (k : K) : (empty : BTreeMap K V).get? k = none := rfl

lemma get?_entry (k k' : K) (f : Option V → V) :
    (m.entry k f).get? k' = if k = k' then some (f (m.get? k)) else m.get? k' :=
  OrdMap.get?_alter m.sorted f k k'

lemma get?_insert (k k' : K) (v : V) : (m.insert k v).get? k' = if k = k' then some v else m.get? k' :=
  m.get?_entry k k' _

variable {m}

lemma mem_entries : (k, v) ∈ m.entries ↔ m.get? k = some v := OrdMap.mem_iff_get? m.sorted

lemma mem_keys : k ∈ m.keys ↔ (m.get? k).isSome := by
  rw [keys, mem_map, Option.isSome_iff_exists]
  constructor
  · rintro ⟨⟨k, v⟩, he, rfl⟩
    exact ⟨v, mem_entries.mp he⟩
  · rintro ⟨v, hv⟩
    exact ⟨(k, v), mem_entries.mpr hv, rfl⟩

lemma get?_filterMap (f : K → V → Option V) (k : K) :
    (m.filterMap f).get? k = (m.get? k).bind (f k) := by
  ext v
  rw [← mem_entries, filterMap, mem_filterMap, Option.bind_eq_some_iff]
  constructor
  · rintro ⟨⟨k', v'⟩, he, hv⟩
    obtain ⟨w, hw, heq⟩ := Option.map_eq_some_iff.mp hv
    obtain ⟨rfl, rfl⟩ := Prod.mk.inj heq
    exact ⟨v', mem_entries.mp he, hw⟩
  · rintro ⟨v', hv', hw⟩
    exact ⟨(k, v'), mem_entries.mpr hv', by simp [hw]⟩

lemma get?_remove (k k' : K) : (m.remove k).get? k' = if k' = k then none else m.get? k' := by
  rw [remove, get?_filterMap]
  split_ifs <;> cases m.get? k' <;> rfl

lemma entry_self (h : m.get? k = some v) (hf : f (some v) = v) : m.entry k f = m := by
  rw [entry]
  congr
  exact OrdMap.alter_self m.sorted h hf

lemma insert_self (h : m.get? k = some v) : m.insert k v = m := entry_self h rfl

lemma mem_values : v ∈ m.values ↔ ∃ k, m.get? k = some v := by
  rw [values, mem_map]
  constructor
  · rintro ⟨⟨k, v⟩, he, rfl⟩
    exact ⟨k, mem_entries.mp he⟩
  · rintro ⟨k, hk⟩
    exact ⟨(k, v), mem_entries.mpr hk, rfl⟩

end BTreeMap

end GrowlerDB.Lib
