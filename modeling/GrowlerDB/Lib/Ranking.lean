import Mathlib.Data.List.Sort

namespace GrowlerDB.Lib.Ranking
open List

section

variable {A K : Type}

def sortBy (cmp : A → A → Ordering) (l : List A) : List A :=
  l.insertionSort (fun a b => (cmp a b).isLE = true)

/-- The elements whose key was not seen before, in order. -/
def firsts [DecidableEq K] (key : A → K) : List K → List A → List A
  | _, [] => []
  | seen, a :: l => if key a ∈ seen then firsts key seen l else a :: firsts key (key a :: seen) l

/-- On the elements of `s` the comparison is a total preorder. -/
structure Orders (cmp : A → A → Ordering) (s : A → Prop) : Prop where
  swap : ∀ a b, s a → s b → cmp b a = (cmp a b).swap
  trans : ∀ a b c, s a → s b → s c → (cmp a b).isLE = true → (cmp b c).isLE = true →
    (cmp a c).isLE = true

/-- On the elements of `s` the comparison is a linear order of their keys. -/
structure Ranks (cmp : A → A → Ordering) (key : A → K) (s : A → Prop) : Prop
    extends Orders cmp s where
  eq_iff : ∀ a b, s a → s b → (cmp a b = .eq ↔ key a = key b)

/-- One list in order holding each key of the lists once. -/
structure IsUnion (cmp : A → A → Ordering) (key : A → K) (ls : List (List A)) (u : List A) :
    Prop where
  sorted : u.Pairwise (fun a b => cmp a b = .lt)
  sound : ∀ a ∈ u, ∃ l ∈ ls, a ∈ l
  complete : ∀ l ∈ ls, ∀ a ∈ l, ∃ b ∈ u, key b = key a

variable {ls : List (List A)}

lemma IsUnion.congr {cmp : A → A → Ordering} {key : A → K} {ls' : List (List A)} {u : List A}
    (h : IsUnion cmp key ls u) (hmem : ∀ l, l ∈ ls' ↔ l ∈ ls) : IsUnion cmp key ls' u :=
  ⟨h.sorted, fun a ha => (h.sound a ha).imp (fun l hl => ⟨(hmem l).mpr hl.1, hl.2⟩),
    fun l hl => h.complete l ((hmem l).mp hl)⟩

def unionOf [DecidableEq K] (cmp : A → A → Ordering) (key : A → K) (ls : List (List A)) : List A :=
  firsts key [] (sortBy cmp ls.flatten)

variable {l : List A}

lemma eq_of_keys {s : A → Prop}
    (hinj : ∀ a b, s a → s b → key a = key b → a = b) {l' : List A} (hl : ∀ a ∈ l, s a)
    (hl' : ∀ a ∈ l', s a) (h : l.map key = l'.map key) : l = l' := by
  induction l generalizing l' with
  | nil => exact (map_eq_nil_iff.mp h.symm).symm
  | cons a l ih =>
    cases l' with
    | nil => cases h
    | cons b l' =>
      obtain ⟨hkey, h⟩ := List.cons.inj h
      obtain ⟨ha, hl⟩ := forall_mem_cons.mp hl
      obtain ⟨hb, hl'⟩ := forall_mem_cons.mp hl'
      rw [hinj a b ha hb hkey, ih hl hl' h]

variable {a b : A}

section

variable {r : A → A → Prop}

lemma mem_take_of_before (h : l.Pairwise r)
    (hasymm : ∀ a ∈ l, ∀ b ∈ l, r a b → ¬ r b a) {k : Nat} (ha : a ∈ l.take k)
    (hb : b ∈ l) (hba : r b a) : b ∈ l.take k := by
  by_contra hnot
  have hal := mem_of_mem_take ha
  rw [← take_append_drop k l] at h hb
  have hdrop : b ∈ l.drop k := (mem_append.mp hb).resolve_left hnot
  exact hasymm b (mem_of_mem_drop hdrop) a hal hba
    ((pairwise_append.mp h).2.2 a ha b hdrop)

lemma sublist_of_sorted {m : List A} (hl : l.Pairwise r) (hm : m.Pairwise r)
    (hasymm : ∀ a ∈ m, ∀ b ∈ m, r a b → ¬ r b a) (hsub : ∀ a ∈ l, a ∈ m) : l.Sublist m := by
  have hnodup : l.Nodup := hl.imp_of_mem fun {a b} ha _ hab heq => by
    subst heq
    exact hasymm a (hsub a ha) a (hsub a ha) hab hab
  obtain ⟨m', hperm, hm'⟩ := subperm_of_subset hnodup hsub
  have heq : m' = l := hperm.eq_of_pairwise
    (fun a b ha hb hab hba => absurd hba (hasymm a (hm'.subset ha) b (hsub b hb) hab)) (hm.sublist hm') hl
  exact heq ▸ hm'

end

lemma take_of_sublist {m ks : List K} (h : m.Sublist ks) (hnodup : ks.Nodup) (n : Nat) :
    (∀ k ∈ ks.take n, k ∈ m → k ∈ m.take n) ∧ ((∀ k ∈ ks.take n, k ∈ m) → m.take n = ks.take n) := by
  rw [← take_append_drop n ks] at h
  obtain ⟨front, back, rfl, hfront, hback⟩ := sublist_append_iff.mp h
  have hin : ∀ k ∈ ks.take n, k ∈ front ++ back → k ∈ front := fun k hk hm =>
    (mem_append.mp hm).resolve_right fun hb => disjoint_take_drop hnodup (Nat.le_refl n) hk (hback.subset hb)
  rw [take_append, take_of_length_le (hfront.length_le.trans (length_take_le n ks))]
  refine ⟨fun k hk hm => mem_append_left _ (hin k hk hm), fun hall => ?_⟩
  have hsub := subperm_of_subset (hnodup.sublist (take_sublist n ks)) fun k hk => hin k hk (hall k hk)
  rw [hfront.eq_of_length_le hsub.length_le, append_right_eq_self]
  rcases Nat.lt_or_ge ks.length n with hshort | hlong
  · rw [drop_of_length_le hshort.le] at hback
    rw [sublist_nil.mp hback, take_nil]
  · rw [length_take_of_le hlong, Nat.sub_self, take_zero]

section

variable [DecidableEq K] {key : A → K}

variable (key) in
lemma firsts_sublist (seen : List K) (l : List A) : (firsts key seen l).Sublist l := by
  induction l generalizing seen with
  | nil => exact Sublist.refl _
  | cons a l ih =>
    rw [firsts]
    split_ifs
    · exact (ih seen).cons a
    · exact (ih _).cons_cons a

lemma firsts_fresh (seen : List K) (l : List A) : ∀ a ∈ firsts key seen l, key a ∉ seen := by
  induction l generalizing seen with
  | nil => exact fun a ha => (nomatch ha)
  | cons b l ih =>
    intro a ha
    rw [firsts] at ha
    split_ifs at ha with hb
    · exact ih seen a ha
    · rcases mem_cons.mp ha with rfl | ha
      · exact hb
      · exact fun hs => ih _ a ha (mem_cons_of_mem _ hs)

variable (key) in
lemma firsts_nodup (seen : List K) (l : List A) : ((firsts key seen l).map key).Nodup := by
  induction l generalizing seen with
  | nil => exact nodup_nil
  | cons a l ih =>
    rw [firsts]
    split_ifs
    · exact ih seen
    · rw [map_cons, nodup_cons]
      refine ⟨fun hmem => ?_, ih _⟩
      obtain ⟨b, hb, hk⟩ := mem_map.mp hmem
      exact firsts_fresh _ _ b hb (hk ▸ mem_cons_self)

lemma firsts_complete (seen : List K) (ha : a ∈ l) (hs : key a ∉ seen) :
    ∃ b ∈ firsts key seen l, key b = key a := by
  induction l generalizing seen with
  | nil => cases ha
  | cons c l ih =>
    rw [firsts]
    split_ifs with hc
    · rcases mem_cons.mp ha with rfl | ha
      · exact absurd hc hs
      · exact ih seen ha hs
    · by_cases hk : key c = key a
      · exact ⟨c, mem_cons_self, hk⟩
      · rcases mem_cons.mp ha with rfl | ha
        · exact absurd rfl hk
        · obtain ⟨b, hb, hbk⟩ := ih (key c :: seen) ha (by simp [hs, Ne.symm hk])
          exact ⟨b, mem_cons_of_mem _ hb, hbk⟩

end

section

variable {B : Type} {cmp cmp' : A → A → Ordering} {s : A → Prop}

lemma Orders.compare [LinearOrder K] : Orders (compare : K → K → Ordering) (fun _ => True) :=
  ⟨fun _ _ _ _ => Std.OrientedCmp.eq_swap, fun _ _ _ _ _ _ => Std.TransCmp.isLE_trans⟩

lemma Orders.comap (h : Orders cmp s) (f : B → A) {t : B → Prop} (ht : ∀ b, t b → s (f b)) :
    Orders (fun a b => cmp (f a) (f b)) t :=
  ⟨fun a b ha hb => h.swap _ _ (ht a ha) (ht b hb), fun a b c ha hb hc => h.trans _ _ _ (ht a ha) (ht b hb) (ht c hc)⟩

lemma Orders.transCmp (h : Orders cmp s) : Std.TransCmp (fun a b : Subtype s => cmp a b) where
  eq_swap {a b} := h.swap b a b.2 a.2
  isLE_trans {a b c} := h.trans a b c a.2 b.2 c.2

lemma Orders.mono (h : Orders cmp s) {t : A → Prop} (ht : ∀ a, t a → s a) : Orders cmp t :=
  h.comap id ht

lemma eq_of_eq_swap {o : Ordering} (h : o = o.swap) : o = .eq := by
  cases o <;> first | rfl | cases h

lemma then_lt_iff (a b k : Ordering) : (a.then k = .lt ↔ b.then k = .lt) ↔
    a = b ∨ (a = .eq ∧ (b = .lt ↔ k = .lt)) ∨ (b = .eq ∧ (a = .lt ↔ k = .lt)) := by
  cases a <;> cases b <;> cases k <;> decide

section

variable (h : Orders cmp s) (ha : s a)
include h ha

lemma Orders.self : cmp a a = .eq :=
  eq_of_eq_swap (h.swap a a ha ha)

lemma Orders.lt_of_lt_of_le {c : A} (hb : s b) (hc : s c)
    (hab : cmp a b = .lt) (hbc : (cmp b c).isLE) : cmp a c = .lt :=
  @Std.TransCmp.lt_of_lt_of_isLE _ _ h.transCmp ⟨a, ha⟩ ⟨b, hb⟩ ⟨c, hc⟩ hab hbc

lemma Orders.lt_of_le_of_lt {c : A} (hb : s b) (hc : s c)
    (hab : (cmp a b).isLE) (hbc : cmp b c = .lt) : cmp a c = .lt :=
  @Std.TransCmp.lt_of_isLE_of_lt _ _ h.transCmp ⟨a, ha⟩ ⟨b, hb⟩ ⟨c, hc⟩ hab hbc

lemma Orders.eq_of_le_of_ge (hb : s b)
    (hab : (cmp a b).isLE) (hba : (cmp b a).isLE) : cmp a b = .eq := by
  rw [h.swap a b ha hb] at hba
  cases hc : cmp a b with
  | eq => rfl
  | lt => simp [hc] at hba
  | gt => simp [hc] at hab

end

lemma Orders.andThen (h : Orders cmp s) (h' : Orders cmp' s) : Orders (fun a b => (cmp a b).then (cmp' a b)) s := by
  have := h.transCmp
  have := h'.transCmp
  have hboth : Std.TransCmp (compareLex (fun a b : Subtype s => cmp a b) (fun a b : Subtype s => cmp' a b)) :=
    inferInstance
  exact ⟨fun a b ha hb => hboth.eq_swap (a := ⟨b, hb⟩) (b := ⟨a, ha⟩),
    fun a b c ha hb hc => hboth.isLE_trans (a := ⟨a, ha⟩) (b := ⟨b, hb⟩) (c := ⟨c, hc⟩)⟩

end

variable {cmp : A → A → Ordering} {key : A → K} {s : A → Prop}

lemma mem_sortBy : a ∈ sortBy cmp l ↔ a ∈ l := mem_insertionSort _

lemma Orders.lt_asymm (h : Orders cmp s) (ha : s a) (hb : s b) (hab : cmp a b = .lt) : ¬ cmp b a = .lt := by
  rw [h.swap a b ha hb, hab]
  exact fun hc => nomatch hc

section

variable (h : Ranks cmp key s)
include h

lemma Ranks.total (ha : s a) (hb : s b) :
    (cmp a b).isLE ∨ (cmp b a).isLE := by
  rw [h.swap a b ha hb]
  cases cmp a b <;> simp

lemma Ranks.pairwise_sortBy (hl : ∀ a ∈ l, s a) :
    (sortBy cmp l).Pairwise (fun a b => (cmp a b).isLE = true) := by
  -- the order is only one on the elements at hand, so sort them with their membership attached
  let r : {a // a ∈ l} → {a // a ∈ l} → Prop := fun a b => (cmp a.1 b.1).isLE = true
  have htotal : Std.Total r := ⟨fun a b => h.total (hl _ a.2) (hl _ b.2)⟩
  have htrans : IsTrans _ r := ⟨fun a b c => h.trans _ _ _ (hl _ a.2) (hl _ b.2) (hl _ c.2)⟩
  have hmap : (l.attach.insertionSort r).map Subtype.val = sortBy cmp l := by
    rw [map_insertionSort r (fun a b => (cmp a b).isLE = true) Subtype.val l.attach
      (fun a _ b _ => Iff.rfl), attach_map_subtype_val]
    rfl
  rw [← hmap, pairwise_map]
  exact pairwise_insertionSort r _

lemma Ranks.lt_of_le_of_ne (ha : s a) (hb : s b)
    (hle : (cmp a b).isLE) (hne : key a ≠ key b) : cmp a b = .lt := by
  cases hc : cmp a b with
  | lt => rfl
  | eq => exact absurd ((h.eq_iff a b ha hb).mp hc) hne
  | gt => simp [hc] at hle

lemma Ranks.sortBy_lt (hl : ∀ a ∈ l, s a)
    (hn : (l.map key).Nodup) : (sortBy cmp l).Pairwise (fun a b => cmp a b = .lt) := by
  have hkeys : ((sortBy cmp l).map key).Nodup := (((perm_insertionSort _ _).map key).nodup_iff).mpr hn
  refine ((h.pairwise_sortBy hl).and (pairwise_map.mp hkeys)).imp_of_mem
    (fun {a b} ha hb hab => ?_)
  exact h.lt_of_le_of_ne (hl a (mem_sortBy.mp ha)) (hl b (mem_sortBy.mp hb)) hab.1 hab.2

lemma Ranks.key_ne (ha : s a) (hb : s b) (hlt : cmp a b = .lt) : key a ≠ key b := by
  intro he
  simp [(h.eq_iff a b ha hb).mpr he] at hlt

lemma Ranks.gt_of_lt (ha : s a) (hb : s b) (hlt : cmp a b = .lt) : cmp b a = .gt := by
  rw [h.swap a b ha hb, hlt]
  rfl

lemma Ranks.lt_congr (ha : s a) (ha' : s a') (hb : s b)
    (hb' : s b') (hka : key a = key a') (hkb : key b = key b') (hlt : cmp a b = .lt) :
    cmp a' b' = .lt := by
  have haa : (cmp a' a).isLE := by rw [(h.eq_iff a' a ha' ha).mpr hka.symm]; rfl
  have hbb : (cmp b b').isLE := by rw [(h.eq_iff b b' hb hb').mpr hkb]; rfl
  exact h.lt_of_lt_of_le ha' hb hb' (h.lt_of_le_of_lt ha' ha hb haa hlt) hbb

lemma Ranks.unionOf [DecidableEq K]
    (hs : ∀ l ∈ ls, ∀ a ∈ l, s a) : IsUnion cmp key ls (unionOf cmp key ls) := by
  have hall : ∀ a ∈ ls.flatten, s a := by
    intro a ha
    obtain ⟨l, hl, ha⟩ := mem_flatten.mp ha
    exact hs l hl a ha
  have hsub := firsts_sublist key [] (sortBy cmp ls.flatten)
  refine ⟨?_, ?_, ?_⟩
  · have hle := (h.pairwise_sortBy hall).sublist hsub
    have hne := pairwise_map.mp (firsts_nodup key [] (sortBy cmp ls.flatten))
    refine (hle.and hne).imp_of_mem (fun {a b} ha hb hab => ?_)
    exact h.lt_of_le_of_ne (hall a (mem_sortBy.mp (hsub.subset ha)))
      (hall b (mem_sortBy.mp (hsub.subset hb))) hab.1 hab.2
  · intro a ha
    exact mem_flatten.mp (mem_sortBy.mp (hsub.subset ha))
  · intro l hl a ha
    have hin : a ∈ sortBy cmp ls.flatten := mem_sortBy.mpr (mem_flatten.mpr ⟨l, hl, ha⟩)
    exact firsts_complete [] hin not_mem_nil

end

variable {u : List A}

section

variable (hu : IsUnion cmp key ls u) (hswap : ∀ a b, cmp b a = (cmp a b).swap) (hself : ∀ a, cmp a a = .eq)
include hu hswap hself

lemma IsUnion.le_iff (hi : i < u.length) (hj : j < u.length) : (cmp u[i] u[j]).isLE ↔ i ≤ j := by
  rcases lt_trichotomy i j with hlt | rfl | hgt
  · rw [pairwise_iff_getElem.mp hu.sorted _ _ hi hj hlt]
    simp [hlt.le]
  · simp [hself]
  · rw [hswap u[j] u[i], pairwise_iff_getElem.mp hu.sorted _ _ hj hi hgt]
    simp [hgt]

/-- When the lists have an ordered union at all, and elements of one key compare alike, the
comparison ranks their elements. -/
lemma IsUnion.ranks (hkey : ∀ a b, cmp a b = .eq → key a = key b)
    (hcopies : ∀ a a', (∃ l ∈ ls, a ∈ l) → (∃ l ∈ ls, a' ∈ l) → key a = key a' →
      ∀ b, cmp a b = cmp a' b) : Ranks cmp key (fun a => ∃ l ∈ ls, a ∈ l) := by
  have hplace : ∀ a, (∃ l ∈ ls, a ∈ l) → ∃ i, ∃ hi : i < u.length, ∀ b, cmp a b = cmp u[i] b := by
    rintro a ⟨l, hl, ha⟩
    obtain ⟨b, hb, hk⟩ := hu.complete l hl a ha
    obtain ⟨i, hi, rfl⟩ := getElem_of_mem hb
    exact ⟨i, hi, hcopies a _ ⟨l, hl, ha⟩ (hu.sound _ hb) hk.symm⟩
  have hboth : ∀ a b, (∃ l ∈ ls, a ∈ l) → (∃ l ∈ ls, b ∈ l) → ∀ i j (hi : i < u.length)
      (hj : j < u.length), (∀ c, cmp a c = cmp u[i] c) → (∀ c, cmp b c = cmp u[j] c) →
      cmp a b = cmp u[i] u[j] := by
    intro a b _ _ i j hi hj ha hb
    rw [ha b, hswap b u[i], hb, ← hswap]
  refine ⟨⟨fun a b _ _ => hswap a b, fun a b c ha hb hc => ?_⟩, fun a b ha hb => ⟨hkey a b, ?_⟩⟩
  · obtain ⟨i, hi, hai⟩ := hplace a ha
    obtain ⟨j, hj, hbj⟩ := hplace b hb
    obtain ⟨k, hk, hck⟩ := hplace c hc
    rw [hboth a b ha hb i j hi hj hai hbj, hboth b c hb hc j k hj hk hbj hck,
      hboth a c ha hc i k hi hk hai hck, hu.le_iff hswap hself, hu.le_iff hswap hself,
      hu.le_iff hswap hself]
    exact le_trans
  · intro hab
    rw [hcopies a b ha hb hab]
    exact hself b

end

lemma Ranks.nodup_keys (h : Ranks cmp key s) (hu : u.Pairwise (fun a b => cmp a b = .lt))
    (hs : ∀ a ∈ u, s a) : (u.map key).Nodup := by
  refine pairwise_map.mpr (hu.imp_of_mem (fun {a b} ha hb hlt => ?_))
  exact h.key_ne (hs a ha) (hs b hb) hlt

lemma Ranks.keys_sublist (h : Ranks cmp key s) (hu : u.Pairwise (fun a b => cmp a b = .lt)) (hs : ∀ a ∈ u, s a)
    (hl : l.Pairwise (fun a b => cmp a b = .lt)) (hls : ∀ a ∈ l, s a) (hin : ∀ a ∈ l, ∃ c ∈ u, key c = key a) :
    (l.map key).Sublist (u.map key) := by
  -- the keys are ordered as their elements are
  let r : K → K → Prop := fun k k' => ∃ a b, s a ∧ s b ∧ key a = k ∧ key b = k' ∧ cmp a b = .lt
  have hkeys : ∀ {l : List A}, l.Pairwise (fun a b => cmp a b = .lt) → (∀ a ∈ l, s a) → (l.map key).Pairwise r :=
    fun hl hls => pairwise_map.mpr (hl.imp_of_mem fun {a b} ha hb hlt => ⟨a, b, hls a ha, hls b hb, rfl, rfl, hlt⟩)
  refine sublist_of_sorted (hkeys hl hls) (hkeys hu hs) ?_ fun k hk => ?_
  · rintro _ - _ - ⟨a, b, ha, hb, rfl, rfl, hab⟩ ⟨c, d, hc, hd, hcb, hda, hcd⟩
    exact h.lt_asymm ha hb hab (h.lt_congr hc hb hd ha hcb hda hcd)
  · obtain ⟨a, ha, rfl⟩ := mem_map.mp hk
    obtain ⟨c, hc, hca⟩ := hin a ha
    exact hca ▸ mem_map_of_mem hc

/-- The first `n` of each list are enough for the first `n` of the union. -/
lemma Ranks.take_union (h : Ranks cmp key s) {v : List A}
    (hs : ∀ l ∈ ls, ∀ a ∈ l, s a) (hsorted : ∀ l ∈ ls, l.Pairwise (fun a b => cmp a b = .lt))
    (hu : IsUnion cmp key ls u) (hv : IsUnion cmp key (ls.map (List.take n)) v) :
    (v.take n).map key = (u.take n).map key := by
  have hus : ∀ a ∈ u, s a := fun a ha => by
    obtain ⟨l, hl, hal⟩ := hu.sound a ha
    exact hs l hl a hal
  have hvl : ∀ a ∈ v, ∃ l ∈ ls, a ∈ l := fun a ha => by
    obtain ⟨t, ht, hat⟩ := hv.sound a ha
    obtain ⟨l, hl, rfl⟩ := mem_map.mp ht
    exact ⟨l, hl, mem_of_mem_take hat⟩
  have hvs : ∀ a ∈ v, s a := fun a ha => by
    obtain ⟨l, hl, hal⟩ := hvl a ha
    exact hs l hl a hal
  have hin : ∀ a ∈ v, ∃ c ∈ u, key c = key a := fun a ha => by
    obtain ⟨l, hl, hal⟩ := hvl a ha
    exact hu.complete l hl a hal
  have hnodup := h.nodup_keys hu.sorted hus
  rw [map_take, map_take]
  refine (take_of_sublist (h.keys_sublist hu.sorted hus hv.sorted hvs hin) hnodup n).2 fun k hk => ?_
  -- an element is no further down in its own list than in the union
  obtain ⟨a, ha, rfl⟩ := mem_map.mp (mem_of_mem_take hk)
  obtain ⟨l, hl, hal⟩ := hu.sound a ha
  have hsub := h.keys_sublist hu.sorted hus (hsorted l hl) (hs l hl) (hu.complete l hl)
  have htop := (take_of_sublist hsub hnodup n).1 _ hk (mem_map_of_mem hal)
  rw [← map_take] at htop
  obtain ⟨b, hb, hba⟩ := mem_map.mp htop
  obtain ⟨c, hc, hcb⟩ := hv.complete _ (mem_map_of_mem hl) b hb
  exact (hcb.trans hba) ▸ mem_map_of_mem hc

end

section

variable {A : Type} {cmp : A → A → Ordering}

def numberedLt (cmp : A → A → Ordering) (a b : A × Nat) : Prop :=
  (cmp a.1 b.1).then (compare a.2 b.2) = .lt

/-- `out` is `l` in the order of the comparison, ties in the order of arrival. -/
def StableOrder (cmp : A → A → Ordering) (l out : List A) : Prop :=
  ∃ numbered : List (A × Nat), numbered.Perm l.zipIdx ∧ numbered.Pairwise (numberedLt cmp) ∧
    numbered.map Prod.fst = out

lemma numberedLt_iff : numberedLt cmp a b ↔ cmp a.1 b.1 = .lt ∨ cmp a.1 b.1 = .eq ∧ a.2 < b.2 := by
  unfold numberedLt
  cases cmp a.1 b.1 with
  | lt => simp
  | eq => simp [Ordering.eq_then, compare_lt_iff_lt]
  | gt => simp

lemma numberedLt_of_le (hle : (cmp a.1 b.1).isLE) (hlt : a.2 < b.2) : numberedLt cmp a b := by
  refine numberedLt_iff.mpr ?_
  cases hcmp : cmp a.1 b.1 with
  | lt => exact .inl rfl
  | eq => exact .inr ⟨rfl, hlt⟩
  | gt =>
    rw [hcmp] at hle
    cases hle

lemma numberedLt.isLE (h : numberedLt cmp a b) : (cmp a.1 b.1).isLE := by
  rcases numberedLt_iff.mp h with h | ⟨h, _⟩ <;> rw [h] <;> rfl

variable (h : Orders cmp (fun _ => True))
include h

lemma orderedInsert_numberedLt {l : List (A × Nat)}
    (hl : l.Pairwise (numberedLt cmp)) (hx : ∀ e ∈ l, x.2 < e.2) :
    (l.orderedInsert (fun a b => (cmp a.1 b.1).isLE = true) x).Pairwise (numberedLt cmp) := by
  induction l with
  | nil => exact pairwise_singleton _ _
  | cons e l ih =>
    obtain ⟨he, hl'⟩ := pairwise_cons.mp hl
    rw [orderedInsert_cons]
    split_ifs with hle
    · refine pairwise_cons.mpr ⟨fun c hc => numberedLt_of_le ?_ (hx c hc), hl⟩
      rcases mem_cons.mp hc with rfl | hc
      · exact hle
      · exact h.trans _ _ _ trivial trivial trivial hle (he c hc).isLE
    · refine pairwise_cons.mpr ⟨fun c hc => ?_, ih hl' (fun d hd => hx d (mem_cons_of_mem _ hd))⟩
      rcases (mem_orderedInsert _).mp hc with rfl | hc
      · refine numberedLt_iff.mpr (.inl ?_)
        rw [h.swap c.1 e.1 trivial trivial]
        cases hcmp : cmp c.1 e.1 with
        | gt => rfl
        | _ => exact absurd (by rw [hcmp]; rfl) hle
      · exact he c hc

lemma insertionSort_numberedLt (l : List A) (n : Nat) :
    ((l.zipIdx n).insertionSort (fun a b => (cmp a.1 b.1).isLE = true)).Pairwise (numberedLt cmp) := by
  induction l generalizing n with
  | nil => exact Pairwise.nil
  | cons a l ih =>
    rw [zipIdx_cons, insertionSort_cons]
    refine orderedInsert_numberedLt h (ih (n + 1)) fun e he => ?_
    exact le_snd_of_mem_zipIdx ((mem_insertionSort _).mp he)

lemma stableOrder_sortBy (l : List A) : StableOrder cmp l (sortBy cmp l) := by
  refine ⟨_, perm_insertionSort _ _, insertionSort_numberedLt h l 0, ?_⟩
  rw [map_insertionSort _ (fun a b => (cmp a b).isLE = true) Prod.fst l.zipIdx
    (fun a _ b _ => Iff.rfl), zipIdx_map_fst]
  rfl

lemma StableOrder.eq_sortBy (hout : StableOrder cmp l out) : out = sortBy cmp l := by
  obtain ⟨xs, hxs, hord, rfl⟩ := hout
  obtain ⟨ys, hys, hord', hmap⟩ := stableOrder_sortBy h l
  have hasymm : ∀ a b, a ∈ xs → b ∈ ys → numberedLt cmp a b → numberedLt cmp b a → a = b := by
    intro a b _ _ hab hba
    rw [numberedLt_iff] at hab hba
    rw [h.swap a.1 b.1 trivial trivial] at hba
    rcases hab with hab | ⟨hab, hlt⟩ <;> rw [hab] at hba
    · simp at hba
    · simp only [Ordering.swap_eq, reduceCtorEq, true_and, false_or] at hba
      omega
  rw [Perm.eq_of_pairwise hasymm hord hord' (hxs.trans hys.symm), hmap]

end

variable {A K : Type} {cmp : A → A → Ordering} {s : A → Prop}

lemma length_sortBy (l : List A) : (sortBy cmp l).length = l.length := length_insertionSort _ l

variable {key : A → K} (h : Ranks cmp key s)
include h

lemma Ranks.sortBy_unique (hl : ∀ a ∈ l, s a) (hn : (l.map key).Nodup)
    (hperm : l'.Perm l) (hsorted : l'.Pairwise (fun a b => cmp a b = .lt)) : sortBy cmp l = l' := by
  have hl' : (sortBy cmp l).Perm l' := (perm_insertionSort _ _).trans hperm.symm
  refine Perm.eq_of_pairwise (fun a b ha hb hab hba => ?_) (h.sortBy_lt hl hn) hsorted hl'
  exact absurd hba (h.lt_asymm (hl a (mem_sortBy.mp ha)) (hl b (hperm.mem_iff.mp hb)) hab)

lemma Ranks.sortBy_perm (hl : ∀ a ∈ l, s a) (hn : (l.map key).Nodup) (hperm : l'.Perm l) :
    sortBy cmp l' = sortBy cmp l := by
  have hn' : (l'.map key).Nodup := ((hperm.map key).nodup_iff).mpr hn
  have hs' : ∀ a ∈ l', s a := fun a ha => hl a (hperm.mem_iff.mp ha)
  exact (h.sortBy_unique hl hn ((perm_insertionSort _ _).trans hperm) (h.sortBy_lt hs' hn')).symm

lemma Ranks.sortBy_append (hw : ∀ a ∈ l ++ l', s a) (hn : ((l ++ l').map key).Nodup)
    (hcut : ∀ a ∈ l, ∀ b ∈ l', cmp a b = .lt) : sortBy cmp (l ++ l') = sortBy cmp l ++ sortBy cmp l' := by
  rw [map_append] at hn
  refine h.sortBy_unique hw (by rwa [map_append])
    ((perm_insertionSort _ _).append (perm_insertionSort _ _)) ?_
  refine pairwise_append.mpr ⟨?_, ?_, fun a ha b hb => hcut a (mem_sortBy.mp ha) b (mem_sortBy.mp hb)⟩
  · exact h.sortBy_lt (fun a ha => hw a (mem_append_left _ ha)) hn.of_append_left
  · exact h.sortBy_lt (fun a ha => hw a (mem_append_right _ ha)) hn.of_append_right

lemma Ranks.taken_of_last (hw : ∀ a ∈ w, s a) (hn : (w.map key).Nodup)
    (hm : (sortBy cmp w)[n]? = some m) (hle : ∀ a ∈ w.take (n + 1), a = m ∨ cmp a m = .lt) :
    ∀ a ∈ w.take (n + 1), ∀ b ∈ w.drop (n + 1), cmp a b = .lt := by
  have hsorted := h.sortBy_lt hw hn
  have hasymm : ∀ a ∈ sortBy cmp w, ∀ b ∈ sortBy cmp w, cmp a b = .lt → ¬ cmp b a = .lt := fun a ha b hb =>
    h.lt_asymm (hw a (mem_sortBy.mp ha)) (hw b (mem_sortBy.mp hb))
  have hmtake : m ∈ (sortBy cmp w).take (n + 1) :=
    mem_of_getElem? ((List.getElem?_take_of_lt (Nat.lt_succ_self n)).trans hm)
  have hwn : w.Nodup := hn.of_map
  have hsub : ∀ a ∈ w.take (n + 1), a ∈ (sortBy cmp w).take (n + 1) := by
    intro a ha
    rcases hle a ha with rfl | hlt
    · exact hmtake
    · exact mem_take_of_before hsorted hasymm hmtake (mem_sortBy.mpr (mem_of_mem_take ha)) hlt
  have hperm : (w.take (n + 1)).Perm ((sortBy cmp w).take (n + 1)) := by
    refine List.Subperm.perm_of_length_le (subperm_of_subset (hwn.sublist (take_sublist _ _)) hsub) ?_
    rw [length_take, length_take, length_sortBy]
  intro a ha b hb
  have hb' : b ∈ (sortBy cmp w).drop (n + 1) := by
    have hbw : b ∈ sortBy cmp w := mem_sortBy.mpr (mem_of_mem_drop hb)
    rw [← take_append_drop (n + 1) (sortBy cmp w)] at hbw
    refine (mem_append.mp hbw).resolve_left fun hin => ?_
    exact disjoint_take_drop hwn (Nat.le_refl _) (hperm.mem_iff.mpr hin) hb
  rw [← take_append_drop (n + 1) (sortBy cmp w)] at hsorted
  exact (pairwise_append.mp hsorted).2.2 a (hperm.mem_iff.mp ha) b hb'

/-- The slice of what a window took is the slice of the ranking exactly when everything the window took is ranked
before everything it left. -/
lemma Ranks.slice_iff (hw : ∀ a ∈ w, s a) (hn : (w.map key).Nodup) (hk : 0 < k) :
    ((sortBy cmp (w.take (offset + k))).drop offset).take k = ((sortBy cmp w).drop offset).take k ↔
      ∀ a ∈ w.take (offset + k), ∀ b ∈ w.drop (offset + k), cmp a b = .lt := by
  rcases Nat.lt_or_ge (offset + k) w.length with hlong | hshort
  · have hlen : (sortBy cmp (w.take (offset + k))).length = offset + k := by
      rw [length_sortBy, length_take]
      omega
    constructor
    · intro heq
      -- The last element of the slice is the last of the ranking's first ones.
      obtain ⟨n, hnk⟩ : ∃ n, offset + k = n + 1 := ⟨offset + k - 1, by omega⟩
      obtain ⟨m, hm⟩ : ∃ m, (sortBy cmp (w.take (offset + k)))[n]? = some m :=
        ⟨_, List.getElem?_eq_getElem (by rw [hlen]; omega)⟩
      have hat : (sortBy cmp w)[n]? = some m := by
        have hplace : n - offset < k ∧ offset + (n - offset) = n := by omega
        have hpos := congrArg (fun l => l[n - offset]?) heq
        simp only [List.getElem?_take, List.getElem?_drop, hplace.1, hplace.2, if_true, hm] at hpos
        exact hpos.symm
      rw [hnk] at hm hlen ⊢
      refine h.taken_of_last hw hn hat fun a ha => ?_
      have htake : ∀ a ∈ w.take (n + 1), s a := fun a ha => hw a (mem_of_mem_take ha)
      have hsorted := h.sortBy_lt htake (hn.sublist ((take_sublist _ _).map key))
      obtain ⟨i, hi, rfl⟩ := mem_iff_getElem.mp (mem_sortBy.mpr ha : a ∈ sortBy cmp (w.take (n + 1)))
      rcases Nat.lt_or_eq_of_le (Nat.lt_succ_iff.mp (hlen ▸ hi)) with hlt | rfl
      · obtain ⟨hn', rfl⟩ := List.getElem?_eq_some_iff.mp hm
        exact .inr (pairwise_iff_getElem.mp hsorted i n hi hn' hlt)
      · exact .inl (Option.some.inj ((List.getElem?_eq_getElem hi).symm.trans hm))
    · intro hcut
      have happ : sortBy cmp w = sortBy cmp (w.take (offset + k)) ++ sortBy cmp (w.drop (offset + k)) := by
        have hparts := take_append_drop (offset + k) w
        rw [← h.sortBy_append (hparts.symm ▸ hw) (hparts.symm ▸ hn) hcut, hparts]
      have hdrop : offset ≤ (sortBy cmp (w.take (offset + k))).length := by omega
      rw [happ, drop_append_of_le_length hdrop, take_append_of_le_length]
      rw [length_drop, hlen]
      omega
  · rw [take_of_length_le hshort, drop_of_length_le hshort]
    exact ⟨fun _ _ _ b hb => absurd hb not_mem_nil, fun _ => rfl⟩

end GrowlerDB.Lib.Ranking
