import GrowlerDB.Lib.Paging
import GrowlerDB.Lib.Ranking
import Mathlib.Data.List.Perm.Subperm

namespace GrowlerDB.Lib.Keyset
open Paging List

variable {A B C E : Type}

/-- What the window leaves of the elements of `u` that `q` admits: up to `k` of them, those that come
first in the window's order. -/
structure Windowed (u : List A) (k : Nat) (before : A → A → Prop) (page : (A → Bool) → List A) :
    Prop where
  size : 0 < k
  total : ∀ a ∈ u, ∀ b ∈ u, a ≠ b → before a b ∨ before b a
  sub : ∀ q, (page q).Sublist (u.filter q)
  length : ∀ q, (page q).length = min k (u.filter q).length
  closed : ∀ q a b, a ∈ page q → b ∈ u → q b = true → before b a → b ∈ page q

/-- A fetch that pages through `u`. A cursor that does not admit its own element admits no more than an earlier cursor
that admits this element, and neither does the window bring up what an earlier cursor left out. -/
structure Serves (fetch : Option C → Except E (List B × Option C)) (u : List A) (k : Nat)
    (before lt : A → A → Prop) (page : (A → Bool) → List A) (view : A → B) (after : A → A → Bool)
    (token : A → C) : Prop extends Windowed u k before page where
  first : fetch none =
    .ok ((page (fun _ => true)).map view, (page (fun _ => true)).getLast?.map token)
  next : ∀ h ∈ u, fetch (some (token h)) =
    .ok ((page (after h)).map view, (page (after h)).getLast?.map token)
  view_inj : ∀ a b, a ∈ u → b ∈ u → view a = view b → a = b
  sorted : u.Pairwise lt
  asymm : ∀ a ∈ u, ∀ b ∈ u, lt a b → ¬ lt b a
  chain : ∀ a b d, after a b = true → after b d = true → after b b = false → after a d = true
  window : ∀ a ∈ u, ∀ b ∈ u, ∀ g ∈ u, lt a b → lt b g → after a b = true → after b g = true →
    before g b → after a g = true

def Parts (u : List A) (before : A → A → Prop) (place : Nat) : Prop :=
  ∀ a ∈ u.take place, ∀ b ∈ u.drop place, before a b

def Admits (u : List A) (after : A → A → Bool) (h : A) (place : Nat) : Prop :=
  ∀ d ∈ u, after h d = true ↔ d ∈ u.drop place

variable {q : A → Bool} {place : Nat}

lemma filter_eq_drop_of_mem {u : List A} (hn : u.Nodup)
    (h : ∀ d ∈ u, q d ↔ d ∈ u.drop place) : u.filter q = u.drop place := by
  have hnone : (u.take place).filter q = [] := by
    refine filter_eq_nil_iff.mpr (fun a ha hq => ?_)
    exact disjoint_take_drop hn (Nat.le_refl place) ha
      ((h a (mem_of_mem_take ha)).mp hq)
  have hall : (u.drop place).filter q = u.drop place :=
    filter_eq_self.mpr (fun a ha => (h a (mem_of_mem_drop ha)).mpr ha)
  calc u.filter q = (u.take place ++ u.drop place).filter q := by rw [take_append_drop]
    _ = u.drop place := by rw [filter_append, hnone, hall, nil_append]

section

variable {u : List A} {k : Nat} {before : A → A → Prop} {page : (A → Bool) → List A}

variable (h : Windowed u k before page)
include h

lemma Windowed.mem (ha : a ∈ page q) : a ∈ u ∧ q a := mem_filter.mp ((h.sub q).subset ha)

lemma Windowed.before_of_not_mem
    (ha : a ∈ page q) (hb : b ∈ u) (hq : q b) (hnot : b ∉ page q) : before a b := by
  have hne : a ≠ b := fun heq => hnot (heq ▸ ha)
  rcases h.total a (h.mem ha).1 b hb hne with hab | hba
  · exact hab
  · exact absurd (h.closed q a b ha hb hq hba) hnot

lemma Windowed.page_ne_nil (ha : a ∈ u) (hq : q a) : page q ≠ [] := by
  have hpos : 0 < (u.filter q).length := length_pos_of_mem (mem_filter.mpr ⟨ha, hq⟩)
  have hlen := h.length q
  have hk := h.size
  intro hnil
  rw [hnil, length_nil] at hlen
  omega

/-- Where the list is parted, the window cuts the next page exactly if it parts the list behind that
page. -/
lemma Windowed.page_eq_iff (hn : u.Nodup) (hq : u.filter q = u.drop place) (hp : Parts u before place) :
    page q = pageAt u k place ↔ Parts u before (place + k) := by
  have hsplit := pageAt_append_drop u k place
  have hmemq : ∀ {b}, b ∈ u.drop place → b ∈ u ∧ q b := fun hb => mem_filter.mp (hq ▸ hb)
  have hnodup : (pageAt u k place ++ u.drop (place + k)).Nodup := hsplit ▸ hn.sublist (drop_sublist _ _)
  have hdisj := (nodup_append.mp hnodup).2.2
  constructor
  · intro hpage a ha b hb
    have hb' : b ∈ u.drop place := hsplit ▸ mem_append_right _ hb
    rw [take_add, mem_append] at ha
    rcases ha with ha | ha
    · exact hp a ha b hb'
    · obtain ⟨hbu, hqb⟩ := hmemq hb'
      refine h.before_of_not_mem (hpage ▸ ha : a ∈ page q) hbu hqb (fun hbp => ?_)
      exact hdisj b (hpage ▸ hbp) b hb rfl
  · intro hparts
    have hsub : (page q).Sublist (pageAt u k place ++ u.drop (place + k)) := by
      rw [hsplit, ← hq]
      exact h.sub q
    obtain ⟨front, back, heq, hfront, hback⟩ := sublist_append_iff.mp hsub
    have hlen := h.length q
    have hsize : (pageAt u k place).length = min k (u.drop place).length := by rw [pageAt, length_take]
    rw [hq] at hlen
    have hnil : back = [] := by
      -- an element behind the page would bring the whole page in before it
      rcases back with _ | ⟨y, back⟩
      · rfl
      have hy : y ∈ page q := heq ▸ mem_append_right _ mem_cons_self
      have hyb : y ∈ u.drop (place + k) := hback.subset mem_cons_self
      have hin : ∀ x ∈ pageAt u k place, x ∈ page q := by
        intro x hx
        obtain ⟨hxu, hqx⟩ := hmemq (hsplit ▸ mem_append_left _ hx)
        refine h.closed q y x hy hxu hqx (hparts x ?_ y hyb)
        rw [take_add]
        exact mem_append_right _ hx
      have hfull : (y :: pageAt u k place).Nodup :=
        nodup_cons.mpr ⟨fun hyp => hdisj y hyp y hyb rfl, (nodup_append.mp hnodup).1⟩
      have hcount := (subperm_of_subset hfull
        (cons_subset.mpr ⟨hy, hin⟩)).length_le
      rw [length_cons] at hcount
      omega
    rw [hnil, append_nil] at heq
    rw [heq] at hlen ⊢
    exact hfront.eq_of_length (hlen.trans hsize.symm)

end

variable {fetch : Option C → Except E (List B × Option C)} {u : List A} {k : Nat}
  {before lt : A → A → Prop} {page : (A → Bool) → List A} {view : A → B} {after : A → A → Bool}
  {token : A → C}

lemma Serves.collects_page (h : Serves fetch u k before lt page view after token)
    {v : List A} (hvu : ∀ a ∈ v, a ∈ u)
    (hfetch : fetch c = .ok ((page q).map view, (page q).getLast?.map token)) :
    Collects fetch c (v.map view) ↔ (page q = [] ∧ v = []) ∨ ∃ e rest, (page q).getLast? = some e ∧
      v = page q ++ rest ∧ Collects fetch (some (token e)) (rest.map view) := by
  cases hlast : (page q).getLast? with
  | none =>
    have hnil : page q = [] := List.getLast?_eq_none_iff.mp hlast
    rw [hlast] at hfetch
    rw [collects_last hfetch, hnil]
    constructor
    · intro hv
      exact .inl ⟨rfl, map_eq_nil_iff.mp hv.symm⟩
    · rintro (⟨-, rfl⟩ | ⟨e, -, he, -⟩)
      · rfl
      · cases he
  | some e =>
    have hne : page q ≠ [] := fun hnil => by
      rw [hnil] at hlast
      cases hlast
    rw [hlast] at hfetch
    rw [collects_more hfetch]
    constructor
    · rintro ⟨rest, hv, hrest⟩
      obtain ⟨front, back, rfl, hfront, rfl⟩ := map_eq_append_iff.mp hv
      have hpage : front = page q := Ranking.eq_of_keys h.view_inj
        (fun a ha => hvu a (mem_append_left _ ha)) (fun a ha => (h.mem ha).1) hfront
      exact .inr ⟨e, back, rfl, by rw [hpage], hrest⟩
    · rintro (⟨hnil, -⟩ | ⟨e', rest, he, rfl, hrest⟩)
      · exact absurd hnil hne
      · cases he
        exact ⟨_, map_append, hrest⟩

/-- What a scroll in order brings up behind an element, the element's own cursor admits: an element
that it leaves out never comes up later. -/
lemma Serves.admits_collected (h : Serves fetch u k before lt page view after token)
    (he : e ∈ u) {v : List A} (hvu : ∀ a ∈ v, a ∈ u)
    (hv : Collects fetch (some (token e)) (v.map view)) (hsorted : v.Pairwise lt)
    (hbehind : ∀ b ∈ v, lt e b) : ∀ d ∈ v, after e d := by
  generalize hlen : v.length = n
  induction n using Nat.strongRecOn generalizing e v with
  | ind n ih =>
    rcases (h.collects_page hvu (h.next e he)).mp hv with ⟨-, rfl⟩ | ⟨b, rest, hlast, rfl, hrest⟩
    · intro d hd
      cases hd
    have hb : b ∈ page (after e) := mem_of_getLast? hlast
    obtain ⟨hbu, heb⟩ := h.mem hb
    obtain ⟨-, hsorted', hcross⟩ := pairwise_append.mp hsorted
    have hshort : rest.length < n := by
      have := length_pos_of_mem hb
      rw [length_append] at hlen
      omega
    intro d hd
    rcases mem_append.mp hd with hd | hd
    · exact (h.mem hd).2
    have hrestu : ∀ a ∈ rest, a ∈ u := fun a ha => hvu a (mem_append_right _ ha)
    have hbd := ih rest.length hshort hbu hrestu hrest hsorted' (fun g hg => hcross b hb g hg) rfl d hd
    refine h.chain e b d heb hbd ?_
    -- if `b` admitted itself, the next page would hold an element that `e` admits and left out
    by_contra hself
    rw [Bool.not_eq_false] at hself
    rcases (h.collects_page hrestu (h.next b hbu)).mp hrest with ⟨-, rfl⟩ | ⟨g, rest', hg, rfl, -⟩
    · cases hd
    have hgp : g ∈ page (after b) := mem_of_getLast? hg
    obtain ⟨hgu, hbg⟩ := h.mem hgp
    have hltg : lt b g := hcross b hb g (mem_append_left _ hgp)
    have hnotin : b ∉ page (after b) := fun hin =>
      have hbb := hcross b hb b (mem_append_left _ hin)
      h.asymm b hbu b hbu hbb hbb
    have hgb : before g b := h.before_of_not_mem hgp hbu hself hnotin
    have heg := h.window e he b hbu g hgu (hbehind b (mem_append_left _ hb)) hltg heb hbg hgb
    have hgpage : g ∈ page (after e) := h.closed _ b g hb hgu heg hgb
    have hgg := hcross g hgpage g (mem_append_left _ hgp)
    exact h.asymm g hgu g hgu hgg hgg

/-- What a right scroll needs at one page: the window parts the list behind it, and the cursor of its
last element admits exactly what comes behind. -/
def Sound (u : List A) (k : Nat) (before : A → A → Prop) (after : A → A → Bool) (place : Nat) : Prop :=
  ∀ h, (pageAt u k place).getLast? = some h → Parts u before (place + k) ∧ Admits u after h (place + k)

variable (h : Serves fetch u k before lt page view after token)
include h

lemma Serves.nodup : u.Nodup := by
  refine h.sorted.imp_of_mem (fun {a b} ha hb hlt heq => ?_)
  subst heq
  exact h.asymm a ha a ha hlt hlt

lemma Serves.split (hplace : place < u.length) (hq : u.filter q = u.drop place)
    (hfetch : fetch c = .ok ((page q).map view, (page q).getLast?.map token)) :
    Collects fetch c ((u.drop place).map view) ↔ page q = pageAt u k place ∧ ∃ e,
      (pageAt u k place).getLast? = some e ∧ Collects fetch (some (token e)) ((u.drop (place + k)).map view) := by
  have hsplit := pageAt_append_drop u k place
  have hlen := h.length q
  rw [hq] at hlen
  have hne : page q ≠ [] := fun hnil => by
    have hk := h.size
    rw [hnil, length_nil, length_drop] at hlen
    omega
  rw [h.collects_page (fun a ha => mem_of_mem_drop ha) hfetch]
  constructor
  · rintro (⟨hnil, -⟩ | ⟨e, rest, he, hv, hrest⟩)
    · exact absurd hnil hne
    have hpage : page q = pageAt u k place := by
      have htake := congrArg (List.take (page q).length) hv
      rw [take_left, hlen] at htake
      rw [← htake, pageAt, take_eq_take_iff]
      omega
    have hrest' : rest = u.drop (place + k) := by
      rw [hpage, ← hsplit] at hv
      exact (append_cancel_left hv).symm
    exact ⟨hpage, e, hpage ▸ he, hrest' ▸ hrest⟩
  · rintro ⟨hpage, e, he, hrest⟩
    exact .inr ⟨e, _, hpage ▸ he, by rw [hpage, hsplit], hrest⟩

lemma Serves.admits_of_collects (he : (pageAt u k place).getLast? = some e)
    (hparts : Parts u before (place + k))
    (hc : Collects fetch (some (token e)) ((u.drop (place + k)).map view)) :
    Admits u after e (place + k) := by
  have hep : e ∈ pageAt u k place := mem_of_getLast? he
  have heu : e ∈ u := mem_of_mem_drop (mem_of_mem_take hep)
  have hsorted := h.sorted
  rw [← take_append_drop (place + k) u] at hsorted
  obtain ⟨-, hbehind, hcross⟩ := pairwise_append.mp hsorted
  have hetake : e ∈ u.take (place + k) := by
    rw [take_add]
    exact mem_append_right _ hep
  have hdrop : ∀ a ∈ u.drop (place + k), a ∈ u := fun a ha => mem_of_mem_drop ha
  intro d hd
  constructor
  · intro hed
    by_contra hnot
    have hdtake : d ∈ u.take (place + k) := by
      rw [← take_append_drop (place + k) u] at hd
      exact (mem_append.mp hd).resolve_right hnot
    rcases (h.collects_page hdrop (h.next e heu)).mp hc with ⟨hnil, -⟩ | ⟨g, rest, hg, hv, -⟩
    · exact h.page_ne_nil hd hed hnil
    have hgp : g ∈ page (after e) := mem_of_getLast? hg
    have hgdrop : g ∈ u.drop (place + k) := hv ▸ mem_append_left _ hgp
    have hdp := h.closed _ g d hgp hd hed (hparts d hdtake g hgdrop)
    exact hnot (hv ▸ mem_append_left _ hdp)
  · exact h.admits_collected heu hdrop hc hbehind (fun b hb => hcross e hetake b hb) d

lemma Serves.collects_from (hp : Parts u before place) (hq : u.filter q = u.drop place)
    (hfetch : fetch c = .ok ((page q).map view, (page q).getLast?.map token)) :
    Collects fetch c ((u.drop place).map view) ↔ ∀ i, Sound u k before after (place + i * k) := by
  -- by induction on how much of the list is left
  generalize hleft : u.length - place = left
  induction left using Nat.strongRecOn generalizing c q place with
  | ind left ih =>
    by_cases hplace : u.length ≤ place
    · have hnil : page q = [] := by
        have hsub := h.sub q
        rw [hq, drop_eq_nil_of_le hplace] at hsub
        exact sublist_nil.mp hsub
      rw [h.collects_page (fun a ha => mem_of_mem_drop ha) hfetch]
      refine ⟨fun _ i e he => ?_, fun _ => .inl ⟨hnil, drop_eq_nil_of_le hplace⟩⟩
      rw [pageAt_eq_nil (by omega)] at he
      cases he
    · have hsize := h.size
      rw [h.split (by omega) hq hfetch, h.page_eq_iff h.nodup hq hp, forall_places]
      constructor
      · rintro ⟨hparts, e, he, hc⟩
        have hadmits := h.admits_of_collects he hparts hc
        have heu := mem_of_mem_drop (mem_of_mem_take (mem_of_getLast? he))
        have hrest := (ih _ (by omega) hparts (filter_eq_drop_of_mem h.nodup hadmits)
          (h.next e heu) rfl).mp hc
        refine ⟨fun e' he' => ?_, hrest⟩
        obtain rfl := Option.some.inj (he.symm.trans he')
        exact ⟨hparts, hadmits⟩
      · rintro ⟨hzero, hall⟩
        have hne : pageAt u k place ≠ [] := by
          refine ne_nil_of_length_pos ?_
          rw [pageAt, length_take, length_drop]
          omega
        obtain ⟨e, he⟩ := Option.isSome_iff_exists.mp (List.getLast?_isSome.mpr hne)
        have hsound := hzero e he
        have heu := mem_of_mem_drop (mem_of_mem_take (mem_of_getLast? he))
        refine ⟨hsound.1, e, he, ?_⟩
        exact (ih _ (by omega) hsound.1 (filter_eq_drop_of_mem h.nodup hsound.2)
          (h.next e heu) rfl).mpr hall

/-- The scroll makes up the whole list exactly when every page is sound. -/
lemma Serves.collects_iff : Collects fetch none (u.map view) ↔ ∀ i, Sound u k before after (i * k) := by
  have hparts : Parts u before 0 := fun a ha => nomatch ha
  have hq : u.filter (fun _ => true) = u.drop 0 := by simp
  have hall := h.collects_from hparts hq h.first
  rw [drop_zero] at hall
  simpa only [Nat.zero_add] using hall

end GrowlerDB.Lib.Keyset
