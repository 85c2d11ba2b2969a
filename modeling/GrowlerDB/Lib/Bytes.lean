import Mathlib.Data.List.TakeDrop
import Mathlib.Tactic.Ring

namespace GrowlerDB.Lib.Bytes
open List BitVec

def leBytes : Nat → Nat → List UInt8
  | 0, _ => []
  | n + 1, x => UInt8.ofNat x :: leBytes n (x / 256)

def ofLe : List UInt8 → Nat
  | [] => 0
  | b :: bs => b.toNat + 256 * ofLe bs

@[simp] lemma length_leBytes (n x : Nat) : (leBytes n x).length = n := by
  induction n generalizing x with
  | zero => rfl
  | succ n ih => rw [leBytes, length_cons, ih]

lemma ofLe_leBytes (h : x < 256 ^ n) : ofLe (leBytes n x) = x := by
  induction n generalizing x with
  | zero => simp_all [leBytes, ofLe]
  | succ n ih =>
    have hdiv : x / 256 < 256 ^ n := by
      rw [Nat.pow_succ] at h
      omega
    rw [leBytes, ofLe, ih hdiv, UInt8.toNat_ofNat']
    omega

lemma leBytes_ofLe (bs : List UInt8) : leBytes bs.length (ofLe bs) = bs := by
  induction bs with
  | nil => rfl
  | cons b bs ih =>
    have hb : b.toNat < 256 := b.toNat_lt
    have hdiv : (b.toNat + 256 * ofLe bs) / 256 = ofLe bs := by omega
    have hbyte : UInt8.ofNat (b.toNat + 256 * ofLe bs) = b := by
      apply UInt8.toNat_inj.mp
      rw [UInt8.toNat_ofNat']
      omega
    rw [length_cons, leBytes, ofLe, hdiv, ih, hbyte]

lemma ofLe_lt (bs : List UInt8) : ofLe bs < 256 ^ bs.length := by
  induction bs with
  | nil => simp [ofLe]
  | cons b bs ih =>
    have hb : b.toNat < 256 := b.toNat_lt
    rw [ofLe, length_cons, Nat.pow_succ]
    omega

lemma leBytes_eq_map (n x : Nat) : leBytes n x = (List.range n).map (fun i => UInt8.ofNat (x / 256 ^ i)) := by
  induction n generalizing x with
  | zero => rfl
  | succ n ih =>
    rw [leBytes, ih, range_succ_eq_map, map_cons, map_map, Nat.pow_zero, Nat.div_one]
    refine congrArg _ (map_congr_left fun i _ => ?_)
    rw [Function.comp_apply, Nat.div_div_eq_div_mul, Nat.pow_succ']

def wordBytes (x : BitVec 64) : List UInt8 := leBytes 8 x.toNat

def ofWordBytes (bs : List UInt8) : BitVec 64 := BitVec.ofNat 64 (ofLe bs)

@[simp] lemma length_wordBytes (x : BitVec 64) : (wordBytes x).length = 8 := length_leBytes ..

lemma ofWordBytes_wordBytes (x : BitVec 64) : ofWordBytes (wordBytes x) = x := by
  have hx : x.toNat < 256 ^ 8 := x.isLt
  rw [ofWordBytes, wordBytes, ofLe_leBytes hx, ofNat_toNat, setWidth_eq]

lemma wordBytes_ofWordBytes (h : bs.length = 8) : wordBytes (ofWordBytes bs) = bs := by
  have hlt := ofLe_lt bs
  rw [h] at hlt
  have hnat : (ofWordBytes bs).toNat = ofLe bs := by
    rw [ofWordBytes, toNat_ofNat]
    exact Nat.mod_eq_of_lt hlt
  rw [wordBytes, hnat, ← h, leBytes_ofLe]

def utf8 (s : String) : List UInt8 := s.toUTF8.data.toList

def ofUtf8 (bs : List UInt8) : Option String := String.fromUTF8? ⟨bs.toArray⟩

lemma ofUtf8_utf8 (s : String) : ofUtf8 (utf8 s) = some s := by
  unfold ofUtf8 utf8 String.fromUTF8?
  simp only [Array.toArray_toList]
  exact dif_pos s.isValidUTF8

lemma utf8_of_ofUtf8 (h : ofUtf8 bs = some s) : utf8 s = bs := by
  unfold ofUtf8 String.fromUTF8? at h
  split at h
  · cases h
    simp [utf8, String.fromUTF8]
  · cases h

variable {A : Type} {bs x y : List A} {pos mid stop : Nat}

def slice (bs : List A) (pos stop : Nat) : List A := (bs.drop pos).take (stop - pos)

/-- Between two positions of `bs` stands `x`. -/
structure Span (bs : List A) (pos stop : Nat) (x : List A) : Prop where
  stop_eq : stop = pos + x.length
  bound : stop ≤ bs.length
  slice_eq : slice bs pos stop = x

lemma span_slice (h : pos ≤ stop) (hb : stop ≤ bs.length) : Span bs pos stop (slice bs pos stop) := by
  refine ⟨?_, hb, rfl⟩
  rw [slice, length_take, length_drop]
  omega

lemma span_whole (bs : List A) : Span bs 0 bs.length bs := by
  refine ⟨by simp, le_refl _, ?_⟩
  simp [slice]

lemma Span.append (hx : Span bs pos mid x) (hy : Span bs mid stop y) : Span bs pos stop (x ++ y) := by
  obtain ⟨rfl, -, hx⟩ := hx
  obtain ⟨rfl, hb, hy⟩ := hy
  refine ⟨by simp [Nat.add_assoc], hb, ?_⟩
  simp only [slice, Nat.add_sub_cancel_left] at hx hy
  rw [slice, show pos + x.length + y.length - pos = x.length + y.length by omega, take_add, drop_drop, hx, hy]

lemma Span.split (h : Span bs pos stop (x ++ y)) :
    Span bs pos (pos + x.length) x ∧ Span bs (pos + x.length) stop y := by
  obtain ⟨rfl, hb, h⟩ := h
  rw [length_append] at hb h ⊢
  rw [slice, Nat.add_sub_cancel_left, take_add, drop_drop] at h
  have hlen : ((bs.drop pos).take x.length).length = x.length := by
    rw [length_take, length_drop]
    omega
  obtain ⟨hx, hy⟩ := append_inj h hlen
  refine ⟨⟨rfl, by omega, ?_⟩, ⟨by omega, hb, ?_⟩⟩
  · rw [slice, Nat.add_sub_cancel_left, hx]
  · rw [slice, show pos + (x.length + y.length) - (pos + x.length) = y.length by omega, hy]

lemma Span.le (h : Span bs pos stop x) : pos ≤ stop := by
  rw [h.stop_eq]
  exact Nat.le_add_right ..

lemma Span.eq_whole (h : Span bs 0 bs.length x) : x = bs := by
  rw [← h.slice_eq]
  simp [slice]

end GrowlerDB.Lib.Bytes
