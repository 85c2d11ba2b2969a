import GrowlerDB.Lib.Machine
import Mathlib.Data.Nat.Log
import Mathlib.Tactic.Ring

namespace GrowlerDB.Lib

structure F64 where
  bits : BitVec 64
  deriving DecidableEq

variable {m : Nat}

namespace F64

section

variable (x : F64)

def magnitude : Nat := x.bits.toNat % 2 ^ 63

def isNegative : Bool := x.bits.msb

def infinity : Nat := 0x7FF0000000000000

def isNan : Bool := infinity < x.magnitude

def isFinite : Bool := x.magnitude < infinity

/-- Sign and magnitude as one integer: the two zeros coincide, and on everything but NaN this
is the numeric order. -/
def rank : Int := if x.isNegative then -(x.magnitude : Int) else x.magnitude

def partialCmp (x y : F64) : Option Ordering :=
  if x.isNan || y.isNan then none else some (compare x.rank y.rank)

lemma toNat_bits : x.bits.toNat = x.magnitude + if x.isNegative then 2 ^ 63 else 0 := by
  have hlt := x.bits.isLt
  unfold magnitude isNegative
  rw [BitVec.msb_eq_decide]
  simp only [decide_eq_true_eq]
  split_ifs <;> omega

lemma ext_of_magnitude {x y : F64} (hm : x.magnitude = y.magnitude)
    (hs : x.isNegative = y.isNegative) : x = y := by
  obtain ⟨bx⟩ := x
  obtain ⟨by'⟩ := y
  refine congrArg F64.mk (BitVec.eq_of_toNat_eq ?_)
  have hx := toNat_bits ⟨bx⟩
  have hy := toNat_bits ⟨by'⟩
  rwa [hm, hs, ← hy] at hx

def roundDiv (m s : Nat) : Nat :=
  let q := m / 2 ^ s
  let r := m % 2 ^ s
  if 2 ^ s < 2 * r ∨ (2 * r = 2 ^ s ∧ q % 2 = 1) then q + 1 else q

def significand (m e : Nat) : Nat := if e ≤ 52 then m * 2 ^ (52 - e) else roundDiv m (e - 52)

/-- The pattern of exponent `e` and a significand with its leading bit; a carry out of the
significand moves into the exponent. -/
def pattern (e g : Nat) : Nat := (e + 1022) * 2 ^ 52 + g

def magnitudeOf (m : Nat) : Nat := if m = 0 then 0 else pattern m.log2 (significand m m.log2)

def ofInt (n : Int) : F64 :=
  ⟨BitVec.ofNat 64 (magnitudeOf n.natAbs + if n < 0 then 2 ^ 63 else 0)⟩

def wholePart (mag : Nat) : Nat :=
  let e := mag / 2 ^ 52
  let g := 2 ^ 52 + mag % 2 ^ 52
  if e < 1023 then 0 else if e ≤ 1075 then g / 2 ^ (1075 - e) else g * 2 ^ (e - 1075)

/-- Conversion to a 64-bit integer: towards zero, to the nearest bound outside the range, and NaN to
zero. -/
def toI64 : Int :=
  if x.isNan then 0
  else if x.isNegative then max (-(wholePart x.magnitude : Int)) (-2 ^ 63)
  else min (wholePart x.magnitude : Int) (2 ^ 63 - 1)

end

lemma roundDiv_mono (s : Nat) (h : m ≤ m') : roundDiv m s ≤ roundDiv m' s := by
  have hpos : 0 < 2 ^ s := Nat.two_pow_pos s
  have hq : m / 2 ^ s ≤ m' / 2 ^ s := Nat.div_le_div_right h
  have hm := Nat.div_add_mod m (2 ^ s)
  have hm' := Nat.div_add_mod m' (2 ^ s)
  have hr := Nat.mod_lt m hpos
  unfold roundDiv
  rcases Nat.lt_or_eq_of_le hq with hlt | heq
  · simp only
    split_ifs <;> omega
  · have hrem : m % 2 ^ s ≤ m' % 2 ^ s := by
      rw [heq] at hm
      omega
    simp only [heq]
    split_ifs <;> omega

lemma roundDiv_mul (g s : Nat) : roundDiv (g * 2 ^ s) s = g := by
  have hpos : 0 < 2 ^ s := Nat.two_pow_pos s
  unfold roundDiv
  rw [Nat.mul_div_cancel g hpos, Nat.mul_mod_left]
  simp only
  split_ifs <;> omega

lemma roundDiv_bounds (hlo : lo * 2 ^ s ≤ m) (hhi : m ≤ hi * 2 ^ s) : lo ≤ roundDiv m s ∧ roundDiv m s ≤ hi :=
  ⟨(roundDiv_mul lo s).ge.trans (roundDiv_mono s hlo),
    (roundDiv_mono s hhi).trans (roundDiv_mul hi s).le⟩

lemma significand_bounds (hlo : 2 ^ e ≤ m) (hhi : m < 2 ^ (e + 1)) :
    2 ^ 52 ≤ significand m e ∧ significand m e ≤ 2 ^ 53 ∧ (e ≤ 52 → significand m e < 2 ^ 53) := by
  unfold significand
  split_ifs with he
  · have hlow : 2 ^ 52 ≤ m * 2 ^ (52 - e) := by
      calc 2 ^ 52 = 2 ^ e * 2 ^ (52 - e) := by rw [← Nat.pow_add]; congr 1; omega
        _ ≤ _ := Nat.mul_le_mul_right _ hlo
    have hhigh : m * 2 ^ (52 - e) < 2 ^ 53 := by
      calc m * 2 ^ (52 - e) < 2 ^ (e + 1) * 2 ^ (52 - e) :=
            Nat.mul_lt_mul_of_pos_right hhi (Nat.two_pow_pos _)
        _ = 2 ^ 53 := by rw [← Nat.pow_add]; congr 1; omega
    exact ⟨hlow, hhigh.le, fun _ => hhigh⟩
  · have hlow : 2 ^ 52 * 2 ^ (e - 52) ≤ m := by rwa [← Nat.pow_add, show 52 + (e - 52) = e by omega]
    have hhigh : m ≤ 2 ^ 53 * 2 ^ (e - 52) := by
      rw [← Nat.pow_add, show 53 + (e - 52) = e + 1 by omega]
      exact hhi.le
    obtain ⟨h₁, h₂⟩ := roundDiv_bounds hlow hhigh
    exact ⟨h₁, h₂, fun h => absurd h he⟩

lemma significand_mono (e : Nat) (h : m ≤ m') : significand m e ≤ significand m' e := by
  unfold significand
  split_ifs
  · exact Nat.mul_le_mul_right _ h
  · exact roundDiv_mono _ h

lemma magnitudeOf_mono (h : m ≤ m') : magnitudeOf m ≤ magnitudeOf m' := by
  unfold magnitudeOf
  by_cases hm : m = 0
  · rw [if_pos hm]
    exact Nat.zero_le _
  · have hm' : m' ≠ 0 := by omega
    rw [if_neg hm, if_neg hm']
    have hlo := Nat.log2_self_le hm
    have hhi := @Nat.lt_log2_self m
    have hlo' := Nat.log2_self_le hm'
    have hhi' := @Nat.lt_log2_self m'
    have hsig := significand_bounds hlo hhi
    have hsig' := significand_bounds hlo' hhi'
    have hexp : m.log2 ≤ m'.log2 := by
      by_contra hlt
      have hpow : 2 ^ (m'.log2 + 1) ≤ 2 ^ m.log2 := Nat.pow_le_pow_right (by decide) (Nat.not_le.mp hlt)
      exact absurd (hhi'.trans_le (hpow.trans hlo)) (Nat.not_lt.mpr h)
    unfold pattern
    rcases Nat.lt_or_eq_of_le hexp with hlt | heq
    · -- a larger exponent outweighs any significand, a carry included
      have hexps : (m.log2 + 1023) * 2 ^ 52 ≤ (m'.log2 + 1022) * 2 ^ 52 := Nat.mul_le_mul_right _ (by omega)
      calc (m.log2 + 1022) * 2 ^ 52 + significand m m.log2
          ≤ (m.log2 + 1022) * 2 ^ 52 + 2 ^ 53 := Nat.add_le_add_left hsig.2.1 _
        _ = (m.log2 + 1023) * 2 ^ 52 + 2 ^ 52 := by ring
        _ ≤ _ := Nat.add_le_add hexps hsig'.1
    · rw [heq]
      exact Nat.add_le_add_left (significand_mono _ h) _

lemma wholePart_pattern (hlo : 2 ^ 52 ≤ g) (hhi : g < 2 ^ 53) :
    wholePart (pattern e g) = if e ≤ 52 then g / 2 ^ (52 - e) else g * 2 ^ (e - 52) := by
  have hsplit : pattern e g = (g - 2 ^ 52) + 2 ^ 52 * (e + 1023) := by
    unfold pattern
    omega
  have hfrac : g - 2 ^ 52 < 2 ^ 52 := by omega
  have hdiv : pattern e g / 2 ^ 52 = e + 1023 := by
    rw [hsplit, Nat.add_mul_div_left _ _ (Nat.two_pow_pos 52), Nat.div_eq_of_lt hfrac, Nat.zero_add]
  have hmod : pattern e g % 2 ^ 52 = g - 2 ^ 52 := by rw [hsplit, Nat.add_mul_mod_self_left, Nat.mod_eq_of_lt hfrac]
  have hg : 2 ^ 52 + (g - 2 ^ 52) = g := by omega
  unfold wholePart
  simp only [hdiv, hmod, hg]
  rw [if_neg (by omega)]
  by_cases he : e ≤ 52
  · rw [if_pos (by omega), if_pos he, show 1075 - (e + 1023) = 52 - e by omega]
  · rw [if_neg (by omega), if_neg he, show e + 1023 - 1075 = e - 52 by omega]

lemma magnitudeOf_wholePart (hlo : 2 ^ 52 ≤ g) (hhi : g < 2 ^ 53)
    (hunit : e ≤ 52 → 2 ^ (52 - e) ∣ g) : magnitudeOf (wholePart (pattern e g)) = pattern e g := by
  rw [wholePart_pattern hlo hhi]
  have hmag : ∀ v, 2 ^ e ≤ v → v < 2 ^ (e + 1) → significand v e = g → magnitudeOf v = pattern e g := by
    intro v hv hv' hsig
    have hne : v ≠ 0 := fun h0 => by
      rw [h0] at hv
      exact absurd (Nat.two_pow_pos e) (Nat.not_lt.mpr hv)
    have hlog : v.log2 = e := (Nat.log2_eq_iff hne).mpr ⟨hv, hv'⟩
    rw [magnitudeOf, if_neg hne, hlog, hsig]
  by_cases he : e ≤ 52
  · obtain ⟨m, rfl⟩ := hunit he
    have hpow : 2 ^ (52 - e) * 2 ^ e = 2 ^ 52 := by rw [← Nat.pow_add]; congr 1; omega
    have hpow' : 2 ^ (52 - e) * 2 ^ (e + 1) = 2 ^ 53 := by rw [← Nat.pow_add]; congr 1; omega
    rw [if_pos he, Nat.mul_div_cancel_left _ (Nat.two_pow_pos _)]
    refine hmag m ?_ ?_ ?_
    · exact Nat.le_of_mul_le_mul_left (hpow ▸ hlo) (Nat.two_pow_pos (52 - e))
    · exact Nat.lt_of_mul_lt_mul_left (hpow' ▸ hhi)
    · rw [significand, if_pos he, Nat.mul_comm]
  · have hpow : 2 ^ 52 * 2 ^ (e - 52) = 2 ^ e := by rw [← Nat.pow_add]; congr 1; omega
    have hpow' : 2 ^ 53 * 2 ^ (e - 52) = 2 ^ (e + 1) := by rw [← Nat.pow_add]; congr 1; omega
    rw [if_neg he]
    refine hmag _ ?_ ?_ ?_
    · exact hpow ▸ Nat.mul_le_mul_right _ hlo
    · exact hpow' ▸ Nat.mul_lt_mul_of_pos_right hhi (Nat.two_pow_pos _)
    · rw [significand, if_neg he, roundDiv_mul]

lemma magnitudeOf_rounded (m : Nat) : magnitudeOf (wholePart (magnitudeOf m)) = magnitudeOf m := by
  by_cases hm : m = 0
  · subst hm
    rfl
  have hsig := significand_bounds (Nat.log2_self_le hm) (@Nat.lt_log2_self m)
  have hmag : magnitudeOf m = pattern m.log2 (significand m m.log2) := by rw [magnitudeOf, if_neg hm]
  rw [hmag]
  rcases Nat.lt_or_eq_of_le hsig.2.1 with hlt | hcarry
  · refine magnitudeOf_wholePart hsig.1 hlt (fun he => ?_)
    rw [significand, if_pos he]
    exact Nat.dvd_mul_left _ _
  · have hbig : ¬ m.log2 ≤ 52 := fun he => absurd hcarry (Nat.ne_of_lt (hsig.2.2 he))
    have hnext : pattern m.log2 (significand m m.log2) = pattern (m.log2 + 1) (2 ^ 52) := by
      rw [hcarry]
      unfold pattern
      omega
    rw [hnext]
    exact magnitudeOf_wholePart (le_refl _) (by decide) (fun he => absurd he (by omega))

lemma wholePart_magnitudeOf_iff : wholePart (magnitudeOf m) = m ↔ ∃ g e, g < 2 ^ 53 ∧ m = g * 2 ^ e := by
  by_cases hm : m = 0
  · subst hm
    exact ⟨fun _ => ⟨0, 0, by decide, rfl⟩, fun _ => rfl⟩
  have hlo := Nat.log2_self_le hm
  have hhi := @Nat.lt_log2_self m
  have hsig := significand_bounds hlo hhi
  have hmag : magnitudeOf m = pattern m.log2 (significand m m.log2) := by rw [magnitudeOf, if_neg hm]
  constructor
  · intro hback
    rw [hmag] at hback
    rcases Nat.lt_or_eq_of_le hsig.2.1 with hlt | hcarry
    · rw [wholePart_pattern hsig.1 hlt] at hback
      split_ifs at hback
      · exact ⟨m, 0, hback ▸ (Nat.div_le_self _ _).trans_lt hlt, (Nat.mul_one m).symm⟩
      · exact ⟨_, _, hlt, hback.symm⟩
    · have hnext : pattern m.log2 (significand m m.log2) = pattern (m.log2 + 1) (2 ^ 52) := by
        rw [hcarry]
        unfold pattern
        omega
      have hbig : ¬ m.log2 + 1 ≤ 52 := fun he => absurd hcarry (Nat.ne_of_lt (hsig.2.2 (by omega)))
      rw [hnext, wholePart_pattern le_rfl (by decide), if_neg hbig] at hback
      exact ⟨_, _, by decide, hback.symm⟩
  · rintro ⟨g, e, hg, heq⟩
    rw [hmag]
    by_cases hsmall : m.log2 ≤ 52
    · rw [wholePart_pattern hsig.1 (hsig.2.2 hsmall), if_pos hsmall, significand, if_pos hsmall,
        Nat.mul_div_cancel _ (Nat.two_pow_pos _)]
    · -- the bits of `m` below its 53 leading ones are zero
      have hlog : m.log2 < 53 + e := by
        rw [Nat.log2_lt hm, heq, Nat.pow_add]
        exact Nat.mul_lt_mul_of_pos_right hg (Nat.two_pow_pos e)
      obtain ⟨q, hq⟩ : 2 ^ (m.log2 - 52) ∣ m :=
        (Nat.pow_dvd_pow 2 (show m.log2 - 52 ≤ e by omega)).trans (Dvd.intro_left g heq.symm)
      have hround : significand m m.log2 = q := by
        rw [significand, if_neg hsmall]
        nth_rewrite 1 [hq]
        rw [Nat.mul_comm, roundDiv_mul]
      have hlt : q < 2 ^ 53 := by
        refine Nat.lt_of_mul_lt_mul_left (a := 2 ^ (m.log2 - 52)) ?_
        rwa [← hq, ← Nat.pow_add, show m.log2 - 52 + 53 = m.log2 + 1 by omega]
      rw [hround, wholePart_pattern (hround ▸ hsig.1) hlt, if_neg hsmall, Nat.mul_comm, ← hq]

lemma magnitudeOf_lt (h : m ≤ 2 ^ 63) : magnitudeOf m < infinity :=
  (magnitudeOf_mono h).trans_lt (by decide)

variable {n : Int}

lemma natAbs_le (h : InI64 n) : n.natAbs ≤ 2 ^ 63 := by
  obtain ⟨hlo, hhi⟩ := h
  omega

lemma magnitude_ofInt (h : InI64 n) : (ofInt n).magnitude = magnitudeOf n.natAbs := by
  have hlt : magnitudeOf n.natAbs < 2 ^ 63 := (magnitudeOf_lt (natAbs_le h)).trans (by decide)
  unfold magnitude ofInt
  rw [BitVec.toNat_ofNat]
  split_ifs <;> omega

lemma isNegative_ofInt (h : InI64 n) : (ofInt n).isNegative = decide (n < 0) := by
  have hlt : magnitudeOf n.natAbs < 2 ^ 63 := (magnitudeOf_lt (natAbs_le h)).trans (by decide)
  unfold isNegative ofInt
  rw [BitVec.msb_eq_decide, BitVec.toNat_ofNat]
  congr 1
  split_ifs with hn <;> simp only [hn, eq_iff_iff, iff_true, iff_false] <;> omega

lemma isNan_ofInt (h : InI64 n) : (ofInt n).isNan = false := by
  have hlt := magnitudeOf_lt (natAbs_le h)
  rw [isNan, magnitude_ofInt h]
  exact decide_eq_false (by omega)

lemma rank_ofInt (h : InI64 n) :
    (ofInt n).rank = if n < 0 then -(magnitudeOf n.natAbs : Int) else magnitudeOf n.natAbs := by
  unfold rank
  rw [isNegative_ofInt h, magnitude_ofInt h]
  simp

lemma rank_ofInt_mono {m : Int} (hm : InI64 m) (hn : InI64 n) (h : m ≤ n) :
    (ofInt m).rank ≤ (ofInt n).rank := by
  rw [rank_ofInt hm, rank_ofInt hn]
  split_ifs with hneg hneg'
  · have := magnitudeOf_mono (show n.natAbs ≤ m.natAbs by omega)
    omega
  · omega
  · omega
  · have := magnitudeOf_mono (show m.natAbs ≤ n.natAbs by omega)
    omega

lemma toI64_congr {x y : F64} (hx : x.isNan = false) (hy : y.isNan = false)
    (h : x.rank = y.rank) : x.toI64 = y.toI64 := by
  have hzero : wholePart 0 = 0 := by decide
  unfold rank at h
  unfold toI64
  rw [hx, hy]
  cases hnx : x.isNegative <;> cases hny : y.isNegative <;>
    simp only [hnx, hny, if_true, if_false, Bool.false_eq_true] at h ⊢
  · rw [show x.magnitude = y.magnitude by omega]
  · -- the two zeros
    obtain ⟨h₁, h₂⟩ : x.magnitude = 0 ∧ y.magnitude = 0 := by omega
    rw [h₁, h₂, hzero]
    decide
  · obtain ⟨h₁, h₂⟩ : x.magnitude = 0 ∧ y.magnitude = 0 := by omega
    rw [h₁, h₂, hzero]
    decide
  · rw [show x.magnitude = y.magnitude by omega]

lemma toI64_ofInt (h : InI64 n) : (ofInt n).toI64 =
    if n < 0 then max (-(wholePart (magnitudeOf n.natAbs) : Int)) (-2 ^ 63)
    else min (wholePart (magnitudeOf n.natAbs) : Int) (2 ^ 63 - 1) := by
  unfold toI64
  rw [isNan_ofInt h, isNegative_ofInt h, magnitude_ofInt h]
  simp

lemma toI64_range (x : F64) : InI64 x.toI64 := by
  unfold toI64 InI64
  split_ifs <;> omega

/-- Converting to an integer and back changes no float that an integer was converted to. -/
lemma rank_ofInt_toI64 (h : InI64 n) : (ofInt (ofInt n).toI64).rank = (ofInt n).rank := by
  have hrange := toI64_range (ofInt n)
  have hround := magnitudeOf_rounded n.natAbs
  have hbound := natAbs_le h
  rw [rank_ofInt hrange, rank_ofInt h]
  rw [toI64_ofInt h] at hrange ⊢
  generalize hw : wholePart (magnitudeOf n.natAbs) = w at hround hrange ⊢
  by_cases hneg : n < 0
  · have hpos : 0 < w := by
      refine Nat.pos_of_ne_zero (fun h0 => ?_)
      rw [h0] at hround
      have hmono := magnitudeOf_mono (show 1 ≤ n.natAbs by omega)
      rw [← hround] at hmono
      exact absurd hmono (by decide)
    simp only [hneg, if_true]
    rw [if_pos (by omega)]
    by_cases hsat : w ≤ 2 ^ 63
    · rw [show (max (-(w : Int)) (-2 ^ 63)).natAbs = w by omega, hround]
    · have hle := magnitudeOf_mono hbound
      have hge := magnitudeOf_mono (show 2 ^ 63 ≤ w by omega)
      rw [show (max (-(w : Int)) (-2 ^ 63)).natAbs = 2 ^ 63 by omega]
      omega
  · simp only [hneg, if_false]
    rw [if_neg (by omega)]
    by_cases hsat : w ≤ 2 ^ 63 - 1
    · rw [show (min (w : Int) (2 ^ 63 - 1)).natAbs = w by omega, hround]
    · have hle := magnitudeOf_mono (show n.natAbs ≤ 2 ^ 63 - 1 by have := h.2; omega)
      have hge := magnitudeOf_mono (show 2 ^ 63 - 1 ≤ w by omega)
      rw [show (min (w : Int) (2 ^ 63 - 1)).natAbs = 2 ^ 63 - 1 by omega]
      omega

/-- An integer survives the way through a float if it has 53 significant bits, or is the last of the range. -/
lemma toI64_ofInt_eq_iff (h : InI64 n) :
    (ofInt n).toI64 = n ↔ (∃ g e, g < 2 ^ 53 ∧ n.natAbs = g * 2 ^ e) ∨ n = 2 ^ 63 - 1 := by
  rw [← wholePart_magnitudeOf_iff, toI64_ofInt h]
  have hlast : wholePart (magnitudeOf (2 ^ 63 - 1)) = 2 ^ 63 := by decide +kernel
  have hfirst : wholePart (magnitudeOf (2 ^ 63)) = 2 ^ 63 := by decide +kernel
  obtain ⟨hlo, hhi⟩ := h
  split_ifs with hneg
  · by_cases heq : n = -2 ^ 63
    · have habs : n.natAbs = 2 ^ 63 := by omega
      rw [habs, hfirst]
      omega
    · omega
  · by_cases heq : n = 2 ^ 63 - 1
    · have habs : n.natAbs = 2 ^ 63 - 1 := by omega
      rw [habs, hlast]
      omega
    · omega

end F64

end GrowlerDB.Lib
