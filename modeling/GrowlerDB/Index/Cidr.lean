import GrowlerDB.Index.Build

namespace GrowlerDB.Index.Cidr
open Core Lib BitVec Option IpAddr

/-- The network `ip/len` holds an indexed address if the first `len` bits are the network's; an IPv4 network holds
addresses in the mapped form only. -/
def Holds (len : Nat) (x : BitVec 128) : IpAddr → Prop
  | .v4 n => ∃ a : BitVec 32, x = (IpAddr.v4 a).toIpv6 ∧ a >>> (32 - len) = n >>> (32 - len)
  | .v6 n => x >>> (128 - len) = n >>> (128 - len)

lemma toNat_masked (n : BitVec 128) (k : Nat) : (n &&& allOnes 128 <<< k).toNat = 2 ^ k * (n.toNat / 2 ^ k) := by
  have hle := Nat.mul_div_le n.toNat (2 ^ k)
  have hlt := n.isLt
  rw [← shiftLeft_ushiftRight, toNat_shiftLeft, toNat_ushiftRight, Nat.shiftLeft_eq, Nat.shiftRight_eq_div_pow, Nat.mul_comm]
  exact Nat.mod_eq_of_lt (by omega)

lemma range_iff (hk : k ≤ 128) (n x : BitVec 128) :
    n &&& allOnes 128 <<< k ≤ x ∧ x ≤ n &&& allOnes 128 <<< k ||| ~~~(allOnes 128 <<< k) ↔ x >>> k = n >>> k := by
  have hrest : (~~~(allOnes 128 <<< k)).toNat = 2 ^ k - 1 := by
    have heq : ~~~(allOnes 128 <<< k) = BitVec.ofNat 128 (2 ^ k - 1) := by
      ext i hi
      rw [getElem_not, getElem_shiftLeft, getElem_allOnes, ← getLsbD_eq_getElem, getLsbD_ofNat,
        Nat.testBit_two_pow_sub_one]
      simp [hi]
    have := Nat.pow_le_pow_right (n := 2) (by decide) hk
    rw [heq, toNat_ofNat, Nat.mod_eq_of_lt (by omega)]
  have hpos := Nat.two_pow_pos k
  rw [le_def, le_def, toNat_or, toNat_masked, hrest, ← Nat.two_pow_add_eq_or_of_lt (by omega), ← toNat_inj,
    toNat_ushiftRight, toNat_ushiftRight, Nat.shiftRight_eq_div_pow, Nat.shiftRight_eq_div_pow, Nat.div_eq_iff hpos,
    Nat.mul_comm]
  omega

lemma mapped_iff (hk : k ≤ 32) (n : BitVec 32) (x : BitVec 128) :
    x >>> k = (v4 n).toIpv6 >>> k ↔ ∃ a, x = (v4 a).toIpv6 ∧ a >>> k = n >>> k := by
  have hval : ∀ a : BitVec 32, (v4 a).toIpv6.toNat = 0xFFFF00000000 + a.toNat := by
    intro a
    have := a.isLt
    simp [toIpv6]
    omega
  obtain ⟨c, hc⟩ : 2 ^ k ∣ 0xFFFF00000000 := dvd_trans (Nat.pow_dvd_pow 2 hk) (by decide)
  have hcut : ∀ a : BitVec 32, (v4 a).toIpv6.toNat / 2 ^ k = c + a.toNat / 2 ^ k := by
    intro a
    rw [hval, hc, Nat.mul_add_div (Nat.two_pow_pos k)]
  simp only [← toNat_inj, toNat_ushiftRight, Nat.shiftRight_eq_div_pow, hcut]
  constructor
  · intro h
    have hhigh : x.toNat / 2 ^ 32 = (v4 n).toIpv6.toNat / 2 ^ 32 := by
      rw [← Nat.add_sub_cancel' hk, Nat.pow_add, ← Nat.div_div_eq_div_mul, ← Nat.div_div_eq_div_mul, h, hcut]
    have hx : x.toNat = (v4 (x.setWidth 32)).toIpv6.toNat := by
      have := n.isLt
      rw [hval] at hhigh ⊢
      rw [toNat_setWidth]
      omega
    refine ⟨x.setWidth 32, hx, ?_⟩
    rw [hx, hcut] at h
    omega
  · rintro ⟨a, hx, ha⟩
    rw [hx, hcut, ha]

/-- The range of a network holds the indexed addresses that share its leading bits; a network of IPv6 addresses takes
the IPv4 addresses in their mapped form. -/
theorem cidr_range_exact {std : IndexStd} {cidr : String} {lo hi : BitVec 128} (h : cidrRange std cidr = some (lo, hi)) :
    ∃ addr bits ip len, splitOnce '/' cidr.toList = some (addr, bits) ∧
      std.parseIpAddr (String.ofList (Text.trimChars addr)) = some ip ∧
      parseUnsigned (2 ^ 32) (Text.trimChars bits) = some len ∧ ∀ x, lo ≤ x ∧ x ≤ hi ↔ Holds len x ip := by
  obtain ⟨⟨addr, bits⟩, hsplit, h⟩ := Option.bind_eq_some_iff.mp h
  obtain ⟨ip, hip, h⟩ := Option.bind_eq_some_iff.mp h
  obtain ⟨len, hlen, h⟩ := Option.bind_eq_some_iff.mp h
  refine ⟨addr, bits, ip, len, hsplit, hip, hlen, fun x => ?_⟩
  have hmask : ∀ p, (if p = 0 then 0 else allOnes 128 <<< (128 - p) : BitVec 128) = allOnes 128 <<< (128 - p) := by
    intro p
    split_ifs with hp
    · subst hp
      decide
    · rfl
  obtain ⟨hle, h⟩ := Option.ite_none_left_eq_some.mp h
  cases h
  rw [hmask, range_iff (by omega)]
  cases ip with
  | v4 n =>
    rw [show 128 - (len + 96) = 32 - len by omega]
    exact mapped_iff (by omega) n x
  | v6 n => rfl

def parsing (ip : IpAddr) : IndexStd := ⟨.blank, id, fun _ => "", fun _ => none, fun _ => some ip⟩

/-- Bits behind the length do not matter. -/
theorem cidr_range_host_bits : ∃ lo hi ip len, cidrRange (parsing (.v4 0x0A010203)) "10.1.2.3/8" = some (lo, hi) ∧
    ∀ x, lo ≤ x ∧ x ≤ hi ↔ Holds len x ip := by
  obtain ⟨-, -, ip, len, -, -, -, h⟩ :=
    cidr_range_exact (show cidrRange (parsing (.v4 0x0A010203)) "10.1.2.3/8" = some (_, _) from rfl)
  exact ⟨_, _, ip, len, rfl, h⟩

/-- The range of all IPv6 addresses takes an IPv4 address. -/
theorem cidr_range_crosses : ∃ lo hi, cidrRange (parsing (.v6 0)) "::/0" = some (lo, hi) ∧
    lo ≤ (IpAddr.v4 0x0A010203).toIpv6 ∧ (IpAddr.v4 0x0A010203).toIpv6 ≤ hi :=
  ⟨_, _, rfl, by decide, by decide⟩

end GrowlerDB.Index.Cidr
