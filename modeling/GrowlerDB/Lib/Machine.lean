import Mathlib.Data.Int.Order.Basic
import Mathlib.Data.Nat.Digits.Defs
import Mathlib.Tactic.Linarith
import Mathlib.Data.String.Basic

namespace GrowlerDB.Lib
open List Option String Int

def wrap64 (x : Int) : Int := (x + 2 ^ 63) % 2 ^ 64 - 2 ^ 63

def InI64 (x : Int) : Prop := -2 ^ 63 ≤ x ∧ x < 2 ^ 63

abbrev I64 := {n : Int // InI64 n}

instance (x : Int) : Decidable (InI64 x) := inferInstanceAs (Decidable (_ ∧ _))

lemma wrap64_in (x : Int) : InI64 (wrap64 x) := by
  unfold wrap64 InI64
  omega

def checkedMul (a b : Int) : Option Int := if InI64 (a * b) then some (a * b) else none

variable {cs : List Char}

namespace Text

def isWhitespace (c : Char) : Bool :=
  let n := c.toNat
  (0x9 ≤ n && n ≤ 0xD) || n == 0x20 || n == 0x85 || n == 0xA0 || n == 0x1680 ||
    (0x2000 ≤ n && n ≤ 0x200A) || n == 0x2028 || n == 0x2029 || n == 0x202F || n == 0x205F ||
    n == 0x3000

def trimChars (cs : List Char) : List Char :=
  ((cs.dropWhile isWhitespace).reverse.dropWhile isWhitespace).reverse

def trim (s : String) : String := String.ofList (trimChars s.toList)

def digit (c : Char) : Option Nat := if c.isDigit then some (c.toNat - '0'.toNat) else none

def parseDigits : List Char → Option Nat
  | [] => none
  | c :: cs => (c :: cs).foldlM (fun n c => (digit c).map (fun d => 10 * n + d)) 0

def parseI64Chars (cs : List Char) : Option Int :=
  let value := match cs with
    | '-' :: ds => (parseDigits ds).map (fun n : Nat => -(n : Int))
    | '+' :: ds => (parseDigits ds).map (fun n : Nat => (n : Int))
    | ds => (parseDigits ds).map (fun n : Nat => (n : Int))
  value.filter (fun x => decide (InI64 x))

def parseI64 (s : String) : Option Int := parseI64Chars s.toList

def digitChar (d : Nat) : Char := Char.ofNat ('0'.toNat + d)

def decimal (n : Nat) : List Char :=
  if n < 10 then [digitChar n] else decimal (n / 10) ++ [digitChar (n % 10)]
termination_by n

lemma decimal_ne_nil (n : Nat) : decimal n ≠ [] := by
  unfold decimal
  split <;> simp

lemma decimal_mem (n : Nat) : ∀ c ∈ decimal n, ∃ d < 10, c = digitChar d := by
  induction n using Nat.strongRecOn with
  | ind n ih =>
    unfold decimal
    split
    · rename_i h
      intro c hc
      exact ⟨n, h, mem_singleton.mp hc⟩
    · rename_i h
      intro c hc
      rcases mem_append.mp hc with hc | hc
      · exact ih (n / 10) (by omega) c hc
      · exact ⟨n % 10, by omega, mem_singleton.mp hc⟩

def renderI64 (x : Int) : List Char :=
  if x < 0 then '-' :: decimal x.natAbs else decimal x.natAbs

lemma trimChars_of_solid (h : ∀ c ∈ cs, isWhitespace c = false) : trimChars cs = cs := by
  have hdrop : ∀ ds : List Char, (∀ c ∈ ds, isWhitespace c = false) → ds.dropWhile isWhitespace = ds := by
    intro ds hds
    cases ds with
    | nil => rfl
    | cons c ds => simp [hds c mem_cons_self]
  rw [trimChars, hdrop cs h, hdrop cs.reverse (fun c hc => h c (mem_reverse.mp hc)), reverse_reverse]

lemma isWhitespace_digit (h : digit c = some d) : isWhitespace c = false := by
  unfold digit at h
  split at h
  · rename_i hc
    simp only [Char.isDigit, ge_iff_le, Bool.and_eq_true, decide_eq_true_eq, UInt32.le_iff_toNat_le] at hc
    have hlo : 48 ≤ c.toNat := hc.1
    have hhi : c.toNat ≤ 57 := hc.2
    simp only [isWhitespace, Bool.or_eq_false_iff, Bool.and_eq_false_iff, decide_eq_false_iff_not,
      beq_eq_false_iff_ne]
    omega
  · cases h

lemma foldlM_digits
    (h : cs.foldlM (fun n c => (digit c).map (fun d => 10 * n + d)) a = some n) :
    ∀ c ∈ cs, isWhitespace c = false := by
  induction cs generalizing a with
  | nil => simp
  | cons c cs ih =>
    rw [foldlM_cons] at h
    cases hd : digit c with
    | none => simp [hd] at h
    | some d =>
      intro x hx
      rcases mem_cons.mp hx with rfl | hx
      · exact isWhitespace_digit hd
      · exact ih (by simpa [hd] using h) x hx

lemma parseDigits_solid (h : parseDigits cs = some n) : ∀ c ∈ cs, isWhitespace c = false := by
  cases cs with
  | nil => simp
  | cons c cs => exact foldlM_digits h

lemma parseI64_solid (h : parseI64Chars cs = some x) : ∀ c ∈ cs, isWhitespace c = false := by
  simp only [parseI64Chars, filter_eq_some_iff] at h
  obtain ⟨h, _⟩ := h
  split at h
  · obtain ⟨n, hn, _⟩ := map_eq_some_iff.mp h
    exact forall_mem_cons.mpr ⟨by decide, parseDigits_solid hn⟩
  · obtain ⟨n, hn, _⟩ := map_eq_some_iff.mp h
    exact forall_mem_cons.mpr ⟨by decide, parseDigits_solid hn⟩
  · obtain ⟨n, hn, _⟩ := map_eq_some_iff.mp h
    exact parseDigits_solid hn

lemma parseI64_range (h : parseI64 s = some x) : InI64 x := by
  simp only [parseI64, parseI64Chars, filter_eq_some_iff] at h
  exact of_decide_eq_true h.2

lemma trim_of_parse (h : parseI64 s = some x) : trim s = s := by
  rw [trim, trimChars_of_solid (parseI64_solid h), ofList_toList]

end Text

lemma isDigit_of_mem_repr {m : Nat} {c : Char} (h : c ∈ m.repr.toList) : c.isDigit := by
  rw [Nat.repr, toList_ofList] at h
  exact Nat.isDigit_of_mem_toDigits (by decide) (by decide) h

lemma not_mem_toString {c : Char} (hdigit : c.isDigit = false) (hsign : c ≠ '-') (n : Int) :
    c ∉ (toString n).toList := by
  have hrepr : ∀ m : Nat, c ∉ m.repr.toList := by
    intro m h
    rw [isDigit_of_mem_repr h] at hdigit
    cases hdigit
  rw [toString_eq_repr, repr_eq_if]
  split_ifs
  · exact hrepr _
  · rw [toList_append, List.mem_append, not_or]
    exact ⟨by simpa using hsign, hrepr _⟩

lemma eq_of_repr_eq {m n : Nat} (h : m.repr = n.repr) : m = n := by
  have hdigits : Nat.toDigits 10 m = Nat.toDigits 10 n := ofList_injective h
  rw [← Nat.ofDigitChars_toDigits (b := 10) (n := m) (by decide) (by decide), hdigits]
  exact Nat.ofDigitChars_toDigits (by decide) (by decide)

lemma neg_repr_ne (m n : Nat) : "-" ++ m.repr ≠ n.repr := by
  intro h
  have hmem : '-' ∈ n.repr.toList := by
    rw [← h, toList_append]
    exact List.mem_append_left _ (by decide)
  exact absurd (isDigit_of_mem_repr hmem) (by decide)

lemma eq_of_toString_eq {a b : Int} (h : toString a = toString b) : a = b := by
  rw [toString_eq_repr, toString_eq_repr, repr_eq_if, repr_eq_if] at h
  split_ifs at h with ha hb hb
  · have := eq_of_repr_eq h
    omega
  · exact absurd h.symm (neg_repr_ne _ _)
  · exact absurd h (neg_repr_ne _ _)
  · have := eq_of_repr_eq ((String.append_right_inj _).mp h)
    omega

end GrowlerDB.Lib
