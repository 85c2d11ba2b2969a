import Mathlib.Algebra.GroupWithZero.Nat
import Mathlib.Data.List.Basic

namespace GrowlerDB.Lib.Slice
open List Option

variable {c : Char} {cs : List Char}

def byteLen (cs : List Char) : Nat := (cs.map Char.utf8Size).sum

def takeBytes : List Char → Nat → Option (List Char)
  | _, 0 => some []
  | [], _ + 1 => none
  | c :: cs, n + 1 => if c.utf8Size ≤ n + 1 then (takeBytes cs (n + 1 - c.utf8Size)).map (c :: ·) else none

def dropBytes : List Char → Nat → Option (List Char)
  | cs, 0 => some cs
  | [], _ + 1 => none
  | c :: cs, n + 1 => if c.utf8Size ≤ n + 1 then dropBytes cs (n + 1 - c.utf8Size) else none

def slice (cs : List Char) (lo hi : Nat) : Option (List Char) := (takeBytes cs hi).bind (dropBytes · lo)

def findByte (c : Char) : List Char → Option Nat
  | [] => none
  | d :: ds => if d = c then some 0 else (findByte c ds).map (d.utf8Size + ·)

def rfindByte (c : Char) : List Char → Option Nat
  | [] => none
  | d :: ds =>
    match rfindByte c ds with
    | some i => some (d.utf8Size + i)
    | none => if d = c then some 0 else none

@[simp] lemma byteLen_nil : byteLen [] = 0 := rfl

@[simp] lemma byteLen_cons (c : Char) (cs : List Char) : byteLen (c :: cs) = c.utf8Size + byteLen cs := rfl

@[simp] lemma byteLen_append (xs ys : List Char) : byteLen (xs ++ ys) = byteLen xs + byteLen ys := by
  rw [byteLen, map_append, sum_append, byteLen, byteLen]

lemma byteLen_split (c : Char) (xs : List Char) :
    ∃ n, byteLen (c :: xs) = n + 1 ∧ c.utf8Size ≤ n + 1 ∧ n + 1 - c.utf8Size = byteLen xs := by
  have := c.utf8Size_pos
  exact ⟨byteLen (c :: xs) - 1, by rw [byteLen_cons]; omega⟩

lemma takeBytes_append (xs ys : List Char) : takeBytes (xs ++ ys) (byteLen xs) = some xs := by
  induction xs with
  | nil => cases ys <;> rfl
  | cons c xs ih =>
    obtain ⟨n, hn, hle, hrest⟩ := byteLen_split c xs
    rw [hn, cons_append, takeBytes, if_pos hle, hrest, ih, map_some]

lemma dropBytes_append (xs ys : List Char) : dropBytes (xs ++ ys) (byteLen xs) = some ys := by
  induction xs with
  | nil => cases ys <;> rfl
  | cons c xs ih =>
    obtain ⟨n, hn, hle, hrest⟩ := byteLen_split c xs
    rw [hn, cons_append, dropBytes, if_pos hle, hrest, ih]

lemma dropBytes_after (xs : List Char) (c : Char) (ys : List Char) :
    dropBytes (xs ++ c :: ys) (byteLen xs + c.utf8Size) = some ys := by
  have := dropBytes_append (xs ++ [c]) ys
  simpa using this

lemma slice_inner (c : Char) (xs : List Char) (d : Char) :
    slice (c :: (xs ++ [d])) c.utf8Size (byteLen (c :: (xs ++ [d])) - d.utf8Size) = some xs := by
  have hlen : byteLen (c :: (xs ++ [d])) - d.utf8Size = byteLen (c :: xs) := by simp [← Nat.add_assoc]
  have htake := takeBytes_append (c :: xs) [d]
  have hdrop := dropBytes_append [c] xs
  simp only [cons_append, nil_append, byteLen_cons, byteLen_nil, Nat.add_zero] at htake hdrop
  rw [slice, hlen, byteLen_cons, htake, bind_some, hdrop]

lemma findByte_eq_none (h : c ∉ cs) : findByte c cs = none := by
  induction cs with
  | nil => rfl
  | cons d ds ih =>
    obtain ⟨hne, hds⟩ := not_or.mp (mt mem_cons.mpr h)
    rw [findByte, if_neg (Ne.symm hne), ih hds, map_none]

lemma findByte_append (h : c ∉ xs) (ys : List Char) : findByte c (xs ++ c :: ys) = some (byteLen xs) := by
  induction xs with
  | nil => simp [findByte]
  | cons d ds ih =>
    obtain ⟨hne, hds⟩ := not_or.mp (mt mem_cons.mpr h)
    rw [cons_append, findByte, if_neg (Ne.symm hne), ih hds, map_some, byteLen_cons]

lemma rfindByte_eq_none (h : c ∉ cs) : rfindByte c cs = none := by
  induction cs with
  | nil => rfl
  | cons d ds ih =>
    obtain ⟨hne, hds⟩ := not_or.mp (mt mem_cons.mpr h)
    rw [rfindByte, ih hds]
    exact if_neg (Ne.symm hne)

lemma rfindByte_append (xs : List Char) (h : c ∉ ys) : rfindByte c (xs ++ c :: ys) = some (byteLen xs) := by
  induction xs with
  | nil => simp [rfindByte, rfindByte_eq_none h]
  | cons d ds ih => rw [cons_append, rfindByte, ih, byteLen_cons]

end GrowlerDB.Lib.Slice
