import LinuxCpp.C.Bytes
import Mathlib.Data.Nat.ModEq
import Mathlib.Algebra.BigOperators.Group.List.Basic

set_option autoImplicit false

/- Sums with an end-around carry. Modulo `m` such a sum is the plain sum; only a sum of
nothing but zeros is zero, every other multiple of `m` is `m` itself. -/
namespace LinuxCpp.C

/-- The number up to `m` that a sum comes to once all carries are added to it. -/
def residue (m sum : Nat) : Nat := if sum = 0 then 0 else (sum - 1) % m + 1

section Residues

variable {m : Nat}

@[simp] theorem residue_zero (m : Nat) : residue m 0 = 0 := rfl

theorem residue_succ (m sum : Nat) : residue m (sum + 1) = sum % m + 1 := rfl

theorem residue_le (positive : 0 < m) (sum : Nat) : residue m sum ≤ m := by
  cases sum with
  | zero => exact Nat.zero_le m
  | succ sum => exact Nat.mod_lt sum positive

theorem residue_of_le {sum : Nat} (small : sum ≤ m) : residue m sum = sum := by
  cases sum with
  | zero => rfl
  | succ sum => rw [residue_succ, Nat.mod_eq_of_lt small]

/-- Multiples of `m` do not count, except that they are not nothing. -/
theorem residue_add_mul {sum : Nat} (positive : 0 < sum) (k : Nat) :
    residue m (sum + m * k) = residue m sum := by
  obtain ⟨sum, rfl⟩ := Nat.exists_eq_add_of_lt positive
  have moved : 0 + sum + 1 + m * k = sum + m * k + 1 := by omega
  rw [moved, residue_succ, Nat.add_mul_mod_self_left, Nat.zero_add, residue_succ]

/-- What was carried around before. -/
theorem residue_residue_add (m a b : Nat) :
    residue m (residue m a + b) = residue m (a + b) := by
  cases a with
  | zero => rw [residue_zero]
  | succ a =>
      have split := Nat.mod_add_div a m
      have whole : a + 1 + b = a % m + 1 + b + m * (a / m) := by omega
      rw [residue_succ, whole, residue_add_mul (by omega)]

/-- One end-around carry. -/
theorem residue_carry (m sum : Nat) :
    residue m (sum % (m + 1) + sum / (m + 1)) = residue m sum := by
  have split := Nat.mod_add_div sum (m + 1)
  have whole : sum = sum % (m + 1) + sum / (m + 1) + m * (sum / (m + 1)) := by
    rw [Nat.add_mul, Nat.one_mul] at split
    omega
  rcases Nat.eq_zero_or_pos (sum % (m + 1) + sum / (m + 1)) with zero | positive
  · have high : sum / (m + 1) = 0 := (Nat.add_eq_zero_iff.mp zero).2
    have none : sum = 0 := by rw [whole, zero, high, Nat.mul_zero]
    rw [none, Nat.zero_mod, Nat.zero_div]
  · rw [← residue_add_mul positive (sum / (m + 1)), ← whole]

/-- A sum and its complement are all ones. -/
theorem residue_complement (positive : 0 < m) (sum : Nat) :
    residue m (sum + (m - residue m sum)) = m := by
  have bound := residue_le positive sum
  rw [← residue_residue_add, Nat.add_sub_cancel' bound, residue_of_le (Nat.le_refl m)]

/-- A carry makes a sum smaller that does not fit yet. -/
theorem carry_lt {base sum : Nat} (wide : 1 < base) (large : base ≤ sum) :
    sum % base + sum / base < sum := by
  have positive : 0 < sum / base := Nat.div_pos large (by omega)
  have split := Nat.mod_add_div sum base
  have more : sum / base * 2 ≤ base * (sum / base) := by
    rw [Nat.mul_comm base]
    exact Nat.mul_le_mul_left (sum / base) wide
  omega

end Residues

/-- The aligned words of two bytes, in little-endian order. -/
def wordsOf : List UInt8 → List UInt16
  | low :: high :: rest => .ofNat (numberOf [low, high]) :: wordsOf rest
  | _ => []

/-- What is left behind the last word: a byte or nothing. -/
def oddByte : List UInt8 → List UInt8
  | _ :: _ :: rest => oddByte rest
  | rest => rest

/-- The plain sum of the words and the byte behind them. -/
def wordSum (bytes : List UInt8) : Nat :=
  ((wordsOf bytes).map UInt16.toNat).sum + numberOf (oddByte bytes)

section Words

variable {bytes bytes' : List UInt8}

@[simp] theorem wordSum_nil : wordSum [] = 0 := rfl

@[simp] theorem wordSum_one (byte : UInt8) : wordSum [byte] = byte.toNat := by
  simp [wordSum, wordsOf, oddByte, numberOf]

theorem numberOf_pair_lt (low high : UInt8) : numberOf [low, high] < 65536 := by
  have first := low.toNat_lt
  have second := high.toNat_lt
  simp only [numberOf]
  omega

theorem wordSum_cons (low high : UInt8) (rest : List UInt8) :
    wordSum (low :: high :: rest) = numberOf [low, high] + wordSum rest := by
  have word : (UInt16.ofNat (numberOf [low, high])).toNat = numberOf [low, high] :=
    UInt16.toNat_ofNat_of_lt' (numberOf_pair_lt low high)
  rw [wordSum, wordsOf, oddByte, List.map_cons, List.sum_cons, word, Nat.add_assoc]
  rfl

/-- Words do not overlap a boundary at an even offset. -/
theorem wordSum_append {front : List UInt8} (even : 2 ∣ front.length) (back : List UInt8) :
    wordSum (front ++ back) = wordSum front + wordSum back := by
  induction front using wordsOf.induct with
  | case1 low high rest ih =>
      have shorter : 2 ∣ rest.length := (Nat.dvd_add_left (Nat.dvd_refl 2)).mp even
      rw [List.cons_append, List.cons_append, wordSum_cons, wordSum_cons, ih shorter,
        Nat.add_assoc]
  | case2 rest short =>
      cases rest with
      | nil => exact (Nat.zero_add _).symm
      | cons low rest =>
          cases rest with
          | nil => exact absurd even (by simp)
          | cons high rest => exact absurd rfl (short low high rest)

theorem wordSum_bytesOf (n : UInt16) : wordSum (bytesOf 2 n.toNat) = n.toNat := by
  have small := n.toNat_lt
  have number := numberOf_bytesOf 2 n.toNat
  rw [Nat.mod_eq_of_lt (by exact small)] at number
  rw [bytesOf, bytesOf, bytesOf, wordSum_cons, wordSum_nil, Nat.add_zero]
  exact number

/-- The order of the words does not count. -/
theorem wordSum_perm (words : (wordsOf bytes).Perm (wordsOf bytes'))
    (odd : oddByte bytes = oddByte bytes') : wordSum bytes = wordSum bytes' := by
  rw [wordSum, wordSum, odd, (words.map UInt16.toNat).sum_eq]

/-- The sum of as many bytes as memory holds stays far below the range of a `long`. -/
theorem wordSum_le (bytes : List UInt8) : wordSum bytes ≤ 65535 * (bytes.length + 1) := by
  induction bytes using wordsOf.induct with
  | case1 low high rest ih =>
      have bound := numberOf_pair_lt low high
      rw [wordSum_cons, List.length_cons, List.length_cons]
      omega
  | case2 rest short =>
      cases rest with
      | nil => exact Nat.zero_le _
      | cons low rest =>
          cases rest with
          | nil =>
              have small := low.toNat_lt
              rw [wordSum_one]
              simp only [List.length_singleton]
              omega
          | cons high rest => exact absurd rfl (short low high rest)

end Words

end LinuxCpp.C
