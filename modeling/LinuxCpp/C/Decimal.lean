import Mathlib.Data.Nat.Digits.Lemmas
import LinuxCpp.C.Strings

set_option autoImplicit false

/- The text that `%d` prints for a number that is not negative. -/
namespace LinuxCpp.C

def decimalDigit (d : Nat) : UInt8 := 48 + d.toUInt8

def decimal (n : Nat) : List UInt8 :=
  if n = 0 then [48] else (Nat.digits 10 n).reverse.map decimalDigit

/-- The number that a text of digits stands for. -/
def ofDecimal (text : List UInt8) : Nat := text.foldl (fun n b => n * 10 + (b.toNat - 48)) 0

theorem toNat_decimalDigit {d : Nat} (digit : d < 10) : (decimalDigit d).toNat = 48 + d := by
  have small : d.toUInt8.toNat = d := by
    simp only [Nat.toUInt8, UInt8.toNat_ofNat']
    omega
  rw [decimalDigit, UInt8.toNat_add, small]
  simp only [UInt8.toNat_ofNat]
  omega

theorem decimal_digit {n : Nat} {b : UInt8} (member : b ∈ decimal n) :
    48 ≤ b.toNat ∧ b.toNat < 58 := by
  rw [decimal] at member
  split at member
  · rw [List.mem_singleton.mp member]
    decide
  · obtain ⟨d, inside, rfl⟩ := List.mem_map.mp member
    have digit : d < 10 := Nat.digits_lt_base (by decide) (List.mem_reverse.mp inside)
    rw [toNat_decimalDigit digit]
    omega

theorem not_mem_decimal {n : Nat} {b : UInt8} (noDigit : b.toNat < 48 ∨ 58 ≤ b.toNat) :
    b ∉ decimal n := by
  intro member
  have digit := decimal_digit member
  omega

theorem decimal_ne_nil (n : Nat) : decimal n ≠ [] := by
  rw [decimal]
  split
  · simp
  · rename_i positive
    simpa [Nat.digits_ne_nil_iff_ne_zero] using positive

private theorem foldr_decimalDigit {digits : List Nat} (all : ∀ d ∈ digits, d < 10) :
    digits.foldr (fun d n => n * 10 + ((decimalDigit d).toNat - 48)) 0 =
      Nat.ofDigits 10 digits := by
  induction digits with
  | nil => rfl
  | cons d digits ih =>
      rw [List.foldr_cons, ih fun d member => all d (List.mem_cons_of_mem _ member),
        toNat_decimalDigit (all d List.mem_cons_self), Nat.ofDigits_cons]
      omega

theorem ofDecimal_decimal (n : Nat) : ofDecimal (decimal n) = n := by
  rw [decimal]
  split
  · rename_i zero
    rw [zero]
    rfl
  · have all : ∀ d ∈ Nat.digits 10 n, d < 10 := fun d => Nat.digits_lt_base (by decide)
    rw [ofDecimal, List.foldl_map, List.foldl_reverse, foldr_decimalDigit all,
      Nat.ofDigits_digits]

theorem decimal_injective : Function.Injective decimal :=
  Function.LeftInverse.injective ofDecimal_decimal

/-- An `int` has at most ten digits. -/
theorem decimal_length {n : Nat} (int : n < 2 ^ 31) : (decimal n).length ≤ 10 := by
  rw [decimal]
  split
  · decide
  · rw [List.length_map, List.length_reverse, Nat.digits_length_le_iff (by decide)]
    omega

end LinuxCpp.C
