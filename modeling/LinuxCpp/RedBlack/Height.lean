import Mathlib.Algebra.Group.Nat.Defs
import Mathlib.Data.Nat.Log
import LinuxCpp.RedBlack.Tree

set_option autoImplicit false

/- How deep a valid red-black tree is. -/
namespace LinuxCpp.RedBlack.ColorTree

variable {α : Type} {t : ColorTree α} {n : Nat}

def height : ColorTree α → Nat
  | leaf => 0
  | node _ left _ right => max left.height right.height + 1

/-- The black nodes alone are a full tree. -/
theorem two_pow_le_size (balanced : t.BlackHeight n) : 2 ^ n ≤ t.size + 1 := by
  induction t generalizing n with
  | leaf =>
      obtain rfl : n = 0 := balanced
      exact Nat.le_refl _
  | node color left item right ihl ihr =>
      obtain ⟨m, rfl, heightLeft, heightRight⟩ := balanced
      have smaller := ihl heightLeft
      have larger := ihr heightRight
      have double : 2 ^ (m + color.weight) ≤ 2 ^ m + 2 ^ m := by
        rw [← Nat.two_mul, ← Nat.pow_succ']
        refine Nat.pow_le_pow_right (by decide) ?_
        cases color with
        | red => exact Nat.le_succ m
        | black => exact Nat.le_refl _
      rw [size]
      omega

/-- A red node lies below a black one. -/
theorem height_add_weight_le (noRedRed : t.NoRedRed) (balanced : t.BlackHeight n) :
    t.height + t.rootColor.weight ≤ 2 * n + 1 := by
  induction t generalizing n with
  | leaf =>
      obtain rfl : n = 0 := balanced
      exact Nat.le_refl _
  | node color left item right ihl ihr =>
      obtain ⟨m, rfl, heightLeft, heightRight⟩ := balanced
      obtain ⟨blackChildren, noLeft, noRight⟩ := noRedRed
      have smaller := ihl noLeft heightLeft
      have larger := ihr noRight heightRight
      rw [height, rootColor]
      cases color with
      | red =>
          obtain ⟨blackLeft, blackRight⟩ := blackChildren rfl
          rw [blackLeft, Color.weight] at smaller
          rw [blackRight, Color.weight] at larger
          simp only [Color.weight]
          omega
      | black =>
          simp only [Color.weight]
          omega

theorem Valid.height_le (valid : t.Valid) : t.height ≤ 2 * Nat.log 2 (t.size + 1) := by
  obtain ⟨n, balanced⟩ := valid.balanced
  have tall := height_add_weight_le valid.noRedRed balanced
  have wide := Nat.le_log_of_pow_le Nat.one_lt_two (two_pow_le_size balanced)
  rw [valid.root, Color.weight] at tall
  omega

end LinuxCpp.RedBlack.ColorTree
