import Mathlib.Data.List.Lex
import Mathlib.Order.Basic
import Mathlib.Order.Lattice
import Mathlib.Algebra.Group.Int.Defs
import Mathlib.Algebra.GroupWithZero.Nat
import Mathlib.Data.List.Infix

set_option autoImplicit false

namespace LinuxCpp.C

/-- What ends an execution other than a return. `killed` is a signal that nobody handles, and
`blocked` a call that never returns. `fuel` is not an event of the program: it says that the
bound given to a loop of the model was used up. -/
inductive Fault where
  | nullDeref
  | wildDeref
  | useAfterFree
  | outOfBounds
  | unterminated
  | overflow
  | abort
  | killed
  | blocked
  | race
  | fuel
deriving DecidableEq, Repr

/-- The bytes of a NUL-terminated string, without the terminator. -/
structure CStr where
  bytes : List UInt8
  noNul : (0 : UInt8) ∉ bytes
deriving DecidableEq, Repr

namespace CStr

@[ext] theorem ext {s t : CStr} (same : s.bytes = t.bytes) : s = t := by
  cases s
  cases t
  cases same
  rfl

def length (s : CStr) : Nat := s.bytes.length

instance : LinearOrder CStr :=
  LinearOrder.lift' (fun s : CStr => s.bytes.map UInt8.toNat) (by
    intro s t same
    exact CStr.ext (List.map_injective_iff.mpr (fun _ _ => UInt8.toNat_inj.mp) same))

end CStr

/-- The first differing byte decides, as an unsigned difference; the list ends
where the terminator stands. -/
def strcmpBytes : List UInt8 → List UInt8 → Int
  | [], [] => 0
  | [], b :: _ => 0 - (b.toNat : Int)
  | a :: _, [] => a.toNat
  | a :: s, b :: t => if a = b then strcmpBytes s t else (a.toNat : Int) - b.toNat

def strcmp (s t : CStr) : Int := strcmpBytes s.bytes t.bytes

private theorem toNat_pos_of_ne {a : UInt8} (nonzero : a ≠ 0) : 0 < a.toNat := by
  have : a.toNat ≠ 0 := fun zero => nonzero (UInt8.toNat_inj.mp zero)
  omega

theorem strcmpBytes_eq_zero (s t : List UInt8) (hs : (0 : UInt8) ∉ s) (ht : (0 : UInt8) ∉ t) :
    strcmpBytes s t = 0 ↔ s = t := by
  induction s generalizing t with
  | nil =>
      cases t with
      | nil => simp [strcmpBytes]
      | cons b t =>
          have positive := toNat_pos_of_ne (a := b) (by rintro rfl; simp at ht)
          simp only [strcmpBytes, reduceCtorEq, iff_false]
          omega
  | cons a s ih =>
      cases t with
      | nil =>
          have positive := toNat_pos_of_ne (a := a) (by rintro rfl; simp at hs)
          simp only [strcmpBytes, reduceCtorEq, iff_false]
          omega
      | cons b t =>
          simp only [List.mem_cons, not_or] at hs ht
          by_cases same : a = b
          · simp [strcmpBytes, same, ih t hs.2 ht.2]
          · have different : a.toNat ≠ b.toNat := fun h => same (UInt8.toNat_inj.mp h)
            simp only [strcmpBytes, same, ↓reduceIte, List.cons.injEq, false_and, iff_false]
            omega

theorem strcmpBytes_neg (s t : List UInt8) (hs : (0 : UInt8) ∉ s) (ht : (0 : UInt8) ∉ t) :
    strcmpBytes s t < 0 ↔ s.map UInt8.toNat < t.map UInt8.toNat := by
  induction s generalizing t with
  | nil =>
      cases t with
      | nil => simp [strcmpBytes]
      | cons b t =>
          have positive := toNat_pos_of_ne (a := b) (by rintro rfl; simp at ht)
          simp only [strcmpBytes, List.map_nil, List.map_cons, List.nil_lt_cons, iff_true]
          omega
  | cons a s ih =>
      cases t with
      | nil =>
          simp only [strcmpBytes, List.map_nil, List.map_cons, List.not_lt_nil, iff_false]
          omega
      | cons b t =>
          simp only [List.mem_cons, not_or] at hs ht
          rw [List.map_cons, List.map_cons, List.cons_lt_cons_iff]
          by_cases same : a = b
          · simp [strcmpBytes, same, ih t hs.2 ht.2]
          · have different : a.toNat ≠ b.toNat := fun h => same (UInt8.toNat_inj.mp h)
            simp only [strcmpBytes, same, ↓reduceIte, different, false_and, or_false]
            omega

@[simp] theorem strcmp_eq_zero (s t : CStr) : strcmp s t = 0 ↔ s = t := by
  rw [strcmp, strcmpBytes_eq_zero _ _ s.noNul t.noNul]
  exact ⟨CStr.ext, congrArg CStr.bytes⟩

@[simp] theorem strcmp_neg (s t : CStr) : strcmp s t < 0 ↔ s < t :=
  strcmpBytes_neg _ _ s.noNul t.noNul

/-- The sign of `strcmp` is the lexicographic order of unsigned bytes. -/
@[simp] theorem strcmp_pos (s t : CStr) : 0 < strcmp s t ↔ t < s := by
  have zero := strcmp_eq_zero s t
  have negative := strcmp_neg s t
  constructor
  · intro positive
    rcases lt_trichotomy s t with below | same | above
    · have := negative.mpr below
      omega
    · have := zero.mpr same
      omega
    · exact above
  · intro above
    have notZero : strcmp s t ≠ 0 := fun h => above.ne' (zero.mp h)
    have notNegative : ¬ strcmp s t < 0 := fun h => lt_asymm above (negative.mp h)
    omega

end LinuxCpp.C
