import LinuxCpp.C.Memory

set_option autoImplicit false

/- Code that does not end in one kind of fault. The rules follow the shape of a `do`
block. -/
namespace LinuxCpp.C

/-- Without allocation: neither step ends in the fault. -/
theorem bind_ne_error {α β : Type} {fault : Fault} {m : Except Fault α} {f : α → Except Fault β}
    (first : m ≠ .error fault) (next : ∀ a, m = .ok a → f a ≠ .error fault) :
    (m >>= f) ≠ .error fault := by
  cases run : m with
  | error other =>
      intro failed
      cases failed
      exact first run
  | ok a => exact next a run

theorem pure_ne_error {α : Type} {fault : Fault} (a : α) :
    (pure a : Except Fault α) ≠ .error fault :=
  fun failed => nomatch failed

/-- The run from this allocator state does not end in the fault. -/
def Avoids {α : Type} (fault : Fault) (m : CM α) (A : Allocator) : Prop := m A ≠ .error fault

namespace Avoids

variable {α β : Type} {fault : Fault} {m : CM α} {f : α → CM β} {A : Allocator}

theorem pure (a : α) : Avoids fault (Pure.pure a : CM α) A := fun failed => nomatch failed

theorem throw {other : Fault} (differs : other ≠ fault) :
    Avoids fault (MonadExcept.throw other : CM α) A := by
  intro failed
  cases failed
  exact differs rfl

theorem of_ok {a : α} {B : Allocator} (ran : m A = .ok (a, B)) : Avoids fault m A := by
  intro failed
  cases ran.symm.trans failed

theorem bind (first : Avoids fault m A) (next : ∀ a B, m A = .ok (a, B) → Avoids fault (f a) B) :
    Avoids fault (m >>= f) A := by
  intro failed
  cases run : m A with
  | error e =>
      rw [bind_error run] at failed
      cases failed
      exact first run
  | ok done =>
      obtain ⟨a, B⟩ := done
      rw [bind_ok run] at failed
      exact next a B run failed

/-- A step without allocation. -/
theorem after {m : Except Fault α} (first : m ≠ .error fault)
    (next : ∀ a, m = .ok a → Avoids fault (f a) A) :
    Avoids fault ((liftM m : CM α) >>= f) A := by
  intro failed
  cases run : m with
  | error e =>
      rw [lift_bind_error run] at failed
      cases failed
      exact first run
  | ok a =>
      rw [lift_bind_ok run] at failed
      exact next a run failed

theorem ite {c : Prop} [Decidable c] {m' : CM α} (yes : c → Avoids fault m A)
    (no : ¬ c → Avoids fault m' A) : Avoids fault (if c then m else m') A := by
  split
  · exact yes ‹_›
  · exact no ‹_›

/-- A `malloc` in front, refused or granted. -/
theorem malloc {f : Option Nat → CM β}
    (refused : A.grants A.calls = false → Avoids fault (f none) A.next)
    (granted : A.grants A.calls = true → Avoids fault (f (some (A.calls + 1))) A.next) :
    Avoids fault (malloc >>= f) A := by
  refine bind (fun failed => ?_) fun block B ran => ?_
  · cases failed
  cases ran
  cases grants : A.grants A.calls with
  | false => exact refused grants
  | true => exact granted grants

end Avoids

/-- Pointers to strings lead nowhere near an array. -/
theorem deref_inside (p : CPtr) : p.deref ≠ .error .outOfBounds := by
  cases p <;> simp [CPtr.deref]

theorem free_inside (p : CPtr) (A : Allocator) : Avoids .outOfBounds (free p) A := by
  cases p <;> exact fun failed => nomatch failed

theorem strdup_inside (s : CStr) (A : Allocator) : Avoids .outOfBounds (strdup s) A :=
  .malloc (fun _ => .pure _) fun _ => .pure _

end LinuxCpp.C
