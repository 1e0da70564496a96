import LinuxCpp.C.Memory

set_option autoImplicit false

/- Executions over two memories that differ only in what fresh blocks contain. The rules
follow the shape of a `do` block. -/
namespace LinuxCpp.C

/-- The same allocator with other contents in its fresh blocks. -/
def Allocator.refilled (A : Allocator) (junk : Nat → Nat → Nat) : Allocator :=
  { A with junk := junk }

/-- Both return, with related values and equal allocators up to the contents of fresh
blocks, or both fault alike. -/
inductive Meets {α β : Type} (rel : α → β → Prop) (junk : Nat → Nat → Nat) :
    Except Fault (α × Allocator) → Except Fault (β × Allocator) → Prop where
  | returned (a : α) (b : β) (B : Allocator) (related : rel a b) :
      Meets rel junk (.ok (a, B)) (.ok (b, B.refilled junk))
  | faulted (fault : Fault) : Meets rel junk (.error fault) (.error fault)

/-- From every allocator, whatever its fresh blocks contain. -/
structure Blind {α β : Type} (rel : α → β → Prop) (m : CM α) (m' : CM β) : Prop where
  meets : ∀ A junk, Meets rel junk (m A) (m' (A.refilled junk))

namespace Blind

variable {α β γ δ : Type} {rel : α → β → Prop}

theorem pure {a : α} {b : β} (related : rel a b) :
    Blind rel (Pure.pure a : CM α) (Pure.pure b) :=
  ⟨fun A _ => .returned a b A related⟩

theorem bind {mid : γ → δ → Prop} {m : CM γ} {m' : CM δ} {f : γ → CM α} {f' : δ → CM β}
    (first : Blind mid m m') (next : ∀ c d, mid c d → Blind rel (f c) (f' d)) :
    Blind rel (m >>= f) (m' >>= f') := by
  refine ⟨fun A junk => ?_⟩
  have step := first.meets A junk
  generalize run : m A = outcome at step
  generalize run' : m' (A.refilled junk) = outcome' at step
  cases step with
  | returned c d B related =>
      rw [bind_ok run, bind_ok run']
      exact (next c d related).meets B junk
  | faulted fault =>
      rw [bind_error run, bind_error run']
      exact .faulted fault

theorem malloc : Blind (· = ·) malloc malloc :=
  ⟨fun A _ => .returned _ _ A.next rfl⟩

theorem lift (m : Except Fault γ) : Blind (· = ·) (liftM m : CM γ) (liftM m) := by
  refine ⟨fun A junk => ?_⟩
  cases m with
  | error fault => exact .faulted fault
  | ok c => exact .returned c c A rfl

/-- Nothing is known about the words of a fresh block. -/
theorem junkOf (block : Nat) : Blind (fun _ _ => True) (junkOf block) (junkOf block) :=
  ⟨fun A _ => .returned _ _ A trivial⟩

theorem ite {p : Prop} [Decidable p] {m₁ m₂ : CM α} {m₁' m₂' : CM β} (yes : p → Blind rel m₁ m₁')
    (no : ¬ p → Blind rel m₂ m₂') : Blind rel (if p then m₁ else m₂) (if p then m₁' else m₂') := by
  split
  · exact yes ‹_›
  · exact no ‹_›

/-- A value that does not depend on the contents of fresh blocks. -/
theorem same {m : CM α} (blind : Blind (· = ·) m m) (A : Allocator) (junk : Nat → Nat → Nat) :
    (m (A.refilled junk)).map Prod.fst = (m A).map Prod.fst := by
  have step := blind.meets A junk
  generalize m A = outcome at step
  generalize m (A.refilled junk) = outcome' at step
  cases step with
  | returned a b B related => exact congrArg Except.ok related.symm
  | faulted fault => rfl

end Blind

end LinuxCpp.C
