import LinuxCpp.C.Memory

set_option autoImplicit false

/- Loops run under a bound on their rounds. A larger bound extends an execution:
it returns at least where the smaller one did, and then the same value. -/
namespace LinuxCpp.C

/-- What the first execution returns, the second returns too. -/
structure Extends {α : Type} (m m' : Except Fault α) : Prop where
  of_ok : ∀ a, m = .ok a → m' = .ok a

namespace Extends

variable {α β : Type} {m m' : Except Fault α} {f f' : α → Except Fault β}

theorem refl (m : Except Fault α) : Extends m m := ⟨fun _ returned => returned⟩

/-- Where the bound was too small there is nothing to extend. -/
theorem error (e : Fault) (m : Except Fault α) : Extends (.error e) m := by
  refine ⟨fun a returned => ?_⟩
  cases returned

theorem bind (first : Extends m m') (next : ∀ a, Extends (f a) (f' a)) :
    Extends (m >>= f) (m' >>= f') := by
  refine ⟨fun b returned => ?_⟩
  cases value : m with
  | error e =>
      rw [value] at returned
      cases returned
  | ok a =>
      rw [value] at returned
      rw [first.of_ok a value]
      exact (next a).of_ok b returned

/-- A common first step. -/
theorem after (next : ∀ a, Extends (f a) (f' a)) : Extends (m >>= f) (m >>= f') :=
  bind (refl m) next

theorem ite {c : Prop} [Decidable c] {m₁ m₂ m₁' m₂' : Except Fault α} (yes : Extends m₁ m₁')
    (no : Extends m₂ m₂') : Extends (if c then m₁ else m₂) (if c then m₁' else m₂') := by
  split
  · exact yes
  · exact no

end Extends

/-- The same, in every allocator state. -/
structure ExtendsM {α : Type} (m m' : CM α) : Prop where
  run : ∀ A, Extends (m A) (m' A)

namespace ExtendsM

variable {α β : Type} {m m' : CM α} {f f' : α → CM β}

theorem refl (m : CM α) : ExtendsM m m := ⟨fun A => .refl (m A)⟩

theorem bind (first : ExtendsM m m') (next : ∀ a, ExtendsM (f a) (f' a)) :
    ExtendsM (m >>= f) (m' >>= f') :=
  ⟨fun A => (first.run A).bind fun r => (next r.1).run r.2⟩

theorem after (next : ∀ a, ExtendsM (f a) (f' a)) : ExtendsM (m >>= f) (m >>= f') :=
  bind (refl m) next

theorem lift {m m' : Except Fault α} (extended : Extends m m') :
    ExtendsM (liftM m : CM α) (liftM m') := by
  refine ⟨fun A => ⟨fun r returned => ?_⟩⟩
  cases value : m with
  | error e =>
      rw [value] at returned
      cases returned
  | ok a =>
      rw [value] at returned
      rw [extended.of_ok a value]
      exact returned

theorem ite {c : Prop} [Decidable c] {m₁ m₂ m₁' m₂' : CM α} (yes : ExtendsM m₁ m₁')
    (no : ExtendsM m₂ m₂') : ExtendsM (if c then m₁ else m₂) (if c then m₁' else m₂') := by
  split
  · exact yes
  · exact no

end ExtendsM

end LinuxCpp.C
