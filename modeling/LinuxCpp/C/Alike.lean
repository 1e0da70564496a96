import LinuxCpp.C.Memory

set_option autoImplicit false

/- Two executions from one allocator state that end in the same way. The rules
follow the shape of a `do` block. -/
namespace LinuxCpp.C

/-- Both return, with related values and the same allocator, or both fault alike. -/
inductive Ends {α β : Type} (rel : α → β → Prop) :
    Except Fault (α × Allocator) → Except Fault (β × Allocator) → Prop where
  | returned (a : α) (b : β) (B : Allocator) (related : rel a b) :
      Ends rel (.ok (a, B)) (.ok (b, B))
  | faulted (fault : Fault) : Ends rel (.error fault) (.error fault)

def Alike {α β : Type} (rel : α → β → Prop) (m : CM α) (m' : CM β) (A : Allocator) : Prop :=
  Ends rel (m A) (m' A)

namespace Alike

variable {α β γ : Type} {rel : α → β → Prop} {A : Allocator}

theorem pure {a : α} {b : β} (related : rel a b) :
    Alike rel (Pure.pure a : CM α) (Pure.pure b) A :=
  .returned a b A related

theorem bind {γ' : Type} {mid : γ → γ' → Prop} {m : CM γ} {m' : CM γ'} {f : γ → CM α}
    {f' : γ' → CM β} (first : Alike mid m m' A)
    (next : ∀ c c' B, mid c c' → Alike rel (f c) (f' c') B) :
    Alike rel (m >>= f) (m' >>= f') A := by
  unfold Alike at first ⊢
  generalize run : m A = outcome at first
  generalize run' : m' A = outcome' at first
  cases first with
  | returned c c' B related =>
      rw [bind_ok run, bind_ok run']
      exact next c c' B related
  | faulted fault =>
      rw [bind_error run, bind_error run']
      exact .faulted fault

/-- A common first step. -/
theorem after {m : CM γ} {f : γ → CM α} {f' : γ → CM β}
    (next : ∀ c B, m A = .ok (c, B) → Alike rel (f c) (f' c) B) :
    Alike rel (m >>= f) (m >>= f') A := by
  unfold Alike
  cases run : m A with
  | error fault =>
      rw [bind_error run, bind_error run]
      exact .faulted fault
  | ok done =>
      obtain ⟨c, B⟩ := done
      rw [bind_ok run, bind_ok run]
      exact next c B run

/-- A step without allocation in front of each. -/
theorem lift {m m' : Except Fault γ} {f : γ → CM α} {f' : γ → CM β}
    (faults : ∀ fault, m = .error fault ↔ m' = .error fault)
    (next : ∀ c c', m = .ok c → m' = .ok c' → Alike rel (f c) (f' c') A) :
    Alike rel ((liftM m : CM γ) >>= f) ((liftM m' : CM γ) >>= f') A := by
  unfold Alike
  cases run : m with
  | error fault =>
      rw [lift_bind_error rfl, lift_bind_error ((faults fault).mp run)]
      exact .faulted fault
  | ok c =>
      cases run' : m' with
      | error fault =>
          rw [(faults fault).mpr run'] at run
          cases run
      | ok c' =>
          rw [lift_bind_ok rfl, lift_bind_ok rfl]
          exact next c c' run run'

theorem ite {p : Prop} [Decidable p] {m₁ m₂ : CM α} {m₁' m₂' : CM β}
    (yes : p → Alike rel m₁ m₁' A) (no : ¬ p → Alike rel m₂ m₂' A) :
    Alike rel (if p then m₁ else m₂) (if p then m₁' else m₂') A := by
  split
  · exact yes ‹_›
  · exact no ‹_›

end Alike

end LinuxCpp.C
