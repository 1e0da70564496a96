import LinuxCpp.C.Memory

set_option autoImplicit false

/- What a refused `malloc` changes: a run is compared with the run of the same
code in which the allocator grants every call. -/
namespace LinuxCpp.C

/-- The same allocator, with every call granted. -/
def Allocator.granting (A : Allocator) : Allocator := { A with grants := fun _ => true }

theorem Allocator.granting_allSucceed (A : Allocator) : A.granting.AllSucceed := fun _ => rfl

/-- The code runs as if every call were granted. -/
def Unrefused {α : Type} (code : CM α) (A : Allocator) : Prop :=
  code A.granting = (code A).map fun done => (done.1, done.2.granting)

namespace Unrefused

variable {α β : Type} {code : CM α} {next : α → CM β} {A : Allocator}

theorem pure (value : α) : Unrefused (pure value) A := rfl

theorem lift (run : Except Fault α) : Unrefused (liftM run : CM α) A := by
  cases run <;> rfl

theorem throw (fault : Fault) : Unrefused (throw fault : CM α) A := rfl

theorem bind (first : Unrefused code A)
    (rest : ∀ value B, code A = .ok (value, B) → Unrefused (next value) B) :
    Unrefused (code >>= next) A := by
  cases run : code A with
  | error fault =>
      have same : code A.granting = .error fault := by rw [first, run]; rfl
      rw [Unrefused, bind_error same, bind_error run]
      rfl
  | ok done =>
      have same : code A.granting = .ok (done.1, done.2.granting) := by rw [first, run]; rfl
      rw [Unrefused, bind_ok same, bind_ok run]
      exact rest done.1 done.2 run

/-- Code without allocation in front. -/
theorem after (run : Except Fault α) (rest : ∀ value, run = .ok value → Unrefused (next value) A) :
    Unrefused ((liftM run : CM α) >>= next) A := by
  apply (lift run).bind
  intro value B ran
  cases run with
  | error fault => cases ran
  | ok value => cases ran; exact rest value rfl

theorem ite {c : Prop} [Decidable c] {other : CM α} (yes : c → Unrefused code A)
    (no : ¬ c → Unrefused other A) : Unrefused (if c then code else other) A := by
  split
  · exact yes ‹_›
  · exact no ‹_›

theorem free (p : CPtr) : Unrefused (C.free p) A := by
  cases p <;> rfl

end Unrefused

section Strdup

variable {A : Allocator} (s : CStr)

theorem strdup_granted (granted : A.grants A.calls = true) :
    strdup s A = .ok (.live (A.calls + 1) s, A.next) := by
  simp only [strdup, bind, StateT.bind, malloc, granted, Except.bind]
  rfl

theorem strdup_refused (refused : A.grants A.calls = false) : strdup s A = .ok (.null, A.next) := by
  simp only [strdup, bind, StateT.bind, malloc, refused, Except.bind]
  rfl

theorem malloc_refused (refused : A.grants A.calls = false) : malloc A = .ok (none, A.next) := by
  simp [malloc, refused]

theorem malloc_granted (granted : A.grants A.calls = true) :
    malloc A = .ok (some (A.calls + 1), A.next) := by
  simp [malloc, granted]

theorem Unrefused.malloc (granted : A.grants A.calls = true) : Unrefused malloc A := by
  rw [Unrefused, malloc_granted granted, malloc_run A.granting_allSucceed]
  rfl

theorem Unrefused.strdup (granted : A.grants A.calls = true) : Unrefused (strdup s) A := by
  rw [Unrefused, strdup_granted s granted, strdup_run A.granting_allSucceed]
  rfl

end Strdup

end LinuxCpp.C
