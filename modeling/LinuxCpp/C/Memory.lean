import LinuxCpp.C.Strings
import Mathlib.Logic.Function.Basic

set_option autoImplicit false

namespace LinuxCpp.C

/-- A `char *` of a heap object: NULL, a block that holds a string, a block
already returned to the allocator, or a word nobody wrote. -/
inductive CPtr where
  | null
  | live (block : Nat) (str : CStr)
  | freed (block : Nat)
  | wild (word : Nat)
deriving DecidableEq, Repr

namespace CPtr

/-- A pointer field of fresh memory: whatever word the allocator left there. -/
def ofWord (word : Nat) : CPtr := if word = 0 then null else wild word

def deref : CPtr → Except Fault CStr
  | null => .error .nullDeref
  | live _ str => .ok str
  | freed _ => .error .useAfterFree
  | wild _ => .error .wildDeref

def str? : CPtr → Option CStr
  | live _ str => some str
  | _ => none

/-- The block a pointer to a string keeps alive. -/
def block? : CPtr → Option Nat
  | live block _ => some block
  | _ => none

/-- The value a pointer field keeps after its block went to `free`. -/
def released : CPtr → CPtr
  | live block _ => freed block
  | p => p

/-- The pointer is NULL or points to exactly this string. -/
def Holds (p : CPtr) : Option CStr → Prop
  | none => p = null
  | some s => ∃ block, p = live block s

@[simp] theorem deref_live (block : Nat) (str : CStr) : (live block str).deref = .ok str := rfl

@[simp] theorem deref_null : null.deref = .error .nullDeref := rfl

@[simp] theorem str?_live (block : Nat) (str : CStr) : (live block str).str? = some str := rfl

@[simp] theorem str?_null : null.str? = none := rfl

@[simp] theorem block?_live (block : Nat) (str : CStr) : (live block str).block? = some block := rfl

@[simp] theorem block?_ofWord (word : Nat) : (ofWord word).block? = none := by
  unfold ofWord
  split <;> rfl

@[simp] theorem str?_ofWord (word : Nat) : (ofWord word).str? = none := by
  unfold ofWord
  split <;> rfl

theorem Holds.isNull {p : CPtr} (held : p.Holds none) : p = null := held

theorem Holds.str? {p : CPtr} {content : Option CStr} (held : p.Holds content) :
    p.str? = content := by
  cases content with
  | none => rw [held.isNull, str?_null]
  | some s =>
      obtain ⟨block, rfl⟩ := held
      rfl

theorem Holds.eq_null_iff {p : CPtr} {content : Option CStr} (held : p.Holds content) :
    p = null ↔ content = none := by
  cases content with
  | none => simp [held.isNull]
  | some s =>
      obtain ⟨block, rfl⟩ := held
      simp

theorem deref_eq_ok {p : CPtr} {s : CStr} : p.deref = .ok s ↔ p.str? = some s := by
  cases p <;> simp [str?, deref]

end CPtr

/-- The allocator seen by one run: whether the call of each number is granted,
the words it leaves in the block it hands out, the calls made so far, and the
blocks passed to `free`. Blocks are named by their call and never handed out
twice; block 0 would be NULL. -/
structure Allocator where
  grants : Nat → Bool
  junk : Nat → Nat → Nat
  calls : Nat
  freed : List Nat

def Allocator.AllSucceed (A : Allocator) : Prop := ∀ call, A.grants call = true

/-- C code that allocates: allocator state through an execution that may fault. -/
abbrev CM := StateT Allocator (Except Fault)

def Allocator.next (A : Allocator) : Allocator := { A with calls := A.calls + 1 }

/-- The block named by the call, or NULL. -/
def malloc : CM (Option Nat) := fun A =>
  .ok (if A.grants A.calls then some (A.calls + 1) else none, A.next)

/-- The words left in a block by the allocator. -/
def junkOf (block : Nat) : CM (Nat → Nat) := fun A => .ok (A.junk (block - 1), A)

def freeBlock (block : Nat) : CM Unit := fun A => .ok ((), { A with freed := block :: A.freed })

def free : CPtr → CM Unit
  | .null => pure ()
  | .live block _ => freeBlock block
  | .freed _ => throw .useAfterFree
  | .wild _ => throw .wildDeref

/-- `malloc(strlen(s) + 1)` and the copy of `s` into it; NULL when refused. -/
def strdup (s : CStr) : CM CPtr := do
  match ← malloc with
  | none => pure .null
  | some block => pure (.live block s)

namespace Allocator

@[simp] theorem next_grants (A : Allocator) : A.next.grants = A.grants := rfl

@[simp] theorem next_junk (A : Allocator) : A.next.junk = A.junk := rfl

@[simp] theorem next_calls (A : Allocator) : A.next.calls = A.calls + 1 := rfl

/-- Later allocator states of the same run: the oracle and the memory contents
are fixed, the call counter only grows. -/
structure Later (A B : Allocator) : Prop where
  grants : B.grants = A.grants
  junk : B.junk = A.junk
  calls : A.calls ≤ B.calls

theorem Later.refl (A : Allocator) : Later A A := ⟨rfl, rfl, Nat.le_refl _⟩

theorem Later.trans {A B C : Allocator} (first : Later A B) (second : Later B C) : Later A C :=
  ⟨second.grants.trans first.grants, second.junk.trans first.junk,
    Nat.le_trans first.calls second.calls⟩

theorem Later.next (A : Allocator) : Later A A.next := ⟨rfl, rfl, Nat.le_succ _⟩

theorem Later.allSucceed {A B : Allocator} (later : Later A B) (granted : A.AllSucceed) :
    B.AllSucceed := fun call => later.grants ▸ granted call

/-- Grants every call and leaves a nonzero word everywhere. -/
def plentiful : Allocator := ⟨fun _ => true, fun _ _ => 1, 0, []⟩

theorem plentiful_allSucceed : plentiful.AllSucceed := fun _ => rfl

/-- Grants every call and hands out cleared memory. -/
def cleared : Allocator := ⟨fun _ => true, fun _ _ => 0, 0, []⟩

theorem cleared_allSucceed : cleared.AllSucceed := fun _ => rfl

end Allocator

theorem malloc_run {A : Allocator} (granted : A.AllSucceed) :
    malloc A = .ok (some (A.calls + 1), A.next) := by
  simp [malloc, granted A.calls]

theorem strdup_run {A : Allocator} (granted : A.AllSucceed) (s : CStr) :
    strdup s A = .ok (.live (A.calls + 1) s, A.next) := by
  simp only [strdup, bind, StateT.bind, malloc_run granted, Except.bind]
  rfl

theorem freeBlock_run (A : Allocator) (block : Nat) :
    freeBlock block A = .ok ((), { A with freed := block :: A.freed }) := rfl

theorem free_live (A : Allocator) (block : Nat) (s : CStr) :
    free (.live block s) A = .ok ((), { A with freed := block :: A.freed }) := rfl

/-- Successful steps of an execution without allocation compose. -/
@[simp] theorem ok_bind {α β : Type} (value : α) (next : α → Except Fault β) :
    (Except.ok value >>= next) = next value := rfl

/-- Where both steps returned, the first one did. -/
theorem ok_of_bind {α β : Type} {first : Except Fault α} {next : α → Except Fault β} {b : β}
    (ran : (first >>= next) = .ok b) : ∃ a, first = .ok a ∧ next a = .ok b := by
  cases first with
  | error fault => cases ran
  | ok a => exact ⟨a, rfl, ran⟩

theorem ok_of_map {α β : Type} {first : Except Fault α} {f : α → β} {b : β}
    (ran : first.map f = .ok b) : ∃ a, first = .ok a ∧ f a = b := by
  cases first with
  | error fault => cases ran
  | ok a =>
      cases ran
      exact ⟨a, rfl, rfl⟩

theorem run_of_bind {α β : Type} {first : CM α} {next : α → CM β} {A C : Allocator} {b : β}
    (ran : (first >>= next) A = .ok (b, C)) :
    ∃ a B, first A = .ok (a, B) ∧ next a B = .ok (b, C) := by
  obtain ⟨⟨a, B⟩, run, rest⟩ := ok_of_bind ran
  exact ⟨a, B, run, rest⟩

theorem run_of_lift {α : Type} {first : Except Fault α} {A B : Allocator} {a : α}
    (ran : (liftM first : CM α) A = .ok (a, B)) : first = .ok a ∧ B = A := by
  cases first with
  | error fault => cases ran
  | ok value =>
      cases ran
      exact ⟨rfl, rfl⟩

/-- A computation that succeeds composes with its continuation. -/
theorem bind_ok {α β : Type} {first : CM α} {next : α → CM β} {A B : Allocator} {value : α}
    (success : first A = .ok (value, B)) : (first >>= next) A = next value B := by
  simp only [bind, StateT.bind, success, Except.bind]

/-- A computation that faults has no continuation. -/
theorem bind_error {α β : Type} {first : CM α} {next : α → CM β} {A : Allocator} {fault : Fault}
    (failure : first A = .error fault) : (first >>= next) A = .error fault := by
  simp only [bind, StateT.bind, failure, Except.bind]

theorem lift_bind_error {α β : Type} {first : Except Fault α} {next : α → CM β} {A : Allocator}
    {fault : Fault} (failure : first = .error fault) :
    ((liftM first : CM α) >>= next) A = .error fault := by
  subst failure
  rfl

/-- A pure sub-computation that succeeds composes with its continuation. -/
theorem lift_bind_ok {α β : Type} {first : Except Fault α} {next : α → CM β} {A : Allocator}
    {value : α} (success : first = .ok value) :
    ((liftM first : CM α) >>= next) A = next value A := by
  subst success
  rfl

end LinuxCpp.C
