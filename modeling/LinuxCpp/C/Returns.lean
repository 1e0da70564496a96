import LinuxCpp.C.Memory

set_option autoImplicit false

/- Partial correctness: what an execution returns, if it returns. The rules
follow the shape of a `do` block. -/
namespace LinuxCpp.C

/-- Every value this execution returns satisfies `post`. -/
structure Returns {α : Type} (m : Except Fault α) (post : α → Prop) : Prop where
  of_ok : ∀ a, m = .ok a → post a

namespace Returns

variable {α β : Type} {m : Except Fault α} {f : α → Except Fault β} {post : β → Prop}

theorem pure {b : β} (holds : post b) : Returns (Pure.pure b) post := by
  refine ⟨?_⟩
  rintro _ ⟨⟩
  exact holds

theorem error (e : Fault) : Returns (.error e) post := by
  refine ⟨?_⟩
  rintro _ ⟨⟩

theorem any (m : Except Fault α) : Returns m fun _ => True := ⟨fun _ _ => trivial⟩

theorem bind {mid : α → Prop} (first : Returns m mid) (next : ∀ a, mid a → Returns (f a) post) :
    Returns (m >>= f) post := by
  refine ⟨fun b ran => ?_⟩
  obtain ⟨a, value, ran⟩ := ok_of_bind ran
  exact (next a (first.of_ok a value)).of_ok b ran

theorem imp {stronger : β → Prop} {m : Except Fault β} (returns : Returns m stronger)
    (weaken : ∀ b, stronger b → post b) : Returns m post :=
  ⟨fun b ran => weaken b (returns.of_ok b ran)⟩

/-- A step whose result does not matter. -/
theorem skip (next : ∀ a, Returns (f a) post) : Returns (m >>= f) post :=
  bind (any m) fun a _ => next a

theorem ite {c : Prop} [Decidable c] {m m' : Except Fault β} (yes : Returns m post)
    (no : Returns m' post) : Returns (if c then m else m') post := by
  split
  · exact yes
  · exact no

end Returns

/-- Every value this execution returns satisfies `post`, in any allocator state. -/
structure ReturnsM {α : Type} (m : CM α) (post : α → Prop) : Prop where
  run : ∀ A, Returns (m A) fun r => post r.1

namespace ReturnsM

variable {α β : Type} {m : CM α} {f : α → CM β} {post : β → Prop}

theorem pure {b : β} (holds : post b) : ReturnsM (Pure.pure b) post :=
  ⟨fun _ => Returns.pure holds⟩

theorem throw (e : Fault) : ReturnsM (MonadExcept.throw e) post :=
  ⟨fun _ => Returns.error e⟩

theorem any (m : CM α) : ReturnsM m fun _ => True := ⟨fun _ => ⟨fun _ _ => trivial⟩⟩

theorem bind {mid : α → Prop} (first : ReturnsM m mid) (next : ∀ a, mid a → ReturnsM (f a) post) :
    ReturnsM (m >>= f) post :=
  ⟨fun A => (first.run A).bind fun r middle => (next r.1 middle).run r.2⟩

theorem skip (next : ∀ a, ReturnsM (f a) post) : ReturnsM (m >>= f) post :=
  bind (any m) fun a _ => next a

theorem lift {m : Except Fault β} (returns : Returns m post) : ReturnsM (liftM m) post := by
  refine ⟨fun A => ⟨?_⟩⟩
  rintro ⟨b, B⟩ ran
  exact returns.of_ok b (run_of_lift ran).1

theorem ite {c : Prop} [Decidable c] {m m' : CM β} (yes : ReturnsM m post)
    (no : ReturnsM m' post) : ReturnsM (if c then m else m') post := by
  split
  · exact yes
  · exact no

theorem of_ok {m : CM β} (returns : ReturnsM m post) {A B : Allocator} {b : β}
    (ran : m A = .ok (b, B)) : post b :=
  (returns.run A).of_ok (b, B) ran

theorem mono {m : CM β} {post' : β → Prop} (returns : ReturnsM m post)
    (weaker : ∀ b, post b → post' b) : ReturnsM m post' :=
  ⟨fun _ => ⟨fun _ ran => weaker _ (returns.of_ok ran)⟩⟩

theorem and {m : CM β} {post' : β → Prop} (first : ReturnsM m post) (second : ReturnsM m post') :
    ReturnsM m fun b => post b ∧ post' b :=
  ⟨fun _ => ⟨fun _ ran => ⟨first.of_ok ran, second.of_ok ran⟩⟩⟩

end ReturnsM

/-- Every value this execution returns, and the allocator it leaves, satisfy `post`. -/
structure Leaves {α : Type} (m : CM α) (A : Allocator) (post : α → Allocator → Prop) : Prop where
  of_ok : ∀ a B, m A = .ok (a, B) → post a B

namespace Leaves

variable {α β : Type} {m : CM α} {f : α → CM β} {A : Allocator} {post : β → Allocator → Prop}

theorem pure {b : β} (holds : post b A) : Leaves (Pure.pure b) A post := by
  refine ⟨?_⟩
  rintro _ _ ⟨⟩
  exact holds

theorem throw (e : Fault) : Leaves (MonadExcept.throw e) A post := by
  refine ⟨?_⟩
  rintro _ _ ⟨⟩

theorem bind {mid : α → Allocator → Prop} (first : Leaves m A mid)
    (next : ∀ a B, mid a B → Leaves (f a) B post) : Leaves (m >>= f) A post := by
  refine ⟨fun b C ran => ?_⟩
  obtain ⟨a, B, value, ran⟩ := run_of_bind ran
  exact (next a B (first.of_ok a B value)).of_ok b C ran

/-- A step whose result does not matter. -/
theorem ignore (next : ∀ a B, Leaves (f a) B post) : Leaves (m >>= f) A post :=
  bind (show Leaves m A fun _ _ => True from ⟨fun _ _ _ => trivial⟩) fun a B _ => next a B

/-- A step whose outcome is known. -/
theorem step {a : α} {B : Allocator} (run : m A = .ok (a, B)) (next : Leaves (f a) B post) :
    Leaves (m >>= f) A post :=
  ⟨fun b C ran => next.of_ok b C ((bind_ok run).symm.trans ran)⟩

/-- A step without allocation. -/
theorem after {m : Except Fault α} {mid : α → Prop} (first : Returns m mid)
    (next : ∀ a, mid a → Leaves (f a) A post) : Leaves ((liftM m : CM α) >>= f) A post := by
  refine ⟨fun b C ran => ?_⟩
  obtain ⟨a, B, lifted, rest⟩ := run_of_bind ran
  obtain ⟨value, rfl⟩ := run_of_lift lifted
  exact (next a (first.of_ok a value)).of_ok b C rest

/-- A step without allocation, with its outcome as a fact. -/
theorem skip {m : Except Fault α} (next : ∀ a, m = .ok a → Leaves (f a) A post) :
    Leaves ((liftM m : CM α) >>= f) A post :=
  after ⟨fun _ ran => ran⟩ next

theorem ite {c : Prop} [Decidable c] {m m' : CM β} (yes : c → Leaves m A post)
    (no : ¬ c → Leaves m' A post) : Leaves (if c then m else m') A post := by
  split
  · exact yes ‹_›
  · exact no ‹_›

/-- A `malloc` in front, refused or granted. -/
theorem malloc {f : Option Nat → CM β}
    (refused : A.grants A.calls = false → Leaves (f none) A.next post)
    (granted : A.grants A.calls = true → Leaves (f (some (A.calls + 1))) A.next post) :
    Leaves (malloc >>= f) A post := by
  cases grants : A.grants A.calls with
  | false => exact step (by simp [C.malloc, grants]) (refused grants)
  | true => exact step (by simp [C.malloc, grants]) (granted grants)

theorem of_returns {m : CM β} {post : β → Prop} (returns : ReturnsM m post) :
    Leaves m A fun b _ => post b :=
  ⟨fun _ _ ran => returns.of_ok ran⟩

theorem and {m : CM β} {post' : β → Allocator → Prop} (first : Leaves m A post)
    (second : Leaves m A post') : Leaves m A fun b B => post b B ∧ post' b B :=
  ⟨fun b B ran => ⟨first.of_ok b B ran, second.of_ok b B ran⟩⟩

end Leaves

/-- The code only moves its allocator on. -/
structure Grows {α : Type} (m : CM α) : Prop where
  later : ∀ A a B, m A = .ok (a, B) → A.Later B

namespace Grows

variable {α β : Type} {m : CM α} {f : α → CM β}

theorem pure (a : α) : Grows (Pure.pure a) := by
  refine ⟨?_⟩
  rintro A _ _ ⟨⟩
  exact .refl A

theorem throw (e : Fault) : Grows (MonadExcept.throw e : CM α) := by
  refine ⟨?_⟩
  rintro _ _ _ ⟨⟩

theorem lift (m : Except Fault α) : Grows (liftM m : CM α) := by
  refine ⟨fun A a B ran => ?_⟩
  obtain ⟨-, rfl⟩ := run_of_lift ran
  exact .refl _

theorem bind (first : Grows m) (next : ∀ a, Grows (f a)) : Grows (m >>= f) := by
  refine ⟨fun A b C ran => ?_⟩
  obtain ⟨a, B, value, ran⟩ := run_of_bind ran
  exact (first.later A a B value).trans ((next a).later B b C ran)

theorem ite {c : Prop} [Decidable c] {m m' : CM α} (yes : Grows m) (no : Grows m') :
    Grows (if c then m else m') := by
  split
  · exact yes
  · exact no

theorem malloc : Grows malloc := by
  refine ⟨?_⟩
  rintro A _ _ ⟨⟩
  exact .next A

theorem junkOf (block : Nat) : Grows (junkOf block) := by
  refine ⟨?_⟩
  rintro A _ _ ⟨⟩
  exact .refl A

theorem freeBlock (block : Nat) : Grows (freeBlock block) := by
  refine ⟨?_⟩
  rintro A _ _ ⟨⟩
  exact ⟨rfl, rfl, Nat.le_refl _⟩

/-- What the code returns, and that it moves the allocator on. -/
theorem leaves {m : CM β} {post : β → Prop} {A : Allocator} (grows : Grows m)
    (returns : ReturnsM m post) : Leaves m A fun b B => post b ∧ A.Later B :=
  ⟨fun b B ran => ⟨returns.of_ok ran, grows.later A b B ran⟩⟩

end Grows

end LinuxCpp.C
