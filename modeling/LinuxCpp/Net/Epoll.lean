import LinuxCpp.Trace.Course
import Mathlib.Logic.Function.Basic

set_option autoImplicit false

/- What the front ends see of the kernel: open descriptors, the interest list
of one epoll instance, and the calls that change them. -/
namespace LinuxCpp.Net

/-- `EPOLLIN` and `EPOLLOUT` of an event mask. -/
structure Mask where
  epollin : Bool
  epollout : Bool
deriving DecidableEq

def Mask.readable : Mask := ⟨true, false⟩

def Mask.writable : Mask := ⟨false, true⟩

/-- Every event of `some` is one of `all`. -/
def Mask.Within (some all : Mask) : Prop :=
  (some.epollin = true → all.epollin = true) ∧ (some.epollout = true → all.epollout = true)

/-- What an open descriptor stands for. Connections are numbered in the order
of their acceptance, so that a reused descriptor stands for another one. -/
inductive Socket where
  | listening
  | connected (peer : Nat)
deriving DecidableEq

structure Kernel where
  sockets : Nat → Option Socket
  interest : Nat → Option Mask
  accepted : Nat

/-- `EPOLL_CTL_ADD`: fails on a descriptor that is closed or already there. -/
def Kernel.epollAdd (K : Kernel) (fd : Nat) (event : Mask) : Kernel :=
  if (K.sockets fd).isSome ∧ K.interest fd = none then
    { K with interest := Function.update K.interest fd (some event) }
  else K

/-- `EPOLL_CTL_MOD`: fails on a descriptor that is not in the interest list. -/
def Kernel.epollMod (K : Kernel) (fd : Nat) (event : Mask) : Kernel :=
  if (K.interest fd).isSome then
    { K with interest := Function.update K.interest fd (some event) }
  else K

/-- `EPOLL_CTL_DEL`. -/
def Kernel.epollDel (K : Kernel) (fd : Nat) : Kernel :=
  { K with interest := Function.update K.interest fd none }

/-- `close`: also takes the descriptor out of the interest list. -/
def Kernel.close (K : Kernel) (fd : Nat) : Kernel :=
  { K with
    sockets := Function.update K.sockets fd none
    interest := Function.update K.interest fd none }

/-- A successful `accept` that returns the descriptor `fd`. -/
def Kernel.accept (K : Kernel) (fd : Nat) : Kernel :=
  { K with
    sockets := Function.update K.sockets fd (some (.connected K.accepted))
    accepted := K.accepted + 1 }

/-- Connections have numbers of their own, and only open descriptors are watched. -/
structure Kernel.Sound (K : Kernel) : Prop where
  numbered : ∀ {fd peer}, K.sockets fd = some (.connected peer) → peer < K.accepted
  distinct : ∀ {fd other peer}, K.sockets fd = some (.connected peer) →
    K.sockets other = some (.connected peer) → fd = other
  watched : ∀ {fd}, K.sockets fd = none → K.interest fd = none

namespace Kernel

variable {K : Kernel} {fd : Nat}

theorem epollAdd_eq (event : Mask) (isOpen : (K.sockets fd).isSome)
    (absent : K.interest fd = none) :
    K.epollAdd fd event = { K with interest := Function.update K.interest fd (some event) } := by
  rw [epollAdd, if_pos ⟨isOpen, absent⟩]

theorem epollMod_eq (event : Mask) (present : (K.interest fd).isSome) :
    K.epollMod fd event = { K with interest := Function.update K.interest fd (some event) } := by
  rw [epollMod, if_pos present]

theorem close_epollDel : (K.close fd).epollDel fd = K.close fd := by
  simp [epollDel, close]

theorem Sound.interest (sound : K.Sound) (event : Mask) (isOpen : (K.sockets fd).isSome) :
    ({ K with interest := Function.update K.interest fd (some event) } : Kernel).Sound := by
  refine ⟨sound.numbered, sound.distinct, ?_⟩
  intro other closed
  have differ : other ≠ fd := by
    rintro rfl
    simp [show K.sockets other = none from closed] at isOpen
  simpa [Function.update_of_ne differ] using sound.watched closed

theorem Sound.close (sound : K.Sound) : (K.close fd).Sound := by
  have before : ∀ {other peer}, (K.close fd).sockets other = some (.connected peer) →
      K.sockets other = some (.connected peer) := by
    intro other peer here
    by_cases same : other = fd
    · simp [Kernel.close, same] at here
    · simpa [Kernel.close, Function.update_of_ne same] using here
  refine ⟨fun here => sound.numbered (before here),
    fun here there => sound.distinct (before here) (before there), ?_⟩
  intro other closed
  by_cases same : other = fd
  · simp [Kernel.close, same]
  · have closedBefore : K.sockets other = none := by
      simpa [Kernel.close, Function.update_of_ne same] using closed
    simpa [Kernel.close, Function.update_of_ne same] using sound.watched closedBefore

theorem accept_self : (K.accept fd).sockets fd = some (.connected K.accepted) := by
  simp [accept]

theorem accept_other {other : Nat} (differ : other ≠ fd) :
    (K.accept fd).sockets other = K.sockets other := by
  simp [accept, Function.update_of_ne differ]

theorem Sound.accept (sound : K.Sound) : (K.accept fd).Sound := by
  have cases : ∀ {other peer}, (K.accept fd).sockets other = some (.connected peer) →
      (other = fd ∧ peer = K.accepted) ∨
      (other ≠ fd ∧ K.sockets other = some (.connected peer)) := by
    intro other peer here
    by_cases same : other = fd
    · rw [same, accept_self] at here
      cases here
      exact .inl ⟨same, rfl⟩
    · rw [accept_other same] at here
      exact .inr ⟨same, here⟩
  refine ⟨?_, ?_, ?_⟩
  · intro other peer here
    change peer < K.accepted + 1
    rcases cases here with ⟨-, rfl⟩ | ⟨-, old⟩
    · omega
    · have := sound.numbered old
      omega
  · intro first second peer here there
    rcases cases here with ⟨rfl, rfl⟩ | ⟨-, old⟩ <;>
      rcases cases there with ⟨rfl, isNew⟩ | ⟨-, other⟩
    · rfl
    · exact absurd (sound.numbered other) (by omega)
    · exact absurd (sound.numbered old) (by omega)
    · exact sound.distinct old other
  · intro other closed
    by_cases same : other = fd
    · rw [same, accept_self] at closed
      cases closed
    · rw [accept_other same] at closed
      exact sound.watched closed

end Kernel

end LinuxCpp.Net
