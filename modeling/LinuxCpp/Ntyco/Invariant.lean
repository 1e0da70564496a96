import LinuxCpp.C.Memory
import LinuxCpp.Ntyco.Schedule
import LinuxCpp.Trace.Along
import Mathlib.Data.List.Nodup

set_option autoImplicit false

/- What holds between two moves of the scheduler: every coroutine has one home, which
is the processor, the queue of the ready, or the tree of the waiting. -/
namespace LinuxCpp.Ntyco

open C Trace

/-- Neither waiting, nor finished, nor at the end of its descriptor. -/
structure Status.Calm (status : Status) : Prop where
  waitRead : status.waitRead = false
  waitWrite : status.waitWrite = false
  exited : status.exited = false
  fdeof : status.fdeof = false

/-- Not inside `nty_poll_inner`. -/
structure Co.Idle (c : Co) : Prop where
  calm : c.status.Calm
  point : ∀ fd, c.point ≠ .polling fd

/-- Inside `nty_poll_inner` for this descriptor. -/
structure Co.Polls (c : Co) (fd : Int) : Prop where
  point : c.point = .polling fd
  started : c.status.new = false

/-- The coroutines by their homes. -/
def Sched.homes (s : Sched) : List Nat := s.curr.toList ++ s.ready ++ s.waiting.map Prod.snd

/-- Every coroutine that is not freed has one home. -/
structure Housed (s : Sched) : Prop where
  nodup : s.homes.Nodup
  live : ∀ id, id ∈ s.homes ↔ s.heap id ≠ none
  counted : s.spawned = s.homes.length
  fresh : ∀ id, s.created ≤ id → s.heap id = none

structure Inv (s : Sched) : Prop extends Housed s where
  idle : ∀ id c, id ∈ s.curr.toList ++ s.ready → s.heap id = some c → c.Idle
  begun : ∀ id c, s.curr = some id → s.heap id = some c → c.status.new = false
  keys : (s.waiting.map Prod.fst).Nodup
  polls : ∀ fd id c, (fd, id) ∈ s.waiting → s.heap id = some c → c.Polls fd
  watched : ∀ fd, s.interest fd ≠ none → fd ∈ s.waiting.map Prod.fst
  awake : ∀ id ∈ s.ready, id ∉ s.sleeping.map Prod.snd
  sleeps : ∀ key id, (key, id) ∈ s.sleeping → ∃ c, s.heap id = some c ∧ c.sleepUsecs = key
  sleepKeys : (s.sleeping.map Prod.fst).Nodup
  batch : ∀ left, s.stage = .batch left →
    (left.map Report.fd).Nodup ∧ ∀ r ∈ left, r.fd ∈ s.waiting.map Prod.fst

section Waiters

variable {s : Sched} {fd : Int} {id : Nat} {c : Co}

theorem waiter_mem (found : s.waiter fd = some id) : (fd, id) ∈ s.waiting := by
  obtain ⟨before, after, split, -⟩ := List.lookup_eq_some_iff.mp found
  rw [split]
  exact List.mem_append_right _ List.mem_cons_self

theorem waiter_of_key (key : fd ∈ s.waiting.map Prod.fst) : ∃ id, s.waiter fd = some id := by
  cases found : s.waiter fd with
  | some id => exact ⟨id, rfl⟩
  | none =>
      obtain ⟨⟨_, id⟩, member, rfl⟩ := List.mem_map.mp key
      have passed := List.lookup_eq_none_iff.mp found _ member
      simp at passed

theorem waiter_of_mem (keys : (s.waiting.map Prod.fst).Nodup) (member : (fd, id) ∈ s.waiting) :
    s.waiter fd = some id := by
  obtain ⟨other, found⟩ := waiter_of_key (List.mem_map_of_mem member : fd ∈ _)
  have same := List.inj_on_of_nodup_map keys (waiter_mem found) member rfl
  cases same
  exact found

theorem key_of_waiter_none (found : s.waiter fd = none) : fd ∉ s.waiting.map Prod.fst := by
  intro key
  obtain ⟨id, other⟩ := waiter_of_key key
  rw [found] at other
  cases other

theorem co_ok (here : s.heap id = some c) : s.co id = .ok c := by
  rw [Sched.co, here]

/-- One entry of the tree and the rest. -/
theorem waiting_perm (keys : (s.waiting.map Prod.fst).Nodup) (member : (fd, id) ∈ s.waiting) :
    s.waiting.Perm ((fd, id) :: s.waiting.filter fun entry => entry.1 ≠ fd) := by
  have nodup : s.waiting.Nodup := keys.of_map _
  apply (List.perm_ext_iff_of_nodup nodup ?_).mpr
  · intro entry
    simp only [List.mem_cons, List.mem_filter, decide_eq_true_eq]
    constructor
    · intro here
      by_cases at_ : entry.1 = fd
      · exact .inl (List.inj_on_of_nodup_map keys here member at_)
      · exact .inr ⟨here, at_⟩
    · rintro (rfl | ⟨here, -⟩)
      · exact member
      · exact here
  · refine List.nodup_cons.mpr ⟨fun here => ?_, nodup.filter _⟩
    simpa using (List.mem_filter.mp here).2

end Waiters

section Operations

variable {s : Sched} {fd : Int} {id : Nat} {c : Co} {point : Point}

/-- What `nty_coroutine_init` makes of the status. -/
def Status.started (status : Status) : Status :=
  if status.new then { Status.zero with ready := true } else status

theorem resume_idle (here : s.heap id = some c) (idle : c.Idle) :
    resume s id = .ok { s with
      curr := some id
      resumed := s.resumed ++ [id]
      heap := Function.update s.heap id
        (some { c with status := c.status.started, point := .behind }) } := by
  rw [resume, co_ok here, ok_bind]
  cases at_ : c.point with
  | polling fd => exact absurd at_ (idle.point fd)
  | entry => rfl
  | behind => rfl

theorem resume_polls (here : s.heap id = some c) (polls : c.Polls fd)
    (waits : s.waiter fd = some id) :
    resume s id = .ok { s with
      curr := some id
      resumed := s.resumed ++ [id]
      interest := Function.update s.interest fd none
      waiting := s.waiting.filter fun entry => entry.1 ≠ fd
      heap := Function.update s.heap id (some { c with status := .zero, point := .behind }) } := by
  have waits' : s.waiting.lookup fd = some id := waits
  rw [resume, co_ok here, ok_bind]
  simp only [polls.point, polls.started, deschedWait, Sched.waiter, waits', Sched.setCo]
  rw [co_ok (Function.update_self id _ _), ok_bind, deschedSleepdown,
    co_ok (Function.update_self id _ _), ok_bind]
  simp [Status.zero]
  rfl

theorem yieldAt_stays (here : s.heap id = some c) (stays : c.status.exited = false) :
    yieldAt s id point = .ok (returned { s with
      curr := none
      heap := Function.update s.heap id (some { c with ops := 0, point := point }) } id) := by
  rw [yieldAt, co_ok here, ok_bind]
  simp only [stays, Bool.false_and]
  rfl

theorem yieldAt_leaves (here : s.heap id = some c) (exited : c.status.exited = true)
    (detached : c.status.detach = true) :
    yieldAt s id point = .ok (returned { s with
      curr := none
      spawned := s.spawned - 1
      heap := Function.update s.heap id none } id) := by
  rw [yieldAt, co_ok here, ok_bind]
  simp only [exited, detached, Bool.true_and, if_true, freeCo, Sched.setCo]
  rw [co_ok (Function.update_self id _ _), ok_bind, Function.update_idem]
  rfl

end Operations

end LinuxCpp.Ntyco
