import LinuxCpp.Linked.Segment
import LinuxCpp.ThreadPool.Threadpool
import Mathlib.Data.List.Perm.Basic
import Mathlib.Data.List.Range

set_option autoImplicit false

/- Every push is in the list or was taken, once. -/
namespace LinuxCpp.ThreadPool

open C Linked Trace

/-- The pool, and the worker and the task structure of each task taken so far. -/
structure System where
  pool : Pool
  taken : List (Nat × Nat)

/-- What happens to a pool with `workers` workers: a push, a turn of a worker, or a
write to a task structure by the code that owns it (the caller before the push, the
task function after it, which may also free it). -/
inductive Event (workers : Nat) where
  | push (task : Nat)
  | turn (worker : Fin workers)
  | write (task : Nat) (value : Option NTask)

def step {workers : Nat} (S : System) : Event workers → Except Fault System
  | .push task => do return { S with pool := ← nThreadPoolPushTask S.pool task }
  | .turn worker => do
      let (pool, task) ← nThreadPoolCallback S.pool
      return ⟨pool, S.taken ++ (task.map fun task => (worker.val, task)).toList⟩
  | .write task value =>
      .ok { S with pool := { S.pool with heap := Function.update S.pool.heap task value } }

/-- The structures given to `nThreadPoolPushTask`, the first push first. -/
def pushes {workers : Nat} (events : List (Event workers)) : List Nat :=
  events.filterMap fun
    | .push task => some task
    | _ => none

namespace Pool

/-- The `next` pointers of the task structures. -/
def links (pool : Pool) (task : Nat) : Option (Option Nat) := (pool.heap task).map NTask.next

/-- The tasks reached from `pool->tasks`. -/
abbrev Reaches (pool : Pool) (queued : List Nat) : Prop := Chain pool.links pool.tasks queued

end Pool

/-- `LIST_INSERT` leaves no pointer back, so the `previous` of every listed task is
still the NULL of its own insertion. -/
structure Queued (pool : Pool) (queued : List Nat) : Prop where
  reaches : pool.Reaches queued
  first : ∀ task ∈ queued, ∃ value, pool.heap task = some value ∧ value.previous = none

/-- The pushes are numbered. `waiting` has the numbers of the listed structures, `delivered`
the ones of the structures taken, and each number is in one of the two, once. -/
structure Accounted (pushed queued : List Nat) (taken : List (Nat × Nat))
    (waiting delivered : List Nat) : Prop where
  listed : waiting.map (pushed[·]?) = queued.map some
  gone : delivered.map (pushed[·]?) = taken.map fun entry => some entry.2
  once : (waiting ++ delivered).Perm (List.range pushed.length)

section Lists

variable {pool : Pool} {queued : List Nat} {task : Nat} {value : NTask}

@[simp] theorem deref_ok (live : pool.heap task = some value) : pool.deref task = .ok value := by
  unfold Pool.deref
  rw [live]

theorem setNext_ok (live : pool.heap task = some value) (next : Option Nat) :
    pool.setNext task next = .ok (pool.setTask task { value with next := next }) := by
  unfold Pool.setNext
  rw [deref_ok live]
  rfl

theorem setPrevious_ok (live : pool.heap task = some value) (previous : Option Nat) :
    pool.setPrevious task previous =
      .ok (pool.setTask task { value with previous := previous }) := by
  unfold Pool.setPrevious
  rw [deref_ok live]
  rfl

theorem setTask_self (pool : Pool) (task : Nat) (value : NTask) :
    (pool.setTask task value).heap task = some value := Function.update_self ..

theorem setTask_setTask (pool : Pool) (task : Nat) (old value : NTask) :
    (pool.setTask task old).setTask task value = pool.setTask task value := by
  simp [Pool.setTask]

/-- A write that changes nothing. -/
theorem setTask_same (live : pool.heap task = some value) : pool.setTask task value = pool := by
  unfold Pool.setTask
  rw [← live, Function.update_eq_self]

theorem listInsert_ok (live : pool.heap task = some value) :
    listInsert pool task = .ok
      { pool.setTask task { value with previous := none, next := pool.tasks } with
        tasks := some task } := by
  simp only [listInsert]
  rw [setPrevious_ok live, ok_bind, setNext_ok (setTask_self ..), setTask_setTask]
  rfl

/-- `LIST_REMOVE` of the head, whose successor has no pointer back either. -/
theorem listRemove_head (head : pool.tasks = some task) (live : pool.heap task = some value)
    (noPrevious : value.previous = none)
    (successor : ∀ after, value.next = some after → ∃ w, pool.heap after = some w ∧
      w.previous = none) :
    listRemove pool task = .ok
      { pool.setTask task { value with previous := none, next := none } with
        tasks := value.next } := by
  have unlink : listRemove pool task = (do
      let pool ← Pool.setNext { pool with tasks := value.next } task none
      pool.setPrevious task none) := by
    simp only [listRemove]
    rw [deref_ok live, ok_bind, noPrevious]
    simp only [pure_bind]
    rw [deref_ok live, ok_bind]
    cases next : value.next with
    | none =>
        simp only
        rw [if_pos head]
        simp only [ok_bind, next]
    | some after =>
        obtain ⟨w, liveAfter, wFirst⟩ := successor after next
        simp only
        rw [ok_bind, noPrevious, setPrevious_ok liveAfter, ← wFirst, setTask_same liveAfter,
          ok_bind, if_pos head, deref_ok live]
        simp only [ok_bind, next]
  have live' : Pool.heap { pool with tasks := value.next } task = some value := live
  rw [unlink, setNext_ok live', ok_bind, setPrevious_ok (setTask_self ..), setTask_setTask]
  rfl

end Lists

/-- The code that pushes a task, or writes to its structure, owns it: it is not in
the list. -/
def Owned {workers : Nat} (S : System) : Event workers → Prop
  | .push task =>
      (∃ value, S.pool.heap task = some value) ∧ ∀ queued, S.pool.Reaches queued → task ∉ queued
  | .turn _ => True
  | .write task _ => ∀ queued, S.pool.Reaches queued → task ∉ queued

section Accounts

variable {pushed queued waiting delivered : List Nat} {taken : List (Nat × Nat)} {task : Nat}

theorem Accounted.push (account : Accounted pushed queued taken waiting delivered) (task : Nat) :
    Accounted (pushed ++ [task]) (task :: queued) taken (pushed.length :: waiting) delivered := by
  have old : ∀ push ∈ waiting ++ delivered, (pushed ++ [task])[push]? = pushed[push]? := by
    intro push member
    have before : push < pushed.length := List.mem_range.mp (account.once.mem_iff.mp member)
    exact List.getElem?_append_left before
  refine ⟨?_, ?_, ?_⟩
  · rw [List.map_cons, List.getElem?_concat_length, List.map_cons, ← account.listed]
    congr 1
    exact List.map_congr_left fun push member => old push (List.mem_append_left _ member)
  · rw [← account.gone]
    exact List.map_congr_left fun push member => old push (List.mem_append_right _ member)
  · rw [List.length_append, List.length_singleton, List.range_succ, List.cons_append]
    exact (account.once.cons _).trans (List.perm_append_singleton ..).symm

theorem Accounted.take (account : Accounted pushed (task :: queued) taken waiting delivered)
    (worker : Nat) : ∃ waiting' delivered',
      Accounted pushed queued (taken ++ [(worker, task)]) waiting' delivered' := by
  have listed := account.listed
  cases waiting with
  | nil => cases listed
  | cons push rest =>
      obtain ⟨isTask, listed⟩ := List.cons.inj listed
      refine ⟨rest, delivered ++ [push], listed, ?_, ?_⟩
      · rw [List.map_append, List.map_append, account.gone]
        exact congrArg (fun last => _ ++ [last]) isTask
      · refine List.Perm.trans ?_ account.once
        rw [List.cons_append, ← List.append_assoc]
        exact List.perm_append_singleton ..

end Accounts

section Steps

variable {pool : Pool} {queued : List Nat} {task : Nat} {value : NTask}

/-- What stands outside of the list does not matter to it. -/
theorem Queued.write (holds : Queued pool queued) (outside : task ∉ queued)
    (new : Option NTask) :
    Queued { pool with heap := Function.update pool.heap task new } queued := by
  have other : ∀ listed ∈ queued, Function.update pool.heap task new listed = pool.heap listed := by
    intro listed member
    have differs : listed ≠ task := fun same => outside (same ▸ member)
    exact Function.update_of_ne differs ..
  refine ⟨holds.reaches.congr fun listed member => ?_, fun listed member => ?_⟩
  · exact congrArg (Option.map NTask.next) (other listed member)
  · obtain ⟨value, live, noPrevious⟩ := holds.first listed member
    exact ⟨value, (other listed member).trans live, noPrevious⟩

theorem Queued.push (holds : Queued pool queued) (live : pool.heap task = some value)
    (outside : task ∉ queued) :
    ∃ pool', nThreadPoolPushTask pool task = .ok pool' ∧ Queued pool' (task :: queued) := by
  have others := holds.write outside (some { value with previous := none, next := pool.tasks })
  refine ⟨_, listInsert_ok live, ?_, ?_⟩
  · refine .cons ?_ (others.reaches.congr fun _ _ => rfl)
    simp [Pool.links, setTask_self]
  · intro listed member
    rcases List.mem_cons.mp member with rfl | member
    · exact ⟨_, setTask_self .., rfl⟩
    · exact others.first listed member

theorem Queued.take (holds : Queued pool (task :: queued)) :
    ∃ pool', nThreadPoolCallback pool = .ok (pool', some task) ∧ Queued pool' queued := by
  obtain ⟨value, live, noPrevious⟩ := holds.first task List.mem_cons_self
  obtain ⟨head, next, linked, rest⟩ := id holds.reaches
  have isNext : next = value.next := by
    simp only [Pool.links, live, Option.map_some, Option.some.injEq] at linked
    exact linked.symm
  subst isNext
  have distinct := List.nodup_cons.mp (Chain.nodup holds.reaches)
  have removed := listRemove_head head live noPrevious fun after isAfter => by
    cases queued with
    | nil =>
        rw [isAfter] at rest
        cases rest
    | cons second later =>
        obtain ⟨isSecond, -⟩ := rest
        rw [isAfter] at isSecond
        cases isSecond
        exact holds.first after (by simp)
  have other : ∀ listed ∈ queued, (pool.setTask task
      { value with previous := none, next := none }).heap listed = pool.heap listed := by
    intro listed member
    have differs : listed ≠ task := fun same => distinct.1 (same ▸ member)
    exact Function.update_of_ne differs ..
  refine ⟨_, by simp only [nThreadPoolCallback, head]; rw [removed]; rfl, ?_, ?_⟩
  · exact Segment.congr rest fun listed member =>
      congrArg (Option.map NTask.next) (other listed member)
  · intro listed member
    obtain ⟨w, liveListed, wFirst⟩ := holds.first listed (List.mem_cons_of_mem _ member)
    exact ⟨w, (other listed member).trans liveListed, wFirst⟩

end Steps

/-- The list is in order, and the pushes so far are accounted for. -/
def Delivering (pushed : List Nat) (S : System) : Prop :=
  ∃ queued waiting delivered, Queued S.pool queued ∧
    Accounted pushed queued S.taken waiting delivered

section Runs

variable {workers : Nat} {pushed : List Nat} {S : System} {event : Event workers}

theorem Delivering.step (holds : Delivering pushed S) (owned : Owned S event) :
    ∃ S', ThreadPool.step S event = .ok S' ∧ Delivering (pushed ++ pushes [event]) S' := by
  obtain ⟨queued, waiting, delivered, inList, account⟩ := holds
  cases event with
  | push task =>
      obtain ⟨⟨value, live⟩, outside⟩ := owned
      obtain ⟨pool', ran, inList'⟩ := inList.push live (outside queued inList.reaches)
      refine ⟨{ S with pool := pool' }, ?_, _, _, _, inList', account.push task⟩
      simp only [ThreadPool.step, ran, ok_bind]
      rfl
  | turn worker =>
      show ∃ S', _ ∧ Delivering (pushed ++ []) S'
      rw [List.append_nil]
      cases queued with
      | nil =>
          have empty : S.pool.tasks = none := inList.reaches
          refine ⟨S, ?_, [], waiting, delivered, inList, account⟩
          simp only [ThreadPool.step, nThreadPoolCallback, empty, pure_bind, Option.map_none,
            Option.toList_none, List.append_nil]
          rfl
      | cons task rest =>
          obtain ⟨pool', ran, inList'⟩ := inList.take
          obtain ⟨waiting', delivered', account'⟩ := account.take worker
          refine ⟨⟨pool', S.taken ++ [(worker.val, task)]⟩, ?_, rest, waiting', delivered',
            inList', account'⟩
          simp only [ThreadPool.step, ran, ok_bind, Option.map_some, Option.toList_some]
          rfl
  | write task value =>
      show ∃ S', _ ∧ Delivering (pushed ++ []) S'
      rw [List.append_nil]
      exact ⟨_, rfl, queued, waiting, delivered,
        inList.write (owned queued inList.reaches) value, account⟩

theorem Delivering.run {events : List (Event workers)} (holds : Delivering pushed S)
    (owned : Along ThreadPool.step Owned S events) :
    ∃ S', runs ThreadPool.step S events = .ok S' ∧ Delivering (pushed ++ pushes events) S' := by
  induction events generalizing pushed S with
  | nil => exact ⟨S, rfl, by rwa [pushes, List.filterMap_nil, List.append_nil]⟩
  | cons event later ih =>
      obtain ⟨next, stepped, kept⟩ := holds.step owned.1
      obtain ⟨last, ran, inv⟩ := ih kept (owned.2 next stepped)
      refine ⟨last, (runs_cons stepped).trans ran, ?_⟩
      have both : pushes (event :: later) = pushes [event] ++ pushes later := by
        rw [pushes, ← List.singleton_append, List.filterMap_append]
        rfl
      rw [both, ← List.append_assoc]
      exact inv

end Runs

/-- Number the pushes `0, 1, …`. There are a number for each structure in the list and one for
each structure taken, of a push of that structure, and each push is either one of those in the
list, once, and was not taken, or it is not in the list and was taken by one worker. -/
def EachOnce (pushed : List Nat) (S : System) : Prop :=
  ∃ queued waiting delivered : List Nat, S.pool.Reaches queued ∧
    waiting.map (pushed[·]?) = queued.map some ∧
    delivered.map (pushed[·]?) = S.taken.map (fun entry => some entry.2) ∧
    ∀ push, push < pushed.length →
      (waiting.count push = 1 ∧ delivered.count push = 0) ∨
      (waiting.count push = 0 ∧ delivered.count push = 1)

theorem Delivering.eachOnce {pushed : List Nat} {S : System} (holds : Delivering pushed S) :
    EachOnce pushed S := by
  obtain ⟨queued, waiting, delivered, inList, account⟩ := holds
  refine ⟨queued, waiting, delivered, inList.reaches, account.listed, account.gone, ?_⟩
  intro push before
  have once : (List.range pushed.length).count push = 1 :=
    List.count_eq_one_of_mem List.nodup_range (List.mem_range.mpr before)
  rw [← account.once.count_eq push, List.count_append] at once
  omega

/-- With any number of workers, in any order of pushes and turns, no push is lost and none
is taken twice. -/
theorem pool_delivers_once {workers : Nat} (heap : Nat → Option NTask)
    (events : List (Event workers)) (owned : Along step Owned ⟨created heap, []⟩ events) :
    ∃ S, runs step ⟨created heap, []⟩ events = .ok S ∧ EachOnce (pushes events) S := by
  have start : Delivering [] ⟨created heap, []⟩ :=
    ⟨[], [], [], ⟨rfl, fun _ member => absurd member List.not_mem_nil⟩, rfl, rfl, List.Perm.refl _⟩
  obtain ⟨S, ran, holds⟩ := start.run owned
  rw [List.nil_append] at holds
  exact ⟨S, ran, holds.eachOnce⟩

/-- Two workers and two tasks, at the addresses 1 and 2. The first one is pushed again by
the worker that took it. -/
theorem pool_delivers_once_pair :
    ∃ S, runs step ⟨created fun _ => some ⟨0, 0, some 9, some 9⟩, []⟩
      ([.push 1, .turn 0, .push 2, .push 1, .turn 1] : List (Event 2)) = .ok S ∧
      EachOnce [1, 2, 1] S ∧ S.taken = [(0, 1), (1, 1)] ∧ S.pool.Reaches [2] := by
  have own : Along step Owned ⟨created fun _ => some ⟨0, 0, some 9, some 9⟩, []⟩
      ([.push 1, .turn 0, .push 2, .push 1, .turn 1] : List (Event 2)) := by
    refine .cons ⟨⟨_, rfl⟩, fun queued reaches => ?_⟩ rfl (.cons trivial rfl
      (.cons ⟨⟨_, rfl⟩, fun queued reaches => ?_⟩ rfl
        (.cons ⟨⟨_, rfl⟩, fun queued reaches => ?_⟩ rfl (.cons trivial rfl trivial))))
    · rw [Chain.unique reaches (show Chain _ _ [] from rfl)]
      exact List.not_mem_nil
    · rw [Chain.unique reaches (show Chain _ _ [] from rfl)]
      exact List.not_mem_nil
    · rw [Chain.unique reaches (show Chain _ _ [2] from ⟨rfl, none, rfl, rfl⟩)]
      decide
  obtain ⟨S, ran, once⟩ := pool_delivers_once _ _ own
  refine ⟨S, ran, once, ?_, ?_⟩
  · cases ran
    rfl
  · cases ran
    exact ⟨rfl, none, rfl, rfl⟩

end LinuxCpp.ThreadPool
