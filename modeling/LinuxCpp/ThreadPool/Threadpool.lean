import LinuxCpp.C.Memory
import LinuxCpp.Trace.Along
import Mathlib.Logic.Function.Basic

set_option autoImplicit false

/- The task list of Threadpool.c before `nThreadPoolDestory`: the sections of
`nThreadPoolPushTask` and of the workers that hold the mutex. -/
namespace LinuxCpp.ThreadPool

open C

structure NTask where
  taskFunc : Nat
  userData : Nat
  previous : Option Nat
  next : Option Nat
deriving DecidableEq, Repr

/-- `heap` has the task structures in memory. -/
structure Pool where
  heap : Nat → Option NTask
  tasks : Option Nat

namespace Pool

def deref (pool : Pool) (task : Nat) : Except Fault NTask :=
  match pool.heap task with
  | none => .error .wildDeref
  | some value => .ok value

def setTask (pool : Pool) (task : Nat) (value : NTask) : Pool :=
  { pool with heap := Function.update pool.heap task (some value) }

def setPrevious (pool : Pool) (task : Nat) (previous : Option Nat) : Except Fault Pool := do
  let value ← pool.deref task
  return pool.setTask task { value with previous := previous }

def setNext (pool : Pool) (task : Nat) (next : Option Nat) : Except Fault Pool := do
  let value ← pool.deref task
  return pool.setTask task { value with next := next }

end Pool

/-- `LIST_INSERT(item, pool->tasks)` -/
def listInsert (pool : Pool) (item : Nat) : Except Fault Pool := do
  let pool ← pool.setPrevious item none
  let pool ← pool.setNext item pool.tasks
  return { pool with tasks := some item }

/-- `LIST_REMOVE(item, pool->tasks)` -/
def listRemove (pool : Pool) (item : Nat) : Except Fault Pool := do
  let pool ← match (← pool.deref item).previous with
    | none => pure pool
    | some previous => pool.setNext previous (← pool.deref item).next
  let pool ← match (← pool.deref item).next with
    | none => pure pool
    | some next => pool.setPrevious next (← pool.deref item).previous
  let head ← if pool.tasks = some item then pure (← pool.deref item).next else pure pool.tasks
  let pool ← Pool.setNext { pool with tasks := head } item none
  pool.setPrevious item none

/-- The locked section of `nThreadPoolPushTask`. -/
def nThreadPoolPushTask (pool : Pool) (task : Nat) : Except Fault Pool :=
  listInsert pool task

/-- The locked section of a worker that is not told to terminate, with the task that it
goes on to run. Without a task it waits, and the wait gives the mutex away. -/
def nThreadPoolCallback (pool : Pool) : Except Fault (Pool × Option Nat) := do
  match pool.tasks with
  | none => return (pool, none)
  | some task => return (← listRemove pool task, some task)

/-- After `nThreadPoolCreate`. -/
def created (heap : Nat → Option NTask) : Pool := ⟨heap, none⟩

end LinuxCpp.ThreadPool
