import LinuxCpp.C.Strings
import Mathlib.Data.List.Sort
import Mathlib.Logic.Function.Basic

set_option autoImplicit false

/- The scheduler of NtyCo: `nty_schedule.c`, `nty_coroutine.c`, and the hooks of
`nty_socket.c` down to `nty_poll_inner`. The trees are the maps they keep; the queue
`defer` and the list `busy` are never filled. What a coroutine does between two
calls into the scheduler is its own, and so is left open. Times are microseconds
since `birth`. -/
namespace LinuxCpp.Ntyco

open C

/-- The bits of `co->status` that are written or tested. -/
structure Status where
  waitRead : Bool
  waitWrite : Bool
  new : Bool
  ready : Bool
  exited : Bool
  sleeping : Bool
  expired : Bool
  fdeof : Bool
  detach : Bool
deriving DecidableEq, Repr

def Status.zero : Status := ⟨false, false, false, false, false, false, false, false, false⟩

/-- Where a coroutine goes on: in `_exec`, in `nty_poll_inner` behind its yield, or
behind a yield with nothing left to do. -/
inductive Point where
  | entry
  | polling (fd : Int)
  | behind
deriving DecidableEq, Repr

/-- The events of a `struct pollfd` that decide something. -/
structure PollEvents where
  pollin : Bool
  pollout : Bool
deriving DecidableEq, Repr

/-- `struct _nty_coroutine` -/
structure Co where
  status : Status
  fd : Int
  events : PollEvents
  ops : Nat
  sleepUsecs : Nat
  point : Point
deriving DecidableEq, Repr

/-- An entry of `eventlist`. -/
structure Report where
  fd : Int
  eof : Bool
deriving DecidableEq, Repr

/-- Where `nty_schedule_run` stands: at the test of its loop, in the loop over the
expired, in the loop over the ready with its `last_co_ready`, before
`nty_schedule_epoll`, in the loop over the new events, or behind its loop. -/
inductive Stage where
  | top
  | expiring
  | ready (last : Option Nat)
  | polling
  | batch (left : List Report)
  | done
deriving DecidableEq, Repr

/-- `struct _nty_schedule`, the coroutines by the order of their creation, what the
poller watches, and all resumes so far. -/
structure Sched where
  heap : Nat → Option Co
  created : Nat
  ready : List Nat
  waiting : List (Int × Nat)
  sleeping : List (Nat × Nat)
  interest : Int → Option PollEvents
  spawned : Int
  curr : Option Nat
  stage : Stage
  resumed : List Nat

namespace Sched

/-- A freed coroutine has no fields. -/
def co (s : Sched) (id : Nat) : Except Fault Co :=
  match s.heap id with
  | none => .error .useAfterFree
  | some c => .ok c

def setCo (s : Sched) (id : Nat) (c : Co) : Sched :=
  { s with heap := Function.update s.heap id (some c) }

/-- `RB_FIND` by the descriptor. -/
def waiter (s : Sched) (fd : Int) : Option Nat := s.waiting.lookup fd

/-- A search or an insertion compares with members of the tree. Which ones depends
on its shape: all of them here. -/
def compareAll (s : Sched) : Except Fault Unit := s.sleeping.forM fun member => do
  let _ ← s.co member.2

end Sched

/-- A node that is linked a second time breaks the queue or the tree it is in. -/
def link (members : List Nat) (id : Nat) : Except Fault Unit :=
  if id ∈ members then .error .wildDeref else .ok ()

section Sleep

/-- The first key from `key` on that no member has. -/
def freeKey (keys : List Nat) : Nat → Nat → Except Fault Nat
  | 0, _ => .error .fuel
  | fuel + 1, key => if key ∈ keys then freeKey keys fuel (key + 1) else .ok key

def schedSleepdown (s : Sched) (id msecs now : Nat) : Except Fault Sched := do
  s.compareAll
  let co ← s.co id
  let sleeping := s.sleeping.filter fun member => member.1 ≠ co.sleepUsecs
  let usecs := now + msecs * 1000
  if msecs = 0 then
    return { s with sleeping := sleeping }.setCo id { co with sleepUsecs := usecs }
  let key ← freeKey (sleeping.map Prod.fst) (sleeping.length + 1) usecs
  link (sleeping.map Prod.snd) id
  let sleeping := sleeping.orderedInsert (fun a b => a.1 ≤ b.1) (key, id)
  return { s with sleeping := sleeping }.setCo id
    { co with sleepUsecs := key, status := { co.status with sleeping := true } }

def deschedSleepdown (s : Sched) (id : Nat) : Except Fault Sched := do
  let co ← s.co id
  if co.status.sleeping then
    return { s with sleeping := s.sleeping.filter fun member => member.2 ≠ id }.setCo id
      { co with status := { co.status with sleeping := false, ready := true, expired := false } }
  return s

end Sleep

section Wait

/-- `co->status = 0` also where nothing was found. -/
def searchWait (s : Sched) (fd : Int) : Except Fault (Nat × Sched) :=
  match s.waiter fd with
  | none => .error .nullDeref
  | some id => do
      let co ← s.co id
      return (id, s.setCo id { co with status := .zero })

def deschedWait (s : Sched) (fd : Int) : Except Fault Sched :=
  match s.waiter fd with
  | none => .error .nullDeref
  | some id => do
      let s := { s with waiting := s.waiting.filter fun member => member.1 ≠ fd }
      let co ← s.co id
      deschedSleepdown (s.setCo id { co with status := .zero }) id

/-- With the timeout 1 of all hooks, which is no timeout. The bits that are set here
are those of the numbers `NTY_COROUTINE_STATUS_WAIT_READ` and `_WAIT_WRITE`, which
are 0 and 1: no bit, and the one that stands for reading. -/
def schedWait (s : Sched) (id : Nat) (fd : Int) (events : PollEvents) : Except Fault Sched := do
  let co ← s.co id
  if co.status.waitRead || co.status.waitWrite then throw .abort
  let status ←
    if events.pollin then pure co.status
    else if events.pollout then pure { co.status with waitRead := true }
    else throw .abort
  let s := s.setCo id { co with status := status, fd := fd, events := events }
  match s.waiter fd with
  | some _ => throw .abort
  | none => do
      link (s.waiting.map Prod.snd) id
      return { s with waiting := (fd, id) :: s.waiting }

end Wait

section Coroutines

def freeCo (s : Sched) (id : Nat) : Except Fault Sched := do
  let _ ← s.co id
  return { s with spawned := s.spawned - 1, heap := Function.update s.heap id none }

/-- Back in the loop of `nty_schedule_run` that has called `nty_coroutine_resume`. -/
def returned (s : Sched) (id : Nat) : Sched :=
  match s.stage with
  | .ready last => if last = some id then { s with stage := .polling } else s
  | _ => s

/-- `nty_coroutine_yield`, and what `nty_coroutine_resume` does behind its switch. -/
def yieldAt (s : Sched) (id : Nat) (point : Point) : Except Fault Sched := do
  let co ← s.co id
  let s := { s with curr := none }.setCo id { co with ops := 0, point := point }
  if co.status.exited && co.status.detach then
    return returned (← freeCo s id) id
  return returned s id

/-- `nty_coroutine_resume` up to the first thing that the coroutine does by itself. -/
def resume (s : Sched) (id : Nat) : Except Fault Sched := do
  let co ← s.co id
  let status := if co.status.new then { Status.zero with ready := true } else co.status
  let s := { s with curr := some id, resumed := s.resumed ++ [id] }.setCo id
    { co with status := status, point := .behind }
  match co.point with
  | .polling fd => deschedWait { s with interest := Function.update s.interest fd none } fd
  | _ => return s

def createCo (s : Sched) : Sched :=
  { s with
    heap := Function.update s.heap s.created
      (some ⟨{ Status.zero with new := true }, -1, ⟨false, false⟩, 0, 0, .entry⟩)
    created := s.created + 1
    spawned := s.spawned + 1
    ready := s.ready ++ [s.created] }

/-- `TAILQ_INSERT_TAIL` into `ready`, and a yield. -/
def yieldReady (s : Sched) (id : Nat) : Except Fault Sched := do
  link s.ready id
  yieldAt { s with ready := s.ready ++ [id] } id .behind

/-- What a running coroutine calls. -/
inductive Action where
  | create (granted : Bool)
  | poll (fd : Int) (events : PollEvents) (added : Bool)
  | sleep (msecs now : Nat)
  | renice
  | detach
  | close (fd : Int)
  | exit
deriving DecidableEq, Repr

/-- `epoll_ctl` with `EPOLL_CTL_ADD`, which the kernel may refuse. -/
def epollAdd (s : Sched) (fd : Int) (events : PollEvents) (added : Bool) : Sched :=
  if added && (s.interest fd).isNone then
    { s with interest := Function.update s.interest fd (some events) }
  else s

def act (s : Sched) (id : Nat) : Action → Except Fault Sched
  | .create granted => .ok (if granted then createCo s else s)
  | .poll fd events added => do
      let s ← schedWait (epollAdd s fd events added) id fd events
      yieldAt s id (.polling fd)
  | .sleep msecs now =>
      if msecs = 0 then yieldReady s id else schedSleepdown s id msecs now
  | .renice => do
      let co ← s.co id
      let s := s.setCo id { co with ops := co.ops + 1 }
      if co.ops + 1 < 5 then return s
      yieldReady s id
  | .detach => do
      let co ← s.co id
      return s.setCo id { co with status := { co.status with detach := true } }
  | .close fd => .ok { s with interest := Function.update s.interest fd none }
  | .exit => do
      let co ← s.co id
      let status := { co.status with exited := true, fdeof := true, detach := true }
      yieldAt (s.setCo id { co with status := status }) id .behind

end Coroutines

section Loop

/-- `nty_schedule_isdone` -/
def isdone (s : Sched) : Bool := s.waiting.isEmpty && s.sleeping.isEmpty && s.ready.isEmpty

/-- `sched->default_timeout` -/
def defaultTimeout : Nat := 3000000

def minTimeout (s : Sched) (now : Nat) : Except Fault Nat :=
  match s.sleeping with
  | [] => .ok defaultTimeout
  | (key, id) :: _ => do
      let _ ← s.co id
      return key - now

/-- One test of `nty_schedule_expired`, which takes the coroutine out of the tree. -/
def expired (s : Sched) (now : Nat) : Except Fault (Option Nat × Sched) :=
  match s.sleeping with
  | [] => .ok (none, s)
  | (key, id) :: rest => do
      let _ ← s.co id
      return if key ≤ now then (some id, { s with sleeping := rest }) else (none, s)

/-- The next move of `nty_schedule_run`, where the clock says `now` and `epoll_wait`,
if it is called, reports some events. They are served from the last one on. -/
def schedMove (s : Sched) (now : Nat) (reported : List Report) : Except Fault Sched :=
  match s.stage with
  | .top => .ok { s with stage := if isdone s then .done else .expiring }
  | .expiring => do
      match ← expired s now with
      | (some id, s) => resume s id
      | (none, s) => return { s with stage := .ready s.ready.getLast? }
  | .ready _ =>
      match s.ready with
      | [] => .ok { s with stage := .polling }
      | id :: rest => do
          let s := { s with ready := rest }
          let co ← s.co id
          if co.status.fdeof then
            return { ← freeCo s id with stage := .polling }
          resume s id
  | .polling => do
      let usecs ← minTimeout s now
      if usecs ≠ 0 ∧ s.ready = [] then
        return { s with stage := .batch reported.reverse }
      return { s with stage := .top }
  | .batch [] => .ok { s with stage := .top }
  | .batch (report :: left) => do
      let (id, s) ← searchWait { s with stage := .batch left } report.fd
      let co ← s.co id
      resume (s.setCo id { co with status := { co.status with fdeof := report.eof } }) id
  | .done => .ok s

/-- What happens next: a move of the scheduler, or a call of the running coroutine.
An event that is not due changes nothing. -/
inductive Event where
  | move (now : Nat) (reported : List Report)
  | call (action : Action)
deriving DecidableEq, Repr

def step (s : Sched) : Event → Except Fault Sched
  | .move now reported =>
      match s.curr with
      | none => schedMove s now reported
      | some _ => .ok s
  | .call action =>
      match s.curr with
      | none => .ok s
      | some id => act s id action

/-- `nty_schedule_create`, and as many `nty_coroutine_create` in front of
`nty_schedule_run`. -/
def start (n : Nat) : Sched :=
  Nat.repeat createCo n ⟨fun _ => none, 0, [], [], [], fun _ => none, 0, none, .top, []⟩

end Loop

end LinuxCpp.Ntyco
