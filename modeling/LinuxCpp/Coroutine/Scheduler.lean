import LinuxCpp.C.Block

set_option autoImplicit false

/- The coroutine server of reactor_coroutine.c: the connection table, the coroutines in
the heap, and the ready queue through their `next` fields. Of what a handler sends, only
whether the server gets through it is here; `send_cb` is left out: nothing asks for EPOLLOUT. -/
namespace LinuxCpp.Coroutine

open C

def bufferLength : Nat := 1024

def connectionSize : Nat := 1048576

/-- `enum CoroutineState` -/
inductive CoState where
  | ready
  | running
  | suspend
  | dead
deriving DecidableEq, Repr

/-- Where a coroutine goes on: at `coroutine_entry`, in the `coroutine_yield` behind its
function, or nowhere, since its context has returned to `uc_link`. -/
inductive Ctx where
  | entry
  | yielded
  | returned
deriving DecidableEq, Repr

/-- `struct coroutine`. Its function is `coroutine_handler` and `arg` a place in the table
of connections; `next` is written by `schedule_add` before it is read. -/
structure Co where
  state : CoState
  ctx : Ctx
  stack : Nat
  arg : Nat
  next : Option Nat
deriving DecidableEq, Repr

/-- `struct conn` -/
structure Conn where
  fd : Nat
  rbuffer : Block bufferLength
  rlength : Nat
  co : Option Nat
deriving DecidableEq, Repr

/-- An execution of `coroutine_handler` up to its end: the connection as it found it. -/
structure Handled where
  fd : Nat
  rbuffer : Block bufferLength
  rlength : Nat
deriving DecidableEq, Repr

/-- The table, the scheduler, the open descriptors, and the executions of the last pass. -/
structure Server where
  conns : Nat → Conn
  heap : Nat → Option Co
  running : Option Nat
  readyQueueHead : Option Nat
  readyQueueTail : Option Nat
  opened : List Nat
  handled : List Handled

namespace Server

/-- The server before its first client; the table is zeroed. -/
def start : Server := ⟨fun _ => ⟨0, .zeroed _, 0, none⟩, fun _ => none, none, none, none, [], []⟩

/-- `*co` -/
def deref (s : Server) (co : Nat) : Except Fault Co :=
  match s.heap co with
  | none => .error .useAfterFree
  | some value => .ok value

/-- `*co = value` -/
def setCo (s : Server) (co : Nat) (value : Co) : Server :=
  { s with heap := Function.update s.heap co (some value) }

def setConn (s : Server) (fd : Nat) (c : Conn) : Server :=
  { s with conns := Function.update s.conns fd c }

/-- `co->state = state` -/
def setState (s : Server) (co : Nat) (state : CoState) : Except Fault Server := do
  return s.setCo co { ← s.deref co with state := state }

end Server

/-- Neither result of `malloc` is looked at: the first is written to, and `makecontext`
writes to the stack. -/
def coroutineCreate (s : Server) (arg : Nat) : CM (Nat × Server) := do
  match ← malloc with
  | none => throw .nullDeref
  | some co =>
      match ← malloc with
      | none => throw .nullDeref
      | some stack => return (co, s.setCo co ⟨.ready, .entry, stack, arg, none⟩)

def coroutineDestroy (s : Server) (co : Nat) : CM Server := do
  let value ← s.deref co
  freeBlock value.stack
  freeBlock co
  return { s with heap := Function.update s.heap co none }

def scheduleAdd (s : Server) (co : Nat) : Except Fault Server := do
  let s ← match s.readyQueueTail with
    | some tail => pure (s.setCo tail { ← s.deref tail with next := some co })
    | none => pure { s with readyQueueHead := some co }
  let s := { s with readyQueueTail := some co }
  return s.setCo co { ← s.deref co with next := none }

/-- Back to the main context. -/
def coroutineYield (s : Server) : Except Fault Server := do
  match s.running with
  | none => return s
  | some curr => return s.setCo curr { ← s.deref curr with state := .suspend, ctx := .yielded }

/-- What becomes of a `send` or `sendfile`: the kernel takes bytes, or it fails, or the peer
has closed the connection and SIGPIPE ends the process, or the peer never reads and the
call never returns. -/
inductive Transfer where
  | sent (count : Nat)
  | failed
  | killed
  | blocked
deriving DecidableEq, Repr

def Transfer.result : Transfer → Except Fault Int
  | sent count => .ok count
  | failed => .ok (-1)
  | killed => .error .killed
  | blocked => .error .blocked

/-- What `http_response` meets: no picture, and what becomes of the 404 text, or else what
becomes of the header and of the picture. -/
inductive Answer where
  | missing (text : Transfer)
  | picture (header body : Transfer)
deriving DecidableEq, Repr

def httpResponse : Answer → Except Fault Int
  | .missing text => do
      let _ ← text.result
      return -1
  | .picture header body => do
      if (← header.result) < 0 then return -1
      if (← body.result) < 0 then return -1
      return 0

/-- `answers` has what the response on each descriptor meets. -/
def coroutineHandler (answers : Nat → Answer) (s : Server) (arg : Nat) : Except Fault Server := do
  let c := s.conns arg
  let _ ← httpResponse (answers c.fd)
  let execution : Handled := ⟨c.fd, c.rbuffer, c.rlength⟩
  let s := { s with handled := s.handled ++ [execution], opened := s.opened.erase c.fd }
  match c.co with
  | none => throw .nullDeref
  | some co => s.setState co .dead

def coroutineEntry (answers : Nat → Answer) (s : Server) (co : Nat) : Except Fault Server := do
  let s ← coroutineHandler answers s (← s.deref co).arg
  coroutineYield (← s.setState co .dead)

/-- The scheduler calls it from the main context. A coroutine that is switched to behind
its function returns, and its context is used up. -/
def coroutineResume (answers : Nat → Answer) (s : Server) (co : Nat) : Except Fault Server := do
  let value ← s.deref co
  if value.state = .dead then return s
  let curr := s.running
  let s := { s.setCo co { value with state := .running } with running := some co }
  let s ← match value.ctx with
    | .entry => coroutineEntry answers s co
    | .yielded => pure (s.setCo co { value with state := .running, ctx := .returned })
    | .returned => throw .wildDeref
  return { s with running := curr }

/-- The loop, with a bound on its rounds. -/
def executeReadyCoroutines (answers : Nat → Answer) : Nat → Server → CM Server
  | bound, s =>
      match s.readyQueueHead, bound with
      | none, _ => return s
      | some _, 0 => throw .fuel
      | some co, bound + 1 => do
          let value ← s.deref co
          let s := { s with
            readyQueueHead := value.next,
            readyQueueTail := if value.next = none then none else s.readyQueueTail }
          if value.state = .dead then
            executeReadyCoroutines answers bound (← coroutineDestroy s co)
          else
            executeReadyCoroutines answers bound (← coroutineResume answers s co)

/-- What one `recv` delivers. -/
structure Data where
  bytes : List UInt8
  nonempty : bytes ≠ []
  fits : bytes.length ≤ bufferLength
deriving DecidableEq, Repr

/-- An event of the loop: `accept` with the descriptor that it returns, or EPOLLIN on a
connection with what `recv` does. -/
inductive Event where
  | accept (clientfd : Int)
  | receive (fd : Nat) (data : Data)
  | disconnect (fd : Nat)
deriving DecidableEq, Repr

def acceptCb (s : Server) (clientfd : Int) : Except Fault Server :=
  if clientfd < 0 then .ok s
  else if connectionSize ≤ clientfd then .error .outOfBounds
  else
    let fd := clientfd.toNat
    .ok { s.setConn fd ⟨fd, .zeroed _, 0, (s.conns fd).co⟩ with opened := fd :: s.opened }

/-- `recv_cb` with data. -/
def recvData (s : Server) (fd : Nat) (data : Data) : CM Server := do
  let c := { s.conns fd with
    rbuffer := .holding data.bytes data.fits
    rlength := data.bytes.length }
  match c.co with
  | none => do
      let (co, s) ← coroutineCreate (s.setConn fd c) fd
      scheduleAdd (s.setConn fd { c with co := some co }) co
  | some co => scheduleAdd (s.setConn fd c) co

/-- `recv_cb` with a result that is not positive. -/
def recvNothing (s : Server) (fd : Nat) : Except Fault Server := do
  let c := { s.conns fd with rbuffer := .zeroed _ }
  let s := s.setConn fd c
  let s ← match c.co with
    | none => pure s
    | some co => s.setState co .dead
  return { s with opened := s.opened.erase fd }

def dispatch (s : Server) : Event → CM Server
  | .accept clientfd => acceptCb s clientfd
  | .receive fd data => recvData s fd data
  | .disconnect fd => recvNothing s fd

def dispatchAll (s : Server) : List Event → CM Server
  | [] => return s
  | event :: rest => do dispatchAll (← dispatch s event) rest

/-- What a round of the main loop meets: the events, and what the responses on each
descriptor come to. -/
structure Round where
  events : List Event
  answers : Nat → Answer

/-- A round of the main loop. An event puts one coroutine on the queue at most. -/
def mainRound (d : Server × Allocator) (round : Round) : Except Fault (Server × Allocator) :=
  (do
    let s ← dispatchAll d.1 round.events
    executeReadyCoroutines round.answers round.events.length { s with handled := [] } :
      CM Server) d.2

end LinuxCpp.Coroutine
