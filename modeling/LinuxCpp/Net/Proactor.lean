import LinuxCpp.Net.Epoll
import LinuxCpp.Net.Exchange

set_option autoImplicit false

/- The io_uring front end of `proactor.c`. Submissions name the memory they work
on: every receive names `buffer` and every send names `response`, two arrays of
`proactor_start`. The kernel completes what was submitted in any order, at any
time, also while a batch of completions is being handled. -/
namespace LinuxCpp.Net.Proactor

open Kvstore (bufferLength)

/-- The two arrays of `proactor_start`. -/
inductive Local where
  | buffer
  | response
deriving DecidableEq

/-- `EVENT_ACCEPT`, `EVENT_READ` and `EVENT_WRITE`. -/
inductive EventKind where
  | accept
  | read
  | write
deriving DecidableEq

structure ConnInfo where
  fd : Int
  event : EventKind

/-- A submission as `io_uring_prep_accept`, `_recv` and `_send` fill it. -/
inductive Sqe where
  | accept (fd : Int)
  | recv (fd : Int) (buf : Local) (len : Nat)
  | send (fd : Int) (buf : Local) (len : Int)

/-- The `conn_info` that `set_event_accept`, `_recv` and `_send` attach. -/
def Sqe.userData : Sqe → ConnInfo
  | .accept fd => ⟨fd, .accept⟩
  | .recv fd _ _ => ⟨fd, .read⟩
  | .send fd _ _ => ⟨fd, .write⟩

structure Cqe where
  userData : ConnInfo
  res : Int

/-- The number of completions that one batch takes. -/
def batchLength : Nat := 128

/-- `sq` holds what is prepared and not submitted, `inflight` what the kernel
works on, `cq` the completions not handled, `nready` how many of these belong
to the current batch. -/
structure Loop (σ : Type) where
  sockfd : Int
  sq : List Sqe
  inflight : List Sqe
  cq : List Cqe
  nready : Nat
  memory : Local → Buffer
  kernel : Kernel
  store : σ
  trace : List (Nat × Event σ)

/-- How the kernel completes a submission. A send goes out whole, or, where its length is
none of `response`, as far as the kernel gets with it. -/
inductive Outcome where
  | accepted (fd : Nat)
  | data (chunk : List UInt8)
  | disconnected
  | sent
  | overran (bytes : List UInt8)
  | failed (errno : Nat)

inductive Action where
  | submit
  | peek
  | handle
  | complete (i : Nat) (outcome : Outcome)

section Steps

variable {σ : Type}

/-- The connection that a descriptor stands for. -/
def Loop.peer (L : Loop σ) (fd : Int) : Option Nat :=
  if fd < 0 then none
  else
    match L.kernel.sockets fd.toNat with
    | some (.connected peer) => some peer
    | _ => none

def Loop.note (L : Loop σ) (fd : Int) (event : Event σ) : Loop σ :=
  match L.peer fd with
  | some peer => { L with trace := L.trace ++ [(peer, event)] }
  | none => L

def Loop.prepare (L : Loop σ) (sqe : Sqe) : Loop σ := { L with sq := L.sq ++ [sqe] }

def setEventAccept (L : Loop σ) (fd : Int) : Loop σ := L.prepare (.accept fd)

def setEventRecv (L : Loop σ) (fd : Int) (buf : Local) (len : Nat) : Loop σ :=
  L.prepare (.recv fd buf len)

def setEventSend (L : Loop σ) (fd : Int) (buf : Local) (len : Int) : Loop σ :=
  L.prepare (.send fd buf len)

def close (L : Loop σ) (fd : Int) : Loop σ :=
  if (L.peer fd).isSome then
    let L := L.note fd .closed
    { L with kernel := L.kernel.close fd.toNat }
  else L

/-- The call of `kvs_handler` on `buffer` for `ret` received bytes. -/
def Loop.call (L : Loop σ) (ret : Int) : Call σ :=
  ⟨L.store, L.memory .buffer, ret, L.memory .response⟩

def request (handler : Handler σ) (L : Loop σ) (fd ret : Int) : Loop σ :=
  let answered := (L.call ret).run handler
  let L :=
    { L.note fd (.handled (L.call ret)) with
      store := answered.store
      memory := fun
        | .buffer => answered.msg
        | .response => answered.response }
  setEventSend L fd .response answered.returned

/-- The body of the loop over a batch. -/
def handleEntry (handler : Handler σ) (L : Loop σ) (entry : Cqe) : Loop σ :=
  match entry.userData.event with
  | .accept => setEventRecv (setEventAccept L L.sockfd) entry.res .buffer bufferLength
  | .read =>
      if entry.res = 0 then close L entry.userData.fd
      else if 0 < entry.res then request handler L entry.userData.fd entry.res
      else L
  | .write => setEventRecv L entry.userData.fd .buffer bufferLength

def Loop.post (L : Loop σ) (sqe : Sqe) (res : Int) : Loop σ :=
  { L with cq := L.cq ++ [⟨sqe.userData, res⟩] }

/-- The kernel completes a submission; `none` where it could not end so. A
descriptor that `accept` returns was free, a receive delivers what fits, and a
send takes its bytes from the memory it names, when it completes. The length of a
send is the `u32` of the submission, so a negative one is about four billion: the
bytes of the array come first, and then what lies behind it on the stack. -/
def complete (L : Loop σ) (sqe : Sqe) (outcome : Outcome) : Option (Loop σ) :=
  match sqe, outcome with
  | .accept _, .accepted fd =>
      if L.kernel.sockets fd = none then
        some (({ L with kernel := L.kernel.accept fd }.note fd .accepted).post sqe fd)
      else none
  | .recv fd buf len, .data chunk =>
      if (L.peer fd).isSome ∧ 0 < chunk.length ∧ chunk.length ≤ len then
        let memory := Function.update L.memory buf ((L.memory buf).write chunk)
        some (({ L with memory := memory }.note fd (.received chunk)).post sqe chunk.length)
      else none
  | .recv _ _ _, .disconnected => some (L.post sqe 0)
  | .send fd buf len, .sent =>
      if (L.peer fd).isSome ∧ 0 ≤ len ∧ len ≤ bufferLength then
        some ((L.note fd (.sent ((L.memory buf).front len.toNat))).post sqe len)
      else none
  | .send fd buf len, .overran bytes =>
      if (L.peer fd).isSome ∧ ¬ (0 ≤ len ∧ len ≤ bufferLength) ∧ 0 < bytes.length ∧
          (bytes.length : Int) ≤ len % 2 ^ 32 ∧ bytes.length < 2 ^ 31 ∧
          bytes.take bufferLength = (L.memory buf).front bytes.length then
        some ((L.note fd (.sent bytes)).post sqe bytes.length)
      else none
  | .send fd _ _, .failed errno => some ((L.note fd .dropped).post sqe (-(errno + 1)))
  | _, .failed errno => some (L.post sqe (-(errno + 1)))
  | _, _ => none

def step (handler : Handler σ) (L : Loop σ) : Action → Option (Loop σ)
  | .submit =>
      if L.nready = 0 then some { L with inflight := L.inflight ++ L.sq, sq := [] } else none
  | .peek =>
      if L.nready = 0 ∧ L.sq.isEmpty ∧ L.cq ≠ [] then
        some { L with nready := min batchLength L.cq.length }
      else none
  | .handle =>
      match L.nready, L.cq with
      | nready + 1, entry :: rest =>
          some (handleEntry handler { L with nready := nready, cq := rest } entry)
      | _, _ => none
  | .complete i outcome =>
      match L.inflight[i]? with
      | some sqe => complete { L with inflight := L.inflight.eraseIdx i } sqe outcome
      | none => none

/-- `proactor_start` up to its loop, with `sockfd` from `p_init_server`. -/
def proactorStart (sockfd : Nat) (store : σ) : Loop σ :=
  let L : Loop σ :=
    { sockfd := sockfd
      sq := []
      inflight := []
      cq := []
      nready := 0
      memory := fun _ => Buffer.zeroed
      kernel :=
        { sockets := Function.update (fun _ => none) sockfd (some .listening)
          interest := fun _ => none
          accepted := 0 }
      store := store
      trace := [] }
  setEventAccept L sockfd

/-- The states of the runs all of whose steps are `allowed` where they are taken. -/
inductive Reachable (handler : Handler σ) (allowed : Loop σ → Action → Prop) : Loop σ → Prop
  | start {sockfd : Nat} {store : σ} : Reachable handler allowed (proactorStart sockfd store)
  | step {L L' : Loop σ} (a : Action) : Reachable handler allowed L → allowed L a →
      step handler L a = some L' → Reachable handler allowed L'

end Steps

end LinuxCpp.Net.Proactor
