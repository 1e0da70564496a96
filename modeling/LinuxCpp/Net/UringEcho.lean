import LinuxCpp.C.Returns
import LinuxCpp.Trace.Along

set_option autoImplicit false

/- The echo server of `uring_tcp_server.c`. The kernel completes what was submitted in any
order, at any time and with any result. Of what the server prints, only the number that it
prints as a string is here, and a connection is known by the number of its accept, whatever
its descriptor is. -/
namespace LinuxCpp.Net.UringEcho

open C Trace

def eventAccept : Nat := 0

def eventRead : Nat := 1

def eventWrite : Nat := 1

def entriesLength : Nat := 1024

/-- The number of completions that one batch takes. -/
def batchLength : Nat := 128

structure ConnInfo where
  fd : Int
  event : Nat
deriving DecidableEq, Repr

inductive Op where
  | accept
  | recv
  | send
deriving DecidableEq, Repr

/-- A submission, with the connection that it is for. -/
structure Sqe where
  op : Op
  fd : Int
  len : Int
  conn : Option Nat
deriving DecidableEq, Repr

/-- The `conn_info` that `set_event_accept`, `_recv` and `_send` attach. -/
def Sqe.userData (sqe : Sqe) : ConnInfo :=
  match sqe.op with
  | .accept => ⟨sqe.fd, eventAccept⟩
  | .recv => ⟨sqe.fd, eventRead⟩
  | .send => ⟨sqe.fd, eventWrite⟩

/-- What the kernel says of a submission. The server reads `user_data` and `res`. -/
structure Cqe where
  sqe : Sqe
  res : Int
deriving DecidableEq, Repr

/-- `sq` holds what is prepared and not submitted, `inflight` what the kernel works on, `cq`
the completions not handled, `nready` how many of these belong to the current batch.
`sent` counts the sends, and `received` the completions of a receive with a positive
result, of each connection. -/
structure Loop where
  sockfd : Int
  sq : List Sqe
  inflight : List Sqe
  cq : List Cqe
  nready : Nat
  accepted : Nat
  sent : Nat → Nat
  received : Nat → Nat

/-- One more for this connection. -/
def bump (count : Nat → Nat) : Option Nat → Nat → Nat
  | none => count
  | some conn => Function.update count conn (count conn + 1)

/-- `io_uring_get_sqe` and what is filled in. It returns NULL if the ring is full. -/
def Loop.prepare (L : Loop) (sqe : Sqe) : Except Fault Loop :=
  if L.sq.length < entriesLength then .ok { L with sq := L.sq ++ [sqe] } else .error .nullDeref

def setEventAccept (L : Loop) (sockfd : Int) : Except Fault Loop :=
  L.prepare ⟨.accept, sockfd, 0, none⟩

def setEventRecv (L : Loop) (conn : Option Nat) (sockfd len : Int) : Except Fault Loop :=
  L.prepare ⟨.recv, sockfd, len, conn⟩

def setEventSend (L : Loop) (conn : Option Nat) (sockfd len : Int) : Except Fault Loop := do
  let L ← L.prepare ⟨.send, sockfd, len, conn⟩
  return { L with sent := bump L.sent conn }

/-- `ret` of the format `"... len: ret%s\n"`: the number is taken for the address of a string.
NULL prints as `(null)`, and no other `int` is the address of one. -/
def printRet (ret : Int) : Except Fault Unit :=
  if ret = 0 then .ok () else .error .wildDeref

/-- The body of the loop over a batch. Each accept begins a connection, also one that has
failed; `close` ends it. -/
def handleEntry (L : Loop) (entries : Cqe) : Except Fault Loop := do
  let result := entries.sqe.userData
  if result.event = eventAccept then
    let L ← setEventAccept L L.sockfd
    setEventRecv { L with accepted := L.accepted + 1 } (some L.accepted) entries.res 1024
  else if result.event = eventRead then
    printRet entries.res
    if entries.res = 0 then return L
    else if 0 < entries.res then setEventSend L entries.sqe.conn result.fd entries.res
    else return L
  else if result.event = eventWrite then
    printRet entries.res
    setEventRecv L entries.sqe.conn result.fd 1024
  else return L

inductive Action where
  | submit
  | peek
  | handle
  | complete (i : Nat) (res : Int)
deriving DecidableEq, Repr

/-- An action that is not the next one of the loop, or completes nothing, does nothing. -/
def step (L : Loop) : Action → Except Fault Loop
  | .submit =>
      if L.nready = 0 then .ok { L with inflight := L.inflight ++ L.sq, sq := [] } else .ok L
  | .peek =>
      if L.nready = 0 ∧ L.sq = [] then .ok { L with nready := min batchLength L.cq.length }
      else .ok L
  | .handle =>
      match L.nready, L.cq with
      | nready + 1, entries :: rest => handleEntry { L with nready := nready, cq := rest } entries
      | _, _ => .ok L
  | .complete i res =>
      match L.inflight[i]? with
      | none => .ok L
      | some sqe => .ok { L with
          inflight := L.inflight.eraseIdx i
          cq := L.cq ++ [⟨sqe, res⟩]
          received := if sqe.op = .recv ∧ 0 < res then bump L.received sqe.conn else L.received }

/-- The server in front of its loop. -/
def start (sockfd : Int) : Loop where
  sockfd := sockfd
  sq := [⟨.accept, sockfd, 0, none⟩]
  inflight := []
  cq := []
  nready := 0
  accepted := 0
  sent := fun _ => 0
  received := fun _ => 0

def Loop.EchoesOnce (L : Loop) : Prop := ∀ conn, L.sent conn ≤ L.received conn

/-- A completion that is handled is the one of an accept, or its result is 0. -/
def Meets (L : Loop) (action : Action) : Prop :=
  action = .handle → L.nready ≠ 0 → ∀ entries rest, L.cq = entries :: rest →
    entries.sqe.op ≠ .accept → entries.res = 0

/-- The ring for submissions has room for two of each completion in the batch. -/
def Loop.Roomy (L : Loop) : Prop := L.sq.length + 2 * L.nready ≤ 2 * batchLength

section Handle

variable {L L' : Loop} {entries : Cqe} {action : Action}

theorem prepare_ok (room : L.sq.length < entriesLength) (sqe : Sqe) :
    L.prepare sqe = .ok { L with sq := L.sq ++ [sqe] } := if_pos room

theorem prepare_sent {sqe : Sqe} (prepared : L.prepare sqe = .ok L') : L'.sent = L.sent := by
  rw [Loop.prepare] at prepared
  split at prepared
  · cases prepared
    rfl
  · cases prepared

/-- The tag of a receive is also the one of a send. -/
theorem userData_event (sqe : Sqe) :
    sqe.userData.event = if sqe.op = .accept then eventAccept else eventRead := by
  cases op : sqe.op with
  | accept => rw [Sqe.userData, op, if_pos rfl]
  | recv => rw [Sqe.userData, op, if_neg (by decide)]
  | send =>
      rw [Sqe.userData, op, if_neg (by decide)]
      rfl

theorem handleEntry_accept (isAccept : entries.sqe.op = .accept) :
    handleEntry L entries = (do
      let L ← setEventAccept L L.sockfd
      setEventRecv { L with accepted := L.accepted + 1 } (some L.accepted) entries.res 1024) := by
  have tagged : entries.sqe.userData.event = eventAccept := by
    rw [userData_event, if_pos isAccept]
  rw [handleEntry, if_pos tagged]

/-- Behind the print of a receive or a send, the result is 0: the server goes on only where
it closes the connection. -/
theorem handleEntry_other (other : entries.sqe.op ≠ .accept) :
    handleEntry L entries = if entries.res = 0 then .ok L else .error .wildDeref := by
  have tagged : entries.sqe.userData.event = eventRead := by
    rw [userData_event, if_neg other]
  have noAccept : eventRead ≠ eventAccept := by decide
  simp only [handleEntry, tagged, if_neg noAccept, if_true, printRet]
  by_cases zero : entries.res = 0
  · simp only [if_pos zero]
    rfl
  · simp only [if_neg zero]
    rfl

theorem handleEntry_sent (handled : handleEntry L entries = .ok L') : L'.sent = L.sent := by
  by_cases isAccept : entries.sqe.op = .accept
  · rw [handleEntry_accept isAccept] at handled
    obtain ⟨next, first, second⟩ := ok_of_bind handled
    have same : next.sent = L.sent := prepare_sent first
    have second := prepare_sent second
    exact second.trans same
  · rw [handleEntry_other isAccept] at handled
    split at handled
    · cases handled
      rfl
    · cases handled

/-- Two submissions at most are prepared for a completion. -/
theorem handleEntry_ok (room : L.sq.length + 1 < entriesLength)
    (meets : entries.sqe.op ≠ .accept → entries.res = 0) :
    ∃ L', handleEntry L entries = .ok L' ∧ L'.nready = L.nready ∧
      L'.sq.length ≤ L.sq.length + 2 := by
  by_cases isAccept : entries.sqe.op = .accept
  · have first := prepare_ok (Nat.lt_of_succ_lt room)
    have second : ∀ sqe sqe' : Sqe, Loop.prepare
        { L with sq := L.sq ++ [sqe], accepted := L.accepted + 1 } sqe' =
          .ok { L with sq := L.sq ++ [sqe] ++ [sqe'], accepted := L.accepted + 1 } :=
      fun sqe sqe' => prepare_ok (by simpa using room) sqe'
    rw [handleEntry_accept isAccept, setEventAccept, first, ok_bind, setEventRecv, second]
    refine ⟨_, rfl, rfl, ?_⟩
    simp only [List.length_append, List.length_singleton]
    omega
  · rw [handleEntry_other isAccept, if_pos (meets isAccept)]
    exact ⟨L, rfl, rfl, Nat.le_add_right _ 2⟩

end Handle

section Runs

variable {L L' : Loop} {action : Action}

/-- No step of the server submits a send. -/
theorem step_sent (stepped : step L action = .ok L') : L'.sent = L.sent := by
  cases action with
  | submit =>
      rw [step] at stepped
      split at stepped <;> cases stepped <;> rfl
  | peek =>
      rw [step] at stepped
      split at stepped <;> cases stepped <;> rfl
  | handle =>
      rw [step] at stepped
      split at stepped
      · have handled := handleEntry_sent stepped
        exact handled
      · cases stepped
        rfl
  | complete i res =>
      rw [step] at stepped
      split at stepped <;> cases stepped <;> rfl

theorem step_roomy (roomy : L.Roomy) (meets : Meets L action) :
    ∃ L', step L action = .ok L' ∧ L'.Roomy := by
  cases action with
  | submit =>
      by_cases idle : L.nready = 0
      · refine ⟨_, if_pos idle, ?_⟩
        simp only [Loop.Roomy, idle, List.length_nil]
        omega
      · exact ⟨L, if_neg idle, roomy⟩
  | peek =>
      by_cases idle : L.nready = 0 ∧ L.sq = []
      · refine ⟨_, if_pos idle, ?_⟩
        simp only [Loop.Roomy, idle.2, List.length_nil]
        omega
      · exact ⟨L, if_neg idle, roomy⟩
  | handle =>
      rw [step]
      split
      · rename_i nready entries rest ready holds
        have batch : batchLength = 128 := rfl
        have entriesMany : entriesLength = 1024 := rfl
        rw [Loop.Roomy, ready] at roomy
        obtain ⟨L', ran, sameReady, few⟩ := handleEntry_ok
          (L := { L with nready := nready, cq := rest }) (by dsimp only; omega)
          (meets rfl (by omega) entries rest holds)
        refine ⟨L', ran, ?_⟩
        rw [Loop.Roomy, sameReady]
        dsimp only at few ⊢
        omega
      · exact ⟨L, rfl, roomy⟩
  | complete i res =>
      rw [step]
      split
      · exact ⟨L, rfl, roomy⟩
      · exact ⟨_, rfl, roomy⟩

/-- A step that does not meet the condition ends the server. -/
theorem meets_of_step (stepped : step L action = .ok L') : Meets L action := by
  rintro rfl busy entries rest holds other
  obtain ⟨nready, ready⟩ := Nat.exists_eq_succ_of_ne_zero busy
  simp only [step, ready, holds] at stepped
  by_contra nonzero
  rw [handleEntry_other other, if_neg nonzero] at stepped
  cases stepped

end Runs

theorem start_roomy (sockfd : Int) : (start sockfd).Roomy :=
  (by decide : 1 + 2 * 0 ≤ 2 * batchLength)

/-- On no connection the server sends more often than it has received: the print of a positive
result ends it before the send. -/
theorem echoes_once (sockfd : Int) (actions : List Action) :
    Throughout step Loop.EchoesOnce (start sockfd) actions := by
  intro past later whole mid ran conn
  have always : Along step (fun _ _ => True) (start sockfd) past :=
    .of_mem (fun _ _ => trivial) _
  have none_ : mid.sent = fun _ => 0 := by
    refine always.invariant (fun L => L.sent = fun _ => 0) rfl ?_ ran
    intro before action after holds _ stepped
    exact (step_sent stepped).trans holds
  rw [none_]
  exact Nat.zero_le _

/-- The server goes on exactly as long as every receive that it handles has found the end of
its connection. -/
theorem server_survives_iff (sockfd : Int) (actions : List Action) :
    (∃ last, runs step (start sockfd) actions = .ok last) ↔
      Along step Meets (start sockfd) actions :=
  completes_iff Loop.Roomy (start_roomy sockfd) (fun _ _ roomy meets => step_roomy roomy meets)
    fun _ _ _ _ stepped => meets_of_step stepped

/-- One message of five bytes is enough to end the server. -/
example : runs step (start 3) [.submit, .complete 0 4, .peek, .handle, .submit, .complete 1 5,
    .peek, .handle] = .error .wildDeref := by
  rfl

end LinuxCpp.Net.UringEcho
