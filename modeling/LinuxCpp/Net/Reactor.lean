import LinuxCpp.Net.Epoll
import LinuxCpp.Net.Exchange

set_option autoImplicit false

/- The epoll front end of `reactor.c` with `ENABLE_KVS`: one table of
connections, three callbacks, and the main loop over what `epoll_wait` reports.
The clock reads and prints of `accept_cb` are left out, and of `struct conn` the
fields that no callback reads. -/
namespace LinuxCpp.Net.Reactor

open Kvstore (bufferLength)

/-- `CONNECTION_SIZE`. -/
def connectionSize : Nat := 1024

/-- The size of the array given to `epoll_wait`. -/
def maxEvents : Nat := 1024

inductive Callback where
  | acceptCb
  | recvCb
  | sendCb
deriving DecidableEq

structure Conn where
  rbuffer : Buffer
  rlength : Int
  wbuffer : Buffer
  wlength : Int
  recvCallback : Option Callback
  sendCallback : Option Callback

/-- An entry of `conn_list` as the program starts. -/
def Conn.zeroed : Conn := ⟨Buffer.zeroed, 0, Buffer.zeroed, 0, none, none⟩

/-- The table, what the kernel holds, the store behind the handler, and all
that has happened on the connections. -/
structure Server (σ : Type) where
  connList : Nat → Conn
  kernel : Kernel
  store : σ
  trace : List (Nat × Event σ)

/-- What `recv` finds: some bytes, the end of the stream, or an error. -/
inductive Recv where
  | data (chunk : List UInt8)
  | disconnected
  | failed

/-- What the kernel answers to the calls made while one event is handled. -/
structure Answers where
  accept : Int
  recv : Recv

/-- A `struct epoll_event`. -/
structure Ready where
  fd : Nat
  events : Mask

section Callbacks

variable {σ : Type}

/-- An event on the connection that a descriptor stands for. -/
def Server.note (S : Server σ) (fd : Nat) (event : Event σ) : Server σ :=
  match S.kernel.sockets fd with
  | some (.connected peer) => { S with trace := S.trace ++ [(peer, event)] }
  | _ => S

def Server.setConn (S : Server σ) (fd : Nat) (c : Conn) : Server σ :=
  { S with connList := Function.update S.connList fd c }

def setEvent (S : Server σ) (fd : Nat) (event : Mask) (flag : Bool) : Server σ :=
  if flag then { S with kernel := S.kernel.epollAdd fd event }
  else { S with kernel := S.kernel.epollMod fd event }

/-- `none` is an access outside the table. -/
def eventRegister (S : Server σ) (fd : Int) (event : Mask) : Option (Server σ) :=
  if fd < 0 then some S
  else if fd.toNat < connectionSize then
    let c : Conn :=
      { S.connList fd.toNat with
        recvCallback := some .recvCb
        sendCallback := some .sendCb
        rbuffer := Buffer.zeroed
        rlength := 0
        wbuffer := Buffer.zeroed
        wlength := 0 }
    some (setEvent (S.setConn fd.toNat c) fd.toNat event true)
  else none

/-- The kernel has answered `clientfd` to `accept`. -/
def acceptCb (S : Server σ) (clientfd : Int) : Option (Server σ) :=
  if clientfd < 0 then some S
  else
    let S := { S with kernel := S.kernel.accept clientfd.toNat }
    eventRegister (S.note clientfd.toNat .accepted) clientfd .readable

def kvsRequest (handler : Handler σ) (S : Server σ) (fd : Nat) : Server σ :=
  let c := S.connList fd
  let call : Call σ := ⟨S.store, c.rbuffer, c.rlength, c.wbuffer⟩
  let answered := call.run handler
  let c : Conn :=
    { c with rbuffer := answered.msg, wbuffer := answered.response, wlength := answered.returned }
  ({ S with store := answered.store }.setConn fd c).note fd (.handled call)

/-- The kernel has answered `result` to `recv`. -/
def recvCb (handler : Handler σ) (S : Server σ) (fd : Nat) (result : Recv) : Server σ :=
  let S := S.setConn fd { S.connList fd with rbuffer := Buffer.zeroed }
  match result with
  | .data chunk =>
      let c := S.connList fd
      let S := (S.setConn fd { c with rbuffer := c.rbuffer.write chunk }).note fd (.received chunk)
      let S := S.setConn fd { S.connList fd with rlength := chunk.length }
      setEvent (kvsRequest handler S fd) fd .writable false
  | .disconnected | .failed =>
      let S := S.note fd .closed
      { S with kernel := (S.kernel.close fd).epollDel fd }

/-- The kernel takes the whole text. -/
def sendCb (S : Server σ) (fd : Nat) : Server σ :=
  let c := S.connList fd
  let S := if c.wlength ≠ 0 then S.note fd (.sent (c.wbuffer.front c.wlength.toNat)) else S
  setEvent S fd .readable false

/-- A call through the table; `none` is a call of a null pointer. -/
def runCallback (handler : Handler σ) (answers : Answers) (S : Server σ) (fd : Nat) :
    Option Callback → Option (Server σ)
  | none => none
  | some .acceptCb => acceptCb S answers.accept
  | some .recvCb => some (recvCb handler S fd answers.recv)
  | some .sendCb => some (sendCb S fd)

/-- The body of the main loop for one reported event. -/
def dispatch (handler : Handler σ) (answers : Answers) (S : Server σ) (e : Ready) :
    Option (Server σ) := do
  if connectionSize ≤ e.fd then none
  let S ←
    if e.events.epollin then runCallback handler answers S e.fd (S.connList e.fd).recvCallback
    else some S
  if e.events.epollout then runCallback handler answers S e.fd (S.connList e.fd).sendCallback
  else some S

end Callbacks

section Runs

variable {σ : Type}

/-- `reactor_start` up to its main loop, with `sockfd` from `init_server`. -/
def reactorStart (sockfd : Nat) (store : σ) : Server σ :=
  let S : Server σ :=
    { connList := fun _ => Conn.zeroed
      kernel :=
        { sockets := Function.update (fun _ => none) sockfd (some .listening)
          interest := fun _ => none
          accepted := 0 }
      store := store
      trace := [] }
  setEvent (S.setConn sockfd { S.connList sockfd with recvCallback := some .acceptCb })
    sockfd .readable true

/-- What `epoll_wait` may report: each descriptor once, with registered events. -/
structure Reported (K : Kernel) (events : List Ready) : Prop where
  few : events.length ≤ maxEvents
  once : (events.map Ready.fd).Nodup
  registered : ∀ e ∈ events, ∃ mask, K.interest e.fd = some mask ∧ e.events.Within mask

/-- What the kernel may answer: `accept` returns an error or a free descriptor
below `CONNECTION_SIZE`, `recv` some bytes that fit. -/
structure Answers.Admissible (answers : Answers) (K : Kernel) : Prop where
  accept : 0 ≤ answers.accept →
    K.sockets answers.accept.toNat = none ∧ answers.accept.toNat < connectionSize
  recv : ∀ chunk, answers.recv = .data chunk → 0 < chunk.length ∧ chunk.length ≤ bufferLength

/-- The server and what is left of the last report. -/
structure Loop (σ : Type) where
  server : Server σ
  batch : List Ready

inductive Step (handler : Handler σ) : Loop σ → Loop σ → Prop
  | wait {S : Server σ} {events : List Ready} : Reported S.kernel events →
      Step handler ⟨S, []⟩ ⟨S, events⟩
  | event {S S' : Server σ} {e : Ready} {rest : List Ready} {answers : Answers} :
      answers.Admissible S.kernel → dispatch handler answers S e = some S' →
      Step handler ⟨S, e :: rest⟩ ⟨S', rest⟩

/-- The states that the main loop passes through, in any run. -/
inductive Reachable (handler : Handler σ) : Loop σ → Prop
  | start {sockfd : Nat} {store : σ} : sockfd < connectionSize →
      Reachable handler ⟨reactorStart sockfd store, []⟩
  | step {L L' : Loop σ} : Reachable handler L → Step handler L L' → Reachable handler L'

end Runs

end LinuxCpp.Net.Reactor
