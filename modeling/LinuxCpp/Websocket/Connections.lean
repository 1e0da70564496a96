import LinuxCpp.Trace.Along
import LinuxCpp.Websocket.Handshake
import Mathlib.Logic.Function.Basic

set_option autoImplicit false

/- The table of connections of Reactor.c with the WebSocket branches of `recv_cb` and
`send_cb`. -/
namespace LinuxCpp.Websocket

open C Trace

def connectionSize : Nat := 1048576

/-- What `set_event` asked for last. -/
inductive Interest where
  | epollin
  | epollout
deriving DecidableEq, Repr

def Conn.zeroed : Conn := ⟨.zeroed _, 0, .zeroed _, 0, none, .zeroed _, 0⟩

/-- A descriptor without an interest is closed. `requests` has, for the connection that a
descriptor stands for, the entry of the table in front of and behind each of its requests. -/
structure Server where
  connList : Nat → Conn
  interest : Nat → Option Interest
  requests : Nat → List (Conn × Conn)

/-- The zeroed table, without connections. -/
def Server.start : Server := ⟨fun _ => .zeroed, fun _ => none, fun _ => []⟩

/-- What is known of one descriptor. -/
def Server.put (S : Server) (fd : Nat) (c : Conn) (interest : Option Interest)
    (requests : List (Conn × Conn)) : Server where
  connList := Function.update S.connList fd c
  interest := Function.update S.interest fd interest
  requests := Function.update S.requests fd requests

section Put

variable {S : Server} {fd : Nat} {c : Conn} {interest : Option Interest}
  {requests : List (Conn × Conn)}

@[simp] theorem put_connList : (S.put fd c interest requests).connList fd = c :=
  Function.update_self ..

@[simp] theorem put_interest : (S.put fd c interest requests).interest fd = interest :=
  Function.update_self ..

@[simp] theorem put_requests : (S.put fd c interest requests).requests fd = requests :=
  Function.update_self ..

end Put

def eventRegister (S : Server) (fd : Nat) : Except Fault Server :=
  if fd < connectionSize then
    let c := { S.connList fd with
      rbuffer := .zeroed _, rlength := 0, wbuffer := .zeroed _, wlength := 0 }
    .ok (S.put fd c (some .epollin) [])
  else .error .outOfBounds

def closeConn (S : Server) (fd : Nat) : Server :=
  S.put fd { S.connList fd with rbuffer := .zeroed _ } none (S.requests fd)

/-- `recv_cb`, when `recv` reads these bytes. -/
def recvCb (ssl : Openssl) (S : Server) (fd : Nat) (data : List UInt8)
    (fits : data.length ≤ bufferLength) : Except Fault Server :=
  if data = [] then .ok (closeConn S fd)
  else do
    let c := (S.connList fd).received data fits
    let c' ← wsRequest (fun c => (handshark ssl c).map Prod.snd) c
    return S.put fd c' (some .epollout) (S.requests fd ++ [(c, c')])

def sendCb (S : Server) (fd : Nat) : Except Fault Server := do
  return S.put fd (← wsResponse (S.connList fd)) (some .epollin) (S.requests fd)

/-- `close` is a `recv` that fails. -/
inductive Event where
  | accept (fd : Nat)
  | receive (fd : Nat) (data : List UInt8) (fits : data.length ≤ bufferLength)
  | send (fd : Nat)
  | close (fd : Nat)

/-- `accept` returns a descriptor that is not open, and epoll reports what it was asked for:
other events do not happen. -/
def step (ssl : Openssl) (S : Server) : Event → Except Fault Server
  | .accept fd => if S.interest fd = none then eventRegister S fd else .ok S
  | .receive fd data fits =>
      if S.interest fd = some .epollin then recvCb ssl S fd data fits else .ok S
  | .send fd => if S.interest fd = some .epollout then sendCb S fd else .ok S
  | .close fd => if S.interest fd = some .epollin then .ok (closeConn S fd) else .ok S

/-- What an event leaves behind. -/
inductive Stepped (ssl : Openssl) (S : Server) : Event → Server → Prop where
  | idle {event : Event} : Stepped ssl S event S
  | accepted {fd : Nat} (isClosed : S.interest fd = none) :
      Stepped ssl S (.accept fd) (S.put fd { S.connList fd with
        rbuffer := .zeroed _, rlength := 0, wbuffer := .zeroed _, wlength := 0 }
        (some .epollin) [])
  | closed {event : Event} {fd : Nat} : Stepped ssl S event (closeConn S fd)
  | received {fd : Nat} {data : List UInt8} {fits : data.length ≤ bufferLength} {c' : Conn}
      (isOpen : S.interest fd = some .epollin) (nonempty : data ≠ [])
      (ran : wsRequest (fun c => (handshark ssl c).map Prod.snd)
        ((S.connList fd).received data fits) = .ok c') :
      Stepped ssl S (.receive fd data fits) (S.put fd c' (some .epollout)
        (S.requests fd ++ [((S.connList fd).received data fits, c')]))
  | sent {fd : Nat} {c : Conn} (isOpen : S.interest fd = some .epollout)
      (ran : wsResponse (S.connList fd) = .ok c) :
      Stepped ssl S (.send fd) (S.put fd c (some .epollin) (S.requests fd))

theorem step_cases {ssl : Openssl} {S S' : Server} {event : Event}
    (stepped : step ssl S event = .ok S') : Stepped ssl S event S' := by
  cases event with
  | accept fd =>
      simp only [step, eventRegister] at stepped
      split at stepped
      · rename_i isClosed
        split at stepped
        · cases stepped
          exact .accepted isClosed
        · cases stepped
      · cases stepped
        exact .idle
  | receive fd data fits =>
      simp only [step, recvCb] at stepped
      split at stepped
      · rename_i isOpen
        split at stepped
        · cases stepped
          exact .closed
        · rename_i nonempty
          obtain ⟨c', ran, returned⟩ := ok_of_bind stepped
          cases returned
          exact .received isOpen nonempty ran
      · cases stepped
        exact .idle
  | send fd =>
      simp only [step] at stepped
      split at stepped
      · rename_i isOpen
        obtain ⟨c, ran, returned⟩ := ok_of_bind stepped
        cases returned
        exact .sent isOpen ran
      · cases stepped
        exact .idle
  | close fd =>
      simp only [step] at stepped
      split at stepped
      · cases stepped
        exact .closed
      · cases stepped
        exact .idle

/-- Among these requests is one that named a key and that `handshark` answered. -/
def Shaken (requests : List (Conn × Conn)) : Prop :=
  ∃ call ∈ requests, call.1.status = 0 ∧ NamesKey (text call.1.rbuffer) ∧
    ∃ accept fits, call.2.wbuffer = .holding (switchingProtocols accept) fits

/-- The next bytes received go to `decode_packet`. -/
def Server.Decodes (S : Server) (fd : Nat) : Prop :=
  S.interest fd = some .epollin ∧ (S.connList fd).status = 1

/-- Only what comes behind a handshake is decoded. -/
def Server.Safe (S : Server) : Prop := ∀ fd, S.Decodes fd → Shaken (S.requests fd)

/-- A descriptor that is accepted has no status from an earlier connection, and the first
request of a connection names a key. -/
def Meets (S : Server) : Event → Prop
  | .accept fd => S.interest fd = none → (S.connList fd).status = 0
  | .receive fd data _ =>
      S.interest fd = some .epollin → (S.connList fd).status = 0 → data ≠ [] →
        NamesKey (data.takeWhile (· ≠ 0))
  | _ => True

end LinuxCpp.Websocket
