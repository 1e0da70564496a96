import LinuxCpp.Ustack.Out

set_option autoImplicit false

/- `tcp_server_entry` on the stack, and clients that visit it one after another over
links that lose nothing. A client sends a chunk and waits until it has all of it back
before it sends the next one. A call of the application, `ng_tcp_process` on a segment and
a pass of `ng_tcp_out` are one step each: what two lcores read and write inside of them,
the fragment that is queued before `rcv_nxt` and `snd_nxt` move on included, is not taken
apart. -/
namespace LinuxCpp.Ustack

open C

section App

/-- `BUFFER_SIZE` -/
def bufferSize : Nat := 1024

/-- `htons(9999)` -/
def serverPort : UInt16 := ntohs 9999

/-- What `tcp_server_entry` is about to call. -/
inductive App where
  | accepting
  | receiving (connfd : Int) (buff : List UInt8)
  | sending (connfd : Int) (buff : List UInt8) (n : Nat)
  | closing (connfd : Int)
deriving DecidableEq, Repr

/-- Up to the loop: the listening descriptor. -/
def tcpServerStart (w : World) : CM (Int × World) := do
  let (listenfd, w) ← nsocket w .stream
  if listenfd = -1 then return (-1, w)
  let (_, w) := nbind w listenfd serverPort 0
  let (_, w) := nlisten w listenfd
  return (listenfd, w)

/-- One call of the loops of `tcp_server_entry`; one that waits changes nothing. What was
read is printed before it is sent back, with the old bytes behind it. -/
def tcpServerEntry (listenfd : Int) (w : World) : App → CM (App × World)
  | .accepting =>
      match naccept w listenfd with
      | none => return (.accepting, w)
      | some (connfd, _, w) => return (.receiving connfd (List.replicate bufferSize 0), w)
  | .receiving connfd buff => do
      match ← nrecv w connfd bufferSize with
      | none => return (.receiving connfd buff, w)
      | some (n, copied, w) =>
          let buff := copied ++ buff.drop copied.length
          if 0 < n then
            -- `%s` reads on behind a buffer without a NUL
            if 0 ∉ buff then throw .unterminated
            return (.sending connfd buff n.toNat, w)
          else if n = 0 then return (.closing connfd, w)
          else return (.receiving connfd buff, w)
  | .sending connfd buff n => do
      let (_, w) ← nsend w connfd (buff.take n)
      return (.receiving connfd buff, w)
  | .closing connfd => do
      let (_, w) ← nclose w connfd
      return (.accepting, w)

end App

section Client

/-- A visit: the addresses as on the wire, the first sequence number, and what is sent. -/
structure Session where
  ip : UInt32
  server : UInt32
  port : UInt16
  iss : UInt32
  chunks : List (List UInt8)
deriving DecidableEq, Repr

inductive Phase where
  | synSent
  | opened
  | finSent
deriving DecidableEq, Repr

/-- The client of a session, with the numbers of TCP, the chunks to send, the bytes sent
and those that came back. -/
structure Client where
  session : Session
  phase : Phase
  sndNxt : UInt32
  rcvNxt : UInt32
  todo : List (List UInt8)
  sent : List UInt8
  got : List UInt8
deriving DecidableEq, Repr

/-- A segment of the client; the bytes of the header itself are never looked at. -/
def Session.segment (s : Session) (seq ack : UInt32) (flags : UInt8) (data : List UInt8) :
    Segment where
  srcAddr := s.ip
  dstAddr := s.server
  srcPort := s.port
  dstPort := serverPort
  sentSeq := seq
  recvAck := ack
  dataOff := 0x50
  tcpFlags := flags
  totalLength := .ofNat (40 + data.length)
  cksumOk := true
  bytes := List.replicate 20 0 ++ data

def Client.segment (c : Client) (flags : UInt8) (data : List UInt8) : Segment :=
  c.session.segment c.sndNxt c.rcvNxt flags data

/-- The first segment of a visit. -/
def Client.start (s : Session) : Client × Segment :=
  (⟨s, .synSent, s.iss + 1, 0, s.chunks, [], []⟩, s.segment s.iss 0 tcpSynFlag [])

/-- The next chunk once the one before is back, and the FIN behind the last one. -/
def Client.send (c : Client) : Option (Client × Segment) :=
  if c.phase = .opened ∧ c.got = c.sent then
    match c.todo with
    | chunk :: todo => some
        ({ c with todo := todo, sent := c.sent ++ chunk, sndNxt := c.sndNxt + .ofNat chunk.length },
          c.segment (tcpPshFlag ||| tcpAckFlag) chunk)
    | [] => some ({ c with phase := .finSent, sndNxt := c.sndNxt + 1 },
        c.segment (tcpFinFlag ||| tcpAckFlag) [])
  else none

/-- What a client makes of a packet. -/
inductive Verdict where
  | refuses
  | takes (c : Client) (answer : Option Segment)
  | ends (c : Client) (answer : Segment)

/-- A packet is refused unless it is the next one and acknowledges all that was sent. -/
def Client.receive (c : Client) (f : Fragment) : Verdict :=
  match c.phase with
  | .synSent =>
      if f.tcpFlags = tcpSynFlag ||| tcpAckFlag ∧ f.acknum = c.sndNxt then
        let c := { c with phase := .opened, rcvNxt := f.seqnum + 1 }
        .takes c (some (c.segment tcpAckFlag []))
      else .refuses
  | _ =>
      if f.seqnum = c.rcvNxt ∧ f.acknum = c.sndNxt then
        let c := { c with rcvNxt := c.rcvNxt + f.length, got := c.got ++ f.bytes }
        if f.tcpFlags &&& tcpFinFlag = 0 then .takes c none
        else
          let c := { c with rcvNxt := c.rcvNxt + 1 }
          .ends c (c.segment tcpAckFlag [])
      else .refuses

end Client

section Net

/-- The server, the client whose visit it is, what is under way between them, the visits
to come, and what the visitors before have got back. -/
structure Net where
  listenfd : Int
  world : World
  heap : Allocator
  app : App
  client : Option Client
  toServer : List Segment
  toClient : List Fragment
  later : List Session
  finished : List (Session × List UInt8)
  refused : Nat

/-- Who moves. The number is what `rand_r` would give for a new connection. -/
inductive Move where
  | client
  | deliver (isn : UInt32)
  | app
  | out
  | receive
deriving DecidableEq, Repr

/-- What moves of the net. -/
inductive Part where
  | client
  | link
  | app
  | stack
  | wire
deriving DecidableEq, Repr

def Move.part : Move → Part
  | .client => .client
  | .deliver _ => .link
  | .app => .app
  | .out => .stack
  | .receive => .wire

/-- The fragments of the packets that a pass of `ng_tcp_out` has built. -/
def fragmentsOf (packets : List Packet) : List Fragment :=
  packets.filterMap fun
    | .tcp _ _ _ _ fragment => some fragment
    | .arpRequest _ _ => none

variable (mbufs : Nat) (entries : List ArpEntry)

def Net.step (n : Net) : Move → Except Fault Net
  | .client =>
      match n.client with
      | none =>
          match n.later with
          | [] => .ok n
          | session :: later =>
              let (c, seg) := Client.start session
              .ok { n with client := some c, toServer := n.toServer ++ [seg], later := later }
      | some c =>
          match c.send with
          | none => .ok n
          | some (c, seg) => .ok { n with client := some c, toServer := n.toServer ++ [seg] }
  | .deliver isn =>
      match n.toServer with
      | [] => .ok n
      | seg :: rest => do
          let ((_, world), heap) ← ngTcpProcess isn n.world seg n.heap
          return { n with world := world, heap := heap, toServer := rest }
  | .app => do
      let ((app, world), heap) ← tcpServerEntry n.listenfd n.world n.app n.heap
      return { n with world := world, heap := heap, app := app }
  | .out => do
      let (packets, world) ← ngTcpOut mbufs entries n.world
      return { n with world := world, toClient := n.toClient ++ fragmentsOf packets }
  | .receive =>
      match n.toClient, n.client with
      | f :: rest, some c =>
          match c.receive f with
          | .refuses => .ok { n with toClient := rest, refused := n.refused + 1 }
          | .takes c answer =>
              .ok { n with
                toClient := rest, client := some c, toServer := n.toServer ++ answer.toList }
          | .ends c answer =>
              .ok { n with
                toClient := rest, client := none, toServer := n.toServer ++ [answer]
                finished := n.finished ++ [(c.session, c.got)] }
      | _ :: rest, none => .ok { n with toClient := rest, refused := n.refused + 1 }
      | [], _ => .ok n

/-- The server is up and the visits are to come. -/
def Net.start (listenfd : Int) (w : World) (A : Allocator) (sessions : List Session) : Net where
  listenfd := listenfd
  world := w
  heap := A
  app := .accepting
  client := none
  toServer := []
  toClient := []
  later := sessions
  finished := []
  refused := 0

end Net

end LinuxCpp.Ustack
