import LinuxCpp.Trace.Custody
import LinuxCpp.Ustack.Machine
import LinuxCpp.Ustack.Udp

set_option autoImplicit false

/- The mbufs of ustack/tcp.c between the main loop, `pkt_process` and the timer, with the
calls of the applications in between. An mbuf is named by the number of those obtained
before it, as if the pool handed out none that is in use: once an mbuf has been released
twice, the pool may. What the stack writes to an mbuf of its own is left out. The ARP table
is there from the start. -/
namespace LinuxCpp.Ustack

open C Trace

def burstSize : Nat := 32

/-- An mbuf from `rte_eth_rx_burst`. -/
structure RxMbuf where
  mbuf : Nat
  bytes : List UInt8
deriving DecidableEq, Repr

/-- The rings between the cores, the mbufs that `pkt_process` has taken from `ring->in` and
not come to yet, and what became of each mbuf obtained so far. -/
structure Stack where
  world : World
  heap : Allocator
  arp : List ArpEntry
  inRing : List RxMbuf
  mbufs : List RxMbuf
  outRing : List Nat
  obtained : Nat
  fates : Nat → Fate

/-- A step of one of the threads. `free` is the number of free buffers in the pool. -/
inductive Action where
  | rx (frames : List (List UInt8))
  | tx (accepted : Nat)
  | timer (free : Nat)
  | dequeue
  | process (isn : UInt32) (free : Nat)
  | udpOut (host : Nat) (localmac : Mac) (room : List UInt8) (free : Nat)
  | tcpOut (stream : Nat) (free : Nat)
  | call (e : Event)
deriving DecidableEq, Repr

/-- `rte_ring_enqueue_burst`: as many as there are places for. -/
def enqueueBurst {α : Type} (ring entries : List α) : List α :=
  ring ++ entries.take (ringSize - 1 - ring.length)

namespace Stack

def start (heap : Allocator) : Stack := ⟨.empty, heap, [], [], [], [], 0, fun _ => .kept⟩

/-- The main loop with the frames that have come in. What `ring->in` has no place for is
forgotten. -/
def rx (s : Stack) (frames : List (List UInt8)) : Except Fault Stack :=
  if burstSize < frames.length then .error .abort
  else
    let received := frames.zipIdx.map fun frame => ⟨s.obtained + frame.2, frame.1⟩
    .ok { s with
      inRing := enqueueBurst s.inRing received
      obtained := s.obtained + frames.length }

def release (fates : Nat → Fate) (mbuf : Nat) : Nat → Fate :=
  Function.update fates mbuf { fates mbuf with releases := (fates mbuf).releases + 1 }

/-- The main loop with the packets on `ring->out`: the device takes some of them, then all
are freed. -/
def tx (s : Stack) (accepted : Nat) : Stack :=
  let packets := s.outRing.take burstSize
  { s with
    outRing := s.outRing.drop burstSize
    fates := packets.foldl release ((packets.take accepted).foldl release s.fates) }

/-- An mbuf of the pool that is put on `ring->out`; nobody looks at the result. -/
def put (s : Stack) : Stack :=
  { s with outRing := enqueueBurst s.outRing [s.obtained], obtained := s.obtained + 1 }

/-- `rte_pktmbuf_alloc`, or the program exits. -/
def allocPut (s : Stack) (free : Nat) : Except Fault Stack :=
  if free = 0 then .error .abort else .ok s.put

/-- The loop of `arp_request_timer_cb`. With `ring->out` full the mbuf is freed. -/
def arpRequests : Nat → Nat → Stack → Except Fault Stack
  | 0, _, s => .ok s
  | _ + 1, 0, _ => .error .abort
  | i + 1, free + 1, s =>
      if s.outRing.length < ringSize - 1 then arpRequests i free s.put
      else arpRequests i (free + 1) { s with
        obtained := s.obtained + 1
        fates := release s.fates s.obtained }

/-- `pkt_process` when it has come to the end of its burst. -/
def dequeue (s : Stack) : Stack :=
  match s.mbufs with
  | [] => { s with
      mbufs := s.inRing.take burstSize
      inRing := s.inRing.drop burstSize }
  | _ => s

/-- `pkt_process` with its next mbuf. -/
def process (K : Cksums) (isn : UInt32) (free : Nat) (s : Stack) : Except Fault Stack :=
  match s.mbufs with
  | [] => .ok s
  | rx :: mbufs => do
      let fate := s.fates rx.mbuf
      let (((w, arp, reply), m), heap) ← pktProcess K isn free s.world s.arp
        ⟨rx.bytes, fate.releases, fate.late⟩ s.heap
      let s := { s with
        world := w
        heap := heap
        arp := arp
        mbufs := mbufs
        fates := Function.update s.fates rx.mbuf ⟨m.frees, m.late⟩ }
      match reply with
      | none => return s
      | some _ => return s.put

/-- `udp_out` for one host. -/
def udpOut (K : Cksums) (behind : Offload → List UInt8) (s : Stack) (host : Nat)
    (localmac : Mac) (room : List UInt8) (free : Nat) : Except Fault Stack :=
  match s.world.lhost.find? fun h => h.addr = host with
  | none => .ok s
  | some h => do
      let (out, h) ← udpOutHost K behind room localmac s.arp h
      let s := { s with world := s.world.putHost h }
      match out with
      | .nothing => return s
      | _ => s.allocPut free

/-- `ng_tcp_out` for one stream. -/
def tcpOut (s : Stack) (stream : Nat) (free : Nat) : Except Fault Stack :=
  match s.world.tcbSet.find? fun t => t.addr = stream with
  | none => .ok s
  | some t =>
      let (packets, t) := ngTcpOutStream s.arp t
      let s := { s with world := s.world.put t }
      match packets with
      | [] => .ok s
      | _ => s.allocPut free

/-- A call of an application; the segments and the sender are not its business. -/
def call (s : Stack) (e : Event) : Except Fault Stack :=
  match e with
  | .segment .. | .out .. => .ok s
  | e => do
      let m ← Machine.step ⟨s.world, s.heap⟩ e
      return { s with world := m.world, heap := m.heap }

def step (K : Cksums) (behind : Offload → List UInt8) (s : Stack) : Action → Except Fault Stack
  | .rx frames => s.rx frames
  | .tx accepted => .ok (s.tx accepted)
  | .timer free => arpRequests 10 free s
  | .dequeue => .ok s.dequeue
  | .process isn free => s.process K isn free
  | .udpOut host localmac room free => s.udpOut K behind host localmac room free
  | .tcpOut stream free => s.tcpOut stream free
  | .call e => s.call e

/-- The mbufs that lie in a ring or wait in the burst. -/
def held (s : Stack) : List Nat :=
  s.inRing.map RxMbuf.mbuf ++ s.mbufs.map RxMbuf.mbuf ++ s.outRing

/-- Every mbuf obtained so far waits in one place, or was given back once and not read
after that. -/
def Owned (s : Stack) : Prop := Custody s.obtained s.held s.fates

end Stack

end LinuxCpp.Ustack
