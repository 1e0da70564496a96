import LinuxCpp.C.Returns
import LinuxCpp.Ustack.Socket
import LinuxCpp.Ustack.Tcp

set_option autoImplicit false

/- The stack as one machine: segments that come in, calls of the application and the
passes of the sender, in any order. What an event can do to the streams and the hosts
is said once, in `Change`. -/
namespace LinuxCpp.Ustack

open C

/-- For `recvfrom`, what can be read behind the data of the offload. -/
inductive Event where
  | segment (isn : UInt32) (seg : Segment)
  | socket (type : SockType)
  | bind (fd : Int) (port : UInt16) (ip : UInt32)
  | listen (fd : Int)
  | accept (fd : Int)
  | send (fd : Int) (buf : List UInt8)
  | recv (fd : Int) (len : Nat)
  | recvfrom (fd : Int) (len : Nat) (behind : List UInt8)
  | sendto (fd : Int) (buf : List UInt8) (sinAddr : UInt32) (sinPort : UInt16)
  | close (fd : Int)
  | out (addr : Nat) (resolved : Bool)
deriving DecidableEq, Repr

structure Machine where
  world : World
  heap : Allocator

namespace Machine

def call (m : Machine) (code : CM (Int × World)) : Except Fault (Option Int × Machine) := do
  let ((ret, w), heap) ← code m.heap
  return (some ret, ⟨w, heap⟩)

/-- The event and what it returns; a call that waits returns nothing yet. -/
def act (m : Machine) : Event → Except Fault (Option Int × Machine)
  | .segment isn seg => m.call (ngTcpProcess isn m.world seg)
  | .socket type => m.call (nsocket m.world type)
  | .bind fd port ip => m.call (pure (nbind m.world fd port ip))
  | .listen fd => m.call (pure (nlisten m.world fd))
  | .accept fd =>
      match naccept m.world fd with
      | none => return (none, m)
      | some (ret, _, w) => m.call (pure (ret, w))
  | .send fd buf => m.call (nsend m.world fd buf)
  | .recv fd len => do
      match ← nrecv m.world fd len with
      | none => return (none, m)
      | some (ret, _, w) => m.call (pure (ret, w))
  | .recvfrom fd len behind => do
      match ← nrecvfrom (fun _ => behind) m.world fd len m.heap with
      | (none, _) => return (none, m)
      | (some (ret, _, w), heap) => return (some ret, ⟨w, heap⟩)
  | .sendto fd buf sinAddr sinPort => m.call (nsendto m.world fd buf sinAddr sinPort)
  | .close fd => m.call (nclose m.world fd)
  | .out addr resolved =>
      match m.world.tcbSet.find? fun s => s.addr = addr with
      | none => return (none, m)
      | some s => return (none, { m with world := m.world.put (outStream resolved s).2 })

def step (m : Machine) (e : Event) : Except Fault Machine := (m.act e).map Prod.snd

end Machine

/-- The segment is given to the stream. -/
def Receives (w : World) (seg : Segment) (s : Stream) : Prop :=
  seg.cksumOk = true ∧
    ngTcpStreamSearch w seg.srcAddr seg.dstAddr seg.srcPort seg.dstPort = some s

/-- The fragments on the way out. -/
def Stream.sending (s : Stream) : List Fragment := (s.sndbuf.map Ring.entries).getD []

/-- The number that the next fragment of the stream gets after the segment. -/
def Segment.sets (seg : Segment) (sndNxt : UInt32) : UInt32 :=
  if seg.has tcpPshFlag ∨ seg.has tcpFinFlag then seg.recvAck else sndNxt

/-- The fragment that `nsend` or `nclose` puts on the ring of the stream. -/
structure Sends (s : Stream) (f : Fragment) (flag : UInt8) (length : UInt32) : Prop where
  seqnum : f.seqnum = s.sndNxt
  flags : f.tcpFlags = tcpAckFlag ||| flag
  length : f.length = length

/-- What an event that returns `ret` can do to a stream that stays. -/
inductive Evolves (m : Machine) : Event → Option Int → Stream → Stream → Prop
  | established {isn : UInt32} {seg : Segment} {ret : Option Int} {s : Stream}
      (receives : Receives m.world seg s) (status : s.status = .synRcvd)
      (acks : seg.has tcpAckFlag = true) :
      Evolves m (.segment isn seg) ret s { s with status := .established }
  | heard {isn : UInt32} {seg : Segment} {ret : Option Int} {s : Stream}
      {rcvbuf sndbuf : Option (Ring Fragment)} {rcvNxt : UInt32}
      (receives : Receives m.world seg s) (status : s.status = .established) :
      Evolves m (.segment isn seg) ret s { s with
        rcvbuf := rcvbuf, sndbuf := sndbuf, rcvNxt := rcvNxt, sndNxt := seg.sets s.sndNxt,
        status := if seg.has tcpFinFlag then .closeWait else s.status }
  | bound {fd : Int} {port : UInt16} {ip : UInt32} {ret : Option Int} {s : Stream}
      (named : getHostinfoFromfd m.world fd = some (.stream s)) :
      Evolves m (.bind fd port ip) ret s { s with dport := port, dip := ip, status := .closed }
  | listens {fd : Int} {ret : Option Int} {s : Stream}
      (named : getHostinfoFromfd m.world fd = some (.stream s)) :
      Evolves m (.listen fd) ret s { s with status := .listen }
  | accepted {fd new : Int} {listener s : Stream}
      (named : getHostinfoFromfd m.world fd = some (.stream listener))
      (first : getAcceptTcb m.world listener.dport = some s)
      (handed : (getFdFrombitmap m.world).1 = new) :
      Evolves m (.accept fd) (some new) s { s with fd := new }
  | sends {fd : Int} {buf : List UInt8} {ret : Option Int} {s : Stream} {r : Ring Fragment}
      {f : Fragment} (named : getHostinfoFromfd m.world fd = some (.stream s))
      (granted : m.heap.grants m.heap.calls = true ∧ m.heap.grants (m.heap.calls + 1) = true)
      (ring : s.sndbuf = some r) (fragment : Sends s f tcpPshFlag (.ofNat buf.length)) :
      Evolves m (.send fd buf) ret s { s with sndbuf := some (r.enqueue f) }
  | refused {fd : Int} {buf : List UInt8} {ret : Option Int} {s : Stream}
      (named : getHostinfoFromfd m.world fd = some (.stream s)) : Evolves m (.send fd buf) ret s s
  | reads {fd : Int} {len : Nat} {ret : Option Int} {s : Stream} {rcvbuf : Option (Ring Fragment)}
      (named : getHostinfoFromfd m.world fd = some (.stream s)) :
      Evolves m (.recv fd len) ret s { s with rcvbuf := rcvbuf }
  | closes {fd : Int} {s : Stream} {r : Ring Fragment} {f : Fragment}
      (named : getHostinfoFromfd m.world fd = some (.stream s)) (status : s.status ≠ .listen)
      (granted : m.heap.grants m.heap.calls = true) (ring : s.sndbuf = some r)
      (fragment : Sends s f tcpFinFlag 0) (proper : 0 ≤ fd) :
      Evolves m (.close fd) (some 0) s { s with
        sndbuf := some (r.enqueue f), status := .lastAck }
  | out {addr : Nat} {resolved : Bool} {ret : Option Int} {s : Stream}
      {sndbuf : Option (Ring Fragment)} :
      Evolves m (.out addr resolved) ret s { s with sndbuf := sndbuf }

/-- A stream that an event puts in front of the list. -/
inductive Born (m : Machine) : Event → Option Int → Stream → Prop
  | syn {isn : UInt32} {seg : Segment} {ret : Option Int} {listener s : Stream}
      (receives : Receives m.world seg listener) (listens : listener.status = .listen)
      (block : s.addr = m.heap.calls + 1) (fd : s.fd = -1) (number : s.sndNxt = isn)
      (status : s.status = .synRcvd) (answer : s.sending = [synAck s seg]) :
      Born m (.segment isn seg) ret s
  | half {isn : UInt32} {seg : Segment} {ret : Option Int} {listener s : Stream}
      (receives : Receives m.world seg listener) (listens : listener.status = .listen)
      (block : s.addr = m.heap.calls + 1) (fd : s.fd = -1) (number : s.sndNxt = isn)
      (status : s.status = .listen) (answer : s.sending = []) :
      Born m (.segment isn seg) ret s
  | socket {fd : Int} {s : Stream} (block : s.addr = m.heap.calls + 1) (named : s.fd = fd)
      (number : s.sndNxt = 0) (status : s.status = .closed) (answer : s.sending = [])
      (handed : (getFdFrombitmap m.world).1 = fd) :
      Born m (.socket .stream) (some fd) s

/-- A stream that an event takes from the list. -/
inductive Dies (w : World) : Event → Option Int → Stream → Prop
  | acked {isn : UInt32} {seg : Segment} {ret : Option Int} {s : Stream}
      (receives : Receives w seg s) (status : s.status = .lastAck)
      (acks : seg.has tcpAckFlag = true) : Dies w (.segment isn seg) ret s
  | closed {fd : Int} {s : Stream} (named : getHostinfoFromfd w fd = some (.stream s))
      (status : s.status = .listen) : Dies w (.close fd) (some 0) s

/-- A segment that is not for an established stream, or the returned value of a call
that does nothing. -/
def Quiet (w : World) : Event → Option Int → Prop
  | .segment _ seg, _ => ∀ s, Receives w seg s → s.status ≠ .established
  | .socket type, ret => type = .other ∨ ret = some (-1)
  | .accept _, ret => ret = none ∨ ret = some (-1)
  | .close _, ret => ret = some (-1)
  | _, _ => True

/-- The calls that write a host. -/
def Event.WritesHost : Event → Prop
  | .bind .. | .recvfrom .. | .sendto .. => True
  | _ => False

/-- The host has the same two rings, by their blocks. -/
def Host.SameRings (h h' : Host) : Prop :=
  h'.rcvbuf.block = h.rcvbuf.block ∧ h'.sndbuf.block = h.sndbuf.block

/-- What an event can do. -/
inductive Change (m : Machine) (e : Event) (ret : Option Int) (m' : Machine) : Prop
  | still (quiet : Quiet m.world e ret) (streams : m'.world.tcbSet = m.world.tcbSet)
      (hosts : m'.world.lhost = m.world.lhost)
  | write {s s' : Stream} (member : s ∈ m.world.tcbSet) (evolves : Evolves m e ret s s')
      (streams : m'.world.tcbSet = (m.world.put s').tcbSet)
      (hosts : m'.world.lhost = m.world.lhost)
  | add {s : Stream} (born : Born m e ret s) (granted : m.heap.calls < m'.heap.calls)
      (streams : m'.world.tcbSet = s :: m.world.tcbSet) (hosts : m'.world.lhost = m.world.lhost)
  | remove {s : Stream} (member : s ∈ m.world.tcbSet) (dies : Dies m.world e ret s)
      (streams : m'.world.tcbSet = (m.world.remove s).tcbSet)
      (hosts : m'.world.lhost = m.world.lhost)
  | addHost {h : Host} (call : e = .socket .dgram) (block : h.addr = m.heap.calls + 1)
      (granted : m.heap.calls < m'.heap.calls) (named : ret = some h.fd)
      (handed : (getFdFrombitmap m.world).1 = h.fd)
      (streams : m'.world.tcbSet = m.world.tcbSet) (hosts : m'.world.lhost = h :: m.world.lhost)
  | writeHost {h h' : Host} (call : e.WritesHost) (member : h ∈ m.world.lhost)
      (block : h'.addr = h.addr) (named : h'.fd = h.fd) (rings : h.SameRings h')
      (streams : m'.world.tcbSet = m.world.tcbSet)
      (hosts : m'.world.lhost = (m.world.putHost h').lhost)
  | removeHost {fd : Int} {h : Host} (call : e = .close fd) (success : ret = some 0)
      (named : getHostinfoFromfd m.world fd = some (.host h))
      (streams : m'.world.tcbSet = m.world.tcbSet)
      (hosts : m'.world.lhost = m.world.lhost.filter fun g => g.addr ≠ h.addr)

section Calls

variable {m m' : Machine} {ret : Option Int} {code : CM (Int × World)}

theorem Machine.step_ok {e : Event} (stepped : m.step e = .ok m') :
    ∃ ret, m.act e = .ok (ret, m') := by
  obtain ⟨done, acted, rfl⟩ := ok_of_map stepped
  exact ⟨done.1, acted⟩

/-- A call that returned. -/
theorem Machine.call_ok (ran : m.call code = .ok (ret, m')) :
    ∃ value, ret = some value ∧ code m.heap = .ok ((value, m'.world), m'.heap) := by
  obtain ⟨done, run, returned⟩ := ok_of_map ran
  cases returned
  exact ⟨done.1.1, rfl, run⟩

/-- A call of `naccept` waits, or it returned. -/
theorem Machine.act_accept {fd : Int} (ran : m.act (.accept fd) = .ok (ret, m')) :
    (ret = none ∧ m' = m) ∨ ∃ value peer w, naccept m.world fd = some (value, peer, w) ∧
      ret = some value ∧ m' = ⟨w, m.heap⟩ := by
  simp only [Machine.act] at ran
  split at ran
  · cases ran
    exact .inl ⟨rfl, rfl⟩
  · rename_i accepted
    cases ran
    exact .inr ⟨_, _, _, accepted, rfl, rfl⟩

/-- A call of `nrecv` waits, or it returned. -/
theorem Machine.act_recv {fd : Int} {len : Nat} (ran : m.act (.recv fd len) = .ok (ret, m')) :
    (ret = none ∧ m' = m) ∨ ∃ value copied w,
      nrecv m.world fd len = .ok (some (value, copied, w)) ∧ ret = some value ∧
      m' = ⟨w, m.heap⟩ := by
  obtain ⟨got, received, ran⟩ := ok_of_bind ran
  cases got with
  | none =>
      cases ran
      exact .inl ⟨rfl, rfl⟩
  | some done =>
      obtain ⟨value, copied, w⟩ := done
      cases ran
      exact .inr ⟨value, copied, w, received, rfl, rfl⟩

/-- A call of `nrecvfrom` waits, or it returned. -/
theorem Machine.act_recvfrom {fd : Int} {len : Nat} {behind : List UInt8}
    (ran : m.act (.recvfrom fd len behind) = .ok (ret, m')) :
    (ret = none ∧ m' = m) ∨ ∃ value datagram,
      nrecvfrom (fun _ => behind) m.world fd len m.heap =
        .ok (some (value, datagram, m'.world), m'.heap) ∧ ret = some value := by
  obtain ⟨⟨_ | ⟨value, datagram, w⟩, heap⟩, received, ran⟩ := ok_of_bind ran
  · cases ran
    exact .inl ⟨rfl, rfl⟩
  · cases ran
    exact .inr ⟨value, datagram, received, rfl⟩

/-- A pass of the sender finds its stream, or does nothing. -/
theorem Machine.act_out {addr : Nat} {resolved : Bool}
    (ran : m.act (.out addr resolved) = .ok (ret, m')) :
    m' = m ∨ ∃ s ∈ m.world.tcbSet,
      m' = { m with world := m.world.put (outStream resolved s).2 } := by
  simp only [Machine.act] at ran
  split at ran
  · cases ran
    exact .inl rfl
  · rename_i s found
    cases ran
    exact .inr ⟨s, List.mem_of_find?_eq_some found, rfl⟩

theorem ringCreate_grows (α : Type) (w : World) (name : RingName) :
    Grows (ringCreate α w name) := by
  unfold ringCreate
  refine .ite (.pure _) (.bind .malloc ?_)
  rintro (_ | block) <;> exact .pure _

theorem ringCreate_streams {α : Type} (w : World) (name : RingName) :
    ReturnsM (ringCreate α w name) fun done =>
      done.2.tcbSet = w.tcbSet ∧ done.2.lhost = w.lhost ∧
        ∀ r, done.1 = some r → r.entries = [] := by
  unfold ringCreate
  refine .ite (.pure ⟨rfl, rfl, fun _ none_ => nomatch none_⟩) (.skip ?_)
  rintro (_ | block)
  · exact .pure ⟨rfl, rfl, fun _ none_ => nomatch none_⟩
  · refine .pure ⟨rfl, rfl, fun r made => ?_⟩
    cases made
    rfl

@[simp] theorem ringFree_tcbSet {α : Type} (w : World) (r : Option (Ring α)) :
    (w.ringFree r).tcbSet = w.tcbSet := by
  cases r <;> rfl

@[simp] theorem ringFree_lhost {α : Type} (w : World) (r : Option (Ring α)) :
    (w.ringFree r).lhost = w.lhost := by
  cases r <;> rfl

end Calls

section Segments

variable {isn : UInt32} {w : World} {seg : Segment} {A : Allocator}

/-- The stream made for a SYN, before it is answered. -/
structure Fresh (isn : UInt32) (A : Allocator) (s : Stream) : Prop where
  block : s.addr = A.calls + 1
  fd : s.fd = -1
  number : s.sndNxt = isn
  status : s.status = .listen
  empty : ∀ r, s.sndbuf = some r → r.entries = []

theorem ngTcpStreamCreate_leaves (sip dip : UInt32) (sport dport : UInt16) :
    Leaves (ngTcpStreamCreate isn w sip dip sport dport) A fun done B =>
      done.2.tcbSet = w.tcbSet ∧ done.2.lhost = w.lhost ∧
        ∀ s, done.1 = some s → Fresh isn A s ∧ A.calls < B.calls := by
  unfold ngTcpStreamCreate
  refine .malloc (fun _ => .pure ⟨rfl, rfl, fun _ none_ => nomatch none_⟩) fun _ => ?_
  refine .step rfl (.bind ((ringCreate_grows _ _ _).leaves (ringCreate_streams w .sndbuf)) ?_)
  rintro ⟨sndbuf, w₁⟩ B ⟨⟨streams, hosts, empty⟩, later⟩
  refine .bind ((ringCreate_grows _ _ _).leaves (ringCreate_streams w₁ .rcvbuf)) ?_
  rintro ⟨rcvbuf, w₂⟩ C ⟨⟨streams', hosts', -⟩, later'⟩
  refine .pure ⟨streams'.trans streams, hosts'.trans hosts, fun s made => ?_⟩
  cases made
  exact ⟨⟨rfl, rfl, rfl, rfl, empty⟩, (later.trans later').calls⟩

/-- The listener makes a stream for a SYN, or does nothing. -/
theorem ngTcpHandleListen_leaves {stream : Stream} (receives : Receives w seg stream)
    (listens : stream.status = .listen) :
    Leaves (ngTcpHandleListen isn w stream seg) A fun done B => done.2.lhost = w.lhost ∧
      (done.2.tcbSet = w.tcbSet ∨ ∃ s, (∀ ret, Born ⟨w, A⟩ (.segment isn seg) ret s) ∧
        A.calls < B.calls ∧ done.2.tcbSet = s :: w.tcbSet) := by
  unfold ngTcpHandleListen
  refine .ite (fun _ => ?_) fun _ => .pure ⟨rfl, .inl rfl⟩
  refine .ite (fun _ => ?_) fun _ => .pure ⟨rfl, .inl rfl⟩
  refine .bind (ngTcpStreamCreate_leaves _ _ _ _) ?_
  rintro ⟨_ | syn, w₁⟩ B ⟨streams, hosts, made⟩
  · exact .throw _
  · obtain ⟨⟨block, fd, number, status, empty⟩, granted⟩ := made syn rfl
    have front (s : Stream) : (w₁.add s).tcbSet = s :: w.tcbSet := congrArg (s :: ·) streams
    have nothing : syn.sending = [] := by
      unfold Stream.sending
      cases ring : syn.sndbuf with
      | none => rfl
      | some r => exact empty r ring
    have granted' : A.calls < B.next.calls := Nat.lt_succ_of_lt granted
    refine .malloc (fun _ => .pure ⟨hosts, .inr ⟨syn, ?_, granted', front syn⟩⟩)
      fun _ => .skip fun sndbuf queued => ?_
    · exact fun ret => .half receives listens block fd number status nothing
    · cases ring : syn.sndbuf with
      | none =>
          rw [ring] at queued
          cases queued
      | some r =>
          rw [ring] at queued
          cases queued
          refine .pure ⟨hosts, .inr ⟨{ syn with
            rcvNxt := (synAck syn seg).acknum, sndbuf := some (r.enqueue (synAck syn seg)),
            status := .synRcvd }, fun ret => .syn receives listens block fd number rfl ?_,
          granted', front _⟩⟩
          have first : (r.enqueue (synAck syn seg)).entries = [synAck syn seg] := by
            simp [Ring.enqueue, empty r ring, ringSize]
          exact first

theorem ngTcpEnqueueRecvbuffer_returns (s : Stream) (tcplen : Int) :
    ReturnsM (ngTcpEnqueueRecvbuffer s seg tcplen) fun done =>
      ∃ rcvbuf, done.2 = { s with rcvbuf := rcvbuf } := by
  unfold ngTcpEnqueueRecvbuffer
  refine .skip ?_
  rintro (_ | block)
  · exact .pure ⟨s.rcvbuf, rfl⟩
  · refine .ite (.skip ?_) (.skip fun rcvbuf => .pure ⟨rcvbuf, rfl⟩)
    rintro (_ | block)
    · exact .pure ⟨s.rcvbuf, rfl⟩
    · exact .skip fun data => .skip fun rcvbuf => .pure ⟨rcvbuf, rfl⟩

theorem ngTcpSendAckpkt_returns (s : Stream) :
    ReturnsM (ngTcpSendAckpkt s seg) fun done =>
      ∃ sndbuf, done.2 = { s with sndbuf := sndbuf } := by
  unfold ngTcpSendAckpkt
  refine .skip ?_
  rintro (_ | block)
  · exact .pure ⟨s.sndbuf, rfl⟩
  · exact .skip fun sndbuf => .pure ⟨sndbuf, rfl⟩

theorem receivePush_returns (s : Stream) (tcplen : Int) :
    ReturnsM (receivePush s seg tcplen) fun s' => ∃ rcvbuf sndbuf, s' = { s with
      rcvbuf := rcvbuf, sndbuf := sndbuf,
      rcvNxt := s.rcvNxt + .ofInt (seg.payloadlen tcplen), sndNxt := seg.recvAck } := by
  unfold receivePush
  refine .bind (ngTcpEnqueueRecvbuffer_returns s tcplen) ?_
  rintro ⟨_, _⟩ ⟨rcvbuf, rfl⟩
  refine .bind (ngTcpSendAckpkt_returns _) ?_
  rintro ⟨_, _⟩ ⟨sndbuf, rfl⟩
  exact .pure ⟨rcvbuf, sndbuf, rfl⟩

theorem receiveFin_returns (s : Stream) :
    ReturnsM (receiveFin s seg) fun s' => ∃ rcvbuf sndbuf rcvNxt, s' = { s with
      rcvbuf := rcvbuf, sndbuf := sndbuf, rcvNxt := rcvNxt, sndNxt := seg.recvAck,
      status := .closeWait } := by
  unfold receiveFin
  refine .bind (ngTcpEnqueueRecvbuffer_returns _ _) ?_
  rintro ⟨_, _⟩ ⟨rcvbuf, rfl⟩
  refine .bind (ngTcpSendAckpkt_returns _) ?_
  rintro ⟨_, _⟩ ⟨sndbuf, rfl⟩
  exact .pure ⟨rcvbuf, sndbuf, _, rfl⟩

/-- What the handler of established streams leaves, if it returns. -/
theorem ngTcpHandleEstablished_returns (s : Stream) (tcplen : Int) :
    ReturnsM (ngTcpHandleEstablished s seg tcplen) fun done =>
      ∃ rcvbuf sndbuf rcvNxt, done.2 = { s with
        rcvbuf := rcvbuf, sndbuf := sndbuf, rcvNxt := rcvNxt, sndNxt := seg.sets s.sndNxt,
        status := if seg.has tcpFinFlag then .closeWait else s.status } := by
  have pushed : ReturnsM (if seg.has tcpPshFlag then receivePush s seg tcplen else pure s) fun t =>
      ∃ rcvbuf sndbuf rcvNxt, t = { s with
        rcvbuf := rcvbuf, sndbuf := sndbuf, rcvNxt := rcvNxt,
        sndNxt := if seg.has tcpPshFlag then seg.recvAck else s.sndNxt } := by
    cases seg.has tcpPshFlag with
    | true =>
        refine (receivePush_returns s tcplen).mono fun t pushed => ?_
        obtain ⟨rcvbuf, sndbuf, shape⟩ := pushed
        exact ⟨rcvbuf, sndbuf, _, shape⟩
    | false => exact .pure ⟨s.rcvbuf, s.sndbuf, s.rcvNxt, rfl⟩
  have closed (t : Stream) : ReturnsM (if seg.has tcpFinFlag then receiveFin t seg else pure t)
      fun t' => ∃ rcvbuf sndbuf rcvNxt, t' = { t with
        rcvbuf := rcvbuf, sndbuf := sndbuf, rcvNxt := rcvNxt,
        sndNxt := if seg.has tcpFinFlag then seg.recvAck else t.sndNxt,
        status := if seg.has tcpFinFlag then .closeWait else t.status } := by
    cases seg.has tcpFinFlag with
    | true => exact receiveFin_returns t
    | false => exact .pure ⟨t.rcvbuf, t.sndbuf, t.rcvNxt, rfl⟩
  unfold ngTcpHandleEstablished
  apply pushed.bind
  rintro _ ⟨rcvbuf₁, sndbuf₁, rcvNxt₁, rfl⟩
  apply (closed _).bind
  rintro _ ⟨rcvbuf, sndbuf, rcvNxt, rfl⟩
  refine .pure ⟨rcvbuf, sndbuf, rcvNxt, ?_⟩
  unfold Segment.sets
  cases seg.has tcpPshFlag <;> cases seg.has tcpFinFlag <;> rfl

theorem ngTcpHandleSynRcvd_returns (s : Stream) :
    Returns (ngTcpHandleSynRcvd w s seg) fun done => done.2 = w ∨
      (seg.has tcpAckFlag = true ∧ done.2 = w.put { s with status := .established }) := by
  unfold ngTcpHandleSynRcvd
  split
  · rename_i acks
    refine .ite (.ite (.error _) (.pure (.inr ⟨acks, rfl⟩))) (.pure (.inl rfl))
  · exact .pure (.inl rfl)

theorem ngTcpHandleLastAck_leaves (s : Stream) :
    Leaves (ngTcpHandleLastAck w s seg) A fun done _ => done.2 = w ∨
      (seg.has tcpAckFlag = true ∧ done.2.tcbSet = (w.remove s).tcbSet ∧
        done.2.lhost = w.lhost) := by
  unfold ngTcpHandleLastAck
  refine .ite (fun acks => .ite (fun _ => ?_) fun _ => .pure (.inl rfl)) fun _ => .pure (.inl rfl)
  refine .step rfl (.pure (.inr ⟨acks, ?_, ?_⟩))
  · simp
  · simp [World.remove]

theorem mem_of_search {sip dip : UInt32} {sport dport : UInt16} {s : Stream}
    (found : ngTcpStreamSearch w sip dip sport dport = some s) : s ∈ w.tcbSet := by
  unfold ngTcpStreamSearch at found
  split at found
  · rename_i first
    cases found
    exact List.mem_of_find?_eq_some first
  · exact List.mem_of_find?_eq_some found

/-- What a segment does. -/
theorem ngTcpProcess_leaves (m : Machine) :
    Leaves (ngTcpProcess isn m.world seg) m.heap fun done B =>
      Change m (.segment isn seg) (some done.1) ⟨done.2, B⟩ := by
  unfold ngTcpProcess
  refine .ite (fun wrong => .pure (.still (fun s receives => ?_) rfl rfl)) fun correct => ?_
  · simp [receives.1] at wrong
  cases found : ngTcpStreamSearch m.world seg.srcAddr seg.dstAddr seg.srcPort seg.dstPort with
  | none =>
      refine .pure (.still (fun s receives => ?_) rfl rfl)
      cases found.symm.trans receives.2
  | some stream =>
      have receives : Receives m.world seg stream := ⟨by simpa using correct, found⟩
      have member := mem_of_search found
      have quiet {ret : Option Int} (other : stream.status ≠ .established) :
          Quiet m.world (.segment isn seg) ret := by
        intro s received
        cases found.symm.trans received.2
        exact other
      simp only
      split
      · rename_i status
        refine .bind (ngTcpHandleListen_leaves receives status) ?_
        rintro ⟨ret, w'⟩ B ⟨hosts, same | ⟨s, born, granted, streams⟩⟩
        · exact .pure (.still (quiet (by rw [status]; decide)) same hosts)
        · exact .pure (.add (born _) granted streams hosts)
      · rename_i status
        refine .after (ngTcpHandleSynRcvd_returns stream) ?_
        rintro ⟨ret, _⟩ (rfl | ⟨acks, rfl⟩)
        · exact .pure (.still (quiet (by rw [status]; decide)) rfl rfl)
        · exact .pure (.write member (.established receives status acks) rfl rfl)
      · rename_i status
        refine .bind (.of_returns (ngTcpHandleEstablished_returns stream _)) ?_
        rintro ⟨ret, _⟩ B ⟨rcvbuf, sndbuf, rcvNxt, rfl⟩
        exact .pure (.write member (.heard receives status) rfl rfl)
      · rename_i status
        refine .bind (ngTcpHandleLastAck_leaves stream) ?_
        rintro ⟨ret, _⟩ B (rfl | ⟨acks, streams, hosts⟩)
        · exact .pure (.still (quiet (by rw [status]; decide)) rfl rfl)
        · exact .pure (.remove member (.acked receives status acks) streams hosts)
      · rename_i other _
        exact .pure (.still (quiet other) rfl rfl)

end Segments

section SocketCalls

variable {w : World} {fd : Int}

theorem getFdFrombitmap_streams (w : World) :
    (getFdFrombitmap w).2.tcbSet = w.tcbSet ∧ (getFdFrombitmap w).2.lhost = w.lhost := by
  unfold getFdFrombitmap
  split <;> exact ⟨rfl, rfl⟩

theorem setFdFrombitmap_returns (w : World) (fd : Int) :
    Returns (setFdFrombitmap w fd) fun w' =>
      w'.tcbSet = w.tcbSet ∧ w'.lhost = w.lhost ∧ 0 ≤ fd := by
  unfold setFdFrombitmap
  split
  · exact .error _
  · have proper : 0 ≤ fd := by omega
    exact .ite (.pure ⟨rfl, rfl, proper⟩) (.pure ⟨rfl, rfl, proper⟩)

/-- What `nsocket` does. -/
theorem nsocket_leaves (m : Machine) (type : SockType) :
    Leaves (nsocket m.world type) m.heap fun done B =>
      Change m (.socket type) (some done.1) ⟨done.2, B⟩ := by
  unfold nsocket
  cases taken : getFdFrombitmap m.world with
  | mk fd w =>
      have kept := getFdFrombitmap_streams m.world
      have handed : (getFdFrombitmap m.world).1 = fd := by rw [taken]
      rw [taken] at kept
      obtain ⟨streams, hosts⟩ := kept
      have failed {w' : World} {B : Allocator} (streams' : w'.tcbSet = w.tcbSet)
          (hosts' : w'.lhost = w.lhost) : Change m (.socket type) (some (-1)) ⟨w', B⟩ :=
        .still (.inr rfl) (streams'.trans streams) (hosts'.trans hosts)
      cases type with
      | other => exact .pure (.still (.inl rfl) streams hosts)
      | dgram =>
          refine .malloc (fun _ => .pure (failed rfl rfl)) fun _ => ?_
          refine .bind ((ringCreate_grows _ _ _).leaves (ringCreate_streams w .recvBuffer)) ?_
          rintro ⟨_ | rcvbuf, w₁⟩ B ⟨⟨streams₁, hosts₁, -⟩, later₁⟩
          · exact .step rfl (.pure (failed streams₁ hosts₁))
          refine .bind ((ringCreate_grows _ _ _).leaves (ringCreate_streams w₁ .sendBuffer)) ?_
          rintro ⟨_ | sndbuf, w₂⟩ C ⟨⟨streams₂, hosts₂, -⟩, later₂⟩
          · exact .step rfl (.pure (failed (streams₂.trans streams₁) (hosts₂.trans hosts₁)))
          · refine .pure (.addHost (h := ⟨m.heap.calls + 1, fd, 0, 0, sndbuf, rcvbuf⟩) rfl rfl
              (later₁.trans later₂).calls rfl handed ?_ ?_)
            · exact (streams₂.trans streams₁).trans streams
            · exact congrArg (List.cons _) ((hosts₂.trans hosts₁).trans hosts)
      | stream =>
          refine .malloc (fun _ => .pure (failed rfl rfl)) fun _ => ?_
          refine .bind ((ringCreate_grows _ _ _).leaves (ringCreate_streams w .tcpRecvBuffer)) ?_
          rintro ⟨_ | rcvbuf, w₁⟩ B ⟨⟨streams₁, hosts₁, -⟩, later₁⟩
          · exact .step rfl (.pure (failed streams₁ hosts₁))
          refine .bind ((ringCreate_grows _ _ _).leaves (ringCreate_streams w₁ .tcpSendBuffer)) ?_
          rintro ⟨_ | sndbuf, w₂⟩ C ⟨⟨streams₂, hosts₂, empty⟩, later₂⟩
          · exact .step rfl (.pure (failed (streams₂.trans streams₁) (hosts₂.trans hosts₁)))
          · refine .pure (.add (s := ⟨m.heap.calls + 1, fd, 0, 0, 0, 0, 0, 0, .closed, some sndbuf,
              some rcvbuf⟩) (.socket rfl rfl rfl rfl (empty sndbuf rfl) handed)
              (later₁.trans later₂).calls ?_ ?_)
            · exact congrArg (List.cons _) ((streams₂.trans streams₁).trans streams)
            · exact (hosts₂.trans hosts₁).trans hosts

theorem mem_of_hostinfo {s : Stream} (named : getHostinfoFromfd w fd = some (.stream s)) :
    s ∈ w.tcbSet :=
  List.mem_of_find?_eq_some (getHostinfoFromfd_stream.mp named).2

theorem hostinfo_host {h : Host} (named : getHostinfoFromfd w fd = some (.host h)) :
    h ∈ w.lhost ∧ h.fd = fd := by
  unfold getHostinfoFromfd at named
  split at named
  · rename_i found
    cases named
    have carries : fd = h.fd := by simpa using List.find?_some found
    exact ⟨List.mem_of_find?_eq_some found, carries.symm⟩
  · simp at named

theorem nbind_change (m : Machine) (fd : Int) (port : UInt16) (ip : UInt32) :
    Change m (.bind fd port ip) (some (nbind m.world fd port ip).1)
      ⟨(nbind m.world fd port ip).2, m.heap⟩ := by
  unfold nbind
  split
  · exact .still trivial rfl rfl
  · rename_i named
    have member := (hostinfo_host named).1
    refine .writeHost trivial member ?_ ?_ ⟨?_, ?_⟩ rfl rfl <;> rfl
  · rename_i named
    exact .write (mem_of_hostinfo named) (.bound named) rfl rfl

theorem nlisten_change (m : Machine) (fd : Int) :
    Change m (.listen fd) (some (nlisten m.world fd).1) ⟨(nlisten m.world fd).2, m.heap⟩ := by
  unfold nlisten
  split
  · exact .still trivial rfl rfl
  · exact .still trivial rfl rfl
  · rename_i named
    exact .write (mem_of_hostinfo named) (.listens named) rfl rfl

theorem naccept_change (m : Machine) (fd : Int) {ret : Int} {peer : Option (UInt16 × UInt32)}
    {w : World} (ran : naccept m.world fd = some (ret, peer, w)) :
    Change m (.accept fd) (some ret) ⟨w, m.heap⟩ := by
  unfold naccept at ran
  split at ran
  · cases ran
    exact .still (.inr rfl) rfl rfl
  · cases ran
    exact .still (.inr rfl) rfl rfl
  · rename_i named
    split at ran
    · cases ran
    · rename_i apt first
      cases ran
      have member := List.mem_of_find?_eq_some first
      have kept := getFdFrombitmap_streams m.world
      refine .write member (.accepted named first rfl) ?_ kept.2
      exact congrArg (List.map _) kept.1

theorem enqueue_returns {α : Type} (ring : Option (Ring α)) (entry : α) :
    Returns (enqueue ring entry) fun ring' =>
      ∃ r, ring = some r ∧ ring' = some (r.enqueue entry) := by
  cases ring with
  | none => exact .error _
  | some r => exact .pure ⟨r, rfl, rfl⟩

theorem sendStream_leaves (s : Stream) (buf : List UInt8) (A : Allocator) :
    Leaves (sendStream s buf) A fun done _ => done.2 = s ∨
      ((A.grants A.calls = true ∧ A.grants (A.calls + 1) = true) ∧ ∃ r f, s.sndbuf = some r ∧
        Sends s f tcpPshFlag (.ofNat buf.length) ∧ done.2 = { s with
          sndbuf := some (r.enqueue f) }) := by
  unfold sendStream
  refine .malloc (fun _ => .pure (.inl rfl)) fun first => ?_
  refine .malloc (fun _ => .pure (.inl rfl)) fun second => ?_
  refine .after (enqueue_returns s.sndbuf _) ?_
  rintro _ ⟨r, ring, rfl⟩
  exact .pure (.inr ⟨⟨first, second⟩, r, _, ring, ⟨rfl, rfl, rfl⟩, rfl⟩)

theorem nsend_leaves (m : Machine) (fd : Int) (buf : List UInt8) :
    Leaves (nsend m.world fd buf) m.heap fun done B =>
      Change m (.send fd buf) (some done.1) ⟨done.2, B⟩ := by
  unfold nsend
  split
  · exact .pure (.still trivial rfl rfl)
  · exact .pure (.still trivial rfl rfl)
  · rename_i stream named
    have member := mem_of_hostinfo named
    refine .bind (sendStream_leaves stream buf m.heap) ?_
    rintro ⟨ret, _⟩ B (rfl | ⟨granted, r, f, ring, sends, rfl⟩)
    · exact .pure (.write member (.refused named) rfl rfl)
    · exact .pure (.write member (.sends named granted ring sends) rfl rfl)

theorem recvStream_returns (s : Stream) (len : Nat) :
    Returns (recvStream s len) fun got =>
      ∀ done, got = some done → ∃ rcvbuf, done.stream = { s with rcvbuf := rcvbuf } := by
  unfold recvStream
  split
  · exact .error _
  · split
    · exact .pure fun _ none_ => nomatch none_
    · refine .ite (.pure ?_) (.ite (.pure ?_) (.pure ?_)) <;>
      · rintro _ ⟨⟩
        exact ⟨_, rfl⟩

theorem nrecv_change (m : Machine) (fd : Int) (len : Nat) :
    Returns (nrecv m.world fd len) fun got => ∀ ret copied w, got = some (ret, copied, w) →
      Change m (.recv fd len) (some ret) ⟨w, m.heap⟩ := by
  unfold nrecv
  split
  · refine .pure ?_
    rintro _ _ _ ⟨⟩
    exact .still trivial rfl rfl
  · refine .pure ?_
    rintro _ _ _ ⟨⟩
    exact .still trivial rfl rfl
  · rename_i stream named
    refine .bind (recvStream_returns stream len) ?_
    rintro (_ | done) kept
    · exact .pure fun _ _ _ none_ => nomatch none_
    · refine .pure ?_
      rintro _ _ _ ⟨⟩
      obtain ⟨rcvbuf, same⟩ := kept done rfl
      rw [same]
      exact .write (mem_of_hostinfo named) (.reads named) rfl rfl

theorem nrecvfrom_leaves (m : Machine) (fd : Int) (len : Nat) (behind : List UInt8) :
    Leaves (nrecvfrom (fun _ => behind) m.world fd len) m.heap fun got B =>
      ∀ ret datagram w, got = some (ret, datagram, w) →
        Change m (.recvfrom fd len behind) (some ret) ⟨w, B⟩ := by
  unfold nrecvfrom
  split
  · refine .pure ?_
    rintro _ _ _ ⟨⟩
    exact .still trivial rfl rfl
  · exact .throw _
  · rename_i host named
    have member := (hostinfo_host named).1
    split
    · exact .pure fun _ _ _ none_ => nomatch none_
    · apply (Leaves.of_returns (.any _)).bind
      intro got B _
      refine .pure ?_
      rintro _ _ _ ⟨⟩
      refine .writeHost trivial member ?_ ?_ ⟨?_, ?_⟩ rfl rfl
      · rfl
      · rfl
      · cases got.back <;> simp
      · rfl

theorem nsendto_leaves (m : Machine) (fd : Int) (buf : List UInt8) (sinAddr : UInt32)
    (sinPort : UInt16) :
    Leaves (nsendto m.world fd buf sinAddr sinPort) m.heap fun done B =>
      Change m (.sendto fd buf sinAddr sinPort) (some done.1) ⟨done.2, B⟩ := by
  unfold nsendto
  split
  · exact .pure (.still trivial rfl rfl)
  · exact .throw _
  · rename_i host named
    have member := (hostinfo_host named).1
    refine .malloc (fun _ => .pure (.still trivial rfl rfl)) fun _ => ?_
    apply (Leaves.of_returns (.any _)).bind
    rintro (_ | block) B -
    · exact .pure (.still trivial rfl rfl)
    · refine .pure (.writeHost trivial member ?_ ?_ ⟨?_, ?_⟩ rfl rfl)
      · rfl
      · rfl
      · rfl
      · simp

theorem closeStream_leaves (s : Stream) (A : Allocator) :
    Leaves (closeStream s) A fun done _ => ∀ s', done = some s' →
      A.grants A.calls = true ∧ ∃ r f, s.sndbuf = some r ∧ Sends s f tcpFinFlag 0 ∧ s' = { s with
        sndbuf := some (r.enqueue f), status := .lastAck } := by
  unfold closeStream
  refine .malloc (fun _ => .pure fun _ none_ => nomatch none_) fun granted => .step rfl ?_
  refine .after (enqueue_returns s.sndbuf _) ?_
  rintro _ ⟨r, ring, rfl⟩
  refine .pure fun s' made => ?_
  cases made
  exact ⟨granted, r, _, ring, ⟨rfl, rfl, rfl⟩, rfl⟩

theorem nclose_leaves (m : Machine) (fd : Int) :
    Leaves (nclose m.world fd) m.heap fun done B =>
      Change m (.close fd) (some done.1) ⟨done.2, B⟩ := by
  unfold nclose
  split
  · exact .pure (.still rfl rfl rfl)
  · rename_i host named
    refine .step rfl (.after (setFdFrombitmap_returns _ fd) ?_)
    rintro w ⟨streams, hosts, -⟩
    refine .pure (.removeHost rfl rfl named ?_ ?_)
    · simpa using streams
    · simpa using hosts
  · rename_i stream named
    have member := mem_of_hostinfo named
    refine .ite (fun status => ?_) fun listens => ?_
    · refine .bind (closeStream_leaves stream m.heap) ?_
      rintro (_ | s') B made
      · exact .pure (.still rfl rfl rfl)
      · obtain ⟨granted, r, f, ring, sends, rfl⟩ := made s' rfl
        refine .after (setFdFrombitmap_returns _ fd) ?_
        rintro w ⟨streams, hosts, proper⟩
        exact .pure (.write member (.closes named status granted ring sends proper) streams hosts)
    · refine .step rfl (.pure (.remove member (.closed named ?_) rfl rfl))
      simpa using listens

end SocketCalls

theorem outStream_returns (resolved : Bool) (s : Stream) :
    ∃ sndbuf, (outStream resolved s).2 = { s with sndbuf := sndbuf } := by
  unfold outStream
  split
  · exact ⟨s.sndbuf, rfl⟩
  · split
    · exact ⟨s.sndbuf, rfl⟩
    · dsimp only
      split <;> exact ⟨_, rfl⟩

/-- Whatever a machine does is one of the changes. -/
theorem Machine.act_change {m m' : Machine} {e : Event} {ret : Option Int}
    (ran : m.act e = .ok (ret, m')) : Change m e ret m' := by
  cases e with
  | segment isn seg =>
      obtain ⟨value, rfl, called⟩ := Machine.call_ok ran
      exact (ngTcpProcess_leaves m).of_ok _ _ called
  | socket type =>
      obtain ⟨value, rfl, called⟩ := Machine.call_ok ran
      exact (nsocket_leaves m type).of_ok _ _ called
  | bind fd port ip =>
      cases ran
      exact nbind_change m fd port ip
  | listen fd =>
      cases ran
      exact nlisten_change m fd
  | accept fd =>
      rcases Machine.act_accept ran with ⟨rfl, rfl⟩ | ⟨value, peer, w, accepted, rfl, rfl⟩
      · exact .still (.inl rfl) rfl rfl
      · exact naccept_change m fd accepted
  | send fd buf =>
      obtain ⟨value, rfl, called⟩ := Machine.call_ok ran
      exact (nsend_leaves m fd buf).of_ok _ _ called
  | recv fd len =>
      rcases Machine.act_recv ran with ⟨rfl, rfl⟩ | ⟨value, copied, w, received, rfl, rfl⟩
      · exact .still trivial rfl rfl
      · exact (nrecv_change m fd len).of_ok _ received _ _ _ rfl
  | recvfrom fd len behind =>
      rcases Machine.act_recvfrom ran with ⟨rfl, rfl⟩ | ⟨value, datagram, received, rfl⟩
      · exact .still trivial rfl rfl
      · exact (nrecvfrom_leaves m fd len behind).of_ok _ _ received _ _ _ rfl
  | sendto fd buf sinAddr sinPort =>
      obtain ⟨value, rfl, called⟩ := Machine.call_ok ran
      exact (nsendto_leaves m fd buf sinAddr sinPort).of_ok _ _ called
  | close fd =>
      obtain ⟨value, rfl, called⟩ := Machine.call_ok ran
      exact (nclose_leaves m fd).of_ok _ _ called
  | out addr resolved =>
      rcases Machine.act_out ran with rfl | ⟨s, member, rfl⟩
      · exact .still trivial rfl rfl
      · obtain ⟨sndbuf, same⟩ := outStream_returns resolved s
        refine .write member ?_ rfl rfl
        rw [same]
        exact .out

end LinuxCpp.Ustack
