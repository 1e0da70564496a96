import LinuxCpp.Ustack.Buffers
import LinuxCpp.Ustack.EchoServer

set_option autoImplicit false

/- What the calls and the segments of one visit do to the stack, where memory is not
refused. -/
namespace LinuxCpp.Ustack

open C

section Shapes

/-- The socket that `tcp_server_entry` listens on, descriptor 3, beside which nothing is
open. -/
structure Listens (L : Stream) : Prop where
  fd : L.fd = 3
  dport : L.dport = serverPort
  status : L.status = .listen
  quiet : ∃ r, L.sndbuf = some r ∧ r.entries = []

/-- The connection of a visit. -/
def conn (s : Session) (addr block : Nat) (fd : Int) (sndNxt rcvNxt : UInt32) (status : Status)
    (snd rcv : List Fragment) : Stream :=
  ⟨addr, fd, s.server, serverPort, s.port, s.ip, sndNxt, rcvNxt, status,
    some ⟨block, .sndbuf, snd⟩, some ⟨block + 1, .rcvbuf, rcv⟩⟩

def idle (L : Stream) (table : Nat → Bool) : World :=
  ⟨[L], [], table, [.tcpSendBuffer, .tcpRecvBuffer]⟩

def busy (L c : Stream) (table : Nat → Bool) : World :=
  ⟨[c, L], [], table, [.rcvbuf, .sndbuf, .tcpSendBuffer, .tcpRecvBuffer]⟩

/-- The answers of the stack; they come from the addresses of the visit. -/
def answer (s : Session) (seq ack : UInt32) (flags : UInt8) : Fragment :=
  { Fragment.zeroed with
    sport := serverPort, dport := s.port, seqnum := seq, acknum := ack, tcpFlags := flags,
    windows := tcpInitialWindow, hdrlenOff := 0x50 }

/-- What `nsend` makes of these bytes. -/
def echo (s : Session) (seq ack : UInt32) (data : List UInt8) : Fragment :=
  { answer s seq ack (tcpAckFlag ||| tcpPshFlag) with
    data := some data, length := .ofNat data.length }

/-- What the stack queues for the application. -/
def stored (s : Session) (data : Option (List UInt8)) (length : UInt32) : Fragment :=
  { Fragment.zeroed with
    dport := ntohs serverPort, sport := ntohs s.port, data := data, length := length }

end Shapes

section Stack

variable {L : Stream} {table : Nat → Bool} {s : Session} {A : Allocator}
  {addr block : Nat} {fd : Int} {sndNxt rcvNxt : UInt32} {snd rcv : List Fragment}

theorem enqueue_few {r : Ring Fragment} {f : Fragment} (few : r.entries.length < 8) :
    enqueue (some r) f = .ok (some { r with entries := r.entries ++ [f] }) := by
  have room : r.entries.length < ringSize - 1 := Nat.lt_of_lt_of_le few (by decide)
  rw [enqueue, Ring.enqueue, if_pos room]

theorem put_first {c d : Stream} (block : d.addr = c.addr) (apart : c.addr ≠ L.addr) :
    (busy L c table).put d = busy L d table := by
  have other : ¬ L.addr = d.addr := fun same => apart (block ▸ same.symm)
  simp [busy, World.put, block.symm, other]

theorem search_idle (listens : Listens L) (s : Session) :
    ngTcpStreamSearch (idle L table) s.ip s.server s.port serverPort = some L := by
  simp only [ngTcpStreamSearch, idle, List.find?_cons, List.find?_nil, listens.dport,
    listens.status]
  cases decide (L.sip = s.ip ∧ L.dip = s.server ∧ L.sport = s.port ∧ True) <;> simp

theorem search_busy (L : Stream) (table : Nat → Bool) (s : Session) (addr block : Nat) (fd : Int)
    (sndNxt rcvNxt : UInt32) (status : Status) (snd rcv : List Fragment) :
    ngTcpStreamSearch (busy L (conn s addr block fd sndNxt rcvNxt status snd rcv) table)
      s.ip s.server s.port serverPort =
        some (conn s addr block fd sndNxt rcvNxt status snd rcv) := by
  simp [ngTcpStreamSearch, busy, conn]

section Process

variable {isn : UInt32} {w : World} {seg : Segment} {stream : Stream}

theorem process_listen (cksum : seg.cksumOk = true)
    (found : ngTcpStreamSearch w seg.srcAddr seg.dstAddr seg.srcPort seg.dstPort = some stream)
    (status : stream.status = .listen) :
    ngTcpProcess isn w seg =
      ngTcpHandleListen isn w stream seg >>= fun done => pure (0, done.2) := by
  rw [ngTcpProcess, if_neg (by rw [cksum]; decide)]
  simp only [found, status]

theorem process_synRcvd (cksum : seg.cksumOk = true)
    (found : ngTcpStreamSearch w seg.srcAddr seg.dstAddr seg.srcPort seg.dstPort = some stream)
    (status : stream.status = .synRcvd) :
    ngTcpProcess isn w seg =
      liftM (ngTcpHandleSynRcvd w stream seg) >>= fun done => pure (0, done.2) := by
  rw [ngTcpProcess, if_neg (by rw [cksum]; decide)]
  simp only [found, status]

theorem process_established (cksum : seg.cksumOk = true)
    (found : ngTcpStreamSearch w seg.srcAddr seg.dstAddr seg.srcPort seg.dstPort = some stream)
    (status : stream.status = .established) :
    ngTcpProcess isn w seg =
      ngTcpHandleEstablished stream seg seg.tcplen >>= fun done => pure (0, w.put done.2) := by
  rw [ngTcpProcess, if_neg (by rw [cksum]; decide)]
  simp only [found, status]

theorem process_lastAck (cksum : seg.cksumOk = true)
    (found : ngTcpStreamSearch w seg.srcAddr seg.dstAddr seg.srcPort seg.dstPort = some stream)
    (status : stream.status = .lastAck) :
    ngTcpProcess isn w seg =
      ngTcpHandleLastAck w stream seg >>= fun done => pure (0, done.2) := by
  rw [ngTcpProcess, if_neg (by rw [cksum]; decide)]
  simp only [found, status]

end Process

theorem streamCreate_run (granted : A.AllSucceed) (isn sip dip : UInt32) (sport dport : UInt16) :
    ngTcpStreamCreate isn (idle L table) sip dip sport dport A =
      .ok ((some ⟨A.calls + 1, -1, dip, dport, sport, sip, isn, .ofNat (A.junk A.calls 0), .listen,
          some ⟨A.calls + 2, .sndbuf, []⟩, some ⟨A.calls + 3, .rcvbuf, []⟩⟩,
        { idle L table with rings := [.rcvbuf, .sndbuf, .tcpSendBuffer, .tcpRecvBuffer] }),
        A.next.next.next) := by
  have words : junkOf (A.calls + 1) A.next = .ok (A.junk A.calls, A.next) := rfl
  have noSnd : RingName.sndbuf ∉ (idle L table).rings := by simp [idle]
  have noRcv : RingName.rcvbuf ∉
      ({ idle L table with rings := .sndbuf :: (idle L table).rings } : World).rings := by
    simp [idle]
  have snd := ringCreate_run (A := A.next) Fragment noSnd (granted _)
  have rcv := ringCreate_run (A := A.next.next) Fragment noRcv (granted _)
  rw [ngTcpStreamCreate, bind_ok (malloc_run granted)]
  simp only
  rw [bind_ok words, bind_ok snd]
  simp only
  rw [bind_ok rcv]
  rfl

/-- A SYN makes a connection of its own. -/
theorem deliver_syn (listens : Listens L) (granted : A.AllSucceed) (old : L.addr ≤ A.calls)
    (isn seq ack : UInt32) :
    ∃ addr block B, ngTcpProcess isn (idle L table) (s.segment seq ack tcpSynFlag []) A =
        .ok ((0, busy L (conn s addr block (-1) isn (seq + 1) .synRcvd
          [answer s isn (seq + 1) (tcpSynFlag ||| tcpAckFlag)] []) table), B) ∧
      addr ≠ L.addr ∧ A.Later B := by
  have syn : (s.segment seq ack tcpSynFlag []).has tcpSynFlag = true := by
    change (tcpSynFlag &&& tcpSynFlag != 0) = true
    decide
  refine ⟨A.calls + 1, A.calls + 2, A.next.next.next.next, ?_, by omega, ?_⟩
  · rw [process_listen rfl (search_idle listens s) listens.status, ngTcpHandleListen]
    simp only [syn, if_true, listens.status]
    have made := @streamCreate_run L table A granted isn s.ip s.server s.port serverPort
    simp only [bind_assoc]
    refine (bind_ok made).trans ?_
    simp only [bind_assoc]
    rw [bind_ok (malloc_run (A := A.next.next.next) granted)]
    rfl
  · exact (((Allocator.Later.next A).trans (.next _)).trans (.next _)).trans (.next _)

theorem search_zero (listens : Listens L) (c : Stream) :
    ngTcpStreamSearch (busy L c table) 0 0 0 serverPort ≠ none := by
  intro none_
  rw [ngTcpStreamSearch] at none_
  split at none_
  · cases none_
  · rw [List.find?_eq_none] at none_
    refine none_ L (by simp [busy]) ?_
    simp [listens.dport, listens.status]

theorem put_conn {fd' : Int} {sndNxt' rcvNxt' : UInt32} {status status' : Status}
    {snd' rcv' : List Fragment} (apart : addr ≠ L.addr) :
    (busy L (conn s addr block fd sndNxt rcvNxt status snd rcv) table).put
      (conn s addr block fd' sndNxt' rcvNxt' status' snd' rcv') =
        busy L (conn s addr block fd' sndNxt' rcvNxt' status' snd' rcv') table :=
  put_first rfl apart

/-- Any acknowledgement ends the handshake. -/
theorem deliver_ack (listens : Listens L) (apart : addr ≠ L.addr) (isn seq ack : UInt32) :
    ngTcpProcess isn (busy L (conn s addr block fd sndNxt rcvNxt .synRcvd snd rcv) table)
        (s.segment seq ack tcpAckFlag []) A =
      .ok ((0, busy L (conn s addr block fd sndNxt rcvNxt .established snd rcv) table), A) := by
  have acks : (s.segment seq ack tcpAckFlag []).has tcpAckFlag = true := by
    change (tcpAckFlag &&& tcpAckFlag != 0) = true
    decide
  have listener := @search_zero L table listens (conn s addr block fd sndNxt rcvNxt .established snd
    rcv)
  have moved : (busy L (conn s addr block fd sndNxt rcvNxt .synRcvd snd rcv) table).put
      (conn s addr block fd sndNxt rcvNxt .established snd rcv) = _ := put_conn apart
  have handled : ngTcpHandleSynRcvd
      (busy L (conn s addr block fd sndNxt rcvNxt .synRcvd snd rcv) table)
      (conn s addr block fd sndNxt rcvNxt .synRcvd snd rcv) (s.segment seq ack tcpAckFlag []) =
      .ok (0, busy L (conn s addr block fd sndNxt rcvNxt .established snd rcv) table) := by
    rw [← moved] at listener ⊢
    rw [ngTcpHandleSynRcvd, if_pos acks]
    refine (if_pos rfl).trans ?_
    exact if_neg listener
  rw [process_synRcvd rfl (search_busy ..) rfl, lift_bind_ok handled]
  rfl

/-- The last acknowledgement takes the connection away. -/
theorem deliver_last (apart : addr ≠ L.addr) (isn seq ack : UInt32) :
    ∃ B, ngTcpProcess isn (busy L (conn s addr block fd sndNxt rcvNxt .lastAck snd rcv) table)
        (s.segment seq ack tcpAckFlag []) A = .ok ((0, idle L table), B) ∧ A.Later B := by
  have acks : (s.segment seq ack tcpAckFlag []).has tcpAckFlag = true := by
    change (tcpAckFlag &&& tcpAckFlag != 0) = true
    decide
  refine ⟨{ A with freed := addr :: A.freed }, ?_, ⟨rfl, rfl, Nat.le_refl _⟩⟩
  have other : L.addr ≠ addr := Ne.symm apart
  have gone : (((busy L (conn s addr block fd sndNxt rcvNxt .lastAck snd rcv) table).remove
      (conn s addr block fd sndNxt rcvNxt .lastAck snd rcv)).ringFree
      (some (⟨block, .sndbuf, snd⟩ : Ring Fragment))).ringFree
      (some (⟨block + 1, .rcvbuf, rcv⟩ : Ring Fragment)) = idle L table := by
    simp [World.remove, World.ringFree, busy, idle, conn, other]
  have handled : ngTcpHandleLastAck (busy L (conn s addr block fd sndNxt rcvNxt .lastAck snd rcv)
      table) (conn s addr block fd sndNxt rcvNxt .lastAck snd rcv)
      (s.segment seq ack tcpAckFlag []) A =
      .ok ((0, idle L table), { A with freed := addr :: A.freed }) := by
    rw [ngTcpHandleLastAck, if_pos acks, ← gone]
    rfl
  rw [process_lastAck rfl (search_busy ..) rfl, bind_ok handled]
  rfl

theorem segment_hdrlen (s : Session) (seq ack : UInt32) (flags : UInt8) (data : List UInt8) :
    (s.segment seq ack flags data).hdrlen = 5 := by
  change ((0x50 : UInt8) >>> 4).toNat = 5
  decide

theorem segment_tcplen (s : Session) (seq ack : UInt32) (flags : UInt8) {data : List UInt8}
    (fits : data.length ≤ bufferSize) :
    (s.segment seq ack flags data).tcplen = 20 + data.length := by
  have small : data.length ≤ 1024 := fits
  have total : (UInt16.ofNat (40 + data.length)).toNat = 40 + data.length := by
    rw [UInt16.toNat_ofNat']
    exact Nat.mod_eq_of_lt (by omega)
  change ((UInt16.ofNat (40 + data.length)).toNat : Int) - 20 = _
  rw [total]
  omega

theorem segment_payload (s : Session) (seq ack : UInt32) (flags : UInt8) {data : List UInt8} :
    payload (s.segment seq ack flags data) data.length = .ok data := by
  have front : (List.replicate 20 (0 : UInt8) ++ data).length = 20 + data.length := by
    rw [List.length_append, List.length_replicate]
  rw [payload, segment_hdrlen, if_pos]
  · change Except.ok (((List.replicate 20 0 ++ data).drop 20).take data.length) = _
    rw [List.drop_left' (by simp), List.take_length]
  · change 20 + data.length ≤ (List.replicate 20 (0 : UInt8) ++ data).length
    rw [front]

variable {data : List UInt8}

theorem enqueueRecv_run (granted : A.AllSucceed) (some_ : data ≠ [])
    (fits : data.length ≤ bufferSize) (few : rcv.length < 8) (seq ack : UInt32) (flags : UInt8)
    (status : Status) :
    ngTcpEnqueueRecvbuffer (conn s addr block fd sndNxt rcvNxt status snd rcv)
        (s.segment seq ack flags data) (s.segment seq ack flags data).tcplen A =
      .ok ((0, conn s addr block fd sndNxt rcvNxt status snd
        (rcv ++ [stored s (some data) (.ofNat data.length)])), A.next.next) := by
  have length : (s.segment seq ack flags data).payloadlen
      (s.segment seq ack flags data).tcplen = data.length := by
    rw [Segment.payloadlen, segment_hdrlen, segment_tcplen s seq ack flags fits]
    omega
  have positive := List.length_pos_of_ne_nil some_
  have places : enqueue (some (⟨block + 1, .rcvbuf, rcv⟩ : Ring Fragment))
      (stored s (some data) (.ofNat data.length)) = .ok (some ⟨block + 1, .rcvbuf,
        rcv ++ [stored s (some data) (.ofNat data.length)]⟩) := enqueue_few few
  rw [ngTcpEnqueueRecvbuffer, bind_ok (malloc_run granted)]
  simp only [length]
  rw [if_pos (by omega), bind_ok (malloc_run (A := A.next) granted)]
  simp only [Int.toNat_natCast]
  rw [lift_bind_ok (segment_payload s seq ack flags), ofInt_natCast]
  exact lift_bind_ok places

theorem sendAckpkt_run (granted : A.AllSucceed) (few : snd.length < 8) (seq ack : UInt32)
    (flags : UInt8) (status : Status) :
    ngTcpSendAckpkt (conn s addr block fd sndNxt rcvNxt status snd rcv)
        (s.segment seq ack flags data) A =
      .ok ((0, conn s addr block fd sndNxt rcvNxt status
        (snd ++ [answer s sndNxt rcvNxt tcpAckFlag]) rcv), A.next) := by
  have places : enqueue (some (⟨block, .sndbuf, snd⟩ : Ring Fragment))
      (answer s sndNxt rcvNxt tcpAckFlag) = .ok (some ⟨block, .sndbuf,
        snd ++ [answer s sndNxt rcvNxt tcpAckFlag]⟩) := enqueue_few few
  rw [ngTcpSendAckpkt, bind_ok (malloc_run granted)]
  exact lift_bind_ok places

/-- A chunk is queued and acknowledged. -/
theorem deliver_data (granted : A.AllSucceed) (apart : addr ≠ L.addr) (some_ : data ≠ [])
    (fits : data.length ≤ bufferSize) (fewSnd : snd.length < 8) (fewRcv : rcv.length < 8)
    (isn seq ack : UInt32) :
    ∃ B, ngTcpProcess isn (busy L (conn s addr block fd sndNxt rcvNxt .established snd rcv) table)
        (s.segment seq ack (tcpPshFlag ||| tcpAckFlag) data) A =
      .ok ((0, busy L (conn s addr block fd ack (rcvNxt + .ofNat data.length) .established
        (snd ++ [answer s ack (rcvNxt + .ofNat data.length) tcpAckFlag])
        (rcv ++ [stored s (some data) (.ofNat data.length)])) table), B) ∧ A.Later B := by
  have push : (s.segment seq ack (tcpPshFlag ||| tcpAckFlag) data).has tcpPshFlag = true := by
    change ((tcpPshFlag ||| tcpAckFlag) &&& tcpPshFlag != 0) = true
    decide
  have noFin : ¬ (s.segment seq ack (tcpPshFlag ||| tcpAckFlag) data).has tcpFinFlag = true := by
    change ¬ ((tcpPshFlag ||| tcpAckFlag) &&& tcpFinFlag != 0) = true
    decide
  have length : (s.segment seq ack (tcpPshFlag ||| tcpAckFlag) data).payloadlen
      (s.segment seq ack (tcpPshFlag ||| tcpAckFlag) data).tcplen = data.length := by
    rw [Segment.payloadlen, segment_hdrlen, segment_tcplen s seq ack _ fits]
    omega
  refine ⟨A.next.next.next, ?_, ((Allocator.Later.next A).trans (.next _)).trans (.next _)⟩
  have pushed : receivePush (conn s addr block fd sndNxt rcvNxt .established snd rcv)
      (s.segment seq ack (tcpPshFlag ||| tcpAckFlag) data)
      (s.segment seq ack (tcpPshFlag ||| tcpAckFlag) data).tcplen A =
      .ok (conn s addr block fd ack (rcvNxt + .ofNat data.length) .established
        (snd ++ [answer s ack (rcvNxt + .ofNat data.length) tcpAckFlag])
        (rcv ++ [stored s (some data) (.ofNat data.length)]), A.next.next.next) := by
    rw [receivePush]
    refine (bind_ok (enqueueRecv_run granted some_ fits fewRcv seq ack _ .established)).trans ?_
    simp only [length, ofInt_natCast]
    have later : A.next.next.AllSucceed := granted
    exact bind_ok (sendAckpkt_run later fewSnd seq ack _ .established)
  have handled : ngTcpHandleEstablished (conn s addr block fd sndNxt rcvNxt .established snd rcv)
      (s.segment seq ack (tcpPshFlag ||| tcpAckFlag) data)
      (s.segment seq ack (tcpPshFlag ||| tcpAckFlag) data).tcplen A =
      .ok ((0, conn s addr block fd ack (rcvNxt + .ofNat data.length) .established
        (snd ++ [answer s ack (rcvNxt + .ofNat data.length) tcpAckFlag])
        (rcv ++ [stored s (some data) (.ofNat data.length)])), A.next.next.next) := by
    rw [ngTcpHandleEstablished, if_pos push, bind_ok pushed, if_neg noFin]
    rfl
  rw [process_established rfl (search_busy ..) rfl, bind_ok handled]
  simp only [put_conn apart]
  rfl

/-- The FIN is queued as a fragment without bytes, and acknowledged. -/
theorem deliver_fin (granted : A.AllSucceed) (apart : addr ≠ L.addr) (fewSnd : snd.length < 8)
    (fewRcv : rcv.length < 8) (isn seq ack : UInt32) :
    ∃ B, ngTcpProcess isn (busy L (conn s addr block fd sndNxt rcvNxt .established snd rcv) table)
        (s.segment seq ack (tcpFinFlag ||| tcpAckFlag) []) A =
      .ok ((0, busy L (conn s addr block fd ack (rcvNxt + 1) .closeWait
        (snd ++ [answer s ack (rcvNxt + 1) tcpAckFlag])
        (rcv ++ [stored s none 0])) table), B) ∧ A.Later B := by
  have noPush : ¬ (s.segment seq ack (tcpFinFlag ||| tcpAckFlag) []).has tcpPshFlag = true := by
    change ¬ ((tcpFinFlag ||| tcpAckFlag) &&& tcpPshFlag != 0) = true
    decide
  have fin : (s.segment seq ack (tcpFinFlag ||| tcpAckFlag) []).has tcpFinFlag = true := by
    change ((tcpFinFlag ||| tcpAckFlag) &&& tcpFinFlag != 0) = true
    decide
  have negative : ¬ 0 < (s.segment seq ack (tcpFinFlag ||| tcpAckFlag) []).payloadlen
      (s.segment seq ack (tcpFinFlag ||| tcpAckFlag) []).hdrlen := by
    rw [Segment.payloadlen, segment_hdrlen]
    omega
  refine ⟨A.next.next, ?_, (Allocator.Later.next A).trans (.next _)⟩
  have places : enqueue (some (⟨block + 1, .rcvbuf, rcv⟩ : Ring Fragment)) (stored s none 0) =
      .ok (some ⟨block + 1, .rcvbuf, rcv ++ [stored s none 0]⟩) := enqueue_few fewRcv
  have queued : ngTcpEnqueueRecvbuffer (conn s addr block fd sndNxt rcvNxt .closeWait snd rcv)
      (s.segment seq ack (tcpFinFlag ||| tcpAckFlag) [])
      (s.segment seq ack (tcpFinFlag ||| tcpAckFlag) []).hdrlen A =
      .ok ((0, conn s addr block fd sndNxt rcvNxt .closeWait snd (rcv ++ [stored s none 0])),
        A.next) := by
    rw [ngTcpEnqueueRecvbuffer, bind_ok (malloc_run granted)]
    simp only
    rw [if_neg negative]
    exact lift_bind_ok places
  have closed : receiveFin (conn s addr block fd sndNxt rcvNxt .established snd rcv)
      (s.segment seq ack (tcpFinFlag ||| tcpAckFlag) []) A =
      .ok (conn s addr block fd ack (rcvNxt + 1) .closeWait
        (snd ++ [answer s ack (rcvNxt + 1) tcpAckFlag]) (rcv ++ [stored s none 0]),
        A.next.next) := by
    rw [receiveFin]
    refine (bind_ok queued).trans ?_
    have later : A.next.AllSucceed := granted
    exact bind_ok (sendAckpkt_run later fewSnd seq ack _ .closeWait)
  have handled : ngTcpHandleEstablished (conn s addr block fd sndNxt rcvNxt .established snd rcv)
      (s.segment seq ack (tcpFinFlag ||| tcpAckFlag) [])
      (s.segment seq ack (tcpFinFlag ||| tcpAckFlag) []).tcplen A =
      .ok ((0, conn s addr block fd ack (rcvNxt + 1) .closeWait
        (snd ++ [answer s ack (rcvNxt + 1) tcpAckFlag]) (rcv ++ [stored s none 0])),
        A.next.next) := by
    rw [ngTcpHandleEstablished, if_neg noPush, pure_bind, if_pos fin, bind_ok closed]
    rfl
  rw [process_established rfl (search_busy ..) rfl, bind_ok handled]
  simp only [put_conn apart]
  rfl

end Stack

section Calls

variable {L : Stream} {table : Nat → Bool} {s : Session} {A : Allocator}
  {addr block : Nat} {sndNxt rcvNxt : UInt32} {status : Status} {snd rcv : List Fragment}

theorem find_listener (listens : Listens L) {c : Stream} (apart : c.fd ≠ 3) :
    getHostinfoFromfd (busy L c table) 3 = some (.stream L) := by
  simp [getHostinfoFromfd_stream, busy, listens.fd, Ne.symm apart]

theorem find_conn :
    getHostinfoFromfd (busy L (conn s addr block 4 sndNxt rcvNxt status snd rcv) table) 4 =
      some (.stream (conn s addr block 4 sndNxt rcvNxt status snd rcv)) := by
  simp [getHostinfoFromfd_stream, busy, conn]

theorem find_idle (fd : L.fd = 3) : getHostinfoFromfd (idle L table) 3 = some (.stream L) := by
  simp [getHostinfoFromfd_stream, idle, fd]

theorem accept_waits_idle (listens : Listens L) : naccept (idle L table) 3 = none := by
  have found := @find_idle L table listens.fd
  have nobody : getAcceptTcb (idle L table) L.dport = none := by
    simp [getAcceptTcb, idle, listens.fd]
  simp only [naccept, found, nobody]

theorem accept_waits (listens : Listens L) :
    naccept (busy L (conn s addr block 4 sndNxt rcvNxt status snd rcv) table) 3 = none := by
  have found := @find_listener L table listens (conn s addr block 4 sndNxt rcvNxt status snd rcv)
    (by simp [conn])
  have nobody : getAcceptTcb (busy L (conn s addr block 4 sndNxt rcvNxt status snd rcv) table)
      L.dport = none := by
    simp [getAcceptTcb, busy, conn, listens.fd]
  simp only [naccept, found, nobody]

/-- The fourth descriptor is the first one free. -/
theorem accept_takes (listens : Listens L) (apart : addr ≠ L.addr) (own : table 3 = true)
    (free : table 4 = false) :
    naccept (busy L (conn s addr block (-1) sndNxt rcvNxt status snd rcv) table) 3 =
      some (4, some (s.port, s.ip), busy L (conn s addr block 4 sndNxt rcvNxt status snd rcv)
        (Function.update table 4 true)) := by
  have found := @find_listener L table listens
    (conn s addr block (-1) sndNxt rcvNxt status snd rcv) (by simp [conn])
  have first : getAcceptTcb (busy L (conn s addr block (-1) sndNxt rcvNxt status snd rcv) table)
      L.dport = some (conn s addr block (-1) sndNxt rcvNxt status snd rcv) := by
    simp [getAcceptTcb, busy, conn, listens.dport]
  have range : List.range' defaultFdNum (maxFdCount - defaultFdNum) =
      3 :: 4 :: List.range' 5 (maxFdCount - defaultFdNum - 2) := rfl
  have handed : World.freeFd (busy L (conn s addr block (-1) sndNxt rcvNxt status snd rcv) table) =
      some 4 := by
    rw [World.freeFd, range]
    simp [busy, own, free]
  simp only [naccept, found, first, getFdFrombitmap, handed]
  have moved := @put_conn L (Function.update table 4 true) s addr block (-1) sndNxt rcvNxt snd rcv 4
    sndNxt rcvNxt status status snd rcv apart
  exact congrArg (fun w => some ((4 : Int), some (s.port, s.ip), w)) moved

theorem recv_waits :
    nrecv (busy L (conn s addr block 4 sndNxt rcvNxt status snd []) table) 4 bufferSize =
      .ok none := by
  simp only [nrecv, find_conn]
  rfl

/-- A chunk that fits the buffer is read as a whole. -/
theorem recv_takes (apart : addr ≠ L.addr) {data : List UInt8} (some_ : data ≠ [])
    (fits : data.length ≤ bufferSize) :
    nrecv (busy L (conn s addr block 4 sndNxt rcvNxt status snd
        (stored s (some data) (.ofNat data.length) :: rcv)) table) 4 bufferSize =
      .ok (some (data.length, data,
        busy L (conn s addr block 4 sndNxt rcvNxt status snd rcv) table)) := by
  have small : data.length ≤ 1024 := fits
  have length : (UInt32.ofNat data.length).toNat = data.length := by
    rw [UInt32.toNat_ofNat']
    exact Nat.mod_eq_of_lt (by omega)
  have positive := List.length_pos_of_ne_nil some_
  have nonzero : UInt32.ofNat data.length ≠ 0 := by
    intro zero
    rw [zero] at length
    simp at length
    omega
  have read : recvStream (conn s addr block 4 sndNxt rcvNxt status snd
      (stored s (some data) (.ofNat data.length) :: rcv)) bufferSize =
      .ok (some ⟨data.length, data, conn s addr block 4 sndNxt rcvNxt status snd rcv⟩) := by
    simp only [recvStream, conn, stored, Fragment.bytes, Option.getD_some, length]
    rw [if_neg (by omega), if_neg nonzero, List.take_length]
    rfl
  simp only [nrecv, find_conn, read, ok_bind, put_conn apart]
  rfl

/-- The fragment of the FIN is read as the end. -/
theorem recv_eof (apart : addr ≠ L.addr) :
    nrecv (busy L (conn s addr block 4 sndNxt rcvNxt status snd (stored s none 0 :: rcv)) table) 4
        bufferSize =
      .ok (some (0, [], busy L (conn s addr block 4 sndNxt rcvNxt status snd rcv) table)) := by
  have read : recvStream (conn s addr block 4 sndNxt rcvNxt status snd (stored s none 0 :: rcv))
      bufferSize = .ok (some ⟨0, [], conn s addr block 4 sndNxt rcvNxt status snd rcv⟩) := rfl
  simp only [nrecv, find_conn, read, ok_bind, put_conn apart]
  rfl

theorem send_run (granted : A.AllSucceed) (apart : addr ≠ L.addr) (few : snd.length < 8)
    (buf : List UInt8) :
    ∃ ret B, nsend (busy L (conn s addr block 4 sndNxt rcvNxt status snd rcv) table) 4 buf A =
      .ok ((ret, busy L (conn s addr block 4 sndNxt rcvNxt status
        (snd ++ [echo s sndNxt rcvNxt buf]) rcv) table), B) ∧ A.Later B := by
  have places : enqueue (some (⟨block, .sndbuf, snd⟩ : Ring Fragment))
      (echo s sndNxt rcvNxt buf) = .ok (some ⟨block, .sndbuf,
        snd ++ [echo s sndNxt rcvNxt buf]⟩) := enqueue_few few
  have later : A.next.AllSucceed := granted
  have queued : sendStream (conn s addr block 4 sndNxt rcvNxt status snd rcv) buf A =
      .ok (((UInt32.ofNat buf.length).toNat, conn s addr block 4 sndNxt rcvNxt status
        (snd ++ [echo s sndNxt rcvNxt buf]) rcv), A.next.next) := by
    rw [sendStream, bind_ok (malloc_run granted)]
    simp only
    rw [bind_ok (malloc_run later)]
    exact lift_bind_ok places
  refine ⟨(UInt32.ofNat buf.length).toNat, A.next.next, ?_,
    (Allocator.Later.next A).trans (.next _)⟩
  simp only [nsend, find_conn]
  rw [bind_ok queued]
  simp only [put_conn apart]
  rfl

/-- The descriptor is given back before the last acknowledgement. -/
theorem close_run (granted : A.AllSucceed) (cleared : ∀ call i, A.junk call i = 0)
    (apart : addr ≠ L.addr) (few : snd.length < 8) :
    ∃ B, nclose (busy L (conn s addr block 4 sndNxt rcvNxt .closeWait snd rcv) table) 4 A =
      .ok ((0, busy L (conn s addr block 4 sndNxt rcvNxt .lastAck
        (snd ++ [answer s sndNxt rcvNxt (tcpFinFlag ||| tcpAckFlag)]) rcv)
        (Function.update table 4 false)), B) ∧ A.Later B := by
  have words : junkOf (A.calls + 1) A.next = .ok (A.junk A.calls, A.next) := rfl
  have places : enqueue (some (⟨block, .sndbuf, snd⟩ : Ring Fragment))
      (answer s sndNxt rcvNxt (tcpFinFlag ||| tcpAckFlag)) = .ok (some ⟨block, .sndbuf,
        snd ++ [answer s sndNxt rcvNxt (tcpFinFlag ||| tcpAckFlag)]⟩) := enqueue_few few
  have queued : closeStream (conn s addr block 4 sndNxt rcvNxt .closeWait snd rcv) A =
      .ok (some (conn s addr block 4 sndNxt rcvNxt .lastAck
        (snd ++ [answer s sndNxt rcvNxt (tcpFinFlag ||| tcpAckFlag)]) rcv), A.next) := by
    rw [closeStream, bind_ok (malloc_run granted)]
    simp only
    rw [bind_ok words]
    simp only [cleared]
    exact lift_bind_ok places
  have given : setFdFrombitmap (busy L (conn s addr block 4 sndNxt rcvNxt .lastAck
      (snd ++ [answer s sndNxt rcvNxt (tcpFinFlag ||| tcpAckFlag)]) rcv) table) 4 =
      .ok (busy L (conn s addr block 4 sndNxt rcvNxt .lastAck
        (snd ++ [answer s sndNxt rcvNxt (tcpFinFlag ||| tcpAckFlag)]) rcv)
        (Function.update table 4 false)) := by
    rw [setFdFrombitmap, if_neg (by decide), if_neg (by decide)]
    rfl
  have open_ : (conn s addr block 4 sndNxt rcvNxt .closeWait snd rcv).status ≠ .listen := by
    simp [conn]
  refine ⟨A.next, ?_, .next A⟩
  simp only [nclose, find_conn]
  rw [if_pos open_, bind_ok queued]
  simp only [put_conn apart]
  exact lift_bind_ok given

variable {entries : List ArpEntry} {mbufs : Nat}

/-- A pass over the idle stack builds nothing. -/
theorem out_idle (listens : Listens L) : ngTcpOut mbufs entries (idle L table) =
    .ok ([], idle L table) := by
  obtain ⟨r, quiet, empty⟩ := listens.quiet
  have still : ngTcpOutStream entries L = ([], L) := by
    simp only [ngTcpOutStream, quiet, empty]
  simp only [ngTcpOut, idle, List.flatMap_cons, still, List.flatMap_nil, List.map_cons,
    List.map_nil]
  exact if_pos (Nat.zero_le _)

/-- Nothing is queued, and a pass builds nothing. -/
theorem out_still (listens : Listens L) (fd : Int) : ngTcpOut mbufs entries
      (busy L (conn s addr block fd sndNxt rcvNxt status [] rcv) table) =
    .ok ([], busy L (conn s addr block fd sndNxt rcvNxt status [] rcv) table) := by
  obtain ⟨r, quiet, empty⟩ := listens.quiet
  have still : ngTcpOutStream entries L = ([], L) := by
    simp only [ngTcpOutStream, quiet, empty]
  have waits : ngTcpOutStream entries (conn s addr block fd sndNxt rcvNxt status [] rcv) =
      ([], conn s addr block fd sndNxt rcvNxt status [] rcv) := rfl
  simp only [ngTcpOut, busy, List.flatMap_cons, waits, still, List.flatMap_nil, List.map_cons,
    List.map_nil]
  exact if_pos (Nat.zero_le _)

/-- A pass takes the first fragment of the connection. -/
theorem out_busy (listens : Listens L) (room : 0 < mbufs)
    (known : ngGetDstMacaddr entries s.ip ≠ none) (fd : Int) :
    ∃ packets, ngTcpOut mbufs entries
        (busy L (conn s addr block fd sndNxt rcvNxt status snd rcv) table) =
      .ok (packets, busy L (conn s addr block fd sndNxt rcvNxt status (snd.drop 1) rcv) table) ∧
      fragmentsOf packets = snd.take 1 := by
  obtain ⟨mac, resolved⟩ := Option.ne_none_iff_exists'.mp known
  obtain ⟨r, quiet, empty⟩ := listens.quiet
  have still : ngTcpOutStream entries L = ([], L) := by
    simp only [ngTcpOutStream, quiet, empty]
  cases snd with
  | nil => exact ⟨[], out_still listens fd, rfl⟩
  | cons f waiting =>
      have takes : ngTcpOutStream entries
          (conn s addr block fd sndNxt rcvNxt status (f :: waiting) rcv) =
          ([.tcp addr s.server s.ip mac f],
            conn s addr block fd sndNxt rcvNxt status waiting rcv) := by
        simp only [ngTcpOutStream, conn, resolved]
      refine ⟨[.tcp addr s.server s.ip mac f], ?_, rfl⟩
      simp only [ngTcpOut, busy, List.flatMap_cons, takes, still, List.flatMap_nil, List.map_cons,
        List.map_nil]
      exact if_pos room

end Calls

end LinuxCpp.Ustack
