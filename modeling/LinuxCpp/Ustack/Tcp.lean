import LinuxCpp.Ustack.World

set_option autoImplicit false

/- The receive path of ustack/tcp.c. The initial sequence number of a connection is
drawn from `rand_r` and comes in as a parameter. -/
namespace LinuxCpp.Ustack

open C

/-- A stream with these four numbers, or else a listener on the port. -/
def ngTcpStreamSearch (w : World) (sip dip : UInt32) (sport dport : UInt16) : Option Stream :=
  match w.tcbSet.find? fun iter =>
      iter.sip = sip ∧ iter.dip = dip ∧ iter.sport = sport ∧ iter.dport = dport with
  | some stream => some stream
  | none => w.tcbSet.find? fun iter => iter.dport = dport ∧ iter.status = .listen

/-- `rcv_nxt` is not written and keeps the word of the fresh block. -/
def ngTcpStreamCreate (isn : UInt32) (w : World) (sip dip : UInt32) (sport dport : UInt16) :
    CM (Option Stream × World) := do
  match ← malloc with
  | none => return (none, w)
  | some addr =>
      let words ← junkOf addr
      let (sndbuf, w) ← ringCreate Fragment w .sndbuf
      let (rcvbuf, w) ← ringCreate Fragment w .rcvbuf
      return (some ⟨addr, -1, dip, dport, sport, sip, isn, .ofNat (words 0), .listen, sndbuf,
        rcvbuf⟩, w)

/-- The SYN+ACK that answers a SYN. -/
def synAck (syn : Stream) (seg : Segment) : Fragment :=
  { Fragment.zeroed with
    sport := seg.dstPort, dport := seg.srcPort, seqnum := syn.sndNxt, acknum := seg.sentSeq + 1,
    tcpFlags := tcpSynFlag ||| tcpAckFlag, windows := tcpInitialWindow, hdrlenOff := 0x50 }

def ngTcpHandleListen (isn : UInt32) (w : World) (stream : Stream) (seg : Segment) :
    CM (Int × World) := do
  if seg.has tcpSynFlag then
    if stream.status = .listen then
      match ← ngTcpStreamCreate isn w seg.srcAddr seg.dstAddr seg.srcPort seg.dstPort with
      | (none, _) => throw .nullDeref
      | (some syn, w) =>
          match ← malloc with
          | none => return (-1, w.add syn)
          | some _ =>
              let fragment := synAck syn seg
              let sndbuf ← enqueue syn.sndbuf fragment
              return (0, w.add { syn with
                rcvNxt := fragment.acknum, sndbuf := sndbuf, status := .synRcvd })
  return (0, w)

/-- The acknowledged number is read and compared, and the comparison is not used. -/
def ngTcpHandleSynRcvd (w : World) (stream : Stream) (seg : Segment) :
    Except Fault (Int × World) := do
  if seg.has tcpAckFlag then
    if stream.status = .synRcvd then
      let w := w.put { stream with status := .established }
      if ngTcpStreamSearch w 0 0 0 stream.dport = none then throw .abort
      return (0, w)
  return (0, w)

/-- The payload is copied from behind the header. -/
def payload (seg : Segment) (payloadlen : Nat) : Except Fault (List UInt8) :=
  if seg.hdrlen * 4 + payloadlen ≤ seg.bytes.length then
    .ok ((seg.bytes.drop (seg.hdrlen * 4)).take payloadlen)
  else .error .outOfBounds

def ngTcpEnqueueRecvbuffer (stream : Stream) (seg : Segment) (tcplen : Int) :
    CM (Int × Stream) := do
  match ← malloc with
  | none => return (-1, stream)
  | some _ =>
      let rfragment := { Fragment.zeroed with
        dport := ntohs seg.dstPort, sport := ntohs seg.srcPort }
      let payloadlen := seg.payloadlen tcplen
      if 0 < payloadlen then
        match ← malloc with
        | none => return (-1, stream)
        | some _ =>
            let data ← payload seg payloadlen.toNat
            let rcvbuf ← enqueue stream.rcvbuf { rfragment with
              data := some data, length := .ofInt payloadlen }
            return (0, { stream with rcvbuf := rcvbuf })
      else
        let rcvbuf ← enqueue stream.rcvbuf rfragment
        return (0, { stream with rcvbuf := rcvbuf })

def ngTcpSendAckpkt (stream : Stream) (seg : Segment) : CM (Int × Stream) := do
  match ← malloc with
  | none => return (-1, stream)
  | some _ =>
      let sndbuf ← enqueue stream.sndbuf { Fragment.zeroed with
        dport := seg.srcPort, sport := seg.dstPort, acknum := stream.rcvNxt,
        seqnum := stream.sndNxt, tcpFlags := tcpAckFlag, windows := tcpInitialWindow,
        hdrlenOff := 0x50 }
      return (0, { stream with sndbuf := sndbuf })

/-- The PSH branch of `ng_tcp_handle_established`. Neither `sent_seq` nor the result of
the enqueue is looked at. -/
def receivePush (stream : Stream) (seg : Segment) (tcplen : Int) : CM Stream := do
  let (_, stream) ← ngTcpEnqueueRecvbuffer stream seg tcplen
  let (_, stream) ← ngTcpSendAckpkt { stream with
    rcvNxt := stream.rcvNxt + .ofInt (seg.payloadlen tcplen), sndNxt := seg.recvAck } seg
  return stream

/-- The FIN branch; the length it hands on is the number of header words. -/
def receiveFin (stream : Stream) (seg : Segment) : CM Stream := do
  let (_, stream) ← ngTcpEnqueueRecvbuffer { stream with status := .closeWait } seg seg.hdrlen
  let (_, stream) ← ngTcpSendAckpkt { stream with
    rcvNxt := stream.rcvNxt + 1, sndNxt := seg.recvAck } seg
  return stream

def ngTcpHandleEstablished (stream : Stream) (seg : Segment) (tcplen : Int) :
    CM (Int × Stream) := do
  let stream ← (if seg.has tcpPshFlag then receivePush stream seg tcplen else pure stream)
  let stream ← (if seg.has tcpFinFlag then receiveFin stream seg else pure stream)
  return (0, stream)

def ngTcpHandleLastAck (w : World) (stream : Stream) (seg : Segment) : CM (Int × World) := do
  if seg.has tcpAckFlag then
    if stream.status = .lastAck then
      let w := ((w.remove stream).ringFree stream.sndbuf).ringFree stream.rcvbuf
      freeBlock stream.addr
      return (0, w)
  return (0, w)

/-- The statuses without a handler, and `CLOSE_WAIT`, whose handler does nothing. -/
def ngTcpProcess (isn : UInt32) (w : World) (seg : Segment) : CM (Int × World) := do
  if !seg.cksumOk then return (-1, w)
  match ngTcpStreamSearch w seg.srcAddr seg.dstAddr seg.srcPort seg.dstPort with
  | none => return (-2, w)
  | some stream =>
      match stream.status with
      | .listen => do
          let (_, w) ← ngTcpHandleListen isn w stream seg
          return (0, w)
      | .synRcvd => do
          let (_, w) ← ngTcpHandleSynRcvd w stream seg
          return (0, w)
      | .established => do
          let (_, stream) ← ngTcpHandleEstablished stream seg seg.tcplen
          return (0, w.put stream)
      | .lastAck => do
          let (_, w) ← ngTcpHandleLastAck w stream seg
          return (0, w)
      | _ => return (0, w)

/-- The pass of `ng_tcp_out` over one stream: the packet it builds, if any. A fragment
whose destination is not `resolved` goes back to the tail of the ring. -/
def outStream (resolved : Bool) (stream : Stream) : Option Fragment × Stream :=
  match stream.sndbuf with
  | none => (none, stream)
  | some sndbuf =>
      match sndbuf.entries with
      | [] => (none, stream)
      | fragment :: entries =>
          let sndbuf := { sndbuf with entries := entries }
          if resolved then (some fragment, { stream with sndbuf := some sndbuf })
          else (none, { stream with sndbuf := some (sndbuf.enqueue fragment) })

end LinuxCpp.Ustack
