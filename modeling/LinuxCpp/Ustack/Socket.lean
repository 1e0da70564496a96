import LinuxCpp.C.Bytes
import LinuxCpp.Ustack.World

set_option autoImplicit false

/- The socket calls of ustack/tcp.c. Each call is one step; `naccept`, `nrecv` and
`nrecvfrom` wait on a condition and have no step before it holds. -/
namespace LinuxCpp.Ustack

open C

/-- The `type` argument of `nsocket`. -/
inductive SockType where
  | dgram
  | stream
  | other
deriving DecidableEq, Repr

/-- The descriptor is taken from the bitmap first, and stays taken when the rest fails. -/
def nsocket (w : World) (type : SockType) : CM (Int × World) := do
  let (fd, w) := getFdFrombitmap w
  match type with
  | .dgram =>
      match ← malloc with
      | none => return (-1, w)
      | some addr =>
          match ← ringCreate Offload w .recvBuffer with
          | (none, w) => do
              freeBlock addr
              return (-1, w)
          | (some rcvbuf, w) =>
              match ← ringCreate Offload w .sendBuffer with
              | (none, w) => do
                  freeBlock addr
                  return (-1, w.ringFree (some rcvbuf))
              | (some sndbuf, w) =>
                  return (fd, { w with lhost := ⟨addr, fd, 0, 0, sndbuf, rcvbuf⟩ :: w.lhost })
  | .stream =>
      match ← malloc with
      | none => return (-1, w)
      | some addr =>
          match ← ringCreate Fragment w .tcpRecvBuffer with
          | (none, w) => do
              freeBlock addr
              return (-1, w)
          | (some rcvbuf, w) =>
              match ← ringCreate Fragment w .tcpSendBuffer with
              | (none, w) => do
                  freeBlock addr
                  return (-1, w.ringFree (some rcvbuf))
              | (some sndbuf, w) =>
                  return (fd, w.add ⟨addr, fd, 0, 0, 0, 0, 0, 0, .closed, some sndbuf,
                    some rcvbuf⟩)
  | .other => return (fd, w)

def nbind (w : World) (sockfd : Int) (port : UInt16) (ip : UInt32) : Int × World :=
  match getHostinfoFromfd w sockfd with
  | none => (-1, w)
  | some (.host host) => (0, w.putHost { host with localport := port, localip := ip })
  | some (.stream stream) =>
      (0, w.put { stream with dport := port, dip := ip, status := .closed })

def nlisten (w : World) (sockfd : Int) : Int × World :=
  match getHostinfoFromfd w sockfd with
  | none => (-1, w)
  | some (.host _) => (0, w)
  | some (.stream stream) => (0, w.put { stream with status := .listen })

/-- The descriptor, and the port and address of the peer; `none` while the call waits. -/
def naccept (w : World) (sockfd : Int) : Option (Int × Option (UInt16 × UInt32) × World) :=
  match getHostinfoFromfd w sockfd with
  | none => some (-1, none, w)
  | some (.host _) => some (-1, none, w)
  | some (.stream stream) =>
      match getAcceptTcb w stream.dport with
      | none => none
      | some apt =>
          let (fd, w) := getFdFrombitmap w
          some (fd, some (apt.sport, apt.sip), w.put { apt with fd := fd })

/-- `nsend` on the stream that the descriptor stands for. -/
def sendStream (stream : Stream) (buf : List UInt8) : CM (Int × Stream) := do
  match ← malloc with
  | none => return (-2, stream)
  | some _ =>
      match ← malloc with
      | none => return (-1, stream)
      | some _ =>
          let fragment := { Fragment.zeroed with
            dport := stream.sport, sport := stream.dport, acknum := stream.rcvNxt,
            seqnum := stream.sndNxt, tcpFlags := tcpAckFlag ||| tcpPshFlag,
            windows := tcpInitialWindow, hdrlenOff := 0x50, data := some buf,
            length := .ofNat buf.length }
          let sndbuf ← enqueue stream.sndbuf fragment
          return (fragment.length.toNat, { stream with sndbuf := sndbuf })

def nsend (w : World) (sockfd : Int) (buf : List UInt8) : CM (Int × World) := do
  match getHostinfoFromfd w sockfd with
  | none => return (-1, w)
  | some (.host _) => return (0, w)
  | some (.stream stream) => do
      let (ret, stream) ← sendStream stream buf
      return (ret, w.put stream)

/-- What `nrecv` returns, the bytes it copied, and the stream after it. -/
structure Received where
  ret : Int
  copied : List UInt8
  stream : Stream

/-- `nrecv` on the stream that the descriptor stands for; `none` while the ring is
empty. The rest of a fragment goes back to the tail of the ring. -/
def recvStream (stream : Stream) (len : Nat) : Except Fault (Option Received) := do
  match stream.rcvbuf with
  | none => throw .nullDeref
  | some rcvbuf =>
      match rcvbuf.entries with
      | [] => return none
      | fragment :: entries =>
          let rcvbuf := { rcvbuf with entries := entries }
          if len < fragment.length.toNat then
            let rest := { fragment with
              data := some (fragment.bytes.drop len),
              length := .ofNat (fragment.length.toNat - len) }
            return some ⟨rest.length.toNat, fragment.bytes.take len,
              { stream with rcvbuf := some (rcvbuf.enqueue rest) }⟩
          else if fragment.length = 0 then
            return some ⟨0, [], { stream with rcvbuf := some rcvbuf }⟩
          else
            return some ⟨fragment.length.toNat, fragment.bytes.take fragment.length.toNat,
              { stream with rcvbuf := some rcvbuf }⟩

def nrecv (w : World) (sockfd : Int) (len : Nat) :
    Except Fault (Option (Int × List UInt8 × World)) := do
  match getHostinfoFromfd w sockfd with
  | none => return some (-1, [], w)
  | some (.host _) => return some (0, [], w)
  | some (.stream stream) =>
      match ← recvStream stream len with
      | none => return none
      | some got => return some (got.ret, got.copied, w.put got.stream)

/-- `rte_malloc`: no memory for no bytes. -/
def rteMalloc (size : Nat) : CM (Option Nat) := if size = 0 then pure none else malloc

theorem rteMalloc_some {size : Nat} (some_ : size ≠ 0) : rteMalloc size = malloc := if_neg some_

/-- What `nrecvfrom` returns, the bytes it copied, the port and address of the sender,
and what it puts back on the ring. -/
structure Datagram where
  ret : Int
  copied : List UInt8
  sinPort : UInt16
  sinAddr : UInt32
  back : Option Offload
deriving DecidableEq, Repr

/-- `nrecvfrom` with the offload that it took off the ring. -/
def recvOffload (behind : Offload → List UInt8) (ol : Offload) (len : Nat) : CM Datagram := do
  let data := ol.data ++ behind ol
  if len < ol.length.toNat then do
    let copied ← loadAt data 0 len
    match ← rteMalloc (ol.length.toNat - len) with
    | none => throw .nullDeref
    | some _ => do
        let ptr ← loadAt data len (ol.length.toNat - len)
        return ⟨len, copied, ol.sport, ol.sip,
          some { ol with data := ptr, length := ol.length - .ofNat len }⟩
  else do
    let _ ← loadAt data 0 ol.length.toNat
    -- `return ol->length` after `rte_free(ol)`
    throw .useAfterFree

/-- `none` while the call waits. What can be read behind the data of an offload is a
parameter. -/
def nrecvfrom (behind : Offload → List UInt8) (w : World) (sockfd : Int) (len : Nat) :
    CM (Option (Int × Option Datagram × World)) := do
  match getHostinfoFromfd w sockfd with
  | none => return some (-1, none, w)
  | some (.stream _) => throw .wildDeref
  | some (.host host) =>
      match host.rcvbuf.entries with
      | [] => return none
      | ol :: waiting => do
          let got ← recvOffload behind ol len
          let rcvbuf := { host.rcvbuf with entries := waiting }
          let rcvbuf := match got.back with
            | none => rcvbuf
            | some ol => rcvbuf.enqueue ol
          return some (got.ret, some got, w.putHost { host with rcvbuf := rcvbuf })

/-- `nsendto` on the descriptor of a host. For a stream it takes the stream for a host. -/
def nsendto (w : World) (sockfd : Int) (buf : List UInt8) (sinAddr : UInt32)
    (sinPort : UInt16) : CM (Int × World) := do
  match getHostinfoFromfd w sockfd with
  | none => return (-1, w)
  | some (.stream _) => throw .wildDeref
  | some (.host host) => do
      match ← malloc with
      | none => return (-1, w)
      | some _ => do
          match ← rteMalloc buf.length with
          | none => return (-1, w)
          | some _ =>
              let ol : Offload := ⟨host.localip, sinAddr, host.localport, sinPort, buf,
                .ofNat buf.length⟩
              return (buf.length, w.putHost { host with sndbuf := host.sndbuf.enqueue ol })

/-- `nclose` on a stream that does not listen; `none` when the fragment is refused. Of
the fragment, `tcp_urp` and `optlen` are not written. -/
def closeStream (stream : Stream) : CM (Option Stream) := do
  match ← malloc with
  | none => return none
  | some block =>
      let words ← junkOf block
      let fragment : Fragment := {
        sport := stream.dport, dport := stream.sport, seqnum := stream.sndNxt,
        acknum := stream.rcvNxt, hdrlenOff := 0x50, tcpFlags := tcpFinFlag ||| tcpAckFlag,
        windows := tcpInitialWindow, tcpUrp := .ofNat (words 0), optlen := words 1,
        data := none, length := 0 }
      let sndbuf ← enqueue stream.sndbuf fragment
      return some { stream with sndbuf := sndbuf, status := .lastAck }

def nclose (w : World) (fd : Int) : CM (Int × World) := do
  match getHostinfoFromfd w fd with
  | none => return (-1, w)
  | some (.host host) => do
      let w := { w with lhost := w.lhost.filter fun h => h.addr ≠ host.addr }
      let w := (w.ringFree (some host.rcvbuf)).ringFree (some host.sndbuf)
      freeBlock host.addr
      return (0, ← setFdFrombitmap w fd)
  | some (.stream stream) =>
      if stream.status ≠ .listen then
        match ← closeStream stream with
        | none => return (-1, w)
        | some stream => return (0, ← setFdFrombitmap (w.put stream) fd)
      else do
        -- neither the rings nor the descriptor are given back
        freeBlock stream.addr
        return (0, w.remove stream)

end LinuxCpp.Ustack
