import LinuxCpp.C.Memory

set_option autoImplicit false

/- The data of ustack/tcp.c: streams, UDP hosts, rings and the descriptor bitmap.
Addresses and ports stand as they are on the wire, sequence numbers in host order.
A stream or host is named by its block; its `protocol` field is the kind of entry,
and the fields that only the encoders read (`localmac`) are left out. -/
namespace LinuxCpp.Ustack

open C

def ringSize : Nat := 1024

def tcpInitialWindow : UInt16 := 14600

def defaultFdNum : Nat := 3

def maxFdCount : Nat := 1024

/-- `NG_TCP_STATUS` -/
inductive Status where
  | closed
  | listen
  | synRcvd
  | synSent
  | established
  | finWait1
  | finWait2
  | closing
  | timeWait
  | closeWait
  | lastAck
deriving DecidableEq, Repr

def tcpFinFlag : UInt8 := 0x01

def tcpSynFlag : UInt8 := 0x02

def tcpPshFlag : UInt8 := 0x08

def tcpAckFlag : UInt8 := 0x10

/-- `struct ng_tcp_fragment`. `data` holds the `length` bytes that count; the
fields `cksum` and `option` are never read. -/
structure Fragment where
  sport : UInt16
  dport : UInt16
  seqnum : UInt32
  acknum : UInt32
  hdrlenOff : UInt8
  tcpFlags : UInt8
  windows : UInt16
  tcpUrp : UInt16
  optlen : Int
  data : Option (List UInt8)
  length : UInt32
deriving DecidableEq, Repr

/-- `memset(fragment, 0, sizeof(struct ng_tcp_fragment))` -/
def Fragment.zeroed : Fragment := ⟨0, 0, 0, 0, 0, 0, 0, 0, 0, none, 0⟩

/-- The bytes an application can read from the fragment. -/
def Fragment.bytes (f : Fragment) : List UInt8 := f.data.getD []

/-- `struct offload` -/
structure Offload where
  sip : UInt32
  dip : UInt32
  sport : UInt16
  dport : UInt16
  data : List UInt8
  length : UInt16
deriving DecidableEq, Repr

/-- The names under which rings are created. -/
inductive RingName where
  | sndbuf
  | rcvbuf
  | tcpRecvBuffer
  | tcpSendBuffer
  | recvBuffer
  | sendBuffer
deriving DecidableEq, Repr

/-- `struct rte_ring`: a FIFO of `RING_SIZE - 1` places. -/
structure Ring (α : Type) where
  block : Nat
  name : RingName
  entries : List α
deriving DecidableEq, Repr

/-- `rte_ring_mp_enqueue`, whose result nobody looks at: a full ring stays as it is. -/
def Ring.enqueue {α : Type} (r : Ring α) (entry : α) : Ring α :=
  if r.entries.length < ringSize - 1 then { r with entries := r.entries ++ [entry] } else r

@[simp] theorem Ring.enqueue_block {α : Type} (r : Ring α) (entry : α) :
    (r.enqueue entry).block = r.block := by
  unfold Ring.enqueue
  split <;> rfl

/-- `rte_ring_mp_enqueue` through a pointer that may be NULL. -/
def enqueue {α : Type} (r : Option (Ring α)) (entry : α) : Except Fault (Option (Ring α)) :=
  match r with
  | none => .error .nullDeref
  | some r => .ok (some (r.enqueue entry))

/-- `struct ng_tcp_stream` -/
structure Stream where
  addr : Nat
  fd : Int
  dip : UInt32
  dport : UInt16
  sport : UInt16
  sip : UInt32
  sndNxt : UInt32
  rcvNxt : UInt32
  status : Status
  sndbuf : Option (Ring Fragment)
  rcvbuf : Option (Ring Fragment)
deriving DecidableEq, Repr

/-- `struct localhost` -/
structure Host where
  addr : Nat
  fd : Int
  localip : UInt32
  localport : UInt16
  sndbuf : Ring Offload
  rcvbuf : Ring Offload
deriving DecidableEq, Repr

/-- The lists `tcb_set` and `lhost` from their heads on, the bits of `fd_table`, and
the names of the rings that exist. -/
structure World where
  tcbSet : List Stream
  lhost : List Host
  fdTable : Nat → Bool
  rings : List RingName

/-- The program before any socket. -/
def World.empty : World := ⟨[], [], fun _ => false, []⟩

/-- A received frame: the fields of its IPv4 and TCP headers, whether the checksum
agrees, and the bytes from the TCP header on. -/
structure Segment where
  srcAddr : UInt32
  dstAddr : UInt32
  srcPort : UInt16
  dstPort : UInt16
  sentSeq : UInt32
  recvAck : UInt32
  dataOff : UInt8
  tcpFlags : UInt8
  totalLength : UInt16
  cksumOk : Bool
  bytes : List UInt8
deriving DecidableEq, Repr

namespace Segment

def has (seg : Segment) (flag : UInt8) : Bool := seg.tcpFlags &&& flag != 0

/-- `tcphdr->data_off >> 4` -/
def hdrlen (seg : Segment) : Nat := (seg.dataOff >>> 4).toNat

/-- `ntohs(iphdr->total_length) - sizeof(struct rte_ipv4_hdr)` -/
def tcplen (seg : Segment) : Int := seg.totalLength.toNat - 20

/-- `tcplen - hdrlen * 4` -/
def payloadlen (seg : Segment) (tcplen : Int) : Int := tcplen - seg.hdrlen * 4

end Segment

/-- `ntohs` on a little-endian host. -/
def ntohs (n : UInt16) : UInt16 := n <<< 8 ||| n >>> 8

namespace World

/-- The stream of this block is written. -/
def put (w : World) (s : Stream) : World :=
  { w with tcbSet := w.tcbSet.map fun t => if t.addr = s.addr then s else t }

def putHost (w : World) (h : Host) : World :=
  { w with lhost := w.lhost.map fun g => if g.addr = h.addr then h else g }

/-- `LL_ADD(stream, table->tcb_set)` -/
def add (w : World) (s : Stream) : World := { w with tcbSet := s :: w.tcbSet }

/-- `LL_REMOVE(stream, table->tcb_set)` -/
def remove (w : World) (s : Stream) : World :=
  { w with tcbSet := w.tcbSet.filter fun t => t.addr ≠ s.addr }

/-- `rte_ring_free` gives the name back. -/
def ringFree {α : Type} (w : World) (r : Option (Ring α)) : World :=
  match r with
  | none => w
  | some r => { w with rings := w.rings.erase r.name }

end World

/-- `rte_ring_create`: NULL if a ring of this name exists or the memory is refused. -/
def ringCreate (α : Type) (w : World) (name : RingName) : CM (Option (Ring α) × World) := do
  if name ∈ w.rings then return (none, w)
  match ← malloc with
  | none => return (none, w)
  | some block => return (some ⟨block, name, []⟩, { w with rings := name :: w.rings })

/-- The descriptor that `get_fd_frombitmap` finds. -/
def World.freeFd (w : World) : Option Nat :=
  (List.range' defaultFdNum (maxFdCount - defaultFdNum)).find? fun fd => !w.fdTable fd

def getFdFrombitmap (w : World) : Int × World :=
  match w.freeFd with
  | none => (-1, w)
  | some fd => (fd, { w with fdTable := Function.update w.fdTable fd true })

/-- A negative descriptor shifts by a negative count or indexes before the table. -/
def setFdFrombitmap (w : World) (fd : Int) : Except Fault World :=
  if fd < 0 then .error .outOfBounds
  else if maxFdCount ≤ fd then .ok w
  else .ok { w with fdTable := Function.update w.fdTable fd.toNat false }

/-- The first stream without a descriptor on this port, whatever its status. -/
def getAcceptTcb (w : World) (dport : UInt16) : Option Stream :=
  w.tcbSet.find? fun apt => dport = apt.dport ∧ apt.fd = -1

/-- What a descriptor stands for. -/
inductive Entry where
  | host (h : Host)
  | stream (s : Stream)
deriving DecidableEq, Repr

def getHostinfoFromfd (w : World) (sockfd : Int) : Option Entry :=
  match w.lhost.find? fun host => sockfd = host.fd with
  | some host => some (.host host)
  | none => (w.tcbSet.find? fun stream => sockfd = stream.fd).map .stream

section Put

variable {w : World} {s s' : Stream}

/-- The entry that a search finds is found again after it was written. -/
theorem find?_write {α : Type} (block : α → Nat) {p : α → Bool} {entry new : α}
    (entries : List α) (found : entries.find? p = some entry) (same : block new = block entry)
    (fits : p new = true) :
    (entries.map fun old => if block old = block new then new else old).find? p = some new := by
  induction entries with
  | nil => simp at found
  | cons first rest ih =>
      rw [List.map_cons]
      by_cases written : block first = block new
      · rw [if_pos written, List.find?_cons_of_pos fits]
      · rw [if_neg written]
        have other : p first ≠ true := by
          intro yes
          rw [List.find?_cons_of_pos yes] at found
          cases found
          exact written same.symm
        rw [List.find?_cons_of_neg other] at found ⊢
        exact ih found

theorem getHostinfoFromfd_stream {fd : Int} :
    getHostinfoFromfd w fd = some (.stream s) ↔
      (w.lhost.find? fun host => fd = host.fd) = none ∧
      (w.tcbSet.find? fun stream => fd = stream.fd) = some s := by
  unfold getHostinfoFromfd
  split
  · rename_i host found
    simp [found]
  · rename_i nobody
    simp [nobody]

theorem getHostinfoFromfd_put {fd : Int} (found : getHostinfoFromfd w fd = some (.stream s))
    (block : s'.addr = s.addr) (same : s'.fd = s.fd) :
    getHostinfoFromfd (w.put s') fd = some (.stream s') := by
  obtain ⟨nobody, found⟩ := getHostinfoFromfd_stream.mp found
  have carries : fd = s.fd := by simpa using List.find?_some found
  refine getHostinfoFromfd_stream.mpr ⟨nobody, find?_write Stream.addr w.tcbSet found block ?_⟩
  simp [carries, same]

theorem getHostinfoFromfd_putHost {fd : Int} {h h' : Host}
    (found : getHostinfoFromfd w fd = some (.host h)) (block : h'.addr = h.addr)
    (same : h'.fd = h.fd) : getHostinfoFromfd (w.putHost h') fd = some (.host h') := by
  have first : (w.lhost.find? fun host => fd = host.fd) = some h := by
    unfold getHostinfoFromfd at found
    split at found
    · rename_i searched
      cases found
      exact searched
    · simp at found
  have carries : fd = h.fd := by simpa using List.find?_some first
  have again := find?_write Host.addr w.lhost first block (by simp [carries, same])
  simp only [getHostinfoFromfd, World.putHost, again]

end Put

end LinuxCpp.Ustack
