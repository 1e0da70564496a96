import LinuxCpp.Ustack.Frame
import LinuxCpp.Ustack.Out

set_option autoImplicit false

/- `pkt_process` on one received buffer: what it reads of the frame, when it frees the
buffer, and the packet it puts on `ring->out`. -/
namespace LinuxCpp.Ustack

open C

@[simp] def arpOpcode : Nat := 20
@[simp] def arpSha : Nat := 22
@[simp] def arpSip : Nat := 28
@[simp] def arpTip : Nat := 38

@[simp] def udpSrcPort : Nat := 34
@[simp] def udpDstPort : Nat := 36
@[simp] def udpDgramLen : Nat := 38
@[simp] def udpPayload : Nat := 42

@[simp] def icmpType : Nat := 34
@[simp] def icmpIdent : Nat := 38
@[simp] def icmpSeqNb : Nat := 40

def rteEtherTypeArp : UInt16 := 0x0806

def rteArpOpRequest : UInt16 := 1

def rteArpOpReply : UInt16 := 2

def rteIpIcmpEchoRequest : UInt8 := 8

/-- `MAKE_IPV4_ADDR` -/
def makeIpv4Addr (a b c d : UInt32) : UInt32 := a + (b <<< 8) + (c <<< 16) + (d <<< 24)

def gLocalIp : UInt32 := makeIpv4Addr 192 168 0 115

/-- A received `struct rte_mbuf`: its `data_len` bytes, how often it was freed, and
whether it was read after that. -/
structure Mbuf where
  bytes : List UInt8
  frees : Nat
  late : Bool
deriving DecidableEq, Repr

def Mbuf.fresh (bytes : List UInt8) : Mbuf := ⟨bytes, 0, false⟩

/-- The buffer after a read. -/
def Mbuf.seen (m : Mbuf) : Mbuf := { m with late := m.late || 0 < m.frees }

/-- Code that works on one received buffer. -/
abbrev PM := StateT Mbuf CM

def read (i n : Nat) : PM (List UInt8) := fun m => do
  let bytes ← loadAt m.bytes i n
  return (bytes, m.seen)

def read8 (i : Nat) : PM UInt8 := do return .ofNat (numberOf (← read i 1))

def read16 (i : Nat) : PM UInt16 := do return .ofNat (numberOf (← read i 2))

def read32 (i : Nat) : PM UInt32 := do return .ofNat (numberOf (← read i 4))

def readMac (i : Nat) : PM Mac := do
  let bytes ← read i 6
  return .ofFn fun k => bytes.getD k 0

def rtePktmbufFree : PM Unit := fun m => return ((), { m with frees := m.frees + 1 })

def getHostinfoFromipPort (w : World) (dip : UInt32) (port : UInt16) (proto : UInt8) :
    Option Host :=
  w.lhost.find? fun host => dip = host.localip ∧ port = host.localport ∧ proto = ipprotoUdp

/-- `ol->length - sizeof(struct rte_udp_hdr)` -/
def udpDataLen (length : UInt16) : Nat := ((length.toUInt64 - 8 : UInt64)).toNat

def udpProcess (w : World) : PM (Int × World) := do
  let _ ← read32 ipSrcAddr
  let _ ← read16 udpSrcPort
  let dip ← read32 ipDstAddr
  let dport ← read16 udpDstPort
  let proto ← read8 ipNextProtoId
  match getHostinfoFromipPort w dip dport proto with
  | none => do
      rtePktmbufFree
      return (-3, w)
  | some host => do
      match ← (malloc : CM _) with
      | none => do
          rtePktmbufFree
          return (-1, w)
      | some _ => do
          let dip ← read32 ipDstAddr
          let sip ← read32 ipSrcAddr
          let sport ← read16 udpSrcPort
          let dport ← read16 udpDstPort
          let length := ntohs (← read16 udpDgramLen)
          match ← (rteMalloc (udpDataLen length) : CM _) with
          | none => do
              rtePktmbufFree
              return (-2, w)
          | some _ => do
              let data ← read udpPayload (udpDataLen length)
              rtePktmbufFree
              return (0, w.putHost { host with
                rcvbuf := host.rcvbuf.enqueue ⟨sip, dip, sport, dport, data, length⟩ })

/-- The segment in the buffer. That its checksum is cleared there is of no consequence:
nobody reads it again. -/
def readSegment (K : Cksums) : PM Segment := fun m => do
  let seg ← tcpSegment K m.bytes
  return (seg, m.seen)

def ngTcpProcessMbuf (K : Cksums) (isn : UInt32) (w : World) : PM (Int × World) := do
  let seg ← readSegment K
  ngTcpProcess isn w seg

/-- The packets that answer a frame: the arguments of `ng_send_arp` and `ng_send_icmp`. -/
inductive Reply where
  | arp (dstMac : Mac) (sip dip : UInt32)
  | icmp (dstMac : Mac) (sip dip : UInt32) (id seqnb : UInt16)
deriving DecidableEq, Repr

/-- The reply takes one of the free buffers of the pool, or the program exits. -/
def sendReply (mbufs : Nat) (reply : Reply) : PM Reply :=
  if 0 < mbufs then pure reply else throw .abort

/-- An ARP packet for the local address. -/
def arpProcess (mbufs : Nat) (arp : List ArpEntry) : PM (List ArpEntry × Option Reply) := do
  let opcode ← read16 arpOpcode
  if opcode = ntohs rteArpOpRequest then
    let sha ← readMac arpSha
    let tip ← read32 arpTip
    let sip ← read32 arpSip
    let reply ← sendReply mbufs (.arp sha tip sip)
    return (arp, some reply)
  else if opcode = ntohs rteArpOpReply then
    let sip ← read32 arpSip
    let sha ← readMac arpSha
    let arp ← arpReply arp sip sha
    rtePktmbufFree
    return (arp, none)
  else return (arp, none)

def icmpProcess (mbufs : Nat) : PM (Option Reply) := do
  let src ← read32 ipSrcAddr
  let type ← read8 icmpType
  if type = rteIpIcmpEchoRequest then
    let dst ← read32 ipDstAddr
    let mac ← readMac etherSAddr
    let id ← read16 icmpIdent
    let seqnb ← read16 icmpSeqNb
    let reply ← sendReply mbufs (.icmp mac dst src id seqnb)
    rtePktmbufFree
    return some reply
  else return none

/-- `if (iphdr->next_proto_id == proto)` -/
def ifProto (proto : UInt8) (w : World) (handler : PM World) : PM World := do
  let nextProtoId ← read8 ipNextProtoId
  if nextProtoId = proto then handler else return w

/-- An IPv4 packet. -/
def ipProcess (K : Cksums) (isn : UInt32) (mbufs : Nat) (w : World) :
    PM (World × Option Reply) := do
  let w ← ifProto ipprotoUdp w (Prod.snd <$> udpProcess w)
  let w ← ifProto ipprotoTcp w (Prod.snd <$> ngTcpProcessMbuf K isn w)
  let nextProtoId ← read8 ipNextProtoId
  if nextProtoId = ipprotoIcmp then
    let reply ← icmpProcess mbufs
    return (w, reply)
  else return (w, none)

/-- The body of the loop of `pkt_process`. An ARP packet for another address goes on to
the test for IPv4 and fails it. -/
def pktProcess (K : Cksums) (isn : UInt32) (mbufs : Nat) (w : World) (arp : List ArpEntry) :
    PM (World × List ArpEntry × Option Reply) := do
  let type ← read16 etherType
  if type = ntohs rteEtherTypeArp then
    let tip ← read32 arpTip
    if tip = gLocalIp then
      let (arp, reply) ← arpProcess mbufs arp
      return (w, arp, reply)
    else return (w, arp, none)
  else if type ≠ ntohs rteEtherTypeIpv4 then return (w, arp, none)
  else
    let (w, reply) ← ipProcess K isn mbufs w
    return (w, arp, reply)

@[simp] theorem Mbuf.seen_bytes (m : Mbuf) : m.seen.bytes = m.bytes := rfl

@[simp] theorem Mbuf.seen_frees (m : Mbuf) : m.seen.frees = m.frees := rfl

@[simp] theorem Mbuf.seen_seen (m : Mbuf) : m.seen.seen = m.seen := by
  unfold Mbuf.seen
  rw [Bool.or_assoc, Bool.or_self]

/-- What the code leaves of its buffer, if it returns. -/
structure Ends {α : Type} (x : PM α) (m : Mbuf) (post : α → Mbuf → Prop) : Prop where
  of_ok : ∀ A a m' B, x m A = .ok ((a, m'), B) → post a m'

namespace Ends

variable {α β : Type} {x : PM α} {f : α → PM β} {m : Mbuf} {i n : Nat} {post : β → Mbuf → Prop}

theorem pure {b : β} (holds : post b m) : Ends (Pure.pure b) m post := by
  refine ⟨?_⟩
  rintro _ _ _ _ ⟨⟩
  exact holds

theorem bind {mid : α → Mbuf → Prop} (first : Ends x m mid)
    (next : ∀ a m', mid a m' → Ends (f a) m' post) : Ends (x >>= f) m post := by
  refine ⟨fun A b m'' C ran => ?_⟩
  have split : (x >>= f) m A = x m A >>= fun done => f done.1.1 done.1.2 done.2 := rfl
  rw [split] at ran
  obtain ⟨⟨⟨a, m'⟩, B⟩, run, ran⟩ := ok_of_bind ran
  exact (next a m' (first.of_ok A a m' B run)).of_ok B b m'' C ran

theorem map {g : α → β} (first : Ends x m fun a m' => post (g a) m') : Ends (g <$> x) m post := by
  rw [← bind_pure_comp]
  exact first.bind fun _ _ holds => pure holds

theorem ite {c : Prop} [Decidable c] {y y' : PM β} (yes : c → Ends y m post)
    (no : ¬ c → Ends y' m post) : Ends (if c then y else y') m post := by
  split
  · exact yes ‹_›
  · exact no ‹_›

theorem free : Ends rtePktmbufFree m fun _ m' => m' = { m with frees := m.frees + 1 } := by
  refine ⟨?_⟩
  rintro _ _ _ _ ⟨⟩
  rfl

/-- Code that does not touch the buffer. -/
theorem lift (x : CM α) : Ends (liftM x : PM α) m fun _ m' => m' = m := by
  refine ⟨fun A a m' B ran => ?_⟩
  have split : (liftM x : PM α) m A = x A >>= fun done => .ok ((done.1, m), done.2) := rfl
  rw [split] at ran
  obtain ⟨done, -, returned⟩ := ok_of_bind ran
  cases returned
  rfl

end Ends

/-- Code that only reads its buffer. -/
def Reads {α : Type} (x : PM α) : Prop := ∀ m, Ends x m fun _ m' => m' = m.seen

section Reads

variable {α β : Type} {x : PM α} {f : α → PM β} {m : Mbuf} {post : β → Mbuf → Prop}

theorem Ends.after (reads : Reads x) (next : ∀ a, Ends (f a) m.seen post) :
    Ends (x >>= f) m post := by
  apply (reads m).bind
  rintro a _ rfl
  exact next a

theorem reads_read (i n : Nat) : Reads (read i n) := by
  refine fun m => ⟨fun A bytes m' B ran => ?_⟩
  obtain ⟨found, B', -, returned⟩ := run_of_bind ran
  cases returned
  rfl

theorem reads_readSegment (K : Cksums) : Reads (readSegment K) := by
  refine fun m => ⟨fun A seg m' B ran => ?_⟩
  obtain ⟨found, B', -, returned⟩ := run_of_bind ran
  cases returned
  rfl

theorem Reads.pure_of {g : α → β} (reads : Reads x) : Reads (do return g (← x)) :=
  fun _ => .after reads fun _ => .pure rfl

theorem reads_read8 (i : Nat) : Reads (read8 i) := (reads_read i 1).pure_of

theorem reads_read16 (i : Nat) : Reads (read16 i) := (reads_read i 2).pure_of

theorem reads_read32 (i : Nat) : Reads (read32 i) := (reads_read i 4).pure_of

theorem reads_readMac (i : Nat) : Reads (readMac i) := (reads_read i 6).pure_of

end Reads

section Runs

variable {β : Type} {m : Mbuf} {A : Allocator} {i n : Nat}

/-- A read inside the buffer. -/
theorem read_run {f : List UInt8 → PM β} {bytes : List UInt8}
    (found : loadAt m.bytes i n = .ok bytes) : (read i n >>= f) m A = f bytes m.seen A := by
  show (read i n m A >>= fun done => f done.1.1 done.1.2 done.2) = _
  rw [read, found]
  rfl

theorem read8_run {f : UInt8 → PM β} {v : UInt8} (found : load8 m.bytes i = .ok v) :
    (read8 i >>= f) m A = f v m.seen A := by
  rw [read8, bind_assoc]
  simp only [pure_bind]
  obtain ⟨bytes, part, rfl⟩ := ok_of_map found
  exact read_run part

theorem read16_run {f : UInt16 → PM β} {v : UInt16} (found : load16 m.bytes i = .ok v) :
    (read16 i >>= f) m A = f v m.seen A := by
  rw [read16, bind_assoc]
  simp only [pure_bind]
  obtain ⟨bytes, part, rfl⟩ := ok_of_map found
  exact read_run part

theorem read32_run {f : UInt32 → PM β} {v : UInt32} (found : load32 m.bytes i = .ok v) :
    (read32 i >>= f) m A = f v m.seen A := by
  rw [read32, bind_assoc]
  simp only [pure_bind]
  obtain ⟨bytes, part, rfl⟩ := ok_of_map found
  exact read_run part

/-- A step that does not touch the buffer. -/
theorem lift_run {α : Type} {x : CM α} {f : α → PM β} {a : α} {B : Allocator}
    (ran : x A = .ok (a, B)) : ((liftM x : PM α) >>= f) m A = f a m B := by
  show (((liftM x : PM α) m A) >>= fun done => f done.1.1 done.1.2 done.2) = _
  have lifted : (liftM x : PM α) m A = .ok ((a, m), B) := by
    show (x A >>= fun done => Except.ok ((done.1, m), done.2)) = _
    rw [ran]
    rfl
  rw [lifted]
  rfl

end Runs

/-- `udp_process` frees the buffer, on every path. -/
theorem udpProcess_ends (w : World) (m : Mbuf) :
    Ends (udpProcess w) m fun _ m' => m' = { m.seen with frees := m.frees + 1 } := by
  unfold udpProcess
  refine .after (reads_read32 _) fun _ => .after (reads_read16 _) fun _ =>
    .after (reads_read32 _) fun dip => .after (reads_read16 _) fun dport =>
    .after (reads_read8 _) fun proto => ?_
  simp only [Mbuf.seen_seen]
  have freed {ret : Int} {w' : World} (m : Mbuf) : Ends (do
      rtePktmbufFree
      return (ret, w')) m fun _ m' => m' = { m with frees := m.frees + 1 } :=
    .bind .free fun _ _ same => .pure same
  cases getHostinfoFromipPort w dip dport proto with
  | none => exact freed m.seen
  | some host =>
      refine .bind (.lift malloc) ?_
      rintro (_ | block) _ rfl
      · exact freed m.seen
      · refine .after (reads_read32 _) fun _ => .after (reads_read32 _) fun _ =>
          .after (reads_read16 _) fun _ => .after (reads_read16 _) fun _ =>
          .after (reads_read16 _) fun length => ?_
        simp only [Mbuf.seen_seen]
        refine .bind (.lift _) ?_
        rintro (_ | block') _ rfl
        · exact freed m.seen
        · refine .after (reads_read _ _) fun data => ?_
          rw [Mbuf.seen_seen]
          exact freed m.seen

/-- `ng_tcp_process` never frees the buffer. -/
theorem ngTcpProcessMbuf_ends (K : Cksums) (isn : UInt32) (w : World) (m : Mbuf) :
    Ends (ngTcpProcessMbuf K isn w) m fun _ m' => m' = m.seen :=
  .after (reads_readSegment K) fun _ => .lift _

end LinuxCpp.Ustack
