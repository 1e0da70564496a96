import LinuxCpp.C.Avoids
import LinuxCpp.Ustack.PktProcess

set_option autoImplicit false

/- How long a frame has to be for all reads of `pkt_process` to stay inside it. -/
namespace LinuxCpp.Ustack

open C

/-- The fields of a frame, whatever lies behind its end. -/
def field8 (bytes : List UInt8) (i : Nat) : UInt8 := .ofNat (numberOf ((bytes.drop i).take 1))

def field16 (bytes : List UInt8) (i : Nat) : UInt16 := .ofNat (numberOf ((bytes.drop i).take 2))

def field32 (bytes : List UInt8) (i : Nat) : UInt32 := .ofNat (numberOf ((bytes.drop i).take 4))

/-- The run does not read beyond the end of its frame. -/
def Inside {α : Type} (x : PM α) (m : Mbuf) (A : Allocator) : Prop :=
  x m A ≠ .error .outOfBounds

/-- What `udp_process` needs. The second allocation is made for a datagram that claims to
be longer than its header, and for one that claims to be shorter. -/
def UdpFits (w : World) (A : Allocator) (bytes : List UInt8) : Prop :=
  38 ≤ bytes.length ∧ ∀ host, getHostinfoFromipPort w (field32 bytes ipDstAddr)
    (field16 bytes udpDstPort) ipprotoUdp = some host → A.grants A.calls = true →
      40 ≤ bytes.length ∧ ∀ size, udpDataLen (ntohs (field16 bytes udpDgramLen)) = size →
        size ≠ 0 → A.grants (A.calls + 1) = true → 42 + size ≤ bytes.length

def TcpFits (K : Cksums) (bytes : List UInt8) : Prop :=
  52 ≤ bytes.length ∧ 34 + K.l4Len (ntohs (field16 bytes ipTotalLength)) ≤ bytes.length

def IcmpFits (bytes : List UInt8) : Prop :=
  35 ≤ bytes.length ∧ (field8 bytes icmpType = rteIpIcmpEchoRequest → 42 ≤ bytes.length)

def IpFits (K : Cksums) (w : World) (A : Allocator) (bytes : List UInt8) : Prop :=
  24 ≤ bytes.length ∧
  (field8 bytes ipNextProtoId = ipprotoUdp → UdpFits w A bytes) ∧
  (field8 bytes ipNextProtoId = ipprotoTcp → TcpFits K bytes) ∧
  (field8 bytes ipNextProtoId = ipprotoIcmp → IcmpFits bytes)

/-- The frame is as long as its type, its protocol and its length fields ask for. -/
def Fits (K : Cksums) (w : World) (A : Allocator) (bytes : List UInt8) : Prop :=
  14 ≤ bytes.length ∧
  (field16 bytes etherType = ntohs rteEtherTypeArp → 42 ≤ bytes.length) ∧
  (field16 bytes etherType = ntohs rteEtherTypeIpv4 → IpFits K w A bytes)

section Rules

variable {α β : Type} {x : PM α} {f : α → PM β} {m : Mbuf} {A : Allocator} {i n : Nat}

theorem inside_pure (a : α) : Inside (pure a : PM α) m A := fun failed => nomatch failed

theorem inside_bind : Inside (x >>= f) m A ↔ Inside x m A ∧
    ∀ a m' B, x m A = .ok ((a, m'), B) → Inside (f a) m' B := by
  unfold Inside
  show (x m A >>= fun done => f done.1.1 done.1.2 done.2) ≠ _ ↔ _
  cases run : x m A with
  | error fault =>
      show (Except.error fault : Except Fault ((β × Mbuf) × Allocator)) ≠ _ ↔ _
      simp
  | ok done =>
      obtain ⟨⟨a, m'⟩, B⟩ := done
      simp

theorem inside_map {g : α → β} : Inside (g <$> x) m A ↔ Inside x m A := by
  have same : (g <$> x) = x >>= fun a => pure (g a) := (bind_pure_comp g x).symm
  rw [same, inside_bind, and_iff_left]
  exact fun a m' B _ => inside_pure (g a)

theorem inside_ite {c : Prop} [Decidable c] {y : PM α} :
    Inside (if c then x else y) m A ↔ (c → Inside x m A) ∧ (¬ c → Inside y m A) := by
  split <;> simp [*]

theorem inside_read {f : List UInt8 → PM β} : Inside (read i n >>= f) m A ↔
    i + n ≤ m.bytes.length ∧ Inside (f ((m.bytes.drop i).take n)) m.seen A := by
  unfold Inside
  by_cases inside : i + n ≤ m.bytes.length
  · have ran : (read i n >>= f) m A = f ((m.bytes.drop i).take n) m.seen A := by
      show (read i n m A >>= fun done => f done.1.1 done.1.2 done.2) = _
      simp only [read, loadAt_eq inside]
      rfl
    simp [ran, inside]
  · have failed : (read i n >>= f) m A = .error .outOfBounds := by
      show (read i n m A >>= fun done => f done.1.1 done.1.2 done.2) = _
      simp only [read, loadAt_beyond (by omega : m.bytes.length < i + n)]
      rfl
    simp [failed, inside]

theorem inside_read8 {f : UInt8 → PM β} : Inside (read8 i >>= f) m A ↔
    i + 1 ≤ m.bytes.length ∧ Inside (f (field8 m.bytes i)) m.seen A := by
  rw [read8, bind_assoc]
  simp only [pure_bind]
  exact inside_read

theorem inside_read16 {f : UInt16 → PM β} : Inside (read16 i >>= f) m A ↔
    i + 2 ≤ m.bytes.length ∧ Inside (f (field16 m.bytes i)) m.seen A := by
  rw [read16, bind_assoc]
  simp only [pure_bind]
  exact inside_read

theorem inside_read32 {f : UInt32 → PM β} : Inside (read32 i >>= f) m A ↔
    i + 4 ≤ m.bytes.length ∧ Inside (f (field32 m.bytes i)) m.seen A := by
  rw [read32, bind_assoc]
  simp only [pure_bind]
  exact inside_read

theorem inside_readMac {f : Mac → PM β} : Inside (readMac i >>= f) m A ↔
    i + 6 ≤ m.bytes.length ∧
      Inside (f (.ofFn fun k => ((m.bytes.drop i).take 6).getD k 0)) m.seen A := by
  rw [readMac, bind_assoc]
  simp only [pure_bind]
  exact inside_read

theorem inside_lift {x : CM α} : Inside (liftM x : PM α) m A ↔ Avoids .outOfBounds x A := by
  unfold Inside Avoids
  show (x A >>= fun done => Except.ok ((done.1, m), done.2)) ≠ _ ↔ _
  cases x A with
  | error fault =>
      show (Except.error fault : Except Fault ((α × Mbuf) × Allocator)) ≠ _ ↔ _
      simp
  | ok done => simp

theorem inside_free {f : Unit → PM β} : Inside (rtePktmbufFree >>= f) m A ↔
    Inside (f ()) { m with frees := m.frees + 1 } A := Iff.rfl

theorem inside_malloc {f : Option Nat → PM β} :
    Inside ((liftM (malloc : CM (Option Nat)) : PM (Option Nat)) >>= f) m A ↔
      (A.grants A.calls = false → Inside (f none) m A.next) ∧
      (A.grants A.calls = true → Inside (f (some (A.calls + 1))) m A.next) := by
  show Inside (f (if A.grants A.calls then some (A.calls + 1) else none)) m A.next ↔ _
  cases A.grants A.calls <;> simp

theorem inside_rteMalloc {size : Nat} {f : Option Nat → PM β} :
    Inside ((liftM (rteMalloc size) : PM (Option Nat)) >>= f) m A ↔
      (size = 0 → Inside (f none) m A) ∧
      (size ≠ 0 → (A.grants A.calls = false → Inside (f none) m A.next) ∧
        (A.grants A.calls = true → Inside (f (some (A.calls + 1))) m A.next)) := by
  by_cases none_ : size = 0
  · rw [rteMalloc, if_pos none_]
    simp only [none_, true_imp_iff, ne_eq, not_true_eq_false, false_imp_iff, and_true]
    rfl
  · rw [rteMalloc, if_neg none_, inside_malloc]
    simp only [none_, false_imp_iff, ne_eq, not_false_eq_true, true_imp_iff, true_and]

end Rules

section Handlers

variable {K : Cksums} {isn : UInt32} {mbufs : Nat} {arp : List ArpEntry} {w : World} {m : Mbuf}
  {A : Allocator}

theorem udpProcess_inside (proto : field8 m.bytes ipNextProtoId = ipprotoUdp) :
    Inside (udpProcess w) m A ↔ UdpFits w A m.bytes := by
  unfold udpProcess UdpFits
  simp only [inside_read32, inside_read16, inside_read8, Mbuf.seen_bytes, proto]
  cases found : getHostinfoFromipPort w (field32 m.bytes ipDstAddr) (field16 m.bytes udpDstPort)
      ipprotoUdp with
  | none =>
      simp only [inside_free, inside_pure, ipSrcAddr, udpSrcPort, ipDstAddr, udpDstPort,
        ipNextProtoId]
      constructor
      · rintro ⟨-, -, -, port, -⟩
        exact ⟨port, fun _ none_ => nomatch none_⟩
      · rintro ⟨port, -⟩
        exact ⟨by omega, by omega, by omega, port, by omega, trivial⟩
  | some host =>
      simp only [inside_malloc, inside_rteMalloc, inside_free, inside_read, inside_read32,
        inside_read16, Mbuf.seen_bytes, inside_pure, ipSrcAddr, udpSrcPort, ipDstAddr, udpDstPort,
        ipNextProtoId, udpDgramLen, udpPayload]
      constructor
      · rintro ⟨-, -, -, port, -, -, granted⟩
        refine ⟨port, fun _ _ first => ?_⟩
        obtain ⟨-, -, -, -, length, -, copied⟩ := granted first
        refine ⟨length, fun size same some_ second => ?_⟩
        subst same
        exact ((copied some_).2 second).1
      · rintro ⟨port, granted⟩
        refine ⟨by omega, by omega, by omega, port, by omega, fun _ => trivial, fun first => ?_⟩
        obtain ⟨length, copied⟩ := granted host rfl first
        refine ⟨by omega, by omega, by omega, port, length, fun _ => trivial, fun some_ => ?_⟩
        exact ⟨fun _ => trivial, fun second => ⟨copied _ rfl some_ second, trivial⟩⟩

theorem sendReply_inside (reply : Reply) : Inside (sendReply mbufs reply) m A := by
  unfold sendReply
  split
  · exact inside_pure reply
  · exact fun failed => nomatch failed

theorem sendReply_returns {reply : Reply} {done : (Reply × Mbuf) × Allocator}
    (ran : sendReply mbufs reply m A = .ok done) : done = ((reply, m), A) := by
  unfold sendReply at ran
  split at ran
  · cases ran
    rfl
  · cases ran

theorem inside_sendReply {β : Type} {reply : Reply} {f : Reply → PM β}
    (next : Inside (f reply) m A) : Inside (sendReply mbufs reply >>= f) m A := by
  refine inside_bind.mpr ⟨sendReply_inside reply, fun a m' B ran => ?_⟩
  cases sendReply_returns ran
  exact next

theorem icmpProcess_inside : Inside (icmpProcess mbufs) m A ↔ IcmpFits m.bytes := by
  unfold icmpProcess IcmpFits
  simp only [inside_read32, inside_read8, inside_read16, inside_readMac, inside_ite, inside_pure]
  simp only [Mbuf.seen_bytes, ipSrcAddr, icmpType, ipDstAddr, etherSAddr, icmpIdent, icmpSeqNb]
  constructor
  · rintro ⟨-, type, echo, -⟩
    refine ⟨type, fun request => ?_⟩
    obtain ⟨-, -, -, seqnb, -⟩ := echo request
    exact seqnb
  · rintro ⟨type, echo⟩
    refine ⟨by omega, type, fun request => ?_, fun _ => trivial⟩
    have seqnb := echo request
    refine ⟨by omega, by omega, by omega, seqnb, inside_sendReply ?_⟩
    exact inside_free.mpr (inside_pure _)

theorem arpReply_avoids (sip : UInt32) (sha : Mac) :
    Avoids .outOfBounds (arpReply arp sip sha) A := by
  unfold arpReply
  split
  · exact .pure _
  · exact .malloc (fun _ => .pure _) fun _ => .pure _

theorem arpProcess_inside (whole : 42 ≤ m.bytes.length) : Inside (arpProcess mbufs arp) m A := by
  unfold arpProcess
  simp only [inside_read32, inside_read16, inside_readMac, inside_ite, inside_pure]
  simp only [Mbuf.seen_bytes, arpOpcode, arpSha, arpTip, arpSip]
  refine ⟨by omega, fun _ => ?_, fun _ => ⟨fun _ => ?_, fun _ => trivial⟩⟩
  · exact ⟨by omega, by omega, by omega, inside_sendReply (inside_pure _)⟩
  · refine ⟨by omega, by omega, inside_bind.mpr ⟨?_, fun arp' m' B _ => ?_⟩⟩
    · exact inside_lift.mpr (arpReply_avoids _ _)
    · exact inside_free.mpr (inside_pure _)

end Handlers

section Segments

variable {isn : UInt32} {w : World} {s : Stream} {seg : Segment} {A : Allocator}

theorem enqueue_avoids {α : Type} (ring : Option (Ring α)) (entry : α) :
    enqueue ring entry ≠ .error .outOfBounds := by
  intro failed
  cases ring <;> cases failed

theorem ngTcpEnqueueRecvbuffer_avoids {len : Int}
    (inside : 0 < seg.payloadlen len → len ≤ seg.bytes.length) :
    Avoids .outOfBounds (ngTcpEnqueueRecvbuffer s seg len) A := by
  unfold ngTcpEnqueueRecvbuffer
  refine .malloc (fun _ => .pure _) fun _ => .ite (fun positive => ?_) fun _ => ?_
  · have whole : seg.hdrlen * 4 + (seg.payloadlen len).toNat ≤ seg.bytes.length := by
      have bound := inside positive
      simp only [Segment.payloadlen] at positive ⊢
      omega
    refine .malloc (fun _ => .pure _) fun _ => .after ?_ fun data _ =>
      .after (enqueue_avoids _ _) fun _ _ => .pure _
    rw [payload, if_pos whole]
    intro failed
    cases failed
  · exact .after (enqueue_avoids _ _) fun _ _ => .pure _

theorem ngTcpSendAckpkt_avoids : Avoids .outOfBounds (ngTcpSendAckpkt s seg) A := by
  unfold ngTcpSendAckpkt
  exact .malloc (fun _ => .pure _) fun _ => .after (enqueue_avoids _ _) fun _ _ => .pure _

theorem ngTcpHandleEstablished_avoids (inside : seg.tcplen ≤ seg.bytes.length) :
    Avoids .outOfBounds (ngTcpHandleEstablished s seg seg.tcplen) A := by
  have push (s : Stream) (A : Allocator) :
      Avoids .outOfBounds (receivePush s seg seg.tcplen) A :=
    .bind (ngTcpEnqueueRecvbuffer_avoids fun _ => inside) fun _ _ _ =>
      .bind ngTcpSendAckpkt_avoids fun _ _ _ => .pure _
  have fin (s : Stream) (A : Allocator) : Avoids .outOfBounds (receiveFin s seg) A := by
    refine .bind (ngTcpEnqueueRecvbuffer_avoids fun positive => ?_) fun _ _ _ =>
      .bind ngTcpSendAckpkt_avoids fun _ _ _ => .pure _
    simp only [Segment.payloadlen] at positive
    omega
  unfold ngTcpHandleEstablished
  refine .bind (.ite (fun _ => push s A) fun _ => .pure s) fun s' B _ => ?_
  exact .bind (.ite (fun _ => fin s' B) fun _ => .pure s') fun _ _ _ => .pure _

theorem ringCreate_avoids (α : Type) (name : RingName) :
    Avoids .outOfBounds (ringCreate α w name) A :=
  .ite (fun _ => .pure _) fun _ => .malloc (fun _ => .pure _) fun _ => .pure _

theorem ngTcpStreamCreate_avoids (sip dip : UInt32) (sport dport : UInt16) :
    Avoids .outOfBounds (ngTcpStreamCreate isn w sip dip sport dport) A := by
  unfold ngTcpStreamCreate
  refine .malloc (fun _ => .pure _) fun _ => .bind (.of_ok rfl) fun _ _ _ => ?_
  exact .bind (ringCreate_avoids Fragment .sndbuf) fun _ _ _ =>
    .bind (ringCreate_avoids Fragment .rcvbuf) fun _ _ _ => .pure _

theorem ngTcpHandleListen_avoids :
    Avoids .outOfBounds (ngTcpHandleListen isn w s seg) A := by
  unfold ngTcpHandleListen
  refine .ite (fun _ => .ite (fun _ => ?_) fun _ => .pure _) fun _ => .pure _
  refine .bind (ngTcpStreamCreate_avoids _ _ _ _) ?_
  rintro ⟨_ | syn, w'⟩ B -
  · exact .throw (by decide)
  · exact .malloc (fun _ => .pure _) fun _ => .after (enqueue_avoids _ _) fun _ _ => .pure _

theorem ngTcpHandleSynRcvd_avoids (s : Stream) :
    ngTcpHandleSynRcvd w s seg ≠ .error .outOfBounds := by
  unfold ngTcpHandleSynRcvd
  intro failed
  split at failed
  · split at failed
    · simp only at failed
      split at failed <;> cases failed
    · cases failed
  · cases failed

/-- A segment that is not longer than its frame is handled inside of it. -/
theorem ngTcpProcess_avoids (inside : seg.tcplen ≤ seg.bytes.length) :
    Avoids .outOfBounds (ngTcpProcess isn w seg) A := by
  unfold ngTcpProcess
  refine .ite (fun _ => .pure _) fun _ => ?_
  split
  · exact .pure _
  · split
    · exact .bind ngTcpHandleListen_avoids fun _ _ _ => .pure _
    · exact .after (ngTcpHandleSynRcvd_avoids _) fun _ _ => .pure _
    · exact .bind (ngTcpHandleEstablished_avoids inside) fun _ _ _ => .pure _
    · refine .bind (.ite (fun _ => .ite (fun _ => ?_) fun _ => .pure _) fun _ => .pure _)
        fun _ _ _ => .pure _
      exact .bind (.of_ok rfl) fun _ _ _ => .pure _
    · exact .pure _

end Segments

section Loads

variable {bytes : List UInt8} {i : Nat}

theorem load8_inside (inside : i + 1 ≤ bytes.length) : load8 bytes i = .ok (field8 bytes i) := by
  rw [load8, loadAt_eq inside]
  rfl

theorem load16_inside (inside : i + 2 ≤ bytes.length) :
    load16 bytes i = .ok (field16 bytes i) := by
  rw [load16, loadAt_eq inside]
  rfl

theorem load32_inside (inside : i + 4 ≤ bytes.length) :
    load32 bytes i = .ok (field32 bytes i) := by
  rw [load32, loadAt_eq inside]
  rfl

/-- The header of the frame, with the checksum cleared and before. -/
structure Cleared (bytes cleared : List UInt8) : Prop where
  stored : storeAt bytes tcpCksum (bytesOf 2 0) = .ok cleared
  length : cleared.length = bytes.length
  total : field16 cleared ipTotalLength = field16 bytes ipTotalLength

theorem cleared_of_header (header : 52 ≤ bytes.length) : ∃ cleared, Cleared bytes cleared := by
  have stored := storeAt_eq (show tcpCksum + (bytesOf 2 0).length ≤ bytes.length from header)
  have length := storeAt_length stored
  refine ⟨_, stored, length, ?_⟩
  have same := loadAt_storeAt_apart stored (j := ipTotalLength) (n := 2) (.inl (by decide))
  rw [loadAt_eq (by simp only [ipTotalLength]; omega),
    loadAt_eq (by simp only [ipTotalLength]; omega)] at same
  exact congrArg (fun part => UInt16.ofNat (numberOf part)) (Except.ok.inj same)

/-- The fields of the segment lie in front of the checksum. -/
theorem tcpSegment_fits {K : Cksums} (fits : TcpFits K bytes) :
    ∃ seg, tcpSegment K bytes = .ok seg ∧ seg.tcplen ≤ seg.bytes.length := by
  obtain ⟨header, whole⟩ := fits
  obtain ⟨cleared, stored, length, total⟩ := cleared_of_header header
  have half {i : Nat} (before : i ≤ 50) : load16 cleared i = .ok (field16 cleared i) :=
    load16_inside (by omega)
  have word {i : Nat} (before : i ≤ 48) : load32 cleared i = .ok (field32 cleared i) :=
    load32_inside (by omega)
  have byte {i : Nat} (before : i ≤ 51) : load8 cleared i = .ok (field8 cleared i) :=
    load8_inside (by omega)
  have sum : loadAt cleared l4Hdr (K.l4Len (ntohs (field16 cleared ipTotalLength))) =
      .ok ((cleared.drop l4Hdr).take (K.l4Len (ntohs (field16 cleared ipTotalLength)))) := by
    apply loadAt_eq
    rw [total, length]
    exact whole
  obtain ⟨seg, ran, totalLength, rest⟩ : ∃ seg, tcpSegment K bytes = .ok seg ∧
      seg.totalLength = ntohs (field16 cleared ipTotalLength) ∧
      seg.bytes = cleared.drop l4Hdr := by
    simp only [tcpSegment, load16_inside (show tcpCksum + 2 ≤ bytes.length from header), stored,
      rteIpv4UdptcpCksum, ok_bind, half (show ipTotalLength ≤ 50 by decide),
      half (show tcpSrcPort ≤ 50 by decide), half (show tcpDstPort ≤ 50 by decide),
      word (show ipSrcAddr ≤ 48 by decide), word (show ipDstAddr ≤ 48 by decide),
      word (show tcpSentSeq ≤ 48 by decide), word (show tcpRecvAck ≤ 48 by decide),
      byte (show ipNextProtoId ≤ 51 by decide), byte (show tcpDataOff ≤ 51 by decide),
      byte (show tcpTcpFlags ≤ 51 by decide), sum]
    exact ⟨_, rfl, rfl, rfl⟩
  refine ⟨seg, ran, ?_⟩
  rw [Segment.tcplen, totalLength, total, rest, List.length_drop, length, l4Hdr]
  by_cases short : (ntohs (field16 bytes ipTotalLength)).toNat < 20
  · omega
  · rw [Cksums.l4Len, if_neg short] at whole
    omega

theorem tcpSegment_beyond {K : Cksums} (beyond : ¬ TcpFits K bytes) :
    tcpSegment K bytes = .error .outOfBounds := by
  by_cases header : 52 ≤ bytes.length
  · obtain ⟨cleared, stored, length, total⟩ := cleared_of_header header
    have sum : loadAt cleared l4Hdr (K.l4Len (ntohs (field16 cleared ipTotalLength))) =
        .error .outOfBounds := by
      apply loadAt_beyond
      rw [total, length, l4Hdr]
      exact Nat.lt_of_not_le fun whole => beyond ⟨header, whole⟩
    have found : load16 cleared ipTotalLength = .ok (field16 cleared ipTotalLength) :=
      load16_inside (by simp only [ipTotalLength]; omega)
    have srcAddr : load32 cleared ipSrcAddr = .ok (field32 cleared ipSrcAddr) :=
      load32_inside (by simp only [ipSrcAddr]; omega)
    have dstAddr : load32 cleared ipDstAddr = .ok (field32 cleared ipDstAddr) :=
      load32_inside (by simp only [ipDstAddr]; omega)
    have proto : load8 cleared ipNextProtoId = .ok (field8 cleared ipNextProtoId) :=
      load8_inside (by simp only [ipNextProtoId]; omega)
    simp only [tcpSegment, load16_inside (show tcpCksum + 2 ≤ bytes.length from header), stored,
      rteIpv4UdptcpCksum, ok_bind, found, srcAddr, dstAddr, proto, sum]
    rfl
  · have cksum : loadAt bytes tcpCksum 2 = .error .outOfBounds := by
      apply loadAt_beyond
      simp only [tcpCksum]
      omega
    rw [tcpSegment, load16, cksum]
    rfl

end Loads

section Frames

variable {K : Cksums} {isn : UInt32} {mbufs : Nat} {arp : List ArpEntry} {w : World} {m : Mbuf}
  {A : Allocator}

theorem readSegment_ok {seg : Segment} (found : tcpSegment K m.bytes = .ok seg) :
    readSegment K m A = .ok ((seg, m.seen), A) := by
  rw [readSegment, found]
  rfl

theorem ngTcpProcessMbuf_inside :
    Inside (ngTcpProcessMbuf K isn w) m A ↔ TcpFits K m.bytes := by
  unfold ngTcpProcessMbuf
  rw [inside_bind]
  by_cases fits : TcpFits K m.bytes
  · obtain ⟨seg, found, inside⟩ := tcpSegment_fits fits
    have ran := readSegment_ok (A := A) found
    refine ⟨fun _ => fits, fun _ => ⟨?_, fun a m' B ran' => ?_⟩⟩
    · unfold Inside
      rw [ran]
      exact fun failed => nomatch failed
    · cases ran.symm.trans ran'
      exact inside_lift.mpr (ngTcpProcess_avoids inside)
  · refine ⟨fun inside => absurd ?_ inside.1, fun yes => absurd yes fits⟩
    rw [readSegment, tcpSegment_beyond fits]
    rfl

section Protocols

variable {α : Type} {f : World → PM α} {handler : PM World} {proto : UInt8}
  (header : 24 ≤ m.bytes.length)

include header

theorem inside_ifProto_other (other : field8 m.bytes ipNextProtoId ≠ proto) :
    Inside (ifProto proto w handler >>= f) m A ↔ Inside (f w) m.seen A := by
  rw [ifProto, bind_assoc, inside_read8,
    and_iff_right (show ipNextProtoId + 1 ≤ m.bytes.length from header), if_neg other, pure_bind]

theorem inside_ifProto (same : field8 m.bytes ipNextProtoId = proto)
    (rest : ∀ w' m' B, handler m.seen A = .ok ((w', m'), B) → Inside (f w') m' B) :
    Inside (ifProto proto w handler >>= f) m A ↔ Inside handler m.seen A := by
  rw [ifProto, bind_assoc, inside_read8,
    and_iff_right (show ipNextProtoId + 1 ≤ m.bytes.length from header), if_pos same, inside_bind,
    and_iff_left rest]

/-- The test for ICMP, which comes last. -/
theorem inside_icmp : Inside (do
      let nextProtoId ← read8 ipNextProtoId
      if nextProtoId = ipprotoIcmp then
        let reply ← icmpProcess mbufs
        return (w, reply)
      else return (w, none)) m A ↔
    (field8 m.bytes ipNextProtoId = ipprotoIcmp → IcmpFits m.bytes) := by
  rw [inside_read8, and_iff_right (show ipNextProtoId + 1 ≤ m.bytes.length from header),
    inside_ite]
  simp only [inside_pure, implies_true, and_true]
  refine imp_congr_right fun _ => ?_
  rw [bind_pure_comp, inside_map]
  exact icmpProcess_inside

end Protocols

/-- At most one of the three handlers runs. -/
theorem ipProcess_inside :
    Inside (ipProcess K isn mbufs w) m A ↔ IpFits K w A m.bytes := by
  unfold ipProcess IpFits
  by_cases header : 24 ≤ m.bytes.length
  · rw [and_iff_right header]
    by_cases udp : field8 m.bytes ipNextProtoId = ipprotoUdp
    · have tcp : field8 m.bytes ipNextProtoId ≠ ipprotoTcp := by
        rw [udp]
        decide
      have icmp : field8 m.bytes ipNextProtoId ≠ ipprotoIcmp := by
        rw [udp]
        decide
      have fits := udpProcess_inside (w := w) (m := m.seen) (A := A) udp
      rw [inside_ifProto header udp, inside_map, fits]
      · constructor
        · intro fits
          exact ⟨fun _ => fits, fun yes => absurd yes tcp, fun yes => absurd yes icmp⟩
        · rintro ⟨fits, -⟩
          exact fits udp
      · intro w' m' B ran
        have same : m'.bytes = m.bytes := by
          have ends : Ends (Prod.snd <$> udpProcess w) m.seen fun _ m' =>
              m' = { m.seen.seen with frees := m.seen.frees + 1 } := (udpProcess_ends w m.seen).map
          rw [ends.of_ok A w' m' B ran]
          rfl
        rw [inside_ifProto_other (same ▸ header) (same ▸ tcp), inside_icmp (same ▸ header)]
        intro yes
        exact absurd (same ▸ yes) icmp
    · rw [inside_ifProto_other header udp]
      by_cases tcp : field8 m.bytes ipNextProtoId = ipprotoTcp
      · have icmp : field8 m.bytes ipNextProtoId ≠ ipprotoIcmp := by
          rw [tcp]
          decide
        rw [inside_ifProto (m := m.seen) header tcp, inside_map, ngTcpProcessMbuf_inside]
        · constructor
          · intro fits
            exact ⟨fun yes => absurd yes udp, fun _ => fits, fun yes => absurd yes icmp⟩
          · rintro ⟨-, fits, -⟩
            exact fits tcp
        · intro w' m' B ran
          have same : m'.bytes = m.bytes := by
            have ends : Ends (Prod.snd <$> ngTcpProcessMbuf K isn w) m.seen.seen fun _ m' =>
                m' = m.seen.seen.seen := (ngTcpProcessMbuf_ends K isn w m.seen.seen).map
            rw [ends.of_ok A w' m' B ran]
            rfl
          rw [inside_icmp (same ▸ header)]
          intro yes
          exact absurd (same ▸ yes) icmp
      · rw [inside_ifProto_other (m := m.seen) header tcp, inside_icmp (m := m.seen.seen) header]
        constructor
        · intro fits
          exact ⟨fun yes => absurd yes udp, fun yes => absurd yes tcp, fits⟩
        · rintro ⟨-, -, fits⟩
          exact fits
  · rw [ifProto, bind_assoc, inside_read8]
    exact ⟨fun inside => absurd inside.1 header, fun fits => absurd fits.1 header⟩

/-- Exactly the frames that fit are read inside their `data_len` bytes. -/
theorem pktProcess_inside_iff (K : Cksums) (isn : UInt32) (mbufs : Nat) (w : World)
    (arp : List ArpEntry) (A : Allocator) (frame : List UInt8) :
    pktProcess K isn mbufs w arp (.fresh frame) A ≠ .error .outOfBounds ↔ Fits K w A frame := by
  show Inside _ _ _ ↔ _
  unfold pktProcess Fits
  rw [inside_read16]
  refine and_congr Iff.rfl ?_
  have bytes : (Mbuf.fresh frame).bytes = frame := rfl
  by_cases type : field16 frame etherType = ntohs rteEtherTypeArp
  · have ip : field16 frame etherType ≠ ntohs rteEtherTypeIpv4 := by
      rw [type]
      decide
    rw [bytes, if_pos type, inside_read32]
    constructor
    · rintro ⟨tip, -⟩
      exact ⟨fun _ => tip, fun yes => absurd yes ip⟩
    · rintro ⟨whole, -⟩
      have tip := whole type
      refine ⟨tip, inside_ite.mpr ⟨fun _ => ?_, fun _ => inside_pure _⟩⟩
      exact inside_bind.mpr ⟨arpProcess_inside tip, fun _ _ _ _ => inside_pure _⟩
  · rw [bytes, if_neg type]
    by_cases ip : field16 frame etherType = ntohs rteEtherTypeIpv4
    · rw [if_neg (not_not.mpr ip)]
      have fits : Inside (ipProcess K isn mbufs w) (Mbuf.fresh frame).seen A ↔
          IpFits K w A frame := ipProcess_inside
      rw [inside_bind, and_iff_left (fun _ _ _ _ => inside_pure _), fits]
      constructor
      · intro fits
        exact ⟨fun yes => absurd yes type, fun _ => fits⟩
      · rintro ⟨-, fits⟩
        exact fits ip
    · rw [if_pos ip]
      exact ⟨fun _ => ⟨fun yes => absurd yes type, fun yes => absurd yes ip⟩,
        fun _ => inside_pure _⟩

end Frames

/-- A segment of 60 bytes that claims a total length of 1500. -/
def shortFrame : List UInt8 :=
  List.replicate 12 0 ++ [0x08, 0x00, 0x45, 0, 0x05, 0xdc, 0, 0, 0, 0, 64, 6, 0, 0] ++
    List.replicate 34 0

/-- The checksum is taken over 1480 bytes from offset 34 on. -/
theorem short_frame_read_beyond :
    shortFrame.length = 60 ∧ field16 shortFrame ipTotalLength = ntohs 1500 ∧
    pktProcess internetSums 0 1 .empty [] (.fresh shortFrame) .cleared = .error .outOfBounds :=
  ⟨rfl, rfl, rfl⟩

end LinuxCpp.Ustack
