import LinuxCpp.C.Bytes
import LinuxCpp.Ustack.Tcp

set_option autoImplicit false

/- Frames as bytes. The names stand for the offsets of the fields of the packed headers
in the frame; numbers are stored in little-endian order and the sums of DPDK are
parameters. -/
namespace LinuxCpp.Ustack

open C

@[simp] def etherDAddr : Nat := 0
@[simp] def etherSAddr : Nat := 6
@[simp] def etherType : Nat := 12

@[simp] def ipVersionIhl : Nat := 14
@[simp] def ipTypeOfService : Nat := 15
@[simp] def ipTotalLength : Nat := 16
@[simp] def ipPacketId : Nat := 18
@[simp] def ipFragmentOffset : Nat := 20
@[simp] def ipTimeToLive : Nat := 22
@[simp] def ipNextProtoId : Nat := 23
@[simp] def ipHdrChecksum : Nat := 24
@[simp] def ipSrcAddr : Nat := 26
@[simp] def ipDstAddr : Nat := 30

/-- Where the header of the datagram begins. -/
@[simp] def l4Hdr : Nat := 34

@[simp] def tcpSrcPort : Nat := 34
@[simp] def tcpDstPort : Nat := 36
@[simp] def tcpSentSeq : Nat := 38
@[simp] def tcpRecvAck : Nat := 42
@[simp] def tcpDataOff : Nat := 46
@[simp] def tcpTcpFlags : Nat := 47
@[simp] def tcpRxWin : Nat := 48
@[simp] def tcpCksum : Nat := 50
@[simp] def tcpTcpUrp : Nat := 52

/-- `uint8_t[RTE_ETHER_ADDR_LEN]` -/
abbrev Mac := Vector UInt8 6

def rteEtherTypeIpv4 : UInt16 := 0x0800

def ipprotoIcmp : UInt8 := 1

def ipprotoTcp : UInt8 := 6

def ipprotoUdp : UInt8 := 17

/-- `ntohl`, and `htonl` as well. -/
def ntohl (n : UInt32) : UInt32 := .ofNat (swapBytes 4 n.toNat)

/-- `rte_ipv4_cksum` and `rte_ipv4_udptcp_cksum`. What the second one takes for the
length of the datagram when the total length is shorter than the header of IPv4 depends
on the release of DPDK. -/
structure Cksums where
  ipv4 : List UInt8 → UInt16
  short : UInt16 → Nat
  udptcp : UInt32 → UInt32 → UInt8 → UInt16 → List UInt8 → UInt16

/-- The number of bytes that `rte_ipv4_udptcp_cksum` sums up behind the header. -/
def Cksums.l4Len (K : Cksums) (totalLength : UInt16) : Nat :=
  if totalLength.toNat < 20 then K.short totalLength else totalLength.toNat - 20

def sum16 : List UInt8 → Nat
  | low :: high :: rest => low.toNat + 256 * high.toNat + sum16 rest
  | [low] => low.toNat
  | [] => 0

/-- The complement of a sum with its carries. -/
def foldSum (sum : Nat) : UInt16 :=
  let carried := sum / 65536 + sum % 65536
  ~~~ .ofNat (carried / 65536 + carried % 65536)

/-- The sums of the internet protocols; zero stands for no sum. -/
def internetSums : Cksums where
  ipv4 header := foldSum (sum16 header)
  short _ := 0
  udptcp srcAddr dstAddr nextProtoId totalLength bytes :=
    let cksum := foldSum (sum16 (bytesOf 4 srcAddr.toNat ++ bytesOf 4 dstAddr.toNat ++
      [0, nextProtoId] ++ bytesOf 2 (ntohs (totalLength - 20)).toNat ++ bytes))
    if cksum = 0 then 0xffff else cksum

def rteIpv4Cksum (K : Cksums) (msg : List UInt8) : Except Fault UInt16 := do
  return K.ipv4 (← loadAt msg ipVersionIhl 20)

def rteIpv4UdptcpCksum (K : Cksums) (msg : List UInt8) : Except Fault UInt16 := do
  let totalLength := ntohs (← load16 msg ipTotalLength)
  let srcAddr ← load32 msg ipSrcAddr
  let dstAddr ← load32 msg ipDstAddr
  let nextProtoId ← load8 msg ipNextProtoId
  let bytes ← loadAt msg l4Hdr (K.l4Len totalLength)
  return K.udptcp srcAddr dstAddr nextProtoId totalLength bytes

/-- What `ng_tcp_process` finds in a frame. It clears the checksum in the frame before it
sums up. -/
def tcpSegment (K : Cksums) (pkt : List UInt8) : Except Fault Segment := do
  let tcpcksum ← load16 pkt tcpCksum
  let pkt ← storeAt pkt tcpCksum (bytesOf 2 0)
  let cksum ← rteIpv4UdptcpCksum K pkt
  let srcAddr ← load32 pkt ipSrcAddr
  let dstAddr ← load32 pkt ipDstAddr
  let srcPort ← load16 pkt tcpSrcPort
  let dstPort ← load16 pkt tcpDstPort
  let sentSeq ← load32 pkt tcpSentSeq
  let recvAck ← load32 pkt tcpRecvAck
  let dataOff ← load8 pkt tcpDataOff
  let tcpFlags ← load8 pkt tcpTcpFlags
  let totalLength ← load16 pkt ipTotalLength
  return ⟨srcAddr, dstAddr, srcPort, dstPort, ntohl sentSeq, ntohl recvAck, dataOff, tcpFlags,
    ntohs totalLength, cksum = tcpcksum, pkt.drop l4Hdr⟩

/-- The assignments to the first two headers, as all encoders make them. -/
def ipv4Writes (srcmac dstmac : Mac) (nextProtoId : UInt8) (totalLength : UInt16)
    (sip dip : UInt32) : List (Nat × List UInt8) := [
  (etherSAddr, srcmac.toList),
  (etherDAddr, dstmac.toList),
  (etherType, bytesOf 2 (ntohs rteEtherTypeIpv4).toNat),
  (ipVersionIhl, [0x45]),
  (ipTypeOfService, [0]),
  (ipTotalLength, bytesOf 2 (ntohs totalLength).toNat),
  (ipPacketId, bytesOf 2 0),
  (ipFragmentOffset, bytesOf 2 0),
  (ipTimeToLive, [64]),
  (ipNextProtoId, [nextProtoId]),
  (ipSrcAddr, bytesOf 4 sip.toNat),
  (ipDstAddr, bytesOf 4 dip.toNat),
  (ipHdrChecksum, bytesOf 2 0)]

def encodeIpv4 (K : Cksums) (msg : List UInt8) (srcmac dstmac : Mac) (nextProtoId : UInt8)
    (totalLength : UInt16) (sip dip : UInt32) : Except Fault (List UInt8) := do
  let msg ← storeAll msg (ipv4Writes srcmac dstmac nextProtoId totalLength sip dip)
  let hdrChecksum ← rteIpv4Cksum K msg
  storeAt msg ipHdrChecksum (bytesOf 2 hdrChecksum.toNat)

theorem ntohs_toNat (n : UInt16) : (ntohs n).toNat = n.toNat % 256 * 256 + n.toNat / 256 := by
  have small := n.toNat_lt
  have high : n.toNat / 256 < 2 ^ 8 := by omega
  have shifted : n.toNat <<< 8 % 2 ^ 16 = (n.toNat % 256) <<< 8 := by
    simp only [Nat.shiftLeft_eq]
    omega
  have down : n.toNat >>> 8 = n.toNat / 256 := Nat.shiftRight_eq_div_pow n.toNat 8
  simp only [ntohs, UInt16.toNat_or, UInt16.toNat_shiftLeft, UInt16.toNat_shiftRight,
    UInt16.reduceToNat, Nat.reduceMod, shifted, down]
  rw [← Nat.shiftLeft_add_eq_or_of_lt high, Nat.shiftLeft_eq]

@[simp] theorem ntohs_ntohs (n : UInt16) : ntohs (ntohs n) = n := by
  have small := n.toNat_lt
  rw [← UInt16.toNat_inj, ntohs_toNat, ntohs_toNat]
  omega

@[simp] theorem ntohl_ntohl (n : UInt32) : ntohl (ntohl n) = n := by
  have bound := swapBytes_lt 4 n.toNat
  have small := n.toNat_lt
  rw [ntohl, ntohl, UInt32.toNat_ofNat_of_lt' (by exact bound), swapBytes_swapBytes,
    Nat.mod_eq_of_lt (by exact small), UInt32.ofNat_toNat]

/-- What the two headers of a frame say. -/
structure Ipv4Frame (nextProtoId : UInt8) (totalLength : UInt16) (sip dip : UInt32)
    (msg : List UInt8) : Prop where
  etherType : load16 msg etherType = .ok (ntohs rteEtherTypeIpv4)
  totalLength : load16 msg ipTotalLength = .ok (ntohs totalLength)
  nextProtoId : load8 msg ipNextProtoId = .ok nextProtoId
  srcAddr : load32 msg ipSrcAddr = .ok sip
  dstAddr : load32 msg ipDstAddr = .ok dip

section Headers

variable {K : Cksums} {msg msg' : List UInt8} {nextProtoId : UInt8} {totalLength : UInt16}
  {sip dip : UInt32}

theorem encodeIpv4_ok (K : Cksums) (srcmac dstmac : Mac) (nextProtoId : UInt8)
    (totalLength : UInt16) (sip dip : UInt32) (room : 34 ≤ msg.length) :
    ∃ msg', encodeIpv4 K msg srcmac dstmac nextProtoId totalLength sip dip = .ok msg' ∧
      msg'.length = msg.length ∧ Ipv4Frame nextProtoId totalLength sip dip msg' := by
  obtain ⟨headers, ran, length⟩ : ∃ headers, storeAll msg
      (ipv4Writes srcmac dstmac nextProtoId totalLength sip dip) = .ok headers ∧
      headers.length = msg.length := by
    apply storeAll_inside
    simp [ipv4Writes]
    omega
  have summed : rteIpv4Cksum K headers =
      .ok (K.ipv4 ((headers.drop ipVersionIhl).take 20)) := by
    rw [rteIpv4Cksum, loadAt_eq (by simp only [ipVersionIhl]; omega)]
    rfl
  obtain ⟨msg', stored⟩ : ∃ msg', storeAt headers ipHdrChecksum
      (bytesOf 2 (K.ipv4 ((headers.drop ipVersionIhl).take 20)).toNat) = .ok msg' := by
    refine ⟨_, storeAt_eq ?_⟩
    simp only [bytesOf_length, ipHdrChecksum]
    omega
  have same {i n : Nat} (apart : i + n ≤ 24 ∨ 26 ≤ i) : loadAt msg' i n = loadAt headers i n := by
    apply loadAt_storeAt_apart stored
    simpa using apart
  refine ⟨msg', ?_, (storeAt_length stored).trans length, ?_, ?_, ?_, ?_, ?_⟩
  · rw [encodeIpv4, ran, ok_bind, summed, ok_bind, stored]
  · apply load16_eq
    rw [same (by decide)]
    exact loadAt_storeAll (k := 2) ran rfl (by simp [ipv4Writes])
  · apply load16_eq
    rw [same (by decide)]
    exact loadAt_storeAll (k := 5) ran rfl (by simp [ipv4Writes])
  · apply load8_eq
    rw [same (by decide), bytesOf_one]
    exact loadAt_storeAll (k := 9) ran rfl (by simp [ipv4Writes])
  · apply load32_eq
    rw [same (by decide)]
    exact loadAt_storeAll (k := 10) ran rfl (by simp [ipv4Writes])
  · apply load32_eq
    rw [same (by decide)]
    exact loadAt_storeAll (k := 11) ran rfl (by simp [ipv4Writes])

theorem encodeIpv4_length {srcmac dstmac : Mac}
    (encoded : encodeIpv4 K msg srcmac dstmac nextProtoId totalLength sip dip = .ok msg') :
    msg'.length = msg.length ∧ 34 ≤ msg.length := by
  obtain ⟨headers, ran, rest⟩ := ok_of_bind encoded
  obtain ⟨hdrChecksum, -, stored⟩ := ok_of_bind rest
  obtain ⟨length, inside⟩ := storeAll_ok ran
  have last : (ipDstAddr, bytesOf 4 dip.toNat) ∈
      ipv4Writes srcmac dstmac nextProtoId totalLength sip dip := by simp [ipv4Writes]
  exact ⟨(storeAt_length stored).trans length, inside _ last⟩

/-- Nothing behind the two headers is written. -/
theorem encodeIpv4_behind {srcmac dstmac : Mac} {i n : Nat}
    (encoded : encodeIpv4 K msg srcmac dstmac nextProtoId totalLength sip dip = .ok msg')
    (behind : 34 ≤ i) : loadAt msg' i n = loadAt msg i n := by
  obtain ⟨headers, ran, rest⟩ := ok_of_bind encoded
  obtain ⟨hdrChecksum, -, stored⟩ := ok_of_bind rest
  rw [loadAt_storeAt_apart stored (.inr (by rw [bytesOf_length, ipHdrChecksum]; omega))]
  apply loadAt_storeAll_apart ran
  simp [ipv4Writes]
  omega

/-- Memory with the same first 34 bytes. -/
theorem Ipv4Frame.of_same (frame : Ipv4Frame nextProtoId totalLength sip dip msg)
    (same : ∀ i n, i + n ≤ 34 → loadAt msg' i n = loadAt msg i n) :
    Ipv4Frame nextProtoId totalLength sip dip msg' := by
  obtain ⟨type, length, proto, src, dst⟩ := frame
  constructor
  · rwa [load16, same _ _ (by decide)]
  · rwa [load16, same _ _ (by decide)]
  · rwa [load8, same _ _ (by decide)]
  · rwa [load32, same _ _ (by decide)]
  · rwa [load32, same _ _ (by decide)]

/-- Writes behind the headers. -/
theorem Ipv4Frame.behind {writes : List (Nat × List UInt8)}
    (frame : Ipv4Frame nextProtoId totalLength sip dip msg)
    (ran : storeAll msg writes = .ok msg') (after : ∀ write ∈ writes, 34 ≤ write.1) :
    Ipv4Frame nextProtoId totalLength sip dip msg' := by
  apply frame.of_same
  intro i n before
  apply loadAt_storeAll_apart ran
  exact fun write member => .inl (before.trans (after write member))

theorem Ipv4Frame.behindOne {i : Nat} {bytes : List UInt8}
    (frame : Ipv4Frame nextProtoId totalLength sip dip msg)
    (stored : storeAt msg i bytes = .ok msg') (after : 34 ≤ i) :
    Ipv4Frame nextProtoId totalLength sip dip msg' := by
  apply frame.of_same
  intro j n before
  exact loadAt_storeAt_apart stored (.inl (before.trans after))

theorem Ipv4Frame.cksum (frame : Ipv4Frame nextProtoId totalLength sip dip msg)
    (long : 20 ≤ totalLength.toNat) (room : 14 + totalLength.toNat ≤ msg.length) :
    rteIpv4UdptcpCksum K msg = .ok (K.udptcp sip dip nextProtoId totalLength
      ((msg.drop l4Hdr).take (totalLength.toNat - 20))) := by
  have length : K.l4Len totalLength = totalLength.toNat - 20 := if_neg (by omega)
  have loaded : loadAt msg l4Hdr (totalLength.toNat - 20) =
      .ok ((msg.drop l4Hdr).take (totalLength.toNat - 20)) := by
    apply loadAt_eq
    simp only [l4Hdr]
    omega
  simp only [rteIpv4UdptcpCksum, frame.totalLength, frame.srcAddr, frame.dstAddr,
    frame.nextProtoId, ok_bind, ntohs_ntohs, length, loaded]
  rfl

end Headers

end LinuxCpp.Ustack
