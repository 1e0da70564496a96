import LinuxCpp.Ustack.Frame
import LinuxCpp.Ustack.Stored

set_option autoImplicit false

/- The encoder of TCP packets, and what the receive path reads back from them. -/
namespace LinuxCpp.Ustack

open C

/-- The assignments of `ng_encode_tcp_apppkt` to the header of TCP. -/
def tcpWrites (fragment : Fragment) : List (Nat × List UInt8) := [
  (tcpSrcPort, bytesOf 2 fragment.sport.toNat),
  (tcpDstPort, bytesOf 2 fragment.dport.toNat),
  (tcpSentSeq, bytesOf 4 (ntohl fragment.seqnum).toNat),
  (tcpRecvAck, bytesOf 4 (ntohl fragment.acknum).toNat),
  (tcpDataOff, [fragment.hdrlenOff]),
  (tcpRxWin, bytesOf 2 fragment.windows.toNat),
  (tcpTcpUrp, bytesOf 2 fragment.tcpUrp.toNat),
  (tcpTcpFlags, [fragment.tcpFlags])]

/-- The payload goes behind the options. -/
def encodePayload (msg : List UInt8) (fragment : Fragment) : Except Fault (List UInt8) :=
  match fragment.data with
  | none => pure msg
  | some data =>
      if 0 ≤ 54 + 4 * fragment.optlen then do
        let bytes ← loadAt data 0 fragment.length.toNat
        storeAt msg (54 + 4 * fragment.optlen).toNat bytes
      else throw .outOfBounds

def ngEncodeTcpApppkt (K : Cksums) (msg : List UInt8) (sip dip : UInt32) (srcmac dstmac : Mac)
    (fragment : Fragment) : Except Fault (List UInt8) := do
  let totalLen := fragment.length + 54 + .ofInt (4 * fragment.optlen)
  let msg ← encodeIpv4 K msg srcmac dstmac ipprotoTcp (totalLen - 14).toUInt16 sip dip
  let msg ← storeAll msg (tcpWrites fragment)
  let msg ← encodePayload msg fragment
  let msg ← storeAt msg tcpCksum (bytesOf 2 0)
  let cksum ← rteIpv4UdptcpCksum K msg
  storeAt msg tcpCksum (bytesOf 2 cksum.toNat)

/-- The packet in the new buffer, which had `room` in it before. -/
def ngTcpPkt (K : Cksums) (room : List UInt8) (sip dip : UInt32) (srcmac dstmac : Mac)
    (fragment : Fragment) : Except Fault (List UInt8) := do
  let totalLen := fragment.length + 54 + .ofInt (4 * fragment.optlen)
  let msg ← ngEncodeTcpApppkt K room sip dip srcmac dstmac fragment
  loadAt msg 0 totalLen.toNat

/-- A fragment with these bytes behind a header without options. -/
structure Fragment.Carries (fragment : Fragment) (bytes : List UInt8) : Prop where
  header : fragment.hdrlenOff = 0x50
  options : fragment.optlen = 0
  flags : fragment.tcpFlags = tcpPshFlag ||| tcpAckFlag
  data : fragment.data = some bytes
  length : fragment.length = .ofNat bytes.length

/-- What the peer finds in the packet; `rest` begins with the TCP header. -/
def Fragment.segment (fragment : Fragment) (sip dip : UInt32) (total : UInt16)
    (rest : List UInt8) : Segment :=
  ⟨sip, dip, fragment.sport, fragment.dport, fragment.seqnum, fragment.acknum, 0x50,
    tcpPshFlag ||| tcpAckFlag, total, true, rest⟩

section RoundTrip

variable {K : Cksums} {msg : List UInt8} {sip dip : UInt32} {srcmac dstmac : Mac}
  {fragment : Fragment} {bytes : List UInt8}

/-- The packet before its checksum. -/
structure Prepared (fragment : Fragment) (sip dip : UInt32) (bytes msg : List UInt8) : Prop where
  headers : Ipv4Frame ipprotoTcp (.ofNat (40 + bytes.length)) sip dip msg
  srcPort : load16 msg tcpSrcPort = .ok fragment.sport
  dstPort : load16 msg tcpDstPort = .ok fragment.dport
  sentSeq : load32 msg tcpSentSeq = .ok (ntohl fragment.seqnum)
  recvAck : load32 msg tcpRecvAck = .ok (ntohl fragment.acknum)
  dataOff : load8 msg tcpDataOff = .ok fragment.hdrlenOff
  tcpFlags : load8 msg tcpTcpFlags = .ok fragment.tcpFlags
  payload : loadAt msg 54 bytes.length = .ok bytes
  cleared : storeAt msg tcpCksum (bytesOf 2 0) = .ok msg

/-- The header of TCP with the payload behind it, and its checksum cleared. -/
theorem encodePayload_prepares (carries : fragment.Carries bytes)
    (bound : bytes.length ≤ 65495) (room : 54 + bytes.length ≤ msg.length)
    (headers : Ipv4Frame ipprotoTcp (.ofNat (40 + bytes.length)) sip dip msg) :
    ∃ h₁ h₂ h₃, storeAll msg (tcpWrites fragment) = .ok h₁ ∧
      encodePayload h₁ fragment = .ok h₂ ∧ storeAt h₂ tcpCksum (bytesOf 2 0) = .ok h₃ ∧
      h₃.length = msg.length ∧ Prepared fragment sip dip bytes h₃ := by
  obtain ⟨h₁, ran, length₁⟩ : ∃ h₁, storeAll msg (tcpWrites fragment) = .ok h₁ ∧
      h₁.length = msg.length := by
    apply storeAll_inside
    simp [tcpWrites]
    omega
  obtain ⟨h₂, stored⟩ : ∃ h₂, storeAt h₁ 54 bytes = .ok h₂ := ⟨_, storeAt_eq (by omega)⟩
  have length₂ := storeAt_length stored
  obtain ⟨h₃, cleared⟩ : ∃ h₃, storeAt h₂ tcpCksum (bytesOf 2 0) = .ok h₃ := by
    refine ⟨_, storeAt_eq ?_⟩
    simp only [bytesOf_length, tcpCksum]
    omega
  have length₃ := storeAt_length cleared
  have copied : encodePayload h₁ fragment = .ok h₂ := by
    have size : fragment.length.toNat = bytes.length := by
      rw [carries.length, UInt32.toNat_ofNat', Nat.mod_eq_of_lt (by omega)]
    have whole : loadAt bytes 0 bytes.length = .ok bytes := by
      rw [loadAt_eq (by omega), List.drop_zero, List.take_length]
    simp only [encodePayload, carries.data, carries.options, size, whole]
    exact stored
  have same {i n : Nat} (apart : i + n ≤ 50) : loadAt h₃ i n = loadAt h₁ i n := by
    rw [loadAt_storeAt_apart cleared (.inl apart), loadAt_storeAt_apart stored (.inl (by omega))]
  refine ⟨h₁, h₂, h₃, ran, copied, cleared, by omega, ?_⟩
  constructor
  · have after : Ipv4Frame ipprotoTcp (.ofNat (40 + bytes.length)) sip dip h₁ :=
      headers.behind ran (by simp [tcpWrites])
    exact (after.behindOne stored (by decide)).behindOne cleared (by decide)
  · apply load16_eq
    rw [same (by decide)]
    exact loadAt_storeAll (k := 0) ran rfl (by simp [tcpWrites])
  · apply load16_eq
    rw [same (by decide)]
    exact loadAt_storeAll (k := 1) ran rfl (by simp [tcpWrites])
  · apply load32_eq
    rw [same (by decide)]
    exact loadAt_storeAll (k := 2) ran rfl (by simp [tcpWrites])
  · apply load32_eq
    rw [same (by decide)]
    exact loadAt_storeAll (k := 3) ran rfl (by simp [tcpWrites])
  · apply load8_eq
    rw [same (by decide), bytesOf_one]
    exact loadAt_storeAll (k := 4) ran rfl (by simp [tcpWrites])
  · apply load8_eq
    rw [same (by decide), bytesOf_one]
    exact loadAt_storeAll (k := 7) ran rfl (by simp [tcpWrites])
  · rw [loadAt_storeAt_apart cleared (.inr (by decide))]
    exact loadAt_storeAt stored
  · rw [storeAt_storeAt cleared rfl]
    exact cleared

/-- The peer clears the checksum and so finds the packet as it was summed up. -/
theorem tcpSegment_of_prepared {pkt : List UInt8} {c : UInt16}
    (prepared : Prepared fragment sip dip bytes msg) (carries : fragment.Carries bytes)
    (summed : rteIpv4UdptcpCksum K msg = .ok c)
    (stored : storeAt msg tcpCksum (bytesOf 2 c.toNat) = .ok pkt) :
    tcpSegment K pkt =
      .ok (fragment.segment sip dip (.ofNat (40 + bytes.length)) (msg.drop l4Hdr)) := by
  obtain ⟨headers, srcPort, dstPort, sentSeq, recvAck, dataOff, tcpFlags, -, cleared⟩ := prepared
  have found : load16 pkt tcpCksum = .ok c := load16_eq (loadAt_storeAt stored)
  have back : storeAt pkt tcpCksum (bytesOf 2 0) = .ok msg := by
    rw [storeAt_storeAt stored (bytesOf_length 2 0)]
    exact cleared
  simp only [tcpSegment, found, back, summed, headers.srcAddr, headers.dstAddr, srcPort, dstPort,
    sentSeq, recvAck, dataOff, tcpFlags, headers.totalLength, ok_bind, ntohl_ntohl, ntohs_ntohs,
    carries.header, carries.flags, decide_true]
  rfl

/-- The packet that is built, and the segment found in it. -/
theorem ngEncodeTcpApppkt_segment (K : Cksums) (srcmac dstmac : Mac) (sip dip : UInt32)
    (carries : fragment.Carries bytes) (bound : bytes.length ≤ 65495)
    (room : 54 + bytes.length ≤ msg.length) :
    ∃ pkt header rest, ngEncodeTcpApppkt K msg sip dip srcmac dstmac fragment = .ok pkt ∧
      header.length = 20 ∧
      tcpSegment K pkt = .ok (fragment.segment sip dip (.ofNat (40 + bytes.length))
        (header ++ (bytes ++ rest))) := by
  have total : (fragment.length + 54 + .ofInt (4 * fragment.optlen) - 14).toUInt16 =
      .ofNat (40 + bytes.length) := by
    have nothing : UInt32.ofInt (4 * 0) = 0 := rfl
    rw [carries.length, carries.options, nothing, ← UInt16.toNat_inj]
    simp only [UInt32.toNat_toUInt16, UInt32.toNat_sub, UInt32.toNat_add, UInt32.toNat_ofNat',
      UInt16.toNat_ofNat', UInt32.reduceToNat]
    omega
  obtain ⟨h₀, encoded, length₀, headers⟩ := encodeIpv4_ok K srcmac dstmac ipprotoTcp
    (.ofNat (40 + bytes.length)) sip dip (show 34 ≤ msg.length by omega)
  obtain ⟨h₁, h₂, h₃, ran, copied, cleared, length₃, prepared⟩ :=
    encodePayload_prepares carries bound (length₀ ▸ room) headers
  have size : (UInt16.ofNat (40 + bytes.length)).toNat = 40 + bytes.length := by
    rw [UInt16.toNat_ofNat', Nat.mod_eq_of_lt (by omega)]
  have summed := prepared.headers.cksum (K := K) (by omega) (by omega)
  obtain ⟨pkt, stored⟩ : ∃ pkt, storeAt h₃ tcpCksum (bytesOf 2 (K.udptcp sip dip ipprotoTcp
      (.ofNat (40 + bytes.length)) ((h₃.drop l4Hdr).take
        ((UInt16.ofNat (40 + bytes.length)).toNat - 20))).toNat) = .ok pkt := by
    refine ⟨_, storeAt_eq ?_⟩
    simp only [bytesOf_length, tcpCksum]
    omega
  have behind : h₃.drop l4Hdr =
      (h₃.drop l4Hdr).take 20 ++ (bytes ++ (h₃.drop 54).drop bytes.length) := by
    obtain ⟨-, payload⟩ := loadAt_ok prepared.payload
    have tail : bytes ++ (h₃.drop 54).drop bytes.length = h₃.drop 54 := by
      conv_lhs => rw [payload, List.length_take_of_le (by rw [List.length_drop]; omega)]
      exact List.take_append_drop _ _
    have parts := List.take_append_drop 20 (h₃.drop l4Hdr)
    rw [List.drop_drop] at parts
    rw [tail]
    exact parts.symm
  refine ⟨pkt, (h₃.drop l4Hdr).take 20, _, ?_, ?_, behind ▸
    tcpSegment_of_prepared prepared carries summed stored⟩
  · simp only [ngEncodeTcpApppkt, total, encoded, ran, copied, cleared, summed, ok_bind]
    exact stored
  · simp only [List.length_take, List.length_drop, l4Hdr]
    omega

/-- The sums agree, the numbers are read as they were written, and the receive path puts a
fragment with the payload on the ring of the peer. -/
theorem tcp_round_trip (K : Cksums) (sip dip : UInt32) (srcmac dstmac : Mac)
    (carries : fragment.Carries bytes) (positive : 1 ≤ bytes.length)
    (bound : bytes.length ≤ 65495) (room : 54 + bytes.length ≤ msg.length) :
    ∃ pkt seg received, ngEncodeTcpApppkt K msg sip dip srcmac dstmac fragment = .ok pkt ∧
      tcpSegment K pkt = .ok seg ∧ seg.cksumOk = true ∧ seg.sentSeq = fragment.seqnum ∧
      seg.recvAck = fragment.acknum ∧ received.data = fragment.data ∧
      received.length = fragment.length ∧
      ∀ (s : Stream) (A : Allocator), A.grants A.calls = true → A.grants (A.calls + 1) = true →
        ngTcpEnqueueRecvbuffer s seg seg.tcplen A =
          (enqueue s.rcvbuf received).map fun rcvbuf =>
            ((0, { s with rcvbuf := rcvbuf }), A.next.next) := by
  obtain ⟨pkt, header, rest, encoded, twenty, found⟩ :=
    ngEncodeTcpApppkt_segment K srcmac dstmac sip dip carries bound room
  generalize made : fragment.segment sip dip (.ofNat (40 + bytes.length))
    (header ++ (bytes ++ rest)) = seg at found
  have size : (UInt16.ofNat (40 + bytes.length)).toNat = 40 + bytes.length := by
    rw [UInt16.toNat_ofNat', Nat.mod_eq_of_lt (by omega)]
  have words : seg.hdrlen = 5 := by
    rw [← made]
    show ((0x50 : UInt8) >>> 4).toNat = 5
    decide
  have length : seg.tcplen = 20 + bytes.length := by
    subst made
    simp only [Segment.tcplen, Fragment.segment, size]
    omega
  have behind : seg.bytes = header ++ (bytes ++ rest) := by
    rw [← made]
    rfl
  have formed : seg.WellFormed := by
    refine ⟨by rw [← made]; rfl, by omega, by omega, ?_⟩
    rw [behind, length]
    simp only [List.length_append]
    omega
  have data : seg.data = bytes := by
    have payloadlen : (seg.payloadlen seg.tcplen).toNat = bytes.length := by
      simp only [Segment.payloadlen]
      omega
    rw [Segment.data, payloadlen, words, behind, List.drop_left' twenty, List.take_left' rfl]
  have some_ : seg.data ≠ [] := by
    rw [data]
    exact List.length_pos_iff.mp positive
  refine ⟨pkt, seg, seg.fragment, encoded, found, formed.cksum, ?_, ?_, ?_, ?_,
    fun s A => ngTcpEnqueueRecvbuffer_granted formed some_⟩
  · rw [← made]
    rfl
  · rw [← made]
    rfl
  · rw [carries.data, ← data]
    rfl
  · rw [carries.length, ← data]
    rfl

end RoundTrip

/-- Five bytes for port 1 of address 4. -/
def fiveBytes : Fragment :=
  { Fragment.zeroed with
    sport := 3, dport := 1, seqnum := 100, acknum := 10, hdrlenOff := 0x50,
    tcpFlags := tcpPshFlag ||| tcpAckFlag, windows := tcpInitialWindow,
    data := some [1, 2, 3, 4, 5], length := 5 }

theorem tcp_round_trip_five :
    ∃ pkt seg received, ngEncodeTcpApppkt internetSums (List.replicate 60 0) 2 4
        #v[1, 2, 3, 4, 5, 6] #v[6, 5, 4, 3, 2, 1] fiveBytes = .ok pkt ∧
      tcpSegment internetSums pkt = .ok seg ∧ seg.cksumOk = true ∧
      seg.sentSeq = fiveBytes.seqnum ∧ seg.recvAck = fiveBytes.acknum ∧
      received.data = fiveBytes.data ∧ received.length = fiveBytes.length ∧
      ∀ (s : Stream) (A : Allocator), A.grants A.calls = true → A.grants (A.calls + 1) = true →
        ngTcpEnqueueRecvbuffer s seg seg.tcplen A =
          (enqueue s.rcvbuf received).map fun rcvbuf =>
            ((0, { s with rcvbuf := rcvbuf }), A.next.next) :=
  tcp_round_trip internetSums 2 4 #v[1, 2, 3, 4, 5, 6] #v[6, 5, 4, 3, 2, 1]
    (⟨rfl, rfl, rfl, rfl, rfl⟩ : fiveBytes.Carries [1, 2, 3, 4, 5]) (by decide) (by decide)
    (by decide)

end LinuxCpp.Ustack
