import LinuxCpp.Ustack.Producers

set_option autoImplicit false

/- What a receiver reads in the packet of a fragment. The encoder stores the window as it
stands in the fragment, and the length of the packet in 16 bits. -/
namespace LinuxCpp.Ustack

open C

/-- The numbers of the packet, read as they are on the wire, are those of the fragment. -/
structure Tells (fragment : Fragment) (pkt : List UInt8) : Prop where
  sentSeq : (load32 pkt tcpSentSeq).map ntohl = .ok fragment.seqnum
  recvAck : (load32 pkt tcpRecvAck).map ntohl = .ok fragment.acknum
  rxWin : (load16 pkt tcpRxWin).map ntohs = .ok fragment.windows
  totalLength : ∃ total, (load16 pkt ipTotalLength).map ntohs = .ok total ∧
    (total.toNat : Int) = 40 + 4 * fragment.optlen + fragment.length.toNat

/-- The window looks the same in both byte orders, the length has 16 bits, and the packet
and the data are where they are said to be. -/
structure Tellable (fragment : Fragment) (msg : List UInt8) : Prop where
  window : ntohs fragment.windows = fragment.windows
  short : 40 + 4 * fragment.optlen + fragment.length.toNat < 65536
  fits : 54 + 4 * fragment.optlen + fragment.length.toNat ≤ msg.length
  held : ∀ data, fragment.data = some data → fragment.length.toNat ≤ data.length

section Reads

variable {K : Cksums} {msg : List UInt8} {sip dip : UInt32} {srcmac dstmac : Mac}
  {fragment : Fragment} {pkt : List UInt8}

/-- The length that the encoder computes. -/
theorem totalLen_toNat (nonneg : 0 ≤ fragment.optlen) (few : fragment.optlen ≤ 10) :
    ((fragment.length + 54 + .ofInt (4 * fragment.optlen) - 14).toUInt16).toNat =
      (fragment.length.toNat + 40 + (4 * fragment.optlen).toNat) % 65536 := by
  have options : (UInt32.ofInt (4 * fragment.optlen)).toNat = (4 * fragment.optlen).toNat := by
    rw [UInt32.ofInt, UInt32.toNat_ofNat']
    omega
  simp only [UInt32.toNat_toUInt16, UInt32.toNat_sub, UInt32.toNat_add, UInt32.reduceToNat,
    options]
  omega

/-- The payload stands behind the header of TCP. -/
theorem encodePayload_behind {msg' : List UInt8} (nonneg : 0 ≤ fragment.optlen)
    (copied : encodePayload msg fragment = .ok msg') {i n : Nat} (header : i + n ≤ 54) :
    loadAt msg' i n = loadAt msg i n := by
  unfold encodePayload at copied
  split at copied
  · cases copied
    rfl
  · split at copied
    · obtain ⟨bytes, -, stored⟩ := ok_of_bind copied
      exact loadAt_storeAt_apart stored (.inl (by omega))
    · cases copied

/-- The steps of the encoder. -/
theorem ngEncodeTcpApppkt_steps
    (encoded : ngEncodeTcpApppkt K msg sip dip srcmac dstmac fragment = .ok pkt) :
    ∃ h₀ h₁ h₂ h₃ cksum, encodeIpv4 K msg srcmac dstmac ipprotoTcp
        (fragment.length + 54 + .ofInt (4 * fragment.optlen) - 14).toUInt16 sip dip = .ok h₀ ∧
      storeAll h₀ (tcpWrites fragment) = .ok h₁ ∧ encodePayload h₁ fragment = .ok h₂ ∧
      storeAt h₂ tcpCksum (bytesOf 2 0) = .ok h₃ ∧ rteIpv4UdptcpCksum K h₃ = .ok cksum ∧
      storeAt h₃ tcpCksum (bytesOf 2 cksum.toNat) = .ok pkt := by
  obtain ⟨h₀, headers, encoded⟩ := ok_of_bind encoded
  obtain ⟨h₁, ran, encoded⟩ := ok_of_bind encoded
  obtain ⟨h₂, copied, encoded⟩ := ok_of_bind encoded
  obtain ⟨h₃, cleared, encoded⟩ := ok_of_bind encoded
  obtain ⟨cksum, summed, stored⟩ := ok_of_bind encoded
  exact ⟨h₀, h₁, h₂, h₃, cksum, headers, ran, copied, cleared, summed, stored⟩

/-- What stands in the fields of the packet. -/
structure Encoded (fragment : Fragment) (pkt : List UInt8) : Prop where
  sentSeq : load32 pkt tcpSentSeq = .ok (ntohl fragment.seqnum)
  recvAck : load32 pkt tcpRecvAck = .ok (ntohl fragment.acknum)
  rxWin : load16 pkt tcpRxWin = .ok fragment.windows
  totalLength : load16 pkt ipTotalLength =
    .ok (ntohs (fragment.length + 54 + .ofInt (4 * fragment.optlen) - 14).toUInt16)

theorem ngEncodeTcpApppkt_encoded (nonneg : 0 ≤ fragment.optlen)
    (encoded : ngEncodeTcpApppkt K msg sip dip srcmac dstmac fragment = .ok pkt) :
    Encoded fragment pkt := by
  obtain ⟨h₀, h₁, h₂, h₃, cksum, headers, ran, copied, cleared, -, stored⟩ :=
    ngEncodeTcpApppkt_steps encoded
  obtain ⟨_, headers', -, frame⟩ := encodeIpv4_ok K srcmac dstmac ipprotoTcp
    (fragment.length + 54 + .ofInt (4 * fragment.optlen) - 14).toUInt16 sip dip
    (encodeIpv4_length headers).2
  cases headers.symm.trans headers'
  have same {i n : Nat} (apart : i + n ≤ 50) : loadAt pkt i n = loadAt h₁ i n := by
    rw [loadAt_storeAt_apart stored (.inl apart), loadAt_storeAt_apart cleared (.inl apart),
      encodePayload_behind nonneg copied (by omega)]
  constructor
  · apply load32_eq
    rw [same (by decide)]
    exact loadAt_storeAll (k := 2) ran rfl (by simp [tcpWrites])
  · apply load32_eq
    rw [same (by decide)]
    exact loadAt_storeAll (k := 3) ran rfl (by simp [tcpWrites])
  · apply load16_eq
    rw [same (by decide)]
    exact loadAt_storeAll (k := 5) ran rfl (by simp [tcpWrites])
  · rw [load16, same (by decide)]
    exact (frame.behind ran (by simp [tcpWrites])).totalLength

theorem encodePayload_length {msg' : List UInt8}
    (copied : encodePayload msg fragment = .ok msg') :
    msg'.length = msg.length ∧
      ∀ data, fragment.data = some data → fragment.length.toNat ≤ data.length := by
  unfold encodePayload at copied
  split at copied
  · rename_i absent
    cases copied
    exact ⟨rfl, fun data present => absurd (absent.symm.trans present) (by simp)⟩
  · rename_i data present
    split at copied
    · obtain ⟨bytes, loaded, stored⟩ := ok_of_bind copied
      refine ⟨storeAt_length stored, fun data' present' => ?_⟩
      cases present.symm.trans present'
      have inside := (loadAt_ok loaded).1
      omega
    · cases copied

/-- A packet is encoded only where it fits and the data is there. -/
theorem ngEncodeTcpApppkt_fits (nonneg : 0 ≤ fragment.optlen) (few : fragment.optlen ≤ 10)
    (short : 40 + 4 * fragment.optlen + fragment.length.toNat < 65536)
    (encoded : ngEncodeTcpApppkt K msg sip dip srcmac dstmac fragment = .ok pkt) :
    54 + 4 * fragment.optlen + fragment.length.toNat ≤ msg.length ∧
      ∀ data, fragment.data = some data → fragment.length.toNat ≤ data.length := by
  obtain ⟨h₀, h₁, h₂, h₃, cksum, headers, ran, copied, cleared, summed, stored⟩ :=
    ngEncodeTcpApppkt_steps encoded
  have total := (ngEncodeTcpApppkt_encoded nonneg encoded).totalLength
  have number := totalLen_toNat nonneg few
  generalize (fragment.length + 54 + .ofInt (4 * fragment.optlen) - 14).toUInt16 = n at total number
  obtain ⟨length₂, held⟩ := encodePayload_length copied
  refine ⟨?_, held⟩
  rw [load16, loadAt_storeAt_apart stored (.inl (by decide))] at total
  obtain ⟨n', loaded, summed⟩ := ok_of_bind summed
  cases loaded.symm.trans total
  obtain ⟨srcAddr, -, summed⟩ := ok_of_bind summed
  obtain ⟨dstAddr, -, summed⟩ := ok_of_bind summed
  obtain ⟨nextProtoId, -, summed⟩ := ok_of_bind summed
  obtain ⟨bytes, payload, -⟩ := ok_of_bind summed
  obtain ⟨inside, -⟩ := loadAt_ok payload
  have lengths := storeAt_length cleared
  rw [length₂, (storeAll_ok ran).1, (encodeIpv4_length headers).1] at lengths
  rw [ntohs_ntohs, Cksums.l4Len, if_neg (by omega), lengths, l4Hdr] at inside
  omega

/-- A tellable fragment is encoded. -/
theorem ngEncodeTcpApppkt_tellable (K : Cksums) (sip dip : UInt32) (srcmac dstmac : Mac)
    (nonneg : 0 ≤ fragment.optlen) (few : fragment.optlen ≤ 10)
    (tellable : Tellable fragment msg) :
    ∃ pkt, ngEncodeTcpApppkt K msg sip dip srcmac dstmac fragment = .ok pkt := by
  obtain ⟨-, short, fits, held⟩ := tellable
  have number := totalLen_toNat nonneg few
  obtain ⟨h₀, headers, length₀, frame⟩ := encodeIpv4_ok K srcmac dstmac ipprotoTcp
    (fragment.length + 54 + .ofInt (4 * fragment.optlen) - 14).toUInt16 sip dip
    (show 34 ≤ msg.length by omega)
  obtain ⟨h₁, ran, length₁⟩ : ∃ h₁, storeAll h₀ (tcpWrites fragment) = .ok h₁ ∧
      h₁.length = h₀.length := by
    apply storeAll_inside
    simp [tcpWrites]
    omega
  obtain ⟨h₂, copied⟩ : ∃ h₂, encodePayload h₁ fragment = .ok h₂ := by
    unfold encodePayload
    cases present : fragment.data with
    | none => exact ⟨h₁, rfl⟩
    | some data =>
        have enough := held data present
        have whole := loadAt_eq (show 0 + fragment.length.toNat ≤ data.length by omega)
        have size : ((data.drop 0).take fragment.length.toNat).length = fragment.length.toNat := by
          rw [List.drop_zero]
          exact List.length_take_of_le enough
        simp only [whole, ok_bind]
        rw [if_pos (by omega)]
        exact ⟨_, storeAt_eq (by omega)⟩
  have length₂ := (encodePayload_length copied).1
  obtain ⟨h₃, cleared⟩ : ∃ h₃, storeAt h₂ tcpCksum (bytesOf 2 0) = .ok h₃ :=
    ⟨_, storeAt_eq (by rw [bytesOf_length, tcpCksum]; omega)⟩
  have length₃ := storeAt_length cleared
  have frame₃ : Ipv4Frame ipprotoTcp
      (fragment.length + 54 + .ofInt (4 * fragment.optlen) - 14).toUInt16 sip dip h₃ := by
    apply (frame.behind ran (by simp [tcpWrites])).of_same
    intro i n inside
    rw [loadAt_storeAt_apart cleared (.inl (by rw [tcpCksum]; omega)),
      encodePayload_behind nonneg copied (by omega)]
  have summed := frame₃.cksum (K := K) (by omega) (by omega)
  generalize K.udptcp _ _ _ _ _ = cksum at summed
  obtain ⟨pkt, stored⟩ : ∃ pkt, storeAt h₃ tcpCksum (bytesOf 2 cksum.toNat) = .ok pkt :=
    ⟨_, storeAt_eq (by rw [bytesOf_length, tcpCksum]; omega)⟩
  refine ⟨pkt, ?_⟩
  simp only [ngEncodeTcpApppkt, headers, ran, copied, cleared, summed, ok_bind]
  exact stored

/-- The window is read in the other byte order than it was stored in. -/
theorem Tells.window (nonneg : 0 ≤ fragment.optlen)
    (encoded : ngEncodeTcpApppkt K msg sip dip srcmac dstmac fragment = .ok pkt)
    (tells : Tells fragment pkt) : ntohs fragment.windows = fragment.windows := by
  have read := tells.rxWin
  rw [(ngEncodeTcpApppkt_encoded nonneg encoded).rxWin] at read
  exact Except.ok.inj read

/-- The packet tells what the fragment does exactly where the fragment can be told. -/
theorem tells_iff (K : Cksums) (msg : List UInt8) (sip dip : UInt32) (srcmac dstmac : Mac)
    (nonneg : 0 ≤ fragment.optlen) (few : fragment.optlen ≤ 10) :
    (∃ pkt, ngEncodeTcpApppkt K msg sip dip srcmac dstmac fragment = .ok pkt ∧
      Tells fragment pkt) ↔ Tellable fragment msg := by
  have number := totalLen_toNat nonneg few
  constructor
  · rintro ⟨pkt, encoded, tells⟩
    obtain ⟨total, read, exact_⟩ := tells.totalLength
    have short := total.toNat_lt
    obtain ⟨fits, held⟩ := ngEncodeTcpApppkt_fits nonneg few (by omega) encoded
    exact ⟨tells.window nonneg encoded, by omega, fits, held⟩
  · intro tellable
    obtain ⟨pkt, encoded⟩ := ngEncodeTcpApppkt_tellable K sip dip srcmac dstmac nonneg few tellable
    obtain ⟨sentSeq, recvAck, window, totalLength⟩ := ngEncodeTcpApppkt_encoded nonneg encoded
    refine ⟨pkt, encoded, ?_, ?_, ?_, _, by rw [totalLength]; rfl, ?_⟩
    · rw [sentSeq]
      exact congrArg Except.ok (ntohl_ntohl fragment.seqnum)
    · rw [recvAck]
      exact congrArg Except.ok (ntohl_ntohl fragment.acknum)
    · rw [window]
      exact congrArg Except.ok tellable.window
    · have short := tellable.short
      rw [ntohs_ntohs, number]
      omega

/-- The window of the stack has two different bytes. -/
theorem Tells.not_initial (nonneg : 0 ≤ fragment.optlen)
    (window : fragment.windows = tcpInitialWindow)
    (encoded : ngEncodeTcpApppkt K msg sip dip srcmac dstmac fragment = .ok pkt) :
    ¬ Tells fragment pkt := by
  intro tells
  have turned := tells.window nonneg encoded
  rw [window] at turned
  exact absurd turned (by decide)

/-- No packet tells what a fragment does that one of the four calls puts on a ring. -/
theorem Producer.tells_nothing {p : Producer} {stream : Stream} {A B : Allocator}
    {rings : List (Option (Ring Fragment))} {ring : Ring Fragment}
    (ran : p.sndbufs stream A = .ok (rings, B)) (made : some ring ∈ rings)
    (waits : fragment ∈ ring.entries) (new : fragment ∉ p.waiting stream)
    (nonneg : 0 ≤ fragment.optlen)
    (encoded : ngEncodeTcpApppkt K msg sip dip srcmac dstmac fragment = .ok pkt) :
    ¬ Tells fragment pkt := by
  have announces := (p.sndbufs_windows stream A).of_ok rings B ran (some ring) made
  rcases announces ring rfl fragment waits with old | window
  · exact absurd old new
  · exact Tells.not_initial nonneg window encoded

end Reads

/-- A fragment with five bytes and a window of two equal bytes. -/
def fiveBytesWindow : Fragment := { fiveBytes with windows := 0x1414 }

theorem tells_iff_five :
    ∃ pkt, ngEncodeTcpApppkt internetSums (List.replicate 60 0) 2 4 #v[1, 2, 3, 4, 5, 6]
      #v[6, 5, 4, 3, 2, 1] fiveBytesWindow = .ok pkt ∧ Tells fiveBytesWindow pkt := by
  refine (tells_iff internetSums (List.replicate 60 0) 2 4 #v[1, 2, 3, 4, 5, 6]
    #v[6, 5, 4, 3, 2, 1] (by decide) (by decide)).mpr ⟨by decide, by decide, by decide, ?_⟩
  intro data present
  cases present
  decide

/-- A fragment of `nsend` with five bytes. -/
theorem tells_not_five :
    ¬ ∃ pkt, ngEncodeTcpApppkt internetSums (List.replicate 60 0) 2 4 #v[1, 2, 3, 4, 5, 6]
      #v[6, 5, 4, 3, 2, 1] fiveBytes = .ok pkt ∧ Tells fiveBytes pkt := by
  rintro ⟨pkt, encoded, tells⟩
  exact Tells.not_initial (by decide) rfl encoded tells

end LinuxCpp.Ustack
