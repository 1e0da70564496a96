import LinuxCpp.Ustack.Udp

set_option autoImplicit false

/- What `ng_udp_pkt` reads of its data and writes to its packet. The packet has the 42
bytes of the headers and the payload; the encoder copies 8 bytes more than the payload
has, unless the sum of the lengths is too large for 16 bits. -/
namespace LinuxCpp.Ustack

open C

section Bounds

variable {room data : List UInt8} {length : UInt16}

/-- The length of the datagram in the header of IPv4, and of the copy. -/
theorem udp_total (length : UInt16) :
    (UInt16.ofNat (length.toNat + 42) - 14).toNat = (length.toNat + 28) % 65536 ∧
    (UInt16.ofNat (length.toNat + 42) - 14 - 20).toNat = (length.toNat + 8) % 65536 := by
  simp only [UInt16.toNat_sub, UInt16.toNat_ofNat', UInt16.reduceToNat]
  omega

/-- The headers in a packet that has room for them, and what is behind them. -/
theorem udp_encoded (K : Cksums) (srcmac dstmac : Mac) (sip dip : UInt32)
    (sport dport total udplen : UInt16) (wide : 42 ≤ room.length) :
    ∃ msg₀ msg₁, encodeIpv4 K room srcmac dstmac ipprotoUdp total sip dip = .ok msg₀ ∧
      storeAll msg₀ (udpWrites sport dport udplen) = .ok msg₁ ∧ msg₁.length = room.length ∧
      Ipv4Frame ipprotoUdp total sip dip msg₁ ∧
      ∀ i n, 42 ≤ i → loadAt msg₁ i n = loadAt room i n := by
  obtain ⟨msg₀, encoded, length₀, headers⟩ :=
    encodeIpv4_ok K srcmac dstmac ipprotoUdp total sip dip (show 34 ≤ room.length by omega)
  obtain ⟨msg₁, ran, length₁⟩ : ∃ msg₁, storeAll msg₀ (udpWrites sport dport udplen) = .ok msg₁ ∧
      msg₁.length = msg₀.length := by
    apply storeAll_inside
    simp [udpWrites]
    omega
  refine ⟨msg₀, msg₁, encoded, ran, by omega, headers.behind ran (by simp [udpWrites]), ?_⟩
  intro i n behind
  rw [loadAt_storeAll_apart ran, encodeIpv4_behind encoded (by omega)]
  simp [udpWrites]
  omega

/-- The copy goes beyond the data. -/
theorem ngUdpPkt_short (K : Cksums) (sip dip : UInt32) (sport dport : UInt16)
    (srcmac dstmac : Mac) (sized : data.length = length.toNat)
    (whole : room.length = length.toNat + 42) (short : length.toNat < 65528) :
    ngUdpPkt K room sip dip sport dport srcmac dstmac data length = .error .outOfBounds := by
  obtain ⟨msg₀, msg₁, encoded, ran, -⟩ := udp_encoded K srcmac dstmac sip dip sport dport
    (.ofNat (length.toNat + 42) - 14) (.ofNat (length.toNat + 42) - 14 - 20)
    (show 42 ≤ room.length by omega)
  have copied : loadAt data 0 (UInt16.ofNat (length.toNat + 42) - 14 - 20).toNat =
      .error .outOfBounds := by
    apply loadAt_beyond
    rw [(udp_total length).2]
    omega
  simp only [ngUdpPkt, ngEncodeUdpApppkt, encoded, ran, copied, ok_bind]
  rfl

/-- Where the lengths wrap around, some of the payload is copied and nothing else. -/
theorem ngUdpPkt_wrapped (K : Cksums) (sip dip : UInt32) (sport dport : UInt16)
    (srcmac dstmac : Mac) (sized : data.length = length.toNat)
    (whole : room.length = length.toNat + 42) {k : Nat} (long : length.toNat = k + 65528) :
    ∃ pkt, ngUdpPkt K room sip dip sport dport srcmac dstmac data length = .ok pkt ∧
      pkt.drop 42 = data.take k ++ room.drop (42 + k) := by
  have small := length.toNat_lt
  obtain ⟨total, udplen⟩ := udp_total length
  have few : (length.toNat + 8) % 65536 = k := by omega
  rw [few] at udplen
  obtain ⟨msg₀, msg₁, encoded, ran, length₁, headers, rest⟩ := udp_encoded K srcmac dstmac sip dip
    sport dport (.ofNat (length.toNat + 42) - 14) (.ofNat (length.toNat + 42) - 14 - 20)
    (show 42 ≤ room.length by omega)
  generalize defined : UInt16.ofNat (length.toNat + 42) - 14 = n at total udplen encoded ran headers
  have copied : loadAt data 0 (n - 20).toNat = .ok (data.take k) := by
    rw [udplen, loadAt_eq (by omega), List.drop_zero]
  have size : (data.take k).length = k :=
    List.length_take_of_le (by omega)
  generalize data.take k = bytes at copied size
  obtain ⟨msg₂, stored⟩ : ∃ msg₂, storeAt msg₁ udpPayload bytes = .ok msg₂ :=
    ⟨_, storeAt_eq (by rw [udpPayload]; omega)⟩
  have length₂ := storeAt_length stored
  have headers₂ := headers.behindOne stored (by decide)
  obtain ⟨pkt, closed, length₃, outside⟩ :=
    udp_cksum K headers₂ (by omega) (by omega) (by omega)
  have same {i k : Nat} (behind : 42 ≤ i) : loadAt pkt i k = loadAt msg₂ i k :=
    outside i k (.inr behind)
  have front : loadAt pkt 42 k = .ok bytes := by
    rw [same (Nat.le_refl 42), ← size]
    exact loadAt_storeAt stored
  have back : loadAt pkt (42 + k) (room.length - (42 + k)) =
      loadAt room (42 + k) (room.length - (42 + k)) := by
    rw [same (Nat.le_add_right _ _), loadAt_storeAt_apart stored (.inr (by rw [size, udpPayload])),
      rest _ _ (by omega)]
  refine ⟨pkt, ?_, ?_⟩
  · have all : loadAt pkt 0 (length.toNat + 42) = .ok pkt := by
      rw [loadAt_eq (by omega), List.drop_zero, List.take_of_length_le (by omega)]
    simp only [ngUdpPkt, ngEncodeUdpApppkt, defined, encoded, ran, copied, stored, closed, ok_bind]
    exact all
  · have same_length : pkt.length = room.length := by omega
    have inside : 42 + k ≤ room.length := by omega
    rw [loadAt_drop inside, ← same_length, loadAt_drop (same_length ▸ inside)] at back
    rw [drop_eq_append front, Except.ok.inj back]

/-- The packet is built inside its buffers with the payload in it only where the lengths
wrap around and the buffer held the rest of the payload before. -/
theorem ngUdpPkt_exact_iff (K : Cksums) (sip dip : UInt32) (sport dport : UInt16)
    (srcmac dstmac : Mac) (sized : data.length = length.toNat)
    (whole : room.length = length.toNat + 42) :
    (∃ pkt, ngUdpPkt K room sip dip sport dport srcmac dstmac data length = .ok pkt ∧
      pkt.drop 42 = data) ↔
    65528 ≤ length.toNat ∧
      room.drop (42 + (length.toNat - 65528)) = data.drop (length.toNat - 65528) := by
  rcases Nat.lt_or_ge length.toNat 65528 with short | long
  · rw [ngUdpPkt_short K sip dip sport dport srcmac dstmac sized whole short]
    constructor
    · rintro ⟨pkt, built, -⟩
      cases built
    · rintro ⟨long, -⟩
      omega
  · obtain ⟨k, exact_⟩ := Nat.exists_eq_add_of_le' long
    have few : length.toNat - 65528 = k := by omega
    have parts := List.take_append_drop k data
    obtain ⟨pkt, built, content⟩ :=
      ngUdpPkt_wrapped K sip dip sport dport srcmac dstmac sized whole exact_
    rw [few]
    constructor
    · rintro ⟨pkt', built', payload⟩
      rw [built] at built'
      cases built'
      rw [content] at payload
      exact ⟨long, List.append_cancel_left (payload.trans parts.symm)⟩
    · rintro ⟨-, rest⟩
      exact ⟨pkt, built, by rw [content, rest, parts]⟩

theorem ngUdpPkt_exact_iff_one :
    (∃ pkt, ngUdpPkt internetSums (List.replicate 43 0) 2 4 3 1 #v[1, 2, 3, 4, 5, 6]
      #v[6, 5, 4, 3, 2, 1] [7] 1 = .ok pkt ∧ pkt.drop 42 = [7]) ↔
    65528 ≤ (1 : UInt16).toNat ∧
      (List.replicate 43 (0 : UInt8)).drop (42 + ((1 : UInt16).toNat - 65528)) =
        [7].drop ((1 : UInt16).toNat - 65528) :=
  ngUdpPkt_exact_iff internetSums 2 4 3 1 #v[1, 2, 3, 4, 5, 6] #v[6, 5, 4, 3, 2, 1] rfl rfl

/-- One byte of payload. -/
theorem ngUdpPkt_one :
    ¬ ∃ pkt, ngUdpPkt internetSums (List.replicate 43 0) 2 4 3 1 #v[1, 2, 3, 4, 5, 6]
      #v[6, 5, 4, 3, 2, 1] [7] 1 = .ok pkt ∧ pkt.drop 42 = [7] := by
  rintro ⟨pkt, built, -⟩
  cases built

end Bounds

end LinuxCpp.Ustack
