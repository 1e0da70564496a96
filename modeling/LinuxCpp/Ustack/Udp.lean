import LinuxCpp.Ustack.PktProcess

set_option autoImplicit false

/- The way of a datagram through ustack/tcp.c: `nsendto`, `udp_out`, `udp_process` and
`nrecvfrom`. The length of an offload is that of the payload when it is sent and that of
the datagram when it is received. -/
namespace LinuxCpp.Ustack

open C

@[simp] def udpDgramCksum : Nat := 40

/-- The room for data in a buffer of the pool. -/
def mbufRoom : Nat := 2048

/-- The assignments of `ng_encode_udp_apppkt` to the header of UDP. -/
def udpWrites (sport dport udplen : UInt16) : List (Nat × List UInt8) := [
  (udpSrcPort, bytesOf 2 sport.toNat),
  (udpDstPort, bytesOf 2 dport.toNat),
  (udpDgramLen, bytesOf 2 (ntohs udplen).toNat)]

def ngEncodeUdpApppkt (K : Cksums) (msg : List UInt8) (sip dip : UInt32) (sport dport : UInt16)
    (srcmac dstmac : Mac) (data : List UInt8) (totalLen : UInt16) :
    Except Fault (List UInt8) := do
  let msg ← encodeIpv4 K msg srcmac dstmac ipprotoUdp (totalLen - 14) sip dip
  let udplen := totalLen - 14 - 20
  let msg ← storeAll msg (udpWrites sport dport udplen)
  let bytes ← loadAt data 0 udplen.toNat
  let msg ← storeAt msg udpPayload bytes
  let msg ← storeAt msg udpDgramCksum (bytesOf 2 0)
  let cksum ← rteIpv4UdptcpCksum K msg
  storeAt msg udpDgramCksum (bytesOf 2 cksum.toNat)

/-- The frame in the new buffer, which had `room` in it before. -/
def ngUdpPkt (K : Cksums) (room : List UInt8) (sip dip : UInt32) (sport dport : UInt16)
    (srcmac dstmac : Mac) (data : List UInt8) (length : UInt16) :
    Except Fault (List UInt8) := do
  let totalLen := length.toNat + 42
  let msg ← ngEncodeUdpApppkt K room sip dip sport dport srcmac dstmac data (.ofNat totalLen)
  loadAt msg 0 totalLen

/-- The packet that `udp_out` builds for an offload. -/
def udpOutPkt (K : Cksums) (behind : Offload → List UInt8) (room : List UInt8)
    (localmac dstmac : Mac) (ol : Offload) : Except Fault (List UInt8) :=
  ngUdpPkt K room ol.sip ol.dip ol.sport ol.dport localmac dstmac (ol.data ++ behind ol) ol.length

/-- What a pass over a host puts on `ring->out`. -/
inductive UdpOut where
  | nothing
  | arpRequest (sip dip : UInt32)
  | frame (bytes : List UInt8)
deriving DecidableEq, Repr

/-- The body of the loop of `udp_out`. The offload is not freed. -/
def udpOutHost (K : Cksums) (behind : Offload → List UInt8) (room : List UInt8) (localmac : Mac)
    (entries : List ArpEntry) (host : Host) : Except Fault (UdpOut × Host) :=
  match host.sndbuf.entries with
  | [] => return (.nothing, host)
  | ol :: waiting =>
      let sndbuf := { host.sndbuf with entries := waiting }
      match ngGetDstMacaddr entries ol.dip with
      | none => return (.arpRequest ol.sip ol.dip, { host with sndbuf := sndbuf.enqueue ol })
      | some dstmac => do
          let frame ← udpOutPkt K behind room localmac dstmac ol
          return (.frame frame, { host with sndbuf := sndbuf })

/-- With the address of the peer known, the first offload leaves as its packet. -/
theorem udpOutHost_resolved {K : Cksums} {behind : Offload → List UInt8} {room : List UInt8}
    {localmac dstmac : Mac} {entries : List ArpEntry} {host : Host} {ol : Offload}
    {waiting : List Offload} (first : host.sndbuf.entries = ol :: waiting)
    (known : ngGetDstMacaddr entries ol.dip = some dstmac) :
    udpOutHost K behind room localmac entries host =
      (udpOutPkt K behind room localmac dstmac ol).map fun frame =>
        (.frame frame, { host with sndbuf := { host.sndbuf with entries := waiting } }) := by
  simp only [udpOutHost, first, known]
  cases udpOutPkt K behind room localmac dstmac ol <;> rfl

/-- The call hands out the first offload of the ring. -/
theorem nrecvfrom_first {behind : Offload → List UInt8} {w : World} {fd : Int} {host : Host}
    {ol : Offload} {waiting : List Offload} {len : Nat} {A B : Allocator} {got : Datagram}
    (named : getHostinfoFromfd w fd = some (.host host))
    (first : host.rcvbuf.entries = ol :: waiting)
    (ran : recvOffload behind ol len A = .ok (got, B)) :
    ∃ w', nrecvfrom behind w fd len A = .ok (some (got.ret, some got, w'), B) := by
  simp only [nrecvfrom, named, first]
  rw [bind_ok ran]
  exact ⟨_, rfl⟩

/-- The offload that `nsendto` queues, and the one that `udp_process` makes of its packet. -/
def Host.offload (h : Host) (buf : List UInt8) (dip : UInt32) (dport : UInt16) : Offload :=
  ⟨h.localip, dip, h.localport, dport, buf, .ofNat buf.length⟩

def Offload.received (ol : Offload) : Offload := { ol with length := ol.length + 8 }

section Send

variable {w : World} {h : Host} {fd : Int} {buf : List UInt8} (dip : UInt32) (dport : UInt16)
  {A : Allocator}

theorem nsendto_queued (named : getHostinfoFromfd w fd = some (.host h)) (some_ : buf ≠ [])
    (first : A.grants A.calls = true) (second : A.grants (A.calls + 1) = true) :
    nsendto w fd buf dip dport A = .ok ((buf.length, w.putHost { h with
      sndbuf := h.sndbuf.enqueue (h.offload buf dip dport) }), A.next.next) := by
  have size : buf.length ≠ 0 := fun none_ => some_ (List.eq_nil_of_length_eq_zero none_)
  simp only [nsendto, named]
  rw [bind_ok (malloc_granted first)]
  simp only
  rw [rteMalloc_some size, bind_ok (malloc_granted (by exact second))]
  rfl

theorem nsendto_refused (named : getHostinfoFromfd w fd = some (.host h)) (some_ : buf ≠ [])
    (refused : ¬ (A.grants A.calls = true ∧ A.grants (A.calls + 1) = true)) :
    ∃ B, nsendto w fd buf dip dport A = .ok ((-1, w), B) := by
  have size : buf.length ≠ 0 := fun none_ => some_ (List.eq_nil_of_length_eq_zero none_)
  simp only [nsendto, named]
  cases first : A.grants A.calls with
  | false =>
      rw [bind_ok (malloc_refused first)]
      exact ⟨_, rfl⟩
  | true =>
      have second : A.grants (A.calls + 1) = false := by simpa [first] using refused
      rw [bind_ok (malloc_granted first)]
      simp only
      rw [rteMalloc_some size, bind_ok (malloc_refused (by exact second))]
      exact ⟨_, rfl⟩

end Send

section Packet

variable {behind : Offload → List UInt8} {room : List UInt8} {ol : Offload}

/-- What a frame with a datagram says. -/
structure UdpFrame (ol : Offload) (frame : List UInt8) : Prop where
  headers : Ipv4Frame ipprotoUdp (.ofNat (ol.data.length + 28)) ol.sip ol.dip frame
  srcPort : load16 frame udpSrcPort = .ok ol.sport
  dstPort : load16 frame udpDstPort = .ok ol.dport
  dgramLen : load16 frame udpDgramLen = .ok (ntohs (ol.length + 8))
  payload : loadAt frame udpPayload ol.data.length = .ok ol.data

/-- The lengths that `ng_udp_pkt` computes. -/
theorem udp_lengths (length : ol.length = .ofNat ol.data.length)
    (bound : ol.data.length ≤ 1472) :
    ol.length.toNat = ol.data.length ∧
    UInt16.ofNat (ol.data.length + 42) - 14 = .ofNat (ol.data.length + 28) ∧
    UInt16.ofNat (ol.data.length + 28) - 20 = ol.length + 8 ∧
    (ol.length + 8).toNat = ol.data.length + 8 := by
  have size : ol.length.toNat = ol.data.length := by
    rw [length, UInt16.toNat_ofNat', Nat.mod_eq_of_lt (by omega)]
  refine ⟨size, ?_, ?_, ?_⟩
  · rw [← UInt16.toNat_inj, UInt16.toNat_sub, UInt16.toNat_ofNat', UInt16.toNat_ofNat']
    simp only [UInt16.reduceToNat]
    omega
  · rw [← UInt16.toNat_inj, UInt16.toNat_sub, UInt16.toNat_ofNat', UInt16.toNat_add]
    simp only [UInt16.reduceToNat]
    omega
  · rw [UInt16.toNat_add]
    simp only [UInt16.reduceToNat]
    omega

/-- The headers of a packet, before the payload is copied. -/
structure Headed (total udplen : UInt16) (ol : Offload) (msg : List UInt8) : Prop where
  length : msg.length = mbufRoom
  headers : Ipv4Frame ipprotoUdp total ol.sip ol.dip msg
  srcPort : load16 msg udpSrcPort = .ok ol.sport
  dstPort : load16 msg udpDstPort = .ok ol.dport
  dgramLen : load16 msg udpDgramLen = .ok (ntohs udplen)

theorem udp_headers (K : Cksums) (localmac dstmac : Mac) (total udplen : UInt16) (ol : Offload)
    (whole : room.length = mbufRoom) :
    ∃ msg₀ msg₁, encodeIpv4 K room localmac dstmac ipprotoUdp total ol.sip ol.dip = .ok msg₀ ∧
      storeAll msg₀ (udpWrites ol.sport ol.dport udplen) = .ok msg₁ ∧
      Headed total udplen ol msg₁ := by
  have wide : 34 ≤ room.length := by
    rw [whole]
    decide
  obtain ⟨msg₀, encoded, length₀, headers⟩ :=
    encodeIpv4_ok K localmac dstmac ipprotoUdp total ol.sip ol.dip wide
  have inside : ∀ write ∈ udpWrites ol.sport ol.dport udplen,
      write.1 + write.2.length ≤ msg₀.length := by
    rw [length₀, whole]
    simp [udpWrites, mbufRoom]
  obtain ⟨msg₁, ran, length₁⟩ := storeAll_inside inside
  refine ⟨msg₀, msg₁, encoded, ran, ?_⟩
  constructor
  · rw [length₁, length₀, whole]
  · exact headers.behind ran (by simp [udpWrites])
  · apply load16_eq
    exact loadAt_storeAll (k := 0) ran rfl (by simp [udpWrites])
  · apply load16_eq
    exact loadAt_storeAll (k := 1) ran rfl (by simp [udpWrites])
  · apply load16_eq
    exact loadAt_storeAll (k := 2) ran rfl (by simp [udpWrites])

/-- Eight bytes behind the payload are read as well. -/
theorem udpOutPkt_short (K : Cksums) (localmac dstmac : Mac)
    (length : ol.length = .ofNat ol.data.length)
    (bound : ol.data.length ≤ 1472) (whole : room.length = mbufRoom)
    (short : (behind ol).length < 8) :
    udpOutPkt K behind room localmac dstmac ol = .error .outOfBounds := by
  obtain ⟨size, total, udplen, dgram⟩ := udp_lengths length bound
  obtain ⟨msg₀, msg₁, encoded, ran, -⟩ := udp_headers K localmac dstmac
    (.ofNat (ol.data.length + 28)) (ol.length + 8) ol whole
  have copied : loadAt (ol.data ++ behind ol) 0 (ol.length + 8).toNat = .error .outOfBounds := by
    apply loadAt_beyond
    rw [dgram, List.length_append]
    omega
  simp only [udpOutPkt, ngUdpPkt, ngEncodeUdpApppkt, size, udplen, total, encoded, ran, ok_bind,
    copied]
  rfl

/-- The checksum goes into a packet last, and the rest of the packet stays. -/
theorem udp_cksum (K : Cksums) {msg : List UInt8} {total : UInt16} {sip dip : UInt32}
    (headers : Ipv4Frame ipprotoUdp total sip dip msg) (long : 20 ≤ total.toNat)
    (inside : 14 + total.toNat ≤ msg.length) (wide : 42 ≤ msg.length) :
    ∃ pkt, (do
        let msg ← storeAt msg udpDgramCksum (bytesOf 2 0)
        let cksum ← rteIpv4UdptcpCksum K msg
        storeAt msg udpDgramCksum (bytesOf 2 cksum.toNat)) = .ok pkt ∧
      pkt.length = msg.length ∧
      ∀ i n, i + n ≤ 40 ∨ 42 ≤ i → loadAt pkt i n = loadAt msg i n := by
  obtain ⟨msg₁, cleared⟩ : ∃ msg₁, storeAt msg udpDgramCksum (bytesOf 2 0) = .ok msg₁ := by
    refine ⟨_, storeAt_eq ?_⟩
    rw [bytesOf_length, udpDgramCksum]
    omega
  have length₁ := storeAt_length cleared
  have headers₁ := headers.behindOne cleared (by decide)
  have summed := headers₁.cksum (K := K) long (by omega)
  generalize K.udptcp _ _ _ _ _ = c at summed
  obtain ⟨pkt, closed⟩ : ∃ pkt, storeAt msg₁ udpDgramCksum (bytesOf 2 c.toNat) = .ok pkt := by
    refine ⟨_, storeAt_eq ?_⟩
    rw [bytesOf_length, udpDgramCksum]
    omega
  refine ⟨pkt, ?_, (storeAt_length closed).trans length₁, fun i n apart => ?_⟩
  · simp only [cleared, summed, closed, ok_bind]
  · rw [loadAt_storeAt_apart closed (by simpa using apart),
      loadAt_storeAt_apart cleared (by simpa using apart)]

/-- The payload and what is behind it, cut off at the length of the packet. -/
theorem udpOutPkt_frame (K : Cksums) (localmac dstmac : Mac)
    (length : ol.length = .ofNat ol.data.length)
    (bound : ol.data.length ≤ 1472) (whole : room.length = mbufRoom)
    (readable : 8 ≤ (behind ol).length) :
    ∃ frame, udpOutPkt K behind room localmac dstmac ol = .ok frame ∧
      frame.length = ol.data.length + 42 ∧ UdpFrame ol frame := by
  obtain ⟨size, total, udplen, dgram⟩ := udp_lengths length bound
  obtain ⟨msg₀, msg₁, encoded, ran, wide, headers, srcPort, dstPort, dgramLen⟩ :=
    udp_headers K localmac dstmac (.ofNat (ol.data.length + 28)) (ol.length + 8) ol whole
  have copied : loadAt (ol.data ++ behind ol) 0 (ol.length + 8).toNat =
      .ok (ol.data ++ (behind ol).take 8) := by
    rw [dgram, loadAt_eq (by rw [List.length_append]; omega), List.drop_zero, List.take_append,
      List.take_of_length_le (by omega), Nat.add_sub_cancel_left]
  have size' : (ol.data ++ (behind ol).take 8).length = ol.data.length + 8 := by
    rw [List.length_append, List.length_take_of_le readable]
  obtain ⟨msg₂, stored⟩ : ∃ msg₂, storeAt msg₁ udpPayload (ol.data ++ (behind ol).take 8) =
      .ok msg₂ := by
    refine ⟨_, storeAt_eq ?_⟩
    rw [size', udpPayload, wide, mbufRoom]
    omega
  have headers₂ := headers.behindOne stored (by decide)
  have long : (UInt16.ofNat (ol.data.length + 28)).toNat = ol.data.length + 28 := by
    rw [UInt16.toNat_ofNat', Nat.mod_eq_of_lt (by omega)]
  have length₂ : msg₂.length = 2048 := (storeAt_length stored).trans wide
  obtain ⟨pkt, closed, sized, outside⟩ :=
    udp_cksum K headers₂ (by omega) (by omega) (by omega)
  obtain ⟨frame, front⟩ : ∃ frame, loadAt pkt 0 (ol.data.length + 42) = .ok frame :=
    ⟨_, loadAt_eq (by omega)⟩
  -- the checksum stands between the headers and the payload
  have before {i n : Nat} (inside : i + n ≤ 40) : loadAt frame i n = loadAt msg₁ i n := by
    rw [loadAt_front front (by omega), outside i n (.inl inside)]
    refine loadAt_storeAt_apart stored (.inl ?_)
    rw [udpPayload]
    omega
  refine ⟨frame, ?_, ?_, ?_⟩
  · simp only [udpOutPkt, ngUdpPkt, ngEncodeUdpApppkt, total, udplen, encoded, ran, ok_bind,
      copied, stored, size, closed]
    exact front
  · obtain ⟨inside, rfl⟩ := loadAt_ok front
    rw [List.drop_zero]
    exact List.length_take_of_le (by omega)
  constructor
  · exact headers.of_same fun i n inside => before (by omega)
  · rwa [load16, before (by decide)]
  · rwa [load16, before (by decide)]
  · rwa [load16, before (by decide)]
  · have both := loadAt_storeAt stored
    rw [size'] at both
    rw [loadAt_front front (by rw [udpPayload]; omega), outside _ _ (.inr (by decide)),
      loadAt_part both (Nat.le_add_right _ 8), List.take_left' rfl]

end Packet

section Receive

variable {w : World} {h : Host} {ol : Offload} {frame : List UInt8} {A : Allocator}

theorem udpDataLen_received (length : ol.length = .ofNat ol.data.length)
    (bound : ol.data.length ≤ 1472) : udpDataLen (ol.length + 8) = ol.data.length := by
  obtain ⟨-, -, -, dgram⟩ := udp_lengths length bound
  rw [udpDataLen, UInt64.toNat_sub, UInt16.toNat_toUInt64, dgram]
  simp only [UInt64.reduceToNat]
  omega

/-- A frame for a bound port, with the memory granted. -/
theorem udpProcess_received (holds : UdpFrame ol frame) (length : ol.length = .ofNat ol.data.length)
    (bound : ol.data.length ≤ 1472) (some_ : ol.data ≠ [])
    (host : getHostinfoFromipPort w ol.dip ol.dport ipprotoUdp = some h)
    (first : A.grants A.calls = true) (second : A.grants (A.calls + 1) = true) :
    ∃ m, udpProcess w (.fresh frame) A = .ok (((0, w.putHost { h with
      rcvbuf := h.rcvbuf.enqueue ol.received }), m), A.next.next) := by
  obtain ⟨headers, srcPort, dstPort, dgramLen, payload⟩ := holds
  have size := udpDataLen_received length bound
  have positive : ol.data.length ≠ 0 := fun none_ => some_ (List.eq_nil_of_length_eq_zero none_)
  unfold udpProcess
  rw [read32_run (by exact headers.srcAddr), read16_run (by exact srcPort),
    read32_run (by exact headers.dstAddr), read16_run (by exact dstPort),
    read8_run (by exact headers.nextProtoId)]
  simp only [host]
  rw [lift_run (malloc_granted first)]
  simp only
  rw [read32_run (by exact headers.dstAddr), read32_run (by exact headers.srcAddr),
    read16_run (by exact srcPort), read16_run (by exact dstPort),
    read16_run (by exact dgramLen)]
  simp only [ntohs_ntohs, size]
  rw [rteMalloc_some positive, lift_run (malloc_granted (by exact second))]
  simp only
  rw [read_run (by exact payload)]
  exact ⟨_, rfl⟩

theorem udpProcess_refused (holds : UdpFrame ol frame) (length : ol.length = .ofNat ol.data.length)
    (bound : ol.data.length ≤ 1472) (some_ : ol.data ≠ [])
    (host : getHostinfoFromipPort w ol.dip ol.dport ipprotoUdp = some h)
    (refused : ¬ (A.grants A.calls = true ∧ A.grants (A.calls + 1) = true)) :
    ∃ ret m B, udpProcess w (.fresh frame) A = .ok (((ret, w), m), B) ∧ ret ≠ 0 := by
  obtain ⟨headers, srcPort, dstPort, dgramLen, payload⟩ := holds
  have size := udpDataLen_received length bound
  have positive : ol.data.length ≠ 0 := fun none_ => some_ (List.eq_nil_of_length_eq_zero none_)
  unfold udpProcess
  rw [read32_run (by exact headers.srcAddr), read16_run (by exact srcPort),
    read32_run (by exact headers.dstAddr), read16_run (by exact dstPort),
    read8_run (by exact headers.nextProtoId)]
  simp only [host]
  cases first : A.grants A.calls with
  | false =>
      rw [lift_run (malloc_refused first)]
      exact ⟨-1, _, _, rfl, by decide⟩
  | true =>
      have second : A.grants (A.calls + 1) = false := by simpa [first] using refused
      rw [lift_run (malloc_granted first)]
      simp only
      rw [read32_run (by exact headers.dstAddr), read32_run (by exact headers.srcAddr),
        read16_run (by exact srcPort), read16_run (by exact dstPort),
        read16_run (by exact dgramLen)]
      simp only [ntohs_ntohs, size]
      rw [rteMalloc_some positive, lift_run (malloc_refused (by exact second))]
      exact ⟨-2, _, _, rfl, by decide⟩

end Receive

section Read

variable (behind : Offload → List UInt8) {ol : Offload} {cap : Nat} {A : Allocator}

/-- A read of `cap` bytes and of the rest of the eight that count too much. -/
theorem recvOffload_shorter (length : ol.length.toNat = ol.data.length + 8)
    (fits : ol.data.length ≤ cap) (less : cap < ol.data.length + 8) :
    recvOffload behind ol cap A =
      (if cap ≤ (ol.data ++ behind ol).length then
        if A.grants A.calls then
          if 8 ≤ (behind ol).length then .ok (⟨cap, (ol.data ++ behind ol).take cap, ol.sport,
            ol.sip, some { ol with
              data := ((ol.data ++ behind ol).drop cap).take (ol.data.length + 8 - cap),
              length := ol.length - .ofNat cap }⟩, A.next)
          else .error .outOfBounds
        else .error .nullDeref
      else .error .outOfBounds) := by
  have size : ol.data.length + 8 - cap ≠ 0 := by omega
  unfold recvOffload
  rw [length, if_pos less]
  split
  · rename_i inside
    rw [lift_bind_ok (loadAt_eq (by omega)), rteMalloc_some size]
    cases granted : A.grants A.calls with
    | false =>
        rw [bind_ok (malloc_refused granted)]
        rfl
    | true =>
        rw [bind_ok (malloc_granted granted)]
        simp only [if_true]
        split
        · rename_i readable
          rw [lift_bind_ok (loadAt_eq (by rw [List.length_append]; omega))]
          rfl
        · rename_i short
          rw [lift_bind_error (loadAt_beyond (by rw [List.length_append]; omega))]
  · rename_i beyond
    rw [lift_bind_error (loadAt_beyond (by omega))]

/-- What is read is the payload alone only if the buffer ends with it. -/
theorem recvOffload_iff (length : ol.length.toNat = ol.data.length + 8)
    (fits : ol.data.length ≤ cap) :
    (∃ back B, recvOffload behind ol cap A =
      .ok (⟨ol.data.length, ol.data, ol.sport, ol.sip, back⟩, B)) ↔
      cap = ol.data.length ∧ 8 ≤ (behind ol).length ∧ A.grants A.calls = true := by
  by_cases less : cap < ol.data.length + 8
  · rw [recvOffload_shorter behind length fits less]
    constructor
    · rintro ⟨back, B, ran⟩
      split at ran
      · split at ran
        · split at ran
          · rename_i granted readable
            have same : (cap : Int) = ol.data.length := by
              have returned := congrArg (fun done => done.1.ret) (Except.ok.inj ran)
              exact returned
            exact ⟨by omega, readable, granted⟩
          · cases ran
        · cases ran
      · cases ran
    · rintro ⟨rfl, readable, granted⟩
      rw [if_pos (by rw [List.length_append]; omega), if_pos granted, if_pos readable,
        List.take_left' rfl]
      exact ⟨_, _, rfl⟩
  · constructor
    · rintro ⟨back, B, ran⟩
      unfold recvOffload at ran
      rw [length, if_neg less] at ran
      obtain ⟨bytes, B', -, threw⟩ := run_of_bind ran
      cases threw
    · rintro ⟨rfl, -, -⟩
      omega

end Read

section Trip

/-- A payload is queued by `nsendto`, made into a packet by `udp_out`, queued by
`udp_process` on the other side and read by `nrecvfrom`, with its length, its bytes, and
the port and address of the sender. -/
def UdpDelivers (K : Cksums) (behind behind' : Offload → List UInt8) (room : List UInt8)
    (localmac dstmac : Mac) (w w' : World) (fd : Int) (h h' : Host) (buf : List UInt8)
    (dip : UInt32) (dport : UInt16) (cap : Nat) (A B C : Allocator) : Prop :=
  ∃ ol ol' frame m back A' B' C',
    nsendto w fd buf dip dport A = .ok ((buf.length, w.putHost { h with
      sndbuf := { h.sndbuf with entries := h.sndbuf.entries ++ [ol] } }), A') ∧
    udpOutPkt K behind room localmac dstmac ol = .ok frame ∧
    udpProcess w' (.fresh frame) B = .ok (((0, w'.putHost { h' with
      rcvbuf := { h'.rcvbuf with entries := h'.rcvbuf.entries ++ [ol'] } }), m), B') ∧
    recvOffload behind' ol' cap C =
      .ok (⟨buf.length, buf, h.localport, h.localip, back⟩, C')

/-- The memory is granted and the rings have a place, eight bytes can be read behind the
payload on both sides, and the buffer of the reader is as long as the payload. -/
structure UdpKeeps (behind behind' : Offload → List UInt8) (h h' : Host) (buf : List UInt8)
    (dip : UInt32) (dport : UInt16) (cap : Nat) (A B C : Allocator) : Prop where
  queued : A.grants A.calls = true ∧ A.grants (A.calls + 1) = true
  place : h.sndbuf.entries.length < ringSize - 1
  readable : 8 ≤ (behind (h.offload buf dip dport)).length
  received : B.grants B.calls = true ∧ B.grants (B.calls + 1) = true
  place' : h'.rcvbuf.entries.length < ringSize - 1
  readable' : 8 ≤ (behind' (h.offload buf dip dport).received).length
  granted : C.grants C.calls = true
  exactly : cap = buf.length

variable {w : World} {h h' : Host}

theorem Host.offload_length (h : Host) (buf : List UInt8) (dip : UInt32) (dport : UInt16) :
    (h.offload buf dip dport).length = .ofNat (h.offload buf dip dport).data.length := rfl

theorem Host.received_length (h : Host) {buf : List UInt8} (dip : UInt32) (dport : UInt16)
    (small : buf.length ≤ 1472) :
    (h.offload buf dip dport).received.length.toNat = buf.length + 8 :=
  (udp_lengths (h.offload_length buf dip dport) small).2.2.2

/-- The host that is written can be told from the list. -/
theorem putHost_inj {x y : Host} (member : h ∈ w.lhost) (same : w.putHost x = w.putHost y)
    (block : x.addr = h.addr) (block' : y.addr = h.addr) : x = y := by
  have lists := congrArg World.lhost same
  have there := List.map_inj_left.mp lists h member
  rwa [if_pos block.symm, if_pos block'.symm] at there

theorem putHost_sndbuf {r r' : Ring Offload} (member : h ∈ w.lhost)
    (same : w.putHost { h with sndbuf := r } = w.putHost { h with sndbuf := r' }) : r = r' :=
  congrArg Host.sndbuf (putHost_inj member same rfl rfl)

theorem putHost_rcvbuf {r r' : Ring Offload} (member : h ∈ w.lhost)
    (same : w.putHost { h with rcvbuf := r } = w.putHost { h with rcvbuf := r' }) : r = r' :=
  congrArg Host.rcvbuf (putHost_inj member same rfl rfl)

theorem Ring.enqueue_appended {α : Type} {r : Ring α} {x y : α}
    (same : r.enqueue x = { r with entries := r.entries ++ [y] }) :
    r.entries.length < ringSize - 1 ∧ y = x := by
  unfold Ring.enqueue at same
  split at same
  · rename_i place
    have tails := List.append_cancel_left (congrArg Ring.entries same)
    cases tails
    exact ⟨place, rfl⟩
  · have entries := congrArg List.length (congrArg Ring.entries same)
    simp at entries

theorem mem_of_fromipPort {dip : UInt32} {dport : UInt16} {proto : UInt8}
    (bound : getHostinfoFromipPort w dip dport proto = some h) : h ∈ w.lhost :=
  List.mem_of_find?_eq_some bound

variable {K : Cksums} {behind behind' : Offload → List UInt8} {room : List UInt8}
  {localmac dstmac : Mac} {w' : World} {fd : Int} {buf : List UInt8} {dip : UInt32}
  {dport : UInt16} {cap : Nat} {A B C : Allocator}

theorem UdpDelivers.keeps (delivers : UdpDelivers K behind behind' room localmac dstmac w w' fd h
    h' buf dip dport cap A B C) (whole : room.length = mbufRoom)
    (named : getHostinfoFromfd w fd = some (.host h))
    (bound : getHostinfoFromipPort w' dip dport ipprotoUdp = some h')
    (positive : 1 ≤ buf.length) (small : buf.length ≤ 1472) (fits : buf.length ≤ cap) :
    UdpKeeps behind behind' h h' buf dip dport cap A B C := by
  have some_ : buf ≠ [] := List.length_pos_iff.mp positive
  have length := h.offload_length buf dip dport
  have dgram := h.received_length dip dport small
  obtain ⟨ol, ol', frame, m, back, A', B', C', sent, built, received, read⟩ := delivers
  have queued : A.grants A.calls = true ∧ A.grants (A.calls + 1) = true := by
    by_contra refused
    obtain ⟨A'', ran⟩ := nsendto_refused dip dport named some_ refused
    cases ran.symm.trans sent
  have ran := nsendto_queued dip dport named some_ queued.1 queued.2
  have ring : h.sndbuf.enqueue (h.offload buf dip dport) =
      { h.sndbuf with entries := h.sndbuf.entries ++ [ol] } :=
    putHost_sndbuf (hostinfo_host named).1
      (congrArg (fun done => done.1.2) (Except.ok.inj (ran.symm.trans sent)))
  obtain ⟨place, rfl⟩ := Ring.enqueue_appended ring
  have readable : 8 ≤ (behind (h.offload buf dip dport)).length := by
    by_contra short
    have failed := udpOutPkt_short K localmac dstmac length small whole (Nat.lt_of_not_le short)
    cases failed.symm.trans built
  obtain ⟨frame', built', -, holds⟩ :=
    udpOutPkt_frame K localmac dstmac length small whole readable
  cases built'.symm.trans built
  have taken : B.grants B.calls = true ∧ B.grants (B.calls + 1) = true := by
    by_contra refused
    obtain ⟨ret, m', B'', ran', failed⟩ :=
      udpProcess_refused holds length small some_ bound refused
    exact failed (congrArg (fun done => done.1.1.1) (Except.ok.inj (ran'.symm.trans received)))
  obtain ⟨m', ran'⟩ := udpProcess_received holds length small some_ bound taken.1 taken.2
  have ring' : h'.rcvbuf.enqueue (h.offload buf dip dport).received =
      { h'.rcvbuf with entries := h'.rcvbuf.entries ++ [ol'] } :=
    putHost_rcvbuf (mem_of_fromipPort bound)
      (congrArg (fun done => done.1.1.2) (Except.ok.inj (ran'.symm.trans received)))
  obtain ⟨place', rfl⟩ := Ring.enqueue_appended ring'
  obtain ⟨exactly, readable', granted⟩ :=
    (recvOffload_iff behind' (A := C) dgram fits).mp ⟨back, C', read⟩
  exact ⟨queued, place, readable, taken, place', readable', granted, exactly⟩

/-- The four steps, one by one. -/
theorem UdpKeeps.way (K : Cksums) (localmac dstmac : Mac)
    (keeps : UdpKeeps behind behind' h h' buf dip dport cap A B C) (whole : room.length = mbufRoom)
    (named : getHostinfoFromfd w fd = some (.host h))
    (bound : getHostinfoFromipPort w' dip dport ipprotoUdp = some h')
    (positive : 1 ≤ buf.length) (small : buf.length ≤ 1472) (fits : buf.length ≤ cap) :
    ∃ frame m back A' B' C',
      nsendto w fd buf dip dport A = .ok ((buf.length, w.putHost { h with
        sndbuf := h.sndbuf.enqueue (h.offload buf dip dport) }), A') ∧
      udpOutPkt K behind room localmac dstmac (h.offload buf dip dport) = .ok frame ∧
      udpProcess w' (.fresh frame) B = .ok (((0, w'.putHost { h' with
        rcvbuf := h'.rcvbuf.enqueue (h.offload buf dip dport).received }), m), B') ∧
      recvOffload behind' (h.offload buf dip dport).received cap C =
        .ok (⟨buf.length, buf, h.localport, h.localip, back⟩, C') := by
  obtain ⟨queued, -, readable, taken, -, readable', granted, exactly⟩ := keeps
  have some_ : buf ≠ [] := List.length_pos_iff.mp positive
  have length := h.offload_length buf dip dport
  have dgram := h.received_length dip dport small
  obtain ⟨frame, built, -, holds⟩ :=
    udpOutPkt_frame K localmac dstmac length small whole readable
  obtain ⟨m, received⟩ := udpProcess_received holds length small some_ bound taken.1 taken.2
  obtain ⟨back, C', read⟩ :=
    (recvOffload_iff behind' (A := C) dgram fits).mpr ⟨exactly, readable', granted⟩
  exact ⟨frame, m, back, A.next.next, B.next.next, C',
    nsendto_queued dip dport named some_ queued.1 queued.2, built, received, read⟩

theorem UdpKeeps.delivers (keeps : UdpKeeps behind behind' h h' buf dip dport cap A B C)
    (whole : room.length = mbufRoom) (named : getHostinfoFromfd w fd = some (.host h))
    (bound : getHostinfoFromipPort w' dip dport ipprotoUdp = some h')
    (positive : 1 ≤ buf.length) (small : buf.length ≤ 1472) (fits : buf.length ≤ cap) :
    UdpDelivers K behind behind' room localmac dstmac w w' fd h h' buf dip dport cap A B C := by
  obtain ⟨frame, m, back, A', B', C', sent, built, received, read⟩ :=
    keeps.way K localmac dstmac whole named bound positive small fits
  refine ⟨_, _, frame, m, back, A', B', C', ?_, built, ?_, read⟩
  · have put : h.sndbuf.enqueue (h.offload buf dip dport) = { h.sndbuf with
        entries := h.sndbuf.entries ++ [h.offload buf dip dport] } := if_pos keeps.place
    rw [sent, put]
  · have put : h'.rcvbuf.enqueue (h.offload buf dip dport).received = { h'.rcvbuf with
        entries := h'.rcvbuf.entries ++ [(h.offload buf dip dport).received] } :=
      if_pos keeps.place'
    rw [received, put]

/-- With nothing before it on the rings and the address of the peer known, a datagram goes
this way by calls of `nsendto`, `udp_out`, `udp_process` and `nrecvfrom`. -/
theorem UdpKeeps.called {entries : List ArpEntry} {fd' : Int}
    (keeps : UdpKeeps behind behind' h h' buf dip dport cap A B C)
    (whole : room.length = mbufRoom) (named : getHostinfoFromfd w fd = some (.host h))
    (bound : getHostinfoFromipPort w' dip dport ipprotoUdp = some h')
    (named' : getHostinfoFromfd w' fd' = some (.host h')) (idle : h.sndbuf.entries = [])
    (idle' : h'.rcvbuf.entries = []) (known : ngGetDstMacaddr entries dip = some dstmac)
    (positive : 1 ≤ buf.length) (small : buf.length ≤ 1472) (fits : buf.length ≤ cap) :
    ∃ h₁ h₂ frame w₁ w₂ m got A' B' C',
      nsendto w fd buf dip dport A = .ok ((buf.length, w.putHost h₁), A') ∧
      udpOutHost K behind room localmac entries h₁ = .ok (.frame frame, h₂) ∧
      udpProcess w' (.fresh frame) B = .ok (((0, w₁), m), B') ∧
      nrecvfrom behind' w₁ fd' cap C = .ok (some (buf.length, some got, w₂), C') ∧
      got.copied = buf ∧ got.sinPort = h.localport ∧ got.sinAddr = h.localip := by
  obtain ⟨frame, m, back, A', B', C', sent, built, received, read⟩ :=
    keeps.way K localmac dstmac whole named bound positive small fits
  have single {r : Ring Offload} (empty : r.entries = []) (ol : Offload) :
      (r.enqueue ol).entries = [ol] := by
    simp [Ring.enqueue, empty, ringSize]
  have leaves : udpOutHost K behind room localmac entries { h with
      sndbuf := h.sndbuf.enqueue (h.offload buf dip dport) } = _ :=
    udpOutHost_resolved (single idle _) known
  rw [built] at leaves
  have found : getHostinfoFromfd (w'.putHost { h' with
      rcvbuf := h'.rcvbuf.enqueue (h.offload buf dip dport).received }) fd' = _ :=
    getHostinfoFromfd_putHost named' rfl rfl
  obtain ⟨w₂, handed⟩ := nrecvfrom_first found (single idle' _) read
  exact ⟨_, _, frame, _, w₂, m, _, A', B', C', sent, leaves, received, handed, rfl, rfl, rfl⟩

/-- A datagram arrives as it was sent exactly under these conditions. -/
theorem udp_delivers_iff (whole : room.length = mbufRoom)
    (named : getHostinfoFromfd w fd = some (.host h))
    (bound : getHostinfoFromipPort w' dip dport ipprotoUdp = some h')
    (positive : 1 ≤ buf.length) (small : buf.length ≤ 1472) (fits : buf.length ≤ cap) :
    UdpDelivers K behind behind' room localmac dstmac w w' fd h h' buf dip dport cap A B C ↔
      UdpKeeps behind behind' h h' buf dip dport cap A B C :=
  ⟨fun delivers => delivers.keeps whole named bound positive small fits,
    fun keeps => keeps.delivers whole named bound positive small fits⟩

end Trip

/-- A host on port 9 of address 4, with descriptor 3. -/
def sampleHost : Host := ⟨1, 3, 4, 9, ⟨2, .sendBuffer, []⟩, ⟨3, .recvBuffer, []⟩⟩

def sampleHosts : World := ⟨[], [sampleHost], fun _ => false, []⟩

/-- Three bytes that the host sends to itself, and a buffer of three. -/
theorem udp_delivers_three :
    UdpDelivers internetSums (fun _ => List.replicate 8 0) (fun _ => List.replicate 8 0)
      (List.replicate 2048 0) #v[1, 2, 3, 4, 5, 6] #v[6, 5, 4, 3, 2, 1] sampleHosts sampleHosts 3
      sampleHost sampleHost [97, 98, 99] 4 9 3 .cleared .cleared .cleared := by
  refine (udp_delivers_iff (List.length_replicate ..) rfl rfl (by decide) (by decide)
    (by decide)).mpr ?_
  exact ⟨⟨rfl, rfl⟩, by decide, by decide, ⟨rfl, rfl⟩, by decide, by decide, rfl, rfl⟩

/-- With a buffer of five the call copies two bytes from behind the payload and returns
five, and with one of 128 it returns a length that it has freed. -/
theorem udp_longer_buffer :
    (¬ UdpDelivers internetSums (fun _ => List.replicate 8 0) (fun _ => List.replicate 8 0)
      (List.replicate 2048 0) #v[1, 2, 3, 4, 5, 6] #v[6, 5, 4, 3, 2, 1] sampleHosts sampleHosts 3
      sampleHost sampleHost [97, 98, 99] 4 9 5 .cleared .cleared .cleared) ∧
    (∃ got A, recvOffload (fun _ => List.replicate 8 0)
      (sampleHost.offload [97, 98, 99] 4 9).received 5 .cleared = .ok (got, A) ∧
      got.ret = 5 ∧ got.copied = [97, 98, 99, 0, 0]) ∧
    recvOffload (fun _ => List.replicate 8 0) (sampleHost.offload [97, 98, 99] 4 9).received 128
      .cleared = .error .useAfterFree := by
  refine ⟨fun delivers => ?_, ⟨_, _, rfl, rfl, rfl⟩, rfl⟩
  have keeps := delivers.keeps (List.length_replicate ..) rfl rfl (by decide) (by decide)
    (by decide)
  exact absurd keeps.exactly (by decide)

end LinuxCpp.Ustack
