import LinuxCpp.Ustack.ArpTable
import LinuxCpp.Ustack.Checksum

set_option autoImplicit false

/- The frames that `pkt_process` and the timer put on `ring->out` for ARP and for ping, and
what the host they are for reads in them. -/
namespace LinuxCpp.Ustack

open C

@[simp] def arpHardware : Nat := 14
@[simp] def arpProtocol : Nat := 16
@[simp] def arpHlen : Nat := 18
@[simp] def arpPlen : Nat := 19
@[simp] def arpTha : Nat := 32

def gDefaultArpMac : Mac := .replicate 6 0xFF

/-- The assignments of `ng_encode_arp_pkt`. There is no zero in `gDefaultArpMac`, so that
`strncmp` compares all of the address. -/
def arpWrites (gSrcMac : Mac) (opcode : UInt16) (dstMac : Mac) (sip dip : UInt32) :
    List (Nat × List UInt8) := [
  (etherSAddr, gSrcMac.toList),
  (etherDAddr, (if dstMac = gDefaultArpMac then .replicate 6 0 else dstMac : Mac).toList),
  (etherType, bytesOf 2 (ntohs rteEtherTypeArp).toNat),
  (arpHardware, bytesOf 2 (ntohs 1).toNat),
  (arpProtocol, bytesOf 2 (ntohs rteEtherTypeIpv4).toNat),
  (arpHlen, [6]),
  (arpPlen, [4]),
  (arpOpcode, bytesOf 2 (ntohs opcode).toNat),
  (arpSha, gSrcMac.toList),
  (arpTha, dstMac.toList),
  (arpSip, bytesOf 4 sip.toNat),
  (arpTip, bytesOf 4 dip.toNat)]

def ngEncodeArpPkt (gSrcMac : Mac) (msg : List UInt8) (opcode : UInt16) (dstMac : Mac)
    (sip dip : UInt32) : Except Fault (List UInt8) :=
  storeAll msg (arpWrites gSrcMac opcode dstMac sip dip)

/-- A host's own hardware address. -/
def Hosts (mac : Mac) : Prop := mac ≠ .replicate 6 0 ∧ mac ≠ gDefaultArpMac

/-- The ARP packet in a frame, if it is of this kind and for the host with these addresses: its
card takes what is for it or for everybody. -/
def hostHears (mac : Mac) (opcode : UInt16) (ip : UInt32) (frame : List UInt8) :
    Option ArpEntry :=
  if fieldMac frame etherDAddr = mac ∨ fieldMac frame etherDAddr = gDefaultArpMac then
    arpPacket opcode ip frame
  else none

/-- The packet in the new buffer, which had `room` in it before. -/
def ngSendArp (gSrcMac : Mac) (room : List UInt8) (opcode : UInt16) (dstMac : Mac)
    (sip dip : UInt32) : Except Fault (List UInt8) := do
  let msg ← ngEncodeArpPkt gSrcMac room opcode dstMac sip dip
  loadAt msg 0 42

def ngSendIcmp (K : Cksums) (gSrcMac : Mac) (room : List UInt8) (dstMac : Mac) (sip dip : UInt32)
    (id seqnb : UInt16) : Except Fault (List UInt8) := do
  let msg ← ngEncodeIcmpPkt K room gSrcMac dstMac sip dip id seqnb
  loadAt msg 0 42

/-- The calls that `pkt_process` makes for a reply. -/
def Reply.frame (K : Cksums) (gSrcMac : Mac) (room : List UInt8) :
    Reply → Except Fault (List UInt8)
  | .arp dstMac sip dip => ngSendArp gSrcMac room rteArpOpReply dstMac sip dip
  | .icmp dstMac sip dip id seqnb => ngSendIcmp K gSrcMac room dstMac sip dip id seqnb

/-- The packet of `arp_request_timer_cb` for the host with this number in the local network. -/
def arpTimerFrame (gSrcMac : Mac) (entries : List ArpEntry) (room : List UInt8) (i : UInt32) :
    Except Fault (List UInt8) :=
  let dstip : UInt32 :=
    (gLocalIp &&& (0x00FFFFFF : UInt32)) ||| ((0xFF000000 : UInt32) &&& i <<< 24)
  match ngGetDstMacaddr entries dstip with
  | none => ngSendArp gSrcMac room rteArpOpRequest gDefaultArpMac gLocalIp dstip
  | some dstmac => ngSendArp gSrcMac room rteArpOpRequest dstmac gLocalIp dstip

section Fields

variable {bytes : List UInt8} {i : Nat}

theorem field8_eq {n : UInt8} (loaded : loadAt bytes i 1 = .ok [n]) : field8 bytes i = n := by
  obtain ⟨-, read⟩ := loadAt_ok loaded
  rw [field8, ← read, ← bytesOf_one, numberOf_bytesOf, Nat.mod_eq_of_lt (by exact n.toNat_lt),
    UInt8.ofNat_toNat]

theorem field16_eq {n : UInt16} (loaded : loadAt bytes i 2 = .ok (bytesOf 2 n.toNat)) :
    field16 bytes i = n := by
  obtain ⟨-, read⟩ := loadAt_ok loaded
  rw [field16, ← read, numberOf_bytesOf, Nat.mod_eq_of_lt (by exact n.toNat_lt),
    UInt16.ofNat_toNat]

theorem field32_eq {n : UInt32} (loaded : loadAt bytes i 4 = .ok (bytesOf 4 n.toNat)) :
    field32 bytes i = n := by
  obtain ⟨-, read⟩ := loadAt_ok loaded
  rw [field32, ← read, numberOf_bytesOf, Nat.mod_eq_of_lt (by exact n.toNat_lt),
    UInt32.ofNat_toNat]

theorem fieldMac_eq {mac : Mac} (loaded : loadAt bytes i 6 = .ok mac.toList) :
    fieldMac bytes i = mac := by
  obtain ⟨-, read⟩ := loadAt_ok loaded
  rw [fieldMac, ← read]
  ext k bound
  simp

theorem ntohs_inj {n k : UInt16} : ntohs n = ntohs k ↔ n = k :=
  ⟨fun same => by rw [← ntohs_ntohs n, same, ntohs_ntohs], congrArg ntohs⟩

end Fields

section Arp

variable {gSrcMac dstMac : Mac} {room frame : List UInt8} {opcode : UInt16} {sip dip : UInt32}

/-- Every field of the frame is what was assigned to it. -/
theorem ngSendArp_written (wide : 42 ≤ room.length) :
    ∃ frame, ngSendArp gSrcMac room opcode dstMac sip dip = .ok frame ∧ frame.length = 42 ∧
      ∀ write ∈ arpWrites gSrcMac opcode dstMac sip dip,
        loadAt frame write.1 write.2.length = .ok write.2 := by
  have inside : ∀ write ∈ arpWrites gSrcMac opcode dstMac sip dip,
      write.1 + write.2.length ≤ 42 := by simp [arpWrites]
  have apart : (arpWrites gSrcMac opcode dstMac sip dip).Pairwise fun a b =>
      a.1 + a.2.length ≤ b.1 ∨ b.1 + b.2.length ≤ a.1 := by simp [arpWrites]
  obtain ⟨msg, ran, length⟩ := storeAll_inside fun write member =>
    (inside write member).trans wide
  have front : loadAt msg 0 42 = .ok (msg.take 42) := loadAt_eq (by omega)
  refine ⟨msg.take 42, ?_, List.length_take_of_le (by omega), fun write member => ?_⟩
  · rw [ngSendArp, ngEncodeArpPkt, ran, ok_bind, front]
  · rw [loadAt_front front (inside write member)]
    exact loadAt_storeAll_mem ran apart member

/-- What `pkt_process` of another host would read in the frame. -/
theorem ngSendArp_packet (wide : 42 ≤ room.length) :
    ∃ frame, ngSendArp gSrcMac room opcode dstMac sip dip = .ok frame ∧ frame.length = 42 ∧
      fieldMac frame etherDAddr = (if dstMac = gDefaultArpMac then .replicate 6 0 else dstMac) ∧
      ∀ kind ip, arpPacket kind ip frame =
        if kind = opcode ∧ ip = dip then some ⟨sip, gSrcMac⟩ else none := by
  obtain ⟨frame, sent, length, written⟩ :=
    @ngSendArp_written gSrcMac dstMac room opcode sip dip wide
  simp only [arpWrites, List.forall_mem_cons, Vector.length_toList] at written
  obtain ⟨-, dAddr, type, -, -, -, -, kind', sha, -, sip', tip, -⟩ := written
  refine ⟨frame, sent, length, fieldMac_eq dAddr, fun kind ip => ?_⟩
  have meant : (ntohs rteEtherTypeArp = ntohs rteEtherTypeArp ∧ dip = ip ∧
      ntohs opcode = ntohs kind) ↔ kind = opcode ∧ ip = dip :=
    ⟨fun fits => ⟨(ntohs_inj.mp fits.2.2).symm, fits.2.1.symm⟩,
      fun same => ⟨rfl, same.2.symm, congrArg ntohs same.1.symm⟩⟩
  rw [arpPacket, field16_eq type, field32_eq tip, field16_eq kind', field32_eq sip',
    fieldMac_eq sha]
  exact if_congr meant rfl rfl

/-- Only the host that the frame is for hears it, and it hears who has sent it. A frame for
`gDefaultArpMac` goes to a hardware address that nobody has. -/
theorem ngSendArp_heard (wide : 42 ≤ room.length) :
    ∃ frame, ngSendArp gSrcMac room opcode dstMac sip dip = .ok frame ∧ frame.length = 42 ∧
      (∀ kind ip, arpPacket kind ip frame =
        if kind = opcode ∧ ip = dip then some ⟨sip, gSrcMac⟩ else none) ∧
      ∀ mac kind ip, Hosts mac → hostHears mac kind ip frame =
        if mac = dstMac ∧ kind = opcode ∧ ip = dip then some ⟨sip, gSrcMac⟩ else none := by
  obtain ⟨frame, sent, length, dAddr, packet⟩ :=
    @ngSendArp_packet gSrcMac dstMac room opcode sip dip wide
  refine ⟨frame, sent, length, packet, fun mac kind ip host => ?_⟩
  have nobody : (.replicate 6 0 : Mac) ≠ gDefaultArpMac := by decide
  have taken : (fieldMac frame etherDAddr = mac ∨ fieldMac frame etherDAddr = gDefaultArpMac) ↔
      mac = dstMac := by
    rw [dAddr]
    split
    · rename_i everybody
      subst everybody
      exact ⟨fun takes => (takes.elim host.1.symm nobody).elim, fun same => (host.2 same).elim⟩
    · rename_i other
      exact ⟨fun takes => (takes.resolve_right other).symm, fun same => .inl same.symm⟩
  rw [hostHears, packet]
  by_cases same : mac = dstMac
  · simp only [same, true_and]
    exact if_pos (same ▸ taken.mpr same)
  · rw [if_neg fun takes => same (taken.mp takes), if_neg fun all => same all.1]

end Arp

section Run

variable {β : Type} {m : Mbuf} {A : Allocator} {i : Nat}

theorem run_read8 {f : UInt8 → PM β} (inside : i + 1 ≤ m.bytes.length) :
    (read8 i >>= f) m A = f (field8 m.bytes i) m.seen A := read8_run (load8_inside inside)

theorem run_read16 {f : UInt16 → PM β} (inside : i + 2 ≤ m.bytes.length) :
    (read16 i >>= f) m A = f (field16 m.bytes i) m.seen A := read16_run (load16_inside inside)

theorem run_read32 {f : UInt32 → PM β} (inside : i + 4 ≤ m.bytes.length) :
    (read32 i >>= f) m A = f (field32 m.bytes i) m.seen A := read32_run (load32_inside inside)

theorem run_readMac {f : Mac → PM β} (inside : i + 6 ≤ m.bytes.length) :
    (readMac i >>= f) m A = f (fieldMac m.bytes i) m.seen A := by
  rw [readMac, bind_assoc]
  simp only [pure_bind]
  exact read_run (loadAt_eq inside)

theorem run_sendReply {free : Nat} {reply : Reply} {f : Reply → PM β} (some_ : 0 < free) :
    (sendReply free reply >>= f) m A = f reply m A := by
  rw [sendReply, if_pos some_, pure_bind]

end Run

section Requests

variable {K : Cksums} {isn : UInt32} {free : Nat} {w : World} {entries : List ArpEntry}
  {bytes : List UInt8} {A : Allocator} {e : ArpEntry}

theorem arpPacket_eq {opcode : UInt16} {ip : UInt32} (heard : arpPacket opcode ip bytes = some e) :
    (field16 bytes etherType = ntohs rteEtherTypeArp ∧ field32 bytes arpTip = ip ∧
      field16 bytes arpOpcode = ntohs opcode) ∧
      e = ⟨field32 bytes arpSip, fieldMac bytes arpSha⟩ := by
  unfold arpPacket at heard
  split at heard
  · rename_i fits
    cases heard
    exact ⟨fits, rfl⟩
  · cases heard

/-- Who asks for the local address gets an answer, and nothing else changes. -/
theorem pktProcess_asked (whole : 42 ≤ bytes.length) (some_ : 0 < free)
    (asked : arpPacket rteArpOpRequest gLocalIp bytes = some e) :
    pktProcess K isn free w entries (.fresh bytes) A =
      .ok (((w, entries, some (.arp e.hwaddr gLocalIp e.ip)), .fresh bytes), A) := by
  obtain ⟨⟨arp, here, request⟩, rfl⟩ := arpPacket_eq asked
  have inside {i : Nat} (bound : i ≤ 42) : i ≤ (Mbuf.fresh bytes).bytes.length := bound.trans whole
  have seen : (Mbuf.fresh bytes).seen = .fresh bytes := rfl
  have asks : arpProcess free entries (.fresh bytes) A = .ok (((entries,
      some (.arp (fieldMac bytes arpSha) gLocalIp (field32 bytes arpSip))), .fresh bytes), A) := by
    unfold arpProcess
    rw [run_read16 (inside (by decide)), seen, if_pos (by exact request),
      run_readMac (inside (by decide)), seen, run_read32 (inside (by decide)), seen,
      run_read32 (inside (by decide)), seen, run_sendReply some_, ← here]
    rfl
  unfold pktProcess
  rw [run_read16 (inside (by decide)), seen, if_pos (by exact arp),
    run_read32 (inside (by decide)), seen, if_pos (by exact here)]
  show (arpProcess free entries (.fresh bytes) A >>= _) = _
  rw [asks]
  rfl

/-- An answer is taken down, and its buffer is freed. -/
theorem pktProcess_told (whole : 42 ≤ bytes.length) (granted : A.AllSucceed)
    (told : arpPacket rteArpOpReply gLocalIp bytes = some e) :
    ∃ B, pktProcess K isn free w entries (.fresh bytes) A =
      .ok (((w, hear entries e, none), ⟨bytes, 1, false⟩), B) := by
  obtain ⟨⟨arp, here, answer⟩, rfl⟩ := arpPacket_eq told
  have inside {i : Nat} (bound : i ≤ 42) : i ≤ (Mbuf.fresh bytes).bytes.length := bound.trans whole
  have seen : (Mbuf.fresh bytes).seen = .fresh bytes := rfl
  have other : ntohs rteArpOpReply ≠ ntohs rteArpOpRequest := by decide
  obtain ⟨table, B, taken⟩ : ∃ table B,
      arpReply entries (field32 bytes arpSip) (fieldMac bytes arpSha) A = .ok (table, B) := by
    unfold arpReply
    cases ngGetDstMacaddr entries (field32 bytes arpSip) with
    | some mac => exact ⟨_, _, rfl⟩
    | none =>
        dsimp only
        rw [bind_ok (malloc_run granted)]
        exact ⟨_, _, rfl⟩
  have hears : arpProcess free entries (.fresh bytes) A =
      .ok (((table, none), ⟨bytes, 1, false⟩), B) := by
    unfold arpProcess
    rw [run_read16 (inside (by decide)), seen,
      if_neg (by exact fun asked => other (answer.symm.trans asked)), if_pos (by exact answer),
      run_read32 (inside (by decide)), seen, run_readMac (inside (by decide)), seen]
    exact lift_run taken
  refine ⟨B, ?_⟩
  unfold pktProcess
  rw [run_read16 (inside (by decide)), seen, if_pos (by exact arp),
    run_read32 (inside (by decide)), seen, if_pos (by exact here), ← arpReply_hears granted taken]
  show (arpProcess free entries (.fresh bytes) A >>= _) = _
  rw [hears]
  rfl

/-- An answer is not answered. -/
theorem treatment_told {ip : UInt32} (told : arpPacket rteArpOpReply ip bytes = some e) :
    (Treatment.of bytes).answers = false := by
  obtain ⟨⟨arp, -, answer⟩, -⟩ := arpPacket_eq told
  have other : ntohs rteArpOpReply ≠ ntohs rteArpOpRequest := by decide
  rw [Treatment.of, if_pos arp]
  split
  · rw [Treatment.arp, if_neg fun asked => other (answer.symm.trans asked), if_pos answer]
  · rfl

/-- The timer asks for the ten addresses; only a host that the table knows hears it. -/
theorem arpTimerFrame_heard {gSrcMac : Mac} {room : List UInt8} (wide : 42 ≤ room.length)
    {i : UInt32} (small : i ≤ 10) :
    ∃ frame, arpTimerFrame gSrcMac entries room i = .ok frame ∧ frame.length = 42 ∧
      ∀ mac kind ip, Hosts mac → hostHears mac kind ip frame =
        if ngGetDstMacaddr entries ip = some mac ∧ kind = rteArpOpRequest ∧
            ip = makeIpv4Addr 192 168 0 i then some ⟨gLocalIp, gSrcMac⟩ else none := by
  have address : (gLocalIp &&& (0x00FFFFFF : UInt32)) ||| ((0xFF000000 : UInt32) &&& i <<< 24) =
      makeIpv4Addr 192 168 0 i := by
    have all : ∀ n < 11, (gLocalIp &&& (0x00FFFFFF : UInt32)) |||
        ((0xFF000000 : UInt32) &&& UInt32.ofNat n <<< 24) =
        makeIpv4Addr 192 168 0 (.ofNat n) := by decide
    have this := all i.toNat (Nat.lt_succ_of_le small)
    rwa [UInt32.ofNat_toNat] at this
  unfold arpTimerFrame
  rw [address]
  dsimp only
  cases known : ngGetDstMacaddr entries (makeIpv4Addr 192 168 0 i) with
  | none =>
      obtain ⟨frame, sent, length, -, heard⟩ := @ngSendArp_heard gSrcMac gDefaultArpMac room
        rteArpOpRequest gLocalIp (makeIpv4Addr 192 168 0 i) wide
      refine ⟨frame, sent, length, fun mac kind ip host => ?_⟩
      rw [heard mac kind ip host, if_neg fun all => host.2 all.1, if_neg]
      rintro ⟨entry, -, rfl⟩
      rw [known] at entry
      cases entry
  | some dstmac =>
      obtain ⟨frame, sent, length, -, heard⟩ := @ngSendArp_heard gSrcMac dstmac room
        rteArpOpRequest gLocalIp (makeIpv4Addr 192 168 0 i) wide
      refine ⟨frame, sent, length, fun mac kind ip host => ?_⟩
      rw [heard mac kind ip host]
      refine if_congr ⟨?_, ?_⟩ rfl rfl
      · rintro ⟨rfl, kinds, rfl⟩
        exact ⟨known, kinds, rfl⟩
      · rintro ⟨entry, kinds, rfl⟩
        rw [known] at entry
        exact ⟨(Option.some.inj entry).symm, kinds, rfl⟩

/-- Who asks for the local address hears it and nobody else does, and that answer is not
answered. An answer to the stack is in the table unless there was one for its address before.
The timer's requests are heard by the hosts in the table, and what is asked with no entry is
heard by no host. -/
theorem arp_exchange {gSrcMac : Mac} {room : List UInt8} (wide : 42 ≤ room.length)
    (some_ : 0 < free) (granted : A.AllSucceed) :
    (∀ bytes e, 42 ≤ bytes.length → arpPacket rteArpOpRequest gLocalIp bytes = some e →
      ∃ reply, pktProcess K isn free w entries (.fresh bytes) A =
          .ok (((w, entries, some reply), .fresh bytes), A) ∧
        ∃ answer, reply.frame K gSrcMac room = .ok answer ∧ answer.length = 42 ∧
          (∀ mac kind ip, Hosts mac → hostHears mac kind ip answer =
            if mac = e.hwaddr ∧ kind = rteArpOpReply ∧ ip = e.ip then some ⟨gLocalIp, gSrcMac⟩
            else none) ∧
          (Treatment.of answer).answers = false) ∧
    (∀ bytes ip mac, 42 ≤ bytes.length →
      arpPacket rteArpOpReply gLocalIp bytes = some ⟨ip, mac⟩ →
      ∃ entries' B, pktProcess K isn free w entries (.fresh bytes) A =
          .ok (((w, entries', none), ⟨bytes, 1, false⟩), B) ∧
        ∀ host, ngGetDstMacaddr entries' host =
          (ngGetDstMacaddr entries host).or (if host = ip then some mac else none)) ∧
    (∀ i, i ≤ 10 → ∃ frame, arpTimerFrame gSrcMac entries room i = .ok frame ∧
      frame.length = 42 ∧
      ∀ mac kind ip, Hosts mac → hostHears mac kind ip frame =
        if ngGetDstMacaddr entries ip = some mac ∧ kind = rteArpOpRequest ∧
            ip = makeIpv4Addr 192 168 0 i then some ⟨gLocalIp, gSrcMac⟩ else none) ∧
    ∀ ip, ∃ request,
      ngSendArp gSrcMac room rteArpOpRequest gDefaultArpMac gLocalIp ip = .ok request ∧
      ∀ mac kind host, Hosts mac → hostHears mac kind host request = none := by
  refine ⟨fun bytes e whole asked => ?_, fun bytes ip mac whole told => ?_,
    fun i small => arpTimerFrame_heard wide small, fun ip => ?_⟩
  · obtain ⟨answer, sent, length, packet, heard⟩ := @ngSendArp_heard gSrcMac e.hwaddr room
      rteArpOpReply gLocalIp e.ip wide
    have told : arpPacket rteArpOpReply e.ip answer = some ⟨gLocalIp, gSrcMac⟩ := by
      rw [packet, if_pos ⟨rfl, rfl⟩]
    exact ⟨_, pktProcess_asked whole some_ asked, answer, sent, length, heard, treatment_told told⟩
  · obtain ⟨B, ran⟩ := @pktProcess_told K isn free w entries bytes A _ whole granted told
    exact ⟨_, B, ran, fun host => ngGetDstMacaddr_hear entries ⟨ip, mac⟩ host⟩
  · obtain ⟨request, sent, -, -, heard⟩ := @ngSendArp_heard gSrcMac gDefaultArpMac room
      rteArpOpRequest gLocalIp ip wide
    refine ⟨request, sent, fun mac kind host real => ?_⟩
    rw [heard mac kind host real, if_neg fun all => real.2 all.1]

end Requests

/-- Host 192.168.0.2 asks, hears the answer and is then asked by the timer; before that nobody
hears the timer. -/
theorem arp_exchange_asked : ∃ reply, pktProcess internetSums 0 1 .empty []
    (.fresh (arpFrameFrom 1 7)) .cleared =
      .ok (((.empty, [], some reply), .fresh (arpFrameFrom 1 7)), .cleared) ∧
    (∃ answer, reply.frame internetSums (.replicate 6 0xAA) (List.replicate 2048 0) = .ok answer ∧
      hostHears #v[0, 0, 0, 0, 0, 7] rteArpOpReply (makeIpv4Addr 192 168 0 2) answer =
        some ⟨gLocalIp, .replicate 6 0xAA⟩) ∧
    ∃ entries' B, pktProcess internetSums 0 1 .empty [] (.fresh (arpFrameFrom 2 7)) .cleared =
        .ok (((.empty, entries', none), ⟨arpFrameFrom 2 7, 1, false⟩), B) ∧
      ngGetDstMacaddr entries' (makeIpv4Addr 192 168 0 2) = some #v[0, 0, 0, 0, 0, 7] ∧
      ∃ frame, arpTimerFrame (.replicate 6 0xAA) [] (List.replicate 2048 0) 2 = .ok frame ∧
        hostHears #v[0, 0, 0, 0, 0, 7] rteArpOpRequest (makeIpv4Addr 192 168 0 2) frame = none := by
  have wide : 42 ≤ (List.replicate 2048 (0 : UInt8)).length := by
    rw [List.length_replicate]
    decide
  have real : Hosts #v[0, 0, 0, 0, 0, 7] := by
    unfold Hosts
    decide
  have asked : arpPacket rteArpOpRequest gLocalIp (arpFrameFrom 1 7) =
      some ⟨makeIpv4Addr 192 168 0 2, #v[0, 0, 0, 0, 0, 7]⟩ := by decide
  have told : arpPacket rteArpOpReply gLocalIp (arpFrameFrom 2 7) =
      some ⟨makeIpv4Addr 192 168 0 2, #v[0, 0, 0, 0, 0, 7]⟩ := by decide
  obtain ⟨answers, learns, asks, -⟩ := @arp_exchange internetSums 0 1 .empty [] .cleared
    (.replicate 6 0xAA) _ wide (by decide) Allocator.cleared_allSucceed
  obtain ⟨reply, ran, answer, sent, -, heard, -⟩ := answers (arpFrameFrom 1 7) _ (by decide) asked
  obtain ⟨entries', B, took, table⟩ := learns (arpFrameFrom 2 7) _ _ (by decide) told
  obtain ⟨frame, timed, -, silent⟩ := asks 2 (by decide)
  refine ⟨reply, ran, ⟨answer, sent, ?_⟩, entries', B, took, ?_, frame, timed, ?_⟩
  · rw [heard _ _ _ real, if_pos ⟨rfl, rfl, rfl⟩]
  · rw [table, if_pos rfl]
    rfl
  · rw [silent _ _ _ real, if_neg]
    rintro ⟨⟨⟩, -⟩

/-- An ICMP packet of the echo protocol: who it is from and for, by both kinds of address, and
what it is about. -/
structure Echo where
  src : UInt32
  dst : UInt32
  mac : Mac
  ident : UInt16
  seqNb : UInt16
deriving DecidableEq, Repr

def echoHeard (type : UInt8) (bytes : List UInt8) : Option Echo :=
  if field16 bytes etherType = ntohs rteEtherTypeIpv4 ∧ field8 bytes ipNextProtoId = ipprotoIcmp ∧
      field8 bytes icmpType = type then
    some ⟨field32 bytes ipSrcAddr, field32 bytes ipDstAddr, fieldMac bytes etherSAddr,
      field16 bytes icmpIdent, field16 bytes icmpSeqNb⟩
  else none

section Ping

variable {K : Cksums} {isn : UInt32} {free : Nat} {w : World} {entries : List ArpEntry}
  {bytes msg msg' : List UInt8} {A : Allocator} {gSrcMac dstMac : Mac} {sip dip : UInt32}

/-- Every field of the first two headers is what was assigned to it, but for the checksum. -/
theorem encodeIpv4_written {nextProtoId : UInt8} {totalLength : UInt16}
    (encoded : encodeIpv4 K msg gSrcMac dstMac nextProtoId totalLength sip dip = .ok msg')
    {write : Nat × List UInt8} (other : write.1 ≠ ipHdrChecksum)
    (member : write ∈ ipv4Writes gSrcMac dstMac nextProtoId totalLength sip dip) :
    loadAt msg' write.1 write.2.length = .ok write.2 := by
  obtain ⟨headers, ran, rest⟩ := ok_of_bind encoded
  obtain ⟨hdrChecksum, -, stored⟩ := ok_of_bind rest
  have apart : (ipv4Writes gSrcMac dstMac nextProtoId totalLength sip dip).Pairwise fun a b =>
      a.1 + a.2.length ≤ b.1 ∨ b.1 + b.2.length ≤ a.1 := by simp [ipv4Writes]
  have outside : ∀ write ∈ ipv4Writes gSrcMac dstMac nextProtoId totalLength sip dip,
      write.1 ≠ ipHdrChecksum →
      write.1 + write.2.length ≤ 24 ∨ 26 ≤ write.1 := by simp [ipv4Writes]
  have place : write.1 + write.2.length ≤ ipHdrChecksum ∨
      ipHdrChecksum + (bytesOf 2 hdrChecksum.toNat).length ≤ write.1 := by
    rw [bytesOf_length]
    exact outside write member other
  rw [loadAt_storeAt_apart stored place]
  exact loadAt_storeAll_mem ran apart member

/-- What the host that has sent an echo request finds in the answer. -/
theorem ngSendIcmp_heard {room : List UInt8} (wide : 42 ≤ room.length) (id seqnb : UInt16) :
    ∃ frame, ngSendIcmp K gSrcMac room dstMac sip dip id seqnb = .ok frame ∧ frame.length = 42 ∧
      fieldMac frame etherDAddr = dstMac ∧
      echoHeard rteIpIcmpEchoReply frame = some ⟨sip, dip, gSrcMac, id, seqnb⟩ ∧
      ngChecksum frame l4Hdr icmpHdrSize = .ok 0 := by
  obtain ⟨pkt, encoded, verified⟩ :=
    ngEncodeIcmpPkt_verifies K room gSrcMac dstMac sip dip id seqnb wide
  obtain ⟨headers, first, later⟩ := ok_of_bind encoded
  obtain ⟨reply, ran, later⟩ := ok_of_bind later
  obtain ⟨cksum, -, stored⟩ := ok_of_bind later
  have length : pkt.length = room.length := by
    rw [storeAt_length stored, (storeAll_ok ran).1, (encodeIpv4_length first).1]
  have front : loadAt pkt 0 42 = .ok (pkt.take 42) := loadAt_eq (by omega)
  have same {i n : Nat} (inside : i + n ≤ 36 ∨ 38 ≤ i ∧ i + n ≤ 42) :
      loadAt (pkt.take 42) i n = loadAt reply i n := by
    rw [loadAt_front front (by omega), loadAt_storeAt_apart stored (by
      rw [bytesOf_length, icmpCksum]
      omega)]
  have icmp : ∀ write ∈ icmpWrites id seqnb, loadAt reply write.1 write.2.length = .ok write.2 :=
    fun write member => loadAt_storeAll_mem ran (by simp [icmpWrites]) member
  have ip {write : Nat × List UInt8} (other : write.1 ≠ ipHdrChecksum)
      (member : write ∈ ipv4Writes gSrcMac dstMac ipprotoIcmp (.ofNat (20 + icmpHdrSize)) sip dip)
      (inside : write.1 + write.2.length ≤ 34) :
      loadAt (pkt.take 42) write.1 write.2.length = .ok write.2 := by
    rw [same (by omega), loadAt_storeAll_apart ran]
    · exact encodeIpv4_written first other member
    · simp [icmpWrites]
      omega
  have dAddr := @ip (etherDAddr, dstMac.toList) (by simp) (by simp [ipv4Writes]) (by simp)
  have sAddr := @ip (etherSAddr, gSrcMac.toList) (by simp) (by simp [ipv4Writes]) (by simp)
  have type := @ip (etherType, bytesOf 2 (ntohs rteEtherTypeIpv4).toNat) (by decide)
    (by simp [ipv4Writes]) (by simp)
  have proto := @ip (ipNextProtoId, [ipprotoIcmp]) (by decide) (by simp [ipv4Writes]) (by simp)
  have src := @ip (ipSrcAddr, bytesOf 4 sip.toNat) (by simp) (by simp [ipv4Writes]) (by simp)
  have dst := @ip (ipDstAddr, bytesOf 4 dip.toNat) (by simp) (by simp [ipv4Writes]) (by simp)
  simp only [Vector.length_toList] at dAddr sAddr
  simp only [icmpWrites, List.forall_mem_cons] at icmp
  obtain ⟨kind, -, ident, seqNb, -⟩ := icmp
  rw [← same (by simp)] at kind ident seqNb
  refine ⟨pkt.take 42, ?_, List.length_take_of_le (by omega), fieldMac_eq dAddr, ?_, ?_⟩
  · rw [ngSendIcmp, encoded, ok_bind, front]
  · rw [echoHeard, field16_eq type, field8_eq proto, field8_eq kind, if_pos ⟨rfl, rfl, rfl⟩,
      field32_eq src, field32_eq dst, fieldMac_eq sAddr, field16_eq ident, field16_eq seqNb]
  · obtain ⟨rest, read⟩ : ∃ rest, loadAt pkt l4Hdr icmpHdrSize = .ok rest :=
      ⟨_, loadAt_eq (by simp only [l4Hdr, icmpHdrSize]; omega)⟩
    have kept : loadAt (pkt.take 42) l4Hdr icmpHdrSize = .ok rest :=
      (loadAt_front front (by decide)).trans read
    rw [ngChecksum_eq kept, ← ngChecksum_eq read]
    exact verified

theorem echoHeard_eq {type : UInt8} {e : Echo} (heard : echoHeard type bytes = some e) :
    (field16 bytes etherType = ntohs rteEtherTypeIpv4 ∧ field8 bytes ipNextProtoId = ipprotoIcmp ∧
      field8 bytes icmpType = type) ∧ e = ⟨field32 bytes ipSrcAddr, field32 bytes ipDstAddr,
        fieldMac bytes etherSAddr, field16 bytes icmpIdent, field16 bytes icmpSeqNb⟩ := by
  unfold echoHeard at heard
  split at heard
  · rename_i fits
    cases heard
    exact ⟨fits, rfl⟩
  · cases heard

theorem run_ifProto_other {β : Type} {proto : UInt8} {handler : PM World} {f : World → PM β}
    (whole : 42 ≤ bytes.length) (other : field8 bytes ipNextProtoId ≠ proto) :
    (ifProto proto w handler >>= f) (.fresh bytes) A = f w (.fresh bytes) A := by
  have inside : ipNextProtoId + 1 ≤ (Mbuf.fresh bytes).bytes.length := by
    show 23 + 1 ≤ bytes.length
    omega
  unfold ifProto
  rw [bind_assoc, run_read8 inside, if_neg (by exact other), pure_bind]
  rfl

theorem pktProcess_pinged {e : Echo} (whole : 42 ≤ bytes.length) (some_ : 0 < free)
    (pinged : echoHeard rteIpIcmpEchoRequest bytes = some e) :
    pktProcess K isn free w entries (.fresh bytes) A =
      .ok (((w, entries, some (.icmp e.mac e.dst e.src e.ident e.seqNb)),
        ⟨bytes, 1, false⟩), A) := by
  obtain ⟨⟨ip, icmp, echo⟩, rfl⟩ := echoHeard_eq pinged
  have inside {i : Nat} (bound : i ≤ 42) : i ≤ (Mbuf.fresh bytes).bytes.length := bound.trans whole
  have seen : (Mbuf.fresh bytes).seen = .fresh bytes := rfl
  have types : ntohs rteEtherTypeIpv4 ≠ ntohs rteEtherTypeArp := by decide
  have udp : ipprotoIcmp ≠ ipprotoUdp := by decide
  have tcp : ipprotoIcmp ≠ ipprotoTcp := by decide
  have answers : icmpProcess free (.fresh bytes) A = .ok ((some (.icmp (fieldMac bytes etherSAddr)
      (field32 bytes ipDstAddr) (field32 bytes ipSrcAddr) (field16 bytes icmpIdent)
      (field16 bytes icmpSeqNb)), ⟨bytes, 1, false⟩), A) := by
    unfold icmpProcess
    rw [run_read32 (inside (by decide)), seen, run_read8 (inside (by decide)), seen,
      if_pos (by exact echo), run_read32 (inside (by decide)), seen,
      run_readMac (inside (by decide)), seen, run_read16 (inside (by decide)), seen,
      run_read16 (inside (by decide)), seen, run_sendReply some_]
    rfl
  have processed : ipProcess K isn free w (.fresh bytes) A = .ok (((w,
      some (.icmp (fieldMac bytes etherSAddr) (field32 bytes ipDstAddr) (field32 bytes ipSrcAddr)
        (field16 bytes icmpIdent) (field16 bytes icmpSeqNb))), ⟨bytes, 1, false⟩), A) := by
    unfold ipProcess
    rw [run_ifProto_other whole (icmp ▸ udp), run_ifProto_other whole (icmp ▸ tcp),
      run_read8 (inside (by decide)), seen, if_pos (by exact icmp)]
    show (icmpProcess free (.fresh bytes) A >>= _) = _
    rw [answers]
    rfl
  unfold pktProcess
  rw [run_read16 (inside (by decide)), seen, if_neg (by exact fun arp => types (ip.symm.trans arp)),
    if_neg (by exact not_not.mpr ip)]
  show (ipProcess K isn free w (.fresh bytes) A >>= _) = _
  rw [processed]
  rfl

/-- An echo request, whoever it is for, is answered by a frame that goes back where it came from
with its identifier and number and a sum that the receiver finds right. The answer is not
answered. -/
theorem ping_answered {room : List UInt8} {e : Echo} (wide : 42 ≤ room.length) (some_ : 0 < free)
    (whole : 42 ≤ bytes.length) (pinged : echoHeard rteIpIcmpEchoRequest bytes = some e) :
    ∃ reply, pktProcess K isn free w entries (.fresh bytes) A =
        .ok (((w, entries, some reply), ⟨bytes, 1, false⟩), A) ∧
      ∃ answer, reply.frame K gSrcMac room = .ok answer ∧ answer.length = 42 ∧
        fieldMac answer etherDAddr = e.mac ∧
        echoHeard rteIpIcmpEchoReply answer = some ⟨e.dst, e.src, gSrcMac, e.ident, e.seqNb⟩ ∧
        ngChecksum answer l4Hdr icmpHdrSize = .ok 0 ∧
        (Treatment.of answer).answers = false := by
  obtain ⟨answer, sent, length, dAddr, heard, verified⟩ :=
    @ngSendIcmp_heard K gSrcMac e.mac e.dst e.src room wide e.ident e.seqNb
  refine ⟨_, pktProcess_pinged whole some_ pinged, answer, sent, length, dAddr, heard, verified, ?_⟩
  obtain ⟨⟨ip, icmp, reply⟩, -⟩ := echoHeard_eq heard
  have types : ntohs rteEtherTypeIpv4 ≠ ntohs rteEtherTypeArp := by decide
  have protos : ipprotoIcmp ≠ ipprotoUdp := by decide
  have echoes : rteIpIcmpEchoReply ≠ rteIpIcmpEchoRequest := by decide
  rw [Treatment.of, if_neg fun arp => types (ip.symm.trans arp), if_pos ip, Treatment.ip,
    if_neg fun udp => protos (icmp.symm.trans udp),
    if_neg fun echo => echoes (reply.symm.trans echo.2)]
  rfl

/-- An echo request from host 192.168.0.2. -/
def echoFrame : List UInt8 :=
  List.replicate 12 0xBB ++ [0x08, 0x00, 0x45] ++ List.replicate 8 0 ++ [1, 0, 0, 192, 168, 0, 2] ++
    [192, 168, 0, 115, 8, 0, 0, 0, 0, 7, 0, 9]

theorem ping_answered_frame : ∃ reply, pktProcess internetSums 0 1 .empty [] (.fresh echoFrame)
    .cleared = .ok (((.empty, [], some reply), ⟨echoFrame, 1, false⟩), .cleared) ∧
    ∃ answer, reply.frame internetSums (.replicate 6 0xAA) (List.replicate 2048 0) = .ok answer ∧
      ngChecksum answer l4Hdr icmpHdrSize = .ok 0 := by
  have wide : 42 ≤ (List.replicate 2048 (0 : UInt8)).length := by
    rw [List.length_replicate]
    decide
  have pinged : echoHeard rteIpIcmpEchoRequest echoFrame = some ⟨makeIpv4Addr 192 168 0 2, gLocalIp,
    .replicate 6 0xBB, 0x0700, 0x0900⟩ := by decide
  obtain ⟨reply, ran, answer, sent, -, -, -, verified, -⟩ :=
    @ping_answered internetSums 0 1 .empty [] echoFrame .cleared (.replicate 6 0xAA) _ _ wide
      (by decide) (by decide) pinged
  exact ⟨reply, ran, answer, sent, verified⟩

end Ping

end LinuxCpp.Ustack
