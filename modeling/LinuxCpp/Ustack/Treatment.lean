import LinuxCpp.Ustack.FrameBounds

set_option autoImplicit false

/- What `pkt_process` makes of a received buffer, from its bytes alone. -/
namespace LinuxCpp.Ustack

open C

/-- How often the buffer is freed, whether it is read after that, and whether a packet
answers it. -/
structure Treatment where
  frees : Nat
  late : Bool
  answers : Bool
deriving DecidableEq, Repr

namespace Treatment

def ignored : Treatment := ⟨0, false, false⟩

/-- An ARP packet for the local address. A request is answered, and its buffer forgotten. -/
def arp (bytes : List UInt8) : Treatment :=
  if field16 bytes arpOpcode = ntohs rteArpOpRequest then ⟨0, false, true⟩
  else if field16 bytes arpOpcode = ntohs rteArpOpReply then ⟨1, false, false⟩
  else ignored

/-- An IPv4 packet. `udp_process` has freed a datagram when its protocol is compared with
the others. -/
def ip (bytes : List UInt8) : Treatment :=
  if field8 bytes ipNextProtoId = ipprotoUdp then ⟨1, true, false⟩
  else if field8 bytes ipNextProtoId = ipprotoIcmp ∧
      field8 bytes icmpType = rteIpIcmpEchoRequest then ⟨1, false, true⟩
  else ignored

def of (bytes : List UInt8) : Treatment :=
  if field16 bytes etherType = ntohs rteEtherTypeArp then
    if field32 bytes arpTip = gLocalIp then arp bytes else ignored
  else if field16 bytes etherType = ntohs rteEtherTypeIpv4 then ip bytes
  else ignored

end Treatment

/-- The buffer was treated so. -/
def Treated (bytes : List UInt8) (t : Treatment) (reply : Option Reply) (m' : Mbuf) : Prop :=
  m' = ⟨bytes, t.frees, t.late⟩ ∧ reply.isSome = t.answers

section Reading

variable {α β : Type} {f : α → PM β} {m : Mbuf} {i n : Nat} {post : β → Mbuf → Prop}

theorem ends_read {f : List UInt8 → PM β} (next : Ends (f ((m.bytes.drop i).take n)) m.seen post) :
    Ends (read i n >>= f) m post := by
  have value : Ends (read i n) m fun bytes m' => bytes = (m.bytes.drop i).take n ∧ m' = m.seen := by
    refine ⟨fun A bytes m' B ran => ?_⟩
    obtain ⟨found, B', loaded, returned⟩ := run_of_bind ran
    cases returned
    exact ⟨(loadAt_ok (run_of_lift loaded).1).2, rfl⟩
  apply value.bind
  rintro _ _ ⟨rfl, rfl⟩
  exact next

theorem ends_read8 {f : UInt8 → PM β} (next : Ends (f (field8 m.bytes i)) m.seen post) :
    Ends (read8 i >>= f) m post := by
  rw [read8, bind_assoc]
  simp only [pure_bind]
  exact ends_read next

theorem ends_read16 {f : UInt16 → PM β} (next : Ends (f (field16 m.bytes i)) m.seen post) :
    Ends (read16 i >>= f) m post := by
  rw [read16, bind_assoc]
  simp only [pure_bind]
  exact ends_read next

theorem ends_read32 {f : UInt32 → PM β} (next : Ends (f (field32 m.bytes i)) m.seen post) :
    Ends (read32 i >>= f) m post := by
  rw [read32, bind_assoc]
  simp only [pure_bind]
  exact ends_read next

theorem ends_sendReply {free : Nat} {reply : Reply} {f : Reply → PM β}
    (next : Ends (f reply) m post) : Ends (sendReply free reply >>= f) m post := by
  have sent : Ends (sendReply free reply) m fun reply' m' => reply' = reply ∧ m' = m := by
    refine ⟨fun A reply' m' B ran => ?_⟩
    cases sendReply_returns ran
    exact ⟨rfl, rfl⟩
  apply sent.bind
  rintro _ _ ⟨rfl, rfl⟩
  exact next

end Reading

section Handlers

variable {K : Cksums} {isn : UInt32} {free : Nat} {entries : List ArpEntry} {w : World}
  {bytes : List UInt8}

/-- A buffer that was not freed looks the same after a read. -/
@[simp] theorem fresh_seen (bytes : List UInt8) :
    Mbuf.seen ⟨bytes, 0, false⟩ = ⟨bytes, 0, false⟩ := rfl

theorem arpProcess_ends : Ends (arpProcess free entries) ⟨bytes, 0, false⟩ fun done m' =>
    Treated bytes (.arp bytes) done.2 m' := by
  unfold arpProcess Treatment.arp
  apply ends_read16
  rw [fresh_seen]
  refine .ite (fun request => ?_) fun other => .ite (fun answer => ?_) fun neither => ?_
  · rw [if_pos request]
    refine .after (reads_readMac _) fun sha => .after (reads_read32 _) fun tip =>
      .after (reads_read32 _) fun sip => ends_sendReply ?_
    exact .pure ⟨rfl, rfl⟩
  · rw [if_neg other, if_pos answer]
    refine .after (reads_read32 _) fun sip => .after (reads_readMac _) fun sha =>
      .bind (.lift _) ?_
    rintro arp _ rfl
    apply Ends.free.bind
    rintro _ _ rfl
    exact .pure ⟨rfl, rfl⟩
  · rw [if_neg other, if_neg neither]
    exact .pure ⟨rfl, rfl⟩

theorem icmpProcess_ends : Ends (icmpProcess free) ⟨bytes, 0, false⟩ fun reply m' =>
    Treated bytes (if field8 bytes icmpType = rteIpIcmpEchoRequest then ⟨1, false, true⟩
      else .ignored) reply m' := by
  unfold icmpProcess
  refine .after (reads_read32 _) fun src => ends_read8 ?_
  rw [fresh_seen]
  refine .ite (fun echo => ?_) fun other => ?_
  · rw [if_pos echo]
    refine .after (reads_read32 _) fun dst => .after (reads_readMac _) fun mac =>
      .after (reads_read16 _) fun id => .after (reads_read16 _) fun seqnb => ends_sendReply ?_
    apply Ends.free.bind
    rintro _ _ rfl
    exact .pure ⟨rfl, rfl⟩
  · rw [if_neg other]
    exact .pure ⟨rfl, rfl⟩

/-- The handler of another protocol is not called. -/
theorem ifProto_other {proto : UInt8} {handler : PM World} {m : Mbuf}
    (other : field8 m.bytes ipNextProtoId ≠ proto) :
    Ends (ifProto proto w handler) m fun _ m' => m' = m.seen := by
  unfold ifProto
  apply ends_read8
  rw [if_neg other]
  exact .pure rfl

theorem ifProto_same {proto : UInt8} {handler : PM World} {m : Mbuf} {post : World → Mbuf → Prop}
    (same : field8 m.bytes ipNextProtoId = proto) (handled : Ends handler m.seen post) :
    Ends (ifProto proto w handler) m post := by
  unfold ifProto
  apply ends_read8
  rw [if_pos same]
  exact handled

theorem ipProcess_ends : Ends (ipProcess K isn free w) ⟨bytes, 0, false⟩ fun done m' =>
    Treated bytes (.ip bytes) done.2 m' := by
  unfold ipProcess Treatment.ip
  by_cases udp : field8 bytes ipNextProtoId = ipprotoUdp
  · have tcp : field8 bytes ipNextProtoId ≠ ipprotoTcp := by
      rw [udp]
      decide
    have icmp : field8 bytes ipNextProtoId ≠ ipprotoIcmp := by
      rw [udp]
      decide
    have freed : Ends (Prod.snd <$> udpProcess w) ⟨bytes, 0, false⟩ fun _ m' =>
        m' = ⟨bytes, 1, false⟩ := (udpProcess_ends w ⟨bytes, 0, false⟩).map
    rw [if_pos udp]
    refine (ifProto_same udp freed).bind ?_
    rintro w _ rfl
    -- the buffer is free when the protocol is read again
    refine (ifProto_other tcp).bind ?_
    rintro w _ rfl
    apply ends_read8
    rw [if_neg (by exact icmp)]
    exact .pure ⟨rfl, rfl⟩
  · rw [if_neg udp]
    refine (ifProto_other udp).bind ?_
    rintro w _ rfl
    by_cases tcp : field8 bytes ipNextProtoId = ipprotoTcp
    · have icmp : field8 bytes ipNextProtoId ≠ ipprotoIcmp := by
        rw [tcp]
        decide
      have forgotten : Ends (Prod.snd <$> ngTcpProcessMbuf K isn w) ⟨bytes, 0, false⟩ fun _ m' =>
          m' = ⟨bytes, 0, false⟩ := (ngTcpProcessMbuf_ends K isn w ⟨bytes, 0, false⟩).map
      rw [if_neg fun echo => icmp echo.1]
      refine (ifProto_same tcp forgotten).bind ?_
      rintro w _ rfl
      apply ends_read8
      rw [if_neg (by exact icmp)]
      exact .pure ⟨rfl, rfl⟩
    · refine (ifProto_other tcp).bind ?_
      rintro w _ rfl
      apply ends_read8
      refine .ite (fun icmp => ?_) fun other => ?_
      · have proto : field8 bytes ipNextProtoId = ipprotoIcmp := icmp
        simp only [proto, true_and]
        apply icmpProcess_ends.bind
        intro reply m' treated
        exact .pure treated
      · rw [if_neg fun echo => other echo.1]
        exact .pure ⟨rfl, rfl⟩

/-- What becomes of a buffer, and whether it is answered, depends on its bytes alone. -/
theorem pktProcess_ends (K : Cksums) (isn : UInt32) (free : Nat) (w : World)
    (entries : List ArpEntry) (bytes : List UInt8) :
    Ends (pktProcess K isn free w entries) ⟨bytes, 0, false⟩ fun done m' =>
      Treated bytes (.of bytes) done.2.2 m' := by
  unfold pktProcess Treatment.of
  apply ends_read16
  refine .ite (fun arp => ?_) fun other => .ite (fun neither => ?_) fun ip => ?_
  · rw [if_pos arp]
    apply ends_read32
    rw [fresh_seen]
    refine .ite (fun here => ?_) fun elsewhere => ?_
    · rw [if_pos here]
      apply arpProcess_ends.bind
      rintro ⟨entries, reply⟩ m' treated
      exact .pure treated
    · rw [if_neg elsewhere]
      exact .pure ⟨rfl, rfl⟩
  · rw [if_neg other, if_neg neither]
    exact .pure ⟨rfl, rfl⟩
  · rw [if_neg other, if_pos (not_not.mp ip)]
    apply ipProcess_ends.bind
    rintro ⟨w, reply⟩ m' treated
    exact .pure treated

end Handlers

end LinuxCpp.Ustack
