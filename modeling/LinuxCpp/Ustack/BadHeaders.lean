import LinuxCpp.Ustack.Lifetimes
import LinuxCpp.Ustack.Stored

set_option autoImplicit false

/- Segments whose header length is not one. The receive path does not check it: the
difference to the length of the datagram moves `rcv_nxt` by whatever it is. -/
namespace LinuxCpp.Ustack

open C

/-- The header is too short, or longer than the datagram. -/
def Segment.Malformed (seg : Segment) : Prop :=
  seg.hdrlen * 4 < 20 ∨ seg.tcplen < (seg.hdrlen * 4 : Int)

/-- What a segment that is thrown away leaves of the stream. -/
structure Stream.Untouched (s s' : Stream) : Prop where
  status : s'.status = s.status
  rcvNxt : s'.rcvNxt = s.rcvNxt
  sndNxt : s'.sndNxt = s.sndNxt
  rcvbuf : s'.rcvbuf = s.rcvbuf

/-- A fragment without payload is refused or finds the ring full, and the ACK behind it
needs no ring that is missing. -/
def Stream.Deaf (s : Stream) (A : Allocator) : Prop :=
  (A.grants A.calls = true → ∃ r, s.rcvbuf = some r ∧ ringSize - 1 ≤ r.entries.length) ∧
    (s.sndbuf = none → A.grants (A.calls + 1) = false)

/-- No flag that counts, or a push of nothing that acknowledges nothing new. -/
def Segment.Ignored (seg : Segment) (s : Stream) (A : Allocator) : Prop :=
  seg.has tcpFinFlag = false ∧ (seg.has tcpPshFlag = true →
    seg.payloadlen seg.tcplen = 0 ∧ seg.recvAck = s.sndNxt ∧ s.Deaf A)

section Handlers

variable {s : Stream} {seg : Segment} {A : Allocator}

/-- A difference of lengths that leaves a counter where it is. -/
theorem payloadlen_eq_zero {n : UInt32} (same : n + .ofInt (seg.payloadlen seg.tcplen) = n) :
    seg.payloadlen seg.tcplen = 0 := by
  have words := (seg.dataOff >>> 4).toNat_lt
  have total := seg.totalLength.toNat_lt
  have bound := n.toNat_lt
  have nat := congrArg UInt32.toNat same
  rw [UInt32.toNat_add, UInt32.ofInt, UInt32.toNat_ofNat'] at nat
  simp only [Segment.payloadlen, Segment.tcplen, Segment.hdrlen] at nat ⊢
  omega

/-- The fragment that stands for no payload. -/
def Segment.blank (seg : Segment) : Fragment :=
  { Fragment.zeroed with dport := ntohs seg.dstPort, sport := ntohs seg.srcPort }

theorem ngTcpEnqueueRecvbuffer_blank {len : Int} (nothing : ¬ 0 < seg.payloadlen len)
    (granted : A.grants A.calls = true) :
    ngTcpEnqueueRecvbuffer s seg len A = (enqueue s.rcvbuf seg.blank).map fun rcvbuf =>
      ((0, { s with rcvbuf := rcvbuf }), A.next) := by
  simp only [ngTcpEnqueueRecvbuffer]
  rw [bind_ok (malloc_granted granted)]
  simp only
  rw [if_neg nothing]
  cases queued : enqueue s.rcvbuf seg.blank with
  | error fault => exact lift_bind_error queued
  | ok rcvbuf => exact lift_bind_ok queued

theorem ngTcpEnqueueRecvbuffer_refuses {len : Int} (refused : A.grants A.calls = false) :
    ngTcpEnqueueRecvbuffer s seg len A = .ok ((-1, s), A.next) := by
  simp only [ngTcpEnqueueRecvbuffer]
  rw [bind_ok (malloc_refused refused)]
  rfl

/-- A push that leaves everything in its place pushed nothing. -/
theorem receivePush_ignored : Leaves (receivePush s seg seg.tcplen) A fun s' _ =>
    s.Untouched s' →
      seg.payloadlen seg.tcplen = 0 ∧ seg.recvAck = s.sndNxt ∧ s.Deaf A := by
  by_cases nothing : seg.payloadlen seg.tcplen = 0
  · have none_ : ¬ 0 < seg.payloadlen seg.tcplen := by omega
    unfold receivePush
    cases grants : A.grants A.calls with
    | false =>
        refine .step (ngTcpEnqueueRecvbuffer_refuses grants) (.bind ngTcpSendAckpkt_leaves ?_)
        rintro ⟨ret, _⟩ B ⟨rfl, ⟨sndbuf, rfl⟩, nowhere⟩
        refine .pure fun untouched => ⟨nothing, untouched.sndNxt, ?_, fun bare => (nowhere bare).1⟩
        simp [grants]
    | true =>
        have ran := ngTcpEnqueueRecvbuffer_blank (s := s) none_ grants
        cases ring : s.rcvbuf with
        | none =>
            rw [ring] at ran
            refine ⟨fun s' B returned => ?_⟩
            rw [bind_error ran] at returned
            cases returned
        | some r =>
            rw [ring] at ran
            refine .step ran (.bind ngTcpSendAckpkt_leaves ?_)
            rintro ⟨ret, _⟩ B ⟨rfl, ⟨sndbuf, rfl⟩, nowhere⟩
            refine .pure fun untouched =>
              ⟨nothing, untouched.sndNxt, fun _ => ⟨r, ring, ?_⟩, fun bare => (nowhere bare).1⟩
            have same : some (r.enqueue seg.blank) = s.rcvbuf := untouched.rcvbuf
            rw [ring] at same
            by_contra place
            have longer := congrArg (fun q => q.entries.length) (Option.some.inj same)
            rw [Ring.enqueue, if_pos (Nat.not_le.mp place)] at longer
            simp at longer
  · refine ⟨fun s' B returned untouched => ?_⟩
    obtain ⟨rcvbuf, sndbuf, shape⟩ := (receivePush_returns s seg.tcplen).of_ok returned
    have number : s'.rcvNxt = s.rcvNxt + .ofInt (seg.payloadlen seg.tcplen) :=
      congrArg Stream.rcvNxt shape
    exact absurd (payloadlen_eq_zero (number.symm.trans untouched.rcvNxt)) nothing

/-- And the other way round. -/
theorem receivePush_untouched (nothing : seg.payloadlen seg.tcplen = 0)
    (known : seg.recvAck = s.sndNxt) (deaf : s.Deaf A) :
    ∃ s' B, receivePush s seg seg.tcplen A = .ok (s', B) ∧ s.Untouched s' ∧ s'.addr = s.addr := by
  have none_ : ¬ 0 < seg.payloadlen seg.tcplen := by omega
  have queued : ∃ ret, ngTcpEnqueueRecvbuffer s seg seg.tcplen A = .ok ((ret, s), A.next) := by
    cases grants : A.grants A.calls with
    | false => exact ⟨-1, ngTcpEnqueueRecvbuffer_refuses grants⟩
    | true =>
        obtain ⟨r, ring, full⟩ := deaf.1 grants
        have same : r.enqueue seg.blank = r := if_neg (Nat.not_lt.mpr full)
        refine ⟨0, ?_⟩
        rw [ngTcpEnqueueRecvbuffer_blank none_ grants, ring, enqueue, same, ← ring]
        rfl
  obtain ⟨ret, ran⟩ := queued
  obtain ⟨ret', sndbuf, sent, -⟩ := ngTcpSendAckpkt_sent seg (A := A.next) (s := { s with
    rcvNxt := s.rcvNxt + .ofInt (seg.payloadlen seg.tcplen), sndNxt := seg.recvAck }) deaf.2
  have unmoved : s.rcvNxt + .ofInt (seg.payloadlen seg.tcplen) = s.rcvNxt := by
    rw [nothing]
    exact UInt32.add_zero s.rcvNxt
  unfold receivePush
  rw [bind_ok ran]
  simp only
  rw [bind_ok sent]
  exact ⟨_, _, rfl, ⟨rfl, unmoved, known, rfl⟩, rfl⟩

/-- The handler leaves the stream in its place exactly for the segments that it ignores. -/
theorem ngTcpHandleEstablished_untouched_iff (status : s.status = .established) :
    (∃ ret s' B, ngTcpHandleEstablished s seg seg.tcplen A = .ok ((ret, s'), B) ∧
      s.Untouched s' ∧ s'.addr = s.addr) ↔ seg.Ignored s A := by
  constructor
  · rintro ⟨ret, s', B, ran, untouched, -⟩
    obtain ⟨rcvbuf, sndbuf, rcvNxt, shape⟩ :=
      (ngTcpHandleEstablished_returns s seg.tcplen).of_ok ran
    cases fin : seg.has tcpFinFlag with
    | true =>
        have closed := untouched.status
        rw [(congrArg Stream.status shape : s'.status = _), fin, status] at closed
        cases closed
    | false =>
        refine ⟨fin, fun push => ?_⟩
        simp only [ngTcpHandleEstablished, push, fin, if_true] at ran
        obtain ⟨s₁, B₁, pushed, rest⟩ := run_of_bind ran
        cases rest
        exact receivePush_ignored.of_ok _ _ pushed untouched
  · rintro ⟨fin, ignored⟩
    simp only [ngTcpHandleEstablished, fin]
    cases push : seg.has tcpPshFlag with
    | false => exact ⟨0, s, A, rfl, ⟨rfl, rfl, rfl, rfl⟩, rfl⟩
    | true =>
        obtain ⟨nothing, known, deaf⟩ := ignored push
        obtain ⟨s', B, ran, untouched, block⟩ := receivePush_untouched nothing known deaf
        simp only [if_true]
        rw [bind_ok ran]
        exact ⟨0, s', B, rfl, untouched, block⟩

end Handlers

section Process

variable {isn : UInt32} {w : World} {s : Stream} {seg : Segment} {A : Allocator}

/-- The segment goes to the handler of established streams. -/
theorem ngTcpProcess_toEstablished (receives : Receives w seg s)
    (status : s.status = .established) :
    ngTcpProcess isn w seg = (do
      let (_, stream) ← ngTcpHandleEstablished s seg seg.tcplen
      return (0, w.put stream)) := by
  simp only [ngTcpProcess, receives.1, receives.2, status]
  rfl

/-- A segment, whatever its header says, leaves its stream in its place exactly if it is ignored. -/
theorem ngTcpProcess_untouched_iff (receives : Receives w seg s)
    (status : s.status = .established) :
    (∃ ret w' B, ngTcpProcess isn w seg A = .ok ((ret, w'), B) ∧
      ∀ s' ∈ w'.tcbSet, s'.addr = s.addr → s.Untouched s') ↔ seg.Ignored s A := by
  rw [ngTcpProcess_toEstablished receives status,
    ← ngTcpHandleEstablished_untouched_iff (A := A) status]
  constructor
  · rintro ⟨ret, w', B, ran, untouched⟩
    obtain ⟨⟨ret', s'⟩, B', handled, rest⟩ := run_of_bind ran
    cases rest
    obtain ⟨rcvbuf, sndbuf, rcvNxt, shape⟩ :=
      (ngTcpHandleEstablished_returns s seg.tcplen).of_ok handled
    have block : s'.addr = s.addr := (congrArg Stream.addr shape : s'.addr = _)
    have member := put_mem (mem_of_search receives.2) block
    exact ⟨ret', s', _, handled, untouched s' member block, block⟩
  · rintro ⟨ret, s', B, handled, untouched, block⟩
    refine ⟨0, w.put s', B, ?_, fun t member same => ?_⟩
    · rw [bind_ok handled]
      rfl
    · rcases mem_put member with rfl | ⟨-, other⟩
      · exact untouched
      · exact absurd (same.trans block.symm) other

end Process

/-- A push whose header is said to have 60 bytes, in a datagram of 20. -/
def longHeader : Segment :=
  { sampleSegment 10 (tcpPshFlag ||| tcpAckFlag) [] with dataOff := 0xf0 }

theorem ngTcpProcess_untouched_long :
    (∃ ret w' B, ngTcpProcess 7 sampleWorld longHeader .plentiful = .ok ((ret, w'), B) ∧
      ∀ s' ∈ w'.tcbSet, s'.addr = sampleStream.addr → sampleStream.Untouched s') ↔
      longHeader.Ignored sampleStream .plentiful :=
  ngTcpProcess_untouched_iff ⟨rfl, rfl⟩ rfl

/-- The number goes back by 40. -/
theorem longHeader_moves : longHeader.Malformed ∧ Receives sampleWorld longHeader sampleStream ∧
    ¬ ∃ ret w' B, ngTcpProcess 7 sampleWorld longHeader .plentiful = .ok ((ret, w'), B) ∧
      ∀ s' ∈ w'.tcbSet, s'.addr = sampleStream.addr → sampleStream.Untouched s' := by
  refine ⟨.inr (by decide), ⟨rfl, rfl⟩, ?_⟩
  rintro ⟨ret, w', B, ran, untouched⟩
  cases ran
  have still := (untouched _ List.mem_cons_self rfl).rcvNxt
  exact absurd still (by decide)

end LinuxCpp.Ustack
