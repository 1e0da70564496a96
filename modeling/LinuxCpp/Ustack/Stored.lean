import LinuxCpp.C.Returns
import LinuxCpp.Ustack.Machine
import LinuxCpp.Ustack.Receive

set_option autoImplicit false

/- What an established stream acknowledges. `ng_tcp_handle_established` does not look at
the result of `ng_tcp_enqueue_recvbuffer`, nor that one at the result of the ring. -/
namespace LinuxCpp.Ustack

open C

/-- A fragment with the payload of the segment was put on the receive ring. -/
def Stream.Stores (s : Stream) (seg : Segment) (s' : Stream) : Prop :=
  ∃ r f more, s.rcvbuf = some r ∧ f.bytes = seg.data ∧
    s'.rcvbuf.map Ring.entries = some (r.entries ++ f :: more)

/-- The fragments on the ring of the stream acknowledge no more than before. -/
def Stream.Unacknowledged (s s' : Stream) : Prop :=
  ∀ f ∈ (s'.sndbuf.map Ring.entries).getD [],
    f ∈ (s.sndbuf.map Ring.entries).getD [] ∨ f.acknum = s.rcvNxt

/-- The payload is stored, or else `rcv_nxt` and the receive ring stay as they are and
nothing is acknowledged. -/
def Stream.Answers (s : Stream) (seg : Segment) (s' : Stream) : Prop :=
  s.Stores seg s' ∨ (s'.rcvNxt = s.rcvNxt ∧ s'.rcvbuf = s.rcvbuf ∧ s.Unacknowledged s')

/-- The receive ring has a place, and the fragment and its data are granted. -/
def Stream.Takes (s : Stream) (A : Allocator) : Prop :=
  A.grants A.calls = true ∧ A.grants (A.calls + 1) = true ∧
    ∃ r, s.rcvbuf = some r ∧ r.entries.length < ringSize - 1

/-- A segment without PSH and FIN, or one with PSH whose payload finds its place; if the
stream has no ring to send on, the ACKs are refused. -/
def Stream.Keeps (s : Stream) (seg : Segment) (A : Allocator) : Prop :=
  (seg.has tcpPshFlag = false ∧ seg.has tcpFinFlag = false) ∨
  (seg.has tcpPshFlag = true ∧ s.Takes A ∧ (s.sndbuf = none → A.grants (A.calls + 2) = false ∧
    (seg.has tcpFinFlag = true → A.grants (A.calls + 4) = false)))

section Handlers

variable {s : Stream} {seg : Segment} {A : Allocator} {r : Ring Fragment}

theorem Segment.WellFormed.length_lt (formed : seg.WellFormed) : seg.data.length < 2 ^ 16 := by
  have length := formed.payloadlen
  have small := seg.totalLength.toNat_lt
  simp only [Segment.payloadlen, Segment.tcplen] at length
  omega

theorem Segment.WellFormed.positive (formed : seg.WellFormed) (some_ : seg.data ≠ []) :
    0 < seg.payloadlen seg.tcplen := by
  have length := formed.payloadlen
  have := List.length_pos_iff.mpr some_
  omega

/-- The fragment with the payload. -/
def Segment.fragment (seg : Segment) : Fragment :=
  { Fragment.zeroed with
    dport := ntohs seg.dstPort, sport := ntohs seg.srcPort,
    data := some seg.data, length := .ofNat seg.data.length }

/-- The call with a payload, its two allocations granted. -/
theorem ngTcpEnqueueRecvbuffer_granted (formed : seg.WellFormed) (some_ : seg.data ≠ [])
    (first : A.grants A.calls = true) (second : A.grants (A.calls + 1) = true) :
    ngTcpEnqueueRecvbuffer s seg seg.tcplen A =
      (enqueue s.rcvbuf seg.fragment).map fun rcvbuf =>
        ((0, { s with rcvbuf := rcvbuf }), A.next.next) := by
  have positive := formed.positive some_
  simp only [ngTcpEnqueueRecvbuffer]
  rw [bind_ok (malloc_granted first)]
  simp only
  rw [if_pos positive, bind_ok (malloc_granted (by exact second))]
  simp only
  rw [lift_bind_ok formed.payload, formed.payloadlen, ofInt_natCast]
  cases queued : enqueue s.rcvbuf seg.fragment with
  | error fault => exact lift_bind_error queued
  | ok rcvbuf => exact lift_bind_ok queued

theorem ngTcpEnqueueRecvbuffer_refused (formed : seg.WellFormed) (some_ : seg.data ≠ [])
    (refused : ¬ (A.grants A.calls = true ∧ A.grants (A.calls + 1) = true)) :
    ∃ B, ngTcpEnqueueRecvbuffer s seg seg.tcplen A = .ok ((-1, s), B) := by
  have positive := formed.positive some_
  simp only [ngTcpEnqueueRecvbuffer]
  cases first : A.grants A.calls with
  | false =>
      rw [bind_ok (malloc_refused first)]
      exact ⟨_, rfl⟩
  | true =>
      have second : A.grants (A.calls + 1) = false := by simpa [first] using refused
      rw [bind_ok (malloc_granted first)]
      simp only
      rw [if_pos positive, bind_ok (malloc_refused (by exact second))]
      exact ⟨_, rfl⟩

theorem ngTcpSendAckpkt_leaves : Leaves (ngTcpSendAckpkt s seg) A fun done B =>
    B = A.next ∧ (∃ sndbuf, done.2 = { s with sndbuf := sndbuf }) ∧
      (s.sndbuf = none → A.grants A.calls = false ∧ done.2.sndbuf = none) := by
  unfold ngTcpSendAckpkt
  refine .malloc (fun refused => .pure ⟨rfl, ⟨s.sndbuf, rfl⟩, fun none_ => ⟨refused, none_⟩⟩)
    fun _ => .skip fun sndbuf queued => .pure ⟨rfl, ⟨sndbuf, rfl⟩, fun none_ => ?_⟩
  rw [none_] at queued
  cases queued

theorem ngTcpSendAckpkt_sent (seg : Segment) (able : s.sndbuf = none → A.grants A.calls = false) :
    ∃ ret sndbuf, ngTcpSendAckpkt s seg A = .ok ((ret, { s with sndbuf := sndbuf }), A.next) ∧
      (sndbuf = none → s.sndbuf = none) := by
  simp only [ngTcpSendAckpkt]
  cases granted : A.grants A.calls with
  | false =>
      rw [bind_ok (malloc_refused granted)]
      exact ⟨-1, s.sndbuf, rfl, id⟩
  | true =>
      rw [bind_ok (malloc_granted granted)]
      cases ring : s.sndbuf with
      | none => simp [able ring] at granted
      | some q => exact ⟨0, _, rfl, fun none_ => by cases none_⟩

/-- What the PSH branch leaves, if it returns. -/
theorem receivePush_leaves (formed : seg.WellFormed) (some_ : seg.data ≠ []) :
    Leaves (receivePush s seg seg.tcplen) A fun s' B =>
      s'.rcvNxt = s.rcvNxt + .ofNat seg.data.length ∧
      (s'.rcvbuf = s.rcvbuf ∨ (s.Takes A ∧ B = A.next.next.next ∧
        (s.sndbuf = none → A.grants (A.calls + 2) = false ∧ s'.sndbuf = none))) := by
  have length := formed.payloadlen
  unfold receivePush
  by_cases granted : A.grants A.calls = true ∧ A.grants (A.calls + 1) = true
  · cases ring : s.rcvbuf with
    | none =>
        have fails : ngTcpEnqueueRecvbuffer s seg seg.tcplen A = .error .nullDeref := by
          rw [ngTcpEnqueueRecvbuffer_granted formed some_ granted.1 granted.2, ring]
          rfl
        refine ⟨fun s' B ran => ?_⟩
        rw [bind_error fails] at ran
        cases ran
    | some r =>
        refine .step (by rw [ngTcpEnqueueRecvbuffer_granted formed some_ granted.1 granted.2, ring]
                         rfl) (.bind ngTcpSendAckpkt_leaves ?_)
        rintro ⟨ret, _⟩ B ⟨rfl, ⟨sndbuf, rfl⟩, nowhere⟩
        refine .pure ⟨by rw [length, ofInt_natCast], ?_⟩
        by_cases room : r.entries.length < ringSize - 1
        · exact .inr ⟨⟨granted.1, granted.2, r, ring, room⟩, rfl, nowhere⟩
        · have full : r.enqueue seg.fragment = r := if_neg room
          exact .inl (by rw [full])
  · obtain ⟨B, ran⟩ := ngTcpEnqueueRecvbuffer_refused (s := s) formed some_ granted
    refine .step ran (.bind ngTcpSendAckpkt_leaves ?_)
    rintro ⟨ret, _⟩ C ⟨-, ⟨sndbuf, rfl⟩, -⟩
    exact .pure ⟨by rw [length, ofInt_natCast], .inl rfl⟩

/-- What the FIN branch leaves: at most a fragment without bytes. -/
theorem receiveFin_leaves : Leaves (receiveFin s seg) A fun s' _ =>
    s'.rcvNxt = s.rcvNxt + 1 ∧
    (s'.rcvbuf = s.rcvbuf ∨ ∃ r f, s.rcvbuf = some r ∧ f.bytes = [] ∧
      s'.rcvbuf = some (r.enqueue f)) ∧
    (s.sndbuf = none → A.grants (A.calls + 1) = false) := by
  have negative : ¬ 0 < seg.payloadlen seg.hdrlen := by
    simp only [Segment.payloadlen]
    omega
  unfold receiveFin
  have queued : Leaves (ngTcpEnqueueRecvbuffer { s with status := .closeWait } seg seg.hdrlen) A
      fun done B => B = A.next ∧ (done.2 = { s with status := .closeWait } ∨
        ∃ r f, s.rcvbuf = some r ∧ f.bytes = [] ∧
          done.2 = { s with status := .closeWait, rcvbuf := some (r.enqueue f) }) := by
    unfold ngTcpEnqueueRecvbuffer
    refine .malloc (fun _ => .pure ⟨rfl, .inl rfl⟩) fun _ => ?_
    simp only [if_neg negative]
    refine .after (enqueue_returns _ _) ?_
    rintro _ ⟨r, ring, rfl⟩
    exact .pure ⟨rfl, .inr ⟨r, _, ring, rfl, rfl⟩⟩
  refine .bind queued ?_
  rintro ⟨ret, t⟩ B ⟨rfl, kept⟩
  refine .bind ngTcpSendAckpkt_leaves ?_
  rintro ⟨ret', _⟩ C ⟨rfl, ⟨sndbuf, rfl⟩, nowhere⟩
  rcases kept with rfl | ⟨r, f, ring, empty, rfl⟩
  · exact .pure ⟨rfl, .inl rfl, fun none_ => (nowhere none_).1⟩
  · exact .pure ⟨rfl, .inr ⟨r, f, ring, empty, rfl⟩, fun none_ => (nowhere none_).1⟩

theorem Ring.enqueue_entries (r : Ring Fragment) (f : Fragment) :
    ∃ more, (more = [] ∨ more = [f]) ∧ r.enqueue f = { r with entries := r.entries ++ more } := by
  unfold Ring.enqueue
  split
  · exact ⟨[f], .inr rfl, rfl⟩
  · exact ⟨[], .inl rfl, by rw [List.append_nil]⟩

/-- The FIN branch returns, and leaves on the receive ring what was there. -/
theorem receiveFin_keeps (seg : Segment) (ring : s.rcvbuf = some r)
    (able : s.sndbuf = none → A.grants (A.calls + 1) = false) :
    ∃ s' B more, receiveFin s seg A = .ok (s', B) ∧
      s'.rcvbuf = some { r with entries := r.entries ++ more } := by
  have negative : ¬ 0 < seg.payloadlen seg.hdrlen := by
    simp only [Segment.payloadlen]
    omega
  have queued : ∃ ret more, ngTcpEnqueueRecvbuffer { s with status := .closeWait } seg
      seg.hdrlen A = .ok ((ret, { s with
        status := .closeWait, rcvbuf := some { r with entries := r.entries ++ more } }),
        A.next) := by
    simp only [ngTcpEnqueueRecvbuffer]
    cases granted : A.grants A.calls with
    | false =>
        rw [bind_ok (malloc_refused granted)]
        exact ⟨-1, [], by rw [List.append_nil, ← ring]; rfl⟩
    | true =>
        obtain ⟨more, -, entries⟩ := r.enqueue_entries
          { Fragment.zeroed with dport := ntohs seg.dstPort, sport := ntohs seg.srcPort }
        rw [bind_ok (malloc_granted granted)]
        simp only
        rw [if_neg negative, ring]
        exact ⟨0, more, by rw [← entries]; rfl⟩
  obtain ⟨ret, more, ran⟩ := queued
  unfold receiveFin
  rw [bind_ok ran]
  simp only
  obtain ⟨ret', sndbuf, sent, -⟩ := ngTcpSendAckpkt_sent seg (A := A.next) (s := { s with
    status := .closeWait, rcvbuf := some { r with entries := r.entries ++ more },
    rcvNxt := s.rcvNxt + 1, sndNxt := seg.recvAck }) able
  rw [bind_ok sent]
  exact ⟨_, _, more, rfl, rfl⟩

/-- The PSH branch stores the payload. -/
theorem receivePush_stores (formed : seg.WellFormed) (some_ : seg.data ≠ []) (takes : s.Takes A)
    (ring : s.rcvbuf = some r) (able : s.sndbuf = none → A.grants (A.calls + 2) = false) :
    ∃ s', receivePush s seg seg.tcplen A = .ok (s', A.next.next.next) ∧
      s'.rcvbuf = some { r with entries := r.entries ++ [seg.fragment] } ∧
      (s'.sndbuf = none → s.sndbuf = none) := by
  obtain ⟨first, second, r', ring', room⟩ := takes
  cases ring.symm.trans ring'
  have placed : r.enqueue seg.fragment = { r with entries := r.entries ++ [seg.fragment] } :=
    if_pos room
  have ran : ngTcpEnqueueRecvbuffer s seg seg.tcplen A = .ok ((0, { s with
      rcvbuf := some { r with entries := r.entries ++ [seg.fragment] } }), A.next.next) := by
    rw [ngTcpEnqueueRecvbuffer_granted formed some_ first second, ring, enqueue, placed]
    rfl
  unfold receivePush
  rw [bind_ok ran]
  simp only
  obtain ⟨ret, sndbuf, sent, nowhere⟩ := ngTcpSendAckpkt_sent seg (A := A.next.next)
    (s := { s with
      rcvbuf := some { r with entries := r.entries ++ [seg.fragment] },
      rcvNxt := s.rcvNxt + .ofInt (seg.payloadlen seg.tcplen), sndNxt := seg.recvAck }) able
  rw [bind_ok sent]
  exact ⟨_, rfl, rfl, nowhere⟩

/-- A receive ring that took no bytes has not stored the payload. -/
theorem Stream.not_stores {s' : Stream} (some_ : seg.data ≠ [])
    (took : s'.rcvbuf = s.rcvbuf ∨ ∃ r f, s.rcvbuf = some r ∧ f.bytes = [] ∧
      s'.rcvbuf = some (r.enqueue f)) : ¬ s.Stores seg s' := by
  rintro ⟨r, f, more, ring, bytes, entries⟩
  rcases took with same | ⟨r', f', ring', empty, same⟩
  · simp [same, ring] at entries
  · cases ring.symm.trans ring'
    obtain ⟨fs, one, enqueued⟩ := r.enqueue_entries f'
    rw [same, enqueued] at entries
    have tail : fs = f :: more := by simpa using entries
    rcases one with rfl | rfl
    · cases tail
    · cases tail
      exact some_ (bytes.symm.trans empty)

/-- The number moves over a payload, also with the FIN behind it. -/
theorem Segment.WellFormed.moved (formed : seg.WellFormed) (some_ : seg.data ≠ []) (n : UInt32) :
    n + .ofNat seg.data.length ≠ n ∧ n + .ofNat seg.data.length + 1 ≠ n := by
  have small := formed.length_lt
  have positive := List.length_pos_iff.mpr some_
  have bound := n.toNat_lt
  constructor <;>
  · intro same
    have nat := congrArg UInt32.toNat same
    simp only [UInt32.toNat_add, UInt32.toNat_ofNat', UInt32.reduceToNat] at nat
    omega

/-- What is answered was kept. -/
theorem ngTcpHandleEstablished_kept (formed : seg.WellFormed) (some_ : seg.data ≠ []) :
    Leaves (ngTcpHandleEstablished s seg seg.tcplen) A fun done _ =>
      s.Answers seg done.2 → s.Keeps seg A := by
  unfold ngTcpHandleEstablished
  cases push : seg.has tcpPshFlag with
  | false =>
      cases fin : seg.has tcpFinFlag with
      | false => exact ⟨fun _ _ _ _ => .inl ⟨push, fin⟩⟩
      | true =>
          refine .step rfl (.bind receiveFin_leaves ?_)
          rintro s' B ⟨number, took, -⟩
          refine .pure ?_
          rintro (stores | ⟨same, -⟩)
          · exact absurd stores (Stream.not_stores some_ took)
          · simp [number] at same
  | true =>
      refine .bind (receivePush_leaves formed some_) ?_
      rintro s₁ B ⟨number, same | ⟨takes, rfl, nowhere⟩⟩
      · -- the payload is lost and the number has moved
        cases fin : seg.has tcpFinFlag with
        | false =>
            refine .step rfl (.pure ?_)
            rintro (stores | ⟨unmoved, -⟩)
            · exact absurd stores (Stream.not_stores some_ (.inl same))
            · exact absurd (number.symm.trans unmoved) (formed.moved some_ _).1
        | true =>
            refine .bind receiveFin_leaves ?_
            rintro s₂ C ⟨number', took, -⟩
            refine .pure ?_
            rintro (stores | ⟨unmoved, -⟩)
            · rw [same] at took
              exact absurd stores (Stream.not_stores some_ took)
            · rw [number', number] at unmoved
              exact absurd unmoved (formed.moved some_ _).2
      · cases fin : seg.has tcpFinFlag with
        | false => exact ⟨fun _ _ _ _ => .inr ⟨push, takes, fun none_ =>
            ⟨(nowhere none_).1, fun yes => by simp [fin] at yes⟩⟩⟩
        | true =>
            refine .bind receiveFin_leaves ?_
            rintro s₂ C ⟨-, -, able⟩
            refine .pure fun _ => .inr ⟨push, takes, fun none_ => ?_⟩
            exact ⟨(nowhere none_).1, fun _ => able (nowhere none_).2⟩

/-- What is kept is answered. -/
theorem ngTcpHandleEstablished_answers (formed : seg.WellFormed) (some_ : seg.data ≠ [])
    (keeps : s.Keeps seg A) :
    ∃ s' B, ngTcpHandleEstablished s seg seg.tcplen A = .ok ((0, s'), B) ∧
      s.Answers seg s' := by
  rcases keeps with ⟨push, fin⟩ | ⟨push, takes, able⟩
  · refine ⟨s, A, ?_, .inr ⟨rfl, rfl, fun f queued => .inl queued⟩⟩
    simp only [ngTcpHandleEstablished, push, fin]
    rfl
  · obtain ⟨r, ring, -⟩ := takes.2.2
    obtain ⟨s₁, ran, stored, nowhere⟩ :=
      receivePush_stores formed some_ takes ring fun none_ => (able none_).1
    simp only [ngTcpHandleEstablished, push, if_true]
    rw [bind_ok ran]
    cases fin : seg.has tcpFinFlag with
    | false => exact ⟨s₁, _, rfl, .inl ⟨r, seg.fragment, [], ring, rfl, by rw [stored]; rfl⟩⟩
    | true =>
        obtain ⟨s₂, B, more, ran', stored'⟩ := receiveFin_keeps seg
          (A := A.next.next.next) stored fun none_ => (able (nowhere none_)).2 fin
        simp only [if_true]
        rw [bind_ok ran']
        refine ⟨s₂, B, rfl, .inl ⟨r, seg.fragment, more, ring, rfl, ?_⟩⟩
        rw [stored']
        simp

/-- Exactly the segments that are kept are answered as they should be. -/
theorem established_answers_iff (formed : seg.WellFormed) (some_ : seg.data ≠ []) :
    (∃ s' B, ngTcpHandleEstablished s seg seg.tcplen A = .ok ((0, s'), B) ∧ s.Answers seg s') ↔
      s.Keeps seg A := by
  constructor
  · rintro ⟨s', B, ran, answers⟩
    exact (ngTcpHandleEstablished_kept formed some_).of_ok _ _ ran answers
  · exact ngTcpHandleEstablished_answers formed some_

end Handlers

/-- Three bytes with the push flag. -/
def pushedSegment : Segment := sampleSegment 10 (tcpPshFlag ||| tcpAckFlag) [1, 2, 3]

theorem pushedSegment_wellFormed : pushedSegment.WellFormed where
  cksum := rfl
  header := by decide
  inside := by decide
  whole := by decide

theorem established_answers_pushed :
    (∃ s' B, ngTcpHandleEstablished sampleStream pushedSegment pushedSegment.tcplen .plentiful =
      .ok ((0, s'), B) ∧ sampleStream.Answers pushedSegment s') ↔
      sampleStream.Keeps pushedSegment .plentiful :=
  established_answers_iff pushedSegment_wellFormed (by decide)

/-- The fragment is refused, the memory of the ACK is granted. -/
theorem refused_payload_acknowledged :
    let A : Allocator := ⟨fun call => call ≠ 0, fun _ _ => 0, 0, []⟩
    sampleStream.status = .established ∧ pushedSegment.WellFormed ∧ pushedSegment.data = [1, 2, 3] ∧
    (∃ s' B, ngTcpHandleEstablished sampleStream pushedSegment pushedSegment.tcplen A =
      .ok ((0, s'), B) ∧ s'.rcvbuf = sampleStream.rcvbuf ∧ s'.rcvNxt = sampleStream.rcvNxt + 3 ∧
      (s'.sndbuf.map fun r => r.entries.map Fragment.acknum) = some [sampleStream.rcvNxt + 3]) ∧
    ¬ ∃ s' B, ngTcpHandleEstablished sampleStream pushedSegment pushedSegment.tcplen A =
      .ok ((0, s'), B) ∧ sampleStream.Answers pushedSegment s' := by
  refine ⟨rfl, pushedSegment_wellFormed, rfl, ⟨_, _, rfl, rfl, rfl, rfl⟩, ?_⟩
  rintro ⟨s', B, ran, answers⟩
  cases ran
  rcases answers with ⟨r, f, more, ring, -, entries⟩ | ⟨number, -, -⟩
  · cases ring
    simp [sampleStream] at entries
  · exact absurd number (by decide)

end LinuxCpp.Ustack
