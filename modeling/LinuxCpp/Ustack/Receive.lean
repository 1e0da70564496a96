import LinuxCpp.C.Refusal
import LinuxCpp.Ustack.Tcp

set_option autoImplicit false

/- What the handler of established streams does with a well-formed segment. It stores
the payload of a segment with PSH, wherever in the stream of the peer it belongs. -/
namespace LinuxCpp.Ustack

open C

/-- The header is whole, lies inside the TCP length, and the frame is as long as it
says. -/
structure Segment.WellFormed (seg : Segment) : Prop where
  cksum : seg.cksumOk = true
  header : 20 ≤ seg.hdrlen * 4
  inside : (seg.hdrlen * 4 : Int) ≤ seg.tcplen
  whole : seg.tcplen ≤ seg.bytes.length

/-- The payload. -/
def Segment.data (seg : Segment) : List UInt8 :=
  (seg.bytes.drop (seg.hdrlen * 4)).take (seg.payloadlen seg.tcplen).toNat

def Ring.bytes (r : Ring Fragment) : List UInt8 := r.entries.flatMap Fragment.bytes

/-- The bytes in the receive ring of the stream. -/
def Stream.queued (s : Stream) : List UInt8 := (s.rcvbuf.map Ring.bytes).getD []

/-- The stream has both rings. -/
def Stream.Buffered (s : Stream) : Prop := (∃ r, s.rcvbuf = some r) ∧ ∃ r, s.sndbuf = some r

/-- The segment belongs to the connection of the stream. -/
def Segment.To (seg : Segment) (s : Stream) : Prop :=
  s.sip = seg.srcAddr ∧ s.dip = seg.dstAddr ∧ s.sport = seg.srcPort ∧ s.dport = seg.dstPort

theorem ofInt_natCast (n : Nat) : UInt32.ofInt (n : Int) = UInt32.ofNat n := by
  rw [UInt32.ofInt, ← UInt32.toNat_inj]
  simp only [UInt32.toNat_ofNat']
  omega

section Payload

variable {seg : Segment} (formed : seg.WellFormed)

include formed

theorem Segment.WellFormed.payloadlen : seg.payloadlen seg.tcplen = (seg.data.length : Int) := by
  have inside := formed.inside
  have whole := formed.whole
  simp only [Segment.data, Segment.payloadlen, List.length_take, List.length_drop]
  omega

theorem Segment.WellFormed.payload :
    payload seg (seg.payloadlen seg.tcplen).toNat = .ok seg.data := by
  have inside := formed.inside
  have whole := formed.whole
  apply if_pos
  simp only [Segment.payloadlen]
  omega

end Payload

section Handlers

variable {s : Stream} {seg : Segment} {A : Allocator} {r q : Ring Fragment}

/-- A ring after attempts to store `data` in so many fragments. With the memory granted
and the places left they succeed. -/
structure Ring.Took (r r' : Ring Fragment) (data : List UInt8) (places : Nat) (granted : Prop) :
    Prop where
  kept : r'.bytes = r.bytes ∨ r'.bytes = r.bytes ++ data
  stored : granted → r.entries.length + places ≤ ringSize - 1 →
    r'.bytes = r.bytes ++ data ∧ r'.entries.length = r.entries.length + places

theorem Ring.took_refl (r : Ring Fragment) (granted : Prop) : r.Took r [] 0 granted :=
  ⟨.inl rfl, fun _ _ => ⟨(List.append_nil _).symm, rfl⟩⟩

theorem Ring.enqueue_took (r : Ring Fragment) (f : Fragment) (granted : Prop) :
    r.Took (r.enqueue f) f.bytes 1 granted := by
  unfold Ring.enqueue
  split
  · have more : ({ r with entries := r.entries ++ [f] } : Ring Fragment).bytes =
        r.bytes ++ f.bytes := by simp [Ring.bytes]
    exact ⟨.inr more, fun _ _ => ⟨more, by simp⟩⟩
  · refine ⟨.inl rfl, fun _ room => ?_⟩
    omega

theorem Ring.took_refused {granted : Prop} (r : Ring Fragment) (data : List UInt8)
    (refused : ¬ granted) : r.Took r data 1 granted :=
  ⟨.inl rfl, fun yes => absurd yes refused⟩

/-- A further attempt that stores no bytes. -/
theorem Ring.Took.empty {r r₁ r₂ : Ring Fragment} {data : List UInt8} {places more : Nat}
    {granted granted' : Prop} (first : r.Took r₁ data places granted)
    (second : r₁.Took r₂ [] more granted') (later : granted → granted') :
    r.Took r₂ data (places + more) granted := by
  have same : r₂.bytes = r₁.bytes := by
    rcases second.kept with same | same
    · exact same
    · rwa [List.append_nil] at same
  refine ⟨by rw [same]; exact first.kept, fun yes room => ?_⟩
  obtain ⟨bytes, length⟩ := first.stored yes (by omega)
  obtain ⟨-, length'⟩ := second.stored (later yes) (by omega)
  exact ⟨by rw [same, bytes], by omega⟩

theorem payload_length {seg : Segment} {n : Nat} {data : List UInt8}
    (copied : payload seg n = .ok data) : data.length = n := by
  unfold payload at copied
  split at copied
  · cases copied
    rw [List.length_take, List.length_drop]
    omega
  · cases copied

/-- The call stores a fragment with `data`, the bytes it finds between the header and
the length that it was given. -/
theorem ngTcpEnqueueRecvbuffer_run (seg : Segment) (ring : s.rcvbuf = some r) (len : Int)
    (data : List UInt8)
    (some_ : 0 < seg.payloadlen len → payload seg (seg.payloadlen len).toNat = .ok data)
    (none_ : ¬ 0 < seg.payloadlen len → data = []) (A : Allocator) :
    ∃ B, A.Later B ∧
      ((ngTcpEnqueueRecvbuffer s seg len A = .ok ((-1, s), B) ∧ ¬ A.AllSucceed) ∨
      ∃ f : Fragment, ngTcpEnqueueRecvbuffer s seg len A =
        .ok ((0, { s with rcvbuf := some (r.enqueue f) }), B) ∧
        f.bytes = data ∧ f.length = .ofNat data.length) := by
  simp only [ngTcpEnqueueRecvbuffer]
  cases first : A.grants A.calls with
  | false =>
      have refused : ¬ A.AllSucceed := fun granted => by simp [granted A.calls] at first
      rw [bind_ok (malloc_refused first)]
      exact ⟨A.next, .next A, .inl ⟨rfl, refused⟩⟩
  | true =>
      rw [bind_ok (malloc_granted first)]
      simp only
      by_cases positive : 0 < seg.payloadlen len
      · rw [if_pos positive]
        have both := (Allocator.Later.next A).trans (.next _)
        cases second : A.grants (A.calls + 1) with
        | false =>
            have refused : ¬ A.AllSucceed := fun granted => by
              simp [granted (A.calls + 1)] at second
            rw [bind_ok (malloc_refused (by exact second))]
            exact ⟨A.next.next, both, .inl ⟨rfl, refused⟩⟩
        | true =>
            have length := payload_length (some_ positive)
            rw [bind_ok (malloc_granted (by exact second))]
            simp only
            rw [lift_bind_ok (some_ positive), ring]
            refine ⟨A.next.next, both, .inr ⟨_, rfl, rfl, ?_⟩⟩
            rw [← ofInt_natCast, length, Int.toNat_of_nonneg (by omega)]
      · rw [if_neg positive, none_ positive, ring]
        exact ⟨A.next, .next A, .inr ⟨_, rfl, rfl, rfl⟩⟩

/-- The ring after the call. -/
theorem ngTcpEnqueueRecvbuffer_took (seg : Segment) (ring : s.rcvbuf = some r) (len : Int)
    (data : List UInt8)
    (some_ : 0 < seg.payloadlen len → payload seg (seg.payloadlen len).toNat = .ok data)
    (none_ : ¬ 0 < seg.payloadlen len → data = []) (A : Allocator) :
    ∃ ret r' B, ngTcpEnqueueRecvbuffer s seg len A = .ok ((ret, { s with rcvbuf := some r' }), B) ∧
      A.Later B ∧ r.Took r' data 1 A.AllSucceed := by
  obtain ⟨B, later, ⟨ran, refused⟩ | ⟨f, ran, rfl, -⟩⟩ :=
    ngTcpEnqueueRecvbuffer_run seg ring len data some_ none_ A
  · exact ⟨-1, r, B, by rw [← ring]; exact ran, later, r.took_refused data refused⟩
  · exact ⟨0, r.enqueue f, B, ran, later, r.enqueue_took f _⟩

theorem ngTcpSendAckpkt_run (seg : Segment) (ring : s.sndbuf = some q) (A : Allocator) :
    ∃ ret q' B, ngTcpSendAckpkt s seg A = .ok ((ret, { s with sndbuf := some q' }), B) ∧
      A.Later B := by
  have same : s = { s with sndbuf := some q } := by rw [← ring]
  simp only [ngTcpSendAckpkt]
  cases first : A.grants A.calls with
  | false =>
      rw [bind_ok (malloc_refused first)]
      exact ⟨-1, q, A.next, by rw [← same]; rfl, .next A⟩
  | true =>
      rw [bind_ok (malloc_granted first), ring]
      exact ⟨0, _, A.next, rfl, .next A⟩

theorem receivePush_run (formed : seg.WellFormed) (ring : s.rcvbuf = some r)
    (acks : s.sndbuf = some q) (A : Allocator) :
    ∃ r' q' B, receivePush s seg seg.tcplen A = .ok ({ s with
      rcvbuf := some r', sndbuf := some q', rcvNxt := s.rcvNxt + .ofNat seg.data.length,
      sndNxt := seg.recvAck }, B) ∧ A.Later B ∧ r.Took r' seg.data 1 A.AllSucceed := by
  have length := formed.payloadlen
  obtain ⟨ret, r', B, ran, later, took⟩ := ngTcpEnqueueRecvbuffer_took seg ring seg.tcplen
    seg.data (fun _ => formed.payload)
    (fun empty => List.eq_nil_of_length_eq_zero (by omega)) A
  simp only [receivePush]
  rw [bind_ok ran]
  simp only
  obtain ⟨ret', q', C, ran', later'⟩ := ngTcpSendAckpkt_run seg (q := q) (s := { s with
    rcvbuf := some r', rcvNxt := s.rcvNxt + .ofInt (seg.payloadlen seg.tcplen),
    sndNxt := seg.recvAck }) acks B
  rw [bind_ok ran', length, ofInt_natCast]
  exact ⟨r', q', C, rfl, later.trans later', took⟩

theorem receiveFin_run (seg : Segment) (ring : s.rcvbuf = some r)
    (acks : s.sndbuf = some q) (A : Allocator) :
    ∃ r' q' B, receiveFin s seg A = .ok ({ s with
      rcvbuf := some r', sndbuf := some q', rcvNxt := s.rcvNxt + 1, sndNxt := seg.recvAck,
      status := .closeWait }, B) ∧ A.Later B ∧ r.Took r' [] 1 A.AllSucceed := by
  have negative : ¬ 0 < seg.payloadlen seg.hdrlen := by
    simp only [Segment.payloadlen]
    omega
  obtain ⟨ret, r', B, ran, later, took⟩ := ngTcpEnqueueRecvbuffer_took
    (s := { s with status := .closeWait }) seg ring seg.hdrlen []
    (fun yes => absurd yes negative) (fun _ => rfl) A
  simp only [receiveFin]
  rw [bind_ok ran]
  simp only
  obtain ⟨ret', q', C, ran', later'⟩ := ngTcpSendAckpkt_run seg (q := q) (s := { s with
    status := .closeWait, rcvbuf := some r', rcvNxt := s.rcvNxt + 1, sndNxt := seg.recvAck }) acks B
  rw [bind_ok ran']
  exact ⟨r', q', C, rfl, later.trans later', took⟩

/-- The bytes and the number of fragments that an established stream takes from a
segment, and how far the segment moves `rcv_nxt`. -/
def Segment.taken (seg : Segment) : List UInt8 := if seg.has tcpPshFlag then seg.data else []

def Segment.places (seg : Segment) : Nat :=
  (if seg.has tcpPshFlag then 1 else 0) + if seg.has tcpFinFlag then 1 else 0

def Segment.moves (seg : Segment) : UInt32 :=
  .ofNat seg.taken.length + if seg.has tcpFinFlag then 1 else 0

/-- The status after the segment. -/
def Segment.leaves (seg : Segment) (status : Status) : Status :=
  if seg.has tcpFinFlag then .closeWait else status

/-- The stream after the segment, with what its rings have become. -/
def Stream.heard (s : Stream) (seg : Segment) (rcvbuf sndbuf : Ring Fragment) (sndNxt : UInt32) :
    Stream :=
  { s with
    rcvbuf := some rcvbuf, sndbuf := some sndbuf, sndNxt := sndNxt,
    rcvNxt := s.rcvNxt + seg.moves, status := seg.leaves s.status }

theorem ngTcpHandleEstablished_run (formed : seg.WellFormed) (ring : s.rcvbuf = some r)
    (acks : s.sndbuf = some q) (A : Allocator) :
    ∃ r' q' sndNxt B,
      ngTcpHandleEstablished s seg seg.tcplen A = .ok ((0, s.heard seg r' q' sndNxt), B) ∧
      A.Later B ∧ r.Took r' seg.taken seg.places A.AllSucceed := by
  have pushed : ∃ r₁ q₁ sndNxt B,
      (if seg.has tcpPshFlag then receivePush s seg seg.tcplen else pure s) A = .ok ({ s with
        rcvbuf := some r₁, sndbuf := some q₁, sndNxt := sndNxt,
        rcvNxt := s.rcvNxt + .ofNat seg.taken.length }, B) ∧ A.Later B ∧
      r.Took r₁ seg.taken (if seg.has tcpPshFlag then 1 else 0) A.AllSucceed := by
    cases push : seg.has tcpPshFlag with
    | true =>
        obtain ⟨r₁, q₁, B, ran, later, took⟩ := receivePush_run formed ring acks A
        refine ⟨r₁, q₁, seg.recvAck, B, ?_, later, ?_⟩ <;> simp only [Segment.taken, push, if_true]
        · exact ran
        · exact took
    | false =>
        have still : s.rcvNxt + UInt32.ofNat 0 = s.rcvNxt := UInt32.add_zero _
        refine ⟨r, q, s.sndNxt, A, ?_, .refl A, ?_⟩ <;>
          simp only [Segment.taken, push, Bool.false_eq_true, if_false]
        · simp only [List.length_nil, still, ← ring, ← acks]
          rfl
        · exact r.took_refl _
  obtain ⟨r₁, q₁, sndNxt, B, ran, later, took⟩ := pushed
  simp only [ngTcpHandleEstablished]
  rw [bind_ok ran]
  cases fin : seg.has tcpFinFlag with
  | true =>
      obtain ⟨r₂, q₂, C, ran', later', took'⟩ := receiveFin_run seg
        (r := r₁) (q := q₁) (s := { s with
        rcvbuf := some r₁, sndbuf := some q₁, sndNxt := sndNxt,
        rcvNxt := s.rcvNxt + .ofNat seg.taken.length }) rfl rfl B
      simp only [if_true]
      rw [bind_ok ran']
      refine ⟨r₂, q₂, seg.recvAck, C, ?_, later.trans later', ?_⟩
      · simp only [Stream.heard, Segment.moves, Segment.leaves, fin, if_true, ← UInt32.add_assoc]
        rfl
      · simp only [Segment.places, fin, if_true]
        exact took.empty took' later.allSucceed
  | false =>
      refine ⟨r₁, q₁, sndNxt, B, ?_, later, ?_⟩
      · simp only [Stream.heard, Segment.moves, Segment.leaves, fin, Bool.false_eq_true, if_false,
          UInt32.add_zero]
        rfl
      · simp only [Segment.places, fin, Bool.false_eq_true, if_false, Nat.add_zero]
        exact took

end Handlers

section Sample

/-- A connection from port 1 of address 2 to port 3 of address 4. -/
def sampleStream : Stream :=
  ⟨1, 5, 4, 3, 1, 2, 100, 10, .established, some ⟨2, .sndbuf, []⟩, some ⟨3, .rcvbuf, []⟩⟩

def sampleWorld : World := ⟨[sampleStream], [], fun _ => false, []⟩

/-- A segment of this connection with a header of five words. -/
def sampleSegment (seq : UInt32) (flags : UInt8) (data : List UInt8) : Segment :=
  ⟨2, 4, 1, 3, seq, 100, 0x50, flags, .ofNat (40 + data.length), true, List.replicate 20 0 ++ data⟩

end Sample

end LinuxCpp.Ustack
