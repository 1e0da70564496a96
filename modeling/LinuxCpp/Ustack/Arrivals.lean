import LinuxCpp.Trace.Along
import LinuxCpp.Ustack.Receive

set_option autoImplicit false

/- Segments that arrive one after the other at an established stream. `sent_seq` is
never compared with `rcv_nxt`, so the order of arrival is the order in the queue; and
a payload without PSH is passed over. -/
namespace LinuxCpp.Ustack

open C Trace

/-- The stream that segments of this connection are given to. -/
def World.connection (w : World) (s : Stream) : Option Stream :=
  ngTcpStreamSearch w s.sip s.dip s.sport s.dport

/-- The numbers that name the connection. -/
def Stream.ends (s : Stream) : UInt32 × UInt32 × UInt16 × UInt16 := (s.sip, s.dip, s.sport, s.dport)

/-- A segment is processed. -/
def arrival (isn : UInt32) (state : World × Allocator) (seg : Segment) :
    Except Fault (World × Allocator) :=
  (ngTcpProcess isn state.1 seg state.2).map fun done => (done.1.2, done.2)

section Connection

variable {w : World} {s s' : Stream} {seg : Segment}

theorem connection_congr (same : s'.ends = s.ends) : w.connection s' = w.connection s := by
  simp only [Stream.ends, Prod.mk.injEq] at same
  obtain ⟨sip, dip, sport, dport⟩ := same
  rw [World.connection, sip, dip, sport, dport]
  rfl

theorem Segment.To.congr (mine : seg.To s) (same : s'.ends = s.ends) : seg.To s' := by
  simp only [Stream.ends, Prod.mk.injEq] at same
  obtain ⟨sip, dip, sport, dport⟩ := same
  rw [Segment.To, sip, dip, sport, dport]
  exact mine

/-- A stream that is found under its own numbers is found by the first loop. -/
theorem first_loop (found : w.connection s = some s) :
    w.tcbSet.find? (fun iter => iter.sip = s.sip ∧ iter.dip = s.dip ∧ iter.sport = s.sport ∧
      iter.dport = s.dport) = some s := by
  simp only [World.connection, ngTcpStreamSearch] at found
  split at found
  · rename_i t first
    cases found
    exact first
  · rename_i nobody
    have member := List.mem_of_find?_eq_some found
    have self := List.find?_eq_none.mp nobody s member
    simp at self

theorem connection_put (found : w.connection s = some s) (block : s'.addr = s.addr)
    (same : s'.ends = s.ends) : (w.put s').connection s = some s' := by
  simp only [Stream.ends, Prod.mk.injEq] at same
  have first := find?_write Stream.addr w.tcbSet (first_loop found) block (by simp [same])
  simp only [World.connection, ngTcpStreamSearch, World.put, first]

theorem ngTcpProcess_search (found : w.connection s = some s) (mine : seg.To s) :
    ngTcpStreamSearch w seg.srcAddr seg.dstAddr seg.srcPort seg.dstPort = some s := by
  obtain ⟨sip, dip, sport, dport⟩ := mine
  rw [← sip, ← dip, ← sport, ← dport]
  exact found

theorem ngTcpProcess_established {r q : Ring Fragment} (isn : UInt32)
    (found : w.connection s = some s) (open_ : s.status = .established) (mine : seg.To s)
    (formed : seg.WellFormed) (ring : s.rcvbuf = some r) (acks : s.sndbuf = some q)
    (A : Allocator) :
    ∃ w' r' q' sndNxt B, ngTcpProcess isn w seg A = .ok ((0, w'), B) ∧
      w'.connection s = some (s.heard seg r' q' sndNxt) ∧ A.Later B ∧
      r.Took r' seg.taken seg.places A.AllSucceed := by
  obtain ⟨r', q', sndNxt, B, ran, later, took⟩ := ngTcpHandleEstablished_run formed ring acks A
  refine ⟨_, r', q', sndNxt, B, ?_, connection_put found ?_ ?_, later, took⟩
  · simp only [ngTcpProcess, formed.cksum, ngTcpProcess_search found mine, open_]
    rw [if_neg (by decide), bind_ok (by exact ran)]
    rfl
  all_goals rfl

theorem ngTcpProcess_closeWait (isn : UInt32) (found : w.connection s = some s)
    (closing : s.status = .closeWait) (mine : seg.To s) (formed : seg.WellFormed) (A : Allocator) :
    ngTcpProcess isn w seg A = .ok ((0, w), A) := by
  simp only [ngTcpProcess, formed.cksum, ngTcpProcess_search found mine, closing]
  rfl

end Connection

section StreamSafety

/-- The segment carries the bytes of the stream from this offset on, and is numbered
so. -/
structure Segment.Carries (seg : Segment) (peer : List UInt8) (base : UInt32) (offset : Nat) :
    Prop where
  formed : seg.WellFormed
  number : seg.sentSeq = base + .ofNat offset
  slice : seg.data <+: peer.drop offset

/-- The bytes that an established stream takes from the segment come when just the
bytes in front of them are queued. -/
def InTurn (state : World × Allocator) (piece : Nat × Segment) : Prop :=
  ∀ s, ngTcpStreamSearch state.1 piece.2.srcAddr piece.2.dstAddr piece.2.srcPort
      piece.2.dstPort = some s →
    s.status = .established → piece.2.taken ≠ [] → piece.1 = s.queued.length

/-- The connection is open, and its queue holds a prefix of the stream of the peer. -/
structure Safe (s : Stream) (peer : List UInt8) (state : World × Allocator) (s' : Stream) :
    Prop where
  ends : s'.ends = s.ends
  found : state.1.connection s' = some s'
  open_ : s'.status = .established ∨ s'.status = .closeWait
  buffered : s'.Buffered
  sofar : s'.queued <+: peer

variable {w : World} {s s' : Stream} {A : Allocator} {isn base : UInt32} {peer : List UInt8}

theorem append_prefix {queue data : List UInt8} (sofar : queue <+: peer)
    (slice : data <+: peer.drop queue.length) : queue ++ data <+: peer := by
  obtain ⟨rest, rfl⟩ := sofar
  rw [List.drop_left] at slice
  exact (List.prefix_append_right_inj queue).mpr slice

/-- One segment in its turn. -/
theorem Safe.arrival {state : World × Allocator} {piece : Nat × Segment}
    (safe : Safe s peer state s') (mine : piece.2.To s)
    (carries : piece.2.Carries peer base piece.1) (turn : InTurn state piece) :
    ∃ after, arrival isn state piece.2 = .ok after ∧ ∃ s'', Safe s peer after s'' := by
  obtain ⟨same, found, open_, ⟨⟨r, ring⟩, q, acks⟩, sofar⟩ := safe
  replace mine := mine.congr same
  rcases open_ with open_ | closing
  · obtain ⟨w', r', q', sndNxt, B, ran, found', -, took⟩ :=
      ngTcpProcess_established isn found open_ mine carries.formed ring acks state.2
    refine ⟨(w', B), by rw [Ustack.arrival, ran]; rfl, s'.heard piece.2 r' q' sndNxt, same, found',
      ?_, ⟨⟨r', rfl⟩, q', rfl⟩, ?_⟩
    · show piece.2.leaves s'.status = .established ∨ piece.2.leaves s'.status = .closeWait
      unfold Segment.leaves
      split
      · exact .inr rfl
      · exact .inl open_
    · have queue : s'.queued = r.bytes := by rw [Stream.queued, ring]; rfl
      show r'.bytes <+: peer
      rcases took.kept with kept | more
      · rwa [kept, ← queue]
      · by_cases nothing : piece.2.taken = []
        · rwa [more, nothing, List.append_nil, ← queue]
        · have here := turn s' (ngTcpProcess_search found mine) open_ nothing
          have data : piece.2.taken = piece.2.data := by
            unfold Segment.taken at nothing ⊢
            split at nothing
            · rw [if_pos ‹_›]
            · exact absurd rfl nothing
          rw [more, data, ← queue]
          exact append_prefix sofar (here ▸ carries.slice)
  · have ran := ngTcpProcess_closeWait isn found closing mine carries.formed state.2
    exact ⟨state, by rw [Ustack.arrival, ran]; rfl, s', same, found, .inr closing,
      ⟨⟨r, ring⟩, q, acks⟩, sofar⟩

/-- If every segment that carries bytes under PSH comes in its turn, the queue holds a
prefix of the stream of the peer at every moment. -/
theorem queued_prefix_of_inTurn (pieces : List (Nat × Segment)) (found : w.connection s = some s)
    (open_ : s.status = .established) (buffered : s.Buffered) (sofar : s.queued <+: peer)
    (carried : ∀ piece ∈ pieces, piece.2.To s ∧ piece.2.Carries peer base piece.1)
    (turn : Along (fun state piece => arrival isn state piece.2) InTurn (w, A) pieces)
    (past later : List (Nat × Segment)) (moment : pieces = past ++ later) :
    ∃ w' s' B, runs (fun state piece => arrival isn state piece.2) (w, A) past = .ok (w', B) ∧
      w'.connection s = some s' ∧ s'.queued <+: peer := by
  subst moment
  have start : Safe s peer (w, A) s := ⟨rfl, found, .inl open_, buffered, sofar⟩
  have all := (Along.of_mem (fun piece member =>
    carried piece (List.mem_append_left _ member)) (w, A)).and turn.beginning
  obtain ⟨⟨w', B⟩, ran, s', safe⟩ := all.completes (fun state => ∃ s', Safe s peer state s')
    ⟨s, start⟩ fun state piece ⟨_, safe⟩ meets => safe.arrival meets.1.1 meets.1.2 meets.2
  exact ⟨w', s', B, ran, (connection_congr safe.ends).symm.trans safe.found, safe.sofar⟩

end StreamSafety

section Completeness

/-- The sequence numbers that the segment takes up. -/
def Segment.span (seg : Segment) : UInt32 :=
  .ofNat seg.data.length + if seg.has tcpFinFlag then 1 else 0

/-- The number behind the segments. -/
def peerNext (number : UInt32) (segs : List Segment) : UInt32 :=
  segs.foldl (fun next seg => next + seg.span) number

/-- Well-formed segments with ACK, each numbered where the one before it ends, with
FIN on the last one at most. -/
def InOrder : UInt32 → List Segment → Prop
  | _, [] => True
  | number, seg :: rest =>
      seg.WellFormed ∧ seg.has tcpAckFlag = true ∧ seg.sentSeq = number ∧
      (seg.has tcpFinFlag = true → rest = []) ∧ InOrder (number + seg.span) rest

variable {w : World} {s : Stream} {r q : Ring Fragment} {A : Allocator} {isn number : UInt32}

/-- The segments in order: what the stream takes of each of them adds up. -/
theorem arrive_inOrder (isn : UInt32) (segs : List Segment)
    (found : w.connection s = some s) (open_ : s.status = .established) (ring : s.rcvbuf = some r)
    (acks : s.sndbuf = some q) (granted : A.AllSucceed)
    (room : r.entries.length + (segs.map Segment.places).sum ≤ ringSize - 1)
    (mine : ∀ seg ∈ segs, seg.To s) (order : InOrder number segs) :
    ∃ w' s' B, runs (arrival isn) (w, A) segs = .ok (w', B) ∧ w'.connection s = some s' ∧
      s'.queued = s.queued ++ segs.flatMap Segment.taken ∧
      s'.rcvNxt = segs.foldl (fun next seg => next + seg.moves) s.rcvNxt := by
  induction segs generalizing w s r q A number with
  | nil => exact ⟨w, s, A, rfl, found, (List.append_nil _).symm, rfl⟩
  | cons seg rest ih =>
      obtain ⟨formed, -, -, last, order⟩ := order
      rw [List.map_cons, List.sum_cons] at room
      obtain ⟨w₁, r₁, q₁, sndNxt, B, ran, found₁, later, took⟩ :=
        ngTcpProcess_established isn found open_ (mine seg List.mem_cons_self) formed ring acks A
      obtain ⟨bytes, length⟩ := took.stored granted (by omega)
      have queue : s.queued = r.bytes := by rw [Stream.queued, ring]; rfl
      have ran₁ : runs (arrival isn) (w, A) (seg :: rest) = runs (arrival isn) (w₁, B) rest :=
        runs_cons (by rw [arrival, ran]; rfl)
      cases fin : seg.has tcpFinFlag with
      | true =>
          have none_ := last fin
          subst none_
          refine ⟨w₁, _, B, ran₁, found₁, ?_, rfl⟩
          rw [queue, List.flatMap_singleton]
          exact bytes
      | false =>
          have still : seg.leaves s.status = .established := by
            rw [Segment.leaves, fin]
            exact open_
          obtain ⟨w₂, s₂, C, ran₂, found₂, bytes₂, number₂⟩ := ih
            (s := s.heard seg r₁ q₁ sndNxt) found₁ still rfl rfl (later.allSucceed granted)
            (by omega) (fun t member => mine t (List.mem_cons_of_mem _ member)) order
          refine ⟨w₂, s₂, C, ran₁.trans ran₂, found₂, ?_, number₂⟩
          rw [bytes₂, List.flatMap_cons, ← List.append_assoc, queue, ← bytes]
          rfl

theorem taken_of_push {seg : Segment} (push : seg.data ≠ [] → seg.has tcpPshFlag = true) :
    seg.taken = seg.data := by
  unfold Segment.taken
  split
  · rfl
  · by_contra missed
    exact absurd (push (Ne.symm missed)) ‹_›

theorem length_taken_le (seg : Segment) : seg.taken.length ≤ seg.data.length := by
  unfold Segment.taken
  split
  · exact Nat.le_refl _
  · exact Nat.zero_le _

/-- No byte beyond the payloads is taken, and all of them only from segments with PSH. -/
theorem length_flatMap_taken (segs : List Segment) :
    (segs.flatMap Segment.taken).length ≤ (segs.flatMap Segment.data).length ∧
    ((segs.flatMap Segment.data).length ≤ (segs.flatMap Segment.taken).length →
      ∀ seg ∈ segs, seg.data ≠ [] → seg.has tcpPshFlag = true) := by
  induction segs with
  | nil => exact ⟨Nat.le_refl _, fun _ _ member => nomatch member⟩
  | cons seg rest ih =>
      obtain ⟨bound, push⟩ := ih
      have here := length_taken_le seg
      simp only [List.flatMap_cons, List.length_append]
      refine ⟨by omega, fun all t member some_ => ?_⟩
      rcases List.mem_cons.mp member with rfl | member
      · by_contra without
        have nothing : t.taken = [] := if_neg without
        rw [nothing] at all here
        have positive : 0 < t.data.length := List.length_pos_iff.mpr some_
        simp only [List.length_nil] at all
        omega
      · exact push (by omega) t member some_

theorem foldl_moves (segs : List Segment) (next : UInt32)
    (push : ∀ seg ∈ segs, seg.data ≠ [] → seg.has tcpPshFlag = true) :
    segs.foldl (fun next seg => next + seg.moves) next = peerNext next segs := by
  refine List.foldl_ext _ _ next fun number seg member => ?_
  rw [Segment.moves, taken_of_push (push seg member)]
  rfl

/-- Segments in order are queued in full, and acknowledged in full, exactly if each
of them that carries bytes has PSH. -/
theorem in_order_complete_iff (segs : List Segment) (found : w.connection s = some s)
    (open_ : s.status = .established) (ring : s.rcvbuf = some r) (acks : s.sndbuf = some q)
    (granted : A.AllSucceed)
    (room : r.entries.length + (segs.map Segment.places).sum ≤ ringSize - 1)
    (mine : ∀ seg ∈ segs, seg.To s) (order : InOrder s.rcvNxt segs) :
    (∃ w' s' B, runs (arrival isn) (w, A) segs = .ok (w', B) ∧ w'.connection s = some s' ∧
      s'.queued = s.queued ++ segs.flatMap Segment.data ∧ s'.rcvNxt = peerNext s.rcvNxt segs) ↔
    ∀ seg ∈ segs, seg.data ≠ [] → seg.has tcpPshFlag = true := by
  obtain ⟨w₁, s₁, B, ran, found₁, bytes, number⟩ :=
    arrive_inOrder isn segs found open_ ring acks granted room mine order
  constructor
  · rintro ⟨w', s', C, ran', found', all, -⟩
    cases ran.symm.trans ran'
    cases found₁.symm.trans found'
    apply (length_flatMap_taken segs).2
    rw [← List.append_cancel_left (all.symm.trans bytes)]
  · intro push
    refine ⟨w₁, s₁, B, ran, found₁, ?_, number.trans (foldl_moves segs _ push)⟩
    have same : segs.flatMap Segment.taken = segs.flatMap Segment.data :=
      List.flatMap_congr fun seg member => taken_of_push (push seg member)
    rw [bytes, same]

end Completeness

/-- The peer sends "abc": the "ab", the "c" without PSH, the "c" again, and the FIN. -/
def peerPieces : List (Nat × Segment) :=
  [(0, sampleSegment 10 0x18 [97, 98]), (2, sampleSegment 12 0x10 [99]),
    (2, sampleSegment 12 0x18 [99]), (3, sampleSegment 13 0x11 [])]

/-- In front of the FIN and behind it. -/
theorem queued_prefix_of_inTurn_peerPieces :
    (∃ w' s' B, runs (fun state (piece : Nat × Segment) => arrival 0 state piece.2)
      (sampleWorld, Allocator.plentiful) (peerPieces.take 3) = .ok (w', B) ∧
      w'.connection sampleStream = some s' ∧ s'.queued <+: [97, 98, 99]) ∧
    ∃ w' s' B, runs (fun state (piece : Nat × Segment) => arrival 0 state piece.2)
      (sampleWorld, Allocator.plentiful) peerPieces = .ok (w', B) ∧
      w'.connection sampleStream = some s' ∧ s'.queued <+: [97, 98, 99] := by
  have carried : ∀ piece ∈ peerPieces,
      piece.2.To sampleStream ∧ piece.2.Carries [97, 98, 99] 10 piece.1 := by
    intro piece member
    simp only [peerPieces, List.mem_cons, List.not_mem_nil, or_false] at member
    rcases member with rfl | rfl | rfl | rfl <;>
      exact ⟨⟨rfl, rfl, rfl, rfl⟩, ⟨rfl, by decide, by decide, by decide⟩, rfl, by decide⟩
  have turn : Along (fun state (piece : Nat × Segment) => arrival 0 state piece.2) InTurn
      (sampleWorld, Allocator.plentiful) peerPieces := by
    refine .cons ?_ rfl (.cons ?_ rfl (.cons ?_ rfl ⟨?_, fun _ _ => trivial⟩))
    · intro s found _ _
      cases found
      rfl
    · intro s _ _ taken
      exact absurd rfl taken
    · intro s found _ _
      cases found
      rfl
    · intro s _ _ taken
      exact absurd rfl taken
  have safe := queued_prefix_of_inTurn (w := sampleWorld) (s := sampleStream) peerPieces rfl rfl
    ⟨⟨_, rfl⟩, _, rfl⟩ List.nil_prefix carried turn
  exact ⟨safe (peerPieces.take 3) (peerPieces.drop 3) rfl, safe peerPieces [] rfl⟩

/-- The segment with the "a" comes twice, and so does its byte. -/
theorem retransmission_queued_twice :
    (sampleSegment 10 0x18 [97]).Carries [97, 98] 10 0 ∧
    ∃ w' s' B, runs (arrival 0) (sampleWorld, Allocator.plentiful)
      [sampleSegment 10 0x18 [97], sampleSegment 10 0x18 [97]] = .ok (w', B) ∧
      w'.connection sampleStream = some s' ∧ s'.queued = [97, 97] ∧ ¬ s'.queued <+: [97, 98] := by
  refine ⟨⟨⟨rfl, by decide, by decide, by decide⟩, rfl, by decide⟩, _, _, _, rfl, rfl, rfl, ?_⟩
  decide

/-- An "a" under PSH, and then the FIN. -/
theorem in_order_complete_iff_fin : ∃ w' s' B,
    runs (arrival 0) (sampleWorld, Allocator.plentiful)
      [sampleSegment 10 0x18 [97], sampleSegment 11 0x11 []] = .ok (w', B) ∧
      w'.connection sampleStream = some s' ∧ s'.queued = [97] ∧ s'.rcvNxt = 12 := by
  refine (in_order_complete_iff (w := sampleWorld) (s := sampleStream)
    [sampleSegment 10 0x18 [97], sampleSegment 11 0x11 []] rfl rfl rfl rfl
    Allocator.plentiful_allSucceed (by decide) ?_ ?_).mpr ?_
  · intro seg member
    rcases List.mem_pair.mp member with rfl | rfl <;> exact ⟨rfl, rfl, rfl, rfl⟩
  · refine ⟨⟨rfl, by decide, by decide, by decide⟩, rfl, rfl, by decide, ?_⟩
    exact ⟨⟨rfl, by decide, by decide, by decide⟩, rfl, rfl, fun _ => rfl, trivial⟩
  · intro seg member some_
    rcases List.mem_pair.mp member with rfl | rfl
    · rfl
    · exact absurd rfl some_

/-- The "a" comes under ACK alone, and is neither queued nor acknowledged. -/
theorem unpushed_payload_lost :
    InOrder sampleStream.rcvNxt [sampleSegment 10 0x10 [97]] ∧
    ∃ w' s' B, runs (arrival 0) (sampleWorld, Allocator.plentiful) [sampleSegment 10 0x10 [97]] =
      .ok (w', B) ∧ w'.connection sampleStream = some s' ∧ s'.queued = [] ∧ s'.rcvNxt = 10 ∧
      ¬ (s'.queued = sampleStream.queued ++ [sampleSegment 10 0x10 [97]].flatMap Segment.data ∧
        s'.rcvNxt = peerNext sampleStream.rcvNxt [sampleSegment 10 0x10 [97]]) := by
  refine ⟨⟨⟨rfl, by decide, by decide, by decide⟩, rfl, rfl, fun _ => rfl, trivial⟩,
    _, _, _, rfl, rfl, rfl, rfl, ?_⟩
  decide

end LinuxCpp.Ustack
