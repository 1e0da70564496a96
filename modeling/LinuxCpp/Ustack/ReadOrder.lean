import LinuxCpp.Trace.Along
import LinuxCpp.Ustack.Receive
import LinuxCpp.Ustack.Socket

set_option autoImplicit false

/- Fragments that arrive on a stream, and calls of `nrecv` between them. What a short
read leaves of a fragment goes behind the fragments that came after it. -/
namespace LinuxCpp.Ustack

open C Trace

inductive Turn where
  | arrival (seg : Segment)
  | read (len : Nat)
deriving DecidableEq, Repr

/-- The payloads that were put on the ring and the bytes that were copied out, each in
order, beside the state. -/
structure Reading where
  world : World
  heap : Allocator
  arrived : List UInt8
  copied : List UInt8

/-- A read that waits leaves everything as it is. -/
def Reading.step (fd : Int) (d : Reading) : Turn → Except Fault Reading
  | .arrival seg =>
      match getHostinfoFromfd d.world fd with
      | some (.stream s) => do
          let ((ret, s), heap) ← ngTcpEnqueueRecvbuffer s seg seg.tcplen d.heap
          return { d with
            world := d.world.put s, heap := heap,
            arrived := if ret = 0 then d.arrived ++ seg.data else d.arrived }
      | _ => return d
  | .read len => do
      match ← nrecv d.world fd len with
      | none => return d
      | some (_, copied, w) => return { d with world := w, copied := d.copied ++ copied }

/-- The entries of the ring that the descriptor reads from. -/
def World.entriesOf (w : World) (fd : Int) : List Fragment :=
  match getHostinfoFromfd w fd with
  | some (.stream s) => (s.rcvbuf.map Ring.entries).getD []
  | _ => []

/-- Segments are well formed and find a place in the ring, and buffers are not empty. -/
def Reading.Admits (fd : Int) (d : Reading) : Turn → Prop
  | .arrival seg => seg.WellFormed ∧ (d.world.entriesOf fd).length < ringSize - 1
  | .read len => 0 < len

/-- A read that is shorter than the fragment in front finds no bytes behind it. -/
def Reading.Undivided (fd : Int) (d : Reading) : Turn → Prop
  | .arrival _ => True
  | .read len => ∀ fragment rest, d.world.entriesOf fd = fragment :: rest →
      len < fragment.length.toNat → rest.flatMap Fragment.bytes = []

/-- The bytes copied and the bytes still queued are the payloads. -/
structure Reading.Conserves (d : Reading) (fd : Int) (s : Stream) (r : Ring Fragment) : Prop where
  found : getHostinfoFromfd d.world fd = some (.stream s)
  ring : s.rcvbuf = some r
  sized : ∀ f ∈ r.entries, f.bytes.length = f.length.toNat
  fits : r.entries.length ≤ ringSize - 1
  bytes : d.copied ++ r.bytes = d.arrived

namespace Reading

variable {fd : Int} {d : Reading} {s : Stream} {r : Ring Fragment}

theorem Conserves.entries (kept : d.Conserves fd s r) : d.world.entriesOf fd = r.entries := by
  simp [World.entriesOf, kept.found, kept.ring]

theorem length_data_lt {seg : Segment} (formed : seg.WellFormed) : seg.data.length < 2 ^ 32 := by
  have length := formed.payloadlen
  have small := seg.totalLength.toNat_lt
  simp only [Segment.payloadlen, Segment.tcplen] at length
  omega

theorem Conserves.arrival {seg : Segment} (kept : d.Conserves fd s r) (formed : seg.WellFormed)
    (room : r.entries.length < ringSize - 1) :
    ∃ d', d.step fd (.arrival seg) = .ok d' ∧ ∃ s' r', d'.Conserves fd s' r' := by
  obtain ⟨found, ring, sized, fits, bytes⟩ := kept
  have length := formed.payloadlen
  obtain ⟨B, -, ⟨ran, -⟩ | ⟨f, ran, data, size⟩⟩ := ngTcpEnqueueRecvbuffer_run seg ring seg.tcplen
    seg.data (fun _ => formed.payload)
    (fun empty => List.eq_nil_of_length_eq_zero (by omega)) d.heap
  · simp only [step, found]
    rw [ran]
    exact ⟨_, rfl, s, r, getHostinfoFromfd_put found rfl rfl, ring, sized, fits, bytes⟩
  · have more : r.enqueue f = { r with entries := r.entries ++ [f] } := if_pos room
    simp only [step, found]
    rw [ran, more]
    refine ⟨_, rfl, _, _, getHostinfoFromfd_put found rfl rfl, rfl, ?_, ?_, ?_⟩
    · intro g member
      rcases List.mem_append.mp member with old | new
      · exact sized g old
      · rw [List.mem_singleton.mp new, data, size,
          UInt32.toNat_ofNat_of_lt' (length_data_lt formed)]
    · simp only [List.length_append, List.length_singleton]
      omega
    · simp only [if_true, ← bytes, ← data, List.append_assoc]
      simp [Ring.bytes]

/-- What a read of this length puts back on the ring. -/
def leftover (fragment : Fragment) (len : Nat) : List Fragment :=
  if len < fragment.length.toNat then [{ fragment with
    data := some (fragment.bytes.drop len),
    length := .ofNat (fragment.length.toNat - len) }]
  else []

section Leftover

variable {fragment : Fragment} {len : Nat}

theorem leftover_length (fragment : Fragment) (len : Nat) :
    (leftover fragment len).length ≤ 1 := by
  unfold leftover
  split
  · exact Nat.le_refl 1
  · exact Nat.zero_le 1

theorem leftover_sized (size : fragment.bytes.length = fragment.length.toNat) :
    ∀ f ∈ leftover fragment len, f.bytes.length = f.length.toNat := by
  intro f member
  unfold leftover at member
  split at member
  · rw [List.mem_singleton.mp member]
    have small := fragment.length.toNat_lt
    have fit : fragment.length.toNat - len < UInt32.size := by
      rw [UInt32.size]
      omega
    show (fragment.bytes.drop len).length = (UInt32.ofNat _).toNat
    rw [List.length_drop, UInt32.toNat_ofNat_of_lt' fit, size]
  · cases member

/-- The bytes copied and the bytes put back are those of the fragment. -/
theorem take_leftover (size : fragment.bytes.length = fragment.length.toNat) :
    fragment.bytes.take len ++ (leftover fragment len).flatMap Fragment.bytes = fragment.bytes := by
  unfold leftover
  split
  · rw [List.flatMap_singleton]
    exact List.take_append_drop len fragment.bytes
  · rw [List.take_of_length_le (by omega), List.flatMap_nil, List.append_nil]

end Leftover

/-- What a read does with the fragment in front. -/
theorem recvStream_cons {fragment : Fragment} {rest : List Fragment} (len : Nat)
    (ring : s.rcvbuf = some r) (queue : r.entries = fragment :: rest)
    (sized : fragment.bytes.length = fragment.length.toNat) (fits : rest.length < ringSize - 1) :
    ∃ ret, recvStream s len = .ok (some ⟨ret, fragment.bytes.take len, { s with
      rcvbuf := some { r with entries := rest ++ leftover fragment len } }⟩) := by
  simp only [recvStream, ring, queue, leftover]
  by_cases short : len < fragment.length.toNat
  · rw [if_pos short, if_pos short]
    simp only [Ring.enqueue, if_pos fits]
    exact ⟨_, rfl⟩
  · rw [if_neg short, if_neg short, List.append_nil]
    by_cases empty : fragment.length = 0
    · rw [if_pos empty]
      have nothing : fragment.bytes = [] := by
        apply List.eq_nil_of_length_eq_zero
        rw [sized, empty]
        rfl
      rw [nothing, List.take_nil]
      exact ⟨_, rfl⟩
    · rw [if_neg empty, List.take_of_length_le (by omega), List.take_of_length_le (by omega)]
      exact ⟨_, rfl⟩

theorem Conserves.read {len : Nat} (kept : d.Conserves fd s r)
    (whole : d.Undivided fd (.read len)) :
    ∃ d', d.step fd (.read len) = .ok d' ∧ ∃ s' r', d'.Conserves fd s' r' := by
  have queue := kept.entries
  obtain ⟨found, ring, sized, fits, bytes⟩ := kept
  cases entries : r.entries with
  | nil =>
      have ran : nrecv d.world fd len = .ok none := by
        simp only [nrecv, found, recvStream, ring, entries]
        rfl
      simp only [step, ran]
      exact ⟨d, rfl, s, r, found, ring, sized, fits, bytes⟩
  | cons fragment rest =>
      rw [entries] at sized fits
      have size := sized fragment List.mem_cons_self
      rw [List.length_cons] at fits
      obtain ⟨ret, ran⟩ := recvStream_cons len ring entries size (by omega)
      simp only [step, nrecv, found, ran]
      refine ⟨_, rfl, _, _, getHostinfoFromfd_put found rfl rfl, rfl, ?_, ?_, ?_⟩
      · intro f member
        rcases List.mem_append.mp member with old | new
        · exact sized f (List.mem_cons_of_mem _ old)
        · exact leftover_sized size f new
      · have one := leftover_length fragment len
        rw [List.length_append]
        omega
      · -- either nothing is put back, or nothing stands between the two parts
        have swapped :
            rest.flatMap Fragment.bytes ++ (leftover fragment len).flatMap Fragment.bytes =
              (leftover fragment len).flatMap Fragment.bytes ++ rest.flatMap Fragment.bytes := by
          by_cases short : len < fragment.length.toNat
          · rw [whole fragment rest (queue.trans entries) short, List.nil_append, List.append_nil]
          · rw [leftover, if_neg short, List.flatMap_nil, List.nil_append, List.append_nil]
        rw [← bytes, List.append_assoc, Ring.bytes, List.flatMap_append, swapped,
          ← List.append_assoc (fragment.bytes.take len), take_leftover size, Ring.bytes, entries,
          List.flatMap_cons]

end Reading

/-- If no read divides a fragment that has bytes behind it, the reads give the payloads
in the order of arrival. -/
theorem copied_prefix_of_undivided {fd : Int} {w : World} {s : Stream} {r : Ring Fragment}
    {A : Allocator} (turns : List Turn) (found : getHostinfoFromfd w fd = some (.stream s))
    (ring : s.rcvbuf = some r) (empty : r.entries = [])
    (admitted : Along (Reading.step fd) (Reading.Admits fd) ⟨w, A, [], []⟩ turns)
    (undivided : Along (Reading.step fd) (Reading.Undivided fd) ⟨w, A, [], []⟩ turns) :
    ∃ d, runs (Reading.step fd) ⟨w, A, [], []⟩ turns = .ok d ∧ d.copied <+: d.arrived := by
  have start : Reading.Conserves ⟨w, A, [], []⟩ fd s r := by
    refine ⟨found, ring, ?_, ?_, ?_⟩
    · rw [empty]
      exact fun _ member => nomatch member
    · rw [empty]
      exact Nat.zero_le _
    · rw [Ring.bytes, empty]
      rfl
  obtain ⟨d, ran, s', r', kept⟩ := (admitted.and undivided).completes
    (fun d => ∃ s r, d.Conserves fd s r) ⟨s, r, start⟩ (by
      rintro d (seg | len) ⟨s, r, kept⟩ ⟨admits, whole⟩
      · exact kept.arrival admits.1 (kept.entries ▸ admits.2)
      · exact kept.read whole)
  exact ⟨d, ran, ⟨r'.bytes, kept.bytes⟩⟩

/-- Fragments "ab" and "c" in front of reads of two bytes, and then "de" read byte by byte. -/
def wholeReads : List Turn :=
  [.arrival (sampleSegment 10 0x18 [97, 98]), .arrival (sampleSegment 12 0x18 [99]), .read 2,
    .read 2, .arrival (sampleSegment 13 0x18 [100, 101]), .read 1, .read 1, .read 1]

theorem copied_prefix_of_undivided_wholeReads : ∃ d,
    runs (Reading.step 5) ⟨sampleWorld, Allocator.plentiful, [], []⟩ wholeReads = .ok d ∧
      d.copied <+: d.arrived := by
  have arrives {d : Reading} (seg : Segment) (formed : seg.WellFormed)
      (room : (d.world.entriesOf 5).length < ringSize - 1) : d.Admits 5 (.arrival seg) :=
    ⟨formed, room⟩
  refine copied_prefix_of_undivided (s := sampleStream) wholeReads rfl rfl rfl ?_ ?_
  · refine .cons (arrives _ ⟨rfl, by decide, by decide, by decide⟩ (by decide)) rfl ?_
    refine .cons (arrives _ ⟨rfl, by decide, by decide, by decide⟩ (by decide)) rfl ?_
    refine .cons Nat.two_pos rfl (.cons Nat.two_pos rfl ?_)
    refine .cons (arrives _ ⟨rfl, by decide, by decide, by decide⟩ (by decide)) rfl ?_
    exact .cons Nat.one_pos rfl (.cons Nat.one_pos rfl ⟨Nat.one_pos, fun _ _ => trivial⟩)
  · refine .cons trivial rfl (.cons trivial rfl (.cons ?_ rfl (.cons ?_ rfl ?_)))
    · intro fragment rest queue short
      cases queue
      exact absurd short (by decide)
    · intro fragment rest queue short
      cases queue
      rfl
    · refine .cons trivial rfl (.cons ?_ rfl (.cons ?_ rfl ⟨?_, fun _ _ => trivial⟩))
      · intro fragment rest queue short
        cases queue
        rfl
      · intro fragment rest queue short
        cases queue
        rfl
      · intro fragment rest queue short
        cases queue

/-- Fragments "ab" and "c", read byte by byte, give "ac". -/
theorem short_read_reorders :
    Along (Reading.step 5) (Reading.Admits 5) ⟨sampleWorld, Allocator.plentiful, [], []⟩
      [.arrival (sampleSegment 10 0x18 [97, 98]), .arrival (sampleSegment 12 0x18 [99]), .read 1,
        .read 1] ∧
    ∃ d, runs (Reading.step 5) ⟨sampleWorld, Allocator.plentiful, [], []⟩
      [.arrival (sampleSegment 10 0x18 [97, 98]), .arrival (sampleSegment 12 0x18 [99]), .read 1,
        .read 1] = .ok d ∧
      d.copied = [97, 99] ∧ d.arrived = [97, 98, 99] ∧ ¬ d.copied <+: d.arrived := by
  refine ⟨?_, _, rfl, rfl, rfl, by decide⟩
  refine .cons ⟨⟨rfl, by decide, by decide, by decide⟩, by decide⟩ rfl ?_
  refine .cons ⟨⟨rfl, by decide, by decide, by decide⟩, by decide⟩ rfl ?_
  exact ⟨Nat.one_pos, fun _ _ => ⟨Nat.one_pos, fun _ _ => trivial⟩⟩

end LinuxCpp.Ustack
