import LinuxCpp.Trace.Along
import LinuxCpp.Trace.Course
import LinuxCpp.Ustack.Frame
import LinuxCpp.Ustack.Lifetimes
import LinuxCpp.Ustack.Receive

set_option autoImplicit false

/- The sender of ustack/tcp.c and the ARP table it asks. A pass takes one fragment off
each ring; while the address of the peer is unknown the fragment goes back to the tail,
behind the fragments that wait. -/
namespace LinuxCpp.Ustack

open C Trace

/-- `struct arp_entry` -/
structure ArpEntry where
  ip : UInt32
  hwaddr : Mac
deriving DecidableEq, Repr

/-- The table is searched from its head on. -/
def ngGetDstMacaddr (entries : List ArpEntry) (dip : UInt32) : Option Mac :=
  (entries.find? fun iter => dip = iter.ip).map ArpEntry.hwaddr

/-- What `pkt_process` does with an ARP reply: the first answer for an address stays. -/
def arpReply (entries : List ArpEntry) (sip : UInt32) (sha : Mac) :
    CM (List ArpEntry) := do
  match ngGetDstMacaddr entries sip with
  | some _ => return entries
  | none =>
      match ← malloc with
      | none => return entries
      | some _ => return ⟨sip, sha⟩ :: entries

/-- What is put on `ring->out`: an ARP request, or the packet that `ng_tcp_pkt` builds
for a stream from these arguments. -/
inductive Packet where
  | arpRequest (sip dip : UInt32)
  | tcp (stream : Nat) (sip dip : UInt32) (dstmac : Mac) (fragment : Fragment)
deriving DecidableEq, Repr

/-- The body of the loop of `ng_tcp_out`. -/
def ngTcpOutStream (entries : List ArpEntry) (stream : Stream) : List Packet × Stream :=
  match stream.sndbuf with
  | none => ([], stream)
  | some sndbuf =>
      match sndbuf.entries with
      | [] => ([], stream)
      | fragment :: waiting =>
          let sndbuf := { sndbuf with entries := waiting }
          match ngGetDstMacaddr entries stream.sip with
          | none => ([.arpRequest stream.dip stream.sip],
              { stream with sndbuf := some (sndbuf.enqueue fragment) })
          | some dstmac => ([.tcp stream.addr stream.dip stream.sip dstmac fragment],
              { stream with sndbuf := some sndbuf })

/-- A pass over the streams, with so many mbufs in the pool; the program exits when it
needs another one. -/
def ngTcpOut (mbufs : Nat) (entries : List ArpEntry) (w : World) :
    Except Fault (List Packet × World) :=
  let packets := w.tcbSet.flatMap fun stream => (ngTcpOutStream entries stream).1
  if packets.length ≤ mbufs then
    .ok (packets, { w with tcbSet := w.tcbSet.map fun stream => (ngTcpOutStream entries stream).2 })
  else .error .abort

inductive Outgoing where
  | enqueue (stream : Nat) (fragment : Fragment)
  | arpReply (sip : UInt32) (sha : Mac)
  | out (mbufs : Nat)
deriving DecidableEq, Repr

/-- The fragments put on the rings and the packets that left for `ring->out`, each in
order, beside the state. -/
structure Sender where
  world : World
  arp : List ArpEntry
  heap : Allocator
  enqueued : List (Nat × Fragment)
  built : List Packet

def Sender.step (d : Sender) : Outgoing → Except Fault Sender
  | .enqueue stream fragment =>
      match d.world.tcbSet.find? fun s => s.addr = stream with
      | none => return d
      | some s => do
          let sndbuf ← enqueue s.sndbuf fragment
          return { d with
            world := d.world.put { s with sndbuf := sndbuf },
            enqueued := d.enqueued ++ [(stream, fragment)] }
  | .arpReply sip sha => do
      let (arp, heap) ← arpReply d.arp sip sha d.heap
      return { d with arp := arp, heap := heap }
  | .out mbufs => do
      let (packets, w) ← ngTcpOut mbufs d.arp d.world
      return { d with world := w, built := d.built ++ packets }

/-- The fragments of the packets that were built for the stream. -/
def sentFor (stream : Nat) (packets : List Packet) : List Fragment :=
  packets.filterMap fun
    | .tcp owner _ _ _ fragment => if owner = stream then some fragment else none
    | .arpRequest _ _ => none

/-- Fragments find a place on the ring of the stream. -/
def Sender.Room (stream : Nat) (d : Sender) : Outgoing → Prop
  | .enqueue owner _ => owner = stream → ∀ s ∈ d.world.tcbSet, s.addr = stream →
      ∀ r, s.sndbuf = some r → r.entries.length < ringSize - 1
  | _ => True

/-- A pass that does not know the address of the peer finds one fragment of the stream
at most. -/
def Sender.Resolves (stream : Nat) (d : Sender) : Outgoing → Prop
  | .out _ => ∀ s ∈ d.world.tcbSet, s.addr = stream → ngGetDstMacaddr d.arp s.sip = none →
      ∀ r, s.sndbuf = some r → r.entries.length ≤ 1
  | _ => True

section Pass

variable {entries : List ArpEntry} {s : Stream} {r : Ring Fragment} {stream : Nat}

theorem sentFor_append (packets packets' : List Packet) :
    sentFor stream (packets ++ packets') = sentFor stream packets ++ sentFor stream packets' :=
  List.filterMap_append

theorem ngTcpOutStream_addr (entries : List ArpEntry) (s : Stream) :
    (ngTcpOutStream entries s).2.addr = s.addr := by
  unfold ngTcpOutStream
  split
  · rfl
  · split
    · rfl
    · dsimp only
      split <;> rfl

theorem sentFor_other (other : s.addr ≠ stream) :
    sentFor stream (ngTcpOutStream entries s).1 = [] := by
  unfold ngTcpOutStream
  split
  · rfl
  · split
    · rfl
    · dsimp only
      split
      · rfl
      · simp [sentFor, other]

/-- What a pass takes off a ring leaves as a packet, or was the only fragment on it. -/
theorem ngTcpOutStream_conserves (entries : List ArpEntry) (ring : s.sndbuf = some r)
    (fits : r.entries.length ≤ ringSize - 1)
    (resolves : ngGetDstMacaddr entries s.sip = none → r.entries.length ≤ 1) :
    ∃ r', (ngTcpOutStream entries s).2 = { s with sndbuf := some r' } ∧
      sentFor s.addr (ngTcpOutStream entries s).1 ++ r'.entries = r.entries ∧
      r'.entries.length ≤ ringSize - 1 := by
  unfold ngTcpOutStream
  simp only [ring]
  cases waiting : r.entries with
  | nil =>
      refine ⟨r, ?_, ?_, fits⟩
      · simp only [← ring]
      · simp only [sentFor, List.filterMap_nil, List.nil_append, waiting]
  | cons fragment rest =>
      rw [waiting, List.length_cons] at fits resolves
      cases known : ngGetDstMacaddr entries s.sip with
      | none =>
          have alone : rest = [] := by
            apply List.eq_nil_of_length_eq_zero
            have few := resolves known
            omega
          have back : ({ r with entries := rest } : Ring Fragment).enqueue fragment =
              { r with entries := [fragment] } := by
            have room : 0 < ringSize - 1 := by decide
            subst alone
            exact if_pos room
          refine ⟨_, rfl, ?_, ?_⟩ <;> rw [back]
          · rw [alone]
            rfl
          · show 1 ≤ ringSize - 1
            decide
      | some dstmac =>
          refine ⟨_, rfl, ?_, ?_⟩
          · simp [sentFor]
          · dsimp only
            omega

/-- Of the packets of a pass, those for a stream come from its own ring. -/
theorem sentFor_pass {tcbs : List Stream} (blocks : (tcbs.map Stream.addr).Nodup)
    (member : s ∈ tcbs) :
    sentFor s.addr (tcbs.flatMap fun t => (ngTcpOutStream entries t).1) =
      sentFor s.addr (ngTcpOutStream entries s).1 := by
  have nothing {others : List Stream} (absent : s.addr ∉ others.map Stream.addr) :
      sentFor s.addr (others.flatMap fun t => (ngTcpOutStream entries t).1) = [] := by
    induction others with
    | nil => rfl
    | cons t rest ih =>
        rw [List.map_cons, List.mem_cons, not_or] at absent
        rw [List.flatMap_cons, sentFor_append, sentFor_other (Ne.symm absent.1), ih absent.2]
        rfl
  induction tcbs with
  | nil => cases member
  | cons t rest ih =>
      rw [List.map_cons, List.nodup_cons] at blocks
      rw [List.flatMap_cons, sentFor_append]
      rcases List.mem_cons.mp member with rfl | later
      · rw [nothing blocks.1, List.append_nil]
      · have other : t.addr ≠ s.addr := fun same =>
          blocks.1 (same ▸ List.mem_map_of_mem later)
        rw [sentFor_other other, ih blocks.2 later]
        rfl

end Pass

section Events

variable {w w' : World} {s : Stream} {heap : Allocator}

theorem ngTcpOutStream_outStream (entries : List ArpEntry) (s : Stream) :
    (ngTcpOutStream entries s).2 =
      (outStream (ngGetDstMacaddr entries s.sip).isSome s).2 := by
  simp only [ngTcpOutStream, outStream]
  cases s.sndbuf with
  | none => rfl
  | some sndbuf =>
      cases waiting : sndbuf.entries with
      | nil => simp only [waiting]
      | cons fragment rest =>
          simp only [waiting]
          cases ngGetDstMacaddr entries s.sip <;> rfl

/-- What `ng_tcp_out` is for one stream, as an event of the machine. -/
def outEvent (entries : List ArpEntry) (s : Stream) : Event :=
  .out s.addr (ngGetDstMacaddr entries s.sip).isSome

/-- The event of a stream writes this stream alone. -/
theorem outEvent_step (entries : List ArpEntry) {front rest : List Stream}
    (blocks : ((front ++ s :: rest).map Stream.addr).Nodup) :
    Machine.step ⟨{ w with tcbSet := front ++ s :: rest }, heap⟩ (outEvent entries s) =
      .ok ⟨{ w with tcbSet := front ++ (ngTcpOutStream entries s).2 :: rest }, heap⟩ := by
  have alone : s.addr ∉ (front ++ rest).map Stream.addr := by
    rw [List.map_append, List.map_cons, List.nodup_middle, List.nodup_cons,
      ← List.map_append] at blocks
    exact blocks.1
  have other (t : Stream) (member : t ∈ front ++ rest) : t.addr ≠ s.addr := fun same =>
    alone (same ▸ List.mem_map_of_mem member)
  have found : ((front ++ s :: rest).find? fun t => t.addr = s.addr) = some s := by
    have nobody : (front.find? fun t => t.addr = s.addr) = none := by
      simpa using fun t member => other t (List.mem_append_left _ member)
    rw [List.find?_append, nobody]
    simp
  have kept {tcbs : List Stream} (apart : ∀ t ∈ tcbs, t.addr ≠ s.addr) (new : Stream) :
      (tcbs.map fun t => if t.addr = s.addr then new else t) = tcbs := by
    rw [List.map_congr_left fun t member => if_neg (apart t member), List.map_id']
  simp only [Machine.step, Machine.act, outEvent, found]
  rw [← ngTcpOutStream_outStream]
  simp only [World.put, ngTcpOutStream_addr, List.map_append, List.map_cons, if_true,
    kept fun t member => other t (List.mem_append_left _ member),
    kept fun t member => other t (List.mem_append_right _ member)]
  rfl

theorem outEvents_runs (entries : List ArpEntry) {front back : List Stream}
    (blocks : ((front ++ back).map Stream.addr).Nodup) :
    runs Machine.step ⟨{ w with tcbSet := front ++ back }, heap⟩
        (back.map (outEvent entries)) =
      .ok ⟨{ w with tcbSet := front ++ back.map fun t => (ngTcpOutStream entries t).2 },
        heap⟩ := by
  induction back generalizing front with
  | nil => rfl
  | cons s rest ih =>
      have step : Machine.step ⟨{ w with tcbSet := front ++ s :: rest }, heap⟩
          (outEvent entries s) = _ := outEvent_step entries blocks
      have moved : ((front ++ [(ngTcpOutStream entries s).2]) ++ rest).map Stream.addr =
          (front ++ s :: rest).map Stream.addr := by
        simp [ngTcpOutStream_addr]
      rw [List.map_cons, runs_cons step, List.append_cons, ih (moved ▸ blocks)]
      simp

/-- A pass of `ng_tcp_out` is one event for each stream, in the order of the list. -/
theorem ngTcpOut_runs {mbufs : Nat} {entries : List ArpEntry} {packets : List Packet}
    (blocks : (w.tcbSet.map Stream.addr).Nodup)
    (ran : ngTcpOut mbufs entries w = .ok (packets, w')) :
    runs Machine.step ⟨w, heap⟩ (w.tcbSet.map (outEvent entries)) = .ok ⟨w', heap⟩ := by
  simp only [ngTcpOut] at ran
  split at ran
  · cases ran
    have all : (([] ++ w.tcbSet).map Stream.addr).Nodup := blocks
    exact outEvents_runs entries all
  · cases ran

end Events

/-- The fragments of the stream are in its packets and on its ring, in the order in which
they were put there. -/
structure Sender.InOrder (stream : Nat) (d : Sender) : Prop where
  blocks : (d.world.tcbSet.map Stream.addr).Nodup
  ordered : ∃ s ∈ d.world.tcbSet, s.addr = stream ∧ ∃ r, s.sndbuf = some r ∧
    r.entries.length ≤ ringSize - 1 ∧
    sentFor stream d.built ++ r.entries = eventsOf stream d.enqueued

section Steps

variable {stream : Nat} {d d' : Sender}

theorem Sender.InOrder.enqueue {owner : Nat} {f : Fragment} (inOrder : d.InOrder stream)
    (room : d.Room stream (.enqueue owner f)) (ran : d.step (.enqueue owner f) = .ok d') :
    d'.InOrder stream := by
  obtain ⟨blocks, s, member, rfl, r, ring, fits, ordered⟩ := inOrder
  simp only [Sender.step] at ran
  split at ran
  · cases ran
    exact ⟨blocks, s, member, rfl, r, ring, fits, ordered⟩
  · rename_i t found
    have at_t : t ∈ d.world.tcbSet := List.mem_of_find?_eq_some found
    have owns : t.addr = owner := by simpa using List.find?_some found
    obtain ⟨sndbuf, queued, returned⟩ := ok_of_bind ran
    cases returned
    obtain ⟨q, ring', rfl⟩ := (enqueue_returns t.sndbuf f).of_ok _ queued
    refine ⟨by rw [World.put, map_write]; exact blocks, ?_⟩
    by_cases same : t.addr = s.addr
    · cases List.inj_on_of_nodup_map blocks at_t member same
      cases ring.symm.trans ring'
      have free : r.entries.length < ringSize - 1 := room owns.symm s member rfl r ring
      have more : r.enqueue f = { r with entries := r.entries ++ [f] } := if_pos free
      refine ⟨_, put_mem member rfl, rfl, _, rfl, ?_, ?_⟩ <;> rw [more]
      · simp only [List.length_append, List.length_singleton]
        omega
      · rw [← owns, eventsOf_own, ← ordered, List.append_assoc]
    · refine ⟨s, put_mem_other member (Ne.symm same), rfl, r, ring, fits, ?_⟩
      rw [eventsOf_other (owns ▸ same)]
      exact ordered

theorem Sender.InOrder.out {mbufs : Nat} (inOrder : d.InOrder stream)
    (resolves : d.Resolves stream (.out mbufs)) (ran : d.step (.out mbufs) = .ok d') :
    d'.InOrder stream := by
  obtain ⟨blocks, s, member, rfl, r, ring, fits, ordered⟩ := inOrder
  simp only [Sender.step, ngTcpOut] at ran
  split at ran
  · cases ran
    obtain ⟨r', after, left, fits'⟩ := ngTcpOutStream_conserves d.arp ring fits
      fun unknown => resolves s member rfl unknown r ring
    refine ⟨?_, _, List.mem_map_of_mem member, ngTcpOutStream_addr d.arp s, r', ?_, fits', ?_⟩
    · have same : (fun t => Stream.addr (ngTcpOutStream d.arp t).2) = Stream.addr :=
        funext (ngTcpOutStream_addr d.arp)
      rw [List.map_map]
      show (d.world.tcbSet.map fun t => Stream.addr (ngTcpOutStream d.arp t).2).Nodup
      rw [same]
      exact blocks
    · rw [after]
    · rw [sentFor_append, sentFor_pass blocks member, List.append_assoc, left]
      exact ordered
  · cases ran

theorem Sender.InOrder.step {e : Outgoing} (inOrder : d.InOrder stream) (room : d.Room stream e)
    (resolves : d.Resolves stream e) (ran : d.step e = .ok d') : d'.InOrder stream := by
  cases e with
  | enqueue owner f => exact inOrder.enqueue room ran
  | arpReply sip sha =>
      obtain ⟨done, -, returned⟩ := ok_of_bind ran
      cases returned
      exact ⟨inOrder.blocks, inOrder.ordered⟩
  | out mbufs => exact inOrder.out resolves ran

end Steps

/-- As long as no pass without the address of the peer finds two fragments of a stream,
its packets carry the fragments in the order in which they were put on its ring, each of
them once. -/
theorem sent_in_order {w : World} {arp : List ArpEntry} {A : Allocator} {s : Stream}
    {r : Ring Fragment} (blocks : (w.tcbSet.map Stream.addr).Nodup) (member : s ∈ w.tcbSet)
    (ring : s.sndbuf = some r) (empty : r.entries = []) (events : List Outgoing)
    (room : Along Sender.step (Sender.Room s.addr) ⟨w, arp, A, [], []⟩ events)
    (resolves : Along Sender.step (Sender.Resolves s.addr) ⟨w, arp, A, [], []⟩ events)
    (d : Sender) (ran : runs Sender.step ⟨w, arp, A, [], []⟩ events = .ok d) :
    ∃ s' ∈ d.world.tcbSet, s'.addr = s.addr ∧ ∃ r', s'.sndbuf = some r' ∧
      sentFor s.addr d.built ++ r'.entries = eventsOf s.addr d.enqueued := by
  have start : Sender.InOrder s.addr ⟨w, arp, A, [], []⟩ := by
    refine ⟨blocks, s, member, rfl, r, ring, ?_, ?_⟩ <;> rw [empty]
    · exact Nat.zero_le _
    · rfl
  have inOrder := (room.and resolves).invariant (Sender.InOrder s.addr) start
    (fun _ _ _ before meets stepped => before.step meets.1 meets.2 stepped) ran
  obtain ⟨s', at_s, block, r', ring', -, ordered⟩ := inOrder.ordered
  exact ⟨s', at_s, block, r', ring', ordered⟩

/-- A fragment with one byte. -/
def byteFragment (byte : UInt8) : Fragment :=
  { Fragment.zeroed with data := some [byte], length := 1 }

/-- A fragment waits for the ARP reply, and a second one comes after it. -/
def waitingRun : List Outgoing := [.enqueue 1 (byteFragment 97), .out 1,
  .arpReply 2 #v[1, 2, 3, 4, 5, 6], .enqueue 1 (byteFragment 98), .out 1, .out 1]

theorem sent_in_order_waiting : ∃ d : Sender,
    runs Sender.step ⟨sampleWorld, [], .plentiful, [], []⟩ waitingRun = .ok d ∧
    sentFor 1 d.built = [byteFragment 97, byteFragment 98] ∧
    ∃ s' ∈ d.world.tcbSet, s'.addr = 1 ∧ ∃ r', s'.sndbuf = some r' ∧
      sentFor 1 d.built ++ r'.entries = eventsOf 1 d.enqueued := by
  refine ⟨_, rfl, rfl, ?_⟩
  have room : Along Sender.step (Sender.Room 1) ⟨sampleWorld, [], .plentiful, [], []⟩
      waitingRun := by
    refine .cons (fun _ s member _ r ring => ?_) rfl ?_
    · rw [List.mem_singleton.mp member] at ring
      cases ring
      decide
    refine .cons trivial rfl (.cons trivial rfl ?_)
    refine .cons (fun _ s member _ r ring => ?_) rfl ?_
    · rw [List.mem_singleton.mp member] at ring
      cases ring
      decide
    exact .cons trivial rfl (.cons trivial rfl trivial)
  have resolves : Along Sender.step (Sender.Resolves 1) ⟨sampleWorld, [], .plentiful, [], []⟩
      waitingRun := by
    refine .cons trivial rfl (.cons (fun s member _ _ r ring => ?_) rfl ?_)
    · rw [List.mem_singleton.mp member] at ring
      cases ring
      exact Nat.le_refl 1
    refine .cons trivial rfl (.cons trivial rfl (.cons (fun s member _ unknown => ?_) rfl ?_))
    · rw [List.mem_singleton.mp member] at unknown
      cases unknown
    refine .cons (fun s member _ unknown => ?_) rfl trivial
    rw [List.mem_singleton.mp member] at unknown
    cases unknown
  exact sent_in_order (s := sampleStream) (by decide) List.mem_cons_self rfl rfl waitingRun room
    resolves _ rfl

/-- Two fragments wait; the pass before the ARP reply puts the first behind the second. -/
theorem unresolved_pass_reorders : ∃ d : Sender,
    runs Sender.step ⟨sampleWorld, [], .plentiful, [], []⟩ [.enqueue 1 (byteFragment 97),
      .enqueue 1 (byteFragment 98), .out 1, .arpReply 2 #v[1, 2, 3, 4, 5, 6], .out 1, .out 1] =
      .ok d ∧
    sentFor 1 d.built = [byteFragment 98, byteFragment 97] ∧
    eventsOf 1 d.enqueued = [byteFragment 97, byteFragment 98] ∧
    ¬ sentFor 1 d.built <+: eventsOf 1 d.enqueued := by
  refine ⟨_, rfl, rfl, rfl, ?_⟩
  decide

end LinuxCpp.Ustack
