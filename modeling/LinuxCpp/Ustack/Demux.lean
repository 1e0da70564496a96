import LinuxCpp.Ustack.Lifetimes
import LinuxCpp.Ustack.Receive

set_option autoImplicit false

/- Connections and their four numbers. A connection whose SYN+ACK could not be allocated
stays in the list in LISTEN; a SYN that finds it by its own numbers makes a second one. -/
namespace LinuxCpp.Ustack

open C Trace

/-- The streams have the same two addresses and ports. -/
def Stream.SamePeer (s t : Stream) : Prop :=
  s.sip = t.sip ∧ s.dip = t.dip ∧ s.sport = t.sport ∧ s.dport = t.dport

theorem Stream.SamePeer.symm {s t : Stream} (same : s.SamePeer t) : t.SamePeer s :=
  ⟨same.1.symm, same.2.1.symm, same.2.2.1.symm, same.2.2.2.symm⟩

theorem Stream.SamePeer.trans {s t u : Stream} (first : s.SamePeer t) (second : t.SamePeer u) :
    s.SamePeer u :=
  ⟨first.1.trans second.1, first.2.1.trans second.2.1, first.2.2.1.trans second.2.2.1,
    first.2.2.2.trans second.2.2.2⟩

/-- The blocks of the connections, that is of the streams that segments have added. -/
def noteConnection (m : Machine) (e : Event) (_ : Option Int) (m' : Machine)
    (connections : List Nat) : List Nat :=
  match e with
  | .segment _ _ => (m'.world.tcbSet.map Stream.addr).filter
      (fun block => block ∉ m.world.tcbSet.map Stream.addr) ++ connections
  | _ => connections

/-- Segments of clients, what a server does with its connections, and the sender. -/
def Serving : Event → Prop
  | .segment _ seg => seg.srcAddr ≠ 0
  | .accept _ | .send _ _ | .recv _ _ | .close _ | .out _ _ => True
  | _ => False

instance : DecidablePred Serving
  | .segment _ seg => inferInstanceAs (Decidable (seg.srcAddr ≠ 0))
  | .accept _ | .send _ _ | .recv _ _ | .close _ | .out _ _ => isTrue trivial
  | .socket _ | .bind _ _ _ | .listen _ | .recvfrom _ _ _ | .sendto _ _ _ _ => isFalse id

/-- A SYN does not find a connection of its own four numbers in LISTEN. -/
def FirstSyn (d : Machine × List Nat) : Event → Prop
  | .segment _ seg => seg.has tcpSynFlag = true → ∀ s, Receives d.1.world seg s →
      s.status = .listen → s.addr ∈ d.2 → ¬ seg.To s
  | _ => True

/-- No two connections have the same four numbers, and the search finds each of them. -/
structure Demultiplexed (d : Machine × List Nat) : Prop where
  unique : ∀ s ∈ d.1.world.tcbSet, ∀ t ∈ d.1.world.tcbSet, s.addr ∈ d.2 → t.addr ∈ d.2 →
    s.SamePeer t → s = t
  found : ∀ s ∈ d.1.world.tcbSet, s.addr ∈ d.2 →
    ngTcpStreamSearch d.1.world s.sip s.dip s.sport s.dport = some s

section Search

variable {w : World} {seg : Segment} {s : Stream}

/-- The stream with these numbers, if there is just one. -/
theorem search_exact (member : s ∈ w.tcbSet) (alone : ∀ t ∈ w.tcbSet, t.SamePeer s → t = s) :
    ngTcpStreamSearch w s.sip s.dip s.sport s.dport = some s := by
  unfold ngTcpStreamSearch
  have first : (w.tcbSet.find? fun iter => decide (iter.sip = s.sip ∧ iter.dip = s.dip ∧
      iter.sport = s.sport ∧ iter.dport = s.dport)) = some s := by
    cases found : w.tcbSet.find? fun iter => decide (iter.sip = s.sip ∧ iter.dip = s.dip ∧
        iter.sport = s.sport ∧ iter.dport = s.dport) with
    | none => simpa using List.find?_eq_none.mp found s member
    | some t =>
        have same := List.find?_some found
        rw [decide_eq_true_eq] at same
        rw [alone t (List.mem_of_find?_eq_some found) same]
  rw [first]

/-- A stream that receives the segment by its port alone has no better one in the list. -/
theorem Receives.no_exact (receives : Receives w seg s) (other : ¬ seg.To s) :
    ∀ t ∈ w.tcbSet, ¬ seg.To t := by
  intro t member exact_
  have found := receives.2
  unfold ngTcpStreamSearch at found
  split at found
  · rename_i first
    cases found
    have same := List.find?_some first
    rw [decide_eq_true_eq] at same
    exact other same
  · rename_i nobody
    have different := List.find?_eq_none.mp nobody t member
    rw [decide_eq_true_eq] at different
    exact different exact_

end Search

section Tuples

variable {isn : UInt32} {w : World} {seg : Segment} {A : Allocator}

/-- A stream of a list that a SYN was handled on: an old one, or one with the numbers of
the SYN. -/
def Comes (w : World) (seg : Segment) (tcbs : List Stream) : Prop :=
  ∀ s ∈ tcbs, s.addr ∈ w.tcbSet.map Stream.addr ∨ (seg.To s ∧ seg.has tcpSynFlag = true)

theorem Comes.of_same {tcbs : List Stream} (same : tcbs = w.tcbSet) : Comes w seg tcbs := by
  intro s member
  rw [same] at member
  exact .inl (List.mem_map_of_mem member)

theorem ngTcpStreamCreate_numbers (sip dip : UInt32) (sport dport : UInt16) :
    Leaves (ngTcpStreamCreate isn w sip dip sport dport) A fun done _ =>
      done.2.tcbSet = w.tcbSet ∧ ∀ s, done.1 = some s →
        s.sip = sip ∧ s.dip = dip ∧ s.sport = sport ∧ s.dport = dport := by
  unfold ngTcpStreamCreate
  refine .malloc (fun _ => .pure ⟨rfl, fun _ none_ => nomatch none_⟩) fun _ => .step rfl ?_
  apply (Leaves.of_returns (ringCreate_streams w .sndbuf)).bind
  rintro ⟨sndbuf, w₁⟩ B ⟨streams, -⟩
  apply (Leaves.of_returns (ringCreate_streams w₁ .rcvbuf)).bind
  rintro ⟨rcvbuf, w₂⟩ C ⟨streams', -⟩
  refine .pure ⟨streams'.trans streams, fun s made => ?_⟩
  cases made
  exact ⟨rfl, rfl, rfl, rfl⟩

theorem ngTcpHandleListen_comes (stream : Stream) :
    Leaves (ngTcpHandleListen isn w stream seg) A fun done _ => Comes w seg done.2.tcbSet := by
  unfold ngTcpHandleListen
  refine .ite (fun syn => .ite (fun _ => ?_) fun _ => .pure (.of_same rfl))
    fun _ => .pure (.of_same rfl)
  apply (ngTcpStreamCreate_numbers _ _ _ _).bind
  rintro ⟨_ | made, w₁⟩ B ⟨streams, numbers⟩
  · exact .throw _
  · have front {s : Stream} (to_ : seg.To s) : Comes w seg (w₁.add s).tcbSet := by
      intro t member
      rcases List.mem_cons.mp member with rfl | old
      · exact .inr ⟨to_, syn⟩
      · exact Comes.of_same streams t old
    have to_ : seg.To made := numbers made rfl
    exact .malloc (fun _ => .pure (front to_)) fun _ => .skip fun _ _ => .pure (front to_)

theorem Comes.put {s : Stream} (block : s.addr ∈ w.tcbSet.map Stream.addr) :
    Comes w seg (w.put s).tcbSet := by
  intro t member
  rcases mem_put member with rfl | ⟨old, -⟩
  · exact .inl block
  · exact .inl (List.mem_map_of_mem old)

/-- Whatever the segment is, it brings no stream into the list but a connection of its
own numbers. -/
theorem ngTcpProcess_comes :
    Leaves (ngTcpProcess isn w seg) A fun done _ => Comes w seg done.2.tcbSet := by
  unfold ngTcpProcess
  refine .ite (fun _ => .pure (.of_same rfl)) fun _ => ?_
  split
  · exact .pure (.of_same rfl)
  · rename_i stream found
    have block : stream.addr ∈ w.tcbSet.map Stream.addr :=
      List.mem_map_of_mem (mem_of_search found)
    split
    · exact (ngTcpHandleListen_comes stream).bind fun _ _ comes => .pure comes
    · refine .after (ngTcpHandleSynRcvd_returns stream) ?_
      rintro ⟨ret, _⟩ (rfl | ⟨-, rfl⟩)
      · exact .pure (.of_same rfl)
      · exact .pure (.put block)
    · apply (Leaves.of_returns (ngTcpHandleEstablished_returns stream _)).bind
      rintro ⟨ret, _⟩ B ⟨rcvbuf, sndbuf, rcvNxt, rfl⟩
      exact .pure (.put block)
    · apply (ngTcpHandleLastAck_leaves stream).bind
      rintro ⟨ret, _⟩ B (rfl | ⟨-, streams, -⟩)
      · exact .pure (.of_same rfl)
      · refine .pure fun t member => .inl ?_
        rw [streams] at member
        exact List.mem_map_of_mem (List.mem_filter.mp member).1
    · exact .pure (.of_same rfl)

/-- The stream of a new socket has no peer yet. -/
theorem nsocket_peers (type : SockType) :
    Leaves (nsocket w type) A fun done _ => ∀ s ∈ done.2.tcbSet, s ∈ w.tcbSet ∨ s.sip = 0 := by
  unfold nsocket
  cases taken : getFdFrombitmap w with
  | mk fd w₀ =>
      have kept := (getFdFrombitmap_streams w).1
      rw [taken] at kept
      have old {tcbs : List Stream} (same : tcbs = w₀.tcbSet) :
          ∀ s ∈ tcbs, s ∈ w.tcbSet ∨ s.sip = 0 := by
        intro s member
        rw [same, kept] at member
        exact .inl member
      cases type with
      | other => exact .pure (old rfl)
      | dgram =>
          refine .malloc (fun _ => .pure (old rfl)) fun _ => ?_
          apply (Leaves.of_returns (ringCreate_streams w₀ .recvBuffer)).bind
          rintro ⟨_ | rcvbuf, w₁⟩ B ⟨streams₁, -⟩
          · exact .step rfl (.pure (old streams₁))
          apply (Leaves.of_returns (ringCreate_streams w₁ .sendBuffer)).bind
          rintro ⟨_ | sndbuf, w₂⟩ C ⟨streams₂, -⟩
          · exact .step rfl (.pure (old (streams₂.trans streams₁)))
          · exact .pure (old (streams₂.trans streams₁))
      | stream =>
          refine .malloc (fun _ => .pure (old rfl)) fun _ => ?_
          apply (Leaves.of_returns (ringCreate_streams w₀ .tcpRecvBuffer)).bind
          rintro ⟨_ | rcvbuf, w₁⟩ B ⟨streams₁, -⟩
          · exact .step rfl (.pure (old streams₁))
          apply (Leaves.of_returns (ringCreate_streams w₁ .tcpSendBuffer)).bind
          rintro ⟨_ | sndbuf, w₂⟩ C ⟨streams₂, -⟩
          · exact .step rfl (.pure (old (streams₂.trans streams₁)))
          · refine .pure fun s member => ?_
            rcases List.mem_cons.mp member with rfl | before
            · exact .inr rfl
            · exact old (streams₂.trans streams₁) s before

end Tuples

section Steps

variable {d d' : Machine × List Nat} {e : Event} {ret : Option Int} {s t : Stream}

/-- The blocks of the connections are those of the streams with a peer, and no two of
them have the same four numbers. -/
structure Peers (d : Machine × List Nat) : Prop where
  numbered : Numbered d.1
  recorded : ∀ s ∈ d.1.world.tcbSet, s.addr ∈ d.2 ↔ s.sip ≠ 0
  unique : ∀ s ∈ d.1.world.tcbSet, ∀ t ∈ d.1.world.tcbSet, s.addr ∈ d.2 → t.addr ∈ d.2 →
    s.SamePeer t → s = t

theorem Peers.demultiplexed (peers : Peers d) : Demultiplexed d := by
  refine ⟨peers.unique, fun s member connection => ?_⟩
  apply search_exact member
  intro t member' same
  have connection' : t.addr ∈ d.2 := by
    have peer := (peers.recorded s member).mp connection
    rw [← same.1] at peer
    exact (peers.recorded t member').mpr peer
  exact peers.unique t member' s member connection' connection same

theorem Evolves.samePeer {m : Machine} (evolves : Evolves m e ret s t) (serving : Serving e) :
    s.SamePeer t := by
  cases evolves with
  | bound named => exact serving.elim
  | _ => exact ⟨rfl, rfl, rfl, rfl⟩

/-- A stream after an event of a server: one of before with its numbers, or a new one. -/
theorem Change.origin {m m' : Machine} (change : Change m e ret m') (serving : Serving e)
    (member : t ∈ m'.world.tcbSet) :
    (∃ s ∈ m.world.tcbSet, s.addr = t.addr ∧ s.SamePeer t) ∨ Born m e ret t := by
  rcases change.after member with old | ⟨s, old, evolves⟩ | born
  · exact .inl ⟨t, old, rfl, rfl, rfl, rfl, rfl⟩
  · exact .inl ⟨s, old, evolves.addr.symm, evolves.samePeer serving⟩
  · exact .inr born

theorem Machine.act_comes {m m' : Machine} {isn : UInt32} {seg : Segment}
    (ran : m.act (.segment isn seg) = .ok (ret, m')) : Comes m.world seg m'.world.tcbSet := by
  obtain ⟨value, rfl, called⟩ := Machine.call_ok ran
  exact ngTcpProcess_comes.of_ok _ _ called

/-- The record grows by blocks that no stream had. -/
theorem recorded_iff {m m' : Machine} {connections : List Nat} (member : s ∈ m.world.tcbSet) :
    s.addr ∈ noteConnection m e ret m' connections ↔ s.addr ∈ connections := by
  unfold noteConnection
  split
  · have old := List.mem_map_of_mem (f := Stream.addr) member
    rw [List.mem_append, List.mem_filter]
    simp only [decide_eq_true_eq]
    tauto
  · rfl

/-- What a new connection is. -/
structure Connects (d : Machine × List Nat) (e : Event) (d' : Machine × List Nat) (s : Stream) :
    Prop where
  block : s.addr = d.1.heap.calls + 1
  peer : s.sip ≠ 0
  noted : s.addr ∈ d'.2
  alone : ∀ t ∈ d.1.world.tcbSet, ¬ t.SamePeer s

theorem Peers.connects (peers : Peers d) (serving : Serving e) (first : FirstSyn d e)
    (ran : d.1.act e = .ok (ret, d'.1)) (noted : d'.2 = noteConnection d.1 e ret d'.1 d.2)
    (member : s ∈ d'.1.world.tcbSet) (born : Born d.1 e ret s) : Connects d e d' s := by
  have fresh : s.addr ∉ d.1.world.tcbSet.map Stream.addr := by
    intro old
    have issued := peers.numbered.streams.bound _ old
    have block := born.block
    omega
  have listened {isn : UInt32} {seg : Segment} {listener : Stream}
      (receives : Receives d.1.world seg listener) (listens : listener.status = .listen)
      (is_segment : e = .segment isn seg) : Connects d e d' s := by
    subst is_segment
    have comes := Machine.act_comes ran s member
    obtain ⟨to_, syn⟩ := comes.resolve_left fresh
    have other : ¬ seg.To listener := by
      by_cases connection : listener.addr ∈ d.2
      · exact first syn listener receives listens connection
      · have nobody := mt (peers.recorded listener (mem_of_search receives.2)).mpr connection
        intro to_listener
        exact nobody (to_listener.1 ▸ serving)
    refine ⟨born.block, to_.1 ▸ serving, ?_, fun t old same => ?_⟩
    · rw [noted]
      refine List.mem_append_left _ (List.mem_filter.mpr ⟨List.mem_map_of_mem member, ?_⟩)
      simpa using fresh
    · refine receives.no_exact other t old ?_
      exact ⟨same.1.trans to_.1, same.2.1.trans to_.2.1, same.2.2.1.trans to_.2.2.1,
        same.2.2.2.trans to_.2.2.2⟩
  cases born with
  | syn receives listens => exact listened receives listens rfl
  | half receives listens => exact listened receives listens rfl
  | socket => exact serving.elim

/-- No event of a server gives two connections the same numbers. -/
theorem Peers.step (peers : Peers d) (serving : Serving e) (first : FirstSyn d e)
    (stepped : Machine.recorded noteConnection d e = .ok d') : Peers d' := by
  obtain ⟨ret, ran, noted⟩ := Machine.recorded_ok stepped
  have numbered := peers.numbered.act ran
  have origin {t : Stream} (member : t ∈ d'.1.world.tcbSet) :
      (∃ s ∈ d.1.world.tcbSet, s.addr = t.addr ∧ s.SamePeer t) ∨ Connects d e d' t := by
    rcases (Machine.act_change ran).origin serving member with old | born
    · exact .inl old
    · exact .inr (peers.connects serving first ran noted member born)
  refine ⟨numbered, fun t member => ?_, fun t at_t u at_u connection connection' same => ?_⟩
  · rcases origin member with ⟨s, old, block, numbers⟩ | connects
    · rw [noted, ← block, recorded_iff old, peers.recorded s old, numbers.1]
    · exact iff_of_true connects.noted connects.peer
  · apply numbered.unique at_u at_t
    have recorded {s v : Stream} (old : s ∈ d.1.world.tcbSet) (block : s.addr = v.addr)
        (now : v.addr ∈ d'.2) : s.addr ∈ d.2 := by
      rw [noted, ← block] at now
      exact (recorded_iff old).mp now
    rcases origin at_t with ⟨s, old, block, numbers⟩ | connects
    · rcases origin at_u with ⟨v, old', block', numbers'⟩ | connects'
      · have before : s.SamePeer v := (numbers.trans same).trans numbers'.symm
        have equal := peers.unique s old v old' (recorded old block connection)
          (recorded old' block' connection') before
        rw [← block, ← block', equal]
      · exact absurd (numbers.trans same) (connects'.alone s old)
    · rcases origin at_u with ⟨v, old', block', numbers'⟩ | connects'
      · exact absurd (numbers'.trans same.symm) (connects.alone v old')
      · rw [connects.block, connects'.block]

end Steps

section Setup

variable {m₀ : Machine} {d₀ : Machine × List Nat} {fd : Int} {port : UInt16} {ip : UInt32}

/-- The calls with which a server makes its listener. -/
def listening (fd : Int) (port : UInt16) (ip : UInt32) : List Event :=
  [.socket .stream, .bind fd port ip, .listen fd]

/-- No stream has a peer before the first SYN. -/
theorem listening_peers (numbered : Numbered m₀) (nobody : m₀.world.tcbSet = [])
    (setup : runs (Machine.recorded noteConnection) (m₀, []) (listening fd port ip) = .ok d₀) :
    Peers d₀ := by
  obtain ⟨d₁, socket, rest⟩ := runs_cons_ok setup
  obtain ⟨d₂, bound, rest⟩ := runs_cons_ok rest
  obtain ⟨d₃, listens, rest⟩ := runs_cons_ok rest
  cases rest
  obtain ⟨ret₁, ran₁, noted₁⟩ := Machine.recorded_ok socket
  obtain ⟨ret₂, ran₂, noted₂⟩ := Machine.recorded_ok bound
  obtain ⟨ret₃, ran₃, noted₃⟩ := Machine.recorded_ok listens
  have record : d₀.2 = [] := noted₃.trans (noted₂.trans noted₁)
  have first : ∀ s ∈ d₁.1.world.tcbSet, s.sip = 0 := by
    obtain ⟨value, rfl, called⟩ := Machine.call_ok ran₁
    intro s member
    rcases (nsocket_peers .stream).of_ok _ _ called s member with old | none_
    · rw [nobody] at old
      exact absurd old List.not_mem_nil
    · exact none_
  have second : ∀ s ∈ d₂.1.world.tcbSet, s.sip = 0 := by
    intro s member
    rcases (Machine.act_change ran₂).after member with old | ⟨t, old, evolves⟩ | born
    · exact first s old
    · cases evolves
      exact first t old
    · cases born
  have third : ∀ s ∈ d₀.1.world.tcbSet, s.sip = 0 := by
    intro s member
    rcases (Machine.act_change ran₃).after member with old | ⟨t, old, evolves⟩ | born
    · exact second s old
    · cases evolves
      exact second t old
    · cases born
  refine ⟨((numbered.act ran₁).act ran₂).act ran₃, fun s member => ?_, ?_⟩
  · rw [record]
    exact iff_of_false List.not_mem_nil fun peer => peer (third s member)
  · intro s _ t _ connection
    rw [record] at connection
    exact absurd connection List.not_mem_nil

end Setup

/-- As long as no SYN finds a connection of its own numbers in LISTEN, connections differ
in their numbers and are found by them. -/
theorem demultiplexed_of_first_syn (m₀ : Machine) (numbered : Numbered m₀)
    (nobody : m₀.world.tcbSet = []) (fd : Int) (port : UInt16) (ip : UInt32)
    (d₀ : Machine × List Nat)
    (setup : runs (Machine.recorded noteConnection) (m₀, []) (listening fd port ip) = .ok d₀)
    (events : List Event) (serving : ∀ e ∈ events, Serving e)
    (first : Along (Machine.recorded noteConnection) FirstSyn d₀ events)
    (d : Machine × List Nat) (ran : runs (Machine.recorded noteConnection) d₀ events = .ok d) :
    Demultiplexed d := by
  have start := listening_peers numbered nobody setup
  have along := (Along.of_mem serving d₀).and first
  have peers := along.invariant Peers start
    (fun _ _ _ peers meets stepped => peers.step meets.1 meets.2 stepped) ran
  exact peers.demultiplexed

/-- The memory is refused at these calls. -/
def refusing (calls : List Nat) : Allocator := ⟨fun call => call ∉ calls, fun _ _ => 0, 0, []⟩

/-- Two clients; the SYN+ACK of the second cannot be allocated. -/
theorem demultiplexed_of_first_syn_two : ∃ d,
    runs (Machine.recorded noteConnection) (⟨World.empty, refusing [8]⟩, []) (listening 3 3 4 ++
      [.segment 99 (sampleSegment 9 0x02 []),
        .segment 7 { sampleSegment 9 0x02 [] with srcPort := 5 }]) = .ok d ∧
    d.2 = [8, 4] ∧ Demultiplexed d := by
  refine ⟨_, rfl, rfl, ?_⟩
  refine demultiplexed_of_first_syn ⟨World.empty, refusing [8]⟩ (.empty _) rfl 3 3 4 _ rfl
    [.segment 99 (sampleSegment 9 0x02 []),
      .segment 7 { sampleSegment 9 0x02 [] with srcPort := 5 }] (by decide) ?_ _ rfl
  refine .cons (fun _ s _ _ connection => absurd connection List.not_mem_nil) rfl ?_
  refine ⟨fun _ s receives _ connection => ?_, fun _ _ => trivial⟩
  cases receives.2
  exact absurd connection (by decide)

/-- Without memory for the SYN+ACK the connection stays in LISTEN, and the same SYN
makes it again. -/
theorem repeated_syn_twice : ∃ d₀ d,
    runs (Machine.recorded noteConnection) (⟨World.empty, refusing [6, 8]⟩, [])
      (listening 3 3 4) = .ok d₀ ∧
    (∀ e ∈ ([.segment 99 (sampleSegment 9 0x02 []), .segment 7 (sampleSegment 9 0x02 [])] :
      List Event), Serving e) ∧
    runs (Machine.recorded noteConnection) d₀
      [.segment 99 (sampleSegment 9 0x02 []), .segment 7 (sampleSegment 9 0x02 [])] = .ok d ∧
    d.2 = [8, 4] ∧ ¬ Demultiplexed d := by
  refine ⟨_, _, rfl, by decide, rfl, rfl, ?_⟩
  intro demux
  have newer := demux.unique _ List.mem_cons_self _ (List.mem_cons_of_mem _ List.mem_cons_self)
    (by decide) (by decide) ⟨rfl, rfl, rfl, rfl⟩
  cases congrArg Stream.addr newer

end LinuxCpp.Ustack
