import LinuxCpp.C.Avoids
import LinuxCpp.Ustack.Demux
import LinuxCpp.Ustack.Descriptors

set_option autoImplicit false

/- The rings of the entries. A connection asks for rings of two fixed names, so beside
another connection it gets none, and nobody looks whether it got them. -/
namespace LinuxCpp.Ustack

open C Trace

/-- The rings of an entry, by their blocks. -/
def Entry.rings : Entry → List Nat
  | .host h => [h.rcvbuf.block, h.sndbuf.block]
  | .stream s => (s.rcvbuf.map Ring.block).toList ++ (s.sndbuf.map Ring.block).toList

/-- Every stream has both rings, as every host has, and no ring stands in two places. -/
structure World.OwnBuffers (w : World) : Prop where
  present : ∀ s ∈ w.tcbSet, s.Buffered
  single : (w.entries.flatMap Entry.rings).Nodup

/-- A SYN for a stream in LISTEN, for which `ng_tcp_stream_create` is called. -/
def Creates (m : Machine) : Event → Prop
  | .segment _ seg => seg.has tcpSynFlag = true ∧ ∃ s, Receives m.world seg s ∧ s.status = .listen
  | _ => False

/-- The names of the rings are free when a new connection asks for them. -/
def NamesFree (m : Machine) (e : Event) : Prop :=
  Creates m e → m.heap.grants m.heap.calls = true →
    RingName.sndbuf ∉ m.world.rings ∧ RingName.rcvbuf ∉ m.world.rings

/-- Rings are refused for their names alone. -/
def RingMemory (m : Machine) (e : Event) : Prop :=
  Creates m e → m.heap.grants (m.heap.calls + 1) = true ∧ m.heap.grants (m.heap.calls + 2) = true

/-- What names an entry: the list it is in, and its block. -/
def Entry.key : Entry → Bool × Nat
  | .host h => (false, h.addr)
  | .stream s => (true, s.addr)

/-- The entry has not changed its rings. -/
def Entry.Keeps (old new : Entry) : Prop := old.key = new.key ∧ old.rings = new.rings

/-- The entry has two rings, made by calls after `calls` and up to `calls'`. -/
structure Entry.Made (entry : Entry) (calls calls' : Nat) : Prop where
  two : entry.rings.length = 2
  nodup : entry.rings.Nodup
  after : ∀ block ∈ entry.rings, calls < block ∧ block ≤ calls'

/-- The entries are those of before with their rings, and at most one with new rings. -/
def Grown (w w' : World) (calls calls' : Nat) : Prop :=
  ∃ key, ∀ entry ∈ w'.entries, (∃ old ∈ w.entries, old.Keeps entry) ∨
    (entry.key = key ∧ entry.Made calls calls')

section Entries

variable {w w' : World} {s s' : Stream} {h h' : Host} {entry : Entry} {calls calls' : Nat}

theorem mem_entries :
    entry ∈ w.entries ↔ (∃ h ∈ w.lhost, .host h = entry) ∨ ∃ s ∈ w.tcbSet, .stream s = entry := by
  simp [World.entries]

theorem stream_mem_entries (member : s ∈ w.tcbSet) : .stream s ∈ w.entries :=
  mem_entries.mpr (.inr ⟨s, member, rfl⟩)

theorem host_mem_entries (member : h ∈ w.lhost) : .host h ∈ w.entries :=
  mem_entries.mpr (.inl ⟨h, member, rfl⟩)

theorem Entry.Keeps.refl (entry : Entry) : entry.Keeps entry := ⟨rfl, rfl⟩

/-- A stream with two rings has both of them. -/
theorem buffered_of_two (two : (Entry.stream s).rings.length = 2) : s.Buffered := by
  simp only [Entry.rings] at two
  cases receiving : s.rcvbuf with
  | none =>
      rw [receiving] at two
      cases sending : s.sndbuf <;> simp [sending] at two
  | some r =>
      cases sending : s.sndbuf with
      | none => simp [receiving, sending] at two
      | some q => exact ⟨⟨r, receiving⟩, q, sending⟩

theorem Grown.of_parts
    (streams : ∀ t ∈ w'.tcbSet, ∃ old ∈ w.tcbSet, (Entry.stream old).Keeps (.stream t))
    (hosts : ∀ g ∈ w'.lhost, ∃ old ∈ w.lhost, (Entry.host old).Keeps (.host g)) :
    Grown w w' calls calls' := by
  refine ⟨(true, 0), fun entry member => .inl ?_⟩
  rcases mem_entries.mp member with ⟨g, at_g, rfl⟩ | ⟨t, at_t, rfl⟩
  · obtain ⟨old, at_old, keeps⟩ := hosts g at_g
    exact ⟨_, host_mem_entries at_old, keeps⟩
  · obtain ⟨old, at_old, keeps⟩ := streams t at_t
    exact ⟨_, stream_mem_entries at_old, keeps⟩

theorem Grown.sub (streams : w'.tcbSet ⊆ w.tcbSet) (hosts : w'.lhost ⊆ w.lhost) :
    Grown w w' calls calls' :=
  of_parts (fun t member => ⟨t, streams member, .refl _⟩)
    fun g member => ⟨g, hosts member, .refl _⟩

theorem Grown.same (streams : w'.tcbSet = w.tcbSet) (hosts : w'.lhost = w.lhost) :
    Grown w w' calls calls' :=
  sub (streams ▸ List.Subset.refl _) (hosts ▸ List.Subset.refl _)

/-- A stream is written that keeps its rings. -/
theorem Grown.put (member : s ∈ w.tcbSet) (keeps : (Entry.stream s).Keeps (.stream s'))
    (streams : w'.tcbSet = (w.put s').tcbSet) (hosts : w'.lhost = w.lhost) :
    Grown w w' calls calls' := by
  apply of_parts
  · intro t at_t
    rw [streams] at at_t
    rcases mem_put at_t with rfl | ⟨old, -⟩
    · exact ⟨s, member, keeps⟩
    · exact ⟨t, old, .refl _⟩
  · intro g at_g
    rw [hosts] at at_g
    exact ⟨g, at_g, .refl _⟩

theorem Grown.putHost (member : h ∈ w.lhost) (keeps : (Entry.host h).Keeps (.host h'))
    (streams : w'.tcbSet = w.tcbSet) (hosts : w'.lhost = (w.putHost h').lhost) :
    Grown w w' calls calls' := by
  apply of_parts
  · intro t at_t
    exact ⟨t, streams ▸ at_t, .refl _⟩
  · intro g at_g
    rw [hosts] at at_g
    obtain ⟨old, at_old, rfl⟩ := List.mem_map.mp at_g
    split
    · exact ⟨h, member, keeps⟩
    · exact ⟨old, at_old, .refl _⟩

/-- An entry comes in front. -/
theorem Grown.front (made : entry.Made calls calls')
    (all : ∀ new ∈ w'.entries, new = entry ∨ new ∈ w.entries) : Grown w w' calls calls' := by
  refine ⟨entry.key, fun new member => ?_⟩
  rcases all new member with rfl | old
  · exact .inr ⟨rfl, made⟩
  · exact .inl ⟨new, old, .refl _⟩

theorem Grown.add (made : (Entry.stream s).Made calls calls')
    (streams : w'.tcbSet = s :: w.tcbSet) (hosts : w'.lhost = w.lhost) :
    Grown w w' calls calls' := by
  apply front made
  intro new member
  rcases mem_entries.mp member with ⟨g, at_g, rfl⟩ | ⟨t, at_t, rfl⟩
  · exact .inr (host_mem_entries (hosts ▸ at_g))
  · rw [streams] at at_t
    rcases List.mem_cons.mp at_t with rfl | old
    · exact .inl rfl
    · exact .inr (stream_mem_entries old)

theorem Grown.addHost (made : (Entry.host h).Made calls calls')
    (streams : w'.tcbSet = w.tcbSet) (hosts : w'.lhost = h :: w.lhost) :
    Grown w w' calls calls' := by
  apply front made
  intro new member
  rcases mem_entries.mp member with ⟨g, at_g, rfl⟩ | ⟨t, at_t, rfl⟩
  · rw [hosts] at at_g
    rcases List.mem_cons.mp at_g with rfl | old
    · exact .inl rfl
    · exact .inr (host_mem_entries old)
  · exact .inr (stream_mem_entries (streams ▸ at_t))

end Entries

section Handlers

variable {w : World} {s : Stream} {seg : Segment} {A : Allocator} {isn : UInt32}

/-- The rings of the streams are the same. -/
def Stream.SameRings (s t : Stream) : Prop :=
  t.addr = s.addr ∧ t.rcvbuf.map Ring.block = s.rcvbuf.map Ring.block ∧
    t.sndbuf.map Ring.block = s.sndbuf.map Ring.block

theorem Stream.SameRings.refl (s : Stream) : s.SameRings s := ⟨rfl, rfl, rfl⟩

theorem Stream.SameRings.trans {s t u : Stream} (first : s.SameRings t) (second : t.SameRings u) :
    s.SameRings u :=
  ⟨second.1.trans first.1, second.2.1.trans first.2.1, second.2.2.trans first.2.2⟩

theorem Stream.SameRings.keeps {s t : Stream} (same : s.SameRings t) :
    (Entry.stream s).Keeps (.stream t) := by
  obtain ⟨block, receiving, sending⟩ := same
  refine ⟨?_, ?_⟩
  · simp only [Entry.key, block]
  · simp only [Entry.rings, receiving, sending]

/-- A ring that something is put on stays the ring that it was. -/
theorem enqueue_block {α : Type} (ring : Option (Ring α)) (entry : α) :
    Returns (enqueue ring entry) fun ring' => ring'.map Ring.block = ring.map Ring.block := by
  refine ⟨fun ring' put => ?_⟩
  obtain ⟨r, rfl, rfl⟩ := (enqueue_returns ring entry).of_ok ring' put
  simp

theorem ngTcpEnqueueRecvbuffer_rings (s : Stream) (len : Int) :
    ReturnsM (ngTcpEnqueueRecvbuffer s seg len) fun done => s.SameRings done.2 := by
  unfold ngTcpEnqueueRecvbuffer
  refine .skip ?_
  rintro (_ | block)
  · exact .pure (.refl s)
  refine .ite (.skip ?_) (.bind (.lift (enqueue_block _ _)) fun ring same => .pure ⟨rfl, same, rfl⟩)
  rintro (_ | block)
  · exact .pure (.refl s)
  · exact .skip fun data => .bind (.lift (enqueue_block _ _)) fun ring same =>
      .pure ⟨rfl, same, rfl⟩

theorem ngTcpSendAckpkt_rings (s : Stream) :
    ReturnsM (ngTcpSendAckpkt s seg) fun done => s.SameRings done.2 := by
  unfold ngTcpSendAckpkt
  refine .skip ?_
  rintro (_ | block)
  · exact .pure (.refl s)
  · exact .bind (.lift (enqueue_block _ _)) fun ring same => .pure ⟨rfl, rfl, same⟩

theorem receivePush_rings (s : Stream) (len : Int) :
    ReturnsM (receivePush s seg len) fun t => s.SameRings t := by
  unfold receivePush
  apply (ngTcpEnqueueRecvbuffer_rings s len).bind
  intro done first
  apply (ngTcpSendAckpkt_rings _).bind
  intro done' second
  exact .pure (first.trans second)

theorem receiveFin_rings (s : Stream) : ReturnsM (receiveFin s seg) fun t => s.SameRings t := by
  unfold receiveFin
  apply (ngTcpEnqueueRecvbuffer_rings _ _).bind
  intro done first
  apply (ngTcpSendAckpkt_rings _).bind
  intro done' second
  exact .pure (first.trans second)

theorem ngTcpHandleEstablished_rings (s : Stream) (len : Int) :
    ReturnsM (ngTcpHandleEstablished s seg len) fun done => s.SameRings done.2 := by
  unfold ngTcpHandleEstablished
  apply (ReturnsM.ite (receivePush_rings s len) (.pure (.refl s))).bind
  intro t first
  apply (ReturnsM.ite (receiveFin_rings t) (.pure (.refl t))).bind
  intro u second
  exact .pure (first.trans second)

/-- A ring of a free name, with the memory granted. -/
theorem ringCreate_run (α : Type) {name : RingName} (free : name ∉ w.rings)
    (granted : A.grants A.calls = true) :
    ringCreate α w name A =
      .ok ((some ⟨A.calls + 1, name, []⟩, { w with rings := name :: w.rings }), A.next) := by
  unfold ringCreate
  rw [if_neg free, bind_ok (malloc_granted granted)]
  rfl

/-- A new connection has both rings, if their names were free. -/
theorem ngTcpStreamCreate_rings (sip dip : UInt32) (sport dport : UInt16)
    (free : A.grants A.calls = true → RingName.sndbuf ∉ w.rings ∧ RingName.rcvbuf ∉ w.rings)
    (memory : A.grants (A.calls + 1) = true ∧ A.grants (A.calls + 2) = true) :
    Leaves (ngTcpStreamCreate isn w sip dip sport dport) A fun done B =>
      done.2.tcbSet = w.tcbSet ∧ done.2.lhost = w.lhost ∧ ∀ syn, done.1 = some syn →
        (Entry.stream syn).Made A.calls B.calls := by
  unfold ngTcpStreamCreate
  refine .malloc (fun _ => .pure ⟨rfl, rfl, fun _ none_ => nomatch none_⟩) fun granted => ?_
  obtain ⟨sndbuf, rcvbuf⟩ := free granted
  have other : RingName.rcvbuf ∉ RingName.sndbuf :: w.rings := by simp [rcvbuf]
  refine .step rfl (.step (ringCreate_run Fragment sndbuf memory.1) ?_)
  refine .step (ringCreate_run Fragment other memory.2) (.pure ⟨rfl, rfl, fun syn made => ?_⟩)
  cases made
  refine ⟨rfl, ?_, ?_⟩
  · simp [Entry.rings]
  · simp [Entry.rings]
    omega

theorem Entry.Made.later {entry : Entry} {calls calls₁ calls₂ : Nat}
    (made : entry.Made calls calls₁) (later : calls₁ ≤ calls₂) : entry.Made calls calls₂ :=
  ⟨made.two, made.nodup, fun block member =>
    ⟨(made.after block member).1, (made.after block member).2.trans later⟩⟩

theorem Entry.Made.keeps {old new : Entry} {calls calls' : Nat} (made : old.Made calls calls')
    (keeps : old.Keeps new) : new.Made calls calls' := by
  have same := keeps.2
  exact ⟨same ▸ made.two, same ▸ made.nodup, same ▸ made.after⟩

theorem ngTcpHandleListen_grown
    (free : seg.has tcpSynFlag = true → s.status = .listen → A.grants A.calls = true →
      RingName.sndbuf ∉ w.rings ∧ RingName.rcvbuf ∉ w.rings)
    (memory : seg.has tcpSynFlag = true → s.status = .listen →
      A.grants (A.calls + 1) = true ∧ A.grants (A.calls + 2) = true) :
    Leaves (ngTcpHandleListen isn w s seg) A fun done B =>
      Grown w done.2 A.calls B.calls := by
  unfold ngTcpHandleListen
  refine .ite (fun syn => .ite (fun listens => ?_) fun _ => .pure (.same rfl rfl))
    fun _ => .pure (.same rfl rfl)
  apply (ngTcpStreamCreate_rings _ _ _ _ (free syn listens) (memory syn listens)).bind
  rintro ⟨_ | made, w₁⟩ B ⟨streams, hosts, rings⟩
  · exact .throw _
  · have both := (rings made rfl).later (Nat.le_succ B.calls)
    have front (t : Stream) : (w₁.add t).tcbSet = t :: w.tcbSet := congrArg (t :: ·) streams
    refine .malloc (fun _ => .pure (.add both (front made) hosts)) fun _ => ?_
    refine .after (enqueue_block _ _) fun ring same => .pure (.add ?_ (front _) hosts)
    exact both.keeps (Stream.SameRings.keeps ⟨rfl, rfl, same⟩)

end Handlers

section Events

variable {m m' : Machine} {e : Event} {ret : Option Int} {isn : UInt32} {seg : Segment}
  {s t : Stream} {h h' : Host}

theorem ngTcpProcess_grown (free : NamesFree m (.segment isn seg))
    (memory : RingMemory m (.segment isn seg)) :
    Leaves (ngTcpProcess isn m.world seg) m.heap fun done B =>
      Grown m.world done.2 m.heap.calls B.calls := by
  unfold ngTcpProcess
  refine .ite (fun _ => .pure (.same rfl rfl)) fun correct => ?_
  split
  · exact .pure (.same rfl rfl)
  · rename_i stream found
    have receives : Receives m.world seg stream := ⟨by simpa using correct, found⟩
    have member := mem_of_search found
    split
    · have creates (syn : seg.has tcpSynFlag = true) (listens : stream.status = .listen) :
          Creates m (.segment isn seg) := ⟨syn, stream, receives, listens⟩
      apply (ngTcpHandleListen_grown (fun syn listens => free (creates syn listens))
        fun syn listens => memory (creates syn listens)).bind
      intro done B grown
      exact .pure grown
    · refine .after (ngTcpHandleSynRcvd_returns stream) ?_
      rintro ⟨ret, _⟩ (rfl | ⟨-, rfl⟩)
      · exact .pure (.same rfl rfl)
      · refine .pure (.put member ?_ rfl rfl)
        exact ⟨rfl, rfl⟩
    · apply (Leaves.of_returns (ngTcpHandleEstablished_rings stream _)).bind
      intro done B same
      exact .pure (.put member same.keeps rfl rfl)
    · apply (ngTcpHandleLastAck_leaves stream).bind
      rintro ⟨ret, w'⟩ B (rfl | ⟨-, streams, hosts⟩)
      · exact .pure (.same rfl rfl)
      · refine .pure (.sub ?_ (hosts ▸ List.Subset.refl _))
        rw [streams]
        exact List.filter_sublist.subset
    · exact .pure (.same rfl rfl)

/-- The ring that a call made, in the block of this call. -/
theorem ringCreate_leaves {α : Type} {w : World} {A : Allocator} (name : RingName) :
    Leaves (ringCreate α w name) A fun done B => done.2.tcbSet = w.tcbSet ∧
      done.2.lhost = w.lhost ∧ A.calls ≤ B.calls ∧
        ∀ r, done.1 = some r → r.block = A.calls + 1 ∧ A.calls < B.calls := by
  unfold ringCreate
  refine .ite (fun _ => .pure ⟨rfl, rfl, Nat.le_refl _, fun _ none_ => nomatch none_⟩) fun _ => ?_
  refine .malloc (fun _ => .pure ⟨rfl, rfl, Nat.le_succ _, fun _ none_ => nomatch none_⟩)
    fun _ => .pure ⟨rfl, rfl, Nat.le_succ _, fun r made => ?_⟩
  cases made
  exact ⟨rfl, Nat.lt_succ_self _⟩

/-- Two rings from calls one after the other. -/
theorem made_of_calls {entry : Entry} {calls first second last : Nat}
    (rings : entry.rings = [first + 1, second + 1]) (before : calls < first)
    (order : first < second) (last_ : second < last) : entry.Made calls last := by
  refine ⟨by rw [rings]; rfl, ?_, ?_⟩
  · rw [rings]
    simp
    omega
  · rw [rings]
    simp
    omega

theorem nsocket_grown (type : SockType) :
    Leaves (nsocket m.world type) m.heap fun done B =>
      Grown m.world done.2 m.heap.calls B.calls := by
  unfold nsocket
  cases taken : getFdFrombitmap m.world with
  | mk fd w =>
      have kept := getFdFrombitmap_streams m.world
      rw [taken] at kept
      obtain ⟨streams, hosts⟩ := kept
      have same {w' : World} {n : Nat} (streams' : w'.tcbSet = w.tcbSet)
          (hosts' : w'.lhost = w.lhost) : Grown m.world w' m.heap.calls n :=
        .same (streams'.trans streams) (hosts'.trans hosts)
      cases type with
      | other => exact .pure (same rfl rfl)
      | dgram =>
          refine .malloc (fun _ => .pure (same rfl rfl)) fun _ => ?_
          apply (ringCreate_leaves .recvBuffer).bind
          rintro ⟨_ | rcvbuf, w₁⟩ B ⟨streams₁, hosts₁, -, first⟩
          · exact .step rfl (.pure (same streams₁ hosts₁))
          apply (ringCreate_leaves .sendBuffer).bind
          rintro ⟨_ | sndbuf, w₂⟩ C ⟨streams₂, hosts₂, -, second⟩
          · exact .step rfl (.pure (same (streams₂.trans streams₁) (hosts₂.trans hosts₁)))
          · obtain ⟨block₁, later₁⟩ := first rcvbuf rfl
            obtain ⟨block₂, later₂⟩ := second sndbuf rfl
            have rings : (Entry.host ⟨m.heap.calls + 1, fd, 0, 0, sndbuf, rcvbuf⟩).rings =
                [m.heap.next.calls + 1, B.calls + 1] := by
              simp only [Entry.rings, block₁, block₂]
            have made := made_of_calls rings (Nat.lt_succ_self _) later₁ later₂
            refine .pure (.addHost made ((streams₂.trans streams₁).trans streams) ?_)
            exact congrArg (List.cons _) ((hosts₂.trans hosts₁).trans hosts)
      | stream =>
          refine .malloc (fun _ => .pure (same rfl rfl)) fun _ => ?_
          apply (ringCreate_leaves .tcpRecvBuffer).bind
          rintro ⟨_ | rcvbuf, w₁⟩ B ⟨streams₁, hosts₁, -, first⟩
          · exact .step rfl (.pure (same streams₁ hosts₁))
          apply (ringCreate_leaves .tcpSendBuffer).bind
          rintro ⟨_ | sndbuf, w₂⟩ C ⟨streams₂, hosts₂, -, second⟩
          · exact .step rfl (.pure (same (streams₂.trans streams₁) (hosts₂.trans hosts₁)))
          · obtain ⟨block₁, later₁⟩ := first rcvbuf rfl
            obtain ⟨block₂, later₂⟩ := second sndbuf rfl
            have rings : (Entry.stream ⟨m.heap.calls + 1, fd, 0, 0, 0, 0, 0, 0, .closed,
                some sndbuf, some rcvbuf⟩).rings = [m.heap.next.calls + 1, B.calls + 1] := by
              simp only [Entry.rings, Option.map_some, Option.toList_some, List.singleton_append,
                block₁, block₂]
            have made := made_of_calls rings (Nat.lt_succ_self _) later₁ later₂
            refine .pure (.add made ?_ ((hosts₂.trans hosts₁).trans hosts))
            exact congrArg (List.cons _) ((streams₂.trans streams₁).trans streams)

theorem recvStream_rings (s : Stream) (len : Nat) :
    Returns (recvStream s len) fun got => ∀ done, got = some done → s.SameRings done.stream := by
  unfold recvStream
  split
  · exact .error _
  · rename_i rcvbuf ring
    split
    · exact .pure fun _ none_ => nomatch none_
    · refine .ite (.pure ?_) (.ite (.pure ?_) (.pure ?_)) <;>
      · intro done got
        cases got
        exact ⟨rfl, by simp [ring], rfl⟩

theorem nrecv_grown (m : Machine) (fd : Int) (len calls calls' : Nat) :
    Returns (nrecv m.world fd len) fun got => ∀ ret copied w, got = some (ret, copied, w) →
      Grown m.world w calls calls' := by
  unfold nrecv
  split
  · refine .pure fun ret copied w got => ?_
    cases got
    exact .same rfl rfl
  · refine .pure fun ret copied w got => ?_
    cases got
    exact .same rfl rfl
  · rename_i stream named
    apply (recvStream_rings stream len).bind
    rintro (_ | done) same
    · exact .pure fun _ _ _ none_ => nomatch none_
    · refine .pure fun ret copied w got => ?_
      cases got
      exact .put (mem_of_hostinfo named) (same done rfl).keeps rfl rfl

theorem outStream_rings (resolved : Bool) (s : Stream) :
    s.SameRings (outStream resolved s).2 := by
  unfold outStream
  split
  · exact .refl s
  · rename_i sndbuf ring
    split
    · exact .refl s
    · dsimp only
      split
      · exact ⟨rfl, rfl, by simp [ring]⟩
      · exact ⟨rfl, rfl, by simp [ring]⟩

/-- The calls whose `Change` says what becomes of the rings. -/
def Event.Plain : Event → Prop
  | .bind .. | .listen _ | .accept _ | .send _ _ | .recvfrom .. | .sendto .. | .close _ => True
  | _ => False

theorem Host.SameRings.keeps (same : h.SameRings h') (block : h'.addr = h.addr) :
    (Entry.host h).Keeps (.host h') := by
  refine ⟨?_, ?_⟩
  · simp only [Entry.key, block]
  · simp only [Entry.rings, same.1, same.2]

theorem Evolves.sameRings (evolves : Evolves m e ret s t) (plain : e.Plain) : s.SameRings t := by
  cases evolves with
  | bound | listens | accepted | refused => exact ⟨rfl, rfl, rfl⟩
  | sends named granted ring fragment => exact ⟨rfl, rfl, by simp [ring]⟩
  | closes named status granted ring fragment proper => exact ⟨rfl, rfl, by simp [ring]⟩
  | established | heard | reads | out => exact plain.elim

theorem Change.grown (change : Change m e ret m') (plain : e.Plain) :
    Grown m.world m'.world m.heap.calls m'.heap.calls := by
  cases change with
  | still quiet streams hosts => exact .same streams hosts
  | write member evolves streams hosts =>
      exact .put member (evolves.sameRings plain).keeps streams hosts
  | add born => cases born <;> exact plain.elim
  | remove member dies streams hosts =>
      refine .sub ?_ (hosts ▸ List.Subset.refl _)
      rw [streams]
      exact List.filter_sublist.subset
  | addHost call =>
      subst call
      exact plain.elim
  | writeHost call member block named rings streams hosts =>
      exact .putHost member (rings.keeps block) streams hosts
  | removeHost call success named streams hosts =>
      refine .sub (streams ▸ List.Subset.refl _) ?_
      rw [hosts]
      exact List.filter_sublist.subset

/-- What an event does to the rings of the entries. -/
theorem Machine.act_grown (free : NamesFree m e) (memory : RingMemory m e)
    (ran : m.act e = .ok (ret, m')) :
    Grown m.world m'.world m.heap.calls m'.heap.calls := by
  cases e with
  | segment isn seg =>
      obtain ⟨value, rfl, called⟩ := Machine.call_ok ran
      exact (ngTcpProcess_grown free memory).of_ok _ _ called
  | socket type =>
      obtain ⟨value, rfl, called⟩ := Machine.call_ok ran
      exact (nsocket_grown type).of_ok _ _ called
  | bind | listen | accept | send | recvfrom | sendto | close =>
      exact (Machine.act_change ran).grown trivial
  | recv fd len =>
      rcases Machine.act_recv ran with ⟨rfl, rfl⟩ | ⟨value, copied, w, received, rfl, rfl⟩
      · exact .same rfl rfl
      · exact (nrecv_grown m fd len m.heap.calls m.heap.calls).of_ok _ received _ _ _ rfl
  | out addr resolved =>
      rcases Machine.act_out ran with rfl | ⟨s, member, rfl⟩
      · exact .same rfl rfl
      · exact .put member (outStream_rings resolved s).keeps rfl rfl

end Events

section Steps

variable {m m' : Machine} {e : Event} {ret : Option Int} {s : Stream} {entry : Entry}

/-- Entries with two rings each, from the calls so far, and apart from one another. -/
structure Owned (m : Machine) : Prop where
  numbered : Numbered m
  two : ∀ entry ∈ m.world.entries, entry.rings.length = 2 ∧ entry.rings.Nodup
  issued : ∀ entry ∈ m.world.entries, ∀ block ∈ entry.rings, block ≤ m.heap.calls
  apart : ∀ entry ∈ m.world.entries, ∀ other ∈ m.world.entries, entry.key ≠ other.key →
    entry.rings.Disjoint other.rings

theorem Owned.buffered (owned : Owned m) (member : s ∈ m.world.tcbSet) : s.Buffered :=
  buffered_of_two (owned.two _ (stream_mem_entries member)).1

theorem Numbered.nodup_keys (numbered : Numbered m) : (m.world.entries.map Entry.key).Nodup := by
  have isKind : Entry.key = fun entry => (entry.label.stream, entry.label.addr) := by
    funext entry
    cases entry <;> rfl
  rw [isKind]
  exact numbered.nodup_kinds

theorem Owned.ownBuffers (owned : Owned m) : m.world.OwnBuffers := by
  refine ⟨fun s member => owned.buffered member, ?_⟩
  rw [List.nodup_flatMap]
  refine ⟨fun entry member => (owned.two entry member).2, ?_⟩
  have keys : m.world.entries.Pairwise fun entry other => entry.key ≠ other.key :=
    List.pairwise_map.mp owned.numbered.nodup_keys
  apply keys.imp_of_mem
  intro entry other member member' differs
  exact owned.apart entry member other member' differs

theorem Owned.empty (A : Allocator) : Owned ⟨World.empty, A⟩ := by
  have nobody : World.empty.entries = [] := rfl
  refine ⟨.empty A, ?_, ?_, ?_⟩ <;>
  · intro entry member
    rw [nobody] at member
    exact absurd member List.not_mem_nil

/-- No event takes a ring from an entry or gives one to two. -/
theorem Owned.act (owned : Owned m) (free : NamesFree m e) (memory : RingMemory m e)
    (ran : m.act e = .ok (ret, m')) : Owned m' := by
  obtain ⟨key, grown⟩ := Machine.act_grown free memory ran
  have later := (Machine.act_later ran).calls
  have outside {old new : Entry} (member : old ∈ m.world.entries)
      (made : new.Made m.heap.calls m'.heap.calls) : old.rings.Disjoint new.rings := by
    intro block at_old at_new
    have before := owned.issued old member block at_old
    have after := (made.after block at_new).1
    omega
  refine ⟨owned.numbered.act ran, fun entry member => ?_, fun entry member => ?_,
    fun entry member other member' differs => ?_⟩
  · rcases grown entry member with ⟨old, at_old, keeps⟩ | ⟨-, made⟩
    · exact keeps.2 ▸ owned.two old at_old
    · exact ⟨made.two, made.nodup⟩
  · intro block at_block
    rcases grown entry member with ⟨old, at_old, keeps⟩ | ⟨-, made⟩
    · rw [← keeps.2] at at_block
      exact (owned.issued old at_old block at_block).trans later
    · exact (made.after block at_block).2
  · rcases grown entry member with ⟨old, at_old, keeps⟩ | ⟨named, made⟩
    · rcases grown other member' with ⟨old', at_old', keeps'⟩ | ⟨named', made'⟩
      · rw [← keeps.1, ← keeps'.1] at differs
        rw [← keeps.2, ← keeps'.2]
        exact owned.apart old at_old old' at_old' differs
      · rw [← keeps.2]
        exact outside at_old made'
    · rcases grown other member' with ⟨old', at_old', keeps'⟩ | ⟨named', made'⟩
      · rw [← keeps'.2]
        exact fun block at_new at_old => outside at_old' made at_old at_new
      · exact absurd (named.trans named'.symm) differs

end Steps

section Faults

variable {w : World} {s : Stream} {seg : Segment} {A : Allocator} {isn : UInt32}
  {m : Machine} {e : Event}

theorem enqueue_finds {α : Type} {ring : Option (Ring α)} {r : Ring α} (some_ : ring = some r)
    (entry : α) : enqueue ring entry ≠ .error .nullDeref := by
  rw [some_]
  exact fun failed => nomatch failed

theorem payload_finds (seg : Segment) (n : Nat) : payload seg n ≠ .error .nullDeref := by
  unfold payload
  intro failed
  split at failed <;> cases failed

theorem ngTcpEnqueueRecvbuffer_finds {r : Ring Fragment} (ring : s.rcvbuf = some r) (len : Int) :
    Avoids .nullDeref (ngTcpEnqueueRecvbuffer s seg len) A := by
  unfold ngTcpEnqueueRecvbuffer
  refine .malloc (fun _ => .pure _) fun _ => .ite (fun _ => ?_) fun _ => ?_
  · exact .malloc (fun _ => .pure _) fun _ => .after (payload_finds _ _) fun _ _ =>
      .after (enqueue_finds ring _) fun _ _ => .pure _
  · exact .after (enqueue_finds ring _) fun _ _ => .pure _

theorem ngTcpSendAckpkt_finds {q : Ring Fragment} (ring : s.sndbuf = some q) :
    Avoids .nullDeref (ngTcpSendAckpkt s seg) A := by
  unfold ngTcpSendAckpkt
  exact .malloc (fun _ => .pure _) fun _ => .after (enqueue_finds ring _) fun _ _ => .pure _

theorem Stream.SameRings.buffered {s t : Stream} (same : s.SameRings t) (buffered : s.Buffered) :
    t.Buffered := by
  obtain ⟨⟨r, receiving⟩, q, sending⟩ := buffered
  obtain ⟨-, same_r, same_q⟩ := same
  rw [receiving] at same_r
  rw [sending] at same_q
  obtain ⟨r', receiving', -⟩ := Option.map_eq_some_iff.mp same_r
  obtain ⟨q', sending', -⟩ := Option.map_eq_some_iff.mp same_q
  exact ⟨⟨r', receiving'⟩, q', sending'⟩

theorem receivePush_finds (buffered : s.Buffered) (len : Int) :
    Avoids .nullDeref (receivePush s seg len) A := by
  obtain ⟨⟨r, receiving⟩, q, sending⟩ := buffered
  unfold receivePush
  refine .bind (ngTcpEnqueueRecvbuffer_finds receiving len) fun done B ran => ?_
  obtain ⟨rcvbuf, same⟩ := (ngTcpEnqueueRecvbuffer_returns s len).of_ok ran
  refine .bind (ngTcpSendAckpkt_finds (q := q) ?_) fun _ _ _ => .pure _
  rw [same]
  exact sending

theorem receiveFin_finds (buffered : s.Buffered) : Avoids .nullDeref (receiveFin s seg) A := by
  obtain ⟨⟨r, receiving⟩, q, sending⟩ := buffered
  unfold receiveFin
  refine .bind (ngTcpEnqueueRecvbuffer_finds (s := { s with status := .closeWait }) receiving _)
    fun done B ran => ?_
  obtain ⟨rcvbuf, same⟩ := (ngTcpEnqueueRecvbuffer_returns _ _).of_ok ran
  refine .bind (ngTcpSendAckpkt_finds (q := q) ?_) fun _ _ _ => .pure _
  rw [same]
  exact sending

theorem ngTcpHandleEstablished_finds (buffered : s.Buffered) (len : Int) :
    Avoids .nullDeref (ngTcpHandleEstablished s seg len) A := by
  unfold ngTcpHandleEstablished
  refine .bind (.ite (fun _ => receivePush_finds buffered len) fun _ => .pure s) fun t B ran => ?_
  have same := (ReturnsM.ite (c := seg.has tcpPshFlag = true) (receivePush_rings s len)
    (.pure (.refl s))).of_ok ran
  have kept := same.buffered buffered
  exact .bind (.ite (fun _ => receiveFin_finds kept) fun _ => .pure t) fun _ _ _ => .pure _

theorem ngTcpHandleSynRcvd_finds (s : Stream) :
    ngTcpHandleSynRcvd w s seg ≠ .error .nullDeref := by
  unfold ngTcpHandleSynRcvd
  intro failed
  split at failed
  · split at failed
    · simp only at failed
      split at failed <;> cases failed
    · cases failed
  · cases failed

theorem ringCreate_finds (α : Type) (name : RingName) :
    Avoids .nullDeref (ringCreate α w name) A :=
  .ite (fun _ => .pure _) fun _ => .malloc (fun _ => .pure _) fun _ => .pure _

theorem ngTcpStreamCreate_finds (sip dip : UInt32) (sport dport : UInt16) :
    Avoids .nullDeref (ngTcpStreamCreate isn w sip dip sport dport) A := by
  unfold ngTcpStreamCreate
  refine .malloc (fun _ => .pure _) fun _ => .bind (.of_ok rfl) fun _ _ _ => ?_
  exact .bind (ringCreate_finds Fragment .sndbuf) fun _ _ _ =>
    .bind (ringCreate_finds Fragment .rcvbuf) fun _ _ _ => .pure _

/-- With memory for the stream there is a stream. -/
theorem ngTcpStreamCreate_some (sip dip : UInt32) (sport dport : UInt16)
    (granted : A.grants A.calls = true) :
    Leaves (ngTcpStreamCreate isn w sip dip sport dport) A fun done _ => done.1 ≠ none := by
  unfold ngTcpStreamCreate
  refine .malloc (fun refused => ?_) fun _ => ?_
  · rw [granted] at refused
    cases refused
  · apply (Leaves.of_returns (.any _)).bind
    intro words B _
    apply (Leaves.of_returns (.any _)).bind
    intro sndbuf C _
    apply (Leaves.of_returns (.any _)).bind
    intro rcvbuf D _
    exact .pure (Option.some_ne_none _)

theorem ngTcpHandleListen_finds
    (granted : seg.has tcpSynFlag = true → s.status = .listen → A.grants A.calls = true)
    (free : seg.has tcpSynFlag = true → s.status = .listen → A.grants A.calls = true →
      RingName.sndbuf ∉ w.rings ∧ RingName.rcvbuf ∉ w.rings)
    (memory : seg.has tcpSynFlag = true → s.status = .listen →
      A.grants (A.calls + 1) = true ∧ A.grants (A.calls + 2) = true) :
    Avoids .nullDeref (ngTcpHandleListen isn w s seg) A := by
  unfold ngTcpHandleListen
  refine .ite (fun syn => .ite (fun listens => ?_) fun _ => .pure _) fun _ => .pure _
  refine .bind (ngTcpStreamCreate_finds _ _ _ _) fun done B ran => ?_
  have some_ := (ngTcpStreamCreate_some _ _ _ _ (granted syn listens)).of_ok _ _ ran
  have rings := (ngTcpStreamCreate_rings _ _ _ _ (free syn listens)
    (memory syn listens)).of_ok _ _ ran
  obtain ⟨made, w₁⟩ := done
  cases made with
  | none => exact absurd rfl some_
  | some made =>
      obtain ⟨-, q, sending⟩ := buffered_of_two (rings.2.2 made rfl).two
      exact .malloc (fun _ => .pure _) fun _ => .after (enqueue_finds sending _) fun _ _ => .pure _

/-- `rte_malloc` refuses the stream of a new connection. -/
def StreamRefused (m : Machine) (e : Event) : Prop :=
  Creates m e ∧ m.heap.grants m.heap.calls = false

/-- `rte_malloc` refuses the block for what a short read leaves of a datagram. -/
def RestRefused (m : Machine) : Event → Prop
  | .recvfrom fd len _ => m.heap.grants m.heap.calls = false ∧ ∃ host ol,
      getHostinfoFromfd m.world fd = some (.host host) ∧ host.rcvbuf.entries.head? = some ol ∧
        len < ol.length.toNat
  | _ => False

theorem ngTcpProcess_finds (owned : Owned m) (free : NamesFree m (.segment isn seg))
    (memory : RingMemory m (.segment isn seg)) (given : ¬ StreamRefused m (.segment isn seg)) :
    Avoids .nullDeref (ngTcpProcess isn m.world seg) m.heap := by
  unfold ngTcpProcess
  refine .ite (fun _ => .pure _) fun correct => ?_
  split
  · exact .pure _
  · rename_i stream found
    have receives : Receives m.world seg stream := ⟨by simpa using correct, found⟩
    have buffered := owned.buffered (mem_of_search found)
    split
    · have creates (syn : seg.has tcpSynFlag = true) (listens : stream.status = .listen) :
          Creates m (.segment isn seg) := ⟨syn, stream, receives, listens⟩
      refine .bind (ngTcpHandleListen_finds (fun syn listens => ?_)
        (fun syn listens => free (creates syn listens))
        fun syn listens => memory (creates syn listens)) fun _ _ _ => .pure _
      rw [← Bool.not_eq_false]
      intro refused
      exact given ⟨creates syn listens, refused⟩
    · exact .after (ngTcpHandleSynRcvd_finds _) fun _ _ => .pure _
    · exact .bind (ngTcpHandleEstablished_finds buffered _) fun _ _ _ => .pure _
    · refine .bind (.ite (fun _ => .ite (fun _ => ?_) fun _ => .pure _) fun _ => .pure _)
        fun _ _ _ => .pure _
      exact .bind (.of_ok rfl) fun _ _ _ => .pure _
    · exact .pure _

theorem nsocket_finds (type : SockType) : Avoids .nullDeref (nsocket w type) A := by
  unfold nsocket
  cases type with
  | other => exact .pure _
  | dgram | stream =>
      refine .malloc (fun _ => .pure _) fun _ => .bind (ringCreate_finds _ _) ?_
      rintro ⟨_ | rcvbuf, w₁⟩ B -
      · exact .bind (.of_ok rfl) fun _ _ _ => .pure _
      refine .bind (ringCreate_finds _ _) ?_
      rintro ⟨_ | sndbuf, w₂⟩ C -
      · exact .bind (.of_ok rfl) fun _ _ _ => .pure _
      · exact .pure _

theorem nsend_finds (buffered : ∀ s ∈ w.tcbSet, s.Buffered) (fd : Int) (buf : List UInt8) :
    Avoids .nullDeref (nsend w fd buf) A := by
  unfold nsend
  split
  · exact .pure _
  · exact .pure _
  · rename_i stream named
    obtain ⟨-, q, sending⟩ := buffered stream (mem_of_hostinfo named)
    refine .bind ?_ fun _ _ _ => .pure _
    unfold sendStream
    exact .malloc (fun _ => .pure _) fun _ => .malloc (fun _ => .pure _) fun _ =>
      .after (enqueue_finds sending _) fun _ _ => .pure _

theorem loadAt_finds (block : List UInt8) (i n : Nat) :
    loadAt block i n ≠ .error .nullDeref := by
  unfold loadAt
  intro failed
  split at failed <;> cases failed

theorem recvOffload_finds {behind : Offload → List UInt8} {ol : Offload} {len : Nat}
    (given : len < ol.length.toNat → A.grants A.calls = true) :
    Avoids .nullDeref (recvOffload behind ol len) A := by
  unfold recvOffload
  refine .ite (fun short => ?_) fun _ => ?_
  · have some_ : ol.length.toNat - len ≠ 0 := by omega
    rw [rteMalloc_some some_]
    refine .after (loadAt_finds _ _ _) fun copied _ => .malloc (fun refused => ?_) fun _ => ?_
    · cases refused.symm.trans (given short)
    · exact .after (loadAt_finds _ _ _) fun _ _ => .pure _
  · exact .after (loadAt_finds _ _ _) fun _ _ => .throw nofun

theorem nrecvfrom_finds {fd : Int} {len : Nat} {behind : List UInt8}
    (given : ¬ RestRefused m (.recvfrom fd len behind)) :
    Avoids .nullDeref (nrecvfrom (fun _ => behind) m.world fd len) m.heap := by
  unfold nrecvfrom
  split
  · exact .pure _
  · exact .throw nofun
  · rename_i host named
    split
    · exact .pure _
    · rename_i ol waiting queued
      refine .bind (recvOffload_finds fun short => ?_) fun _ _ _ => .pure _
      rw [← Bool.not_eq_false]
      exact fun refused => given ⟨refused, host, ol, named, by rw [queued]; rfl, short⟩

theorem nsendto_finds (w : World) (fd : Int) (buf : List UInt8) (sinAddr : UInt32)
    (sinPort : UInt16) : Avoids .nullDeref (nsendto w fd buf sinAddr sinPort) A := by
  unfold nsendto
  split
  · exact .pure _
  · exact .throw nofun
  · refine .malloc (fun _ => .pure _) fun _ => .bind ?_ ?_
    · exact .ite (fun _ => .pure _) fun _ failed => nomatch failed
    · rintro (_ | block) B - <;> exact .pure _

theorem setFdFrombitmap_finds (w : World) (fd : Int) :
    setFdFrombitmap w fd ≠ .error .nullDeref := by
  unfold setFdFrombitmap
  intro failed
  split at failed
  · cases failed
  · split at failed <;> cases failed

theorem nclose_finds (buffered : ∀ s ∈ w.tcbSet, s.Buffered) (fd : Int) :
    Avoids .nullDeref (nclose w fd) A := by
  unfold nclose
  split
  · exact .pure _
  · exact .bind (.of_ok rfl) fun _ _ _ => .after (setFdFrombitmap_finds _ _) fun _ _ => .pure _
  · rename_i stream named
    obtain ⟨-, q, sending⟩ := buffered stream (mem_of_hostinfo named)
    refine .ite (fun _ => .bind ?_ ?_) fun _ => .bind (.of_ok rfl) fun _ _ _ => .pure _
    · unfold closeStream
      exact .malloc (fun _ => .pure _) fun _ => .bind (.of_ok rfl) fun _ _ _ =>
        .after (enqueue_finds sending _) fun _ _ => .pure _
    · rintro (_ | stream') B -
      · exact .pure _
      · exact .after (setFdFrombitmap_finds _ _) fun _ _ => .pure _

theorem nrecv_finds (buffered : ∀ s ∈ w.tcbSet, s.Buffered) (fd : Int) (len : Nat) :
    nrecv w fd len ≠ .error .nullDeref := by
  unfold nrecv
  intro failed
  split at failed
  · cases failed
  · cases failed
  · rename_i stream named
    obtain ⟨⟨r, receiving⟩, -⟩ := buffered stream (mem_of_hostinfo named)
    unfold recvStream at failed
    rw [receiving] at failed
    simp only at failed
    split at failed
    · cases failed
    · split at failed
      · cases failed
      · split at failed <;> cases failed

theorem Machine.call_finds {code : CM (Int × World)} (finds : Avoids .nullDeref code m.heap) :
    m.call code ≠ .error .nullDeref := by
  unfold Machine.call
  intro failed
  cases run : code m.heap with
  | error fault =>
      rw [run] at failed
      cases failed
      exact finds run
  | ok done =>
      rw [run] at failed
      cases failed

/-- No event uses a NULL ring. -/
theorem Machine.act_finds (owned : Owned m) (free : NamesFree m e) (memory : RingMemory m e)
    (given : ¬ (StreamRefused m e ∨ RestRefused m e)) : m.act e ≠ .error .nullDeref := by
  obtain ⟨stream, rest⟩ := not_or.mp given
  have buffered : ∀ s ∈ m.world.tcbSet, s.Buffered := fun s member => owned.buffered member
  cases e with
  | segment isn seg => exact Machine.call_finds (ngTcpProcess_finds owned free memory stream)
  | socket type => exact Machine.call_finds (nsocket_finds type)
  | bind fd port ip => exact Machine.call_finds (.pure _)
  | listen fd => exact Machine.call_finds (.pure _)
  | accept fd =>
      simp only [Machine.act]
      split
      · intro failed
        cases failed
      · exact Machine.call_finds (.pure _)
  | send fd buf => exact Machine.call_finds (nsend_finds buffered fd buf)
  | recv fd len =>
      intro failed
      simp only [Machine.act] at failed
      cases received : nrecv m.world fd len with
      | error fault =>
          rw [received] at failed
          cases failed
          exact nrecv_finds buffered fd len received
      | ok got =>
          rw [received] at failed
          cases got with
          | none => cases failed
          | some done => cases failed
  | recvfrom fd len behind =>
      simp only [Machine.act]
      refine bind_ne_error (nrecvfrom_finds rest) ?_
      rintro ⟨_ | ⟨value, datagram, w⟩, heap⟩ - <;> exact pure_ne_error _
  | sendto fd buf sinAddr sinPort => exact Machine.call_finds (nsendto_finds _ fd buf _ _)
  | close fd => exact Machine.call_finds (nclose_finds buffered fd)
  | out addr resolved =>
      simp only [Machine.act]
      split <;> intro failed <;> cases failed

end Faults

/-- As long as a new connection finds the names of the rings free, every entry has two
rings of its own, and no NULL ring is used. -/
theorem own_buffers_of_names_free (A : Allocator) (events : List Event)
    (free : Along Machine.step NamesFree ⟨World.empty, A⟩ events)
    (memory : Along Machine.step RingMemory ⟨World.empty, A⟩ events) (m : Machine)
    (ran : runs Machine.step ⟨World.empty, A⟩ events = .ok m) :
    m.world.OwnBuffers ∧ ∀ e, NamesFree m e → RingMemory m e →
      m.act e = .error .nullDeref → StreamRefused m e ∨ RestRefused m e := by
  have owned := (free.and memory).invariant Owned (.empty A) (fun m e m' owned meets stepped => by
    obtain ⟨ret, acted⟩ := Machine.step_ok stepped
    exact owned.act meets.1 meets.2 acted) ran
  refine ⟨owned.ownBuffers, fun e free memory failed => ?_⟩
  by_contra given
  exact Machine.act_finds owned free memory given failed

/-- A listener, a SYN for it, and a UDP host that has sent a datagram. -/
def listenerAndHost : List Event :=
  listening 3 3 4 ++ [.segment 99 (sampleSegment 9 0x02 []), .socket .dgram,
    .sendto 4 [97, 98, 99] 2 9]

theorem own_buffers_of_names_free_three : ∃ m,
    runs Machine.step ⟨World.empty, .plentiful⟩ listenerAndHost = .ok m ∧
    m.world.entries.flatMap Entry.rings = [9, 10, 6, 5, 2, 3] ∧ m.world.OwnBuffers ∧
    ∀ e, NamesFree m e → RingMemory m e →
      m.act e = .error .nullDeref → StreamRefused m e ∨ RestRefused m e := by
  refine ⟨_, rfl, rfl, ?_⟩
  have names : Along Machine.step NamesFree ⟨World.empty, .plentiful⟩ listenerAndHost := by
    refine .cons (fun creates => creates.elim) rfl ?_
    refine .cons (fun creates => creates.elim) rfl ?_
    refine .cons (fun creates => creates.elim) rfl ?_
    refine .cons (fun _ _ => by decide) rfl ?_
    refine .cons (fun creates => creates.elim) rfl ?_
    exact .cons (fun creates => creates.elim) rfl trivial
  have memory : Along Machine.step RingMemory ⟨World.empty, .plentiful⟩ listenerAndHost := by
    refine .cons (fun _ => ⟨rfl, rfl⟩) rfl ?_
    refine .cons (fun _ => ⟨rfl, rfl⟩) rfl ?_
    refine .cons (fun _ => ⟨rfl, rfl⟩) rfl ?_
    refine .cons (fun _ => ⟨rfl, rfl⟩) rfl ?_
    refine .cons (fun _ => ⟨rfl, rfl⟩) rfl ?_
    exact .cons (fun _ => ⟨rfl, rfl⟩) rfl trivial
  exact own_buffers_of_names_free .plentiful _ names memory _ rfl

/-- The SYN+ACK for a second client is put on a ring that could not be made. -/
theorem second_client_null_ring : ∃ m,
    runs Machine.step ⟨World.empty, .plentiful⟩ (listening 3 3 4 ++
      [.segment 99 (sampleSegment 9 0x02 [])]) = .ok m ∧
    RingMemory m (.segment 7 { sampleSegment 9 0x02 [] with srcPort := 5 }) ∧
    m.act (.segment 7 { sampleSegment 9 0x02 [] with srcPort := 5 }) = .error .nullDeref ∧
    ¬ (StreamRefused m (.segment 7 { sampleSegment 9 0x02 [] with srcPort := 5 }) ∨
      RestRefused m (.segment 7 { sampleSegment 9 0x02 [] with srcPort := 5 })) := by
  refine ⟨_, rfl, fun _ => ⟨rfl, rfl⟩, rfl, ?_⟩
  rintro (refused | refused)
  · cases refused.2
  · exact refused

end LinuxCpp.Ustack
