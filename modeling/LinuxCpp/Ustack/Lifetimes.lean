import LinuxCpp.Trace.Along
import LinuxCpp.Ustack.Machine
import Mathlib.Data.List.Nodup

set_option autoImplicit false

/- Blocks name the entries of the two lists, one entry each, in every state that a run
reaches. So the streams after an event are those before it, but for the one that the
event is about. -/
namespace LinuxCpp.Ustack

open C Trace

section Grows

theorem ngTcpHandleListen_grows (isn : UInt32) (w : World) (stream : Stream) (seg : Segment) :
    Grows (ngTcpHandleListen isn w stream seg) := by
  have created (sip dip : UInt32) (sport dport : UInt16) :
      Grows (ngTcpStreamCreate isn w sip dip sport dport) := by
    unfold ngTcpStreamCreate
    refine .bind .malloc ?_
    rintro (_ | block)
    · exact .pure _
    · refine .bind (.junkOf block) fun words => .bind (ringCreate_grows _ _ _) fun made => ?_
      exact .bind (ringCreate_grows _ _ _) fun made' => .pure _
  unfold ngTcpHandleListen
  refine .ite (.ite (.bind (created _ _ _ _) ?_) (.pure _)) (.pure _)
  rintro ⟨_ | syn, w'⟩
  · exact .throw _
  · refine .bind .malloc ?_
    rintro (_ | block)
    · exact .pure _
    · exact .bind (.lift _) fun _ => .pure _

theorem ngTcpHandleEstablished_grows (stream : Stream) (seg : Segment) (tcplen : Int) :
    Grows (ngTcpHandleEstablished stream seg tcplen) := by
  have queued (s : Stream) (len : Int) : Grows (ngTcpEnqueueRecvbuffer s seg len) := by
    unfold ngTcpEnqueueRecvbuffer
    refine .bind .malloc ?_
    rintro (_ | block)
    · exact .pure _
    · refine .ite (.bind .malloc ?_) (.bind (.lift _) fun _ => .pure _)
      rintro (_ | block)
      · exact .pure _
      · exact .bind (.lift _) fun _ => .bind (.lift _) fun _ => .pure _
  have acked (s : Stream) : Grows (ngTcpSendAckpkt s seg) := by
    unfold ngTcpSendAckpkt
    refine .bind .malloc ?_
    rintro (_ | block)
    · exact .pure _
    · exact .bind (.lift _) fun _ => .pure _
  unfold ngTcpHandleEstablished receivePush receiveFin
  refine .bind (.ite ?_ (.pure _)) fun s => .bind (.ite ?_ (.pure _)) fun s => .pure _
  · exact .bind (queued _ _) fun _ => .bind (acked _) fun _ => .pure _
  · exact .bind (queued _ _) fun _ => .bind (acked _) fun _ => .pure _

theorem ngTcpProcess_grows (isn : UInt32) (w : World) (seg : Segment) :
    Grows (ngTcpProcess isn w seg) := by
  unfold ngTcpProcess
  refine .ite (.pure _) ?_
  split
  · exact .pure _
  · split
    · exact .bind (ngTcpHandleListen_grows _ _ _ _) fun _ => .pure _
    · exact .bind (.lift _) fun _ => .pure _
    · exact .bind (ngTcpHandleEstablished_grows _ _ _) fun _ => .pure _
    · unfold ngTcpHandleLastAck
      refine .bind (.ite (.ite ?_ (.pure _)) (.pure _)) fun _ => .pure _
      exact .bind (.freeBlock _) fun _ => .pure _
    · exact .pure _

theorem nsocket_grows (w : World) (type : SockType) : Grows (nsocket w type) := by
  unfold nsocket
  cases type with
  | other => exact .pure _
  | dgram | stream =>
      refine .bind .malloc ?_
      rintro (_ | block)
      · exact .pure _
      refine .bind (ringCreate_grows _ _ _) ?_
      rintro ⟨_ | rcvbuf, w₁⟩
      · exact .bind (.freeBlock _) fun _ => .pure _
      refine .bind (ringCreate_grows _ _ _) ?_
      rintro ⟨_ | sndbuf, w₂⟩
      · exact .bind (.freeBlock _) fun _ => .pure _
      · exact .pure _

theorem nsend_grows (w : World) (fd : Int) (buf : List UInt8) : Grows (nsend w fd buf) := by
  unfold nsend sendStream
  split
  · exact .pure _
  · exact .pure _
  · refine .bind (.bind .malloc ?_) fun _ => .pure _
    rintro (_ | block)
    · exact .pure _
    refine .bind .malloc ?_
    rintro (_ | block)
    · exact .pure _
    · exact .bind (.lift _) fun _ => .pure _

theorem nclose_grows (w : World) (fd : Int) : Grows (nclose w fd) := by
  unfold nclose closeStream
  split
  · exact .pure _
  · exact .bind (.freeBlock _) fun _ => .bind (.lift _) fun _ => .pure _
  · refine .ite (.bind (.bind .malloc ?_) ?_) (.bind (.freeBlock _) fun _ => .pure _)
    · rintro (_ | block)
      · exact .pure _
      · exact .bind (.junkOf _) fun _ => .bind (.lift _) fun _ => .pure _
    · rintro (_ | stream)
      · exact .pure _
      · exact .bind (.lift _) fun _ => .pure _

theorem rteMalloc_grows (size : Nat) : Grows (rteMalloc size) := .ite (.pure _) .malloc

theorem recvOffload_grows (behind : Offload → List UInt8) (ol : Offload) (len : Nat) :
    Grows (recvOffload behind ol len) := by
  unfold recvOffload
  refine .ite (.bind (.lift _) fun _ => .bind (rteMalloc_grows _) ?_)
    (.bind (.lift _) fun _ => .throw _)
  rintro (_ | block)
  · exact .throw _
  · exact .bind (.lift _) fun _ => .pure _

theorem nrecvfrom_grows (behind : Offload → List UInt8) (w : World) (fd : Int) (len : Nat) :
    Grows (nrecvfrom behind w fd len) := by
  unfold nrecvfrom
  split
  · exact .pure _
  · exact .throw _
  · split
    · exact .pure _
    · exact .bind (recvOffload_grows _ _ _) fun _ => .pure _

theorem nsendto_grows (w : World) (fd : Int) (buf : List UInt8) (sinAddr : UInt32)
    (sinPort : UInt16) : Grows (nsendto w fd buf sinAddr sinPort) := by
  unfold nsendto
  split
  · exact .pure _
  · exact .throw _
  · refine .bind .malloc ?_
    rintro (_ | block)
    · exact .pure _
    · refine .bind (rteMalloc_grows _) ?_
      rintro (_ | block') <;> exact .pure _

theorem Machine.act_later {m m' : Machine} {e : Event} {ret : Option Int}
    (ran : m.act e = .ok (ret, m')) : m.heap.Later m'.heap := by
  have called {code : CM (Int × World)} (grows : Grows code)
      (ran : m.call code = .ok (ret, m')) : m.heap.Later m'.heap := by
    obtain ⟨value, -, ran⟩ := Machine.call_ok ran
    exact grows.later _ _ _ ran
  cases e with
  | segment isn seg => exact called (ngTcpProcess_grows isn m.world seg) ran
  | socket type => exact called (nsocket_grows m.world type) ran
  | bind fd port ip => exact called (.pure _) ran
  | listen fd => exact called (.pure _) ran
  | accept fd =>
      rcases Machine.act_accept ran with ⟨rfl, rfl⟩ | ⟨value, peer, w, accepted, rfl, rfl⟩ <;>
      exact .refl _
  | send fd buf => exact called (nsend_grows m.world fd buf) ran
  | recv fd len =>
      rcases Machine.act_recv ran with ⟨rfl, rfl⟩ | ⟨value, copied, w, received, rfl, rfl⟩ <;>
      exact .refl _
  | recvfrom fd len behind =>
      rcases Machine.act_recvfrom ran with ⟨rfl, rfl⟩ | ⟨value, datagram, received, rfl⟩
      · exact .refl _
      · exact (nrecvfrom_grows _ _ _ _).later _ _ _ received
  | sendto fd buf sinAddr sinPort => exact called (nsendto_grows m.world fd buf _ _) ran
  | close fd => exact called (nclose_grows m.world fd) ran
  | out addr resolved =>
      rcases Machine.act_out ran with rfl | ⟨s, member, rfl⟩ <;>
      exact .refl _

end Grows

section Writing

variable {w : World} {s s' t : Stream}

theorem mem_put (member : t ∈ (w.put s').tcbSet) :
    t = s' ∨ (t ∈ w.tcbSet ∧ t.addr ≠ s'.addr) := by
  obtain ⟨u, at_u, rfl⟩ := List.mem_map.mp member
  split
  · exact .inl rfl
  · exact .inr ⟨at_u, ‹_›⟩

theorem put_mem (member : s ∈ w.tcbSet) (block : s'.addr = s.addr) : s' ∈ (w.put s').tcbSet :=
  List.mem_map.mpr ⟨s, member, if_pos block.symm⟩

theorem put_mem_other (member : t ∈ w.tcbSet) (other : t.addr ≠ s'.addr) :
    t ∈ (w.put s').tcbSet :=
  List.mem_map.mpr ⟨t, member, if_neg other⟩

/-- Writing the entries of one block leaves the blocks as they are. -/
theorem map_write {α : Type} (block : α → Nat) (entries : List α) (new : α) :
    (entries.map fun old => if block old = block new then new else old).map block =
      entries.map block := by
  rw [List.map_map]
  refine List.map_congr_left fun old _ => ?_
  rw [Function.comp_apply]
  split
  · exact Eq.symm ‹_›
  · rfl

theorem Evolves.addr {m : Machine} {e : Event} {ret : Option Int} (evolves : Evolves m e ret s s') :
    s'.addr = s.addr := by
  cases evolves <;> rfl

theorem Born.block {m : Machine} {e : Event} {ret : Option Int} (born : Born m e ret s) :
    s.addr = m.heap.calls + 1 := by
  cases born <;> assumption

end Writing

/-- Different blocks, all of them from the calls so far. -/
structure Issued (blocks : List Nat) (calls : Nat) : Prop where
  nodup : blocks.Nodup
  bound : ∀ block ∈ blocks, block ≤ calls

theorem Issued.sublist {blocks blocks' : List Nat} {calls calls' : Nat}
    (issued : Issued blocks calls) (sub : blocks'.Sublist blocks) (later : calls ≤ calls') :
    Issued blocks' calls' :=
  ⟨issued.nodup.sublist sub, fun block member =>
    (issued.bound block (sub.subset member)).trans later⟩

theorem Issued.cons {blocks : List Nat} {calls calls' : Nat} (issued : Issued blocks calls)
    (later : calls < calls') : Issued ((calls + 1) :: blocks) calls' := by
  refine ⟨List.nodup_cons.mpr ⟨fun member => ?_, issued.nodup⟩, fun block member => ?_⟩
  · have old := issued.bound _ member
    omega
  · rcases List.mem_cons.mp member with rfl | old
    · exact later
    · exact (issued.bound block old).trans (Nat.le_of_lt later)

/-- Each block names one stream, or one host. -/
structure Numbered (m : Machine) : Prop where
  streams : Issued (m.world.tcbSet.map Stream.addr) m.heap.calls
  hosts : Issued (m.world.lhost.map Host.addr) m.heap.calls

section Numbering

variable {m m' : Machine} {e : Event} {ret : Option Int} {s t : Stream}

theorem Numbered.unique (numbered : Numbered m) (at_s : s ∈ m.world.tcbSet)
    (at_t : t ∈ m.world.tcbSet) (same : t.addr = s.addr) : t = s :=
  List.inj_on_of_nodup_map numbered.streams.nodup at_t at_s same

theorem Numbered.issued (numbered : Numbered m) (member : s ∈ m.world.tcbSet) :
    s.addr ≤ m.heap.calls :=
  numbered.streams.bound _ (List.mem_map_of_mem member)

/-- A stream after the event: an old one, a changed one, or a new one. -/
theorem Change.after (change : Change m e ret m') (member : t ∈ m'.world.tcbSet) :
    t ∈ m.world.tcbSet ∨ (∃ s ∈ m.world.tcbSet, Evolves m e ret s t) ∨ Born m e ret t := by
  cases change with
  | still quiet streams hosts => exact .inl (streams ▸ member)
  | write at_s evolves streams hosts =>
      rw [streams] at member
      rcases mem_put member with rfl | ⟨old, -⟩
      · exact .inr (.inl ⟨_, at_s, evolves⟩)
      · exact .inl old
  | add born granted streams hosts =>
      rw [streams] at member
      rcases List.mem_cons.mp member with rfl | old
      · exact .inr (.inr born)
      · exact .inl old
  | remove at_s dies streams hosts =>
      rw [streams] at member
      exact .inl (List.mem_filter.mp member).1
  | addHost call block granted named handed streams hosts => exact .inl (streams ▸ member)
  | writeHost call at_h block named rings streams hosts => exact .inl (streams ▸ member)
  | removeHost call success named streams hosts => exact .inl (streams ▸ member)

/-- A stream before the event stays as it is, changes, or goes with its block. -/
theorem Change.before (change : Change m e ret m') (numbered : Numbered m)
    (member : s ∈ m.world.tcbSet) :
    s ∈ m'.world.tcbSet ∨ (∃ t ∈ m'.world.tcbSet, Evolves m e ret s t) ∨
      (Dies m.world e ret s ∧ ∀ t ∈ m'.world.tcbSet, t.addr ≠ s.addr) := by
  cases change with
  | still quiet streams hosts => exact .inl (streams ▸ member)
  | write at_s evolves streams hosts =>
      rename_i u u'
      rw [streams]
      by_cases same : s.addr = u.addr
      · cases numbered.unique at_s member same
        exact .inr (.inl ⟨_, put_mem member evolves.addr, evolves⟩)
      · exact .inl (put_mem_other member (evolves.addr ▸ same))
  | add born granted streams hosts => exact .inl (streams ▸ List.mem_cons_of_mem _ member)
  | remove at_s dies streams hosts =>
      rename_i u
      by_cases same : s.addr = u.addr
      · cases numbered.unique at_s member same
        refine .inr (.inr ⟨dies, fun t at_t => ?_⟩)
        rw [streams] at at_t
        simpa using (List.mem_filter.mp at_t).2
      · exact .inl (streams ▸ List.mem_filter.mpr ⟨member, by simpa using same⟩)
  | addHost call block granted named handed streams hosts => exact .inl (streams ▸ member)
  | writeHost call at_h block named rings streams hosts => exact .inl (streams ▸ member)
  | removeHost call success named streams hosts => exact .inl (streams ▸ member)

theorem Numbered.change (numbered : Numbered m) (change : Change m e ret m')
    (later : m.heap.Later m'.heap) : Numbered m' := by
  have streams {tcbs : List Stream} (same : tcbs = m.world.tcbSet) :
      Issued (tcbs.map Stream.addr) m'.heap.calls :=
    numbered.streams.sublist (same ▸ .refl _) later.calls
  have hosts {entries : List Host} (same : entries = m.world.lhost) :
      Issued (entries.map Host.addr) m'.heap.calls :=
    numbered.hosts.sublist (same ▸ .refl _) later.calls
  cases change with
  | still quiet same sameHosts => exact ⟨streams same, hosts sameHosts⟩
  | write at_s evolves written sameHosts =>
      refine ⟨?_, hosts sameHosts⟩
      rw [written, World.put, map_write]
      exact streams rfl
  | add born granted front sameHosts =>
      refine ⟨?_, hosts sameHosts⟩
      rw [front, List.map_cons, born.block]
      exact numbered.streams.cons granted
  | remove at_s dies rest sameHosts =>
      refine ⟨?_, hosts sameHosts⟩
      rw [rest]
      exact numbered.streams.sublist (List.filter_sublist.map _) later.calls
  | addHost call block granted named handed same front =>
      refine ⟨streams same, ?_⟩
      rw [front, List.map_cons, block]
      exact numbered.hosts.cons granted
  | writeHost call at_h block named rings same written =>
      refine ⟨streams same, ?_⟩
      rw [written, World.putHost, map_write]
      exact hosts rfl
  | removeHost call success named same rest =>
      refine ⟨streams same, ?_⟩
      rw [rest]
      exact numbered.hosts.sublist (List.filter_sublist.map _) later.calls

theorem Numbered.act (numbered : Numbered m) (ran : m.act e = .ok (ret, m')) : Numbered m' :=
  numbered.change (Machine.act_change ran) (Machine.act_later ran)

theorem Numbered.empty (A : Allocator) : Numbered ⟨World.empty, A⟩ :=
  ⟨⟨List.nodup_nil, fun _ member => nomatch member⟩,
    ⟨List.nodup_nil, fun _ member => nomatch member⟩⟩

end Numbering

section Records

variable {γ : Type}

/-- A machine beside a record of what it did. -/
def Machine.recorded (note : Machine → Event → Option Int → Machine → γ → γ) (d : Machine × γ)
    (e : Event) : Except Fault (Machine × γ) :=
  (d.1.act e).map fun done => (done.2, note d.1 e done.1 done.2 d.2)

theorem Machine.recorded_ok {note : Machine → Event → Option Int → Machine → γ → γ}
    {d d' : Machine × γ} {e : Event} (ran : Machine.recorded note d e = .ok d') :
    ∃ ret, d.1.act e = .ok (ret, d'.1) ∧ d'.2 = note d.1 e ret d'.1 d.2 := by
  obtain ⟨done, acted, rfl⟩ := ok_of_map ran
  exact ⟨done.1, acted, rfl⟩

end Records

end LinuxCpp.Ustack
