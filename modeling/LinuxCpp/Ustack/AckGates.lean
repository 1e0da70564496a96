import LinuxCpp.Ustack.Lifetimes
import LinuxCpp.Ustack.Receive

set_option autoImplicit false

/- The two statuses that wait for an acknowledgement. The handlers of both look at the
ACK flag and not at the number; in a run whose acknowledgements carry the right number
the gates hold nevertheless. -/
namespace LinuxCpp.Ustack

open C Trace

/-- The sequence numbers of the SYN and of the FIN of each stream, by its block. -/
structure Numbers where
  syn : Nat → UInt32
  fin : Nat → UInt32

/-- A SYN gives the next block the initial number; the FIN of `nclose` has the number
`snd_nxt`. -/
def Numbers.note (m : Machine) (e : Event) (_ : Option Int) (_ : Machine) (n : Numbers) :
    Numbers :=
  match e with
  | .segment isn _ => { n with syn := Function.update n.syn (m.heap.calls + 1) isn }
  | .close fd =>
      match getHostinfoFromfd m.world fd with
      | some (.stream s) => { n with fin := Function.update n.fin s.addr s.sndNxt }
      | _ => n
  | _ => n

/-- An acknowledgement for a stream that waits for one has the number that follows
`snd_nxt`, and no socket in LAST_ACK is bound or listened on. -/
def Acknowledges (d : Machine × Numbers) : Event → Prop
  | .segment _ seg => ∀ s, Receives d.1.world seg s → seg.has tcpAckFlag = true →
      s.status = .synRcvd ∨ s.status = .lastAck → seg.recvAck = s.sndNxt + 1
  | .bind fd _ _ => ∀ s, getHostinfoFromfd d.1.world fd = some (.stream s) → s.status ≠ .lastAck
  | .listen fd => ∀ s, getHostinfoFromfd d.1.world fd = some (.stream s) → s.status ≠ .lastAck
  | _ => True

/-- The event is a segment that acknowledges this number. -/
def Event.Acks (e : Event) (number : UInt32) : Prop :=
  ∃ isn seg, e = .segment isn seg ∧ seg.recvAck = number + 1

/-- The stream is in the list, with this status. -/
def World.HasStatus (w : World) (addr : Nat) (status : Status) : Prop :=
  ∃ s ∈ w.tcbSet, s.addr = addr ∧ s.status = status

/-- SYN_RCVD is left for ESTABLISHED, and LAST_ACK at all, on the acknowledgement of
the SYN or FIN only; any other segment leaves the status. -/
structure Gated (d : Machine × Numbers) (e : Event) (d' : Machine × Numbers) : Prop where
  opens : ∀ s ∈ d.1.world.tcbSet, s.status = .synRcvd →
    d'.1.world.HasStatus s.addr .established → e.Acks (d.2.syn s.addr)
  frees : ∀ s ∈ d.1.world.tcbSet, s.status = .lastAck →
    d'.1.world.HasStatus s.addr .lastAck ∨ e.Acks (d.2.fin s.addr)
  stays : ∀ isn seg, e = .segment isn seg → ∀ s ∈ d.1.world.tcbSet,
    s.status = .synRcvd → d'.1.world.HasStatus s.addr .synRcvd ∨ e.Acks (d.2.syn s.addr)

/-- The numbers of the record are the ones that the waiting streams hold. -/
structure Waits (d : Machine × Numbers) : Prop where
  numbered : Numbered d.1
  syn : ∀ s ∈ d.1.world.tcbSet, s.status = .synRcvd → s.sndNxt = d.2.syn s.addr
  fin : ∀ s ∈ d.1.world.tcbSet, s.status = .lastAck → s.sndNxt = d.2.fin s.addr

section Steps

variable {d d' : Machine × Numbers} {e : Event} {m m' : Machine} {ret : Option Int} {n : Numbers}
  {s t : Stream}

theorem note_syn {addr : Nat} (old : addr ≤ m.heap.calls) :
    (n.note m e ret m').syn addr = n.syn addr := by
  unfold Numbers.note
  split
  · exact Function.update_of_ne (by omega) _ _
  · split <;> rfl
  · rfl

theorem note_fin (numbered : Numbered m) (member : s ∈ m.world.tcbSet) :
    (n.note m e ret m').fin s.addr = n.fin s.addr ∨
      (n.note m e ret m').fin s.addr = s.sndNxt := by
  unfold Numbers.note
  split
  · exact .inl rfl
  · split
    · rename_i u named
      by_cases same : s.addr = u.addr
      · cases numbered.unique member (mem_of_hostinfo named) same.symm
        exact .inr (Function.update_self _ _ _)
      · exact .inl (Function.update_of_ne same _ _)
    · exact .inl rfl
  · exact .inl rfl

theorem Evolves.of_synRcvd (evolves : Evolves m e ret s t)
    (status : t.status = .synRcvd) : s.status = .synRcvd ∧ t.sndNxt = s.sndNxt := by
  cases evolves with
  | heard receives open_ =>
      dsimp only at status
      split at status
      · cases status
      · rw [open_] at status
        cases status
  | established | bound | listens | closes => cases status
  | accepted | sends | refused | reads | out => exact ⟨status, rfl⟩

/-- A stream comes to LAST_ACK by `nclose` alone. -/
theorem Evolves.of_lastAck (evolves : Evolves m e ret s t)
    (status : t.status = .lastAck) : t.sndNxt = s.sndNxt ∧
      (s.status = .lastAck ∨
        ∃ fd, e = .close fd ∧ getHostinfoFromfd m.world fd = some (.stream s)) := by
  cases evolves with
  | heard receives open_ =>
      dsimp only at status
      split at status
      · cases status
      · rw [open_] at status
        cases status
  | established | bound | listens => cases status
  | closes named => exact ⟨rfl, .inr ⟨_, rfl, named⟩⟩
  | accepted | sends | refused | reads | out => exact ⟨rfl, .inl status⟩

theorem Born.ne_lastAck (born : Born m e ret s) : s.status ≠ .lastAck := by
  intro waiting
  cases born with
  | syn receives listener block fd number status => cases status.symm.trans waiting
  | half receives listener block fd number status => cases status.symm.trans waiting
  | socket block named number status => cases status.symm.trans waiting

theorem Waits.step (waits : Waits d) (ran : Machine.recorded Numbers.note d e = .ok d') :
    Waits d' := by
  obtain ⟨ret, acted, record⟩ := Machine.recorded_ok ran
  have change := Machine.act_change acted
  have numbered := waits.numbered
  refine ⟨numbered.act acted, fun t member status => ?_, fun t member status => ?_⟩
  · rw [record]
    rcases change.after member with old | ⟨s, old, evolves⟩ | born
    · rw [note_syn (numbered.issued old)]
      exact waits.syn t old status
    · obtain ⟨waiting, same⟩ := evolves.of_synRcvd status
      rw [same, evolves.addr, note_syn (numbered.issued old)]
      exact waits.syn s old waiting
    · cases born with
      | syn receives listener block fd number =>
          rw [block, number]
          simp only [Numbers.note, Function.update_self]
      | half receives listener block fd number listens => cases listens.symm.trans status
      | socket block named number closed => cases closed.symm.trans status
  · rw [record]
    -- the record still has the old number, or has it from the stream itself
    have kept {s : Stream} (old : s ∈ d.1.world.tcbSet) (waiting : s.status = .lastAck) :
        s.sndNxt = (d.2.note d.1 e ret d'.1).fin s.addr := by
      rcases note_fin (e := e) (n := d.2) numbered old with same | same
      · rw [same]
        exact waits.fin s old waiting
      · exact same.symm
    rcases change.after member with old | ⟨s, old, evolves⟩ | born
    · exact kept old status
    · obtain ⟨same, waiting | ⟨fd, rfl, named⟩⟩ := evolves.of_lastAck status
      · rw [same, evolves.addr]
        exact kept old waiting
      · rw [same, evolves.addr]
        simp only [Numbers.note, named, Function.update_self]
    · exact absurd status born.ne_lastAck

/-- A step with the right numbers passes the gates. -/
theorem Waits.gated (waits : Waits d) (right : Acknowledges d e)
    (ran : Machine.recorded Numbers.note d e = .ok d') : Gated d e d' := by
  obtain ⟨ret, acted, -⟩ := Machine.recorded_ok ran
  have change := Machine.act_change acted
  have numbered := waits.numbered
  refine ⟨fun s member status opened => ?_, fun s member status => ?_, ?_⟩
  · obtain ⟨t, at_t, block, open_⟩ := opened
    rcases change.after at_t with old | ⟨u, old, evolves⟩ | born
    · cases numbered.unique member old block
      cases open_.symm.trans status
    · cases numbered.unique member old (evolves.addr.symm.trans block)
      cases evolves with
      | established receives waiting acks =>
          refine ⟨_, _, rfl, ?_⟩
          rw [← waits.syn s member status]
          exact right s receives acks (.inl status)
      | heard receives heard => cases heard.symm.trans status
      | bound | listens | closes => cases open_
      | accepted | sends | refused | reads | out => cases open_.symm.trans status
    · have fresh := born.block
      have issued := numbered.issued member
      omega
  · rcases change.before numbered member with same | ⟨t, at_t, evolves⟩ | ⟨dies, -⟩
    · exact .inl ⟨s, same, rfl, status⟩
    · cases evolves with
      | established receives waiting => cases waiting.symm.trans status
      | heard receives heard => cases heard.symm.trans status
      | bound named => exact absurd status (right s named)
      | listens named => exact absurd status (right s named)
      | closes => exact .inl ⟨_, at_t, rfl, rfl⟩
      | accepted | sends | refused | reads | out => exact .inl ⟨_, at_t, rfl, status⟩
    · cases dies with
      | acked receives waiting acks =>
          refine .inr ⟨_, _, rfl, ?_⟩
          rw [← waits.fin s member status]
          exact right s receives acks (.inr status)
      | closed named listens => cases listens.symm.trans status
  · rintro isn seg rfl s member status
    rcases change.before numbered member with same | ⟨t, at_t, evolves⟩ | ⟨dies, -⟩
    · exact .inl ⟨s, same, rfl, status⟩
    · cases evolves with
      | established receives waiting acks =>
          refine .inr ⟨_, _, rfl, ?_⟩
          rw [← waits.syn s member status]
          exact right s receives acks (.inl status)
      | heard receives open_ => cases open_.symm.trans status
    · cases dies with
      | acked receives waiting => cases waiting.symm.trans status

end Steps

/-- In every run from the empty stack whose acknowledgements have the right numbers,
every step passes the gates. -/
theorem gated_of_acknowledges (A : Allocator) (n : Numbers) (past later : List Event) (e : Event)
    (right : Along (Machine.recorded Numbers.note) Acknowledges (⟨World.empty, A⟩, n)
      (past ++ e :: later)) (d d' : Machine × Numbers)
    (ran : runs (Machine.recorded Numbers.note) (⟨World.empty, A⟩, n) past = .ok d)
    (step : Machine.recorded Numbers.note d e = .ok d') : Gated d e d' := by
  have start : Waits (⟨World.empty, A⟩, n) :=
    ⟨.empty A, fun _ member => absurd member List.not_mem_nil,
      fun _ member => absurd member List.not_mem_nil⟩
  have waits := right.beginning.invariant Waits start
    (fun _ _ _ waits _ stepped => waits.step stepped) ran
  exact waits.gated (right.meets_at ran) step

/-- A listener on port 3, and the SYN of a client, answered with this number. -/
def sampleHandshake (isn : UInt32) : List Event :=
  [.socket .stream, .bind 3 3 4, .listen 3, .segment isn (sampleSegment 9 0x02 [])]

/-- The SYN has the number 99, and the client acknowledges it with 100. -/
theorem gated_of_acknowledges_handshake : ∃ d d' : Machine × Numbers,
    runs (Machine.recorded Numbers.note) (⟨World.empty, .plentiful⟩, ⟨fun _ => 0, fun _ => 0⟩)
      (sampleHandshake 99) = .ok d ∧
    Machine.recorded Numbers.note d (.segment 0 (sampleSegment 10 0x10 [])) = .ok d' ∧
    Gated d (.segment 0 (sampleSegment 10 0x10 [])) d' := by
  refine ⟨_, _, rfl, rfl, ?_⟩
  refine gated_of_acknowledges .plentiful ⟨fun _ => 0, fun _ => 0⟩ (sampleHandshake 99) []
    _ ?_ _ _ rfl rfl
  refine .cons trivial rfl ?_
  refine .cons (fun s named => ?_) rfl ?_
  · cases named
    decide
  refine .cons (fun s named => ?_) rfl ?_
  · cases named
    decide
  refine .cons (fun s receives acks => absurd acks (by decide)) rfl ?_
  refine ⟨fun s receives acks status => ?_, fun _ _ => trivial⟩
  cases receives.2
  decide

/-- The SYN has the number 7, and an acknowledgement with 100 opens the stream. -/
theorem wrong_number_establishes : ∃ d d' : Machine × Numbers,
    runs (Machine.recorded Numbers.note) (⟨World.empty, .plentiful⟩, ⟨fun _ => 0, fun _ => 0⟩)
      (sampleHandshake 7) = .ok d ∧
    Machine.recorded Numbers.note d (.segment 0 (sampleSegment 10 0x10 [])) = .ok d' ∧
    ¬ Gated d (.segment 0 (sampleSegment 10 0x10 [])) d' := by
  refine ⟨_, _, rfl, rfl, fun gated => ?_⟩
  obtain ⟨isn, seg, same, number⟩ := gated.opens _ List.mem_cons_self rfl
    ⟨_, List.mem_cons_self, rfl, rfl⟩
  cases same
  exact absurd number (by decide)

end LinuxCpp.Ustack
