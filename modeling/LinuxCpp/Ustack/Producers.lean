import LinuxCpp.C.Blind
import LinuxCpp.C.Refusal
import LinuxCpp.Ustack.TcpCodec

set_option autoImplicit false

/- The four calls that put fragments on the send rings, and what their fragments take from
the blocks that hold them. Three calls clear the block first; `nclose` does not. -/
namespace LinuxCpp.Ustack

open C

inductive Producer where
  | handleListen (isn : UInt32) (w : World) (seg : Segment)
  | sendAckpkt (seg : Segment)
  | send (buf : List UInt8)
  | close
deriving Inhabited

/-- The send rings after the call on the stream. -/
def Producer.sndbufs (stream : Stream) : Producer → CM (List (Option (Ring Fragment)))
  | .handleListen isn w seg => do
      let (_, w) ← ngTcpHandleListen isn w stream seg
      return w.tcbSet.map Stream.sndbuf
  | .sendAckpkt seg => do
      let (_, stream) ← ngTcpSendAckpkt stream seg
      return [stream.sndbuf]
  | .send buf => do
      let (_, stream) ← sendStream stream buf
      return [stream.sndbuf]
  | .close => do
      match ← closeStream stream with
      | none => return [stream.sndbuf]
      | some stream => return [stream.sndbuf]

/-- The fragments on the rings are the same, whatever the fresh blocks contain. -/
def Producer.Initialised (p : Producer) (stream : Stream) (A : Allocator) : Prop :=
  ∀ junk, (p.sndbufs stream (A.refilled junk)).map Prod.fst =
    (p.sndbufs stream A).map Prod.fst

/-- The call puts a fragment on the ring that nobody cleared. -/
def Producer.Uncleared (p : Producer) (stream : Stream) (A : Allocator) : Prop :=
  p = .close ∧ A.grants A.calls = true ∧
    ∃ ring, stream.sndbuf = some ring ∧ ring.entries.length < ringSize - 1

section Cleared

variable {isn : UInt32} {w : World} {stream : Stream} {seg : Segment}

theorem ringCreate_blind (α : Type) (name : RingName) :
    Blind (· = ·) (ringCreate α w name) (ringCreate α w name) := by
  unfold ringCreate
  refine .ite (fun _ => .pure rfl) fun _ => .bind .malloc ?_
  rintro block _ rfl
  cases block <;> exact .pure rfl

/-- The new stream is the same, but for the number that nobody wrote. -/
theorem ngTcpStreamCreate_blind (sip dip : UInt32) (sport dport : UInt16) :
    Blind (fun done done' => done'.2 = done.2 ∧
        ∃ n, done'.1 = done.1.map fun s => { s with rcvNxt := n })
      (ngTcpStreamCreate isn w sip dip sport dport)
      (ngTcpStreamCreate isn w sip dip sport dport) := by
  unfold ngTcpStreamCreate
  refine .bind .malloc ?_
  rintro block _ rfl
  cases block with
  | none => exact .pure ⟨rfl, 0, rfl⟩
  | some addr =>
      refine .bind (.junkOf addr) fun words words' _ => ?_
      refine .bind (ringCreate_blind _ _) ?_
      rintro ⟨sndbuf, w₁⟩ _ rfl
      refine .bind (ringCreate_blind _ _) ?_
      rintro ⟨rcvbuf, w₂⟩ _ rfl
      exact .pure ⟨rfl, .ofNat (words' 0), rfl⟩

/-- The answer to a SYN is cleared before it is filled in. -/
theorem ngTcpHandleListen_blind :
    Blind (fun done done' => done'.2.tcbSet.map Stream.sndbuf = done.2.tcbSet.map Stream.sndbuf)
      (ngTcpHandleListen isn w stream seg) (ngTcpHandleListen isn w stream seg) := by
  unfold ngTcpHandleListen
  refine .ite (fun _ => .ite (fun _ => ?_) fun _ => .pure rfl) fun _ => .pure rfl
  refine .bind (ngTcpStreamCreate_blind _ _ _ _) ?_
  rintro ⟨syn, w₁⟩ ⟨syn', w₁'⟩ ⟨worlds, n, made⟩
  cases worlds
  cases made
  cases syn with
  | none => exact ⟨fun _ _ => .faulted _⟩
  | some syn =>
      refine .bind .malloc ?_
      rintro block _ rfl
      cases block with
      | none => exact .pure rfl
      | some block =>
          refine .bind (.lift _) ?_
          rintro sndbuf _ rfl
          exact .pure rfl

theorem ngTcpSendAckpkt_blind :
    Blind (· = ·) (ngTcpSendAckpkt stream seg) (ngTcpSendAckpkt stream seg) := by
  unfold ngTcpSendAckpkt
  refine .bind .malloc ?_
  rintro block _ rfl
  cases block with
  | none => exact .pure rfl
  | some block =>
      refine .bind (.lift _) ?_
      rintro sndbuf _ rfl
      exact .pure rfl

theorem sendStream_blind (buf : List UInt8) :
    Blind (· = ·) (sendStream stream buf) (sendStream stream buf) := by
  unfold sendStream
  refine .bind .malloc ?_
  rintro block _ rfl
  cases block with
  | none => exact .pure rfl
  | some block =>
      refine .bind .malloc ?_
      rintro data _ rfl
      cases data with
      | none => exact .pure rfl
      | some data =>
          refine .bind (.lift _) ?_
          rintro sndbuf _ rfl
          exact .pure rfl

/-- All calls but `nclose`. -/
theorem Producer.sndbufs_blind {p : Producer} (other : p ≠ .close) :
    Blind (· = ·) (p.sndbufs stream) (p.sndbufs stream) := by
  cases p with
  | handleListen isn w seg => exact .bind ngTcpHandleListen_blind fun _ _ same => .pure same.symm
  | sendAckpkt seg =>
      refine .bind ngTcpSendAckpkt_blind ?_
      rintro done _ rfl
      exact .pure rfl
  | send buf =>
      refine .bind (sendStream_blind buf) ?_
      rintro done _ rfl
      exact .pure rfl
  | close => exact absurd rfl other

end Cleared

section Close

variable {stream : Stream} {A : Allocator} {ring : Ring Fragment}

/-- The fragment of `nclose` in a block with these words. -/
def finFragment (stream : Stream) (words : Nat → Nat) : Fragment := {
  sport := stream.dport, dport := stream.sport, seqnum := stream.sndNxt,
  acknum := stream.rcvNxt, hdrlenOff := 0x50, tcpFlags := tcpFinFlag ||| tcpAckFlag,
  windows := tcpInitialWindow, tcpUrp := .ofNat (words 0), optlen := words 1, data := none,
  length := 0 }

theorem close_refused (refused : A.grants A.calls = false) :
    (Producer.close.sndbufs stream A).map Prod.fst = .ok [stream.sndbuf] := by
  rw [Producer.sndbufs, closeStream, bind_ok (bind_ok (malloc_refused refused))]
  rfl

theorem closeStream_granted (stream : Stream) (granted : A.grants A.calls = true) :
    closeStream stream A =
      (enqueue stream.sndbuf (finFragment stream (A.junk A.calls))).map fun sndbuf =>
        (some { stream with sndbuf := sndbuf, status := .lastAck }, A.next) := by
  have words : junkOf (A.calls + 1) A.next = .ok (A.junk A.calls, A.next) := rfl
  rw [closeStream, bind_ok (malloc_granted granted)]
  simp only
  rw [bind_ok words]
  cases queued : enqueue stream.sndbuf (finFragment stream (A.junk A.calls)) with
  | error fault => exact lift_bind_error queued
  | ok sndbuf => exact lift_bind_ok queued

theorem close_granted (granted : A.grants A.calls = true) :
    (Producer.close.sndbufs stream A).map Prod.fst =
      (enqueue stream.sndbuf (finFragment stream (A.junk A.calls))).map fun sndbuf => [sndbuf] := by
  have run := closeStream_granted stream granted
  cases queued : enqueue stream.sndbuf (finFragment stream (A.junk A.calls)) with
  | error fault =>
      rw [queued] at run
      rw [Producer.sndbufs, bind_error run]
      rfl
  | ok sndbuf =>
      rw [queued] at run
      rw [Producer.sndbufs, bind_ok run]
      rfl

/-- Only a ring with a place shows what is enqueued. -/
theorem close_shows (granted : A.grants A.calls = true) (made : stream.sndbuf = some ring)
    (place : ring.entries.length < ringSize - 1) :
    (Producer.close.sndbufs stream A).map Prod.fst = .ok [some { ring with
      entries := ring.entries ++ [finFragment stream (A.junk A.calls)] }] := by
  rw [close_granted granted, made]
  show Except.ok [some (ring.enqueue _)] = _
  rw [Ring.enqueue, if_pos place]

theorem close_hides (granted : A.grants A.calls = true)
    (hidden : ∀ ring, stream.sndbuf = some ring → ringSize - 1 ≤ ring.entries.length) :
    (Producer.close.sndbufs stream A).map Prod.fst =
      match stream.sndbuf with
      | none => .error .nullDeref
      | some ring => .ok [some ring] := by
  rw [close_granted granted]
  cases made : stream.sndbuf with
  | none => rfl
  | some ring =>
      show Except.ok [some (ring.enqueue _)] = _
      rw [Ring.enqueue, if_neg (Nat.not_lt.mpr (hidden ring made))]

/-- A block whose first word is another one. -/
theorem close_leaks (granted : A.grants A.calls = true) (made : stream.sndbuf = some ring)
    (place : ring.entries.length < ringSize - 1) : ¬ Producer.close.Initialised stream A := by
  intro same
  have other := same fun _ _ => A.junk A.calls 0 + 1
  rw [close_shows granted made place, close_shows (by exact granted) made place] at other
  have fragments := List.append_cancel_left (congrArg Ring.entries
    (Option.some.inj (List.cons.inj (Except.ok.inj other)).1))
  have urgent : UInt16.ofNat (A.junk A.calls 0 + 1) = .ofNat (A.junk A.calls 0) :=
    congrArg Fragment.tcpUrp (List.cons.inj fragments).1
  rw [← UInt16.toNat_inj, UInt16.toNat_ofNat', UInt16.toNat_ofNat'] at urgent
  omega

end Close

/-- What a call puts on the rings comes from the call, unless nobody cleared its block. -/
theorem Producer.initialised_iff (p : Producer) (stream : Stream) (A : Allocator) :
    p.Initialised stream A ↔ ¬ p.Uncleared stream A := by
  constructor
  · rintro same ⟨rfl, granted, ring, made, place⟩
    exact close_leaks granted made place same
  · intro cleared junk
    by_cases close : p = .close
    · subst close
      cases grants : A.grants A.calls with
      | false => rw [close_refused grants, close_refused (by exact grants)]
      | true =>
          have hidden : ∀ ring, stream.sndbuf = some ring →
              ringSize - 1 ≤ ring.entries.length := by
            intro ring made
            exact Nat.not_lt.mp fun place => cleared ⟨rfl, grants, ring, made, place⟩
          rw [close_hides grants hidden, close_hides (by exact grants) hidden]
    · exact (sndbufs_blind close).same A junk

/-- An established stream with an empty ring. -/
def closing : Stream :=
  ⟨1, 3, 4, 1, 3, 2, 100, 10, .established, some ⟨2, .tcpSendBuffer, []⟩, none⟩

/-- The length of the packet depends on the block of the fragment. -/
theorem close_uncleared :
    ¬ Producer.close.Initialised closing .cleared ∧
    (ngTcpPkt internetSums (List.replicate 60 0) 2 4 #v[1, 2, 3, 4, 5, 6] #v[6, 5, 4, 3, 2, 1]
      (finFragment closing fun _ => 0)).map List.length = .ok 54 ∧
    (ngTcpPkt internetSums (List.replicate 60 0) 2 4 #v[1, 2, 3, 4, 5, 6] #v[6, 5, 4, 3, 2, 1]
      (finFragment closing fun _ => 1)).map List.length = .ok 58 :=
  ⟨close_leaks rfl rfl (by decide), rfl, rfl⟩

/-- The fragments on the rings before the call. -/
def Producer.waiting (stream : Stream) : Producer → List Fragment
  | .handleListen _ w _ => w.tcbSet.flatMap Stream.sending
  | _ => stream.sending

/-- A ring whose fragments waited before or announce the window of the stack. -/
def Announces (old : List Fragment) (sndbuf : Option (Ring Fragment)) : Prop :=
  ∀ ring, sndbuf = some ring → ∀ f ∈ ring.entries, f ∈ old ∨ f.windows = tcpInitialWindow

section Windows

variable {old : List Fragment} {stream : Stream}

theorem Announces.sending (stream : Stream) : Announces stream.sending stream.sndbuf := by
  intro ring made f member
  rw [Stream.sending, made]
  exact .inl member

theorem Announces.enqueue {sndbuf : Option (Ring Fragment)} {f : Fragment}
    (before : Announces old sndbuf) (window : f.windows = tcpInitialWindow) :
    Returns (enqueue sndbuf f) (Announces old) := by
  refine ⟨fun after queued => ?_⟩
  obtain ⟨ring, made, rfl⟩ := (enqueue_returns sndbuf f).of_ok after queued
  rintro _ ⟨⟩ g member
  unfold Ring.enqueue at member
  split at member
  · rcases List.mem_append.mp member with waited | last
    · exact before ring made g waited
    · exact .inr (List.mem_singleton.mp last ▸ window)
  · exact before ring made g member

/-- A stream that was made for a SYN has no fragments yet. -/
theorem Fresh.announces {isn : UInt32} {A : Allocator} {s : Stream} (fresh : Fresh isn A s) :
    Announces old s.sndbuf := by
  intro ring made f member
  rw [fresh.empty ring made] at member
  cases member

theorem ngTcpHandleListen_windows (isn : UInt32) (w : World) (seg : Segment) (A : Allocator) :
    Leaves (ngTcpHandleListen isn w stream seg) A fun done _ =>
      ∀ s ∈ done.2.tcbSet, Announces (w.tcbSet.flatMap Stream.sending) s.sndbuf := by
  have before : ∀ s ∈ w.tcbSet, Announces (w.tcbSet.flatMap Stream.sending) s.sndbuf := by
    intro s member ring made f waits
    refine .inl (List.mem_flatMap.mpr ⟨s, member, ?_⟩)
    rw [Stream.sending, made]
    exact waits
  unfold ngTcpHandleListen
  refine .ite (fun _ => .ite (fun _ => ?_) fun _ => .pure before) fun _ => .pure before
  refine .bind (ngTcpStreamCreate_leaves _ _ _ _) ?_
  rintro ⟨_ | syn, w₁⟩ B ⟨streams, -, made⟩
  · exact .throw _
  · have fresh : Announces (w.tcbSet.flatMap Stream.sending) syn.sndbuf :=
      (made syn rfl).1.announces
    have with_ {s : Stream} (announces : Announces (w.tcbSet.flatMap Stream.sending) s.sndbuf) :
        ∀ t ∈ (w₁.add s).tcbSet, Announces (w.tcbSet.flatMap Stream.sending) t.sndbuf := by
      rw [World.add, streams]
      exact List.forall_mem_cons.mpr ⟨announces, before⟩
    refine .malloc (fun _ => .pure (with_ fresh)) fun _ => ?_
    exact .after (fresh.enqueue rfl) fun sndbuf announces => .pure (with_ announces)

/-- Every fragment that a call puts on a ring announces the window of the stack. -/
theorem Producer.sndbufs_windows (p : Producer) (stream : Stream) (A : Allocator) :
    Leaves (p.sndbufs stream) A fun rings _ =>
      ∀ sndbuf ∈ rings, Announces (p.waiting stream) sndbuf := by
  have before := Announces.sending stream
  cases p with
  | handleListen isn w seg =>
      refine .bind (ngTcpHandleListen_windows isn w seg A) fun done B announces => ?_
      exact .pure (List.forall_mem_map.mpr announces)
  | sendAckpkt seg =>
      have sent : Leaves (ngTcpSendAckpkt stream seg) A fun done _ =>
          Announces stream.sending done.2.sndbuf :=
        .malloc (fun _ => .pure before) fun _ =>
          .after (before.enqueue rfl) fun sndbuf announces => .pure announces
      exact .bind sent fun done B announces => .pure (List.forall_mem_singleton.mpr announces)
  | send buf =>
      have sent : Leaves (sendStream stream buf) A fun done _ =>
          Announces stream.sending done.2.sndbuf :=
        .malloc (fun _ => .pure before) fun _ => .malloc (fun _ => .pure before) fun _ =>
          .after (before.enqueue rfl) fun sndbuf announces => .pure announces
      exact .bind sent fun done B announces => .pure (List.forall_mem_singleton.mpr announces)
  | close =>
      have sent : Leaves (closeStream stream) A fun done _ =>
          ∀ s, done = some s → Announces stream.sending s.sndbuf := by
        refine .malloc (fun _ => .pure fun s none_ => nomatch none_) fun _ => .step rfl ?_
        refine .after (before.enqueue rfl) fun sndbuf announces => .pure ?_
        rintro _ ⟨⟩
        exact announces
      refine .bind sent ?_
      rintro (_ | s) B announces
      · exact .pure (List.forall_mem_singleton.mpr before)
      · exact .pure (List.forall_mem_singleton.mpr (announces s rfl))

end Windows

end LinuxCpp.Ustack
