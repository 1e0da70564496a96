import LinuxCpp.Ustack.AckGates
import LinuxCpp.Ustack.BadHeaders

set_option autoImplicit false

/- The end of a stream. `nrecv` takes a fragment without bytes for it; the FIN branch puts
such a fragment on the ring, and so does a push without payload. -/
namespace LinuxCpp.Ustack

open C Trace

/-- The streams that were given a FIN, and those whose end `nrecv` has returned. -/
structure EndLog where
  fins : List Nat
  reported : List Nat

def EndLog.note (m : Machine) (e : Event) (ret : Option Int) (_ : Machine) (n : EndLog) : EndLog :=
  match e with
  | .segment _ seg =>
      match ngTcpStreamSearch m.world seg.srcAddr seg.dstAddr seg.srcPort seg.dstPort with
      | some s =>
          if seg.cksumOk ∧ seg.has tcpFinFlag then { n with fins := s.addr :: n.fins } else n
      | none => n
  | .recv fd _ =>
      match getHostinfoFromfd m.world fd with
      | some (.stream s) =>
          if ret = some 0 then { n with reported := s.addr :: n.reported } else n
      | _ => n
  | _ => n

/-- The end of a stream is returned only after a FIN for it. -/
def Honest (d : Machine × EndLog) : Prop := ∀ addr ∈ d.2.reported, addr ∈ d.2.fins

/-- A fragment without bytes is among these. -/
def Ring.Ended (r : Ring Fragment) : Prop := ∃ f ∈ r.entries, f.length = 0

def Stream.Ended (s : Stream) : Prop := ∃ r, s.rcvbuf = some r ∧ r.Ended

/-- The segment has no payload, and the fragment for it is granted and finds a place. -/
def Stream.TakesBlank (s : Stream) (seg : Segment) (A : Allocator) : Prop :=
  ¬ 0 < seg.payloadlen seg.tcplen ∧ A.grants A.calls = true ∧
    ∃ r, s.rcvbuf = some r ∧ r.entries.length < ringSize - 1

/-- No push of nothing is queued for an established stream, unless with a FIN or after one. -/
def PushesData (d : Machine × EndLog) : Event → Prop
  | .segment _ seg => ∀ s, Receives d.1.world seg s → s.status = .established →
      seg.has tcpPshFlag = true → seg.has tcpFinFlag = false → s.addr ∉ d.2.fins →
      ¬ s.TakesBlank seg d.1.heap
  | _ => True

/-- Only streams that were given a FIN have a fragment without bytes. -/
def EndsByFin (d : Machine × EndLog) : Prop :=
  ∀ s ∈ d.1.world.tcbSet, s.Ended → s.addr ∈ d.2.fins

section Rings

variable {s : Stream} {seg : Segment} {A : Allocator} {r : Ring Fragment} {f : Fragment}

theorem Ring.enqueue_ended :
    (r.enqueue f).Ended ↔ r.Ended ∨ (f.length = 0 ∧ r.entries.length < ringSize - 1) := by
  unfold Ring.enqueue
  split
  · rename_i room
    simp only [Ring.Ended, List.mem_append, List.mem_singleton, room, and_true]
    constructor
    · rintro ⟨g, old | rfl, empty⟩
      · exact .inl ⟨g, old, empty⟩
      · exact .inr empty
    · rintro (⟨g, old, empty⟩ | empty)
      · exact ⟨g, .inl old, empty⟩
      · exact ⟨f, .inr rfl, empty⟩
  · rename_i full
    simp [full]

theorem Stream.enqueue_ended {t : Stream} (ring : s.rcvbuf = some r)
    (ring' : t.rcvbuf = some (r.enqueue f)) :
    t.Ended ↔ s.Ended ∨ (f.length = 0 ∧ r.entries.length < ringSize - 1) := by
  simp [Stream.Ended, ring, ring', Ring.enqueue_ended]

theorem payload_ne_zero (some_ : 0 < seg.payloadlen seg.tcplen) :
    UInt32.ofInt (seg.payloadlen seg.tcplen) ≠ 0 := by
  intro zero
  have nothing : seg.payloadlen seg.tcplen = 0 :=
    payloadlen_eq_zero (n := 0) (by rw [zero]; rfl)
  omega

theorem ngTcpEnqueueRecvbuffer_ended :
    Leaves (ngTcpEnqueueRecvbuffer s seg seg.tcplen) A fun done _ =>
      done.2.Ended ↔ s.Ended ∨ s.TakesBlank seg A := by
  have same (other : ¬ s.TakesBlank seg A) : s.Ended ↔ s.Ended ∨ s.TakesBlank seg A := by
    simp [other]
  unfold ngTcpEnqueueRecvbuffer
  refine .malloc (fun refused => .pure (same fun takes => ?_)) fun granted => ?_
  · cases refused.symm.trans takes.2.1
  refine .ite (fun some_ => ?_) fun none_ => ?_
  · have other : ¬ s.TakesBlank seg A := fun takes => takes.1 some_
    refine .malloc (fun _ => .pure (same other)) fun _ => .skip fun data _ => ?_
    refine .after (enqueue_returns _ _) ?_
    rintro _ ⟨r, ring, rfl⟩
    refine .pure ((Stream.enqueue_ended ring rfl).trans ?_)
    simp [other, payload_ne_zero some_]
  · refine .after (enqueue_returns _ _) ?_
    rintro _ ⟨r, ring, rfl⟩
    refine .pure ((Stream.enqueue_ended ring rfl).trans ?_)
    have blank : Fragment.zeroed.length = 0 := rfl
    simp [Stream.TakesBlank, none_, granted, ring, blank]

/-- What a segment without FIN leaves on the receive ring. -/
theorem ngTcpHandleEstablished_ended (fin : seg.has tcpFinFlag = false) :
    Leaves (ngTcpHandleEstablished s seg seg.tcplen) A fun done _ =>
      done.2.Ended ↔ s.Ended ∨ (seg.has tcpPshFlag = true ∧ s.TakesBlank seg A) := by
  unfold ngTcpHandleEstablished receivePush
  simp only [fin]
  cases seg.has tcpPshFlag with
  | false => exact .step rfl (.pure (by simp))
  | true =>
      refine .bind (.bind ngTcpEnqueueRecvbuffer_ended ?_) fun t B ended => .pure ended
      rintro ⟨ret, t⟩ B ended
      refine .bind (.of_returns (ngTcpSendAckpkt_returns _)) ?_
      rintro ⟨ret', _⟩ C ⟨sndbuf, rfl⟩
      refine .pure ?_
      simp only [true_and]
      exact ended

end Rings

section Segments

variable {isn : UInt32} {w : World} {seg : Segment} {A : Allocator}

/-- A ring that was just created, or none. -/
theorem ended_of_created {s : Stream} {created : Option (Ring Fragment)}
    (empty : ∀ r, created = some r → r.entries = []) (ring : s.rcvbuf = created) : ¬ s.Ended := by
  rintro ⟨r, there, f, member, -⟩
  rw [empty r (ring.symm.trans there)] at member
  cases member

/-- A stream in front of the list that has nothing to read. -/
theorem front_ended {w' : World} {s : Stream} (streams : w'.tcbSet = w.tcbSet) (blank : ¬ s.Ended) :
    ∀ t ∈ (w'.add s).tcbSet, t.Ended → t ∈ w.tcbSet := by
  intro t member ended
  rcases List.mem_cons.mp member with rfl | old
  · exact absurd ended blank
  · exact streams ▸ old

/-- A stream made for a SYN has nothing to read. -/
theorem ngTcpHandleListen_ended (stream : Stream) :
    ReturnsM (ngTcpHandleListen isn w stream seg) fun done =>
      ∀ t ∈ done.2.tcbSet, t.Ended → t ∈ w.tcbSet := by
  have created (sip dip : UInt32) (sport dport : UInt16) :
      ReturnsM (ngTcpStreamCreate isn w sip dip sport dport) fun done =>
        done.2.tcbSet = w.tcbSet ∧ ∀ s, done.1 = some s →
          ¬ s.Ended := by
    unfold ngTcpStreamCreate
    refine .skip ?_
    rintro (_ | block)
    · exact .pure ⟨rfl, fun _ none_ => nomatch none_⟩
    refine .skip fun words => .bind (ringCreate_streams w .sndbuf) ?_
    rintro ⟨sndbuf, w₁⟩ ⟨streams, -, -⟩
    refine .bind (ringCreate_streams w₁ .rcvbuf) ?_
    rintro ⟨rcvbuf, w₂⟩ ⟨streams', -, empty⟩
    refine .pure ⟨streams'.trans streams, fun s made => ?_⟩
    cases made
    exact ended_of_created empty rfl
  unfold ngTcpHandleListen
  refine .ite (.ite (.bind (created _ _ _ _) ?_) ?_) ?_
  · rintro ⟨_ | syn, w₁⟩ ⟨streams, blank⟩
    · exact .throw _
    refine .skip ?_
    rintro (_ | block)
    · exact .pure (front_ended streams (blank syn rfl))
    · exact .skip fun sndbuf => .pure (front_ended streams (blank syn rfl))
  all_goals exact .pure fun t member _ => member

theorem nsocket_ended (type : SockType) :
    ReturnsM (nsocket w type) fun done => ∀ t ∈ done.2.tcbSet, t.Ended → t ∈ w.tcbSet := by
  have kept := (getFdFrombitmap_streams w).1
  have same {w' : World} (streams : w'.tcbSet = (getFdFrombitmap w).2.tcbSet) :
      ∀ t ∈ w'.tcbSet, t.Ended → t ∈ w.tcbSet := fun t member _ => (streams.trans kept) ▸ member
  unfold nsocket
  cases type with
  | other => exact .pure (same rfl)
  | dgram =>
      refine .skip ?_
      rintro (_ | block)
      · exact .pure (same rfl)
      refine .bind (ringCreate_streams _ .recvBuffer) ?_
      rintro ⟨_ | rcvbuf, w₁⟩ ⟨streams₁, -, -⟩
      · exact .skip fun _ => .pure (same streams₁)
      refine .bind (ringCreate_streams w₁ .sendBuffer) ?_
      rintro ⟨_ | sndbuf, w₂⟩ ⟨streams₂, -, -⟩
      · exact .skip fun _ => .pure (same (streams₂.trans streams₁))
      · exact .pure (same (streams₂.trans streams₁))
  | stream =>
      refine .skip ?_
      rintro (_ | block)
      · exact .pure (same rfl)
      refine .bind (ringCreate_streams _ .tcpRecvBuffer) ?_
      rintro ⟨_ | rcvbuf, w₁⟩ ⟨streams₁, -, empty⟩
      · exact .skip fun _ => .pure (same streams₁)
      refine .bind (ringCreate_streams w₁ .tcpSendBuffer) ?_
      rintro ⟨_ | sndbuf, w₂⟩ ⟨streams₂, -, -⟩
      · exact .skip fun _ => .pure (same (streams₂.trans streams₁))
      · refine .pure (front_ended ?_ (ended_of_created empty rfl))
        exact (streams₂.trans streams₁).trans kept

/-- A stream that ended before, was given a FIN, or took a push of nothing. -/
theorem ngTcpProcess_ended : Leaves (ngTcpProcess isn w seg) A fun done _ =>
    ∀ t ∈ done.2.tcbSet, t.Ended → (∃ s ∈ w.tcbSet, s.addr = t.addr ∧ s.Ended) ∨
      ∃ s, Receives w seg s ∧ s.addr = t.addr ∧ (seg.has tcpFinFlag = true ∨
        (s.status = .established ∧ seg.has tcpPshFlag = true ∧ s.TakesBlank seg A)) := by
  have old {t : Stream} (member : t ∈ w.tcbSet) (ended : t.Ended) :
      ∃ s ∈ w.tcbSet, s.addr = t.addr ∧ s.Ended := ⟨t, member, rfl, ended⟩
  unfold ngTcpProcess
  refine .ite (fun _ => .pure fun t member ended => .inl (old member ended)) fun correct => ?_
  cases found : ngTcpStreamSearch w seg.srcAddr seg.dstAddr seg.srcPort seg.dstPort with
  | none => exact .pure fun t member ended => .inl (old member ended)
  | some stream =>
      have receives : Receives w seg stream := ⟨by simpa using correct, found⟩
      have member := mem_of_search found
      -- a stream that is written keeps its block
      have written {s' t : Stream} (at_t : t ∈ (w.put s').tcbSet) (ended : t.Ended)
          (block : s'.addr = stream.addr) : (∃ s ∈ w.tcbSet, s.addr = t.addr ∧ s.Ended) ∨
            (t = s' ∧ stream.addr = t.addr) := by
        rcases mem_put at_t with rfl | ⟨at_t, -⟩
        · exact .inr ⟨rfl, block.symm⟩
        · exact .inl (old at_t ended)
      simp only
      split
      · refine .bind (.of_returns (ngTcpHandleListen_ended stream)) ?_
        rintro ⟨ret, w'⟩ B kept
        exact .pure fun t at_t ended => .inl (old (kept t at_t ended) ended)
      · refine .after (ngTcpHandleSynRcvd_returns stream) ?_
        rintro ⟨ret, _⟩ (rfl | ⟨acks, rfl⟩)
        · exact .pure fun t at_t ended => .inl (old at_t ended)
        · refine .pure fun t at_t ended => ?_
          rcases written at_t ended rfl with before | ⟨rfl, -⟩
          · exact .inl before
          · exact .inl ⟨stream, member, rfl, ended⟩
      · rename_i status
        cases fin : seg.has tcpFinFlag with
        | true =>
            refine .bind (.of_returns (ngTcpHandleEstablished_returns stream _)) ?_
            rintro ⟨ret, _⟩ B ⟨rcvbuf, sndbuf, rcvNxt, rfl⟩
            refine .pure fun t at_t ended => ?_
            rcases written at_t ended rfl with before | ⟨-, block⟩
            · exact .inl before
            · exact .inr ⟨stream, receives, block, .inl rfl⟩
        | false =>
            refine .bind (.and (.of_returns (ngTcpHandleEstablished_returns stream _))
              (ngTcpHandleEstablished_ended fin)) ?_
            rintro ⟨ret, s'⟩ B ⟨⟨rcvbuf, sndbuf, rcvNxt, shape⟩, kept⟩
            have same : s'.addr = stream.addr := (congrArg Stream.addr shape : s'.addr = _)
            refine .pure fun t at_t ended => ?_
            rcases written at_t ended same with before | ⟨rfl, block⟩
            · exact .inl before
            rcases kept.mp ended with before | pushed
            · exact .inl ⟨stream, member, block, before⟩
            · exact .inr ⟨stream, receives, block, .inr ⟨status, pushed⟩⟩
      · refine .bind (ngTcpHandleLastAck_leaves stream) ?_
        rintro ⟨ret, _⟩ B (rfl | ⟨acks, streams, hosts⟩)
        · exact .pure fun t at_t ended => .inl (old at_t ended)
        · refine .pure fun t at_t ended => .inl (old ?_ ended)
          exact (List.mem_filter.mp (streams ▸ at_t)).1
      · exact .pure fun t at_t ended => .inl (old at_t ended)

/-- And the other way round. -/
theorem ngTcpProcess_blank {s : Stream} {ret : Int} {w' : World} {B : Allocator}
    (receives : Receives w seg s) (status : s.status = .established)
    (push : seg.has tcpPshFlag = true) (fin : seg.has tcpFinFlag = false)
    (takes : s.TakesBlank seg A) (ran : ngTcpProcess isn w seg A = .ok ((ret, w'), B)) :
    ∃ t ∈ w'.tcbSet, t.addr = s.addr ∧ t.Ended := by
  rw [ngTcpProcess_toEstablished receives status] at ran
  obtain ⟨⟨ret', s'⟩, C, handled, rest⟩ := run_of_bind ran
  cases rest
  obtain ⟨rcvbuf, sndbuf, rcvNxt, shape⟩ :=
    (ngTcpHandleEstablished_returns s seg.tcplen).of_ok handled
  have block : s'.addr = s.addr := (congrArg Stream.addr shape : s'.addr = _)
  have ended := ((ngTcpHandleEstablished_ended fin).of_ok _ _ handled).mpr (.inr ⟨push, takes⟩)
  exact ⟨s', put_mem (mem_of_search receives.2) block, block, ended⟩

end Segments

section Reading

variable {w : World} {s : Stream} {fd : Int} {len : Nat}

/-- A read leaves no new fragment without bytes, and returns 0 at one. -/
theorem recvStream_ended (s : Stream) (len : Nat) : Returns (recvStream s len) fun done =>
    ∀ got, done = some got → got.stream.addr = s.addr ∧ (got.stream.Ended → s.Ended) ∧
      (got.ret = 0 → s.Ended) := by
  unfold recvStream
  split
  · exact .error _
  · rename_i r ring
    split
    · exact .pure (by rintro _ ⟨⟩)
    · rename_i f entries queue
      have behind : Ring.Ended { r with entries := entries } → s.Ended := by
        rintro ⟨g, member, empty⟩
        exact ⟨r, ring, g, queue ▸ List.mem_cons_of_mem _ member, empty⟩
      have first (empty : f.length = 0) : s.Ended := ⟨r, ring, f, queue ▸ List.mem_cons_self, empty⟩
      have positive (more : f.length ≠ 0) : f.length.toNat ≠ 0 := fun zero =>
        more (UInt32.toNat_inj.mp zero)
      split
      · rename_i longer
        have small := f.length.toNat_lt
        refine .pure ?_
        rintro _ ⟨⟩
        have rest : (UInt32.ofNat (f.length.toNat - len)).toNat = f.length.toNat - len := by
          rw [UInt32.toNat_ofNat']
          omega
        refine ⟨rfl, fun ended => ?_, fun zero => ?_⟩
        · obtain ⟨_, ⟨⟩, ended⟩ := ended
          rcases Ring.enqueue_ended.mp ended with old | ⟨empty, -⟩
          · exact behind old
          · have none_ := congrArg UInt32.toNat empty
            simp only [rest, UInt32.toNat_zero] at none_
            omega
        · simp only [rest] at zero
          omega
      · split
        · rename_i empty
          refine .pure ?_
          rintro _ ⟨⟩
          refine ⟨rfl, fun ended => ?_, fun _ => first empty⟩
          obtain ⟨_, ⟨⟩, ended⟩ := ended
          exact behind ended
        · rename_i more
          refine .pure ?_
          rintro _ ⟨⟩
          refine ⟨rfl, fun ended => ?_, fun zero => ?_⟩
          · obtain ⟨_, ⟨⟩, ended⟩ := ended
            exact behind ended
          · exact absurd (Int.natCast_eq_zero.mp zero) (positive more)

theorem nrecv_ended (w : World) (fd : Int) (len : Nat) : Returns (nrecv w fd len) fun done =>
    ∀ ret copied w', done = some (ret, copied, w') →
      (∀ t ∈ w'.tcbSet, t.Ended → ∃ s ∈ w.tcbSet, s.addr = t.addr ∧ s.Ended) ∧
      (ret = 0 → ∀ s, getHostinfoFromfd w fd = some (.stream s) → s.Ended) := by
  have old (t : Stream) (member : t ∈ w.tcbSet) (ended : t.Ended) :
      ∃ s ∈ w.tcbSet, s.addr = t.addr ∧ s.Ended := ⟨t, member, rfl, ended⟩
  unfold nrecv
  split
  · refine .pure ?_
    rintro _ _ _ ⟨⟩
    exact ⟨old, fun zero => nomatch zero⟩
  · rename_i named
    refine .pure ?_
    rintro _ _ _ ⟨⟩
    exact ⟨old, fun _ s named' => nomatch named.symm.trans named'⟩
  · rename_i stream named
    refine .bind (recvStream_ended stream len) ?_
    rintro (_ | got) read
    · exact .pure (by rintro _ _ _ ⟨⟩)
    · obtain ⟨block, kept, first⟩ := read got rfl
      refine .pure ?_
      rintro _ _ _ ⟨⟩
      refine ⟨fun t member ended => ?_, fun zero s named' => ?_⟩
      · rcases mem_put member with rfl | ⟨before, -⟩
        · exact ⟨stream, mem_of_hostinfo named, block.symm, kept ended⟩
        · exact old t before ended
      · cases named.symm.trans named'
        exact first zero

end Reading

section Steps

variable {m m' : Machine} {e : Event} {ret : Option Int} {t : Stream} {d d' : Machine × EndLog}

/-- Where a fragment without bytes comes from. -/
theorem act_ended (ran : m.act e = .ok (ret, m')) (member : t ∈ m'.world.tcbSet) (ended : t.Ended) :
    (∃ s ∈ m.world.tcbSet, s.addr = t.addr ∧ s.Ended) ∨
      ∃ isn seg s, e = .segment isn seg ∧ Receives m.world seg s ∧ s.addr = t.addr ∧
        (seg.has tcpFinFlag = true ∨ (s.status = .established ∧ seg.has tcpPshFlag = true ∧
          s.TakesBlank seg m.heap)) := by
  have change := Machine.act_change ran
  cases e with
  | segment isn seg =>
      obtain ⟨value, rfl, called⟩ := Machine.call_ok ran
      rcases ngTcpProcess_ended.of_ok _ _ called t member ended with before | ⟨s, source⟩
      · exact .inl before
      · exact .inr ⟨isn, seg, s, rfl, source⟩
  | socket type =>
      obtain ⟨value, rfl, called⟩ := Machine.call_ok ran
      have old := (nsocket_ended type).of_ok called t member ended
      exact .inl ⟨t, old, rfl, ended⟩
  | recv fd len =>
      rcases Machine.act_recv ran with ⟨rfl, rfl⟩ | ⟨value, copied, w, received, rfl, rfl⟩
      · exact .inl ⟨t, member, rfl, ended⟩
      · exact .inl (((nrecv_ended m.world fd len).of_ok _ received _ _ _ rfl).1 t member ended)
  | bind | listen | accept | send | recvfrom | sendto | close | out =>
      rcases change.after member with old | ⟨s, old, evolves⟩ | born
      · exact .inl ⟨t, old, rfl, ended⟩
      · cases evolves <;> exact .inl ⟨_, old, rfl, ended⟩
      · cases born

/-- A call of `nrecv` that returns 0 found a fragment without bytes. -/
theorem act_recv_zero {fd : Int} {len : Nat} {s : Stream}
    (ran : m.act (.recv fd len) = .ok (some 0, m'))
    (named : getHostinfoFromfd m.world fd = some (.stream s)) : s.Ended := by
  rcases Machine.act_recv ran with ⟨waits, -⟩ | ⟨value, copied, w, received, zero, -⟩
  · cases waits
  · cases zero
    exact ((nrecv_ended m.world fd len).of_ok _ received _ _ _ rfl).2 rfl s named

theorem note_fins (n : EndLog) : n.fins ⊆ (n.note m e ret m').fins := by
  intro addr known
  unfold EndLog.note
  split
  · split
    · split
      · exact List.mem_cons_of_mem _ known
      · exact known
    · exact known
  · split
    · split <;> exact known
    · exact known
  · exact known

theorem note_receives {isn : UInt32} {seg : Segment} {s : Stream} (n : EndLog)
    (receives : Receives m.world seg s) : n.note m (.segment isn seg) ret m' =
      if seg.has tcpFinFlag then { n with fins := s.addr :: n.fins } else n := by
  simp only [EndLog.note, receives.2, receives.1, true_and]

/-- The event returned the end of this stream. -/
theorem mem_reported {n : EndLog} {addr : Nat} (member : addr ∈ (n.note m e ret m').reported) :
    addr ∈ n.reported ∨ ∃ fd len s, e = .recv fd len ∧ ret = some 0 ∧ s.addr = addr ∧
      getHostinfoFromfd m.world fd = some (.stream s) := by
  unfold EndLog.note at member
  split at member
  · split at member
    · split at member <;> exact .inl member
    · exact .inl member
  · split at member
    · split at member
      · rename_i fd len _ s named zero
        rcases List.mem_cons.mp member with rfl | old
        · exact .inr ⟨fd, len, s, rfl, zero, rfl, named⟩
        · exact .inl old
      · exact .inl member
    · exact .inl member
  · exact .inl member

/-- Exactly a step that queues no push of nothing keeps the fragments without bytes to the
streams that were given a FIN. -/
theorem EndsByFin.step_iff (byFin : EndsByFin d) (ran : Machine.recorded EndLog.note d e = .ok d') :
    EndsByFin d' ↔ PushesData d e := by
  obtain ⟨ret, acted, record⟩ := Machine.recorded_ok ran
  constructor
  · intro after
    cases e with
    | segment isn seg =>
        intro s receives status push fin fresh takes
        obtain ⟨value, rfl, called⟩ := Machine.call_ok acted
        obtain ⟨t, member, block, ended⟩ := ngTcpProcess_blank receives status push fin takes called
        have given := after t member ended
        rw [record, note_receives d.2 receives, if_neg (by simp [fin]), block] at given
        exact fresh given
    | socket | bind | listen | accept | send | recv | recvfrom | sendto | close | out => trivial
  · intro pushes t member ended
    rw [record]
    rcases act_ended acted member ended with ⟨s, old, block, before⟩ |
      ⟨isn, seg, s, rfl, receives, block, source⟩
    · exact block ▸ note_fins d.2 (byFin s old before)
    · rw [note_receives d.2 receives, ← block]
      rcases source with fin | ⟨status, push, takes⟩
      · rw [if_pos fin]
        exact List.mem_cons_self
      · by_contra missing
        cases fin : seg.has tcpFinFlag with
        | true => simp [fin] at missing
        | false =>
            rw [if_neg (by simp [fin])] at missing
            exact pushes s receives status push fin missing takes

theorem Honest.step (honest : Honest d) (byFin : EndsByFin d)
    (ran : Machine.recorded EndLog.note d e = .ok d') : Honest d' := by
  obtain ⟨ret, acted, record⟩ := Machine.recorded_ok ran
  intro addr member
  rw [record] at member ⊢
  apply note_fins
  rcases mem_reported member with old | ⟨fd, len, s, rfl, rfl, rfl, named⟩
  · exact honest addr old
  · exact byFin s (mem_of_hostinfo named) (act_recv_zero acted named)

end Steps

/-- The stack without sockets, before anything is noted. -/
def EndLog.start (A : Allocator) : Machine × EndLog := (⟨World.empty, A⟩, ⟨[], []⟩)

/-- In every state of a run without pushes of nothing, the ends that `nrecv` has returned
are those of streams that were given a FIN. -/
theorem end_of_stream_is_fin (A : Allocator) (events : List Event)
    (pushes : Along (Machine.recorded EndLog.note) PushesData (EndLog.start A) events) :
    Throughout (Machine.recorded EndLog.note) Honest (EndLog.start A) events := by
  rintro past later rfl d ran
  have start : EndsByFin (EndLog.start A) ∧ Honest (EndLog.start A) :=
    ⟨fun _ member => absurd member List.not_mem_nil,
      fun _ member => absurd member List.not_mem_nil⟩
  exact (pushes.beginning.invariant (fun d => EndsByFin d ∧ Honest d) start
    (fun _ _ _ inv meets stepped => ⟨(inv.1.step_iff stepped).mpr meets, inv.2.step inv.1 stepped⟩)
    ran).2

/-- And exactly in these runs no other stream has an end waiting. -/
theorem endsByFin_throughout_iff (A : Allocator) {events : List Event} {d : Machine × EndLog}
    (ran : runs (Machine.recorded EndLog.note) (EndLog.start A) events = .ok d) :
    Throughout (Machine.recorded EndLog.note) EndsByFin (EndLog.start A) events ↔
      Along (Machine.recorded EndLog.note) PushesData (EndLog.start A) events :=
  throughout_iff EndsByFin (fun _ _ _ byFin stepped => byFin.step_iff stepped)
    (fun _ member => absurd member List.not_mem_nil) ran

/-- The client of the sample handshake is accepted under the descriptor 4. -/
def sampleConnection : List Event :=
  [.socket .stream, .bind 3 3 4, .listen 3, .segment 99 (sampleSegment 9 0x02 []),
    .segment 0 (sampleSegment 10 0x10 []), .accept 3]

/-- Three bytes are pushed and read, then the FIN comes. -/
theorem end_of_stream_is_fin_read :
    Throughout (Machine.recorded EndLog.note) Honest (EndLog.start .plentiful) (sampleConnection ++
      [.segment 0 (sampleSegment 10 0x18 [1, 2, 3]), .recv 4 10,
        .segment 0 (sampleSegment 13 0x11 []), .recv 4 10]) := by
  refine end_of_stream_is_fin .plentiful _ ?_
  refine .cons trivial rfl (.cons trivial rfl (.cons trivial rfl ?_))
  refine .cons (fun s receives status push => absurd push (by decide)) rfl ?_
  refine .cons (fun s receives status push => absurd push (by decide)) rfl ?_
  refine .cons trivial rfl ?_
  refine .cons (fun s receives status push fin fresh takes => takes.1 (by decide)) rfl ?_
  refine .cons trivial rfl ?_
  refine .cons (fun s receives status push => absurd push (by decide)) rfl ?_
  exact ⟨trivial, fun _ _ => trivial⟩

/-- A push without payload and without FIN, and `nrecv` returns 0. -/
theorem blank_push_reported :
    ¬ Throughout (Machine.recorded EndLog.note) Honest (EndLog.start .plentiful)
      (sampleConnection ++ [.segment 0 (sampleSegment 10 0x18 []), .recv 4 10]) := by
  intro honest
  have last := honest _ [] (List.append_nil _) _ rfl
  exact absurd (last 4 List.mem_cons_self) List.not_mem_nil

end LinuxCpp.Ustack
