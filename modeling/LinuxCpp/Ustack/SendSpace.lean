import LinuxCpp.Ustack.Lifetimes
import LinuxCpp.Ustack.Receive

set_option autoImplicit false

/- The sequence numbers of what a connection sends. `snd_nxt` is written from the
acknowledgements of the peer alone, and no send moves it on; so the fragments of a
connection follow one another only if the peer has acknowledged all that was sent
before the next send. -/
namespace LinuxCpp.Ustack

open C Trace

/-- The sequence numbers that a fragment takes up. -/
def Fragment.span (f : Fragment) : UInt32 :=
  f.length + (if f.tcpFlags &&& tcpSynFlag = 0 then 0 else 1) +
    if f.tcpFlags &&& tcpFinFlag = 0 then 0 else 1

/-- The number behind the fragments. -/
def numberAfter (start : UInt32) (log : List Fragment) : UInt32 :=
  log.foldl (fun number f => number + f.span) start

/-- The first fragment has the number `start`, and each of the others the number behind
the one before it. -/
def Consecutive : UInt32 → List Fragment → Prop
  | _, [] => True
  | number, f :: rest => f.seqnum = number ∧ Consecutive (number + f.span) rest

theorem consecutive_append {start : UInt32} {log : List Fragment} {f : Fragment}
    (sofar : Consecutive start log) (next : f.seqnum = numberAfter start log) :
    Consecutive start (log ++ [f]) := by
  induction log generalizing start with
  | nil => exact ⟨next, trivial⟩
  | cons g rest ih => exact ⟨sofar.1, ih sofar.2 next⟩

/-- Of the stream with this block: its initial number, the last acknowledgement that
`snd_nxt` was taken from, and what `ng_tcp_handle_listen`, `nsend` and `nclose` have put
on its ring. -/
structure Sent where
  start : UInt32
  heard : Option UInt32
  log : List Fragment

def World.sendingOf (w : World) (addr : Nat) : List Fragment :=
  ((w.tcbSet.find? fun s => s.addr = addr).map Stream.sending).getD []

/-- The fragments that the event puts on the ring: a segment does so for a new stream,
apart from bare ACKs. -/
def newFragments (addr : Nat) (w : World) (e : Event) (w' : World) : List Fragment :=
  match e with
  | .segment _ _ => if w.tcbSet.any fun s => s.addr = addr then [] else w'.sendingOf addr
  | .send _ _ => (w'.sendingOf addr).drop (w.sendingOf addr).length
  | .close _ => (w'.sendingOf addr).drop (w.sendingOf addr).length
  | _ => []

/-- The number of a segment with PSH or FIN for the stream while it is established. -/
def acknowledged (addr : Nat) (w : World) : Event → Option UInt32
  | .segment _ seg =>
      match ngTcpStreamSearch w seg.srcAddr seg.dstAddr seg.srcPort seg.dstPort with
      | some s =>
          if seg.cksumOk ∧ s.addr = addr ∧ s.status = .established ∧
              (seg.has tcpPshFlag ∨ seg.has tcpFinFlag)
          then some seg.recvAck else none
      | none => none
  | _ => none

/-- The number that a stream made by the event begins with. -/
def Event.initial : Event → UInt32
  | .segment isn _ => isn
  | _ => 0

/-- The initial number is that of the event which hands out the block. -/
def Sent.note (addr : Nat) (m : Machine) (e : Event) (_ : Option Int) (m' : Machine) (g : Sent) :
    Sent where
  start := if m.heap.calls < addr then e.initial else g.start
  heard := (acknowledged addr m.world e).or g.heard
  log := g.log ++ newFragments addr m.world e m'.world

/-- The last acknowledgement is for all that was sent. -/
def Sent.UpToDate (g : Sent) : Prop := g.heard.getD g.start = numberAfter g.start g.log

/-- The stream of the descriptor has this block, and room on its ring. -/
def World.Queues (w : World) (fd : Int) (addr : Nat) (s : Stream) : Prop :=
  getHostinfoFromfd w fd = some (.stream s) ∧ s.addr = addr ∧
    ∃ r, s.sndbuf = some r ∧ r.entries.length < ringSize - 1

/-- A call that puts a fragment on the ring of the connection comes when all that was
sent before is acknowledged. -/
def Timely (addr : Nat) (d : Machine × Sent) : Event → Prop
  | .send fd _ => ∀ s, d.1.world.Queues fd addr s →
      d.1.heap.grants d.1.heap.calls = true ∧ d.1.heap.grants (d.1.heap.calls + 1) = true →
      d.2.UpToDate
  | .close fd => ∀ s, d.1.world.Queues fd addr s → s.status ≠ .listen →
      d.1.heap.grants d.1.heap.calls = true → d.2.UpToDate
  | _ => True

section Ring

variable {m m' : Machine} {e : Event} {ret : Option Int} {addr : Nat} {s t : Stream}

theorem sendingOf_mem (numbered : Numbered m) (member : s ∈ m.world.tcbSet) :
    m.world.sendingOf s.addr = s.sending := by
  unfold World.sendingOf
  cases found : m.world.tcbSet.find? fun t => t.addr = s.addr with
  | none => exact absurd (List.find?_eq_none.mp found s member) (by simp)
  | some t =>
      have same : t.addr = s.addr := by simpa using List.find?_some found
      cases numbered.unique member (List.mem_of_find?_eq_some found) same
      rfl

theorem sendingOf_absent {w : World} (absent : ∀ t ∈ w.tcbSet, t.addr ≠ addr) :
    w.sendingOf addr = [] := by
  have none_ : (w.tcbSet.find? fun t => t.addr = addr) = none := by
    simpa [List.find?_eq_none] using absent
  rw [World.sendingOf, none_]
  rfl

theorem drop_enqueue {r : Ring Fragment} {f : Fragment} :
    (r.enqueue f).entries.drop r.entries.length = [] ∨
      (r.entries.length < ringSize - 1 ∧ (r.enqueue f).entries.drop r.entries.length = [f]) := by
  unfold Ring.enqueue
  split
  · exact .inr ⟨‹_›, List.drop_left⟩
  · exact .inl List.drop_length

/-- What a new fragment of the connection can be: the SYN of a new stream, or one with
the number `snd_nxt`, sent when all before it was acknowledged. -/
def Follows (m : Machine) (addr : Nat) (e : Event) (g : Sent) (f : Fragment) : Prop :=
  (m.heap.calls < addr ∧ f.seqnum = e.initial) ∨
    ∃ s ∈ m.world.tcbSet, s.addr = addr ∧ f.seqnum = s.sndNxt ∧ g.UpToDate

theorem sending_next {g : Sent} (change : Change m e ret m') (numbered : Numbered m)
    (numbered' : Numbered m') (unborn : ∀ t, ¬ Born m e ret t)
    (appends : ∀ s t, s.addr = addr → Evolves m e ret s t → t.sending = s.sending ∨
      ∃ r f, s.sndbuf = some r ∧ t.sending = (r.enqueue f).entries ∧ f.seqnum = s.sndNxt ∧
        (r.entries.length < ringSize - 1 → g.UpToDate)) :
    (m'.world.sendingOf addr).drop (m.world.sendingOf addr).length = [] ∨
      ∃ f, (m'.world.sendingOf addr).drop (m.world.sendingOf addr).length = [f] ∧
        Follows m addr e g f := by
  by_cases present : ∃ s ∈ m.world.tcbSet, s.addr = addr
  · obtain ⟨s, member, rfl⟩ := present
    rw [sendingOf_mem numbered member]
    rcases change.before numbered member with same | ⟨t, at_t, evolves⟩ | ⟨-, gone⟩
    · rw [sendingOf_mem numbered' same]
      exact .inl List.drop_length
    · rw [← evolves.addr, sendingOf_mem numbered' at_t]
      rcases appends s t rfl evolves with same | ⟨r, f, ring, more, number, upToDate⟩
      · rw [same]
        exact .inl List.drop_length
      · have before : s.sending = r.entries := by rw [Stream.sending, ring]; rfl
        rw [more, before, evolves.addr]
        rcases drop_enqueue with none_ | ⟨room, one⟩
        · exact .inl none_
        · exact .inr ⟨f, one, .inr ⟨s, member, rfl, number, upToDate room⟩⟩
    · rw [sendingOf_absent gone]
      exact .inl List.drop_nil
  · have absent : ∀ t ∈ m'.world.tcbSet, t.addr ≠ addr := by
      intro t at_t same
      rcases change.after at_t with old | ⟨s, old, evolves⟩ | born
      · exact present ⟨t, old, same⟩
      · exact present ⟨s, old, evolves.addr.symm.trans same⟩
      · exact unborn t born
    rw [sendingOf_absent absent]
    exact .inl List.drop_nil

theorem newFragments_follows {g : Sent} (change : Change m e ret m') (numbered : Numbered m)
    (numbered' : Numbered m') (timely : Timely addr (m, g) e) :
    newFragments addr m.world e m'.world = [] ∨
      ∃ f, newFragments addr m.world e m'.world = [f] ∧ Follows m addr e g f := by
  cases e with
  | segment isn seg =>
      simp only [newFragments]
      split
      · exact .inl rfl
      · rename_i missing
        have absent : ∀ s ∈ m.world.tcbSet, s.addr ≠ addr := by simpa using missing
        by_cases present : ∃ t ∈ m'.world.tcbSet, t.addr = addr
        · obtain ⟨t, at_t, rfl⟩ := present
          rw [sendingOf_mem numbered' at_t]
          rcases change.after at_t with old | ⟨s, old, evolves⟩ | born
          · exact absurd rfl (absent t old)
          · exact absurd evolves.addr.symm (absent s old)
          · cases born with
            | syn receives listens block fd number status answer =>
                exact .inr ⟨_, answer, .inl ⟨by omega, number⟩⟩
            | half receives listens block fd number status answer => exact .inl answer
        · exact .inl (sendingOf_absent fun t at_t same => present ⟨t, at_t, same⟩)
  | send fd buf =>
      refine sending_next change numbered numbered' (fun _ born => nomatch born) ?_
      intro s t block evolves
      cases evolves with
      | sends named granted ring fragment =>
          exact .inr ⟨_, _, ring, rfl, fragment.seqnum, fun room =>
            timely s ⟨named, block, _, ring, room⟩ granted⟩
      | refused named => exact .inl rfl
  | close fd =>
      refine sending_next change numbered numbered' (fun _ born => nomatch born) ?_
      intro s t block evolves
      cases evolves with
      | closes named status granted ring fragment proper =>
          exact .inr ⟨_, _, ring, rfl, fragment.seqnum, fun room =>
            timely s ⟨named, block, _, ring, room⟩ status granted⟩
  | socket | bind | listen | accept | recv | recvfrom | sendto | out => exact .inl rfl

end Ring

/-- `snd_nxt` is the last number acknowledged, or the initial one, and the fragments so
far are consecutive. -/
structure Spaced (addr : Nat) (d : Machine × Sent) : Prop where
  numbered : Numbered d.1
  unborn : d.1.heap.calls < addr → d.2.heard = none ∧ d.2.log = []
  next : ∀ s ∈ d.1.world.tcbSet, s.addr = addr → s.sndNxt = d.2.heard.getD d.2.start
  consecutive : Consecutive d.2.start d.2.log

section Steps

variable {m m' : Machine} {e : Event} {ret : Option Int} {addr : Nat} {s t : Stream}

theorem acknowledged_receives {isn : UInt32} {seg : Segment} (receives : Receives m.world seg s) :
    acknowledged addr m.world (.segment isn seg) =
      if s.addr = addr ∧ s.status = .established ∧ (seg.has tcpPshFlag ∨ seg.has tcpFinFlag)
      then some seg.recvAck else none := by
  simp only [acknowledged, receives.2, receives.1, true_and]

/-- A stream that is written has its number from the segment, if there is one. -/
theorem Evolves.sndNxt (evolves : Evolves m e ret s t) :
    t.sndNxt = (acknowledged s.addr m.world e).getD s.sndNxt := by
  cases evolves with
  | established receives status acks =>
      rw [acknowledged_receives receives, if_neg (by simp [status])]
      rfl
  | heard receives status =>
      rw [acknowledged_receives receives]
      simp only [Segment.sets, status, true_and]
      split <;> rfl
  | bound | listens | accepted | sends | refused | reads | closes | out => rfl

/-- An established stream that receives a segment is written. -/
theorem Change.heard {isn : UInt32} {seg : Segment} (change : Change m (.segment isn seg) ret m')
    (receives : Receives m.world seg s) (open_ : s.status = .established) :
    ∃ t ∈ m'.world.tcbSet, Evolves m (.segment isn seg) ret s t := by
  -- only one stream receives the segment
  have other {u : Stream} (received : Receives m.world seg u) (status : u.status ≠ .established) :
      False := by
    cases receives.2.symm.trans received.2
    exact status open_
  cases change with
  | still quiet => exact absurd open_ (quiet s receives)
  | write member evolves streams hosts =>
      have written := put_mem member evolves.addr
      rw [← streams] at written
      cases evolves with
      | established received status => exact (other received (by rw [status]; decide)).elim
      | heard received status =>
          cases receives.2.symm.trans received.2
          exact ⟨_, written, .heard receives status⟩
  | add born =>
      cases born with
      | syn received status => exact (other received (by rw [status]; decide)).elim
      | half received status => exact (other received (by rw [status]; decide)).elim
  | remove member dies =>
      cases dies with
      | acked received status => exact (other received (by rw [status]; decide)).elim
  | addHost call => cases call
  | writeHost call => cases call
  | removeHost call => cases call

theorem receives_of_acknowledged {n : UInt32} (number : acknowledged addr m.world e = some n) :
    ∃ isn seg s, e = .segment isn seg ∧ Receives m.world seg s ∧ s.addr = addr ∧
      s.status = .established := by
  cases e with
  | segment isn seg =>
      simp only [acknowledged] at number
      split at number
      · rename_i s found
        split at number
        · rename_i heard
          obtain ⟨correct, own, open_, -⟩ := heard
          exact ⟨isn, seg, s, rfl, ⟨correct, found⟩, own, open_⟩
        · cases number
      · cases number
  | socket | bind | listen | accept | send | recv | recvfrom | sendto | close | out =>
      cases number

/-- The number of a stream before the event and after it. -/
theorem Change.sndNxt (change : Change m e ret m') (numbered : Numbered m)
    (numbered' : Numbered m') (member : s ∈ m.world.tcbSet) (at_t : t ∈ m'.world.tcbSet)
    (block : t.addr = s.addr) : t.sndNxt = (acknowledged s.addr m.world e).getD s.sndNxt := by
  rcases change.before numbered member with same | ⟨u, at_u, evolves⟩ | ⟨-, gone⟩
  · cases numbered'.unique same at_t block
    cases number : acknowledged s.addr m.world e with
    | none => rfl
    | some n =>
        obtain ⟨isn, seg, u, rfl, receives, own, open_⟩ := receives_of_acknowledged number
        cases numbered.unique member (mem_of_search receives.2) own
        obtain ⟨v, at_v, evolves⟩ := change.heard receives open_
        cases numbered'.unique at_t at_v evolves.addr
        rw [← number]
        exact evolves.sndNxt
  · cases numbered'.unique at_u at_t (block.trans evolves.addr.symm)
    exact evolves.sndNxt
  · exact absurd block (gone t at_t)

theorem newFragments_absent {w w' : World} (absent : ∀ t ∈ w'.tcbSet, t.addr ≠ addr) :
    newFragments addr w e w' = [] := by
  have nothing := sendingOf_absent absent
  cases e with
  | segment isn seg =>
      simp only [newFragments]
      split
      · rfl
      · exact nothing
  | send | close => simp only [newFragments, nothing, List.drop_nil]
  | socket | bind | listen | accept | recv | recvfrom | sendto | out => rfl

theorem Born.sndNxt (born : Born m e ret s) : s.sndNxt = e.initial := by
  cases born with
  | syn receives listens block fd number => exact number
  | half receives listens block fd number => exact number
  | socket block named number => exact number

/-- Before the block is handed out nothing is acknowledged. -/
theorem acknowledged_young (numbered : Numbered m) (young : m.heap.calls < addr) :
    acknowledged addr m.world e = none := by
  cases number : acknowledged addr m.world e with
  | none => rfl
  | some n =>
      obtain ⟨isn, seg, s, rfl, receives, own, -⟩ := receives_of_acknowledged number
      have issued := numbered.issued (mem_of_search receives.2)
      omega

variable {g : Sent}

theorem Spaced.next_after (spaced : Spaced addr (m, g)) (change : Change m e ret m')
    (numbered' : Numbered m') (member : t ∈ m'.world.tcbSet) (block : t.addr = addr) :
    t.sndNxt = (g.note addr m e ret m').heard.getD (g.note addr m e ret m').start := by
  have numbered : Numbered m := spaced.numbered
  by_cases present : ∃ s ∈ m.world.tcbSet, s.addr = addr
  · obtain ⟨s, old, own⟩ := present
    have issued := numbered.issued old
    have before : s.sndNxt = g.heard.getD g.start := spaced.next s old own
    rw [change.sndNxt numbered numbered' old member (block.trans own.symm), own, before]
    simp only [Sent.note, if_neg (show ¬ m.heap.calls < addr by omega)]
    cases acknowledged addr m.world e <;> rfl
  · rcases change.after member with old | ⟨s, old, evolves⟩ | born
    · exact absurd ⟨t, old, block⟩ present
    · exact absurd ⟨s, old, evolves.addr.symm.trans block⟩ present
    · have fresh := born.block
      have young : m.heap.calls < addr := by omega
      have silent : g.heard = none := (spaced.unborn young).1
      simp only [Sent.note, acknowledged_young numbered young, silent, if_pos young]
      exact born.sndNxt

theorem Spaced.consecutive_after (spaced : Spaced addr (m, g)) (change : Change m e ret m')
    (numbered' : Numbered m') (timely : Timely addr (m, g) e) :
    Consecutive (g.note addr m e ret m').start (g.note addr m e ret m').log := by
  have numbered : Numbered m := spaced.numbered
  have nothing (young : m.heap.calls < addr) : g.log = [] := (spaced.unborn young).2
  rcases newFragments_follows change numbered numbered' timely with none_ | ⟨f, one, follows⟩
  · simp only [Sent.note, none_, List.append_nil]
    split
    · rw [nothing ‹_›]
      trivial
    · exact spaced.consecutive
  · simp only [Sent.note, one]
    rcases follows with ⟨young, number⟩ | ⟨s, member, own, number, upToDate⟩
    · rw [if_pos young, nothing young]
      exact ⟨number, trivial⟩
    · have issued := numbered.issued member
      rw [if_neg (by omega)]
      apply consecutive_append spaced.consecutive
      exact number.trans ((spaced.next s member own).trans upToDate)

theorem Spaced.step {d d' : Machine × Sent} (spaced : Spaced addr d) (timely : Timely addr d e)
    (ran : Machine.recorded (Sent.note addr) d e = .ok d') : Spaced addr d' := by
  obtain ⟨ret, acted, record⟩ := Machine.recorded_ok ran
  have change := Machine.act_change acted
  have later := (Machine.act_later acted).calls
  have numbered' := spaced.numbered.act acted
  refine ⟨numbered', fun young => ?_, fun t member block => ?_, ?_⟩ <;> rw [record]
  · have young' : d.1.heap.calls < addr := by omega
    obtain ⟨heard, log⟩ := spaced.unborn young'
    have absent : ∀ t ∈ d'.1.world.tcbSet, t.addr ≠ addr := by
      intro t member block
      have issued := numbered'.issued member
      omega
    have silent := acknowledged_young (e := e) spaced.numbered young'
    simp only [Sent.note, silent, heard, log, newFragments_absent absent]
    exact ⟨rfl, rfl⟩
  · exact spaced.next_after change numbered' member block
  · exact spaced.consecutive_after change numbered' timely

end Steps

/-- In every state that a run from the empty stack reaches in which each send of the
connection is timely, what the connection has sent is consecutive. -/
theorem consecutive_of_timely (A : Allocator) (addr : Nat) (events : List Event)
    (timely : Along (Machine.recorded (Sent.note addr)) (Timely addr)
      (⟨World.empty, A⟩, ⟨0, none, []⟩) events) (d : Machine × Sent)
    (ran : runs (Machine.recorded (Sent.note addr)) (⟨World.empty, A⟩, ⟨0, none, []⟩) events =
      .ok d) : Consecutive d.2.start d.2.log := by
  have start : Spaced addr (⟨World.empty, A⟩, ⟨0, none, []⟩) :=
    ⟨.empty A, fun _ => ⟨rfl, rfl⟩, fun _ member => absurd member List.not_mem_nil, trivial⟩
  have spaced := timely.invariant (Spaced addr) start
    (fun _ _ _ spaced meets stepped => spaced.step meets stepped) ran
  exact spaced.consecutive

/-- The client acknowledges the SYN 99 with its data, and then a byte is sent to it. -/
theorem consecutive_of_timely_reply : ∃ d : Machine × Sent,
    runs (Machine.recorded (Sent.note 4)) (⟨World.empty, .plentiful⟩, ⟨0, none, []⟩)
      [.socket .stream, .bind 3 3 4, .listen 3, .segment 99 (sampleSegment 9 0x02 []),
        .segment 0 (sampleSegment 10 0x10 []), .segment 0 (sampleSegment 10 0x18 [97]), .accept 3,
        .send 4 [120]] = .ok d ∧
    d.2.log.map Fragment.seqnum = [99, 100] ∧ Consecutive d.2.start d.2.log := by
  refine ⟨_, rfl, rfl, ?_⟩
  refine consecutive_of_timely .plentiful 4 [.socket .stream, .bind 3 3 4, .listen 3,
    .segment 99 (sampleSegment 9 0x02 []), .segment 0 (sampleSegment 10 0x10 []),
    .segment 0 (sampleSegment 10 0x18 [97]), .accept 3, .send 4 [120]] ?_ _ rfl
  refine .cons trivial rfl ?_
  refine .cons trivial rfl ?_
  refine .cons trivial rfl ?_
  refine .cons trivial rfl ?_
  refine .cons trivial rfl ?_
  refine .cons trivial rfl ?_
  refine .cons trivial rfl ?_
  exact ⟨fun s queues granted => rfl, fun _ _ => trivial⟩

/-- A byte sent right behind the handshake has the number of the SYN. -/
theorem send_reuses_number : ∃ d : Machine × Sent,
    runs (Machine.recorded (Sent.note 4)) (⟨World.empty, .plentiful⟩, ⟨0, none, []⟩)
      [.socket .stream, .bind 3 3 4, .listen 3, .segment 99 (sampleSegment 9 0x02 []),
        .segment 0 (sampleSegment 10 0x10 []), .accept 3, .send 4 [120]] = .ok d ∧
    d.2.log.map Fragment.seqnum = [99, 99] ∧ d.2.start = 99 ∧
      ¬ Consecutive d.2.start d.2.log := by
  refine ⟨_, rfl, rfl, rfl, fun consecutive => ?_⟩
  exact absurd consecutive.2.1 (by decide)

end LinuxCpp.Ustack
