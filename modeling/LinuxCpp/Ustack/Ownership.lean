import LinuxCpp.Trace.Along
import LinuxCpp.Ustack.Mbufs
import LinuxCpp.Ustack.Treatment
import Mathlib.Data.List.Perm.Subperm

set_option autoImplicit false

/- Which steps keep every mbuf in one place until it is given back once. -/
namespace LinuxCpp.Ustack

open C Trace

/-- An ARP reply to the local address. -/
def IsArpReply (bytes : List UInt8) : Prop :=
  field16 bytes etherType = ntohs rteEtherTypeArp ∧ field32 bytes arpTip = gLocalIp ∧
    field16 bytes arpOpcode = ntohs rteArpOpReply

/-- An ICMP echo request, whatever its destination. -/
def IsEchoRequest (bytes : List UInt8) : Prop :=
  field16 bytes etherType = ntohs rteEtherTypeIpv4 ∧ field8 bytes ipNextProtoId = ipprotoIcmp ∧
    field8 bytes icmpType = rteIpIcmpEchoRequest

/-- There is a place on `ring->out`. -/
def Stack.Room (s : Stack) : Prop := s.outRing.length < ringSize - 1

/-- The steps that neither lose an mbuf nor give one back twice. -/
def Stack.Clean (s : Stack) : Action → Prop
  | .rx frames => frames.length ≤ ringSize - 1 - s.inRing.length
  | .tx accepted => accepted = 0 ∨ s.outRing = []
  | .process _ _ => ∀ rx, s.mbufs.head? = some rx →
      IsArpReply rx.bytes ∨ IsEchoRequest rx.bytes ∧ s.Room
  | .udpOut host _ _ _ => ∀ h, (s.world.lhost.find? fun h => h.addr = host) = some h →
      h.sndbuf.entries ≠ [] → s.Room
  | .tcpOut stream _ => ∀ t, (s.world.tcbSet.find? fun t => t.addr = stream) = some t →
      ∀ r, t.sndbuf = some r → r.entries ≠ [] → s.Room
  | _ => True

section Steps

variable {K : Cksums} {behind : Offload → List UInt8} {s s' : Stack}

theorem enqueueBurst_map {α β : Type} (g : α → β) (ring entries : List α) :
    (enqueueBurst ring entries).map g =
      ring.map g ++ (entries.map g).take (ringSize - 1 - ring.length) := by
  unfold enqueueBurst
  rw [List.map_append, List.map_take]

/-- When some mbufs have left, the new one finds its place or is lost. -/
theorem put_iff {gone : List Nat} {fates : Nat → Fate}
    (custody : Custody s.obtained (gone ++ s.held) fates)
    (others : ∀ id ∉ gone, s.fates id = fates id) :
    s.put.Owned ↔ (∀ id ∈ gone, s.fates id = .settled) ∧ s.Room := by
  let placed := [s.obtained].take (ringSize - 1 - s.outRing.length)
  have held : s.put.held = s.held ++ placed := (List.append_assoc ..).symm
  have new (id : Nat) (member : id ∈ placed) : s.obtained ≤ id ∧ id < s.obtained + 1 := by
    have same := List.mem_singleton.mp (List.mem_of_mem_take member)
    omega
  have once : placed.Nodup := (List.nodup_singleton s.obtained).sublist (List.take_sublist _ _)
  have step : Custody (s.obtained + 1) (s.held ++ placed) s.fates ↔ _ :=
    custody.step_iff others new once
  show Custody (s.obtained + 1) s.put.held s.fates ↔ _
  rw [held, step]
  refine and_congr Iff.rfl ?_
  unfold Stack.Room
  constructor
  · intro found
    by_contra full
    have none_ : ringSize - 1 - s.outRing.length = 0 := by omega
    have member := found s.obtained (Nat.le_refl _) (Nat.lt_succ_self _)
    simp only [placed, none_] at member
    exact List.not_mem_nil member
  · intro room id lower upper
    have whole : placed = [s.obtained] :=
      List.take_of_length_le (by rw [List.length_singleton]; omega)
    rw [whole, List.mem_singleton]
    omega

theorem put_owned_iff (owned : s.Owned) : s.put.Owned ↔ s.Room := by
  have custody : Custody s.obtained ([] ++ s.held) s.fates := owned
  rw [put_iff custody fun _ _ => rfl]
  exact and_iff_right fun id member => absurd member List.not_mem_nil

theorem rx_owned_iff (owned : s.Owned) {frames : List (List UInt8)}
    (ran : s.rx frames = .ok s') : s'.Owned ↔ s.Clean (.rx frames) := by
  unfold Stack.rx at ran
  split at ran
  · cases ran
  · cases ran
    let places := ringSize - 1 - s.inRing.length
    let fresh := List.range' s.obtained frames.length
    have numbers : (frames.zipIdx.map fun frame =>
        (⟨s.obtained + frame.2, frame.1⟩ : RxMbuf)).map RxMbuf.mbuf = fresh := by
      rw [List.map_map]
      show frames.zipIdx.map ((s.obtained + ·) ∘ Prod.snd) = _
      rw [← List.map_map, List.zipIdx_map_snd, List.map_add_range']
      rfl
    have new (id : Nat) (member : id ∈ fresh.take places) :
        s.obtained ≤ id ∧ id < s.obtained + frames.length :=
      List.mem_range'_1.mp (List.mem_of_mem_take member)
    have once : (fresh.take places).Nodup :=
      (List.nodup_range' 1).sublist (List.take_sublist _ _)
    have step : Custody (s.obtained + frames.length) (s.held ++ fresh.take places) s.fates ↔
        (∀ id ∈ [], s.fates id = .settled) ∧
        ∀ id, s.obtained ≤ id → id < s.obtained + frames.length → id ∈ fresh.take places :=
      Custody.step_iff owned (fun _ _ => rfl) new once
    have arranged : (((s.inRing.map RxMbuf.mbuf ++ fresh.take places) ++ s.mbufs.map RxMbuf.mbuf) ++
        s.outRing).Perm (s.held ++ fresh.take places) := by
      unfold Stack.held
      rw [List.perm_iff_count]
      intro id
      simp only [List.count_append]
      omega
    show Custody (s.obtained + frames.length) (((enqueueBurst s.inRing _).map RxMbuf.mbuf ++
      s.mbufs.map RxMbuf.mbuf) ++ s.outRing) s.fates ↔ _
    rw [enqueueBurst_map, numbers]
    constructor
    · intro after
      have all := (step.mp (after.perm arranged)).2
      have inside : fresh ⊆ fresh.take places := fun id member =>
        all id (List.mem_range'_1.mp member).1 (List.mem_range'_1.mp member).2
      have lengths := ((List.nodup_range' 1).subperm inside).length_le
      rw [List.length_take, List.length_range'] at lengths
      exact Nat.le_trans lengths (Nat.min_le_left _ _)
    · intro room
      have whole : fresh.take places = fresh :=
        List.take_of_length_le (by rw [List.length_range']; exact room)
      refine (step.mpr ⟨fun id member => absurd member List.not_mem_nil, ?_⟩).perm arranged.symm
      intro id lower upper
      rw [whole]
      exact List.mem_range'_1.mpr ⟨lower, upper⟩

theorem release_fold (fates : Nat → Fate) (ids : List Nat) (id : Nat) :
    ids.foldl Stack.release fates id =
      { fates id with releases := (fates id).releases + ids.count id } := by
  induction ids generalizing fates with
  | nil => rfl
  | cons first rest ih =>
      rw [List.foldl_cons, ih, Stack.release]
      by_cases same : first = id
      · rw [same, Function.update_self, List.count_cons_self]
        show (⟨(fates id).releases + 1 + rest.count id, _⟩ : Fate) =
          ⟨(fates id).releases + (rest.count id + 1), _⟩
        rw [Nat.add_assoc, Nat.add_comm 1]
      · rw [Function.update_of_ne (Ne.symm same), List.count_cons_of_ne same]

theorem tx_owned_iff (owned : s.Owned) (accepted : Nat) :
    (s.tx accepted).Owned ↔ s.Clean (.tx accepted) := by
  let gone := s.outRing.take burstSize
  let held := s.inRing.map RxMbuf.mbuf ++ s.mbufs.map RxMbuf.mbuf ++ s.outRing.drop burstSize
  have arranged : s.held.Perm (gone ++ held) := by
    unfold Stack.held
    conv_lhs => rw [← List.take_append_drop burstSize s.outRing]
    rw [List.perm_iff_count]
    intro id
    simp only [gone, held, List.count_append]
    omega
  have custody : Custody s.obtained (gone ++ held) s.fates := Custody.perm owned arranged
  have once : gone.Nodup := (List.nodup_append.mp custody.once).1
  have fate (id : Nat) : (s.tx accepted).fates id = { s.fates id with
      releases := (s.fates id).releases + (gone.take accepted).count id + gone.count id } := by
    show gone.foldl Stack.release ((gone.take accepted).foldl Stack.release s.fates) id = _
    rw [release_fold, release_fold]
  have others (id : Nat) (outside : id ∉ gone) : (s.tx accepted).fates id = s.fates id := by
    rw [fate, List.count_eq_zero_of_not_mem outside,
      List.count_eq_zero_of_not_mem fun member => outside (List.mem_of_mem_take member)]
    rfl
  have settled (id : Nat) (member : id ∈ gone) :
      (s.tx accepted).fates id = .settled ↔ (gone.take accepted).count id = 0 := by
    rw [fate, custody.kept id (List.mem_append_left _ member),
      List.count_eq_one_of_mem once member]
    simp [Fate.kept, Fate.settled]
  show Custody s.obtained held _ ↔ _
  rw [custody.give_iff others]
  constructor
  · intro all
    by_contra both
    rw [Stack.Clean, not_or] at both
    obtain ⟨first, rest, ring⟩ := List.exists_cons_of_ne_nil both.2
    obtain ⟨k, rfl⟩ := Nat.exists_eq_succ_of_ne_zero both.1
    have front : gone = first :: rest.take (burstSize - 1) := by
      show s.outRing.take burstSize = _
      rw [ring]
      rfl
    have member : first ∈ gone := front ▸ List.mem_cons_self
    have none_ := (settled first member).mp (all first member)
    rw [front, List.take_succ_cons, List.count_cons_self] at none_
    cases none_
  · rintro (none_ | empty) id member
    · rw [settled id member, none_]
      rfl
    · have nothing : gone = [] := by
        show s.outRing.take burstSize = []
        rw [empty, List.take_nil]
      exact absurd (nothing ▸ member) List.not_mem_nil

theorem arpRequests_owned {i free : Nat} (owned : s.Owned)
    (ran : Stack.arpRequests i free s = .ok s') : s'.Owned := by
  induction i generalizing free s with
  | zero =>
      cases ran
      exact owned
  | succ i ih =>
      obtain _ | free := free
      · cases ran
      · unfold Stack.arpRequests at ran
        split at ran
        · rename_i room
          exact ih ((put_owned_iff owned).mpr room) ran
        · refine ih ?_ ran
          have settled : Stack.release s.fates s.obtained =
              Function.update s.fates s.obtained .settled := by
            unfold Stack.release
            rw [owned.unborn s.obtained (Nat.le_refl _)]
            rfl
          show Custody (s.obtained + 1) s.held (Stack.release s.fates s.obtained)
          rw [settled]
          exact Custody.pass owned

theorem dequeue_owned (owned : s.Owned) : s.dequeue.Owned := by
  unfold Stack.dequeue
  split
  · rename_i empty
    apply Custody.perm owned
    unfold Stack.held
    rw [List.perm_iff_count]
    intro id
    conv_lhs => rw [← List.take_append_drop burstSize s.inRing]
    simp only [empty, List.map_append, List.map_nil, List.count_append, List.count_nil]
    omega
  · exact owned

theorem allocPut_owned_iff (owned : s.Owned) {free : Nat} (ran : s.allocPut free = .ok s') :
    s'.Owned ↔ s.Room := by
  unfold Stack.allocPut at ran
  split at ran
  · cases ran
  · cases ran
    exact put_owned_iff owned

theorem treatment_clean_iff {bytes : List UInt8} {room : Prop} :
    (Treatment.of bytes).frees = 1 ∧ (Treatment.of bytes).late = false ∧
        ((Treatment.of bytes).answers = true → room) ↔
      IsArpReply bytes ∨ IsEchoRequest bytes ∧ room := by
  have types : ntohs rteEtherTypeArp ≠ ntohs rteEtherTypeIpv4 := by decide
  have protos : ipprotoUdp ≠ ipprotoIcmp := by decide
  have opcodes : ntohs rteArpOpRequest ≠ ntohs rteArpOpReply := by decide
  unfold IsArpReply IsEchoRequest Treatment.of Treatment.arp Treatment.ip Treatment.ignored
  generalize field16 bytes etherType = type, field32 bytes arpTip = tip,
    field16 bytes arpOpcode = opcode, field8 bytes ipNextProtoId = proto,
    field8 bytes icmpType = icmp
  by_cases arp : type = ntohs rteEtherTypeArp
  · by_cases here : tip = gLocalIp
    · by_cases request : opcode = ntohs rteArpOpRequest
      · simp [arp, here, request, types, opcodes]
      · by_cases answer : opcode = ntohs rteArpOpReply
        · simp [arp, here, answer, opcodes.symm]
        · simp [arp, here, request, answer, types]
    · simp [arp, here, types]
  · by_cases ip : type = ntohs rteEtherTypeIpv4
    · by_cases udp : proto = ipprotoUdp
      · simp [ip, types.symm, udp, protos]
      · by_cases echo : proto = ipprotoIcmp ∧ icmp = rteIpIcmpEchoRequest
        · simp [ip, types.symm, protos.symm, echo]
        · simp [ip, types.symm, udp, echo]
    · simp [arp, ip]

/-- The first mbuf of the burst has been processed, but for the answer. -/
def Stack.treated (s : Stack) (rx : RxMbuf) (later : List RxMbuf) (w : World) (heap : Allocator)
    (arp : List ArpEntry) : Stack :=
  { s with
    world := w
    heap := heap
    arp := arp
    mbufs := later
    fates := Function.update s.fates rx.mbuf
      ⟨(Treatment.of rx.bytes).frees, (Treatment.of rx.bytes).late⟩ }

theorem process_cons {isn : UInt32} {free : Nat} {rx : RxMbuf} {later : List RxMbuf}
    (waiting : s.mbufs = rx :: later) (kept : s.fates rx.mbuf = .kept)
    (ran : s.process K isn free = .ok s') :
    ∃ w heap arp, s' = if (Treatment.of rx.bytes).answers then
      (s.treated rx later w heap arp).put else s.treated rx later w heap arp := by
  unfold Stack.process at ran
  rw [waiting] at ran
  simp only [kept, Fate.kept] at ran
  obtain ⟨⟨⟨⟨w, arp, reply⟩, m⟩, heap⟩, run, ran⟩ := ok_of_bind ran
  obtain ⟨same, answers⟩ :=
    (pktProcess_ends K isn free s.world s.arp rx.bytes).of_ok _ _ _ _ run
  subst same
  refine ⟨w, heap, arp, ?_⟩
  rw [← answers]
  cases reply with
  | none =>
      cases ran
      rfl
  | some reply =>
      cases ran
      rfl

theorem process_owned_iff (owned : s.Owned) {isn : UInt32} {free : Nat}
    (ran : s.process K isn free = .ok s') : s'.Owned ↔ s.Clean (.process isn free) := by
  show s'.Owned ↔ ∀ rx, s.mbufs.head? = some rx →
    IsArpReply rx.bytes ∨ IsEchoRequest rx.bytes ∧ s.Room
  cases waiting : s.mbufs with
  | nil =>
      unfold Stack.process at ran
      rw [waiting] at ran
      cases ran
      exact ⟨fun _ rx none_ => (by cases none_), fun _ => owned⟩
  | cons rx later =>
      have arranged : s.held.Perm ([rx.mbuf] ++ (s.inRing.map RxMbuf.mbuf ++
          later.map RxMbuf.mbuf ++ s.outRing)) := by
        unfold Stack.held
        rw [List.perm_iff_count]
        intro id
        simp only [waiting, List.map_cons, List.count_append, List.count_cons, List.count_nil]
        omega
      have custody := Custody.perm owned arranged
      have kept := custody.kept rx.mbuf (List.mem_append_left _ List.mem_cons_self)
      obtain ⟨w, heap, arp, rfl⟩ := process_cons waiting kept ran
      have others (id : Nat) (outside : id ∉ [rx.mbuf]) :
          (s.treated rx later w heap arp).fates id = s.fates id :=
        Function.update_of_ne (fun equal => outside (List.mem_singleton.mpr equal)) ..
      have given : (∀ id ∈ [rx.mbuf], (s.treated rx later w heap arp).fates id = .settled) ↔
          (Treatment.of rx.bytes).frees = 1 ∧ (Treatment.of rx.bytes).late = false := by
        simp only [List.mem_singleton, forall_eq, Stack.treated, Function.update_self,
          Fate.settled, Fate.mk.injEq]
      simp only [List.head?_cons, Option.some.injEq, forall_eq']
      rw [← treatment_clean_iff, ← and_assoc, ← given]
      split
      · rename_i answers
        have room : ((Treatment.of rx.bytes).answers = true → s.Room) ↔ s.Room :=
          ⟨fun room => room answers, fun room _ => room⟩
        rw [room]
        exact put_iff custody others
      · rename_i silent
        rw [and_iff_left fun answers => absurd answers silent]
        exact custody.give_iff others

theorem udpOutHost_nothing {room : List UInt8} {localmac : Mac} {arp : List ArpEntry}
    {h h' : Host} {out : UdpOut} (ran : udpOutHost K behind room localmac arp h = .ok (out, h')) :
    out = .nothing ↔ h.sndbuf.entries = [] := by
  unfold udpOutHost at ran
  cases queued : h.sndbuf.entries with
  | nil =>
      rw [queued] at ran
      cases ran
      simp
  | cons ol waiting =>
      rw [queued] at ran
      dsimp only at ran
      cases known : ngGetDstMacaddr arp ol.dip with
      | none =>
          rw [known] at ran
          cases ran
          simp
      | some dstmac =>
          rw [known] at ran
          obtain ⟨frame, -, returned⟩ := ok_of_bind ran
          cases returned
          simp

theorem udpOut_owned_iff (owned : s.Owned) {host : Nat} {localmac : Mac} {room : List UInt8}
    {free : Nat} (ran : s.udpOut K behind host localmac room free = .ok s') :
    s'.Owned ↔ s.Clean (.udpOut host localmac room free) := by
  unfold Stack.udpOut at ran
  show s'.Owned ↔ ∀ h, (s.world.lhost.find? fun h => h.addr = host) = some h →
    h.sndbuf.entries ≠ [] → s.Room
  cases found : s.world.lhost.find? fun h => h.addr = host with
  | none =>
      rw [found] at ran
      cases ran
      exact ⟨fun _ h none_ => (by cases none_), fun _ => owned⟩
  | some h =>
      rw [found] at ran
      dsimp only at ran
      simp only [Option.some.injEq, forall_eq']
      obtain ⟨⟨out, h'⟩, built, ran⟩ := ok_of_bind ran
      have nothing := udpOutHost_nothing built
      have owned' : Stack.Owned { s with world := s.world.putHost h' } := owned
      by_cases empty : out = .nothing
      · subst empty
        cases ran
        exact ⟨fun _ some_ => absurd (nothing.mp rfl) some_, fun _ => owned'⟩
      · have put : Stack.allocPut { s with world := s.world.putHost h' } free = .ok s' := by
          cases out with
          | nothing => exact absurd rfl empty
          | arpRequest sip dip => exact ran
          | frame bytes => exact ran
        rw [allocPut_owned_iff owned' put]
        exact ⟨fun room _ => room, fun all => all fun none_ => empty (nothing.mpr none_)⟩

theorem ngTcpOutStream_nothing (arp : List ArpEntry) (t : Stream) :
    (ngTcpOutStream arp t).1 = [] ↔ ∀ r, t.sndbuf = some r → r.entries = [] := by
  unfold ngTcpOutStream
  cases ring : t.sndbuf with
  | none => simp
  | some r =>
      cases queued : r.entries with
      | nil => simp [queued]
      | cons fragment waiting =>
          simp only [queued, Option.some.injEq, forall_eq', reduceCtorEq, iff_false]
          cases ngGetDstMacaddr arp t.sip <;> simp

theorem tcpOut_owned_iff (owned : s.Owned) {stream free : Nat}
    (ran : s.tcpOut stream free = .ok s') : s'.Owned ↔ s.Clean (.tcpOut stream free) := by
  unfold Stack.tcpOut at ran
  show s'.Owned ↔ ∀ t, (s.world.tcbSet.find? fun t => t.addr = stream) = some t →
    ∀ r, t.sndbuf = some r → r.entries ≠ [] → s.Room
  cases found : s.world.tcbSet.find? fun t => t.addr = stream with
  | none =>
      rw [found] at ran
      cases ran
      exact ⟨fun _ t none_ => (by cases none_), fun _ => owned⟩
  | some t =>
      rw [found] at ran
      dsimp only at ran
      simp only [Option.some.injEq, forall_eq']
      have nothing := ngTcpOutStream_nothing s.arp t
      have owned' : Stack.Owned { s with world := s.world.put (ngTcpOutStream s.arp t).2 } := owned
      by_cases empty : (ngTcpOutStream s.arp t).1 = []
      · rw [empty] at ran
        cases ran
        exact ⟨fun _ r ring some_ => absurd (nothing.mp empty r ring) some_, fun _ => owned'⟩
      · have put : Stack.allocPut { s with world := s.world.put (ngTcpOutStream s.arp t).2 } free =
            .ok s' := by
          cases packets : (ngTcpOutStream s.arp t).1 with
          | nil => exact absurd packets empty
          | cons packet rest =>
              rw [packets] at ran
              exact ran
        rw [allocPut_owned_iff owned' put]
        constructor
        · exact fun room _ _ _ => room
        · intro all
          by_contra full
          refine empty (nothing.mpr fun r ring => ?_)
          by_contra some_
          exact full (all r ring some_)

theorem call_owned (owned : s.Owned) {e : Event} (ran : s.call e = .ok s') : s'.Owned := by
  have stepped (ran : (do
      let m ← Machine.step ⟨s.world, s.heap⟩ e
      return { s with world := m.world, heap := m.heap } : Except Fault Stack) = .ok s') :
      s'.Owned := by
    obtain ⟨m, -, returned⟩ := ok_of_bind ran
    cases returned
    exact owned
  unfold Stack.call at ran
  split at ran
  · cases ran
    exact owned
  · cases ran
    exact owned
  · exact stepped ran

/-- A step keeps every mbuf accounted for exactly if it is clean. -/
theorem step_owned_iff (owned : s.Owned) {a : Action} (ran : s.step K behind a = .ok s') :
    s'.Owned ↔ s.Clean a := by
  cases a with
  | rx frames => exact rx_owned_iff owned ran
  | tx accepted =>
      cases ran
      exact tx_owned_iff owned accepted
  | timer free => exact ⟨fun _ => trivial, fun _ => arpRequests_owned owned ran⟩
  | dequeue =>
      cases ran
      exact ⟨fun _ => trivial, fun _ => dequeue_owned owned⟩
  | process isn free => exact process_owned_iff owned ran
  | udpOut host localmac room free => exact udpOut_owned_iff owned ran
  | tcpOut stream free => exact tcpOut_owned_iff owned ran
  | call e => exact ⟨fun _ => trivial, fun _ => call_owned owned ran⟩

end Steps

/-- In a run of the stack, every mbuf is in one place until it is given back once, and not read
after that, exactly if each step is clean. -/
theorem owned_throughout_iff (K : Cksums) (behind : Offload → List UInt8) (A : Allocator)
    (actions : List Action) (last : Stack)
    (ran : runs (Stack.step K behind) (.start A) actions = .ok last) :
    Throughout (Stack.step K behind) Stack.Owned (.start A) actions ↔
      Along (Stack.step K behind) Stack.Clean (.start A) actions :=
  throughout_iff Stack.Owned (fun _ _ _ owned stepped => step_owned_iff owned stepped)
    Custody.start ran

/-- An ARP packet for the local address. -/
def arpFrame (opcode : UInt8) : List UInt8 :=
  List.replicate 12 0 ++ [0x08, 0x06, 0, 1, 0x08, 0, 6, 4, 0, opcode] ++ List.replicate 6 0 ++
    [192, 168, 0, 2] ++ List.replicate 6 0 ++ [192, 168, 0, 115]

/-- A frame comes in, is processed, and what answers it is sent. -/
def exchange (frame : List UInt8) (accepted : Nat) : List Action :=
  [.rx [frame], .dequeue, .process 0 1, .tx accepted]

theorem owned_throughout_arp_reply : Throughout (Stack.step internetSums fun _ => []) Stack.Owned
    (.start .cleared) (exchange (arpFrame 2) 0) := by
  refine (owned_throughout_iff internetSums _ .cleared _ _ rfl).mpr ?_
  refine .cons ?_ rfl (.cons trivial rfl (.cons ?_ rfl (.cons (.inl rfl) rfl trivial)))
  · show 1 ≤ ringSize - 1 - 0
    decide
  · rintro rx ⟨⟩
    exact .inl ⟨rfl, rfl, rfl⟩

/-- The mbuf of the request is never freed. That of the answer is freed though the device has
taken it. -/
theorem arp_request_not_owned : ∃ s, runs (Stack.step internetSums fun _ => []) (.start .cleared)
    (exchange (arpFrame 1) 1) = .ok s ∧ s.held = [] ∧ s.fates 0 = .kept ∧ s.fates 1 = ⟨2, false⟩ ∧
    ¬ s.Owned := by
  refine ⟨_, rfl, rfl, rfl, rfl, fun owned => ?_⟩
  have settled := owned.settled 0 (by decide) List.not_mem_nil
  cases settled

end LinuxCpp.Ustack
