import LinuxCpp.Ustack.Lifetimes
import LinuxCpp.Ustack.Receive

set_option autoImplicit false

/- The streams that wait for `naccept`. It takes the newest one of the port, and looks at
the descriptor of the stream and not at its status. -/
namespace LinuxCpp.Ustack

open C Trace

/-- The handshake was completed. -/
def Stream.Connected (s : Stream) : Prop := s.status = .established ∨ s.status = .closeWait

/-- The handshake has begun and was not completed. -/
def Stream.HalfOpen (s : Stream) : Prop := s.status = .synRcvd ∨ s.status = .listen

/-- The stream is on the port and has no descriptor. -/
def Stream.Waits (s : Stream) (port : UInt16) : Prop := s.dport = port ∧ s.fd = -1

/-- In front of each half-open stream that waits stands a connected one that waits. -/
def World.HalfOpenBehind (w : World) (port : UInt16) : Prop :=
  ∀ newer s older, w.tcbSet = newer ++ s :: older → s.Waits port → s.HalfOpen →
    ∃ t ∈ newer, t.Waits port ∧ t.Connected

/-- `naccept` is called with the half-open streams behind, `nbind` and `nlisten` on
descriptors, and `nsocket` while there are some left. -/
def Orderly (m : Machine) : Event → Prop
  | .accept fd => ∀ listener, getHostinfoFromfd m.world fd = some (.stream listener) →
      m.world.HalfOpenBehind listener.dport
  | .bind fd _ _ => 0 ≤ fd
  | .listen fd => 0 ≤ fd
  | .socket _ => m.world.freeFd ≠ none
  | _ => True

/-- A stream without a descriptor came from a SYN. -/
def Unaccepted (m : Machine) : Prop :=
  ∀ s ∈ m.world.tcbSet, s.fd = -1 → s.HalfOpen ∨ s.Connected

section Steps

variable {m m' : Machine} {e : Event} {ret : Option Int}

theorem named_fd {w : World} {fd : Int} {s : Stream}
    (named : getHostinfoFromfd w fd = some (.stream s)) : s.fd = fd := by
  have carries := List.find?_some (getHostinfoFromfd_stream.mp named).2
  exact Eq.symm (by simpa using carries)

theorem getAcceptTcb_waits {w : World} {port : UInt16} {s : Stream}
    (first : getAcceptTcb w port = some s) : s.Waits port := by
  have fits := List.find?_some first
  simp only [decide_eq_true_eq] at fits
  exact ⟨fits.1.symm, fits.2⟩

theorem getFdFrombitmap_nonneg {w : World} (left : w.freeFd ≠ none) :
    0 ≤ (getFdFrombitmap w).1 := by
  unfold getFdFrombitmap
  split
  · exact absurd ‹_› left
  · exact Int.natCast_nonneg _

theorem Unaccepted.act (before : Unaccepted m) (orderly : Orderly m e)
    (ran : m.act e = .ok (ret, m')) : Unaccepted m' := by
  intro t member without
  rcases (Machine.act_change ran).after member with old | ⟨s, old, evolves⟩ | born
  · exact before t old without
  · cases evolves with
    | established => exact .inr (.inl rfl)
    | heard receives open_ =>
        refine .inr ?_
        dsimp only [Stream.Connected]
        split
        · exact .inr rfl
        · exact .inl open_
    | bound named =>
        have fd := named_fd named
        dsimp only [Orderly] at orderly without
        omega
    | listens named => exact .inl (.inr rfl)
    | accepted named first => exact before s old (getAcceptTcb_waits first).2
    | closes named status granted ring fragment proper =>
        have fd := named_fd named
        dsimp only at without
        omega
    | refused => exact before _ old without
    | sends | reads | out => exact before s old without
  · cases born with
    | syn receives listener block fd number status => exact .inl (.inl status)
    | half receives listener block fd number status => exact .inl (.inr status)
    | socket block named number status answer handed =>
        have proper := getFdFrombitmap_nonneg orderly
        omega

theorem accepts_connected (before : Unaccepted m) {fd new : Int} (orderly : Orderly m (.accept fd))
    (ran : m.act (.accept fd) = .ok (some new, m')) (handed : 0 ≤ new) :
    ∃ s ∈ m.world.tcbSet, s.fd = -1 ∧ { s with fd := new } ∈ m'.world.tcbSet ∧ s.Connected := by
  cases Machine.act_change ran with
  | still quiet =>
      rcases quiet with waits | failed
      · cases waits
      · cases failed
        omega
  | write old evolves streams hosts =>
      rename_i s s'
      cases evolves with
      | accepted named first =>
          have waits := getAcceptTcb_waits first
          refine ⟨s, old, waits.2, streams ▸ put_mem old rfl, ?_⟩
          obtain ⟨-, newer, older, split_, others⟩ := List.find?_eq_some_iff_append.mp first
          rcases before s old waits.2 with half | connected
          · obtain ⟨t, at_t, fits, -⟩ := orderly _ named newer s older split_ waits half
            have skipped := others t at_t
            simp [fits.1, fits.2] at skipped
          · exact connected
  | add born => cases born
  | remove old dies => cases dies
  | addHost call => cases call
  | writeHost call => cases call
  | removeHost call => cases call

end Steps

/-- In every run from the empty stack whose steps are orderly, `naccept` hands out
descriptors for connected streams alone. -/
theorem accept_connected_of_orderly (A : Allocator) (past later : List Event) (fd : Int)
    (orderly : Along Machine.step Orderly ⟨World.empty, A⟩ (past ++ .accept fd :: later))
    (m m' : Machine) (new : Int) (ran : runs Machine.step ⟨World.empty, A⟩ past = .ok m)
    (accepted : m.act (.accept fd) = .ok (some new, m')) (handed : 0 ≤ new) :
    ∃ s ∈ m.world.tcbSet, s.fd = -1 ∧ { s with fd := new } ∈ m'.world.tcbSet ∧ s.Connected := by
  have start : Unaccepted ⟨World.empty, A⟩ := fun _ member => absurd member List.not_mem_nil
  have before := orderly.beginning.invariant Unaccepted start (fun m e m' before meets stepped => by
    obtain ⟨ret, acted⟩ := Machine.step_ok stepped
    exact before.act meets acted) ran
  exact accepts_connected before (orderly.meets_at ran) accepted handed

/-- The handshake with the descriptor 3 for the listener, and the ACK of the client. -/
theorem accept_connected_of_orderly_ack : ∃ m m' : Machine,
    runs Machine.step ⟨World.empty, .plentiful⟩ [.socket .stream, .bind 3 3 4, .listen 3,
      .segment 99 (sampleSegment 9 0x02 []), .segment 0 (sampleSegment 10 0x10 [])] = .ok m ∧
    m.act (.accept 3) = .ok (some 4, m') ∧
    ∃ s ∈ m.world.tcbSet, s.fd = -1 ∧ { s with fd := 4 } ∈ m'.world.tcbSet ∧ s.Connected := by
  refine ⟨_, _, rfl, rfl, ?_⟩
  refine accept_connected_of_orderly .plentiful [.socket .stream, .bind 3 3 4, .listen 3,
    .segment 99 (sampleSegment 9 0x02 []), .segment 0 (sampleSegment 10 0x10 [])] [] 3 ?_
    _ _ 4 rfl rfl (by decide)
  have proper : (0 : Int) ≤ 3 := by decide
  refine .cons (fun none_ => nomatch none_) rfl ?_
  refine .cons proper rfl ?_
  refine .cons proper rfl ?_
  refine .cons trivial rfl ?_
  refine .cons trivial rfl ?_
  refine ⟨fun listener named newer s older list waits half => ?_, fun _ _ => trivial⟩
  have member : s ∈ newer ++ s :: older := List.mem_append_right _ List.mem_cons_self
  rw [← list] at member
  rcases List.mem_cons.mp member with rfl | member
  · rcases half with half | half <;> cases half
  · rcases List.mem_cons.mp member with rfl | member
    · cases waits.2
    · exact absurd member List.not_mem_nil

/-- `naccept` hands out 4 for a client that has only sent its SYN. -/
theorem accept_half_open : ∃ m m' : Machine,
    runs Machine.step ⟨World.empty, .plentiful⟩ [.socket .stream, .bind 3 3 4, .listen 3,
      .segment 99 (sampleSegment 9 0x02 [])] = .ok m ∧
    m.act (.accept 3) = .ok (some 4, m') ∧
    ¬ ∃ s ∈ m.world.tcbSet, s.fd = -1 ∧ { s with fd := 4 } ∈ m'.world.tcbSet ∧ s.Connected := by
  refine ⟨_, _, rfl, rfl, ?_⟩
  rintro ⟨s, member, without, -, connected⟩
  rcases List.mem_cons.mp member with rfl | member
  · rcases connected with connected | connected <;> cases connected
  · rcases List.mem_cons.mp member with rfl | member
    · cases without
    · exact absurd member List.not_mem_nil

end LinuxCpp.Ustack
