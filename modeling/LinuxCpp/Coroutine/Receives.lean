import LinuxCpp.C.Refusal
import LinuxCpp.C.Returns
import LinuxCpp.Coroutine.Queue
import LinuxCpp.Trace.Along

set_option autoImplicit false

/- Every receive and the handler that it should start. A connection keeps its coroutine
when it is closed, so the first receive on a reused descriptor resumes a coroutine whose
handler is done. -/
namespace LinuxCpp.Coroutine

open C Trace

namespace Event

/-- The descriptor that epoll reports. -/
def reported : Event → Option Nat
  | accept _ => none
  | receive fd _ | disconnect fd => some fd

/-- The execution that a receive should lead to. -/
def received : Event → Option Handled
  | receive fd data => some ⟨fd, .holding data.bytes data.fits, data.bytes.length⟩
  | _ => none

/-- The open descriptors after the event. -/
def opens (opened : List Nat) : Event → List Nat
  | accept clientfd => if clientfd < 0 then opened else clientfd.toNat :: opened
  | receive _ _ => opened
  | disconnect fd => opened.erase fd

/-- The kernel reports open descriptors, and `accept` returns one that is not open. -/
def Possible (opened : List Nat) : Event → Prop
  | accept clientfd => 0 ≤ clientfd → clientfd.toNat ∉ opened
  | receive fd _ | disconnect fd => fd ∈ opened

instance (opened : List Nat) : (event : Event) → Decidable (event.Possible opened)
  | accept clientfd => inferInstanceAs (Decidable (0 ≤ clientfd → clientfd.toNat ∉ opened))
  | receive fd _ | disconnect fd => inferInstanceAs (Decidable (fd ∈ opened))

end Event

def received (events : List Event) : List Handled := events.filterMap Event.received

def PossibleAll : List Nat → List Event → Prop
  | _, [] => True
  | opened, event :: rest => event.Possible opened ∧ PossibleAll (event.opens opened) rest

instance possibleAllDecidable :
    (opened : List Nat) → (events : List Event) → Decidable (PossibleAll opened events)
  | _, [] => .isTrue trivial
  | opened, event :: rest =>
      have := possibleAllDecidable (event.opens opened) rest
      inferInstanceAs (Decidable (event.Possible opened ∧ PossibleAll (event.opens opened) rest))

/-- What one `epoll_wait` can return, with the results of the calls that follow. -/
structure Offered (d : Server × Allocator) (round : Round) : Prop where
  possible : PossibleAll d.1.opened round.events
  once : (round.events.filterMap Event.reported).Nodup

/-- Each receive of the round was handled exactly once, on its data. -/
def Executes (s : Server) (events : List Event) : Prop :=
  ∀ r ∈ received events, s.handled.filter (fun execution => execution.fd = r.fd) = [r]

/-- The server gets through the rounds and handles each receive in its round. -/
def RunsEvery : Server × Allocator → List Round → Prop
  | _, [] => True
  | d, round :: rest =>
      ∃ d', mainRound d round = .ok d' ∧ Executes d'.1 round.events ∧ RunsEvery d' rest

/-- The coroutine of the connection waits for its first switch. -/
def Waiting (s : Server) (fd : Nat) : Prop :=
  ∃ co value, (s.conns fd).co = some co ∧ s.core co = some value ∧ value.arg = fd ∧
    value.ctx = .entry ∧ value.state = .ready

/-- The coroutine of the connection is done, and its state does not say so. -/
def Finished (s : Server) (fd : Nat) : Prop :=
  ∃ co value, (s.conns fd).co = some co ∧ s.core co = some value ∧ value.arg = fd ∧
    value.ctx = .yielded ∧ (value.state = .suspend ∨ value.state = .dead)

/-- The calls of `malloc` for the event. -/
def Event.mallocs (past : List Nat) : Event → Nat
  | .receive fd _ => if fd ∈ past then 0 else 2
  | _ => 0

/-- The descriptor has a place in the table. -/
def Event.InTable : Event → Prop
  | .accept clientfd => clientfd < connectionSize
  | _ => True

instance : (event : Event) → Decidable event.InTable
  | .accept clientfd => inferInstanceAs (Decidable (clientfd < connectionSize))
  | .receive .. | .disconnect _ => .isTrue trivial

/-- The state in a round: `past` are the descriptors with a receive in earlier rounds, and
`got` the receives of this one. -/
structure Mid (past : List Nat) (got : List Handled) (s : Server) (calls : Nat) : Prop where
  idle : s.running = none
  queue : ∃ queued, Queue s queued ∧ queued.map some = got.map fun r => (s.conns r.fd).co
  named : ∀ fd ∈ s.opened, (s.conns fd).fd = fd
  kept : ∀ r ∈ got, r.fd ∈ s.opened ∧ (s.conns r.fd).rbuffer = r.rbuffer ∧
    (s.conns r.fd).rlength = r.rlength
  without : ∀ fd ∉ past, fd ∉ got.map Handled.fd → (s.conns fd).co = none
  finished : ∀ fd ∈ past, Finished s fd
  waiting : ∀ r ∈ got, r.fd ∉ past → Waiting s r.fd
  issued : ∀ co value, s.core co = some value → co ≤ calls

section Frames

variable {s s' : Server} {fd : Nat}

theorem Waiting.frame (waiting : Waiting s fd) (co : (s'.conns fd).co = (s.conns fd).co)
    (core : ∀ co, (s.conns fd).co = some co → s'.core co = s.core co) : Waiting s' fd := by
  obtain ⟨c, value, has, live, rest⟩ := waiting
  exact ⟨c, value, co.trans has, (core c has).trans live, rest⟩

theorem Finished.frame (finished : Finished s fd) (co : (s'.conns fd).co = (s.conns fd).co)
    (core : ∀ co, (s.conns fd).co = some co → s'.core co = s.core co) : Finished s' fd := by
  obtain ⟨c, value, has, live, rest⟩ := finished
  exact ⟨c, value, co.trans has, (core c has).trans live, rest⟩

theorem setConn_self (s : Server) (fd : Nat) (c : Conn) : (s.setConn fd c).conns fd = c :=
  Function.update_self ..

theorem setConn_other (s : Server) {fd other : Nat} (differs : other ≠ fd) (c : Conn) :
    (s.setConn fd c).conns other = s.conns other := Function.update_of_ne differs ..

/-- A connection is written that keeps its coroutine. -/
theorem setConn_co (s : Server) (fd : Nat) {c : Conn} (same : c.co = (s.conns fd).co)
    (other : Nat) : ((s.setConn fd c).conns other).co = (s.conns other).co := by
  by_cases at_fd : other = fd
  · rw [at_fd, setConn_self, same]
  · rw [setConn_other s at_fd]

end Frames

section Events

variable {past : List Nat} {got : List Handled} {s s' : Server} {A : Allocator} {fd : Nat}

/-- The coroutines of connections are those of their own connections. -/
theorem Mid.co_arg {calls : Nat} (mid : Mid past got s calls) {co : Nat}
    (has : (s.conns fd).co = some co) : ∃ value, s.core co = some value ∧ value.arg = fd := by
  by_cases old : fd ∈ past
  · obtain ⟨co', value, has', live, arg, -⟩ := mid.finished fd old
    cases has.symm.trans has'
    exact ⟨value, live, arg⟩
  · by_cases now : fd ∈ got.map Handled.fd
    · obtain ⟨r, member, rfl⟩ := List.mem_map.mp now
      obtain ⟨co', value, has', live, arg, -⟩ := mid.waiting r member old
      cases has.symm.trans has'
      exact ⟨value, live, arg⟩
    · cases (mid.without fd old now).symm.trans has

theorem core_live {co : Nat} {value : Co} (live : s.core co = some value) :
    ∃ v, s.heap co = some v ∧ value = { v with next := none } := by
  obtain ⟨v, at_co, same⟩ := Option.map_eq_some_iff.mp live
  exact ⟨v, at_co, same.symm⟩

theorem acceptCb_mid {clientfd : Int} (mid : Mid past got s A.calls)
    (possible : (Event.accept clientfd).Possible s.opened) :
    Returns (acceptCb s clientfd) fun s' => Mid past got s' A.calls ∧
      s'.opened = (Event.accept clientfd).opens s.opened ∧ clientfd < connectionSize := by
  unfold acceptCb
  split
  · rename_i failed
    refine .pure ⟨mid, (if_pos failed).symm, ?_⟩
    have size : (0 : Int) ≤ connectionSize := by decide
    omega
  · rename_i proper
    split
    · exact .error _
    · rename_i inside
      have outside : clientfd.toNat ∉ s.opened := possible (by omega)
      have other {fd : Nat} (member : fd ∈ s.opened) : fd ≠ clientfd.toNat :=
        fun same => outside (same ▸ member)
      have co := setConn_co s clientfd.toNat
        (c := ⟨clientfd.toNat, .zeroed _, 0, (s.conns clientfd.toNat).co⟩) rfl
      refine .pure ⟨⟨mid.idle, ?_, ?_, ?_, ?_, ?_, ?_, mid.issued⟩, (if_neg proper).symm, by omega⟩
      · obtain ⟨queued, queue, cos⟩ := mid.queue
        refine ⟨queued, ⟨queue.linked, queue.tail, queue.nodup⟩, cos.trans ?_⟩
        exact List.map_congr_left fun r _ => (co r.fd).symm
      · intro fd member
        rcases List.mem_cons.mp member with rfl | old
        · exact congrArg Conn.fd (setConn_self s _ _)
        · exact (congrArg Conn.fd (setConn_other s (other old) _)).trans (mid.named fd old)
      · intro r member
        obtain ⟨open_, rbuffer, rlength⟩ := mid.kept r member
        have same := setConn_other s (other open_)
          ⟨clientfd.toNat, .zeroed _, 0, (s.conns clientfd.toNat).co⟩
        exact ⟨List.mem_cons_of_mem _ open_, (congrArg Conn.rbuffer same).trans rbuffer,
          (congrArg Conn.rlength same).trans rlength⟩
      · intro fd old now
        exact (co fd).trans (mid.without fd old now)
      · intro fd member
        exact (mid.finished fd member).frame (co fd) fun _ _ => rfl
      · intro r member old
        exact (mid.waiting r member old).frame (co r.fd) fun _ _ => rfl

theorem recvNothing_none (has : (s.conns fd).co = none) :
    recvNothing s fd = .ok { s.setConn fd { s.conns fd with rbuffer := .zeroed _ } with
      opened := s.opened.erase fd } := by
  unfold recvNothing
  dsimp only
  rw [has]
  rfl

theorem recvNothing_some {c : Nat} (has : (s.conns fd).co = some c)
    (wrote : (s.setConn fd { s.conns fd with rbuffer := .zeroed _ }).setState c .dead = .ok s') :
    recvNothing s fd = .ok { s' with opened := s'.opened.erase fd } := by
  unfold recvNothing
  dsimp only at wrote ⊢
  rw [has] at wrote ⊢
  dsimp only
  rw [wrote]
  rfl

/-- A connection is closed, whatever became of its coroutine. -/
theorem Mid.closed {calls : Nat} (mid : Mid past got s calls) (once : fd ∉ got.map Handled.fd)
    (conns : s'.conns = (s.setConn fd { s.conns fd with rbuffer := .zeroed _ }).conns)
    (running : s'.running = s.running) (opened : s'.opened = s.opened)
    (queue : ∀ queued, Queue s queued → Queue s' queued)
    (finished : ∀ other ∈ past, Finished s' other)
    (core : ∀ other ≠ fd, ∀ co, (s.conns other).co = some co → s'.core co = s.core co)
    (issued : ∀ co value, s'.core co = some value → co ≤ calls) :
    Mid past got { s' with opened := s'.opened.erase fd } calls := by
  have co := setConn_co s fd (c := { s.conns fd with rbuffer := .zeroed _ }) rfl
  have other {r : Handled} (member : r ∈ got) : r.fd ≠ fd :=
    fun same => once (same ▸ List.mem_map_of_mem member)
  have conn {r : Handled} (member : r ∈ got) := setConn_other s (other member)
    { s.conns fd with rbuffer := .zeroed _ }
  refine ⟨running.trans mid.idle, ?_, ?_, ?_, ?_, finished, ?_, issued⟩
  · obtain ⟨queued, queued_, cos⟩ := mid.queue
    have queue' := queue queued queued_
    refine ⟨queued, ⟨queue'.linked, queue'.tail, queue'.nodup⟩, cos.trans ?_⟩
    refine List.map_congr_left fun r _ => ?_
    rw [← co r.fd, ← conns]
  · intro other member
    have old := List.mem_of_mem_erase member
    rw [opened] at old
    have named := mid.named other old
    show (s'.conns other).fd = other
    rw [conns]
    by_cases same : other = fd
    · rw [same, setConn_self]
      exact same ▸ named
    · rw [setConn_other s same]
      exact named
  · intro r member
    obtain ⟨still, rbuffer, rlength⟩ := mid.kept r member
    refine ⟨?_, ?_, ?_⟩
    · show r.fd ∈ s'.opened.erase fd
      rw [opened]
      exact (List.mem_erase_of_ne (other member)).mpr still
    · exact (congrArg (fun conns => (conns r.fd).rbuffer) conns).trans
        ((congrArg Conn.rbuffer (conn member)).trans rbuffer)
    · exact (congrArg (fun conns => (conns r.fd).rlength) conns).trans
        ((congrArg Conn.rlength (conn member)).trans rlength)
  · intro other old now
    show (s'.conns other).co = none
    rw [conns, co]
    exact mid.without other old now
  · intro r member old
    refine (mid.waiting r member old).frame ?_ ?_
    · show (s'.conns r.fd).co = _
      rw [conns, co]
    · exact core r.fd (other member)

theorem recvNothing_mid (mid : Mid past got s A.calls) (once : fd ∉ got.map Handled.fd) :
    ∃ s', recvNothing s fd = .ok s' ∧ Mid past got s' A.calls ∧
      s'.opened = (Event.disconnect fd).opens s.opened := by
  have co := setConn_co s fd (c := { s.conns fd with rbuffer := .zeroed _ }) rfl
  cases has : (s.conns fd).co with
  | none =>
      refine ⟨_, recvNothing_none has, mid.closed once rfl rfl rfl ?_ ?_ (fun _ _ _ _ => rfl)
        mid.issued, rfl⟩
      · exact fun queued queue => ⟨queue.linked, queue.tail, queue.nodup⟩
      · exact fun other member => (mid.finished other member).frame (co other) fun _ _ => rfl
  | some c =>
      have old : fd ∈ past := by
        by_contra new
        cases has.symm.trans (mid.without fd new once)
      obtain ⟨c', value, has', live, arg, ctx, -⟩ := mid.finished fd old
      cases has.symm.trans has'
      obtain ⟨v, at_c, same⟩ := core_live live
      have wrote := setState_ok (s := s.setConn fd { s.conns fd with rbuffer := .zeroed _ })
        at_c .dead
      have apart (other : Nat) (differs : other ≠ fd) (co : Nat)
          (has_co : (s.conns other).co = some co) : co ≠ c := by
        intro equal
        obtain ⟨value', live', arg'⟩ := mid.co_arg has_co
        rw [equal] at live'
        cases live.symm.trans live'
        exact differs (arg'.symm.trans arg)
      have core (co : Nat) (differs : co ≠ c) :
          ((s.setConn fd { s.conns fd with rbuffer := .zeroed _ }).setCo c
            { v with state := .dead }).core co = s.core co := core_setCo_other _ differs _
      refine ⟨_, recvNothing_some has wrote, mid.closed once rfl rfl rfl ?_ ?_ ?_ ?_, rfl⟩
      · intro queued queue
        exact ⟨queue.linked.write at_c rfl, queue.tail, queue.nodup⟩
      · intro other member
        by_cases here : other = fd
        · refine ⟨c, { v with state := .dead, next := none }, ?_, ?_, ?_, ?_, .inr rfl⟩
          · rw [here]
            exact (co fd).trans has
          · exact core_setCo_self _ c _
          · rw [here, ← arg, same]
          · rw [← ctx, same]
        · refine (mid.finished other member).frame (co other) fun co has_co => ?_
          exact core co (apart other here co has_co)
      · exact fun other differs co has_co => core co (apart other differs co has_co)
      · intro co value' live'
        by_cases equal : co = c
        · exact mid.issued co value (equal ▸ live)
        · rw [core co equal] at live'
          exact mid.issued co value' live'

/-- The coroutine of a connection, or a new one, is that of no other connection. -/
theorem Mid.apart {calls c : Nat} (mid : Mid past got s calls)
    (belongs : (s.conns fd).co = some c ∨ calls < c) (other : Nat) (differs : other ≠ fd) :
    (s.conns other).co ≠ some c := by
  intro has
  obtain ⟨value, live, arg⟩ := mid.co_arg has
  rcases belongs with own | new
  · obtain ⟨value', live', arg'⟩ := mid.co_arg own
    cases live.symm.trans live'
    exact differs (arg.symm.trans arg')
  · have issued := mid.issued c value live
    omega

theorem Mid.outside {calls c : Nat} (mid : Mid past got s calls)
    (once : fd ∉ got.map Handled.fd) (belongs : (s.conns fd).co = some c ∨ calls < c)
    {queued : List Nat} (cos : queued.map some = got.map fun r => (s.conns r.fd).co) :
    c ∉ queued := by
  intro member
  have at_ := List.mem_map_of_mem (f := some) member
  rw [cos] at at_
  obtain ⟨r, at_r, has⟩ := List.mem_map.mp at_
  have differs : r.fd ≠ fd := fun same => once (same ▸ List.mem_map_of_mem at_r)
  exact mid.apart belongs r.fd differs has

/-- The connection has its data, and its coroutine is in the queue. -/
theorem Mid.received {calls calls' c : Nat} (mid : Mid past got s calls) {r : Handled}
    (open_ : r.fd ∈ s.opened) (belongs : (s.conns r.fd).co = some c ∨ calls < c)
    {queued : List Nat} (queue : Queue s' (queued ++ [c]))
    (cos : queued.map some = got.map fun r => (s.conns r.fd).co)
    (conns : s'.conns = (s.setConn r.fd ⟨r.fd, r.rbuffer, r.rlength, some c⟩).conns)
    (running : s'.running = s.running) (opened : s'.opened = s.opened)
    (core : ∀ other ≠ c, s'.core other = s.core other)
    (finished : r.fd ∈ past → Finished s' r.fd) (waiting : r.fd ∉ past → Waiting s' r.fd)
    (once : r.fd ∉ got.map Handled.fd) (later : calls ≤ calls') (issued : c ≤ calls') :
    Mid past (got ++ [r]) s' calls' := by
  have conn : s'.conns r.fd = ⟨r.fd, r.rbuffer, r.rlength, some c⟩ := by
    rw [conns]
    exact setConn_self s _ _
  have others {fd : Nat} (differs : fd ≠ r.fd) : s'.conns fd = s.conns fd := by
    rw [conns]
    exact setConn_other s differs _
  have apart := mid.apart belongs
  have frame {fd : Nat} (differs : fd ≠ r.fd) (co : Nat) (has : (s.conns fd).co = some co) :
      s'.core co = s.core co := core co fun same => apart fd differs (same ▸ has)
  have other {q : Handled} (member : q ∈ got) : q.fd ≠ r.fd :=
    fun same => once (same ▸ List.mem_map_of_mem member)
  refine ⟨running.trans mid.idle, ⟨_, queue, ?_⟩, ?_, ?_, ?_, ?_, ?_, ?_⟩
  · rw [List.map_append, List.map_append, cos]
    congr 1
    · exact List.map_congr_left fun q member => by rw [others (other member)]
    · simp [conn]
  · intro fd member
    rw [opened] at member
    by_cases same : fd = r.fd
    · rw [same, conn]
    · rw [others same]
      exact mid.named fd member
  · intro q member
    rcases List.mem_append.mp member with old | new
    · rw [opened, others (other old)]
      exact mid.kept q old
    · cases List.mem_singleton.mp new
      rw [opened, conn]
      exact ⟨open_, rfl, rfl⟩
  · intro fd old now
    rw [List.map_append, List.mem_append, not_or] at now
    have differs : fd ≠ r.fd := fun same => now.2 (by simp [same])
    rw [others differs]
    exact mid.without fd old now.1
  · intro fd old
    by_cases same : fd = r.fd
    · exact same ▸ finished (same ▸ old)
    · exact (mid.finished fd old).frame (by rw [others same]) (frame same)
  · intro q member old
    rcases List.mem_append.mp member with before | new
    · exact (mid.waiting q before old).frame (by rw [others (other before)]) (frame (other before))
    · cases List.mem_singleton.mp new
      exact waiting old
  · intro co value live
    by_cases same : co = c
    · exact same ▸ issued
    · rw [core co same] at live
      exact (mid.issued co value live).trans later

/-- What `recv_cb` makes of the data. -/
def Data.at (data : Data) (fd : Nat) : Handled :=
  ⟨fd, .holding data.bytes data.fits, data.bytes.length⟩

theorem recvData_some (data : Data) {c : Nat} (named : (s.conns fd).fd = fd)
    (has : (s.conns fd).co = some c) :
    recvData s fd data A = (scheduleAdd (s.setConn fd ⟨fd, .holding data.bytes data.fits,
      data.bytes.length, some c⟩) c).map fun s' => (s', A) := by
  unfold recvData
  dsimp only
  rw [has, named]
  dsimp only
  cases scheduleAdd (s.setConn fd ⟨fd, .holding data.bytes data.fits, data.bytes.length,
    some c⟩) c <;> rfl

theorem recvData_none (data : Data) (named : (s.conns fd).fd = fd)
    (has : (s.conns fd).co = none) :
    recvData s fd data A = ((do
      let (co, s₁) ← coroutineCreate (s.setConn fd ⟨fd, .holding data.bytes data.fits,
        data.bytes.length, none⟩) fd
      scheduleAdd (s₁.setConn fd ⟨fd, .holding data.bytes data.fits, data.bytes.length,
        some co⟩) co) : CM Server) A := by
  unfold recvData
  dsimp only
  rw [has, named]

theorem recvData_old (mid : Mid past got s A.calls) (open_ : fd ∈ s.opened)
    (once : fd ∉ got.map Handled.fd) (data : Data) (old : fd ∈ past) :
    ∃ s', recvData s fd data A = .ok (s', A) ∧ Mid past (got ++ [data.at fd]) s' A.calls ∧
      s'.opened = s.opened := by
  obtain ⟨c, value, has, live, rest⟩ := mid.finished fd old
  obtain ⟨v, at_c, -⟩ := core_live live
  obtain ⟨queued, queue, cos⟩ := mid.queue
  have outside := mid.outside once (.inl has) cos
  have written : Queue (s.setConn fd ⟨fd, .holding data.bytes data.fits, data.bytes.length,
      some c⟩) queued := ⟨queue.linked, queue.tail, queue.nodup⟩
  obtain ⟨s', added, queue', same⟩ := scheduleAdd_queue written outside at_c
  have core : s'.core = s.core := same.core
  have co : (s'.conns fd).co = some c := by
    rw [same.conns, setConn_self]
  refine ⟨s', ?_, mid.received (r := data.at fd) open_ (.inl has) queue' cos same.conns same.running
    same.opened (fun _ _ => congrFun core _) (fun _ => ?_) (fun new => absurd old new) once
    (Nat.le_refl _) (mid.issued c value live), same.opened⟩
  · rw [recvData_some data (mid.named fd open_) has, added]
    rfl
  · exact ⟨c, value, co, (congrFun core c).trans live, rest⟩

theorem recvData_new (mid : Mid past got s A.calls) (open_ : fd ∈ s.opened)
    (once : fd ∉ got.map Handled.fd) (data : Data) (new : fd ∉ past)
    (granted : A.grants A.calls = true ∧ A.grants (A.calls + 1) = true) :
    ∃ s', recvData s fd data A = .ok (s', A.next.next) ∧
      Mid past (got ++ [data.at fd]) s' (A.calls + 2) ∧ s'.opened = s.opened := by
  have has := mid.without fd new once
  obtain ⟨queued, queue, cos⟩ := mid.queue
  have outside := mid.outside once (c := A.calls + 1) (.inr (Nat.lt_succ_self _)) cos
  have created (s : Server) : coroutineCreate s fd A = .ok ((A.calls + 1,
      s.setCo (A.calls + 1) ⟨.ready, .entry, A.calls + 2, fd, none⟩), A.next.next) := by
    unfold coroutineCreate
    rw [bind_ok (malloc_granted granted.1)]
    simp only
    rw [bind_ok (malloc_granted (A := A.next) granted.2)]
    rfl
  have written : Queue (((s.setConn fd ⟨fd, .holding data.bytes data.fits, data.bytes.length,
      none⟩).setCo (A.calls + 1) ⟨.ready, .entry, A.calls + 2, fd, none⟩).setConn fd
        ⟨fd, .holding data.bytes data.fits, data.bytes.length, some (A.calls + 1)⟩) queued :=
    ⟨queue.linked.update outside _, queue.tail, queue.nodup⟩
  obtain ⟨s', added, queue', same⟩ := scheduleAdd_queue written outside (Server.setCo_self ..)
  have conns : s'.conns = (s.setConn fd ⟨fd, .holding data.bytes data.fits, data.bytes.length,
      some (A.calls + 1)⟩).conns := by
    rw [same.conns]
    exact Function.update_idem ..
  have core (co : Nat) (differs : co ≠ A.calls + 1) : s'.core co = s.core co :=
    (congrFun same.core co).trans (core_setCo_other _ differs _)
  refine ⟨s', ?_, mid.received (r := data.at fd) open_ (.inr (Nat.lt_succ_self _)) queue' cos conns
    same.running same.opened core (fun old => absurd old new) (fun _ => ?_) once (by omega)
    (by omega), same.opened⟩
  · rw [recvData_none data (mid.named fd open_) has, bind_ok (created _)]
    simp only [added]
    rfl
  · refine ⟨A.calls + 1, ⟨.ready, .entry, A.calls + 2, fd, none⟩, ?_, ?_, rfl, rfl, rfl⟩
    · rw [conns]
      exact congrArg Conn.co (setConn_self s fd _)
    · exact (congrFun same.core _).trans (core_setCo_self _ _ _)

/-- Without memory for a new coroutine the server falls. -/
theorem recvData_refused (mid : Mid past got s A.calls) (open_ : fd ∈ s.opened)
    (once : fd ∉ got.map Handled.fd) (data : Data) (new : fd ∉ past)
    (refused : ¬ (A.grants A.calls = true ∧ A.grants (A.calls + 1) = true)) :
    recvData s fd data A = .error .nullDeref := by
  rw [recvData_none data (mid.named fd open_) (mid.without fd new once)]
  apply bind_error
  unfold coroutineCreate
  cases first : A.grants A.calls with
  | false =>
      rw [bind_ok (malloc_refused first)]
      rfl
  | true =>
      cases second : A.grants (A.calls + 1) with
      | true => exact absurd ⟨first, second⟩ refused
      | false =>
          rw [bind_ok (malloc_granted first)]
          simp only
          rw [bind_ok (malloc_refused (A := A.next) second)]
          rfl

/-- The memory and the place in the table that the event needs. -/
def Event.Served (past : List Nat) (A : Allocator) (event : Event) : Prop :=
  event.InTable ∧ ∀ call < event.mallocs past, A.grants (A.calls + call) = true

/-- What an event leaves behind. -/
structure Advanced (past : List Nat) (got more : List Handled) (A : Allocator) (mallocs : Nat)
    (opened : List Nat) (d : Server × Allocator) : Prop where
  mid : Mid past (got ++ more) d.1 d.2.calls
  opened : d.1.opened = opened
  grants : d.2.grants = A.grants
  calls : d.2.calls = A.calls + mallocs

/-- An event is served, or the server falls. -/
theorem dispatch_run (mid : Mid past got s A.calls) {event : Event}
    (possible : event.Possible s.opened)
    (once : ∀ fd, event.reported = some fd → fd ∉ got.map Handled.fd) :
    (event.Served past A ∧ ∃ d, dispatch s event A = .ok d ∧
      Advanced past got event.received.toList A (event.mallocs past) (event.opens s.opened) d) ∨
    (¬ event.Served past A ∧ ∃ fault, dispatch s event A = .error fault) := by
  cases event with
  | accept clientfd =>
      cases accepted : acceptCb s clientfd with
      | error fault =>
          refine .inr ⟨fun served => ?_, fault, ?_⟩
          · have inside : clientfd < connectionSize := served.1
            unfold acceptCb at accepted
            split at accepted
            · cases accepted
            · rw [if_neg (by omega)] at accepted
              cases accepted
          · show (liftM (acceptCb s clientfd) : CM Server) A = _
            rw [accepted]
            rfl
      | ok s' =>
          obtain ⟨mid', opened, inside⟩ := (acceptCb_mid mid possible).of_ok s' accepted
          refine .inl ⟨⟨inside, fun call none_ => absurd none_ (Nat.not_lt_zero call)⟩, (s', A), ?_,
            ⟨?_, opened, rfl, rfl⟩⟩
          · show (liftM (acceptCb s clientfd) : CM Server) A = _
            rw [accepted]
            rfl
          · rw [show (Event.accept clientfd).received.toList = [] from rfl, List.append_nil]
            exact mid'
  | receive fd data =>
      have outside := once fd rfl
      by_cases old : fd ∈ past
      · obtain ⟨s', ran, mid', opened⟩ := recvData_old mid possible outside data old
        have mallocs : (Event.receive fd data).mallocs past = 0 := if_pos old
        rw [Event.Served, mallocs]
        exact .inl ⟨⟨trivial, fun call none_ => absurd none_ (Nat.not_lt_zero call)⟩, (s', A), ran,
          ⟨mid', opened, rfl, rfl⟩⟩
      · have mallocs : (Event.receive fd data).mallocs past = 2 := if_neg old
        rw [Event.Served, mallocs]
        by_cases granted : A.grants A.calls = true ∧ A.grants (A.calls + 1) = true
        · obtain ⟨s', ran, mid', opened⟩ := recvData_new mid possible outside data old granted
          refine .inl ⟨⟨trivial, fun call below => ?_⟩, (s', A.next.next), ran,
            ⟨mid', opened, rfl, rfl⟩⟩
          match call, below with
          | 0, _ => exact granted.1
          | 1, _ => exact granted.2
        · refine .inr ⟨fun served => granted ⟨served.2 0 (by decide), served.2 1 (by decide)⟩, ?_⟩
          exact ⟨_, recvData_refused mid possible outside data old granted⟩
  | disconnect fd =>
      obtain ⟨s', ran, mid', opened⟩ := recvNothing_mid mid (once fd rfl)
      refine .inl ⟨⟨trivial, fun call none_ => absurd none_ (Nat.not_lt_zero call)⟩, (s', A), ?_,
        ⟨?_, opened, rfl, rfl⟩⟩
      · show (liftM (recvNothing s fd) : CM Server) A = _
        rw [ran]
        rfl
      · rw [show (Event.disconnect fd).received.toList = [] from rfl, List.append_nil]
        exact mid'

/-- The calls of `malloc` for a round. -/
def mallocsAll (past : List Nat) (events : List Event) : Nat :=
  (events.map (Event.mallocs past)).sum

def ServedAll (past : List Nat) (A : Allocator) (events : List Event) : Prop :=
  (∀ event ∈ events, event.InTable) ∧
    ∀ call < mallocsAll past events, A.grants (A.calls + call) = true

theorem mallocsAll_cons (past : List Nat) (event : Event) (rest : List Event) :
    mallocsAll past (event :: rest) = event.mallocs past + mallocsAll past rest := rfl

theorem servedAll_cons {event : Event} {rest : List Event} {B : Allocator}
    (grants : B.grants = A.grants) (calls : B.calls = A.calls + event.mallocs past) :
    ServedAll past A (event :: rest) ↔ event.Served past A ∧ ServedAll past B rest := by
  unfold ServedAll Event.Served
  rw [mallocsAll_cons, grants, calls]
  constructor
  · intro served
    refine ⟨⟨served.1 event List.mem_cons_self, fun call below => served.2 call (by omega)⟩,
      fun other member => served.1 other (List.mem_cons_of_mem _ member), fun call below => ?_⟩
    rw [Nat.add_assoc]
    exact served.2 _ (by omega)
  · intro served
    refine ⟨fun other member => ?_, fun call below => ?_⟩
    · rcases List.mem_cons.mp member with rfl | later
      · exact served.1.1
      · exact served.2.1 other later
    · by_cases first : call < event.mallocs past
      · exact served.1.2 call first
      · have rest := served.2.2 (call - event.mallocs past) (by omega)
        rw [show A.calls + event.mallocs past + (call - event.mallocs past) = A.calls + call by
          omega] at rest
        exact rest

/-- The descriptors of the receives are among those that are reported. -/
theorem received_sublist (got : List Handled) (event : Event) (rest : List Event) :
    ((got ++ event.received.toList).map Handled.fd ++ rest.filterMap Event.reported).Sublist
      (got.map Handled.fd ++ (event :: rest).filterMap Event.reported) := by
  rw [List.map_append, List.append_assoc]
  apply List.Sublist.append_left
  cases event with
  | accept clientfd => exact .refl _
  | receive fd data => exact .refl _
  | disconnect fd => exact .cons fd (.refl _)

theorem dispatchAll_run {events : List Event} (mid : Mid past got s A.calls)
    (possible : PossibleAll s.opened events)
    (once : (got.map Handled.fd ++ events.filterMap Event.reported).Nodup) :
    (ServedAll past A events ∧ ∃ d, dispatchAll s events A = .ok d ∧
      Advanced past got (received events) A (mallocsAll past events)
        (events.foldl Event.opens s.opened) d) ∨
    (¬ ServedAll past A events ∧ ∃ fault, dispatchAll s events A = .error fault) := by
  induction events generalizing s A got with
  | nil =>
      refine .inl ⟨⟨fun _ member => absurd member List.not_mem_nil,
        fun call none_ => absurd none_ (Nat.not_lt_zero call)⟩, (s, A), rfl, ?_, rfl, rfl, rfl⟩
      rw [show received [] = [] from rfl, List.append_nil]
      exact mid
  | cons event rest ih =>
      have outside (fd : Nat) (reported : event.reported = some fd) :
          fd ∉ got.map Handled.fd := by
        intro member
        have first : fd ∈ (event :: rest).filterMap Event.reported :=
          List.mem_filterMap.mpr ⟨event, List.mem_cons_self, reported⟩
        exact (List.nodup_append.mp once).2.2 fd member fd first rfl
      rcases dispatch_run mid possible.1 outside with
        ⟨served, ⟨s₁, B⟩, ran, mid₁, opened, grants, calls⟩ | ⟨refused, fault, failed⟩
      · have possible₁ : PossibleAll s₁.opened rest := by
          rw [show s₁.opened = event.opens s.opened from opened]
          exact possible.2
        have step : dispatchAll s (event :: rest) A = dispatchAll s₁ rest B := bind_ok ran
        rw [servedAll_cons grants calls, step]
        rcases ih mid₁ possible₁ (once.sublist (received_sublist got event rest)) with
          ⟨servedRest, d, ran', mid', opened', grants', calls'⟩ | ⟨refused, failed⟩
        · refine .inl ⟨⟨served, servedRest⟩, d, ran', ?_, ?_, grants'.trans grants, ?_⟩
          · have all : received (event :: rest) = event.received.toList ++ received rest := by
              cases event <;> rfl
            rw [all, ← List.append_assoc]
            exact mid'
          · rw [opened', List.foldl_cons]
            exact congrArg (rest.foldl Event.opens) opened
          · rw [calls', mallocsAll_cons, ← Nat.add_assoc]
            exact congrArg (· + mallocsAll past rest) calls
        · exact .inr ⟨fun both => refused both.2, failed⟩
      · refine .inr ⟨fun all => refused ?_, fault, bind_error failed⟩
        let B : Allocator := { A with calls := A.calls + event.mallocs past }
        have both := (servedAll_cons (A := A) (B := B) rfl rfl).mp all
        exact both.1

end Events

end LinuxCpp.Coroutine
