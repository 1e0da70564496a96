import LinuxCpp.Coroutine.Scheduler
import Mathlib.Data.List.Nodup

set_option autoImplicit false

/- The ready queue as the list of its coroutines. -/
namespace LinuxCpp.Coroutine

open C

/-- The coroutines that are reached from a pointer through `next`. -/
def Linked (heap : Nat → Option Co) : Option Nat → List Nat → Prop
  | p, [] => p = none
  | p, co :: rest => p = some co ∧ ∃ value, heap co = some value ∧ Linked heap value.next rest

/-- The queue holds these coroutines, each of them once. -/
structure Queue (s : Server) (queued : List Nat) : Prop where
  linked : Linked s.heap s.readyQueueHead queued
  tail : s.readyQueueTail = queued.getLast?
  nodup : queued.Nodup

/-- A coroutine but for its place in the queue. -/
def Server.core (s : Server) (co : Nat) : Option Co :=
  (s.heap co).map fun value => { value with next := none }

/-- Nothing but the queue has changed. -/
structure Server.SameButQueue (s s' : Server) : Prop where
  conns : s'.conns = s.conns
  running : s'.running = s.running
  opened : s'.opened = s.opened
  handled : s'.handled = s.handled
  core : s'.core = s.core

section Linked

variable {heap : Nat → Option Co} {p : Option Nat} {queued : List Nat} {co tail : Nat}
  {value : Co}

theorem Linked.mem (linked : Linked heap p queued) (member : co ∈ queued) :
    ∃ value, heap co = some value := by
  induction queued generalizing p with
  | nil => exact absurd member List.not_mem_nil
  | cons first rest ih =>
      obtain ⟨-, value, live, linked⟩ := linked
      rcases List.mem_cons.mp member with rfl | later
      · exact ⟨value, live⟩
      · exact ih linked later

/-- What stands outside of the queue does not matter. -/
theorem Linked.update (linked : Linked heap p queued) (outside : co ∉ queued)
    (new : Option Co) : Linked (Function.update heap co new) p queued := by
  induction queued generalizing p with
  | nil => exact linked
  | cons first rest ih =>
      obtain ⟨head, value, live, linked⟩ := linked
      have other : first ≠ co := fun same => outside (same ▸ List.mem_cons_self)
      refine ⟨head, value, ?_, ih linked fun later => outside (List.mem_cons_of_mem _ later)⟩
      rw [Function.update_of_ne other]
      exact live

/-- A coroutine is written that keeps its place. -/
theorem Linked.write (linked : Linked heap p queued) (live : heap co = some value) {v : Co}
    (same : v.next = value.next) : Linked (Function.update heap co (some v)) p queued := by
  induction queued generalizing p with
  | nil => exact linked
  | cons first rest ih =>
      obtain ⟨head, value', live', linked⟩ := linked
      by_cases here : first = co
      · rw [here, live] at live'
        cases live'
        refine ⟨head, v, ?_, ?_⟩
        · rw [here, Function.update_self]
        · rw [same]
          exact ih linked
      · refine ⟨head, value', ?_, ih linked⟩
        rw [Function.update_of_ne here]
        exact live'

theorem Linked.snoc {init : List Nat} (linked : Linked heap p (init ++ [tail]))
    (nodup : (init ++ [tail]).Nodup)
    (outside : co ∉ init ++ [tail]) {v : Co} (last : v.next = none) :
    Linked (Function.update (Function.update heap tail (some { value with next := some co })) co
      (some v)) p (init ++ [tail] ++ [co]) := by
  induction init generalizing p with
  | nil =>
      obtain ⟨head, -⟩ := linked
      have other : tail ≠ co := fun same => outside (same ▸ List.mem_cons_self)
      refine ⟨head, { value with next := some co }, ?_, rfl, v, ?_, last⟩
      · rw [Function.update_of_ne other, Function.update_self]
      · rw [Function.update_self]
  | cons first rest ih =>
      obtain ⟨head, value', live', linked⟩ := linked
      rw [List.cons_append, List.nodup_cons] at nodup
      have other : first ≠ co := fun same => outside (same ▸ List.mem_cons_self)
      have inner : first ≠ tail := fun same => nodup.1 (by simp [same])
      refine ⟨head, value', ?_,
        ih linked nodup.2 fun later => outside (List.mem_cons_of_mem _ later)⟩
      rw [Function.update_of_ne other, Function.update_of_ne inner]
      exact live'

end Linked

section Adding

variable {s : Server} {queued : List Nat} {co : Nat} {value : Co}

@[simp] theorem Server.deref_ok (live : s.heap co = some value) : s.deref co = .ok value := by
  unfold Server.deref
  rw [live]

theorem Server.setCo_self (s : Server) (co : Nat) (value : Co) :
    (s.setCo co value).heap co = some value := Function.update_self ..

theorem Server.setCo_other (s : Server) {co other : Nat} (differs : other ≠ co) (value : Co) :
    (s.setCo co value).heap other = s.heap other := Function.update_of_ne differs ..

theorem core_setCo_self (s : Server) (co : Nat) (value : Co) :
    (s.setCo co value).core co = some { value with next := none } := by
  unfold Server.core
  rw [Server.setCo_self]
  rfl

theorem core_setCo_other (s : Server) {co other : Nat} (differs : other ≠ co) (value : Co) :
    (s.setCo co value).core other = s.core other := by
  unfold Server.core
  rw [Server.setCo_other s differs]

theorem setState_ok (live : s.heap co = some value) (state : CoState) :
    s.setState co state = .ok (s.setCo co { value with state := state }) := by
  unfold Server.setState
  rw [Server.deref_ok live]
  rfl

/-- Writing the `next` of a coroutine. -/
theorem core_setCo (live : s.heap co = some value) (next : Option Nat) :
    (s.setCo co { value with next := next }).core = s.core := by
  funext other
  by_cases same : other = co
  · rw [same, core_setCo_self, Server.core, live]
    rfl
  · exact core_setCo_other s same _

/-- `schedule_add` of a coroutine that is not in the queue. -/
theorem scheduleAdd_queue (queue : Queue s queued) (outside : co ∉ queued)
    (live : s.heap co = some value) :
    ∃ s', scheduleAdd s co = .ok s' ∧ Queue s' (queued ++ [co]) ∧ s.SameButQueue s' := by
  have nodup : (queued ++ [co]).Nodup :=
    List.nodup_append.mpr ⟨queue.nodup, List.nodup_singleton co, fun a at_a b at_b same =>
      outside (List.mem_singleton.mp at_b ▸ same ▸ at_a)⟩
  unfold scheduleAdd
  rcases List.eq_nil_or_concat' queued with rfl | ⟨init, tail, rfl⟩
  · have none_ : s.readyQueueTail = none := queue.tail
    have found : Server.deref { s with readyQueueHead := some co, readyQueueTail := some co } co =
        .ok value := Server.deref_ok live
    rw [none_]
    simp only [pure_bind, found, ok_bind]
    refine ⟨_, rfl, ⟨⟨rfl, _, Server.setCo_self .., rfl⟩, rfl, nodup⟩, rfl, rfl, rfl, rfl, ?_⟩
    exact core_setCo (s := { s with readyQueueHead := some co, readyQueueTail := some co }) live _
  · have last : s.readyQueueTail = some tail := by
      rw [queue.tail]
      simp
    have other : co ≠ tail := fun same => outside (by simp [same])
    obtain ⟨before, at_tail⟩ := queue.linked.mem (List.mem_append_right init List.mem_cons_self)
    have found : Server.deref { s.setCo tail { before with next := some co } with
        readyQueueTail := some co } co = .ok value := by
      apply Server.deref_ok
      exact (Server.setCo_other s other _).trans live
    rw [last]
    simp only [Server.deref_ok at_tail, ok_bind, pure_bind, found]
    refine ⟨_, rfl, ⟨?_, ?_, nodup⟩, rfl, rfl, rfl, rfl, ?_⟩
    · exact queue.linked.snoc queue.nodup outside rfl
    · simp [Server.setCo]
    · have live' : (s.setCo tail { before with next := some co }).heap co = some value :=
        (Server.setCo_other s other _).trans live
      exact (core_setCo live' none).trans (core_setCo at_tail (some co))

end Adding

/-- The call never comes back to the server. -/
def Transfer.cut : Transfer → Bool
  | sent _ | failed => false
  | killed | blocked => true

/-- The server does not get through the response. -/
def Answer.cut : Answer → Bool
  | missing text => text.cut
  | picture (.sent _) body => body.cut
  | picture header _ => header.cut

theorem Transfer.result_ok {transfer : Transfer} (whole : transfer.cut = false) :
    ∃ count, transfer.result = .ok count := by
  cases transfer with
  | sent count => exact ⟨count, rfl⟩
  | failed => exact ⟨-1, rfl⟩
  | killed => cases whole
  | blocked => cases whole

theorem Transfer.result_cut {transfer : Transfer} (cut : transfer.cut = true) :
    ∃ fault, transfer.result = .error fault := by
  cases transfer with
  | sent count => cases cut
  | failed => cases cut
  | killed => exact ⟨.killed, rfl⟩
  | blocked => exact ⟨.blocked, rfl⟩

/-- Behind a header that is sent, the picture decides. -/
theorem httpResponse_picture (count : Nat) (body : Transfer) :
    httpResponse (.picture (.sent count) body) =
      body.result.bind fun sent => .ok (if sent < 0 then -1 else 0) := by
  have header : Transfer.result (.sent count) = .ok (count : Int) := rfl
  have positive : ¬ (count : Int) < 0 := by omega
  simp only [httpResponse, header, ok_bind, if_neg positive]
  cases body.result with
  | error fault => rfl
  | ok sent =>
      simp only [ok_bind, Except.bind]
      split <;> rfl

theorem httpResponse_ok {answer : Answer} (whole : answer.cut = false) :
    ∃ code, httpResponse answer = .ok code := by
  cases answer with
  | missing text =>
      obtain ⟨count, taken⟩ := Transfer.result_ok whole
      exact ⟨-1, by rw [httpResponse, taken]; rfl⟩
  | picture header body =>
      cases header with
      | sent count =>
          obtain ⟨sent, taken⟩ := Transfer.result_ok (show body.cut = false from whole)
          exact ⟨_, by rw [httpResponse_picture, taken]; rfl⟩
      | failed => exact ⟨-1, rfl⟩
      | killed => cases whole
      | blocked => cases whole

theorem httpResponse_cut {answer : Answer} (cut : answer.cut = true) :
    ∃ fault, httpResponse answer = .error fault := by
  cases answer with
  | missing text =>
      obtain ⟨fault, stopped⟩ := Transfer.result_cut cut
      exact ⟨fault, by rw [httpResponse, stopped]; rfl⟩
  | picture header body =>
      cases header with
      | sent count =>
          obtain ⟨fault, stopped⟩ := Transfer.result_cut (show body.cut = true from cut)
          exact ⟨fault, by rw [httpResponse_picture, stopped]; rfl⟩
      | failed => cases cut
      | killed => exact ⟨.killed, rfl⟩
      | blocked => exact ⟨.blocked, rfl⟩

section Taking

variable {s : Server} {queued : List Nat} {co : Nat} {value : Co} {answers : Nat → Answer}

/-- The queue without its first coroutine. -/
def Server.pop (s : Server) (value : Co) : Server :=
  { s with
    readyQueueHead := value.next
    readyQueueTail := if value.next = none then none else s.readyQueueTail }

theorem Queue.pop (queue : Queue s (co :: queued)) :
    ∃ value, s.readyQueueHead = some co ∧ s.heap co = some value ∧ co ∉ queued ∧
      Queue (s.pop value) queued := by
  obtain ⟨⟨head, value, live, linked⟩, tail, nodup⟩ := queue
  rw [List.nodup_cons] at nodup
  refine ⟨value, head, live, nodup.1, linked, ?_, nodup.2⟩
  cases queued with
  | nil =>
      have none_ : value.next = none := linked
      exact if_pos none_
  | cons first rest =>
      have some_ : value.next ≠ none := by
        rw [linked.1]
        exact Option.some_ne_none first
      refine (if_neg some_).trans (tail.trans ?_)
      rw [List.getLast?_cons_cons]

theorem setCo_setCo (s : Server) (co : Nat) (first second : Co) :
    (s.setCo co first).setCo co second = s.setCo co second := by
  unfold Server.setCo
  simp only [Function.update_idem]

theorem coroutineHandler_ok {arg : Nat} (whole : (answers (s.conns arg).fd).cut = false)
    (has : (s.conns arg).co = some co) (live : s.heap co = some value) :
    coroutineHandler answers s arg = .ok (Server.setCo { s with
      handled := s.handled ++ [⟨(s.conns arg).fd, (s.conns arg).rbuffer, (s.conns arg).rlength⟩]
      opened := s.opened.erase (s.conns arg).fd } co { value with state := .dead }) := by
  obtain ⟨code, answered⟩ := httpResponse_ok whole
  unfold coroutineHandler
  dsimp only
  rw [answered, ok_bind, has]
  exact setState_ok (by exact live) .dead

theorem coroutineYield_ok (running : s.running = some co) (live : s.heap co = some value) :
    coroutineYield s = .ok (s.setCo co { value with state := .suspend, ctx := .yielded }) := by
  unfold coroutineYield
  rw [running]
  dsimp only
  rw [Server.deref_ok live]
  rfl

/-- The handler has set the state to `COROUTINE_DEAD`, and so has `coroutine_entry`; the
yield writes over it. -/
theorem coroutineEntry_ok (value : Co) (whole : (answers (s.conns value.arg).fd).cut = false)
    (has : (s.conns value.arg).co = some co) (live : s.heap co = some value)
    (running : s.running = some co) :
    coroutineEntry answers s co = .ok (Server.setCo { s with
      handled := s.handled ++ [⟨(s.conns value.arg).fd, (s.conns value.arg).rbuffer,
        (s.conns value.arg).rlength⟩]
      opened := s.opened.erase (s.conns value.arg).fd } co
        { value with state := .suspend, ctx := .yielded }) := by
  unfold coroutineEntry
  rw [Server.deref_ok live, ok_bind, coroutineHandler_ok whole has live, ok_bind,
    setState_ok (Server.setCo_self ..), ok_bind, setCo_setCo,
    coroutineYield_ok (by exact running) (Server.setCo_self ..), setCo_setCo]

/-- The first switch to a coroutine runs its handler. -/
theorem coroutineResume_entry (live : s.heap co = some value) (ctx : value.ctx = .entry)
    (state : value.state = .ready) (whole : (answers (s.conns value.arg).fd).cut = false)
    (has : (s.conns value.arg).co = some co) :
    coroutineResume answers s co = .ok { s.setCo co { value with
      state := .suspend, ctx := .yielded } with
      handled := s.handled ++ [⟨(s.conns value.arg).fd, (s.conns value.arg).rbuffer,
        (s.conns value.arg).rlength⟩]
      opened := s.opened.erase (s.conns value.arg).fd } := by
  have entry := coroutineEntry_ok
    (s := { s.setCo co { value with state := .running } with running := some co })
    { value with state := .running } whole has (Server.setCo_self ..) rfl
  unfold coroutineResume
  rw [Server.deref_ok live, ok_bind, if_neg (by rw [state]; decide)]
  dsimp only
  rw [ctx] at entry ⊢
  dsimp only
  rw [entry, ok_bind]
  simp only [Server.setCo, Function.update_idem]
  rfl

/-- The first switch to a coroutine whose response is cut does not come back. -/
theorem coroutineResume_cut (live : s.heap co = some value) (ctx : value.ctx = .entry)
    (state : value.state = .ready) (cut : (answers (s.conns value.arg).fd).cut = true) :
    ∃ fault, coroutineResume answers s co = .error fault := by
  obtain ⟨fault, stopped⟩ := httpResponse_cut cut
  have handler : coroutineHandler answers { s.setCo co { value with state := .running } with
      running := some co } value.arg = .error fault := by
    unfold coroutineHandler
    dsimp only
    rw [show (Server.setCo s co { value with state := .running }).conns = s.conns from rfl,
      stopped]
    rfl
  refine ⟨fault, ?_⟩
  unfold coroutineResume
  rw [Server.deref_ok live, ok_bind, if_neg (by rw [state]; decide)]
  dsimp only
  rw [ctx]
  dsimp only
  unfold coroutineEntry
  have found : Server.deref { s.setCo co { value with state := .running } with
      running := some co } co = .ok { value with state := .running } :=
    Server.deref_ok (Server.setCo_self ..)
  rw [ctx] at found handler
  rw [found, ok_bind, handler]
  rfl

/-- The second switch returns from its function. -/
theorem coroutineResume_yielded (live : s.heap co = some value) (ctx : value.ctx = .yielded)
    (state : value.state ≠ .dead) :
    coroutineResume answers s co =
      .ok (s.setCo co { value with state := .running, ctx := .returned }) := by
  unfold coroutineResume
  rw [Server.deref_ok live, ok_bind, if_neg state]
  dsimp only
  rw [ctx]
  dsimp only
  rw [pure_bind]
  simp only [Server.setCo, Function.update_idem]
  rfl

end Taking

end LinuxCpp.Coroutine
