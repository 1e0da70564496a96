import LinuxCpp.Coroutine.Receives

set_option autoImplicit false

/- A pass over the ready queue. -/
namespace LinuxCpp.Coroutine

open C

/-- The queue holds the coroutines of these receives. -/
structure Ready (past : List Nat) (got : List Handled) (s : Server) (queued : List Nat) :
    Prop where
  idle : s.running = none
  queue : Queue s queued
  cos : queued.map some = got.map fun r => (s.conns r.fd).co
  named : ∀ r ∈ got, (s.conns r.fd).fd = r.fd
  kept : ∀ r ∈ got, (s.conns r.fd).rbuffer = r.rbuffer ∧ (s.conns r.fd).rlength = r.rlength
  finished : ∀ r ∈ got, r.fd ∈ past → Finished s r.fd
  waiting : ∀ r ∈ got, r.fd ∉ past → Waiting s r.fd

/-- The first coroutine of the queue has been taken, and replaced in the heap. -/
def Server.took (s : Server) (co : Nat) (value : Co) (new : Option Co) (executed : List Handled)
    (opened : List Nat) : Server :=
  { s.pop value with
    heap := Function.update s.heap co new
    handled := s.handled ++ executed
    opened := opened }

/-- A coroutine behind its function. -/
def Co.Spent (value : Co) (fd : Nat) : Prop :=
  value.arg = fd ∧ value.ctx = .yielded ∧ value.state = .suspend

/-- The receives whose handler the pass runs. -/
def runnable (past : List Nat) (got : List Handled) : List Handled :=
  got.filter fun r => r.fd ∉ past

/-- The handlers close their connections. -/
def closes (opened : List Nat) (executed : List Handled) : List Nat :=
  executed.foldl (fun opened r => opened.erase r.fd) opened

/-- What the pass makes of the receives. -/
structure Passed (past : List Nat) (got : List Handled) (s s' : Server) (queued : List Nat) :
    Prop where
  idle : s'.running = none
  queue : Queue s' []
  conns : s'.conns = s.conns
  opened : s'.opened = closes s.opened (runnable past got)
  handled : s'.handled = s.handled ++ runnable past got
  apart : ∀ co ∉ queued, s'.core co = s.core co
  lived : ∀ co value, s'.core co = some value → ∃ before, s.core co = some before
  spent : ∀ r ∈ got, r.fd ∉ past → Finished s' r.fd

section Steps

variable {past : List Nat} {got : List Handled} {s : Server} {queued : List Nat} {co : Nat}
  {value : Co} {r : Handled} {A : Allocator} {bound : Nat} {answers : Nat → Answer}

theorem took_core (new : Option Co) (executed : List Handled) (opened : List Nat) {other : Nat}
    (differs : other ≠ co) : (s.took co value new executed opened).core other = s.core other := by
  have same : (s.took co value new executed opened).heap other = s.heap other := by
    show Function.update s.heap co new other = s.heap other
    rw [Function.update_of_ne differs]
  unfold Server.core
  rw [same]

theorem took_core_self (new : Co) (executed : List Handled) (opened : List Nat) :
    (s.took co value (some new) executed opened).core co = some { new with next := none } := by
  have same : (s.took co value (some new) executed opened).heap co = some new := by
    show Function.update s.heap co (some new) co = some new
    rw [Function.update_self]
  unfold Server.core
  rw [same]
  rfl

/-- The receives behind the first one are not touched. -/
theorem Ready.took (ready : Ready past (r :: got) s (co :: queued)) (outside : co ∉ queued)
    (popped : Queue (s.pop value) queued) (new : Option Co) (executed : List Handled)
    (opened : List Nat) : Ready past got (s.took co value new executed opened) queued := by
  have cos : queued.map some = got.map fun r => (s.conns r.fd).co := (List.cons.inj ready.cos).2
  have frame {q : Handled} (member : q ∈ got) (c : Nat) (has : (s.conns q.fd).co = some c) :
      (s.took co value new executed opened).core c = s.core c := by
    apply took_core
    intro same
    have at_q : some co ∈ queued.map some := by
      rw [cos, ← same, ← has]
      exact List.mem_map_of_mem (f := fun r => (s.conns r.fd).co) member
    obtain ⟨c', at_c, equal⟩ := List.mem_map.mp at_q
    cases equal
    exact outside at_c
  refine ⟨ready.idle, ⟨popped.linked.update outside new, popped.tail, popped.nodup⟩, cos,
    fun q member => ready.named q (List.mem_cons_of_mem _ member),
    fun q member => ready.kept q (List.mem_cons_of_mem _ member), ?_, ?_⟩
  · intro q member old
    exact (ready.finished q (List.mem_cons_of_mem _ member) old).frame rfl (frame member)
  · intro q member fresh
    exact (ready.waiting q (List.mem_cons_of_mem _ member) fresh).frame rfl (frame member)

theorem executeReadyCoroutines_cons (head : s.readyQueueHead = some co)
    (live : s.heap co = some value) :
    executeReadyCoroutines answers (bound + 1) s A = (if value.state = .dead then
      (coroutineDestroy (s.pop value) co >>= fun s => executeReadyCoroutines answers bound s) A
    else (liftM (coroutineResume answers (s.pop value) co) >>= fun s =>
      executeReadyCoroutines answers bound s) A) := by
  conv_lhs => unfold executeReadyCoroutines
  rw [head]
  dsimp only
  rw [lift_bind_ok (Server.deref_ok live)]
  split <;> rfl

theorem coroutineDestroy_ok (live : s.heap co = some value) :
    coroutineDestroy s co A = .ok ({ s with heap := Function.update s.heap co none },
      { A with freed := co :: value.stack :: A.freed }) := by
  unfold coroutineDestroy
  rw [lift_bind_ok (Server.deref_ok live), bind_ok (freeBlock_run A _),
    bind_ok (freeBlock_run _ _)]
  rfl

/-- The first coroutine of the queue, where it waits. -/
theorem Ready.first (ready : Ready past (r :: got) s (co :: queued)) (fresh : r.fd ∉ past) :
    ∃ value, s.readyQueueHead = some co ∧ s.heap co = some value ∧ co ∉ queued ∧
      Queue (s.pop value) queued ∧ (s.conns r.fd).co = some co ∧ value.arg = r.fd ∧
      value.ctx = .entry ∧ value.state = .ready := by
  obtain ⟨value, head, live, outside, popped⟩ := ready.queue.pop
  have has : (s.conns r.fd).co = some co := (List.cons.inj ready.cos).1.symm
  obtain ⟨c, core, has', at_core, arg, ctx, state⟩ := ready.waiting r List.mem_cons_self fresh
  cases has.symm.trans has'
  obtain ⟨v, at_v, rfl⟩ := core_live at_core
  cases live.symm.trans at_v
  exact ⟨value, head, live, outside, popped, has, arg, ctx, state⟩

/-- The coroutine waits: the handler runs on the data of the connection. -/
theorem executes_waiting (bound : Nat) (ready : Ready past (r :: got) s (co :: queued))
    (fresh : r.fd ∉ past) (whole : (answers r.fd).cut = false) :
    ∃ value new, s.heap co = some value ∧ Queue (s.pop value) queued ∧ co ∉ queued ∧
      new.Spent r.fd ∧ (s.conns r.fd).co = some co ∧
      executeReadyCoroutines answers (bound + 1) s A = executeReadyCoroutines answers bound
        (s.took co value (some new) [r] (s.opened.erase r.fd)) A := by
  obtain ⟨value, head, live, outside, popped, has, arg, ctx, state⟩ := ready.first fresh
  refine ⟨value, { value with state := .suspend, ctx := .yielded }, live, popped, outside,
    ⟨arg, rfl, rfl⟩, has, ?_⟩
  have at_arg : (s.pop value).conns value.arg = s.conns r.fd := congrArg s.conns arg
  have closed : ((s.pop value).conns value.arg).fd = r.fd :=
    (congrArg Conn.fd at_arg).trans (ready.named r List.mem_cons_self)
  have resumed := coroutineResume_entry (s := s.pop value) live ctx state (closed.symm ▸ whole)
    ((congrArg Conn.co at_arg).trans has)
  have execution : (⟨((s.pop value).conns value.arg).fd, ((s.pop value).conns value.arg).rbuffer,
      ((s.pop value).conns value.arg).rlength⟩ : Handled) = r := by
    obtain ⟨rbuffer, rlength⟩ := ready.kept r List.mem_cons_self
    rw [closed, at_arg, rbuffer, rlength]
  have alive : value.state ≠ .dead := by
    rw [show value.state = .ready from state]
    decide
  rw [execution, closed] at resumed
  rw [executeReadyCoroutines_cons head live, if_neg alive, lift_bind_ok resumed]
  rfl

/-- The coroutine waits, and the server does not get through its response. -/
theorem executes_cut (bound : Nat) (ready : Ready past (r :: got) s (co :: queued))
    (fresh : r.fd ∉ past) (cut : (answers r.fd).cut = true) :
    ∃ fault, executeReadyCoroutines answers (bound + 1) s A = .error fault := by
  obtain ⟨value, head, live, -, -, -, arg, ctx, state⟩ := ready.first fresh
  have closed : ((s.pop value).conns value.arg).fd = r.fd :=
    (congrArg (fun fd => (s.conns fd).fd) arg).trans (ready.named r List.mem_cons_self)
  obtain ⟨fault, resumed⟩ :=
    coroutineResume_cut (s := s.pop value) live ctx state (closed.symm ▸ cut)
  have alive : value.state ≠ .dead := by
    rw [state]
    decide
  refine ⟨fault, ?_⟩
  rw [executeReadyCoroutines_cons head live, if_neg alive]
  apply bind_error
  rw [resumed]
  rfl

variable (answers) in
/-- The handler of the coroutine is done: it is resumed behind its function, or given back. -/
theorem executes_finished (bound : Nat) (ready : Ready past (r :: got) s (co :: queued))
    (old : r.fd ∈ past) :
    ∃ value new B, s.heap co = some value ∧ Queue (s.pop value) queued ∧ co ∉ queued ∧
      B.grants = A.grants ∧ B.calls = A.calls ∧
      executeReadyCoroutines answers (bound + 1) s A =
        executeReadyCoroutines answers bound (s.took co value new [] s.opened) B := by
  obtain ⟨value, head, live, outside, popped⟩ := ready.queue.pop
  have has : (s.conns r.fd).co = some co := (List.cons.inj ready.cos).1.symm
  obtain ⟨c, core, has', at_core, -, ctx, state⟩ := ready.finished r List.mem_cons_self old
  cases has.symm.trans has'
  obtain ⟨v, at_v, rfl⟩ := core_live at_core
  cases live.symm.trans at_v
  have unchanged : s.handled = s.handled ++ [] := (List.append_nil _).symm
  rw [executeReadyCoroutines_cons head live]
  by_cases dead : value.state = .dead
  · have destroyed := coroutineDestroy_ok (s := s.pop value) (A := A) live
    rw [if_pos dead, bind_ok destroyed]
    refine ⟨value, none, { A with freed := co :: value.stack :: A.freed }, live, popped, outside,
      rfl, rfl, ?_⟩
    unfold Server.took
    rw [← unchanged]
    rfl
  · have resumed : coroutineResume answers (s.pop value) co = _ :=
      coroutineResume_yielded (s := s.pop value) live ctx dead
    rw [if_neg dead, lift_bind_ok resumed]
    refine ⟨value, some { value with state := .running, ctx := .returned }, A, live, popped,
      outside, rfl, rfl, ?_⟩
    unfold Server.took
    rw [← unchanged]
    rfl

/-- The first coroutine and then the others. -/
theorem Passed.first {s' : Server} {new : Option Co} {executed : List Handled}
    {opened : List Nat}
    (later : Passed past got (s.took co value new executed opened) s' queued)
    (live : s.heap co = some value) (outside : co ∉ queued)
    (ran : executed = runnable past [r]) (closed : opened = closes s.opened executed)
    (spent : r.fd ∉ past → (s.conns r.fd).co = some co ∧ ∃ v, new = some v ∧ v.Spent r.fd) :
    Passed past (r :: got) s s' (co :: queued) := by
  have both : runnable past (r :: got) = executed ++ runnable past got := by
    rw [ran]
    exact List.filter_append [r] got
  refine ⟨later.idle, later.queue, later.conns, ?_, ?_, ?_, ?_, ?_⟩
  · rw [later.opened, both]
    unfold closes
    rw [List.foldl_append]
    exact congrArg (fun opened => closes opened _) closed
  · rw [later.handled, both, ← List.append_assoc]
    rfl
  · intro other away
    rw [List.mem_cons, not_or] at away
    exact (later.apart other away.2).trans (took_core _ _ _ away.1)
  · intro other after lives
    obtain ⟨before, lived⟩ := later.lived other after lives
    by_cases same : other = co
    · refine ⟨{ value with next := none }, ?_⟩
      unfold Server.core
      rw [same, live]
      rfl
    · exact ⟨before, (took_core _ _ _ same).symm.trans lived⟩
  · intro q member fresh
    rcases List.mem_cons.mp member with rfl | behind
    · obtain ⟨has, v, rfl, arg, ctx, state⟩ := spent fresh
      refine ⟨co, { v with next := none }, ?_, ?_, arg, ctx, .inl state⟩
      · rw [later.conns]
        exact has
      · exact (later.apart co outside).trans (took_core_self v _ _)
    · exact later.spent q behind fresh

/-- No response of the pass is cut. -/
def Whole (past : List Nat) (got : List Handled) (answers : Nat → Answer) : Prop :=
  ∀ r ∈ runnable past got, (answers r.fd).cut = false

theorem whole_old (old : r.fd ∈ past) : Whole past (r :: got) answers ↔ Whole past got answers := by
  have same : runnable past (r :: got) = runnable past got :=
    List.filter_cons_of_neg (by simpa using old)
  rw [Whole, Whole, same]

theorem whole_new (fresh : r.fd ∉ past) :
    Whole past (r :: got) answers ↔ (answers r.fd).cut = false ∧ Whole past got answers := by
  have more : runnable past (r :: got) = r :: runnable past got :=
    List.filter_cons_of_pos (by simpa using fresh)
  rw [Whole, Whole, more, List.forall_mem_cons]

/-- The pass runs the handlers of the coroutines that wait, each of them once, or the
server stays in one of them. -/
theorem executeReadyCoroutines_run (ready : Ready past got s queued)
    (enough : got.length ≤ bound) :
    (Whole past got answers ∧ ∃ s' B, executeReadyCoroutines answers bound s A = .ok (s', B) ∧
      B.grants = A.grants ∧ B.calls = A.calls ∧ Passed past got s s' queued) ∨
    (¬ Whole past got answers ∧
      ∃ fault, executeReadyCoroutines answers bound s A = .error fault) := by
  induction got generalizing s queued bound A with
  | nil =>
      have empty : queued = [] := List.map_eq_nil_iff.mp ready.cos
      subst empty
      have head : s.readyQueueHead = none := ready.queue.linked
      refine .inl ⟨fun r member => absurd member List.not_mem_nil, s, A, ?_, rfl, rfl, ready.idle,
        ready.queue, rfl, rfl, (List.append_nil _).symm, fun _ _ => rfl,
        fun _ value live => ⟨value, live⟩, ?_⟩
      · unfold executeReadyCoroutines
        rw [head]
        rfl
      · exact fun r member => absurd member List.not_mem_nil
  | cons r got ih =>
      obtain _ | ⟨co, queued⟩ := queued
      · cases ready.cos
      obtain _ | bound := bound
      · cases enough
      have within : got.length ≤ bound := Nat.le_of_succ_le_succ enough
      by_cases old : r.fd ∈ past
      · obtain ⟨value, new, B, live, popped, outside, grants, calls, ran⟩ :=
          executes_finished (A := A) answers bound ready old
        rw [whole_old old, ran]
        rcases ih (A := B) (ready.took outside popped new [] s.opened) within with
          ⟨whole, s', C, ran', grants', calls', passed⟩ | cut
        · refine .inl ⟨whole, s', C, ran', grants'.trans grants, calls'.trans calls, ?_⟩
          have none_ : [] = runnable past [r] := by simp [runnable, old]
          apply passed.first live outside none_ rfl
          exact fun fresh => absurd old fresh
        · exact .inr cut
      · rw [whole_new old]
        cases answered : (answers r.fd).cut with
        | true =>
            exact .inr ⟨fun both => Bool.noConfusion both.1, executes_cut bound ready old answered⟩
        | false =>
            obtain ⟨value, new, live, popped, outside, spent, has, ran⟩ :=
              executes_waiting (A := A) bound ready old answered
            rw [ran]
            rcases ih (A := A) (ready.took outside popped (some new) [r]
              (s.opened.erase r.fd)) within with
              ⟨whole, s', C, ran', grants', calls', passed⟩ | ⟨cut, failed⟩
            · refine .inl ⟨⟨rfl, whole⟩, s', C, ran', grants', calls', ?_⟩
              have one : [r] = runnable past [r] := by simp [runnable, old]
              apply passed.first live outside one rfl
              exact fun _ => ⟨has, new, rfl, spent⟩
            · exact .inr ⟨fun both => cut both.2, failed⟩

end Steps

end LinuxCpp.Coroutine
