import LinuxCpp.C.Returns
import LinuxCpp.Coroutine.Scheduler
import LinuxCpp.Trace.Along

set_option autoImplicit false

/- The scheduler of reactor_coroutine.c under any functions: coroutines that resume each
other, yield, and run the loop themselves. -/
namespace LinuxCpp.Coroutine.Contexts

open C Trace

/-- What `co->ctx` goes on with: `coroutine_entry`, the end of `coroutine_resume` with its
`curr`, the end of a `coroutine_yield` in the function or of the one behind it, or nothing,
since it has returned to `uc_link`. -/
inductive Ctx where
  | entry
  | resuming (curr : Option Nat)
  | yielding
  | leaving
  | returned
deriving DecidableEq, Repr

/-- `struct coroutine`, and whether its function has returned. -/
structure Co where
  state : CoState
  ctx : Ctx
  next : Option Nat
  returned : Bool
deriving DecidableEq, Repr

/-- A switch to a coroutine, or its removal from the ready queue, with or without
`coroutine_destroy`. -/
inductive Happening where
  | resumed (co : Nat) (returned : Bool)
  | taken (co : Nat) (returned destroyed : Bool)
deriving DecidableEq, Repr

/-- `struct scheduler` with the coroutines. `mainCtx` is the `curr` of the `coroutine_resume`
that `main_ctx` was saved in, and `current` the coroutine that executes, if not `main`. -/
structure Sched where
  heap : Nat → Option Co
  mainCtx : Option (Option Nat)
  running : Option Nat
  readyQueueHead : Option Nat
  readyQueueTail : Option Nat
  current : Option Nat
  log : List Happening

namespace Sched

/-- After `scheduler_create`. -/
def start : Sched := ⟨fun _ => none, none, none, none, none, none, []⟩

/-- `*co` -/
def deref (s : Sched) (co : Nat) : Except Fault Co :=
  match s.heap co with
  | none => .error .useAfterFree
  | some value => .ok value

/-- `*co = value` -/
def setCo (s : Sched) (co : Nat) (value : Co) : Sched :=
  { s with heap := Function.update s.heap co (some value) }

end Sched

/-- Neither result of `malloc` is looked at. -/
def coroutineCreate (s : Sched) : Option Nat → Except Fault Sched
  | none => .error .nullDeref
  | some co => .ok (s.setCo co ⟨.ready, .entry, none, false⟩)

/-- A coroutine that executes stands on the stack that is freed. -/
def coroutineDestroy (s : Sched) (co : Nat) : Except Fault Sched :=
  if s.current = some co then .error .useAfterFree
  else .ok { s with heap := Function.update s.heap co none }

def scheduleAdd (s : Sched) (co : Nat) : Except Fault Sched := do
  let s ← match s.readyQueueTail with
    | some tail => pure (s.setCo tail { ← s.deref tail with next := some co })
    | none => pure { s with readyQueueHead := some co }
  let s := { s with readyQueueTail := some co }
  return s.setCo co { ← s.deref co with next := none }

/-- `main_ctx` goes on: the rest of `coroutine_resume`. -/
def switchToMain (s : Sched) : Except Fault Sched :=
  match s.mainCtx with
  | none => .error .wildDeref
  | some curr => .ok { s with running := curr, current := none }

/-- `co->ctx` goes on. -/
def switchTo (s : Sched) (co : Nat) : Except Fault Sched := do
  let value ← s.deref co
  match value.ctx with
  | .entry => return { s with current := some co }
  | .resuming curr => return { s with running := curr, current := some co }
  | .yielding => return { s with current := some co }
  | .leaving => switchToMain (s.setCo co { value with ctx := .returned })
  | .returned => throw .wildDeref

def coroutineResume (s : Sched) (co : Nat) : Except Fault Sched := do
  let value ← s.deref co
  if value.state = .dead then return s
  let curr := s.running
  let s := { s.setCo co { value with state := .running } with
    running := some co
    log := s.log ++ [Happening.resumed co value.returned] }
  let s ← match curr with
    | some c => pure (s.setCo c { ← s.deref c with ctx := .resuming curr })
    | none => pure { s with mainCtx := some curr }
  switchTo s co

/-- `coroutine_yield`, with the place in `ctx` where it will go on. -/
def coroutineYield (s : Sched) (ctx : Ctx) : Except Fault Sched := do
  match s.running with
  | none => return s
  | some curr => switchToMain (s.setCo curr { ← s.deref curr with state := .suspend, ctx := ctx })

/-- `coroutine_entry` behind the function of the coroutine. -/
def coroutineEntryEnd (s : Sched) (co : Nat) : Except Fault Sched := do
  let s := s.setCo co { ← s.deref co with state := .dead, returned := true }
  coroutineYield s .leaving

/-- One round of the loop of `execute_ready_coroutines`. -/
def executeRound (s : Sched) : Except Fault Sched := do
  match s.readyQueueHead with
  | none => return s
  | some co =>
      let value ← s.deref co
      let dead : Bool := value.state = .dead
      let s := { s with
        readyQueueHead := value.next
        readyQueueTail := if value.next = none then none else s.readyQueueTail
        log := s.log ++ [Happening.taken co value.returned dead] }
      if dead then coroutineDestroy s co else coroutineResume s co

/-- What the code that executes does next. `create` has the block that `malloc` returns,
which is not one in use, `kill` is `co->state = COROUTINE_DEAD` in a handler, and with `leave`
the function of the coroutine returns. Another step may stand between two rounds, where the
loop has none. -/
inductive Event where
  | create (block : Option Nat)
  | add (co : Nat)
  | resume (co : Nat)
  | yield
  | round
  | leave
  | kill (co : Nat)
deriving DecidableEq, Repr

def step (s : Sched) : Event → Except Fault Sched
  | .create block =>
      match block with
      | none => coroutineCreate s none
      | some co => if s.heap co = none then coroutineCreate s (some co) else .ok s
  | .add co => scheduleAdd s co
  | .resume co => coroutineResume s co
  | .yield => coroutineYield s .yielding
  | .round => executeRound s
  | .leave =>
      match s.current with
      | none => .ok s
      | some co => coroutineEntryEnd s co
  | .kill co => do return s.setCo co { ← s.deref co with state := .dead }

/-- Not a resumption of a coroutine whose function has returned, and not its removal
without `coroutine_destroy`. -/
def Happening.Fine : Happening → Prop
  | .resumed _ returned => returned = false
  | .taken _ returned destroyed => returned = true → destroyed = true

/-- A coroutine is dead from the return of its function on, not resumed, and destroyed when
it is taken from the queue. -/
structure Sched.StaysDead (s : Sched) : Prop where
  dead : ∀ co value, s.heap co = some value → value.returned = true → value.state = .dead
  fine : ∀ happening ∈ s.log, happening.Fine

/-- No function of a coroutine returns in this step. -/
def GoesOn (s : Sched) (event : Event) : Prop := event = .leave → s.current = none

section Invariant

variable {s s' : Sched} {co : Nat} {value : Co}

/-- No function has returned, and each context goes on in its own `coroutine_resume`. -/
structure Kept (s : Sched) : Prop where
  main : ∀ curr, s.mainCtx = some curr → curr = none
  returned : ∀ co value, s.heap co = some value → value.returned = false
  saved : ∀ co value curr, s.heap co = some value → value.ctx = .resuming curr → curr = some co
  fine : ∀ happening ∈ s.log, happening.Fine

/-- `sch->running` is the coroutine that executes. -/
structure Sound (s : Sched) : Prop extends Kept s where
  running : s.running = s.current

theorem sound_start : Sound .start := by
  refine ⟨⟨?_, ?_, ?_, ?_⟩, rfl⟩
  · rintro curr ⟨⟩
  · rintro co value ⟨⟩
  · rintro co value curr ⟨⟩
  · exact fun happening member => absurd member List.not_mem_nil

theorem deref_ok : s.deref co = .ok value ↔ s.heap co = some value := by
  unfold Sched.deref
  cases s.heap co with
  | none => simp
  | some v => simp

theorem Kept.setCo (kept : Kept s) (returned : value.returned = false)
    (saved : ∀ curr, value.ctx = .resuming curr → curr = some co) : Kept (s.setCo co value) := by
  refine ⟨kept.main, ?_, ?_, kept.fine⟩
  · intro other v live
    by_cases same : other = co
    · subst same
      cases (Function.update_self ..).symm.trans live
      exact returned
    · exact kept.returned other v ((Function.update_of_ne same ..).symm.trans live)
  · intro other v curr live
    by_cases same : other = co
    · subst same
      cases (Function.update_self ..).symm.trans live
      exact saved curr
    · exact kept.saved other v curr ((Function.update_of_ne same ..).symm.trans live)

/-- A coroutine is written, its context aside. -/
theorem Kept.write (kept : Kept s) (live : s.heap co = some value) {v : Co}
    (returned : v.returned = value.returned) (ctx : v.ctx = value.ctx) : Kept (s.setCo co v) := by
  refine kept.setCo (returned.trans (kept.returned co value live)) fun curr saved => ?_
  exact kept.saved co value curr live (ctx.symm.trans saved)

theorem Sound.setCo (sound : Sound s) (kept : Kept (s.setCo co value)) :
    Sound (s.setCo co value) := ⟨kept, sound.running⟩

theorem Kept.happened (kept : Kept s) {happening : Happening} (fine : happening.Fine) :
    ∀ h ∈ s.log ++ [happening], h.Fine := by
  intro h member
  rcases List.mem_append.mp member with old | new
  · exact kept.fine h old
  · rw [List.mem_singleton.mp new]
    exact fine

theorem deref_returns (s : Sched) (co : Nat) :
    Returns (s.deref co) fun value => s.heap co = some value :=
  ⟨fun _ => deref_ok.mp⟩

/-- The heap and the log as they are, and the same context in `main_ctx`. -/
theorem Kept.same (kept : Kept s) (heap : s'.heap = s.heap) (main : s'.mainCtx = s.mainCtx)
    (log : s'.log = s.log) : Kept s' := by
  refine ⟨?_, ?_, ?_, ?_⟩
  · rw [main]
    exact kept.main
  · rw [heap]
    exact kept.returned
  · rw [heap]
    exact kept.saved
  · rw [log]
    exact kept.fine

theorem switchToMain_sound (kept : Kept s) : Returns (switchToMain s) Sound := by
  unfold switchToMain
  cases saved : s.mainCtx with
  | none => exact .error _
  | some curr =>
      have isNone := kept.main curr saved
      exact .pure ⟨kept.same rfl saved.symm rfl, isNone⟩

theorem switchTo_sound (kept : Kept s) (running : s.running = some co) :
    Returns (switchTo s co) Sound := by
  unfold switchTo
  refine (deref_returns s co).bind fun value live => ?_
  cases ctx : value.ctx with
  | entry => exact .pure ⟨kept.same rfl rfl rfl, running⟩
  | resuming curr =>
      have own := kept.saved co value curr live ctx
      exact .pure ⟨kept.same rfl rfl rfl, own⟩
  | yielding => exact .pure ⟨kept.same rfl rfl rfl, running⟩
  | leaving =>
      refine switchToMain_sound (kept.setCo (kept.returned co value live) ?_)
      rintro curr ⟨⟩
  | returned => exact .error _

theorem coroutineResume_sound (sound : Sound s) (co : Nat) :
    Returns (coroutineResume s co) Sound := by
  unfold coroutineResume
  refine (deref_returns s co).bind fun value live => ?_
  refine .ite (.pure sound) ?_
  have fine : (Happening.resumed co value.returned).Fine := sound.returned co value live
  have kept := sound.toKept.write live (v := { value with state := .running }) rfl rfl
  have resumed : Kept { s.setCo co { value with state := .running } with
      running := some co
      log := s.log ++ [Happening.resumed co value.returned] } :=
    ⟨kept.main, kept.returned, kept.saved, sound.toKept.happened fine⟩
  -- the context that executes is saved as the one of `curr`
  cases running : s.running with
  | none =>
      refine switchTo_sound ⟨?_, resumed.returned, resumed.saved, resumed.fine⟩ rfl
      rintro curr ⟨⟩
      rfl
  | some c =>
      refine (deref_returns _ c).bind fun current live' => ?_
      dsimp only
      rw [pure_bind]
      refine switchTo_sound (resumed.setCo (resumed.returned c current live') ?_) rfl
      rintro curr ⟨⟩
      rfl

theorem coroutineYield_sound (sound : Sound s) : Returns (coroutineYield s .yielding) Sound := by
  unfold coroutineYield
  cases s.running with
  | none => exact .pure sound
  | some curr =>
      refine (deref_returns s curr).bind fun value live => ?_
      refine switchToMain_sound (sound.toKept.setCo (sound.returned curr value live) ?_)
      rintro curr ⟨⟩

theorem update_none {heap : Nat → Option Co} {other : Nat}
    (live : Function.update heap co none other = some value) : heap other = some value := by
  by_cases same : other = co
  · subst same
    cases (Function.update_self ..).symm.trans live
  · exact (Function.update_of_ne same ..).symm.trans live

theorem coroutineDestroy_sound (sound : Sound s) (co : Nat) :
    Returns (coroutineDestroy s co) Sound := by
  unfold coroutineDestroy
  refine .ite (.error _) (.pure ⟨⟨sound.main, ?_, ?_, sound.fine⟩, sound.running⟩)
  · intro other value live
    exact sound.returned other value (update_none live)
  · intro other value curr live
    exact sound.saved other value curr (update_none live)

theorem executeRound_sound (sound : Sound s) : Returns (executeRound s) Sound := by
  unfold executeRound
  cases s.readyQueueHead with
  | none => exact .pure sound
  | some co =>
      refine (deref_returns s co).bind fun value live => ?_
      have notReturned := sound.returned co value live
      have taken : Sound { s with
          readyQueueHead := value.next
          readyQueueTail := if value.next = none then none else s.readyQueueTail
          log := s.log ++ [Happening.taken co value.returned (value.state = .dead : Bool)] } := by
        refine ⟨⟨sound.main, sound.returned, sound.saved, ?_⟩, sound.running⟩
        refine sound.toKept.happened ?_
        rw [notReturned]
        exact nofun
      exact .ite (coroutineDestroy_sound taken co) (coroutineResume_sound taken co)

theorem scheduleAdd_sound (sound : Sound s) (co : Nat) : Returns (scheduleAdd s co) Sound := by
  have last {s' : Sched} (sound' : Sound s') : Returns (do
      let value ← Sched.deref { s' with readyQueueTail := some co } co
      return Sched.setCo { s' with readyQueueTail := some co } co { value with next := none })
      Sound := by
    have linked : Sound { s' with readyQueueTail := some co } :=
      ⟨sound'.toKept.same rfl rfl rfl, sound'.running⟩
    refine (deref_returns _ co).bind fun value live => .pure ?_
    exact linked.setCo (linked.toKept.write live rfl rfl)
  unfold scheduleAdd
  cases s.readyQueueTail with
  | none =>
      have first : Sound { s with readyQueueHead := some co, readyQueueTail := none } :=
        ⟨sound.toKept.same rfl rfl rfl, sound.running⟩
      exact last first
  | some tail =>
      refine (deref_returns s tail).bind fun value live => ?_
      exact last (sound.setCo (sound.toKept.write live rfl rfl))

/-- As long as no function returns. -/
theorem step_sound (sound : Sound s) {event : Event} (goesOn : GoesOn s event) :
    Returns (step s event) Sound := by
  cases event with
  | create block =>
      cases block with
      | none => exact .error _
      | some co =>
          refine .ite (.pure (sound.setCo (sound.toKept.setCo rfl ?_))) (.pure sound)
          rintro curr ⟨⟩
  | add co => exact scheduleAdd_sound sound co
  | resume co => exact coroutineResume_sound sound co
  | yield => exact coroutineYield_sound sound
  | round => exact executeRound_sound sound
  | leave =>
      rw [step, goesOn rfl]
      exact .pure sound
  | kill co =>
      refine (deref_returns s co).bind fun value live => .pure ?_
      exact sound.setCo (sound.toKept.write live rfl rfl)

theorem coroutineYield_ok (running : s.running = some co) (live : s.heap co = some value)
    (ctx : Ctx) : coroutineYield s ctx =
      switchToMain (s.setCo co { value with state := .suspend, ctx := ctx }) := by
  unfold coroutineYield
  rw [running]
  dsimp only
  rw [deref_ok.mpr live, ok_bind]

theorem switchToMain_heap (switched : switchToMain s = .ok s') : s'.heap = s.heap := by
  unfold switchToMain at switched
  split at switched
  · cases switched
  · cases switched
    rfl

/-- `coroutine_yield` writes `COROUTINE_SUSPEND` over the state that `coroutine_entry` has
set. -/
theorem leave_suspends (sound : Sound s) (current : s.current = some co)
    (stepped : step s .leave = .ok s') :
    ∃ value, s'.heap co = some value ∧ value.returned = true ∧ value.state = .suspend := by
  have running := sound.running.trans current
  rw [step, current] at stepped
  obtain ⟨value, -, stepped⟩ := ok_of_bind stepped
  have set := Function.update_self co (some { value with state := .dead, returned := true }) s.heap
  have yields := coroutineYield_ok
    (s := s.setCo co { value with state := .dead, returned := true }) running set .leaving
  dsimp only at stepped
  rw [yields] at stepped
  refine ⟨{ value with state := .suspend, ctx := .leaving, returned := true }, ?_, rfl, rfl⟩
  rw [switchToMain_heap stepped]
  exact Function.update_self ..

end Invariant

theorem Sound.staysDead {s : Sched} (sound : Sound s) : s.StaysDead := by
  refine ⟨fun co value live returned => ?_, sound.fine⟩
  rw [sound.returned co value live] at returned
  cases returned

/-- The states of a run have it exactly if the function of no coroutine returns in the run. -/
theorem staysDead_throughout_iff {events : List Event} {last : Sched}
    (ran : runs step .start events = .ok last) :
    Throughout step Sched.StaysDead .start events ↔ Along step GoesOn .start events := by
  refine throughout_iff_of Sched.StaysDead Sound ?_ ?_ sound_start sound_start.staysDead ran
  · intro before event after sound _ stepped
    constructor
    · rintro dead rfl
      by_contra runs_
      obtain ⟨co, current⟩ := Option.ne_none_iff_exists'.mp runs_
      obtain ⟨value, live, returned, state⟩ := leave_suspends sound current stepped
      cases state.symm.trans (dead.dead co value live returned)
    · intro goesOn
      exact ((step_sound sound goesOn).of_ok after stepped).staysDead
  · intro before event after sound goesOn stepped
    exact (step_sound sound goesOn).of_ok after stepped

/-- A coroutine that yields and is resumed. -/
theorem staysDead_throughout_yields : Throughout step Sched.StaysDead .start
    [.create (some 1), .add 1, .round, .yield, .resume 1] := by
  refine (staysDead_throughout_iff rfl).mpr ?_
  exact .cons nofun rfl (.cons nofun rfl (.cons nofun rfl (.cons nofun rfl (.cons nofun rfl
    trivial))))

/-- The function of a coroutine returns, and the next round resumes it. -/
theorem returned_resumed :
    ¬ ∀ events, Throughout step Sched.StaysDead .start events := by
  intro all
  have reached := all [.create (some 1), .add 1, .round, .leave, .add 1, .round] _ []
    (List.append_nil _) _ rfl
  have resumed : true = false := reached.fine (.resumed 1 true) (by decide)
  cases resumed

end LinuxCpp.Coroutine.Contexts
