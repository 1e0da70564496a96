import LinuxCpp.C.Returns
import LinuxCpp.Linked.Segment
import LinuxCpp.ThreadPool.Threadpool

set_option autoImplicit false

/- `nThreadPoolDestory` of Threadpool.c among the workers. It marks them without the mutex,
and a marked worker may free its structure at once. -/
namespace LinuxCpp.ThreadPool.Shutdown

open C Linked Trace

structure NWorker where
  terminate : Int
  next : Option Nat
deriving DecidableEq, Repr

/-- Where a thread stands in `nThreadPoolCallback`: in front of the lock, in
`pthread_cond_wait`, in its task, behind the loop, or at its end. -/
inductive Thread where
  | locking
  | waiting
  | running
  | leaving
  | gone
deriving DecidableEq, Repr

/-- The next thing that `nThreadPoolDestory` does. -/
inductive Destroyer where
  | start
  | marking (worker : Nat)
  | advancing (worker : Nat)
  | broadcasting
  | clearingWorkers
  | clearingTasks
  | done
deriving DecidableEq, Repr

/-- `heap` has the structures of the workers in memory, and `thread` the thread of each. -/
structure System where
  heap : Nat → Option NWorker
  workers : Option Nat
  pool : Pool
  thread : Nat → Thread
  destroyer : Destroyer

namespace System

def deref (S : System) (worker : Nat) : Except Fault NWorker :=
  match S.heap worker with
  | none => .error .useAfterFree
  | some value => .ok value

def setThread (S : System) (worker : Nat) (thread : Thread) : System :=
  { S with thread := Function.update S.thread worker thread }

end System

/-- `LIST_INSERT(worker, pool->workers)` for a new worker, whose thread has begun. -/
def register (S : System) (worker : Nat) : System :=
  { S with
    heap := Function.update S.heap worker (some ⟨0, S.workers⟩)
    workers := some worker
    thread := Function.update S.thread worker .locking }

/-- After `nThreadPoolCreate`, the last worker first, and some pushes. -/
def created (pool : Pool) : List Nat → System
  | [] => ⟨fun _ => none, none, pool, fun _ => .gone, .start⟩
  | worker :: earlier => register (created pool earlier) worker

/-- The test of the loop of `nThreadPoolDestory`. -/
def loopTest : Option Nat → Destroyer
  | none => .broadcasting
  | some worker => .marking worker

/-- One step of `nThreadPoolDestory`. -/
def nThreadPoolDestory (S : System) : Except Fault System :=
  match S.destroyer with
  | .start => return { S with destroyer := loopTest S.workers }
  | .marking worker => do
      let value ← S.deref worker
      return { S with
        heap := Function.update S.heap worker (some { value with terminate := 1 })
        destroyer := .advancing worker }
  | .advancing worker => do
      let value ← S.deref worker
      return { S with destroyer := loopTest value.next }
  | .broadcasting => return { S with
      thread := fun worker => if S.thread worker = .waiting then .locking else S.thread worker
      destroyer := .clearingWorkers }
  | .clearingWorkers => return { S with workers := none, destroyer := .clearingTasks }
  | .clearingTasks => return { S with pool := { S.pool with tasks := none }, destroyer := .done }
  | .done => return S

/-- The locked section of a worker, up to the wait, the task, or the end of the loop. -/
def lockedCheck (S : System) (worker : Nat) : Except Fault System := do
  let value ← S.deref worker
  if value.terminate ≠ 0 then return S.setThread worker .leaving
  else
    match S.pool.tasks with
    | none => return S.setThread worker .waiting
    | some _ =>
        let taken ← nThreadPoolCallback S.pool
        return { S.setThread worker .running with pool := taken.1 }

/-- What the threads do. A worker wakes up also without a signal, and a task function may
push and write to the structures of tasks. -/
inductive Event where
  | destroy
  | check (worker : Nat)
  | wake (worker : Nat)
  | finish (worker : Nat)
  | free (worker : Nat)
  | push (task : Nat)
  | write (task : Nat) (value : Option NTask)

/-- A thread that does not stand there does nothing. -/
def step (S : System) : Event → Except Fault System
  | .destroy => nThreadPoolDestory S
  | .check worker =>
      if S.thread worker = .locking then lockedCheck S worker else .ok S
  | .wake worker =>
      if S.thread worker = .waiting then .ok (S.setThread worker .locking) else .ok S
  | .finish worker =>
      if S.thread worker = .running then .ok (S.setThread worker .locking) else .ok S
  | .free worker =>
      if S.thread worker = .leaving then
        .ok { S.setThread worker .gone with heap := Function.update S.heap worker none }
      else .ok S
  | .push task => do return { S with pool := ← nThreadPoolPushTask S.pool task }
  | .write task value =>
      .ok { S with pool := { S.pool with heap := Function.update S.pool.heap task value } }

/-- The next step of `nThreadPoolDestory` touches no freed structure. -/
def System.Safe (S : System) : Prop := ∃ S', nThreadPoolDestory S = .ok S'

/-- No worker frees its structure while `nThreadPoolDestory` has marked it and has yet to read
its `next`. -/
def NotOvertaken (S : System) (event : Event) : Prop :=
  ∀ worker, event = .free worker → S.thread worker = .leaving → S.destroyer ≠ .advancing worker

/-- A worker that is not marked: it is there, and in its loop. -/
def Unmarked (S : System) (worker : Nat) : Prop :=
  (∃ next, S.heap worker = some ⟨0, next⟩) ∧ S.thread worker ≠ .leaving

def System.links (S : System) (worker : Nat) : Option (Option Nat) :=
  (S.heap worker).map NWorker.next

/-- The workers from a pointer on are not marked. -/
def Ahead (S : System) (p : Option Nat) (workers : List Nat) : Prop :=
  Chain S.links p workers ∧ ∀ worker ∈ workers, Unmarked S worker

/-- `nThreadPoolDestory` stands at a worker that is there, with the ones behind it not
marked. -/
def Sound (S : System) : Prop :=
  match S.destroyer with
  | .start => ∃ workers, Ahead S S.workers workers
  | .marking worker => ∃ workers, Ahead S (some worker) workers
  | .advancing worker => ∃ value workers, S.heap worker = some value ∧
      Ahead S value.next workers ∧ worker ∉ workers
  | _ => True

section Invariant

variable {S S' : System} {worker : Nat} {workers : List Nat} {p : Option Nat} {value : NWorker}

theorem deref_ok (live : S.heap worker = some value) : S.deref worker = .ok value := by
  unfold System.deref
  rw [live]

/-- A step that leaves the workers that are not marked in their loops. -/
theorem Ahead.keep (ahead : Ahead S p workers) (keeps : ∀ worker ∈ workers, Unmarked S worker →
    S'.heap worker = S.heap worker ∧ S'.thread worker ≠ .leaving) : Ahead S' p workers := by
  refine ⟨ahead.1.congr fun worker member => ?_, fun worker member => ?_⟩
  · unfold System.links
    rw [(keeps worker member (ahead.2 worker member)).1]
  · have unmarked := ahead.2 worker member
    obtain ⟨heap, inLoop⟩ := keeps worker member unmarked
    obtain ⟨⟨next, live⟩, -⟩ := unmarked
    exact ⟨⟨next, heap.trans live⟩, inLoop⟩

theorem Sound.keep (sound : Sound S) (destroyer : S'.destroyer = S.destroyer)
    (same : S'.workers = S.workers) (keeps : ∀ worker, Unmarked S worker →
      S'.heap worker = S.heap worker ∧ S'.thread worker ≠ .leaving)
    (here : ∀ worker, S.destroyer = .advancing worker → S'.heap worker = S.heap worker) :
    Sound S' := by
  have ahead {p : Option Nat} {workers : List Nat} (before : Ahead S p workers) :
      Ahead S' p workers := before.keep fun worker _ => keeps worker
  unfold Sound at sound ⊢
  rw [destroyer]
  cases place : S.destroyer with
  | start =>
      rw [place] at sound
      obtain ⟨workers, before⟩ := sound
      rw [← same] at before
      exact ⟨workers, ahead before⟩
  | marking worker =>
      rw [place] at sound
      obtain ⟨workers, before⟩ := sound
      exact ⟨workers, ahead before⟩
  | advancing worker =>
      rw [place] at sound
      obtain ⟨value, workers, live, before, outside⟩ := sound
      exact ⟨value, workers, (here worker place).trans live, ahead before, outside⟩
  | broadcasting => trivial
  | clearingWorkers => trivial
  | clearingTasks => trivial
  | done => trivial

theorem loopTest_sound (ahead : Ahead S p workers) :
    Sound { S with destroyer := loopTest p } := by
  cases p with
  | none => trivial
  | some worker => exact ⟨workers, ahead⟩

/-- The step of `nThreadPoolDestory`. -/
theorem Sound.destroy (sound : Sound S) :
    ∃ S', nThreadPoolDestory S = .ok S' ∧ Sound S' := by
  unfold nThreadPoolDestory
  unfold Sound at sound
  cases place : S.destroyer with
  | start =>
      rw [place] at sound
      obtain ⟨workers, ahead⟩ := sound
      exact ⟨_, rfl, loopTest_sound ahead⟩
  | marking worker =>
      rw [place] at sound
      obtain ⟨workers, ahead⟩ := sound
      obtain - | ⟨first, rest⟩ := workers
      · cases ahead.1
      · have nodup := List.nodup_cons.mp ahead.1.nodup
        obtain ⟨⟨same, next, linked, chain⟩, unmarked⟩ := ahead
        cases same
        obtain ⟨⟨next', live⟩, -⟩ := unmarked worker List.mem_cons_self
        have isNext : next' = next := by
          unfold System.links at linked
          rw [live] at linked
          exact Option.some.inj linked
        have behind : Ahead S next' rest :=
          ⟨by rw [isNext]; exact chain, fun w member => unmarked w (List.mem_cons_of_mem _ member)⟩
        dsimp only
        rw [deref_ok live]
        refine ⟨_, rfl, ⟨1, next'⟩, rest, Function.update_self .., ?_, nodup.1⟩
        refine behind.keep fun w member unmarkedW => ⟨?_, unmarkedW.2⟩
        have other : w ≠ worker := fun same => nodup.1 (same ▸ member)
        exact Function.update_of_ne other ..
  | advancing worker =>
      rw [place] at sound
      obtain ⟨value, workers, live, ahead, -⟩ := sound
      dsimp only
      rw [deref_ok live]
      exact ⟨_, rfl, loopTest_sound ahead⟩
  | broadcasting => exact ⟨_, rfl, trivial⟩
  | clearingWorkers => exact ⟨_, rfl, trivial⟩
  | clearingTasks => exact ⟨_, rfl, trivial⟩
  | done =>
      refine ⟨S, rfl, ?_⟩
      unfold Sound
      rw [place]
      trivial

theorem Sound.safe (sound : Sound S) : S.Safe := by
  obtain ⟨S', ran, -⟩ := sound.destroy
  exact ⟨S', ran⟩

/-- A thread that goes on, but not out of its loop. -/
theorem Sound.setThread (sound : Sound S) (worker : Nat) {thread : Thread}
    (inLoop : thread ≠ .leaving) : Sound (S.setThread worker thread) := by
  refine sound.keep rfl rfl (fun w unmarked => ⟨rfl, ?_⟩) fun _ _ => rfl
  by_cases same : w = worker
  · subst same
    exact fun leaves => inLoop ((Function.update_self ..).symm.trans leaves)
  · exact fun leaves => unmarked.2 ((Function.update_of_ne same ..).symm.trans leaves)

theorem Sound.pool (sound : Sound S) (pool : Pool) : Sound { S with pool := pool } :=
  sound.keep rfl rfl (fun _ unmarked => ⟨rfl, unmarked.2⟩) fun _ _ => rfl

theorem deref_returns (S : System) (worker : Nat) :
    Returns (S.deref worker) fun value => S.heap worker = some value := by
  refine ⟨fun value isValue => ?_⟩
  unfold System.deref at isValue
  split at isValue
  · cases isValue
  · cases isValue
    assumption

/-- A worker leaves its loop only if it is marked. -/
theorem lockedCheck_sound (sound : Sound S) (worker : Nat) :
    Returns (lockedCheck S worker) Sound := by
  unfold lockedCheck
  refine (deref_returns S worker).bind fun value live => ?_
  by_cases marked : value.terminate ≠ 0
  · rw [if_pos marked]
    refine .pure (sound.keep rfl rfl (fun w unmarked => ⟨rfl, ?_⟩) fun _ _ => rfl)
    obtain ⟨⟨next, isLive⟩, inLoop⟩ := unmarked
    have other : w ≠ worker := by
      rintro rfl
      cases live.symm.trans isLive
      exact marked rfl
    exact fun leaves => inLoop ((Function.update_of_ne other ..).symm.trans leaves)
  · rw [if_neg marked]
    cases S.pool.tasks with
    | none => exact .pure (sound.setThread worker (by decide))
    | some task =>
        have runs_ := sound.setThread worker (show Thread.running ≠ .leaving by decide)
        exact .skip fun taken => .pure (runs_.pool taken.1)

theorem step_sound (sound : Sound S) {event : Event} (meets : NotOvertaken S event) :
    Returns (step S event) Sound := by
  cases event with
  | destroy =>
      obtain ⟨S', ran, sound'⟩ := sound.destroy
      rw [step, ran]
      exact .pure sound'
  | check worker => exact .ite (lockedCheck_sound sound worker) (.pure sound)
  | wake worker => exact .ite (.pure (sound.setThread worker (by decide))) (.pure sound)
  | finish worker => exact .ite (.pure (sound.setThread worker (by decide))) (.pure sound)
  | free worker =>
      rw [step]
      by_cases leaves : S.thread worker = .leaving
      · rw [if_pos leaves]
        refine .pure (sound.keep rfl rfl (fun w unmarked => ?_) fun w place => ?_)
        · have other : w ≠ worker := by
            rintro rfl
            exact unmarked.2 leaves
          refine ⟨Function.update_of_ne other .., fun leaves' => unmarked.2 ?_⟩
          exact (Function.update_of_ne other ..).symm.trans leaves'
        · have other : w ≠ worker := by
            rintro rfl
            exact meets w rfl leaves place
          exact Function.update_of_ne other ..
      · rw [if_neg leaves]
        exact .pure sound
  | push task => exact .skip fun pool => .pure (sound.pool pool)
  | write task value => exact .pure (sound.pool _)

/-- The structure that `nThreadPoolDestory` will read `next` of is freed. -/
theorem step_overtakes {event : Event} (overtaken : ¬ NotOvertaken S event)
    (stepped : step S event = .ok S') : ¬ S'.Safe := by
  simp only [NotOvertaken, Classical.not_forall, not_not] at overtaken
  obtain ⟨worker, rfl, leaves, place⟩ := overtaken
  rw [step, if_pos leaves] at stepped
  cases stepped
  rintro ⟨S', ran⟩
  have freed : Function.update S.heap worker none worker = none := Function.update_self ..
  simp only [nThreadPoolDestory, System.setThread, System.deref, place, freed] at ran
  cases ran

theorem created_destroyer (pool : Pool) (workers : List Nat) :
    (created pool workers).destroyer = .start := by
  induction workers with
  | nil => rfl
  | cons worker earlier ih => exact ih

theorem created_ahead (pool : Pool) (nodup : workers.Nodup) :
    Ahead (created pool workers) (created pool workers).workers workers := by
  induction workers with
  | nil => exact ⟨rfl, fun _ member => absurd member List.not_mem_nil⟩
  | cons worker earlier ih =>
      obtain ⟨new, nodup⟩ := List.nodup_cons.mp nodup
      have other : ∀ w ∈ earlier, w ≠ worker := fun w member same => new (same ▸ member)
      have behind : Ahead (created pool (worker :: earlier)) (created pool earlier).workers
          earlier := by
        refine (ih nodup).keep fun w member unmarked => ⟨?_, fun leaves => unmarked.2 ?_⟩
        · exact Function.update_of_ne (other w member) ..
        · exact (Function.update_of_ne (other w member) ..).symm.trans leaves
      have live : (created pool (worker :: earlier)).heap worker =
          some ⟨0, (created pool earlier).workers⟩ := Function.update_self ..
      have inLoop : (created pool (worker :: earlier)).thread worker = .locking :=
        Function.update_self ..
      refine ⟨.cons ?_ behind.1, fun w member => ?_⟩
      · unfold System.links
        rw [live]
        rfl
      · rcases List.mem_cons.mp member with rfl | old
        · exact ⟨⟨_, live⟩, by rw [inLoop]; decide⟩
        · exact behind.2 w old

end Invariant

/-- It never touches a freed structure exactly if no marked worker frees its own before
`nThreadPoolDestory` has gone on to the next one. -/
theorem safe_throughout_iff (pool : Pool) {workers : List Nat} (nodup : workers.Nodup)
    {events : List Event} {last : System}
    (ran : runs step (created pool workers) events = .ok last) :
    Throughout step System.Safe (created pool workers) events ↔
      Along step NotOvertaken (created pool workers) events := by
  have sound : Sound (created pool workers) := by
    unfold Sound
    rw [created_destroyer]
    exact ⟨workers, created_ahead pool nodup⟩
  refine throughout_iff_of System.Safe Sound ?_ ?_ sound sound.safe ran
  · intro before event after sound _ stepped
    constructor
    · intro safe
      by_contra overtaken
      exact step_overtakes overtaken stepped safe
    · exact fun meets => ((step_sound sound meets).of_ok after stepped).safe
  · exact fun before event after sound meets stepped =>
      (step_sound sound meets).of_ok after stepped

/-- A pool without tasks, as `nThreadPoolCreate` leaves it. -/
def noTasks : Pool := ThreadPool.created fun _ => none

/-- Two workers. The first one frees its structure when `nThreadPoolDestory` has gone on to
the second. -/
theorem safe_throughout_pair :
    Throughout step System.Safe (created noTasks [1, 2])
      [.destroy, .destroy, .destroy, .check 1, .free 1, .destroy, .destroy, .check 2, .free 2] := by
  apply (safe_throughout_iff noTasks (by decide) rfl).mpr
  have waits : ∀ {S : System} {event : Event}, (∀ worker, event ≠ .free worker) →
      NotOvertaken S event := fun other worker isFree => absurd isFree (other worker)
  refine .cons (waits nofun) rfl (.cons (waits nofun) rfl (.cons (waits nofun) rfl
    (.cons (waits nofun) rfl (.cons ?_ rfl (.cons (waits nofun) rfl (.cons (waits nofun) rfl
      (.cons (waits nofun) rfl (.cons ?_ rfl trivial))))))))
  · rintro worker ⟨⟩ - ⟨⟩
  · rintro worker ⟨⟩ - ⟨⟩

/-- A worker is marked, takes the lock, leaves and frees its structure, and
`nThreadPoolDestory` reads `next` there. -/
theorem freed_worker_read : ¬ ∀ (workers : List Nat) (events : List Event), workers.Nodup →
    Throughout step System.Safe (created noTasks workers) events := by
  intro all
  obtain ⟨S', ran⟩ := all [1] [.destroy, .destroy, .check 1, .free 1] (by decide) _ []
    (List.append_nil _) _ rfl
  cases ran

end LinuxCpp.ThreadPool.Shutdown
