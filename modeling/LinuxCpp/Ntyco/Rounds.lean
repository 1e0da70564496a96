import LinuxCpp.Ntyco.Runs

set_option autoImplicit false

/- What the scheduler gives to coroutines that heed it: nobody is lost, and every
round has a turn for everybody who is ready. -/
namespace LinuxCpp.Ntyco

open C Trace

variable {s t : Sched} {id : Nat} {event : Event}

section Finish

/-- Behind the loop there is nobody left. -/
def Over (s : Sched) : Prop := s.stage = .done → s.homes = [] ∧ s.sleeping = []

theorem back_done {stage : Stage} (done : stage.back id = .done) : stage = .done := by
  cases stage with
  | ready last =>
      rw [Stage.back] at done
      split at done <;> cases done
  | top | expiring | polling | batch _ | done => exact done

theorem Over.act (ended : Over s) (runs : s.curr = some id) {action : Action}
    (acts : act s id action = .ok t) : Over t := by
  intro done
  obtain ⟨sleeping, -, passes⟩ := act_passes acts
  have before : s.stage = .done := by
    obtain ⟨-, same⟩ | ⟨-, back⟩ := passes.goes
    · exact same.symm.trans done
    · exact back_done (back.symm.trans done)
  obtain ⟨nobody, -⟩ := ended before
  rw [Sched.homes, runs] at nobody
  cases nobody

theorem isdone_homes (idle : s.curr = none) (done : isdone s = true) :
    s.homes = [] ∧ s.sleeping = [] := by
  simp only [isdone, Bool.and_eq_true, List.isEmpty_iff] at done
  obtain ⟨⟨waiting, sleeping⟩, ready⟩ := done
  rw [Sched.homes, idle, waiting, ready]
  exact ⟨rfl, sleeping⟩

theorem Over.schedMove (ended : Over s) (inv : Inv s) (idle : s.curr = none) {now : Nat}
    {reported : List Report} (moves : schedMove s now reported = .ok t) : Over t := by
  cases stage : s.stage with
  | top =>
      rw [Ntyco.schedMove, stage] at moves
      cases moves
      intro done
      dsimp only at done
      split at done
      case isTrue isdone => exact isdone_homes idle isdone
      case isFalse => cases done
  | expiring =>
      obtain asleep | ⟨entry, rest, tree, late⟩ := s.asleep_or now
      · cases (inv.settle stage asleep reported).symm.trans moves
        intro done
        cases done
      · obtain ⟨u, moves', -, -, same⟩ := inv.expire idle stage tree late reported
        cases moves'.symm.trans moves
        intro done
        cases same.symm.trans done
  | ready last =>
      cases queue : s.ready with
      | nil =>
          rw [Ntyco.schedMove, stage] at moves
          simp only [queue] at moves
          cases moves
          intro done
          cases done
      | cons id rest =>
          obtain ⟨u, moves', -, -, -, same, -⟩ := inv.serve idle stage queue now reported
          cases moves'.symm.trans moves
          intro done
          cases (same.trans stage).symm.trans done
  | polling =>
      intro done
      obtain asks | passes := inv.ask stage now reported
      · cases asks.symm.trans moves
        cases done
      · cases passes.symm.trans moves
        cases done
  | batch left =>
      cases left with
      | nil =>
          rw [Ntyco.schedMove, stage] at moves
          cases moves
          intro done
          cases done
      | cons report left =>
          obtain ⟨u, moves', -, id, -, -, same, -⟩ := inv.report idle stage now reported
          cases moves'.symm.trans moves
          intro done
          cases same.symm.trans done
  | done =>
      rw [Ntyco.schedMove, stage] at moves
      cases moves
      exact ended

theorem Over.step (ended : Over s) (inv : Inv s) (steps : step s event = .ok t) : Over t := by
  cases curr : s.curr with
  | none =>
      cases event with
      | move now reported =>
          rw [Ntyco.step, curr] at steps
          exact ended.schedMove inv curr steps
      | call action =>
          rw [Ntyco.step, curr] at steps
          cases steps
          exact ended
  | some id =>
      cases event with
      | move now reported =>
          rw [Ntyco.step, curr] at steps
          cases steps
          exact ended
      | call action =>
          rw [Ntyco.step, curr] at steps
          exact ended.act curr steps

theorem start_over (n : Nat) : Over (start n) := by
  have stage : (start n).stage = .top := by
    rw [start]
    induction n with
    | zero => rfl
    | succ n ih => exact ih
  intro done
  cases stage.symm.trans done

/-- As long as the coroutines heed the tree of the sleeping and each other's descriptors, nothing
that was freed is touched and no assertion fails, every coroutine runs, is ready or waits, and the
end leaves nobody. -/
theorem scheduler_safe (n : Nat) (events : List Event)
    (polled : Along step Epolled (start n) events) (polite : Along step Polite (start n) events) :
    ∃ last, runs step (start n) events = .ok last ∧ Inv last ∧
      (last.stage = .done → last.spawned = 0 ∧ (∀ id, last.heap id = none) ∧
        last.sleeping = [] ∧ ∀ fd, last.interest fd = none) := by
  obtain ⟨last, ran, inv, ended⟩ := (polled.and polite).completes (fun s => Inv s ∧ Over s)
    ⟨start_inv n, start_over n⟩ fun before event kept met => by
      obtain ⟨after, steps, inv⟩ := kept.1.step met.1 met.2
      exact ⟨after, steps, inv, kept.2.step kept.1 steps⟩
  refine ⟨last, ran, inv, fun done => ?_⟩
  obtain ⟨nobody, sleeping⟩ := ended done
  refine ⟨?_, ?_, sleeping, ?_⟩
  · rw [inv.counted, nobody]
    rfl
  · intro id
    by_contra here
    have home := (inv.live id).mpr here
    rw [nobody] at home
    cases home
  · intro fd
    by_contra here
    obtain ⟨entry, waits, -⟩ := List.mem_map.mp (inv.watched fd here)
    have home : entry.2 ∈ last.homes := List.mem_append_right _ (List.mem_map_of_mem waits)
    rw [nobody] at home
    cases home

/-- Two coroutines wait for a descriptor each; the second one is served first. -/
def twoPolls : List Event :=
  [.move 0 [], .move 0 [], .move 0 [], .call (.poll 3 ⟨true, false⟩ true), .move 0 [],
    .call (.poll 4 ⟨false, true⟩ true), .move 0 [⟨3, true⟩, ⟨4, false⟩], .move 0 [],
    .call .exit, .move 0 [], .call .exit, .move 0 [], .move 0 []]

theorem scheduler_safe_twoPolls : ∃ last, runs step (start 2) twoPolls = .ok last ∧ Inv last ∧
    last.stage = .done ∧ last.spawned = 0 ∧ ∀ id, last.heap id = none := by
  obtain ⟨last, ran, inv, ended⟩ := scheduler_safe 2 twoPolls (by decide) (by decide)
  have done : last.stage = .done := by
    have ends : (runs step (start 2) twoPolls).map Sched.stage = .ok .done := by decide
    rw [ran] at ends
    exact Except.ok.inj ends
  exact ⟨last, ran, inv, done, (ended done).1, (ended done).2.1⟩

end Finish

section Ready

/-- Inside the loop over the ready, which was entered with this queue and this past. -/
structure Serving (queue past : List Nat) (s : Sched) (served left more : List Nat) : Prop where
  whole : queue = served ++ left
  resumed : s.resumed = past ++ served
  ready : s.ready = left ++ more
  stage : s.stage = .ready queue.getLast?
  last : left = [] → s.curr = queue.getLast? ∧ (queue = [] → more = [])

variable {queue past served left more : List Nat}

/-- The last of the queue runs: the ones before it had their turn. -/
theorem Serving.all_served (serving : Serving queue past s served left more) (inv : Inv s)
    (runs : s.curr = some id) (own : queue.getLast? = some id) : left = [] := by
  by_contra some_
  have last : id ∈ left := by
    rw [serving.whole, List.getLast?_append] at own
    cases at_ : left.getLast? with
    | none => exact absurd (List.getLast?_eq_none_iff.mp at_) some_
    | some other =>
        rw [at_] at own
        cases own
        exact List.mem_of_getLast? at_
  apply (inv.toHoused.curr_apart runs).1
  rw [serving.ready]
  exact List.mem_append_left _ last

/-- One step of the loop: it goes on, or everybody had a turn. -/
theorem Serving.step (serving : Serving queue past s served left more) (inv : Inv s)
    (steps : step s event = .ok t) :
    (∃ served left more, Serving queue past t served left more) ∨
      t.stage = .polling ∧ t.resumed = past ++ queue := by
  cases curr : s.curr with
  | none =>
      cases event with
      | call action =>
          rw [Ntyco.step, curr] at steps
          cases steps
          exact .inl ⟨served, left, more, serving⟩
      | move now reported =>
          rw [Ntyco.step, curr] at steps
          cases left with
          | nil =>
              obtain ⟨ends, alone⟩ := serving.last rfl
              rw [curr] at ends
              have empty : queue = [] := List.getLast?_eq_none_iff.mp ends.symm
              have ready := serving.ready
              rw [alone empty] at ready
              rw [schedMove, serving.stage] at steps
              simp only [ready, List.nil_append] at steps
              cases steps
              refine .inr ⟨rfl, ?_⟩
              have whole := serving.whole
              rw [empty, List.append_nil] at whole
              rw [empty, whole]
              exact serving.resumed
          | cons first left =>
              obtain ⟨u, moves, -, runs, ready, stage, resumed, -⟩ :=
                inv.serve curr serving.stage serving.ready now reported
              cases moves.symm.trans steps
              refine .inl ⟨served ++ [first], left, more, ?_, ?_, ready, stage.trans serving.stage,
                fun none_ => ⟨?_, fun empty => ?_⟩⟩
              · rw [serving.whole, List.append_assoc, List.singleton_append]
              · rw [resumed, serving.resumed, List.append_assoc]
              · rw [runs, serving.whole, none_, List.getLast?_append]
                rfl
              · rw [serving.whole] at empty
                cases (List.append_eq_nil_iff.mp empty).2
  | some id =>
      cases event with
      | move now reported =>
          rw [Ntyco.step, curr] at steps
          cases steps
          exact .inl ⟨served, left, more, serving⟩
      | call action =>
          rw [Ntyco.step, curr] at steps
          obtain ⟨sleeping, -, passes⟩ := act_passes steps
          obtain ⟨added, ready⟩ := passes.queue
          have ready : t.ready = left ++ (more ++ added) := by
            rw [← List.append_assoc, ← serving.ready]
            exact ready.symm
          have resumed : t.resumed = past ++ served := passes.resumed.trans serving.resumed
          obtain ⟨keeps, stage⟩ | ⟨gives, stage⟩ := passes.goes
          · refine .inl ⟨served, left, more ++ added, serving.whole, resumed, ready,
              stage.trans serving.stage, fun none_ => ?_⟩
            obtain ⟨ends, -⟩ := serving.last none_
            refine ⟨keeps.trans ends, fun empty => ?_⟩
            rw [empty, curr] at ends
            cases ends
          · have stage : t.stage = s.stage.back id := stage
            rw [serving.stage, Stage.back] at stage
            by_cases own : queue.getLast? = some id
            · rw [if_pos own] at stage
              refine .inr ⟨stage, ?_⟩
              rw [resumed, serving.whole, serving.all_served inv curr own, List.append_nil]
            · rw [if_neg own] at stage
              refine .inl ⟨served, left, more ++ added, serving.whole, resumed, ready, stage,
                fun none_ => ?_⟩
              obtain ⟨ends, -⟩ := serving.last none_
              exact absurd (ends.symm.trans curr) own

/-- The rest of a run that stays in the loop up to its last state. -/
theorem Serving.run (serving : Serving queue past s served left more) (inv : Inv s)
    {events : List Event} (polled : Along Ntyco.step Epolled s events)
    (polite : Along Ntyco.step Polite s events)
    (inside : Along Ntyco.step (fun s _ => s.stage ≠ .polling) s events)
    (ran : runs Ntyco.step s events = .ok t) (ended : t.stage = .polling) :
    t.resumed = past ++ queue := by
  induction events generalizing s served left more with
  | nil =>
      cases ran
      cases serving.stage.symm.trans ended
  | cons event rest ih =>
      obtain ⟨next, steps, goes⟩ := runs_cons_ok ran
      obtain ⟨other, steps', kept⟩ := inv.step polled.1 polite.1
      cases steps'.symm.trans steps
      obtain ⟨served, left, more, serving⟩ | ⟨stage, resumed⟩ := serving.step inv steps
      · exact ih serving kept (polled.2 _ steps) (polite.2 _ steps) (inside.2 _ steps) goes
      · cases rest with
        | nil =>
            cases goes
            exact resumed
        | cons second rest => exact absurd stage (inside.2 _ steps).1

/-- The start of a run, and what the rest of it is under the same conditions. -/
theorem reached_inv {n : Nat} {before during : List Event}
    (polled : Along step Epolled (start n) (before ++ during))
    (polite : Along step Polite (start n) (before ++ during))
    (reached : runs step (start n) before = .ok s) :
    Inv s ∧ Along step Epolled s during ∧ Along step Polite s during := by
  refine ⟨?_, polled.ending reached, polite.ending reached⟩
  refine (polled.beginning.and polite.beginning).invariant Inv (start_inv n) ?_ reached
  intro before event after inv met steps
  obtain ⟨other, steps', kept⟩ := inv.step met.1 met.2
  cases steps'.symm.trans steps
  exact kept

/-- Between the expired and the poller everybody who was ready at first has one turn, in
the order of the queue, and nobody else has any. -/
theorem round_serves_ready (n : Nat) {before during : List Event}
    (polled : Along step Epolled (start n) (before ++ during))
    (polite : Along step Polite (start n) (before ++ during))
    (reached : runs step (start n) before = .ok s) (idle : s.curr = none)
    (enters : s.stage = .ready s.ready.getLast?)
    (inside : Along step (fun s _ => s.stage ≠ .polling) s during)
    (ran : runs step s during = .ok t) (ended : t.stage = .polling) :
    t.resumed = s.resumed ++ s.ready := by
  obtain ⟨inv, polled, polite⟩ := reached_inv polled polite reached
  have serving : Serving s.ready s.resumed s [] s.ready [] := {
    whole := rfl
    resumed := (List.append_nil _).symm
    ready := (List.append_nil _).symm
    stage := enters
    last := fun none_ => ⟨by rw [none_, idle]; rfl, fun _ => rfl⟩ }
  exact serving.run inv polled polite inside ran ended

theorem round_serves_ready_twoPolls : ∃ s t, runs step (start 2) (twoPolls.take 2) = .ok s ∧
    runs step s ((twoPolls.drop 2).take 4) = .ok t ∧ t.resumed = s.resumed ++ s.ready := by
  have polled : Along step Epolled (start 2) (twoPolls.take 2 ++ (twoPolls.drop 2).take 4) := by
    decide
  have polite : Along step Polite (start 2) (twoPolls.take 2 ++ (twoPolls.drop 2).take 4) := by
    decide
  exact ⟨_, _, rfl, rfl, round_serves_ready 2 polled polite rfl rfl rfl (by decide) rfl rfl⟩

end Ready

section Batch

/-- Inside the loop over the new events, which was entered with these waiters and this
past. -/
structure Waking (waiter : Int → Option Nat) (all : List Report) (past : List Nat) (s : Sched)
    (served left : List Report) (woken : List Nat) : Prop where
  whole : all = served ++ left
  waited : served.map (fun r => waiter r.fd) = woken.map some
  resumed : s.resumed = past ++ woken
  stage : s.stage = .batch left
  same : ∀ r ∈ left, ∀ id, waiter r.fd = some id → s.waiter r.fd = some id

variable {waiter : Int → Option Nat} {all served left : List Report} {past woken : List Nat}

theorem Waking.step (waking : Waking waiter all past s served left woken) (inv : Inv s)
    (known : ∀ r ∈ left, ∃ id, waiter r.fd = some id) (steps : step s event = .ok t)
    (kept : Inv t) :
    (∃ served left woken, Waking waiter all past t served left woken ∧
        ∀ r ∈ left, ∃ id, waiter r.fd = some id) ∨
      t.stage = .top ∧ ∃ woken, all.map (fun r => waiter r.fd) = woken.map some ∧
        t.resumed = past ++ woken := by
  cases curr : s.curr with
  | none =>
      cases event with
      | call action =>
          rw [Ntyco.step, curr] at steps
          cases steps
          exact .inl ⟨served, left, woken, waking, known⟩
      | move now reported =>
          rw [Ntyco.step, curr] at steps
          cases left with
          | nil =>
              rw [schedMove, waking.stage] at steps
              cases steps
              refine .inr ⟨rfl, woken, ?_, waking.resumed⟩
              rw [waking.whole, List.append_nil]
              exact waking.waited
          | cons report left =>
              obtain ⟨u, moves, -, id, waits, -, stage, -, waiting, resumed, -⟩ :=
                inv.report curr waking.stage now reported
              cases moves.symm.trans steps
              have nodup := (inv.batch _ waking.stage).1
              refine .inl ⟨served ++ [report], left, woken ++ [id], ⟨?_, ?_, ?_, stage, ?_⟩,
                fun r member => known r (List.mem_cons_of_mem _ member)⟩
              · rw [waking.whole, List.append_assoc, List.singleton_append]
              · obtain ⟨found, known⟩ := known report List.mem_cons_self
                have same := waking.same report List.mem_cons_self found known
                cases (waiter_of_mem inv.keys waits).symm.trans same
                rw [List.map_append, List.map_append, waking.waited]
                exact congrArg _ (congrArg (fun x => [x]) known)
              · rw [resumed, waking.resumed, List.append_assoc]
              · intro r member id known
                have before := waking.same r (List.mem_cons_of_mem _ member) id known
                have apart : r.fd ≠ report.fd := by
                  intro same
                  exact (List.nodup_cons.mp nodup).1 (same ▸ List.mem_map_of_mem member)
                apply waiter_of_mem kept.keys
                rw [waiting]
                exact List.mem_filter.mpr ⟨waiter_mem before, by simpa using apart⟩
  | some id =>
      cases event with
      | move now reported =>
          rw [Ntyco.step, curr] at steps
          cases steps
          exact .inl ⟨served, left, woken, waking, known⟩
      | call action =>
          rw [Ntyco.step, curr] at steps
          obtain ⟨sleeping, -, passes⟩ := act_passes steps
          have stage : t.stage = .batch left := by
            obtain ⟨-, stage⟩ | ⟨-, stage⟩ := passes.goes
            · exact stage.trans waking.stage
            · refine stage.trans ?_
              change s.stage.back id = _
              rw [waking.stage]
              rfl
          refine .inl ⟨served, left, woken, ⟨waking.whole, waking.waited,
            passes.resumed.trans waking.resumed, stage, fun r member id known => ?_⟩, known⟩
          apply waiter_of_mem kept.keys
          exact passes.waiting.subset (waiter_mem (waking.same r member id known))

theorem Waking.run (waking : Waking waiter all past s served left woken) (inv : Inv s)
    (known : ∀ r ∈ left, ∃ id, waiter r.fd = some id) {events : List Event}
    (polled : Along Ntyco.step Epolled s events) (polite : Along Ntyco.step Polite s events)
    (inside : Along Ntyco.step (fun s _ => s.stage ≠ .top) s events)
    (ran : runs Ntyco.step s events = .ok t) (ended : t.stage = .top) :
    ∃ woken, all.map (fun r => waiter r.fd) = woken.map some ∧ t.resumed = past ++ woken := by
  induction events generalizing s served left woken with
  | nil =>
      cases ran
      cases waking.stage.symm.trans ended
  | cons event rest ih =>
      obtain ⟨next, steps, goes⟩ := runs_cons_ok ran
      obtain ⟨other, steps', kept⟩ := inv.step polled.1 polite.1
      cases steps'.symm.trans steps
      obtain ⟨served, left, woken, waking, known⟩ | ⟨stage, woken, whole, resumed⟩ :=
        waking.step inv known steps kept
      · exact ih waking kept known (polled.2 _ steps) (polite.2 _ steps) (inside.2 _ steps) goes
      · cases rest with
        | nil =>
            cases goes
            exact ⟨woken, whole, resumed⟩
        | cons second rest => exact absurd stage (inside.2 _ steps).1

/-- What `epoll_wait` has reported wakes exactly the coroutines that waited for it then, from
the last report to the first, and nobody else has a turn. -/
theorem batch_wakes_waiters (n : Nat) {before during : List Event} {left : List Report}
    (polled : Along step Epolled (start n) (before ++ during))
    (polite : Along step Polite (start n) (before ++ during))
    (reached : runs step (start n) before = .ok s) (enters : s.stage = .batch left)
    (inside : Along step (fun s _ => s.stage ≠ .top) s during)
    (ran : runs step s during = .ok t) (ended : t.stage = .top) :
    ∃ woken, left.map (fun r => s.waiter r.fd) = woken.map some ∧
      t.resumed = s.resumed ++ woken := by
  obtain ⟨inv, polled, polite⟩ := reached_inv polled polite reached
  have waking : Waking s.waiter left s.resumed s [] left [] := {
    whole := rfl
    waited := rfl
    resumed := (List.append_nil _).symm
    stage := enters
    same := fun _ _ _ known => known }
  exact waking.run inv (fun r member => waiter_of_key ((inv.batch left enters).2 r member)) polled
    polite inside ran ended

theorem batch_wakes_waiters_twoPolls : ∃ s t, runs step (start 2) (twoPolls.take 7) = .ok s ∧
    runs step s ((twoPolls.drop 7).take 5) = .ok t ∧
      ∃ woken, [4, 3].map s.waiter = woken.map some ∧ t.resumed = s.resumed ++ woken := by
  have polled : Along step Epolled (start 2) (twoPolls.take 7 ++ (twoPolls.drop 7).take 5) := by
    decide
  have polite : Along step Polite (start 2) (twoPolls.take 7 ++ (twoPolls.drop 7).take 5) := by
    decide
  exact ⟨_, _, rfl, rfl, batch_wakes_waiters 2 polled polite rfl rfl (by decide) rfl rfl⟩

end Batch

section Survival

/-- The coroutine waits for a descriptor that nobody waits for. -/
def Apart (s : Sched) : Event → Prop
  | .call (.poll fd events _) => ∀ id, s.curr = some id → fd ∉ s.waiting.map Prod.fst ∧
      (events.pollin = true ∨ events.pollout = true)
  | _ => True

instance (s : Sched) (event : Event) : Decidable (Apart s event) :=
  match event with
  | .call (.poll fd events _) => decidable_of_iff (∀ id ∈ s.curr,
      fd ∉ s.waiting.map Prod.fst ∧ (events.pollin = true ∨ events.pollout = true)) Iff.rfl
  | .call (.create _) | .call (.sleep _ _) | .call .renice | .call .detach | .call (.close _)
  | .call .exit | .move _ _ => isTrue trivial

def Event.Quiet : Event → Prop
  | .call action => action.Quiet
  | .move _ _ => True

instance (event : Event) : Decidable event.Quiet :=
  match event with
  | .call (.sleep msecs _) => inferInstanceAs (Decidable (msecs = 0))
  | .call (.create _) | .call (.poll _ _ _) | .call .renice | .call .detach | .call (.close _)
  | .call .exit | .move _ _ => isTrue trivial

theorem apart_of_step (steps : step s event = .ok t) : Apart s event := by
  cases event with
  | move now reported => trivial
  | call action =>
      cases action with
      | poll fd events added =>
          intro id curr
          rw [step, curr] at steps
          obtain ⟨u, waits, -⟩ := ok_of_bind steps
          obtain ⟨interest, same, -⟩ := epollAdd_fields s fd events added
          rw [same] at waits
          exact (schedWait_gives waits).2
      | create _ | sleep _ _ | renice | detach | close _ | exit => trivial

theorem polite_of_apart (apart : Apart s event) (quiet : event.Quiet) (awake : s.sleeping = []) :
    Polite s event := by
  cases event with
  | move now reported => trivial
  | call action =>
      intro id curr
      have nobody : id ∉ s.sleeping.map Prod.snd := by
        rw [awake]
        exact List.not_mem_nil
      cases action with
      | poll fd events added => exact apart id curr
      | sleep msecs now => exact fun _ => nobody
      | renice | exit => exact nobody
      | create _ | detach | close _ => trivial

theorem schedMove_awake (inv : Inv s) (idle : s.curr = none) (awake : s.sleeping = []) {now : Nat}
    {reported : List Report} (moves : schedMove s now reported = .ok t) : t.sleeping = [] := by
  cases stage : s.stage with
  | top =>
      rw [Ntyco.schedMove, stage] at moves
      cases moves
      exact awake
  | expiring =>
      have asleep : ∀ entry ∈ s.sleeping.head?, now < entry.1 := by simp [awake]
      cases (inv.settle stage asleep reported).symm.trans moves
      exact awake
  | ready last =>
      cases queue : s.ready with
      | nil =>
          rw [Ntyco.schedMove, stage] at moves
          simp only [queue] at moves
          cases moves
          exact awake
      | cons id rest =>
          obtain ⟨u, moves', -, -, -, -, -, same⟩ := inv.serve idle stage queue now reported
          cases moves'.symm.trans moves
          exact same.trans awake
  | polling =>
      obtain asks | passes := inv.ask stage now reported
      · cases asks.symm.trans moves
        exact awake
      · cases passes.symm.trans moves
        exact awake
  | batch left =>
      cases left with
      | nil =>
          rw [Ntyco.schedMove, stage] at moves
          cases moves
          exact awake
      | cons report left =>
          obtain ⟨u, moves', -, id, -, -, -, -, -, -, same⟩ := inv.report idle stage now reported
          cases moves'.symm.trans moves
          exact same.trans awake
  | done =>
      rw [Ntyco.schedMove, stage] at moves
      cases moves
      exact awake

theorem step_awake (inv : Inv s) (awake : s.sleeping = []) (quiet : event.Quiet)
    (steps : step s event = .ok t) : t.sleeping = [] := by
  cases curr : s.curr with
  | none =>
      cases event with
      | move now reported =>
          rw [Ntyco.step, curr] at steps
          exact schedMove_awake inv curr awake steps
      | call action =>
          rw [Ntyco.step, curr] at steps
          cases steps
          exact awake
  | some id =>
      cases event with
      | move now reported =>
          rw [Ntyco.step, curr] at steps
          cases steps
          exact awake
      | call action =>
          rw [Ntyco.step, curr] at steps
          obtain ⟨sleeping, same, passes⟩ := act_passes steps
          exact passes.sleeping.trans ((same quiet).trans awake)

theorem start_awake (n : Nat) : (start n).sleeping = [] := by
  rw [start]
  induction n with
  | zero => rfl
  | succ n ih => exact ih

/-- Where no coroutine sleeps, the scheduler survives exactly as long as no coroutine waits
for a descriptor that another one waits for already. -/
theorem scheduler_survives_iff (n : Nat) (events : List Event)
    (polled : Along step Epolled (start n) events) (quiet : ∀ event ∈ events, event.Quiet) :
    (∃ last, runs step (start n) events = .ok last) ↔ Along step Apart (start n) events := by
  constructor
  · rintro ⟨last, ran⟩
    have all : Along step (fun _ _ => True) (start n) events := .of_mem (fun _ _ => trivial) _
    refine (along_iff (fun _ => True) ?_ ?_ trivial ran).mp all
    · exact fun before event after _ steps => iff_of_true trivial (apart_of_step steps)
    · exact fun _ _ _ _ _ _ => trivial
  · intro apart
    obtain ⟨last, ran, -⟩ := ((polled.and apart).and (Along.of_mem quiet _)).completes
      (fun s => Inv s ∧ s.sleeping = []) ⟨start_inv n, start_awake n⟩
      fun before event kept met => by
        have polite := polite_of_apart met.1.2 met.2 kept.2
        obtain ⟨after, steps, inv⟩ := kept.1.step met.1.1 polite
        exact ⟨after, steps, inv, step_awake kept.1 kept.2 met.2 steps⟩
    exact ⟨last, ran⟩

theorem scheduler_survives_iff_twoPolls : ∃ last, runs step (start 2) twoPolls = .ok last :=
  (scheduler_survives_iff 2 twoPolls (by decide) (by decide)).mpr (by decide)

end Survival

end LinuxCpp.Ntyco
