import LinuxCpp.Ntyco.Safety

set_option autoImplicit false

/- Whole runs of the scheduler. -/
namespace LinuxCpp.Ntyco

open C Trace

variable {s t : Sched} {id : Nat}

section Conditions

/-- What `epoll_wait` may say: descriptors that are watched, each of them once. -/
def Epolled (s : Sched) : Event → Prop
  | .move _ reported => s.stage = .polling → (reported.map Report.fd).Nodup ∧
      ∀ r ∈ reported, s.interest r.fd ≠ none
  | .call _ => True

/-- The coroutine waits for descriptors that nobody waits for. `nty_coroutine_sleep` does not
suspend it: it neither queues up nor leaves while it is in the tree of the sleeping. -/
def Heeds (s : Sched) (id : Nat) : Action → Prop
  | .poll fd events _ => fd ∉ s.waiting.map Prod.fst ∧
      (events.pollin = true ∨ events.pollout = true)
  | .sleep msecs _ => msecs = 0 → id ∉ s.sleeping.map Prod.snd
  | .renice | .exit => id ∉ s.sleeping.map Prod.snd
  | .create _ | .detach | .close _ => True

def Polite (s : Sched) : Event → Prop
  | .move _ _ => True
  | .call action => ∀ id, s.curr = some id → Heeds s id action

instance (s : Sched) (event : Event) : Decidable (Epolled s event) :=
  match event with
  | .move _ reported => inferInstanceAs (Decidable (s.stage = .polling →
      (reported.map Report.fd).Nodup ∧ ∀ r ∈ reported, s.interest r.fd ≠ none))
  | .call _ => isTrue trivial

instance (s : Sched) (id : Nat) (action : Action) : Decidable (Heeds s id action) :=
  match action with
  | .poll fd events _ => inferInstanceAs (Decidable (fd ∉ s.waiting.map Prod.fst ∧
      (events.pollin = true ∨ events.pollout = true)))
  | .sleep msecs _ => inferInstanceAs (Decidable (msecs = 0 → id ∉ s.sleeping.map Prod.snd))
  | .renice | .exit => inferInstanceAs (Decidable (id ∉ s.sleeping.map Prod.snd))
  | .create _ | .detach | .close _ => isTrue trivial

instance (s : Sched) (event : Event) : Decidable (Polite s event) :=
  match event with
  | .move _ _ => isTrue trivial
  | .call action => decidable_of_iff (∀ id ∈ s.curr, Heeds s id action) Iff.rfl

theorem Inv.act (inv : Inv s) (runs : s.curr = some id) {action : Action}
    (heeds : Heeds s id action) : ∃ t, act s id action = .ok t ∧ Inv t := by
  cases action with
  | create granted =>
      refine ⟨_, rfl, ?_⟩
      cases granted with
      | false => exact inv
      | true => exact inv.createCo
  | poll fd events added => exact inv.poll runs heeds.2 heeds.1 added
  | sleep msecs now =>
      by_cases zero : msecs = 0
      · obtain ⟨c, here, -⟩ := inv.current runs
        obtain ⟨t, yields, kept⟩ := inv.yieldReady runs here (heeds zero)
        exact ⟨t, (if_pos zero).trans yields, kept⟩
      · obtain ⟨t, sleeps, kept⟩ := inv.sleepdown runs zero now
        exact ⟨t, (if_neg zero).trans sleeps, kept⟩
  | renice => exact inv.renice runs heeds
  | detach => exact inv.detach runs
  | close fd => exact ⟨_, rfl, inv.unwatch fd⟩
  | exit => exact inv.exit runs heeds

theorem Inv.step (inv : Inv s) {event : Event} (polled : Epolled s event)
    (polite : Polite s event) : ∃ t, step s event = .ok t ∧ Inv t := by
  cases event with
  | move now reported =>
      cases curr : s.curr with
      | none =>
          obtain ⟨t, moves, kept⟩ := inv.schedMove curr now polled
          exact ⟨t, by rw [Ntyco.step, curr]; exact moves, kept⟩
      | some id => exact ⟨s, by rw [Ntyco.step, curr], inv⟩
  | call action =>
      cases curr : s.curr with
      | none => exact ⟨s, by rw [Ntyco.step, curr], inv⟩
      | some id =>
          obtain ⟨t, acts, kept⟩ := inv.act curr (polite id curr)
          exact ⟨t, by rw [Ntyco.step, curr]; exact acts, kept⟩

theorem empty_inv : Inv ⟨fun _ => none, 0, [], [], [], fun _ => none, 0, none, .top, []⟩ where
  nodup := List.nodup_nil
  live := by simp [Sched.homes]
  counted := rfl
  fresh := by simp
  idle := by simp
  begun := by simp
  keys := List.nodup_nil
  polls := by simp
  watched := by simp
  awake := by simp
  sleeps := by simp
  sleepKeys := List.nodup_nil
  batch := by simp

theorem start_inv (n : Nat) : Inv (start n) := by
  rw [start]
  induction n with
  | zero => exact empty_inv
  | succ n ih => exact ih.createCo

end Conditions

section Passes

/-- Where the loop goes on when a coroutine gives the processor back. -/
def Stage.back (stage : Stage) (id : Nat) : Stage :=
  match stage with
  | .ready last => if last = some id then .polling else stage
  | _ => stage

/-- The loop and the queues are as before, but for more of the waiting. -/
structure Steady (s t : Sched) : Prop where
  resumed : t.resumed = s.resumed
  ready : t.ready = s.ready
  waiting : s.waiting <:+ t.waiting
  sleeping : t.sleeping = s.sleeping
  curr : t.curr = s.curr
  stage : t.stage = s.stage

/-- The coroutine gives the processor back. -/
structure Yields (s : Sched) (id : Nat) (t : Sched) : Prop where
  resumed : t.resumed = s.resumed
  ready : t.ready = s.ready
  waiting : t.waiting = s.waiting
  sleeping : t.sleeping = s.sleeping
  curr : t.curr = none
  stage : t.stage = s.stage.back id

/-- What any call leaves of the scheduler: the queue grows at its end, nobody stops to
wait, and the processor is kept or given back to the loop. -/
structure Passes (s : Sched) (id : Nat) (t : Sched) : Prop where
  resumed : t.resumed = s.resumed
  queue : s.ready <+: t.ready
  waiting : s.waiting <:+ t.waiting
  sleeping : t.sleeping = s.sleeping
  goes : t.curr = s.curr ∧ t.stage = s.stage ∨ t.curr = none ∧ t.stage = s.stage.back id

theorem Steady.of_eq (resumed : t.resumed = s.resumed) (ready : t.ready = s.ready)
    (waiting : t.waiting = s.waiting) (sleeping : t.sleeping = s.sleeping)
    (curr : t.curr = s.curr) (stage : t.stage = s.stage) : Steady s t :=
  ⟨resumed, ready, waiting ▸ List.suffix_refl _, sleeping, curr, stage⟩

theorem Steady.passes (steady : Steady s t) : Passes s id t :=
  ⟨steady.resumed, steady.ready ▸ List.prefix_refl _, steady.waiting, steady.sleeping,
    .inl ⟨steady.curr, steady.stage⟩⟩

theorem Yields.passes (yields : Yields s id t) : Passes s id t :=
  ⟨yields.resumed, yields.ready ▸ List.prefix_refl _, yields.waiting ▸ List.suffix_refl _,
    yields.sleeping, .inr ⟨yields.curr, yields.stage⟩⟩

theorem Passes.behind {u : Sched} (passes : Passes u id t) (steady : Steady s u) :
    Passes s id t := by
  obtain ⟨resumed, queue, waiting, sleeping, goes⟩ := passes
  rw [steady.resumed] at resumed
  rw [steady.ready] at queue
  rw [steady.curr, steady.stage] at goes
  exact ⟨resumed, queue, steady.waiting.trans waiting, sleeping.trans steady.sleeping, goes⟩

theorem returned_yields {u : Sched} (resumed : u.resumed = s.resumed) (ready : u.ready = s.ready)
    (waiting : u.waiting = s.waiting) (sleeping : u.sleeping = s.sleeping) (curr : u.curr = none)
    (stage : u.stage = s.stage) : Yields s id (returned u id) := by
  rw [returned]
  cases at_ : u.stage with
  | ready last =>
      dsimp only
      rw [at_] at stage
      split
      case isTrue own =>
        exact ⟨resumed, ready, waiting, sleeping, curr, by rw [← stage, Stage.back, if_pos own]⟩
      case isFalse other =>
        exact ⟨resumed, ready, waiting, sleeping, curr,
          by rw [← stage, Stage.back, if_neg other, at_]⟩
  | top | expiring | polling | batch _ | done =>
      exact ⟨resumed, ready, waiting, sleeping, curr, by rw [← stage, at_]; rfl⟩

theorem yieldAt_yields {point : Point} (yields : yieldAt s id point = .ok t) : Yields s id t := by
  obtain ⟨c, -, rest⟩ := ok_of_bind yields
  dsimp only at rest
  split at rest
  · obtain ⟨u, freed, rest⟩ := ok_of_bind rest
    obtain ⟨d, -, same⟩ := ok_of_bind freed
    cases same
    cases rest
    exact returned_yields rfl rfl rfl rfl rfl rfl
  · cases rest
    exact returned_yields rfl rfl rfl rfl rfl rfl

theorem yieldReady_passes (yields : yieldReady s id = .ok t) : Passes s id t := by
  obtain ⟨_, -, rest⟩ := ok_of_bind yields
  obtain ⟨resumed, ready, waiting, sleeping, curr, stage⟩ := yieldAt_yields rest
  exact ⟨resumed, ready ▸ List.prefix_append .., waiting ▸ List.suffix_refl _, sleeping,
    .inr ⟨curr, stage⟩⟩

theorem schedSleepdown_passes {msecs now : Nat} (sleeps : schedSleepdown s id msecs now = .ok t) :
    Passes { s with sleeping := t.sleeping } id t := by
  obtain ⟨_, -, rest⟩ := ok_of_bind sleeps
  obtain ⟨c, -, rest⟩ := ok_of_bind rest
  dsimp only at rest
  split at rest
  · cases rest
    exact Steady.passes (.of_eq rfl rfl rfl rfl rfl rfl)
  · obtain ⟨key, -, rest⟩ := ok_of_bind rest
    obtain ⟨_, -, rest⟩ := ok_of_bind rest
    cases rest
    exact Steady.passes (.of_eq rfl rfl rfl rfl rfl rfl)

/-- Without an event to wait for, and where another one waits, there is no way on. -/
theorem schedWait_gives {fd : Int} {events : PollEvents}
    (waits : schedWait s id fd events = .ok t) :
    Steady s t ∧ fd ∉ s.waiting.map Prod.fst ∧ (events.pollin = true ∨ events.pollout = true) := by
  obtain ⟨c, -, rest⟩ := ok_of_bind waits
  dsimp only at rest
  split at rest
  · cases rest
  simp only [Sched.setCo, Sched.waiter, pure_bind] at rest
  cases found : s.waiting.lookup fd with
  | some other =>
      rw [found] at rest
      dsimp only at rest
      split at rest
      · cases rest
      · split at rest <;> cases rest
  | none =>
      have free := @key_of_waiter_none s fd found
      rw [found] at rest
      dsimp only at rest
      split at rest
      case isTrue pollin =>
          obtain ⟨_, -, rest⟩ := ok_of_bind rest
          cases rest
          exact ⟨⟨rfl, rfl, List.suffix_cons .., rfl, rfl, rfl⟩, free, .inl pollin⟩
      case isFalse =>
          split at rest
          case isTrue pollout =>
              obtain ⟨_, -, rest⟩ := ok_of_bind rest
              cases rest
              exact ⟨⟨rfl, rfl, List.suffix_cons .., rfl, rfl, rfl⟩, free, .inr pollout⟩
          case isFalse => cases rest

/-- No entry into the tree of the sleeping. -/
def Action.Quiet : Action → Prop
  | .sleep msecs _ => msecs = 0
  | _ => True

theorem act_passes {action : Action} (acts : act s id action = .ok t) :
    ∃ sleeping, (action.Quiet → sleeping = s.sleeping) ∧
      Passes { s with sleeping := sleeping } id t := by
  cases action with
  | create granted =>
      cases acts
      refine ⟨s.sleeping, fun _ => rfl, ?_⟩
      cases granted with
      | false => exact Steady.passes (.of_eq rfl rfl rfl rfl rfl rfl)
      | true => exact ⟨rfl, List.prefix_append .., List.suffix_refl _, rfl, .inl ⟨rfl, rfl⟩⟩
  | poll fd events added =>
      refine ⟨s.sleeping, fun _ => rfl, ?_⟩
      obtain ⟨u, waits, rest⟩ := ok_of_bind acts
      obtain ⟨interest, same, -⟩ := epollAdd_fields s fd events added
      rw [same] at waits
      obtain ⟨⟨resumed, ready, waiting, sleeping, curr, stage⟩, -⟩ := schedWait_gives waits
      exact (yieldAt_yields rest).passes.behind ⟨resumed, ready, waiting, sleeping, curr, stage⟩
  | sleep msecs now =>
      rw [act] at acts
      split at acts
      · exact ⟨s.sleeping, fun _ => rfl, yieldReady_passes acts⟩
      case isFalse some_ =>
        exact ⟨t.sleeping, fun zero => absurd zero some_, schedSleepdown_passes acts⟩
  | renice =>
      refine ⟨s.sleeping, fun _ => rfl, ?_⟩
      obtain ⟨c, -, rest⟩ := ok_of_bind acts
      dsimp only at rest
      split at rest
      · cases rest
        exact Steady.passes (.of_eq rfl rfl rfl rfl rfl rfl)
      · exact (yieldReady_passes rest).behind (.of_eq rfl rfl rfl rfl rfl rfl)
  | detach =>
      obtain ⟨c, -, rest⟩ := ok_of_bind acts
      cases rest
      exact ⟨s.sleeping, fun _ => rfl, Steady.passes (.of_eq rfl rfl rfl rfl rfl rfl)⟩
  | close fd =>
      cases acts
      exact ⟨s.sleeping, fun _ => rfl, Steady.passes (.of_eq rfl rfl rfl rfl rfl rfl)⟩
  | exit =>
      obtain ⟨c, -, rest⟩ := ok_of_bind acts
      exact ⟨s.sleeping, fun _ => rfl,
        (yieldAt_yields rest).passes.behind (.of_eq rfl rfl rfl rfl rfl rfl)⟩

end Passes

end LinuxCpp.Ntyco
