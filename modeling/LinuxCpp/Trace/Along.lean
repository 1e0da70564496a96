import Mathlib.Data.List.Induction

set_option autoImplicit false

/- Runs of a step function that may fail, and conditions that every step of a run
meets in the state it starts from. -/
namespace LinuxCpp.Trace

variable {σ ε φ : Type}

/-- The events one after the other, up to the first failure. -/
def runs (step : σ → ε → Except φ σ) : σ → List ε → Except φ σ
  | state, [] => .ok state
  | state, event :: rest => step state event >>= fun next => runs step next rest

/-- Every step of the run meets the condition. -/
def Along (step : σ → ε → Except φ σ) (meets : σ → ε → Prop) : σ → List ε → Prop
  | _, [] => True
  | state, event :: rest =>
      meets state event ∧ ∀ next, step state event = .ok next → Along step meets next rest

/-- Every state that the run reaches is good. -/
def Throughout (step : σ → ε → Except φ σ) (inv : σ → Prop) (state : σ) (events : List ε) : Prop :=
  ∀ past later, past ++ later = events → ∀ mid, runs step state past = .ok mid → inv mid

variable {step : σ → ε → Except φ σ} {meets : σ → ε → Prop}
  {state last : σ} {event : ε} {past later events : List ε}

theorem runs_cons {next : σ} (stepped : step state event = .ok next) :
    runs step state (event :: later) = runs step next later := by
  rw [runs, stepped]
  rfl

theorem runs_append {mid : σ} (ran : runs step state past = .ok mid) :
    runs step state (past ++ later) = runs step mid later := by
  induction past generalizing state with
  | nil =>
      cases ran
      rfl
  | cons event past ih =>
      cases stepped : step state event with
      | error fault =>
          rw [runs, stepped] at ran
          cases ran
      | ok next =>
          rw [runs_cons stepped] at ran
          rw [List.cons_append, runs_cons stepped]
          exact ih ran

theorem runs_cons_ok (ran : runs step state (event :: later) = .ok last) :
    ∃ next, step state event = .ok next ∧ runs step next later = .ok last := by
  cases stepped : step state event with
  | error fault =>
      rw [runs, stepped] at ran
      cases ran
  | ok next => exact ⟨next, rfl, (runs_cons stepped).symm.trans ran⟩

theorem Along.cons {next : σ} (holds : meets state event) (stepped : step state event = .ok next)
    (rest : Along step meets next later) : Along step meets state (event :: later) := by
  refine ⟨holds, fun other reached => ?_⟩
  cases stepped.symm.trans reached
  exact rest

theorem Along.beginning (along : Along step meets state (past ++ later)) :
    Along step meets state past := by
  induction past generalizing state with
  | nil => trivial
  | cons event past ih => exact ⟨along.1, fun next stepped => ih (along.2 next stepped)⟩

theorem Along.ending (along : Along step meets state (past ++ later))
    (ran : runs step state past = .ok last) : Along step meets last later := by
  induction past generalizing state with
  | nil =>
      cases ran
      exact along
  | cons event past ih =>
      obtain ⟨next, stepped, goes⟩ := runs_cons_ok ran
      exact ih (along.2 next stepped) goes

/-- The condition at the step behind a part of the run. -/
theorem Along.meets_at (along : Along step meets state (past ++ event :: later))
    (ran : runs step state past = .ok last) : meets last event := by
  induction past generalizing state with
  | nil =>
      cases ran
      exact along.1
  | cons first past ih =>
      obtain ⟨next, stepped, ran⟩ := runs_cons_ok ran
      exact ih (along.2 next stepped) ran

/-- A condition that can be tested at every step can be tested along a run. -/
instance Along.decide [∀ state event, Decidable (meets state event)] :
    ∀ state events, Decidable (Along step meets state events)
  | _, [] => isTrue trivial
  | state, event :: rest =>
      match stepped : step state event with
      | .error _ => decidable_of_iff (meets state event)
          ⟨fun holds => ⟨holds, fun next ok => by rw [stepped] at ok; cases ok⟩, And.left⟩
      | .ok next =>
          have := Along.decide next rest
          decidable_of_iff (meets state event ∧ Along step meets next rest)
            ⟨fun both => .cons both.1 stepped both.2, fun along => ⟨along.1, along.2 next stepped⟩⟩

/-- A condition on the events themselves. -/
theorem Along.of_mem {fits : ε → Prop} (all : ∀ event ∈ events, fits event) (state : σ) :
    Along step (fun _ event => fits event) state events := by
  induction events generalizing state with
  | nil => trivial
  | cons event rest ih =>
      refine ⟨all event List.mem_cons_self, fun next _ => ?_⟩
      exact ih (fun other member => all other (List.mem_cons_of_mem _ member)) next

theorem Along.and {other : σ → ε → Prop} (along : Along step meets state events)
    (also : Along step other state events) :
    Along step (fun state event => meets state event ∧ other state event) state events := by
  induction events generalizing state with
  | nil => trivial
  | cons event rest ih =>
      exact ⟨⟨along.1, also.1⟩, fun next stepped => ih (along.2 next stepped) (also.2 next stepped)⟩

/-- What holds at first and is kept by every step that meets the condition holds in
the end. -/
theorem Along.invariant (inv : σ → Prop) (along : Along step meets state events)
    (holds : inv state)
    (keeps : ∀ before event after, inv before → meets before event →
      step before event = .ok after → inv after)
    (ran : runs step state events = .ok last) : inv last := by
  induction events generalizing state with
  | nil =>
      cases ran
      exact holds
  | cons event rest ih =>
      obtain ⟨next, stepped, ran⟩ := runs_cons_ok ran
      exact ih (along.2 next stepped) (keeps state event next holds along.1 stepped) ran

/-- If a step leads to a good state exactly when it meets the condition, all states of a run
are good exactly when all its steps meet it. Both are decided where the invariant holds. -/
theorem throughout_iff_of (good inv : σ → Prop)
    (exact_ : ∀ before event after, inv before → good before → step before event = .ok after →
      (good after ↔ meets before event))
    (keeps : ∀ before event after, inv before → meets before event →
      step before event = .ok after → inv after)
    (start : inv state) (holds : good state) (ran : runs step state events = .ok last) :
    Throughout step good state events ↔ Along step meets state events := by
  induction events generalizing state with
  | nil =>
      refine ⟨fun _ => trivial, fun _ past later whole mid reached => ?_⟩
      have none_ : past = [] := (List.append_eq_nil_iff.mp whole).1
      subst none_
      cases reached
      exact holds
  | cons event rest ih =>
      obtain ⟨next, stepped, goes⟩ := runs_cons_ok ran
      have one := exact_ state event next start holds stepped
      constructor
      · intro all
        have fine : good next := by
          apply all [event] rest rfl
          rw [runs_cons stepped]
          rfl
        have met := one.mp fine
        refine .cons met stepped ((ih (keeps _ _ _ start met stepped) fine goes).mp ?_)
        intro past later whole mid reached
        apply all (event :: past) later (by rw [List.cons_append, whole]) mid
        rw [runs_cons stepped]
        exact reached
      · intro along past later whole mid reached
        obtain _ | ⟨first, past⟩ := past
        · cases reached
          exact holds
        · rw [List.cons_append] at whole
          obtain ⟨rfl, behind⟩ := List.cons.inj whole
          rw [runs_cons stepped] at reached
          have kept := keeps _ _ _ start along.1 stepped
          have fine := one.mpr along.1
          exact (ih kept fine goes).mpr (along.2 next stepped) past later behind mid reached

theorem throughout_iff (inv : σ → Prop)
    (keeps : ∀ before event after, inv before → step before event = .ok after →
      (inv after ↔ meets before event))
    (holds : inv state) (ran : runs step state events = .ok last) :
    Throughout step inv state events ↔ Along step meets state events :=
  throughout_iff_of inv (fun _ => True) (fun before event after _ => keeps before event after)
    (fun _ _ _ _ _ _ => trivial) trivial holds ran

/-- If a step is good exactly when it meets the condition, all steps of a run are good
exactly when all of them meet it. -/
theorem along_iff {good : σ → ε → Prop} (inv : σ → Prop)
    (exact_ : ∀ before event after, inv before → step before event = .ok after →
      (good before event ↔ meets before event))
    (keeps : ∀ before event after, inv before → meets before event →
      step before event = .ok after → inv after)
    (holds : inv state) (ran : runs step state events = .ok last) :
    Along step good state events ↔ Along step meets state events := by
  induction events generalizing state with
  | nil => exact Iff.rfl
  | cons event rest ih =>
      obtain ⟨next, stepped, goes⟩ := runs_cons_ok ran
      have one := exact_ state event next holds stepped
      constructor
      · intro all
        have met := one.mp all.1
        exact .cons met stepped ((ih (keeps _ _ _ holds met stepped) goes).mp (all.2 next stepped))
      · intro all
        have kept := keeps _ _ _ holds all.1 stepped
        exact .cons (one.mpr all.1) stepped ((ih kept goes).mpr (all.2 next stepped))

/-- If no step that meets the condition fails, the run does not fail. -/
theorem Along.completes (inv : σ → Prop) (along : Along step meets state events)
    (holds : inv state)
    (goes : ∀ before event, inv before → meets before event →
      ∃ after, step before event = .ok after ∧ inv after) :
    ∃ last, runs step state events = .ok last ∧ inv last := by
  induction events generalizing state with
  | nil => exact ⟨state, rfl, holds⟩
  | cons event rest ih =>
      obtain ⟨next, stepped, kept⟩ := goes state event holds along.1
      rw [runs_cons stepped]
      exact ih (along.2 next stepped) kept

/-- If a step goes through exactly when it meets the condition, a run goes through exactly
when all its steps meet it. -/
theorem completes_iff (inv : σ → Prop) (holds : inv state)
    (goes : ∀ before event, inv before → meets before event →
      ∃ after, step before event = .ok after ∧ inv after)
    (only : ∀ before event after, inv before → step before event = .ok after →
      meets before event) :
    (∃ last, runs step state events = .ok last) ↔ Along step meets state events := by
  constructor
  · intro completed
    induction events generalizing state with
    | nil => trivial
    | cons event rest ih =>
        obtain ⟨last, ran⟩ := completed
        obtain ⟨next, stepped, ran⟩ := runs_cons_ok ran
        have met := only state event next holds stepped
        obtain ⟨after, again, kept⟩ := goes state event holds met
        cases stepped.symm.trans again
        exact .cons met stepped (ih kept ⟨last, ran⟩)
  · intro along
    obtain ⟨last, ran, -⟩ := along.completes inv holds goes
    exact ⟨last, ran⟩

end LinuxCpp.Trace
