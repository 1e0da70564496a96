import Mathlib.Data.List.Induction

set_option autoImplicit false

/- Traces of systems with many parties: the events of one party in a common
trace, and the courses of events that a table of phases allows. -/
namespace LinuxCpp.Trace

section Projection

variable {ι ε : Type} [DecidableEq ι]

/-- The events of one party, in the order of the trace. -/
def eventsOf (party : ι) (trace : List (ι × ε)) : List ε :=
  trace.filterMap fun entry => if entry.1 = party then some entry.2 else none

@[simp] theorem eventsOf_nil (party : ι) : eventsOf party ([] : List (ι × ε)) = [] := rfl

@[simp] theorem eventsOf_append (party : ι) (first second : List (ι × ε)) :
    eventsOf party (first ++ second) = eventsOf party first ++ eventsOf party second := by
  simp [eventsOf, List.filterMap_append]

theorem eventsOf_own (party : ι) (trace : List (ι × ε)) (event : ε) :
    eventsOf party (trace ++ [(party, event)]) = eventsOf party trace ++ [event] := by
  simp [eventsOf]

theorem eventsOf_other {party other : ι} (differ : other ≠ party) (trace : List (ι × ε))
    (event : ε) : eventsOf party (trace ++ [(other, event)]) = eventsOf party trace := by
  simp [eventsOf, differ]

end Projection

section Courses

variable {φ ε : Type} {next : φ → ε → φ → Prop} {start phase : φ}

/-- The lists of events that lead from the phase `start` to a phase. -/
inductive Course (next : φ → ε → φ → Prop) (start : φ) : List ε → φ → Prop
  | empty : Course next start [] start
  | snoc {events : List ε} {before after : φ} {event : ε} :
      Course next start events before → next before event after →
      Course next start (events ++ [event]) after

/-- A course of at least one event ends with a step of the table. -/
theorem Course.last {events : List ε} {event : ε}
    (course : Course next start (events ++ [event]) phase) :
    ∃ before, Course next start events before ∧ next before event phase := by
  generalize whole : events ++ [event] = all at course
  cases course with
  | empty => simp at whole
  | snoc earlier step =>
      obtain ⟨rfl, same⟩ := List.append_inj' whole rfl
      cases same
      exact ⟨_, earlier, step⟩

/-- The beginning of a course is a course. -/
theorem Course.beginning {events : List ε} (rest : List ε)
    (course : Course next start (events ++ rest) phase) :
    ∃ before, Course next start events before := by
  induction rest using List.reverseRecOn generalizing phase with
  | nil => exact ⟨phase, by simpa using course⟩
  | append_singleton rest event ih =>
      rw [← List.append_assoc] at course
      obtain ⟨before, earlier, -⟩ := course.last
      exact ih earlier

/-- A course to another phase than `start` ends with a step into that phase. -/
theorem Course.into {events : List ε} (course : Course next start events phase)
    (moved : phase ≠ start) :
    ∃ earlier before event, events = earlier ++ [event] ∧
      Course next start earlier before ∧ next before event phase := by
  cases course with
  | empty => exact absurd rfl moved
  | snoc earlier step => exact ⟨_, _, _, rfl, earlier, step⟩

end Courses

end LinuxCpp.Trace
