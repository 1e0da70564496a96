import LinuxCpp.Trace.Along

set_option autoImplicit false

/- Systems whose moves count something down: whoever has nothing to do changes nothing,
and until all is done there is somebody with something to do. -/
namespace LinuxCpp.Trace

variable {σ ε φ κ : Type}

/-- A round has a turn for everybody. -/
def Round (kind : ε → κ) (round : List ε) : Prop := ∀ who, ∃ event ∈ round, kind event = who

/-- Moves that change something lower the count, and above zero somebody has one. -/
structure Descends (step : σ → ε → Except φ σ) (kind : ε → κ) (due : σ → κ → Prop)
    (at_ : σ → Nat → Prop) : Prop where
  goes : ∀ state count event, at_ state count → ∃ next, step state event = .ok next ∧
    (next = state ∧ ¬ due state (kind event) ∨ ∃ less < count, at_ next less)
  awake : ∀ state count, at_ state count → 0 < count → ∃ who, due state who

variable {step : σ → ε → Except φ σ} {kind : ε → κ} {due : σ → κ → Prop} {at_ : σ → Nat → Prop}
  {state : σ} {count : Nat}

/-- No order of moves fails. -/
theorem Descends.runs (descends : Descends step kind due at_) (holds : at_ state count)
    (events : List ε) :
    ∃ last left, runs step state events = .ok last ∧ left ≤ count ∧ at_ last left := by
  induction events generalizing state count with
  | nil => exact ⟨state, count, rfl, Nat.le_refl _, holds⟩
  | cons event rest ih =>
      obtain ⟨next, stepped, ⟨rfl, -⟩ | ⟨less, fewer, holds⟩⟩ := descends.goes _ _ event holds
      · obtain ⟨last, left, ran, bound, holds⟩ := ih holds
        exact ⟨last, left, (runs_cons stepped).trans ran, bound, holds⟩
      · obtain ⟨last, left, ran, bound, holds⟩ := ih holds
        exact ⟨last, left, (runs_cons stepped).trans ran,
          Nat.le_trans bound (Nat.le_of_lt fewer), holds⟩

/-- A turn of somebody who has something to do lowers the count, whoever moves before. -/
theorem Descends.lowers (descends : Descends step kind due at_) (holds : at_ state count)
    {who : κ} (has : due state who) {events : List ε} (turn : ∃ event ∈ events, kind event = who) :
    ∃ last left, Trace.runs step state events = .ok last ∧ left < count ∧ at_ last left := by
  induction events with
  | nil =>
      obtain ⟨event, isIn, -⟩ := turn
      cases isIn
  | cons event rest ih =>
      obtain ⟨next, stepped, ⟨rfl, waits⟩ | ⟨less, fewer, holds⟩⟩ := descends.goes _ _ event holds
      · have still : ∃ event ∈ rest, kind event = who := by
          obtain ⟨other, isIn, same⟩ := turn
          obtain rfl | isIn := List.mem_cons.mp isIn
          · exact absurd (same ▸ has) waits
          · exact ⟨other, isIn, same⟩
        obtain ⟨last, left, ran, bound, holds⟩ := ih still
        exact ⟨last, left, (runs_cons stepped).trans ran, bound, holds⟩
      · obtain ⟨last, left, ran, bound, holds⟩ := descends.runs holds rest
        exact ⟨last, left, (runs_cons stepped).trans ran, Nat.lt_of_le_of_lt bound fewer, holds⟩

/-- As many rounds as the count bring it to zero. -/
theorem Descends.finishes (descends : Descends step kind due at_) (holds : at_ state count)
    {rounds : List (List ε)} (fair : ∀ round ∈ rounds, Round kind round)
    (enough : count ≤ rounds.length) :
    ∃ last, Trace.runs step state rounds.flatten = .ok last ∧ at_ last 0 := by
  induction rounds generalizing state count with
  | nil =>
      have zero : count = 0 := Nat.eq_zero_of_le_zero enough
      exact ⟨state, rfl, zero ▸ holds⟩
  | cons round rounds ih =>
      have fair' : ∀ round ∈ rounds, Round kind round := fun other isIn =>
        fair other (List.mem_cons_of_mem _ isIn)
      have one : ∃ last left, Trace.runs step state round = .ok last ∧ left ≤ rounds.length ∧
          at_ last left := by
        rw [List.length_cons] at enough
        obtain rfl | positive := Nat.eq_zero_or_pos count
        · obtain ⟨last, left, ran, bound, holds⟩ := descends.runs holds round
          exact ⟨last, left, ran, by omega, holds⟩
        · obtain ⟨who, has⟩ := descends.awake _ _ holds positive
          obtain ⟨last, left, ran, bound, holds⟩ := descends.lowers holds has
            (fair round (List.mem_cons_self ..) who)
          exact ⟨last, left, ran, by omega, holds⟩
      obtain ⟨mid, left, ran, bound, holds⟩ := one
      obtain ⟨last, goes, done⟩ := ih holds fair' bound
      exact ⟨last, (runs_append ran).trans goes, done⟩

/-- Where no move changes anything the count is zero. -/
theorem Descends.rests (descends : Descends step kind due at_) (holds : at_ state count)
    (turns : Function.Surjective kind) (still : ∀ event, step state event = .ok state) :
    at_ state 0 := by
  induction count using Nat.strongRecOn with
  | ind count ih =>
      obtain rfl | positive := Nat.eq_zero_or_pos count
      · exact holds
      obtain ⟨who, has⟩ := descends.awake _ _ holds positive
      obtain ⟨event, rfl⟩ := turns who
      obtain ⟨next, stepped, ⟨-, waits⟩ | ⟨less, fewer, after⟩⟩ := descends.goes _ _ event holds
      · exact absurd has waits
      · cases stepped.symm.trans (still event)
        exact ih less fewer after

end LinuxCpp.Trace
