import Mathlib.Data.List.Perm.Basic
import LinuxCpp.Trace.Along

set_option autoImplicit false

/- What the steps of a run bring in and give out, against what is there before and after. -/
namespace LinuxCpp.Trace

open scoped List

variable {σ ε φ α : Type} {step : σ → ε → Except φ σ} {state : σ} {event : ε} {later : List ε}

/-- What the steps of a run put out, up to the first failure. -/
def outputs (step : σ → ε → Except φ σ) (out : σ → ε → List α) : σ → List ε → List α
  | _, [] => []
  | state, event :: later =>
      match step state event with
      | .error _ => []
      | .ok next => out state event ++ outputs step out next later

theorem outputs_cons {next : σ} (out : σ → ε → List α) (stepped : step state event = .ok next) :
    outputs step out state (event :: later) = out state event ++ outputs step out next later := by
  rw [outputs, stepped]

/-- What a step and the steps behind it bring in and give out. -/
theorem chain_perm {gained gains spent spends before between behind : List α}
    (one : gained ++ before ~ spent ++ between) (others : gains ++ between ~ spends ++ behind) :
    gained ++ gains ++ before ~ spent ++ spends ++ behind :=
  calc
    _ = gained ++ (gains ++ before) := List.append_assoc ..
    _ ~ gains ++ (gained ++ before) := List.perm_append_comm_assoc ..
    _ ~ gains ++ (spent ++ between) := one.append_left _
    _ ~ spent ++ (gains ++ between) := List.perm_append_comm_assoc ..
    _ ~ spent ++ (spends ++ behind) := others.append_left _
    _ = _ := (List.append_assoc ..).symm

/-- The labels of a list without repetitions, one item apart. -/
theorem filterMap_split {ι : Type} [DecidableEq ι] {items : List ι} {item : ι}
    (once : items.Nodup) (member : item ∈ items) {label label' : ι → Option α}
    (same : ∀ other, other ≠ item → label' other = label other) :
    items.filterMap label' ~ (label' item).toList ++ (items.erase item).filterMap label := by
  have others : (items.erase item).filterMap label' = (items.erase item).filterMap label := by
    refine List.filterMap_congr fun other inRest => same other ?_
    rintro rfl
    exact once.not_mem_erase inRest
  have apart := (List.perm_cons_erase member).filterMap label'
  rw [List.filterMap_cons, others] at apart
  cases labelled : label' item with
  | none => simpa [labelled] using apart
  | some name => simpa [labelled] using apart

end LinuxCpp.Trace
