import Mathlib.Data.List.Induction

set_option autoImplicit false

/- Counting occurrences: a table with an entry for each distinct element, in the
order in which they are first met. -/
namespace LinuxCpp.Scan

variable {α : Type} [DecidableEq α] {w : α} {ws : List α}

/-- The distinct elements by their first occurrence, with their multiplicities. -/
def tally (ws : List α) : List (α × Nat) := ws.eraseDups.map fun w => (w, ws.count w)

/-- One more occurrence of `w`. -/
def bump (w : α) : List (α × Nat) → List (α × Nat)
  | [] => [(w, 1)]
  | (v, n) :: table => if v = w then (v, n + 1) :: table else (v, n) :: bump w table

theorem bump_new {table : List (α × Nat)} (new : ∀ e ∈ table, e.1 ≠ w) :
    bump w table = table ++ [(w, 1)] := by
  induction table with
  | nil => rfl
  | cons e table ih =>
      rw [bump, if_neg (new e List.mem_cons_self),
        ih fun f member => new f (List.mem_cons_of_mem e member)]
      rfl

theorem bump_old {front : List (α × Nat)} (new : ∀ e ∈ front, e.1 ≠ w) (n : Nat)
    (back : List (α × Nat)) :
    bump w (front ++ (w, n) :: back) = front ++ (w, n + 1) :: back := by
  induction front with
  | nil => rw [List.nil_append, bump, if_pos rfl, List.nil_append]
  | cons e front ih =>
      rw [List.cons_append, bump, if_neg (new e List.mem_cons_self),
        ih fun f member => new f (List.mem_cons_of_mem e member)]
      rfl

theorem eraseDups_concat (ws : List α) (w : α) :
    (ws ++ [w]).eraseDups = if w ∈ ws then ws.eraseDups else ws.eraseDups ++ [w] := by
  rw [List.eraseDups_append]
  split <;> rename_i known <;> simp [List.removeAll, List.eraseDups_cons, known]

theorem nodup_eraseDups (ws : List α) : ws.eraseDups.Nodup := by
  induction ws using List.reverseRecOn with
  | nil => exact .nil
  | append_singleton ws w ih =>
      rw [eraseDups_concat]
      split
      · exact ih
      · rename_i new
        refine List.nodup_append.mpr ⟨ih, List.pairwise_singleton _ w, ?_⟩
        rintro v member _ last rfl
        exact new (List.mem_eraseDups.mp (List.mem_singleton.mp last ▸ member))

@[simp] theorem map_fst_tally (ws : List α) : (tally ws).map Prod.fst = ws.eraseDups := by
  rw [tally, List.map_map]
  exact List.map_id _

theorem length_tally (ws : List α) : (tally ws).length = ws.eraseDups.length := List.length_map _

theorem not_mem_tally (new : w ∉ ws) : ∀ e ∈ tally ws, e.1 ≠ w := by
  rintro e member rfl
  have known := List.mem_map_of_mem (f := Prod.fst) member
  rw [map_fst_tally, List.mem_eraseDups] at known
  exact new known

theorem count_concat_ne {v : α} (other : v ≠ w) (ws : List α) :
    (ws ++ [w]).count v = ws.count v := by
  rw [List.count_append, List.count_singleton, if_neg (by simpa using other.symm), Nat.add_zero]

/-- The one entry of an element that was met before. -/
theorem exists_split (known : w ∈ ws) :
    ∃ front back, ws.eraseDups = front ++ w :: back ∧ w ∉ front ∧ w ∉ back := by
  obtain ⟨front, back, shape, before⟩ :=
    List.eq_append_cons_of_mem (List.mem_eraseDups.mpr known)
  have distinct := nodup_eraseDups ws
  rw [shape, List.nodup_append, List.nodup_cons] at distinct
  exact ⟨front, back, shape, before, distinct.2.1.1⟩

theorem tally_split {front back : List α} (shape : ws.eraseDups = front ++ w :: back) :
    tally ws = (front.map fun v => (v, ws.count v)) ++
      (w, ws.count w) :: back.map fun v => (v, ws.count v) := by
  rw [tally, shape, List.map_append, List.map_cons]

/-- Counting one by one comes to the multiplicities. -/
theorem tally_concat (ws : List α) (w : α) : tally (ws ++ [w]) = bump w (tally ws) := by
  by_cases known : w ∈ ws
  · obtain ⟨front, back, shape, before, behind⟩ := exists_split known
    have same : ∀ vs : List α, w ∉ vs →
        (vs.map fun v => (v, (ws ++ [w]).count v)) = vs.map fun v => (v, ws.count v) :=
      fun vs absent => List.map_congr_left fun v member => by
        have other : v ≠ w := fun equal => absent (equal ▸ member)
        rw [count_concat_ne other]
    have shape' : (ws ++ [w]).eraseDups = front ++ w :: back := by
      rw [eraseDups_concat, if_pos known, shape]
    rw [tally_split shape, tally_split shape', same front before, same back behind, bump_old,
      List.count_append, List.count_singleton_self]
    intro e member
    obtain ⟨v, inside, rfl⟩ := List.mem_map.mp member
    exact fun equal => before (equal ▸ inside)
  · rw [bump_new (not_mem_tally known), tally, tally, eraseDups_concat, if_neg known,
      List.map_append]
    congr 1
    · refine List.map_congr_left fun v member => ?_
      have other : v ≠ w := fun equal => known (equal ▸ List.mem_eraseDups.mp member)
      rw [count_concat_ne other]
    · simp [List.count_eq_zero_of_not_mem known]

end LinuxCpp.Scan
