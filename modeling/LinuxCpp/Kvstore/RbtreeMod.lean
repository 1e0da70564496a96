import LinuxCpp.Kvstore.RbtreeDel

set_option autoImplicit false

namespace LinuxCpp.Kvstore

open C RedBlack RedBlack.ColorTree Rbtree

/-- The finite map a tree stands for. -/
def rbView (t : RbTree) (key : CStr) : Option CStr := (lookup RbItem.key key t).map RbItem.value

section View

variable {T : Rbtree} {A B : Allocator} {t t' : RbTree} {key : CStr}

theorem rbView_eq_none : rbView t key = none ↔ lookup RbItem.key key t = none := by
  rw [rbView, Option.map_eq_none_iff]

theorem answer_holds : (answer t key).Holds (rbView t key) := by
  unfold answer rbView
  cases lookup RbItem.key key t with
  | none => rfl
  | some x => exact ⟨x.valueBlock, rfl⟩

/-- The view is the first pair with the key. -/
theorem rbView_entries (t : RbTree) (key : CStr) :
    rbView t key = ((entries t).find? fun e => e.1 = key).map Prod.snd := by
  rw [rbView, lookup, entries, List.find?_map, Option.map_map]
  congr 2
  funext x
  exact decide_eq_decide.mpr Iff.rfl

theorem rbView_inserted {x : RbItem} (sorted : Sorted RbItem.key t)
    (absent : lookup RbItem.key x.key t = none) :
    rbView (inserted t x) = Function.update (rbView t) x.key (some x.value) := by
  have atEnd := (lookup_eq_none_iff sorted).mp absent
  funext k
  have after : (answer (inserted t x) k).Holds (rbView (inserted t x) k) := answer_holds
  rw [answer_inserted sorted atEnd] at after
  rw [Function.update_apply]
  split
  · rename_i same
    rw [if_pos same] at after
    exact after.str?.symm
  · rename_i different
    rw [if_neg different] at after
    exact after.str?.symm.trans answer_holds.str?

theorem rbView_removed (removed : entries t' = (entries t).filter fun e => e.1 ≠ key) :
    rbView t' = Function.update (rbView t) key none := by
  funext k
  rw [Function.update_apply, rbView_entries, removed, List.find?_filter]
  split
  · rename_i same
    subst same
    rw [List.find?_eq_none.mpr fun e _ => by simp]
    rfl
  · rename_i different
    rw [rbView_entries]
    congr 2
    funext e
    by_cases same : e.1 = k
    · simp [same, different]
    · simp [same]

/-- Later allocator states of the same run keep the invariant. -/
theorem RbInv.later (inv : RbInv T A t) (later : A.Later B) : RbInv T B t :=
  ⟨inv.holds, inv.valid, inv.sorted, fun a above => inv.fresh a (by
    have := later.calls
    omega)⟩

end View

section Mod

variable {T : Rbtree} {A : Allocator} {t t' : RbTree} {key : CStr} {fuel : Nat}

theorem kvsRbtreeMod_absent (value : CStr) (inv : RbInv T A t)
    (absent : lookup RbItem.key key t = none) (enough : t.size < fuel) :
    kvsRbtreeMod fuel T (some key) (some value) A = .ok ((1, T), A) := by
  have atEnd := (lookup_eq_none_iff inv.sorted).mp absent
  simp only [kvsRbtreeMod]
  rw [lift_bind_ok (rbtreeSearch_holds inv.holds enough), atEnd, ptr, if_pos rfl]
  rfl

/-- A new value in one item leaves the other keys alone. -/
theorem rbView_replaced {smaller larger : List RbItem} {x x' : RbItem}
    (old : t.toList = smaller ++ x :: larger) (new : t'.toList = smaller ++ x' :: larger)
    (sorted : Sorted RbItem.key t) (same : x'.key = x.key) :
    Sorted RbItem.key t' ∧ rbView t' = Function.update (rbView t) x.key (some x'.value) := by
  rw [Sorted, old] at sorted
  refine ⟨by rw [Sorted, new]; simpa [same] using sorted, ?_⟩
  simp only [List.map_append, List.map_cons, List.pairwise_append, List.mem_map, List.mem_cons,
    forall_exists_index, and_imp, forall_apply_eq_imp_iff₂, forall_eq_or_imp] at sorted
  funext k
  rw [Function.update_apply, rbView, rbView, lookup, lookup, old, new]
  by_cases here : k = x.key
  · subst here
    rw [List.find?_append, List.find?_append, List.find?_cons_of_pos (by simp [same]),
      List.find?_eq_none.mpr fun a member => by simpa using (sorted.2.2 a member).1.ne]
    simp
  · simp [here, same, Ne.symm here]

theorem kvsRbtreeMod_present (value : CStr) (inv : RbInv T A t) (granted : A.AllSucceed)
    (present : lookup RbItem.key key t ≠ none) (enough : t.size < fuel) :
    ∃ T' B t', kvsRbtreeMod fuel T (some key) (some value) A = .ok ((0, T'), B) ∧
      RbInv T' B t' ∧ rbView t' = Function.update (rbView t) key (some value) ∧ A.Later B := by
  obtain ⟨fs, color, l, z, r, rfl, found, rfl, notNil⟩ := split_of_present inv present
  have at_ : Holds T (plug fs (build .left color l z r)) := inv.holds
  let z' : RbItem := { z with valueBlock := A.calls + 1, value := value }
  obtain ⟨holds', within⟩ := store_holds at_ color z' rfl
  have items : ∀ y, (plug fs (node color l y r)).toList =
      (before fs ++ l.toList) ++ y :: (r.toList ++ after fs) := fun y => by
    simp [toList_plug, toList]
  obtain ⟨sorted', view⟩ := rbView_replaced (items z) (items z') inv.sorted rfl
  refine ⟨_, { A.next with freed := z.valueBlock :: A.freed }, plug fs (node color l z' r), ?_,
    ⟨holds', valid_replace (d := .left) z' inv.valid, sorted', ?_⟩, view,
    ⟨rfl, rfl, Nat.le_succ _⟩⟩
  · simp only [kvsRbtreeMod]
    rw [lift_bind_ok (rbtreeSearch_holds inv.holds enough), found, ptr, if_neg notNil,
      lift_bind_ok (value_of at_.cell), cellOf_value, bind_ok (free_live ..),
      bind_ok (strdup_run (by exact granted) value), lift_bind_ok (setValue_of at_.cell _)]
    rfl
  · intro a later
    have unmapped : T.heap a = none := inv.fresh a (by
      simp only [Allocator.next_calls] at later
      omega)
    rw [within.outside a fun member => inv.holds.mapped member unmapped, unmapped]

end Mod

end LinuxCpp.Kvstore
