import LinuxCpp.RedBlack.Tree

set_option autoImplicit false

namespace LinuxCpp.RedBlack

open ColorTree

variable {α κ : Type} [LinearOrder κ] (key : α → κ) (k : κ)

/-- The descent to `k` from a subtree: the path walked and the subtree at its
end, which is empty or has `k` at its root. -/
def seek : List (Frame α) → ColorTree α → List (Frame α) × ColorTree α
  | fs, leaf => (fs, leaf)
  | fs, node color left x right =>
      if k < key x then seek (⟨.left, color, x, right⟩ :: fs) left
      else if key x < k then seek (⟨.right, color, x, left⟩ :: fs) right
      else (fs, node color left x right)

/-- In-order keys strictly increase. -/
def Sorted (t : ColorTree α) : Prop := (t.toList.map key).Pairwise (· < ·)

/-- The hole of the path is the place of `k`. -/
structure Around (fs : List (Frame α)) : Prop where
  below : ∀ a ∈ before fs, key a < k
  above : ∀ a ∈ after fs, k < key a

theorem around_nil : Around key k [] := ⟨by simp [before], by simp [after]⟩

theorem plug_seek (fs : List (Frame α)) (t : ColorTree α) :
    plug (seek key k fs t).1 (seek key k fs t).2 = plug fs t := by
  induction t generalizing fs with
  | leaf => rfl
  | node color left x right ihl ihr =>
      unfold seek
      split
      · exact ihl _
      · split
        · exact ihr _
        · rfl

/-- The descent is no longer than the tree is large. -/
theorem length_seek (fs : List (Frame α)) (t : ColorTree α) :
    (seek key k fs t).1.length ≤ fs.length + t.size := by
  induction t generalizing fs with
  | leaf => simp [seek, size]
  | node color left x right ihl ihr =>
      unfold seek
      have goesLeft := ihl (⟨.left, color, x, right⟩ :: fs)
      have goesRight := ihr (⟨.right, color, x, left⟩ :: fs)
      simp only [List.length_cons, size] at goesLeft goesRight ⊢
      split
      · omega
      · split
        · omega
        · simp only
          omega

theorem seek_end (fs : List (Frame α)) (t : ColorTree α) :
    (seek key k fs t).2 = leaf ∨
      ∃ color left x right, (seek key k fs t).2 = node color left x right ∧ key x = k := by
  induction t generalizing fs with
  | leaf => exact Or.inl rfl
  | node color left x right ihl ihr =>
      unfold seek
      split
      · exact ihl _
      · split
        · exact ihr _
        · exact Or.inr ⟨color, left, x, right, rfl, le_antisymm (not_lt.mp ‹_›) (not_lt.mp ‹_›)⟩

theorem sorted_node {color : Color} {left right : ColorTree α} {x : α} :
    Sorted key (node color left x right) ↔
      Sorted key left ∧ Sorted key right ∧ (∀ a ∈ left.toList, key a < key x) ∧
        (∀ a ∈ right.toList, key x < key a) := by
  simp only [Sorted, toList, List.map_append, List.map_cons, List.pairwise_append,
    List.pairwise_cons, List.mem_map, List.mem_cons, forall_exists_index, and_imp,
    forall_apply_eq_imp_iff₂, forall_eq_or_imp]
  constructor
  · rintro ⟨left, ⟨above, right⟩, cross⟩
    exact ⟨left, right, fun a member => (cross a member).1, above⟩
  · rintro ⟨left, right, below, above⟩
    exact ⟨left, ⟨above, right⟩, fun a member => ⟨below a member, fun b other =>
      (below a member).trans (above b other)⟩⟩

/-- The descent keeps `k` between the items it passes. -/
theorem seek_around {fs : List (Frame α)} {t : ColorTree α} (sorted : Sorted key t)
    (around : Around key k fs) : Around key k (seek key k fs t).1 := by
  induction t generalizing fs with
  | leaf => exact around
  | node color left x right ihl ihr =>
      obtain ⟨sortedLeft, sortedRight, below, above⟩ := (sorted_node key).mp sorted
      unfold seek
      split
      · rename_i smaller
        refine ihl sortedLeft ⟨?_, ?_⟩
        · simpa [before, Frame.before] using around.below
        · simp only [after, Frame.after, List.cons_append, List.mem_cons, List.mem_append]
          rintro a (rfl | member | member)
          · exact smaller
          · exact smaller.trans (above a member)
          · exact around.above a member
      · split
        · rename_i larger
          refine ihr sortedRight ⟨?_, ?_⟩
          · simp only [before, Frame.before, List.mem_append, List.mem_cons, List.not_mem_nil,
              or_false]
            rintro a (member | member | rfl)
            · exact around.below a member
            · exact (below a member).trans larger
            · exact larger
          · simpa [after, Frame.after] using around.above
        · exact around

/-- An item of the sequence with this key. -/
def lookup (t : ColorTree α) : Option α := t.toList.find? fun a => key a = k

variable {key} {k}

/-- The descent to an absent key ends at its place in the sequence. -/
theorem seek_absent {t : ColorTree α} (sorted : Sorted key t)
    (absent : (seek key k [] t).2 = leaf) :
    t.toList = before (seek key k [] t).1 ++ after (seek key k [] t).1 ∧ lookup key k t = none := by
  have around := seek_around key k sorted (around_nil key k)
  have split : t.toList = before (seek key k [] t).1 ++ after (seek key k [] t).1 := by
    have whole := congrArg toList (plug_seek key k [] t)
    rw [absent, toList_plug, plug_nil] at whole
    simpa [toList] using whole.symm
  refine ⟨split, ?_⟩
  rw [lookup, split, List.find?_eq_none]
  intro a member
  rcases List.mem_append.mp member with left | right
  · simpa using (around.below a left).ne
  · simpa using (around.above a right).ne'

/-- The descent to a present key ends at its item. -/
theorem seek_present {t left right : ColorTree α} {color : Color} {x : α} (sorted : Sorted key t)
    (found : (seek key k [] t).2 = node color left x right) :
    key x = k ∧ t.toList = before (seek key k [] t).1 ++ left.toList ++
      x :: (right.toList ++ after (seek key k [] t).1) ∧ lookup key k t = some x := by
  have here : key x = k := by
    rcases seek_end key k [] t with empty | ⟨_, _, _, _, same, here⟩
    · rw [empty] at found
      cases found
    · rw [found] at same
      cases same
      exact here
  have split : t.toList = before (seek key k [] t).1 ++ left.toList ++
      x :: (right.toList ++ after (seek key k [] t).1) := by
    have whole := congrArg toList (plug_seek key k [] t)
    rw [found, toList_plug, plug_nil] at whole
    simpa [toList] using whole.symm
  refine ⟨here, split, ?_⟩
  have order := sorted
  rw [Sorted, split, List.map_append, List.pairwise_append] at order
  rw [lookup, split, List.find?_append]
  have none : List.find? (fun a => decide (key a = k))
      (before (seek key k [] t).1 ++ left.toList) = none := by
    rw [List.find?_eq_none]
    intro a member
    have smaller := order.2.2 (key a) (List.mem_map_of_mem member) (key x) (by simp)
    simpa [here] using (here ▸ smaller).ne
  rw [none]
  simp [here]

theorem lookup_eq_none_iff {t : ColorTree α} (sorted : Sorted key t) :
    lookup key k t = none ↔ (seek key k [] t).2 = leaf := by
  constructor
  · intro absent
    rcases seek_end key k [] t with empty | ⟨color, left, x, right, found, -⟩
    · exact empty
    · rw [(seek_present sorted found).2.2] at absent
      cases absent
  · exact fun absent => (seek_absent sorted absent).2

/-- Lookup in a sequence with one more item. -/
theorem lookup_between {t t' : ColorTree α} {smaller larger : List α} {x : α}
    (old : t.toList = smaller ++ larger) (new : t'.toList = smaller ++ x :: larger)
    (below : ∀ a ∈ smaller, key a < key x) :
    (k = key x → lookup key k t' = some x) ∧ (k ≠ key x → lookup key k t' = lookup key k t) := by
  rw [lookup, lookup, old, new, List.find?_append, List.find?_append, List.find?_cons]
  constructor
  · rintro rfl
    have passed : smaller.find? (fun a => decide (key a = key x)) = none := by
      rw [List.find?_eq_none]
      intro a member
      simpa using (below a member).ne
    simp [passed]
  · intro different
    simp [different.symm]

end LinuxCpp.RedBlack
