import LinuxCpp.Skiptable.Insertion

set_option autoImplicit false

/- The skip list after any calls of `insert`, whatever `rand` returned. -/
namespace LinuxCpp.Skiptable

open C Linked

/-- The nodes from `header->forward[i]` on, for each level. -/
structure Levels (list : SkipList) (levels : Nat → List Nat) : Prop where
  chain : ∀ i, i ≤ maxLevel → ∃ first, list.link i list.header = some first ∧
    Chain (list.link i) first (levels i)
  increasing : ∀ i, i ≤ maxLevel →
    (levels i).Pairwise fun a b => list.keyOf a < list.keyOf b
  lower : ∀ i, i < maxLevel → (levels (i + 1)).Sublist (levels i)
  empty : ∀ i, list.level < i → i ≤ maxLevel → levels i = []

/-- The list holds the keys of these calls. -/
structure Stores (list : SkipList) (calls : List Call) (order : List Nat) : Prop where
  ordered : Ordered list order
  keys : ∀ key, (∃ node ∈ order, list.keyOf node = key) ↔ ∃ call ∈ calls, call.key = key

section Creation

variable {list : SkipList} {value : Node} {n i : Nat}

theorem clearHeader_ok (live : list.heap list.header = some value)
    (slots : i + n ≤ value.forward.length) :
    ∃ list', clearHeader n i list = .ok list' ∧ Relinked list list' ∧
      (∀ j, i ≤ j → j < i + n → list'.link j list.header = some none) ∧
      ∀ j, j < i → list'.link j = list.link j := by
  induction n generalizing i list value with
  | zero =>
      refine ⟨list, rfl, .rfl, fun j _ _ => ?_, fun _ _ => rfl⟩
      omega
  | succ n ih =>
      obtain ⟨middle, ran, same, linked, others⟩ :=
        setForward_ok (p := none) live (by omega : i < value.forward.length)
      obtain ⟨value', live', length⟩ := live_shape (same.shape list.header) live
      rw [← same.header] at live'
      obtain ⟨list', run, same', cleared, kept⟩ :=
        ih live' (by omega : i + 1 + n ≤ value'.forward.length)
      rw [same.header] at cleared
      refine ⟨list', ?_, same.trans same', fun j low high => ?_, fun j small => ?_⟩
      · rw [clearHeader, ran, ok_bind, run]
      · rcases Nat.eq_or_lt_of_le low with rfl | later
        · rw [kept i (Nat.lt_succ_self i), linked, Function.update_self]
        · exact cleared j later (by omega)
      · rw [kept j (by omega), others j (by omega)]

theorem create_ok : ∃ list, createSkipList = .ok list ∧ Stores list [] [] := by
  let header : Node := ⟨-1, -1, List.replicate (maxLevel + 1) none⟩
  let start : SkipList := ⟨0, 0, Function.update (fun _ => none) 0 (some header), 1⟩
  have live : start.heap start.header = some header := rfl
  obtain ⟨list, ran, same, cleared, -⟩ :=
    clearHeader_ok live (by decide : 0 + (maxLevel + 1) ≤ header.forward.length)
  obtain ⟨value, live', length⟩ := live_shape (same.shape start.header) live
  rw [← same.header] at live'
  refine ⟨list, ran, ⟨?_, ⟨value, live', length⟩, by simp, .nil, ?_, ?_, ?_⟩, by simp⟩
  · rw [same.level]
    exact Nat.zero_le _
  · intro i inside
    rw [same.header]
    exact .cons (cleared i (Nat.zero_le i) (by omega)) rfl
  · intro node large
    rw [same.allocated] at large
    have isOther : node ≠ 0 := Nat.ne_of_gt large
    have shape := same.shape node
    have empty : start.heap node = none := by simp [start, isOther]
    rw [SkipList.shape, SkipList.shape, empty] at shape
    exact Option.map_eq_none_iff.mp shape
  · rw [same.allocated]
    exact Nat.one_pos

end Creation

section Runs

variable {list : SkipList} {calls : List Call} {order : List Nat}

/-- The levels are the cuts through one order. -/
theorem levels_ok (ordered : Ordered list order) :
    Levels list fun i => order.filter (list.tall i) := by
  refine ⟨fun i inside => ?_, fun i inside => ?_, fun i inside => ?_, fun i above inside => ?_⟩
  · obtain ⟨-, first, linked, rest⟩ := ordered.chains i inside
    exact ⟨first, linked, rest⟩
  · exact ordered.increasing.filter _
  · refine List.monotone_filter_right order fun node tall => ?_
    exact tall_below (Nat.le_succ i) tall
  · exact filter_above ordered above fun _ member => member

theorem keys_inserted {list' : SkipList} {low high : List Nat} {newKey key : Int} {level : Nat}
    (ordered : Ordered list (low ++ high))
    (inserted : Inserted list list' low high newKey level) :
    (∃ node ∈ low ++ list.allocated :: high, list'.keyOf node = key) ↔
      (∃ node ∈ low ++ high, list.keyOf node = key) ∨ newKey = key := by
  have kept : ∀ node ∈ low ++ high, list'.keyOf node = list.keyOf node := fun node member =>
    inserted.keyOf_old (not_allocated ordered member)
  constructor
  · rintro ⟨node, member, found⟩
    by_cases isNew : node = list.allocated
    · rw [isNew, inserted.keyOf_new] at found
      exact .inr found
    · have old : node ∈ low ++ high := by simpa [isNew] using member
      exact .inl ⟨node, old, (kept node old).symm.trans found⟩
  · rintro (⟨node, old, found⟩ | same)
    · have member : node ∈ low ++ list.allocated :: high := by
        rcases List.mem_append.mp old with early | late
        · exact List.mem_append_left _ early
        · exact List.mem_append_right _ (List.mem_cons_of_mem _ late)
      exact ⟨node, member, (kept node old).trans found⟩
    · exact ⟨list.allocated, by simp, inserted.keyOf_new.trans same⟩

/-- One call of `insert`. -/
theorem insert_stores (stores : Stores list calls order) (call : Call) :
    ∃ answer list' order', insert list call.key call.value call.flips = .ok (answer, list') ∧
      (answer = false ↔ ∃ earlier ∈ calls, earlier.key = call.key) ∧
      (answer = false → list' = list) ∧ Stores list' (calls ++ [call]) order' := by
  obtain ⟨ordered, keys⟩ := stores
  obtain ⟨low, high, rfl, below, above⟩ := sorted_cut ordered.sorted call.key
  by_cases present : ∃ node ∈ low ++ high, list.keyOf node = call.key
  · refine ⟨false, list, _, insert_known ordered below above present, ?_, fun _ => rfl, ordered,
      fun key => ?_⟩
    · exact iff_of_true rfl ((keys call.key).mp present)
    · rw [keys]
      simp only [List.mem_append, List.mem_singleton, or_and_right, exists_or, exists_eq_left]
      refine (or_iff_left_of_imp fun same => ?_).symm
      exact same ▸ (keys call.key).mp present
  · obtain ⟨list', ran, inserted⟩ :=
      insert_linked ordered below above present call.value call.flips
    have ordered' := insert_new ordered below above present inserted (randomLevel_le _)
    refine ⟨true, list', _, ran, ?_, fun isFalse => absurd isFalse.symm Bool.false_ne_true,
      ordered', fun key => ?_⟩
    · exact iff_of_false Bool.false_ne_true.symm fun known =>
        present ((keys call.key).mpr known)
    · rw [keys_inserted ordered inserted, keys key]
      simp only [List.mem_append, List.mem_singleton, or_and_right, exists_or, exists_eq_left]

theorem insertAll_stores (stores : Stores list calls order) (rest : List Call) :
    ∃ list' order', insertAll list rest = .ok list' ∧ Stores list' (calls ++ rest) order' := by
  induction rest generalizing list calls order with
  | nil => exact ⟨list, order, rfl, by rwa [List.append_nil]⟩
  | cons call rest ih =>
      obtain ⟨answer, middle, order', ran, -, -, stores'⟩ := insert_stores stores call
      obtain ⟨list', last, run, stores''⟩ := ih stores'
      rw [List.append_assoc, List.singleton_append] at stores''
      refine ⟨list', last, ?_, stores''⟩
      rw [insertAll, ran, ok_bind]
      exact run

theorem search_stores (stores : Stores list calls order) (key : Int) :
    search list key = .ok (decide (∃ call ∈ calls, call.key = key)) := by
  obtain ⟨ordered, keys⟩ := stores
  obtain ⟨low, high, rfl, below, above⟩ := sorted_cut ordered.sorted key
  unfold search
  rw [descendSearch_ok ordered below above ordered.level List.mem_cons_self, ok_bind,
    next_ok ordered, ok_bind, pointsAt_ok ordered below above]
  simp only [keys]

end Runs

theorem skiptable_correct (calls : List Call) :
    ∃ list, (createSkipList >>= fun list => insertAll list calls) = .ok list ∧
      (∃ levels, Levels list levels) ∧
      (∀ key, search list key = .ok (decide (∃ call ∈ calls, call.key = key))) ∧
      ∀ call : Call, ∃ answer list',
        insert list call.key call.value call.flips = .ok (answer, list') ∧
        (answer = false ↔ ∃ earlier ∈ calls, earlier.key = call.key) ∧
        (answer = false → list' = list) := by
  obtain ⟨start, made, empty⟩ := create_ok
  obtain ⟨list, order, ran, stores⟩ := insertAll_stores empty calls
  rw [List.nil_append] at stores
  refine ⟨list, ?_, ⟨_, levels_ok stores.ordered⟩, search_stores stores, fun call => ?_⟩
  · rw [made, ok_bind, ran]
  · obtain ⟨answer, list', -, ran, known, same, -⟩ := insert_stores stores call
    exact ⟨answer, list', ran, known, same⟩

end LinuxCpp.Skiptable
