import LinuxCpp.Skiptable.Correctness

set_option autoImplicit false

/- What `display` prints of a skip list: the keys of every level. -/
namespace LinuxCpp.Skiptable

open C Linked

/-- The `while` of `display` from a node of level `i` on. -/
def displayLevel (list : SkipList) (i : Nat) : Nat → Option Nat → Except Fault (List Int)
  | 0, _ => .error .fuel
  | _ + 1, none => .ok []
  | fuel + 1, some node => do
      let value ← list.deref node
      let rest ← displayLevel list i fuel (← list.forward node i)
      return value.key :: rest

/-- The `for` of `display` over the remaining `n` levels from `i`. -/
def displayLevels (list : SkipList) : Nat → Nat → Except Fault (List (List Int))
  | 0, _ => .ok []
  | n + 1, i => do
      let row ← displayLevel list i (list.allocated + 1) (← list.forward list.header i)
      return row :: (← displayLevels list n (i + 1))

def display (list : SkipList) : Except Fault (List (List Int)) :=
  displayLevels list (list.level + 1) 0

section Rows

variable {list : SkipList} {order nodes : List Nat} {i : Nat} {p : Option Nat}

theorem displayLevel_ok {fuel : Nat} (chain : Chain (list.link i) p nodes)
    (live : ∀ node ∈ nodes, ∃ value, list.heap node = some value) (enough : nodes.length < fuel) :
    displayLevel list i fuel p = .ok (nodes.map list.keyOf) := by
  induction nodes generalizing p fuel with
  | nil =>
      obtain ⟨fuel, rfl⟩ := Nat.exists_eq_succ_of_ne_zero (Nat.ne_of_gt enough)
      obtain rfl : p = none := chain
      rfl
  | cons node rest ih =>
      obtain ⟨fuel, rfl⟩ := Nat.exists_eq_succ_of_ne_zero (Nat.ne_of_gt (Nat.zero_lt_of_lt enough))
      obtain ⟨rfl, next, linked, chain⟩ := chain
      obtain ⟨value, isValue⟩ := live node List.mem_cons_self
      have behind := ih chain (fun other member => live other (List.mem_cons_of_mem _ member))
        (Nat.lt_of_succ_lt_succ enough)
      rw [displayLevel, deref_ok isValue, ok_bind, forward_ok linked, ok_bind, behind, ok_bind,
        List.map_cons, keyOf_live isValue]
      rfl

/-- The keys of a level. -/
def rowOf (list : SkipList) (order : List Nat) (i : Nat) : List Int :=
  (order.filter (list.tall i)).map list.keyOf

theorem displayLevels_ok (ordered : Ordered list order) {n : Nat} (inside : i + n ≤ maxLevel + 1) :
    displayLevels list n i = .ok ((List.range' i n).map (rowOf list order)) := by
  induction n generalizing i with
  | zero => rfl
  | succ n ih =>
      obtain ⟨-, first, linked, chain⟩ := ordered.chains i (by omega)
      have live : ∀ node ∈ order.filter (list.tall i), ∃ value, list.heap node = some value := by
        intro node member
        obtain ⟨value, live, -⟩ := ordered.live node (List.mem_of_mem_filter member)
        exact ⟨value, live⟩
      have short := Nat.lt_of_le_of_lt (List.length_filter_le (list.tall i) order) ordered.size
      have row : displayLevel list i (list.allocated + 1) first = .ok (rowOf list order i) :=
        displayLevel_ok chain live (Nat.lt_succ_of_lt short)
      rw [displayLevels, forward_ok linked, ok_bind, row, ok_bind, ih (by omega), ok_bind,
        List.range'_succ, List.map_cons]
      rfl

theorem display_ok (ordered : Ordered list order) :
    display list = .ok ((List.range (list.level + 1)).map (rowOf list order)) := by
  rw [display, displayLevels_ok ordered (by have := ordered.level; omega), List.range_eq_range']

/-- Also above the level of the list. -/
theorem row_getD (ordered : Ordered list order) (i : Nat) :
    (((List.range (list.level + 1)).map (rowOf list order))[i]?).getD [] = rowOf list order i := by
  by_cases inside : i < list.level + 1
  · rw [List.getElem?_map, List.getElem?_range inside]
    rfl
  · have above : list.level < i := by omega
    rw [List.getElem?_eq_none (by simpa using Nat.le_of_not_lt inside), rowOf,
      filter_above ordered above fun _ member => member]
    rfl

end Rows

section Towers

variable {list : SkipList} {calls : List Call} {order : List Nat}

/-- A node has the height that its first call has drawn. -/
def Towers (list : SkipList) (calls : List Call) : Prop :=
  ∀ node key slots, node ≠ list.header → list.shape node = some (key, slots) →
    ∃ call, calls.find? (fun c => c.key = key) = some call ∧
      slots = randomLevel call.flips + 1

theorem insert_towers (towers : Towers list calls) (stores : Stores list calls order)
    (call : Call) : ∃ answer list' order',
      insert list call.key call.value call.flips = .ok (answer, list') ∧
      Towers list' (calls ++ [call]) ∧ Stores list' (calls ++ [call]) order' := by
  obtain ⟨answer, list', order', ran, known, same, stores'⟩ := insert_stores stores call
  refine ⟨answer, list', order', ran, ?_, stores'⟩
  have older : ∀ key earlier, calls.find? (fun c => c.key = key) = some earlier →
      (calls ++ [call]).find? (fun c => c.key = key) = some earlier := by
    intro key earlier found
    rw [List.find?_append, found]
    rfl
  cases answer with
  | false =>
      rw [same rfl]
      intro node key slots inner shape
      obtain ⟨earlier, found, height⟩ := towers node key slots inner shape
      exact ⟨earlier, older key earlier found, height⟩
  | true =>
      have new : ¬ ∃ earlier ∈ calls, earlier.key = call.key := fun earlier =>
        Bool.noConfusion (known.mpr earlier)
      obtain ⟨ordered, keys⟩ := stores
      obtain ⟨low, high, rfl, below, above⟩ := sorted_cut ordered.sorted call.key
      obtain ⟨list'', ran', inserted⟩ := insert_linked ordered below above
        (fun present => new ((keys call.key).mp present)) call.value call.flips
      cases ran.symm.trans ran'
      intro node key slots inner shape
      by_cases isNew : node = list.allocated
      · subst isNew
        rw [inserted.new] at shape
        obtain ⟨rfl, rfl⟩ := Prod.mk.inj (Option.some.inj shape)
        refine ⟨call, ?_, rfl⟩
        have none_ : calls.find? (fun c => c.key = call.key) = none := by
          rw [List.find?_eq_none]
          intro earlier member same
          exact new ⟨earlier, member, by simpa using same⟩
        rw [List.find?_append, none_]
        simp
      · rw [inserted.header] at inner
        rw [inserted.old node isNew] at shape
        obtain ⟨earlier, found, height⟩ := towers node key slots inner shape
        exact ⟨earlier, older key earlier found, height⟩

theorem insertAll_towers (towers : Towers list calls) (stores : Stores list calls order)
    (rest : List Call) : ∃ list' order', insertAll list rest = .ok list' ∧
      Towers list' (calls ++ rest) ∧ Stores list' (calls ++ rest) order' := by
  induction rest generalizing list calls order with
  | nil => exact ⟨list, order, rfl, by rwa [List.append_nil], by rwa [List.append_nil]⟩
  | cons call rest ih =>
      obtain ⟨answer, middle, order', ran, towers', stores'⟩ := insert_towers towers stores call
      obtain ⟨list', last, run, towers'', stores''⟩ := ih towers' stores'
      rw [List.append_assoc, List.singleton_append] at towers'' stores''
      refine ⟨list', last, ?_, towers'', stores''⟩
      rw [insertAll, ran, ok_bind]
      exact run

/-- The level of a key is what its first call has drawn. -/
theorem mem_row (towers : Towers list calls) (stores : Stores list calls order) (i : Nat)
    (key : Int) : key ∈ rowOf list order i ↔
      ∃ call, calls.find? (fun c => c.key = key) = some call ∧ i ≤ randomLevel call.flips := by
  obtain ⟨ordered, keys⟩ := stores
  have inner : ∀ node ∈ order, node ≠ list.header := by
    intro node member same
    have once := (ordered.chains 0 (Nat.zero_le _)).nodup
    refine (List.nodup_cons.mp once).1 (List.mem_filter.mpr ⟨same ▸ member, ?_⟩)
    exact tall_zero ordered (same ▸ member)
  have height : ∀ node ∈ order, ∃ call,
      calls.find? (fun c => c.key = list.keyOf node) = some call ∧
        list.tall i node = decide (i ≤ randomLevel call.flips) := by
    intro node member
    obtain ⟨value, live, -⟩ := ordered.live node member
    have shape : list.shape node = some (value.key, value.forward.length) := by
      simp [SkipList.shape, live]
    obtain ⟨call, found, slots⟩ := towers node _ _ (inner node member) shape
    refine ⟨call, by rwa [keyOf_live live], ?_⟩
    rw [tall_live live, slots]
    exact decide_eq_decide.mpr Nat.lt_succ_iff
  rw [rowOf, List.mem_map]
  constructor
  · rintro ⟨node, member, rfl⟩
    obtain ⟨inOrder, tall⟩ := List.mem_filter.mp member
    obtain ⟨call, found, level⟩ := height node inOrder
    exact ⟨call, found, by simpa [level] using tall⟩
  · rintro ⟨call, found, level⟩
    have isKey : call.key = key := by simpa using List.find?_some found
    obtain ⟨node, member, named⟩ :=
      (keys key).mpr ⟨call, List.mem_of_find?_eq_some found, isKey⟩
    obtain ⟨call', found', level'⟩ := height node member
    rw [named] at found'
    cases found.symm.trans found'
    exact ⟨node, List.mem_filter.mpr ⟨member, by simpa [level'] using level⟩, named⟩

end Towers

theorem create_towers {start : SkipList} (made : createSkipList = .ok start) :
    Towers start [] := by
  have run : createSkipList = .ok ⟨0, 0, _, 1⟩ := rfl
  cases made.symm.trans run
  intro node key slots inner shape
  have other : node ≠ 0 := inner
  simp [SkipList.shape, Function.update_of_ne other] at shape

/-- After any calls of `insert` each level is printed in increasing order, and a key stands on the
levels up to the one that `randomLevel` has drawn when the key came in first. -/
theorem display_prints (calls : List Call) :
    ∃ list rows, (createSkipList >>= fun list => insertAll list calls) = .ok list ∧
      display list = .ok rows ∧ rows.length = list.level + 1 ∧
      (∀ row ∈ rows, row.Pairwise (· < ·)) ∧
      ∀ i key, key ∈ rows[i]?.getD [] ↔
        ∃ call, calls.find? (fun c => c.key = key) = some call ∧ i ≤ randomLevel call.flips := by
  obtain ⟨start, made, empty⟩ := create_ok
  obtain ⟨list, order, ran, towers, stores⟩ := insertAll_towers (create_towers made) empty calls
  rw [List.nil_append] at towers stores
  refine ⟨list, _, ?_, display_ok stores.ordered, ?_, fun row member => ?_, fun i key => ?_⟩
  · rw [made, ok_bind, ran]
  · rw [List.length_map, List.length_range]
  · obtain ⟨i, -, rfl⟩ := List.mem_map.mp member
    exact List.pairwise_map.mpr (stores.ordered.increasing.filter _)
  · rw [row_getD stores.ordered]
    exact mem_row towers stores i key

end LinuxCpp.Skiptable
