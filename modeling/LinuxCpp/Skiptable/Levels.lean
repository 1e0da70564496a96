import LinuxCpp.Linked.Segment
import LinuxCpp.Skiptable.SkipList

set_option autoImplicit false

/- The lists of the levels, and the descent through them. -/
namespace LinuxCpp.Skiptable

open C Linked

namespace SkipList

/-- The pointer in `node->forward[i]`, if the slot exists and was written. -/
def link (list : SkipList) (i node : Nat) : Option (Option Nat) :=
  (list.heap node).bind fun value => (value.forward[i]?).join

/-- The node has a slot for the level. -/
def tall (list : SkipList) (i node : Nat) : Bool :=
  ((list.heap node).map fun value => decide (i < value.forward.length)).getD false

def keyOf (list : SkipList) (node : Nat) : Int := ((list.heap node).map Node.key).getD 0

end SkipList

/-- The nodes in the order of their keys. Each level has the list of those that are tall
enough. -/
structure Ordered (list : SkipList) (order : List Nat) : Prop where
  level : list.level ≤ maxLevel
  header : ∃ value, list.heap list.header = some value ∧ value.forward.length = maxLevel + 1
  live : ∀ node ∈ order, ∃ value, list.heap node = some value ∧ 0 < value.forward.length ∧
    value.forward.length ≤ list.level + 1
  increasing : order.Pairwise fun a b => list.keyOf a < list.keyOf b
  chains : ∀ i, i ≤ maxLevel →
    Chain (list.link i) (some list.header) (list.header :: order.filter (list.tall i))
  fresh : ∀ node, list.allocated ≤ node → list.heap node = none
  size : order.length < list.allocated

theorem Ordered.sorted {list : SkipList} {order : List Nat} (ordered : Ordered list order) :
    order.Pairwise fun a b => list.keyOf a ≤ list.keyOf b :=
  ordered.increasing.imp Int.le_of_lt

section Slots

variable {list : SkipList} {node i : Nat} {value : Node} {next : Option Nat}

theorem deref_ok (live : list.heap node = some value) : list.deref node = .ok value := by
  unfold SkipList.deref
  rw [live]

theorem forward_ok (linked : list.link i node = some next) : list.forward node i = .ok next := by
  obtain ⟨value, live, slot⟩ := Option.bind_eq_some_iff.mp linked
  have written := Option.join_eq_some_iff.mp slot
  unfold SkipList.forward
  rw [deref_ok live, ok_bind, written]
  rfl

theorem keyOf_live (live : list.heap node = some value) : list.keyOf node = value.key := by
  simp [SkipList.keyOf, live]

theorem tall_live (live : list.heap node = some value) :
    list.tall i node = decide (i < value.forward.length) := by
  simp [SkipList.tall, live]

theorem tall_below {j : Nat} (below : j ≤ i) (tall : list.tall i node = true) :
    list.tall j node = true := by
  cases live : list.heap node with
  | none => simp [SkipList.tall, live] at tall
  | some value =>
      rw [tall_live live, decide_eq_true_eq] at tall ⊢
      omega

end Slots

section Descent

variable {list : SkipList} {order low high : List Nat} {key : Int} {i current : Nat}

/-- The loop of one level stops in front of the first node whose key is not smaller. -/
theorem advance_ok {rest high : List Nat} {fuel : Nat}
    (chain : Chain (list.link i) (some current) (current :: (rest ++ high)))
    (live : ∀ node ∈ rest ++ high, ∃ value, list.heap node = some value)
    (below : ∀ node ∈ rest, list.keyOf node < key)
    (above : ∀ node, high.head? = some node → key ≤ list.keyOf node)
    (enough : rest.length < fuel) :
    ∃ last, (current :: rest).getLast? = some last ∧
      advance list key i fuel current = .ok last := by
  induction rest generalizing current fuel with
  | nil =>
      obtain ⟨fuel, rfl⟩ := Nat.exists_eq_succ_of_ne_zero (Nat.ne_of_gt enough)
      refine ⟨current, rfl, ?_⟩
      obtain ⟨-, next, linked, tail⟩ := chain
      rw [List.nil_append] at tail
      rw [Chain.head tail] at linked
      simp only [advance]
      rw [forward_ok linked, ok_bind]
      cases high with
      | nil => rfl
      | cons node high =>
          obtain ⟨value, isValue⟩ := live node (by simp)
          have notBelow : ¬ value.key < key := by
            have := above node rfl
            rw [keyOf_live isValue] at this
            omega
          simp only [List.head?_cons]
          rw [deref_ok isValue, ok_bind, if_neg notBelow]
          rfl
  | cons node rest ih =>
      obtain ⟨fuel, rfl⟩ := Nat.exists_eq_succ_of_ne_zero (Nat.ne_of_gt (Nat.zero_lt_of_lt enough))
      obtain ⟨-, next, linked, tail⟩ := chain
      obtain ⟨rfl, -⟩ := id tail
      obtain ⟨value, isValue⟩ := live node (by simp)
      have smaller : value.key < key := by
        rw [← keyOf_live isValue]
        exact below node List.mem_cons_self
      rw [List.length_cons] at enough
      obtain ⟨last, isLast, ran⟩ := ih tail (fun n member => live n (List.mem_cons_of_mem _ member))
        (fun n member => below n (List.mem_cons_of_mem _ member)) (Nat.lt_of_succ_lt_succ enough)
      refine ⟨last, by rwa [List.getLast?_cons_cons], ?_⟩
      simp only [advance]
      rw [forward_ok linked, ok_bind]
      simp only
      rw [deref_ok isValue, ok_bind, if_pos smaller]
      exact ran

/-- The last node of a level with a smaller key. -/
def SkipList.before (list : SkipList) (low : List Nat) (i : Nat) : Nat :=
  (low.filter (list.tall i)).getLast?.getD list.header

theorem before_last (list : SkipList) (low : List Nat) (i : Nat) :
    (list.header :: low.filter (list.tall i)).getLast? = some (list.before low i) :=
  List.getLast?_cons

theorem before_front (list : SkipList) (low : List Nat) (i : Nat) : ∃ front,
    list.header :: low.filter (list.tall i) = front ++ [list.before low i] :=
  List.getLast?_eq_some_iff.mp (before_last list low i)

theorem before_lower :
    list.before low (i + 1) ∈ list.header :: low.filter (list.tall i) := by
  have member := List.mem_of_getLast? (before_last list low (i + 1))
  rcases List.mem_cons.mp member with isHeader | inside
  · exact isHeader ▸ List.mem_cons_self
  · obtain ⟨inLow, tall⟩ := List.mem_filter.mp inside
    have tall' := tall_below (Nat.le_succ i) tall
    exact List.mem_cons_of_mem _ (List.mem_filter.mpr ⟨inLow, tall'⟩)

theorem descend_level (ordered : Ordered list (low ++ high))
    (below : ∀ node ∈ low, list.keyOf node < key) (above : ∀ node ∈ high, key ≤ list.keyOf node)
    (inside : i ≤ maxLevel) (start : current ∈ list.header :: low.filter (list.tall i)) :
    advance list key i (list.allocated + 1) current = .ok (list.before low i) := by
  obtain ⟨front, rest, split⟩ := List.append_of_mem start
  have chain := ordered.chains i inside
  rw [List.filter_append, ← List.cons_append, split, List.append_assoc, List.cons_append] at chain
  have known : ∀ node ∈ rest, node ∈ low := by
    intro node member
    have member' : node ∈ low.filter (list.tall i) := by
      cases front with
      | nil => exact (List.cons.inj split).2 ▸ member
      | cons first front =>
          rw [(List.cons.inj split).2]
          exact List.mem_append_right _ (List.mem_cons_of_mem _ member)
    exact (List.mem_filter.mp member').1
  have length := congrArg List.length split
  have short := List.length_filter_le (list.tall i) low
  have size := ordered.size
  simp only [List.length_append, List.length_cons] at length size
  have live : ∀ node ∈ rest ++ high.filter (list.tall i),
      ∃ value, list.heap node = some value := by
    intro node member
    have member' : node ∈ low ++ high := by
      rcases List.mem_append.mp member with early | late
      · exact List.mem_append_left _ (known node early)
      · exact List.mem_append_right _ (List.mem_filter.mp late).1
    obtain ⟨value, live, -⟩ := ordered.live node member'
    exact ⟨value, live⟩
  have stop : ∀ node, (high.filter (list.tall i)).head? = some node →
      key ≤ list.keyOf node := by
    intro node first
    exact above node (List.mem_filter.mp (List.mem_of_mem_head? first)).1
  obtain ⟨last, isLast, ran⟩ := advance_ok chain.suffix live
    (fun node member => below node (known node member)) stop
    (by omega : rest.length < list.allocated + 1)
  have same := before_last list low i
  rw [split, List.getLast?_append, isLast, Option.some_or] at same
  rw [ran, Option.some.inj same]

/-- The descent of `insert` ends in front of the key and leaves in `update` the last
smaller node of each level. -/
theorem descend_ok (ordered : Ordered list (low ++ high))
    (below : ∀ node ∈ low, list.keyOf node < key) (above : ∀ node ∈ high, key ≤ list.keyOf node)
    (inside : i ≤ maxLevel) (start : current ∈ list.header :: low.filter (list.tall i))
    (update : Update) : ∃ update',
      descend list key i current update = .ok (list.before low 0, update') ∧
      (∀ j, j ≤ i → update' j = some (list.before low j)) ∧
      ∀ j, i < j → update' j = update j := by
  induction i generalizing current update with
  | zero =>
      rw [descend, descend_level ordered below above inside start, ok_bind, setUpdate,
        if_pos inside, ok_bind]
      refine ⟨_, rfl, fun j small => ?_, fun j large => ?_⟩
      · rw [Nat.le_zero.mp small, Function.update_self]
      · exact Function.update_of_ne (Nat.ne_of_gt large) ..
  | succ i ih =>
      rw [descend, descend_level ordered below above inside start, ok_bind, setUpdate,
        if_pos inside, ok_bind]
      obtain ⟨update', ran, lower, higher⟩ :=
        ih (Nat.le_of_succ_le inside) before_lower (Function.update update (i + 1) _)
      refine ⟨update', ran, fun j small => ?_, fun j large => ?_⟩
      · rcases Nat.lt_or_eq_of_le small with under | rfl
        · exact lower j (Nat.le_of_lt_succ under)
        · rw [higher (i + 1) (Nat.lt_succ_self i), Function.update_self]
      · rw [higher j (Nat.lt_of_succ_lt large), Function.update_of_ne (Nat.ne_of_gt large)]

theorem descendSearch_ok (ordered : Ordered list (low ++ high))
    (below : ∀ node ∈ low, list.keyOf node < key) (above : ∀ node ∈ high, key ≤ list.keyOf node)
    (inside : i ≤ maxLevel) (start : current ∈ list.header :: low.filter (list.tall i)) :
    descendSearch list key i current = .ok (list.before low 0) := by
  induction i generalizing current with
  | zero =>
      rw [descendSearch, descend_level ordered below above inside start]
      rfl
  | succ i ih =>
      rw [descendSearch, descend_level ordered below above inside start]
      exact ih (Nat.le_of_succ_le inside) before_lower

end Descent

end LinuxCpp.Skiptable
