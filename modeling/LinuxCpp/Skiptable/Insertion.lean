import LinuxCpp.Skiptable.Levels

set_option autoImplicit false

/- The new node goes into the list of each of its levels. -/
namespace LinuxCpp.Skiptable

open C Linked

/-- The key of a node and the number of its slots. -/
def SkipList.shape (list : SkipList) (node : Nat) : Option (Int × Nat) :=
  (list.heap node).map fun value => (value.key, value.forward.length)

/-- Only pointers in `forward` were written. -/
structure Relinked (list list' : SkipList) : Prop where
  level : list'.level = list.level
  header : list'.header = list.header
  allocated : list'.allocated = list.allocated
  shape : ∀ node, list'.shape node = list.shape node

section Writes

variable {list list' list'' : SkipList} {node i : Nat} {value : Node} {p : Option Nat}

theorem keyOf_shape : list.keyOf node = ((list.shape node).map Prod.fst).getD 0 := by
  cases live : list.heap node <;> simp [SkipList.keyOf, SkipList.shape, live]

theorem tall_shape : list.tall i node =
    ((list.shape node).map fun shape => decide (i < shape.2)).getD false := by
  cases live : list.heap node <;> simp [SkipList.tall, SkipList.shape, live]

namespace Relinked

protected theorem rfl : Relinked list list := ⟨rfl, rfl, rfl, fun _ => rfl⟩

theorem trans (first : Relinked list list') (second : Relinked list' list'') :
    Relinked list list'' :=
  ⟨second.level.trans first.level, second.header.trans first.header,
    second.allocated.trans first.allocated, fun node =>
    (second.shape node).trans (first.shape node)⟩

theorem keyOf (same : Relinked list list') : list'.keyOf node = list.keyOf node := by
  rw [keyOf_shape, keyOf_shape, same.shape]

theorem tall (same : Relinked list list') : list'.tall i = list.tall i := by
  funext node
  rw [tall_shape, tall_shape, same.shape]

end Relinked

/-- A write to one slot is seen in the links of its level only. -/
theorem setForward_ok (live : list.heap node = some value) (slot : i < value.forward.length) :
    ∃ list', list.setForward node i p = .ok list' ∧ Relinked list list' ∧
      list'.link i = Function.update (list.link i) node (some p) ∧
      ∀ j, j ≠ i → list'.link j = list.link j := by
  let written : Node := { value with forward := value.forward.set i (some p) }
  refine ⟨{ list with heap := Function.update list.heap node (some written) }, ?_,
    ⟨rfl, rfl, rfl, ?_⟩, ?_, ?_⟩
  · unfold SkipList.setForward
    rw [deref_ok live, ok_bind, if_pos slot]
    rfl
  · intro other
    by_cases isNode : other = node
    · subst isNode
      simp [SkipList.shape, live, written]
    · simp [SkipList.shape, isNode]
  · funext other
    by_cases isNode : other = node
    · subst isNode
      simp [SkipList.link, written, slot]
    · simp [SkipList.link, isNode]
  · intro j differs
    funext other
    by_cases isNode : other = node
    · subst isNode
      simp [SkipList.link, live, written, List.getElem?_set_ne (Ne.symm differs)]
    · simp [SkipList.link, isNode]

theorem link_slot {next : Option Nat} (linked : list.link i node = some next) :
    ∃ value, list.heap node = some value ∧ i < value.forward.length := by
  obtain ⟨value, live, slot⟩ := Option.bind_eq_some_iff.mp linked
  obtain ⟨inside, -⟩ := List.getElem?_eq_some_iff.mp (Option.join_eq_some_iff.mp slot)
  exact ⟨value, live, inside⟩

/-- What the loop of `insert` needs at a level and what it does to the links there. -/
structure Place (list : SkipList) (update : Update) (newNode i : Nat) (before : Nat)
    (next : Option Nat) : Prop where
  update : update i = some before
  linked : list.link i before = some next
  apart : before ≠ newNode
  slot : ∃ value, list.heap newNode = some value ∧ i < value.forward.length

variable {update : Update} {newNode before : Nat} {next : Option Nat}

/-- The two writes of one level. -/
theorem linkLevel_ok (place : Place list update newNode i before next) :
    ∃ middle list', list.forward before i = .ok next ∧
      list.setForward newNode i next = .ok middle ∧
      middle.setForward before i (some newNode) = .ok list' ∧ Relinked list list' ∧
      list'.link i = Function.update (Function.update (list.link i) newNode (some next)) before
        (some (some newNode)) ∧ ∀ j, j ≠ i → list'.link j = list.link j := by
  obtain ⟨value, live, slot⟩ := place.slot
  obtain ⟨middle, ran, same, linked, others⟩ := setForward_ok (p := next) live slot
  have linkedBefore : middle.link i before = some next := by
    rw [linked, Function.update_of_ne place.apart, place.linked]
  obtain ⟨value', live', slot'⟩ := link_slot linkedBefore
  obtain ⟨list', ran', same', linked', others'⟩ :=
    setForward_ok (p := some newNode) live' slot'
  refine ⟨middle, list', forward_ok place.linked, ran, ran', same.trans same', ?_, ?_⟩
  · rw [linked', linked]
  · intro j differs
    rw [others' j differs, others j differs]

theorem live_shape (same : list'.shape node = list.shape node)
    (live : list.heap node = some value) :
    ∃ value', list'.heap node = some value' ∧ value'.forward.length = value.forward.length := by
  rw [SkipList.shape, SkipList.shape, live] at same
  obtain ⟨value', live', shapes⟩ := Option.map_eq_some_iff.mp same
  exact ⟨value', live', congrArg Prod.snd shapes⟩

theorem Place.keep {j : Nat} (place : Place list update newNode j before next)
    (same : Relinked list list') (untouched : list'.link j = list.link j) :
    Place list' update newNode j before next := by
  refine ⟨place.update, untouched ▸ place.linked, place.apart, ?_⟩
  obtain ⟨value, live, slot⟩ := place.slot
  obtain ⟨value', live', length⟩ := live_shape (same.shape newNode) live
  exact ⟨value', live', by omega⟩

/-- The last loop of `insert` puts the node into the lists of its levels. -/
theorem linkLevels_ok {before : Nat → Nat} {next : Nat → Option Nat} {n : Nat}
    (places : ∀ j, i ≤ j → j < i + n → Place list update newNode j (before j) (next j)) :
    ∃ list', linkLevels newNode update n i list = .ok list' ∧ Relinked list list' ∧
      (∀ j, i ≤ j → j < i + n → list'.link j =
        Function.update (Function.update (list.link j) newNode (some (next j))) (before j)
          (some (some newNode))) ∧
      ∀ j, j < i ∨ i + n ≤ j → list'.link j = list.link j := by
  induction n generalizing i list with
  | zero =>
      refine ⟨list, rfl, .rfl, fun j _ _ => ?_, fun _ _ => rfl⟩
      omega
  | succ n ih =>
      have place := places i (Nat.le_refl i) (by omega)
      obtain ⟨middle, list', read, ran, ran', same, linked, others⟩ := linkLevel_ok place
      have rest : ∀ j, i + 1 ≤ j → j < i + 1 + n →
          Place list' update newNode j (before j) (next j) := by
        intro j low high
        exact (places j (by omega) (by omega)).keep same (others j (by omega))
      obtain ⟨last, run, same', lower, higher⟩ := ih rest
      refine ⟨last, ?_, same.trans same', fun j low high => ?_, fun j outside => ?_⟩
      · unfold linkLevels
        rw [getUpdate, place.update, ok_bind, read, ok_bind, ran, ok_bind, ran', ok_bind]
        exact run
      · rcases Nat.eq_or_lt_of_le low with rfl | later
        · rw [higher i (by omega), linked]
        · rw [lower j later (by omega), others j (by omega)]
      · rw [higher j (by omega), others j (by omega)]

end Writes

section Insertion

variable {list list' : SkipList} {order low high : List Nat} {key value : Int} {i level : Nat}
  {flips : Nat → Bool} {update : Update}

theorem randomLevelFrom_le (flips : Nat → Bool) (n level : Nat) :
    randomLevelFrom flips n level ≤ level + n := by
  induction n generalizing level with
  | zero => exact Nat.le_refl level
  | succ n ih =>
      unfold randomLevelFrom
      split
      · have := ih (level + 1)
        omega
      · omega

theorem randomLevel_le (flips : Nat → Bool) : randomLevel flips ≤ maxLevel := by
  have := randomLevelFrom_le flips maxLevel 0
  rwa [Nat.zero_add] at this

theorem raise_ok {n : Nat} (header : Nat) (inside : i + n ≤ maxLevel + 1) (update : Update) :
    ∃ update', raise header n i update = .ok update' ∧
      (∀ j, i ≤ j → j < i + n → update' j = some header) ∧
      ∀ j, j < i → update' j = update j := by
  induction n generalizing i update with
  | zero =>
      refine ⟨update, rfl, fun j _ _ => ?_, fun _ _ => rfl⟩
      omega
  | succ n ih =>
      obtain ⟨update', ran, raised, kept⟩ :=
        ih (by omega : i + 1 + n ≤ maxLevel + 1) (Function.update update i (some header))
      refine ⟨update', ?_, fun j low high => ?_, fun j small => ?_⟩
      · rw [raise, setUpdate, if_pos (by omega : i ≤ maxLevel), ok_bind, ran]
      · rcases Nat.eq_or_lt_of_le low with rfl | later
        · rw [kept i (Nat.lt_succ_self i), Function.update_self]
        · exact raised j later (by omega)
      · rw [kept j (by omega), Function.update_of_ne (by omega)]

theorem tall_zero (ordered : Ordered list order) {node : Nat} (member : node ∈ order) :
    list.tall 0 node = true := by
  obtain ⟨value, live, positive, -⟩ := ordered.live node member
  rw [tall_live live, decide_eq_true positive]

/-- No node reaches above the level of the list. -/
theorem filter_above (ordered : Ordered list order) (above : list.level < i) {part : List Nat}
    (inside : ∀ node ∈ part, node ∈ order) : part.filter (list.tall i) = [] := by
  apply List.filter_eq_nil_iff.mpr
  intro node member
  obtain ⟨value, live, -, short⟩ := ordered.live node (inside node member)
  rw [tall_live live, decide_eq_true_eq]
  omega

theorem before_linked (ordered : Ordered list (low ++ high)) (inside : i ≤ maxLevel) :
    list.link i (list.before low i) = some (high.filter (list.tall i)).head? := by
  obtain ⟨front, split⟩ := before_front list low i
  have chain := ordered.chains i inside
  rw [List.filter_append, ← List.cons_append, split, List.append_assoc, List.singleton_append]
    at chain
  exact chain.link_next

theorem next_ok (ordered : Ordered list (low ++ high)) :
    list.forward (list.before low 0) 0 = .ok high.head? := by
  have linked := before_linked ordered (Nat.zero_le maxLevel)
  have all : high.filter (list.tall 0) = high := by
    apply List.filter_eq_self.mpr
    intro node member
    exact tall_zero ordered (List.mem_append_right _ member)
  rw [all] at linked
  exact forward_ok linked

/-- The test behind the descent finds the key wherever it stands. -/
theorem pointsAt_ok (ordered : Ordered list (low ++ high))
    (below : ∀ node ∈ low, list.keyOf node < key) (above : ∀ node ∈ high, key ≤ list.keyOf node) :
    pointsAt list high.head? key = .ok (decide (∃ node ∈ low ++ high, list.keyOf node = key)) := by
  have outside : (∃ node ∈ low ++ high, list.keyOf node = key) ↔
      ∃ node ∈ high, list.keyOf node = key := by
    constructor
    · rintro ⟨node, member, found⟩
      rcases List.mem_append.mp member with early | late
      · have := below node early
        omega
      · exact ⟨node, late, found⟩
    · rintro ⟨node, member, found⟩
      exact ⟨node, List.mem_append_right _ member, found⟩
  simp only [outside]
  cases high with
  | nil => simp [pointsAt]
  | cons node rest =>
      obtain ⟨content, live, -⟩ :=
        ordered.live node (List.mem_append_right _ List.mem_cons_self)
      have later := (List.pairwise_cons.mp (List.pairwise_append.mp ordered.increasing).2.1).1
      have first : (∃ other ∈ node :: rest, list.keyOf other = key) ↔ content.key = key := by
        rw [← keyOf_live live]
        constructor
        · rintro ⟨other, member, found⟩
          rcases List.mem_cons.mp member with rfl | inRest
          · exact found
          · have := later other inRest
            have := above node List.mem_cons_self
            omega
        · exact fun found => ⟨node, List.mem_cons_self, found⟩
      simp only [first, pointsAt, List.head?_cons]
      rw [deref_ok live]
      rfl

/-- The list with a node that is in no list yet. -/
def grown (list : SkipList) (level : Nat) (key value : Int) : SkipList :=
  (createNode { list with level := max list.level level } level key value).1

theorem grown_link (fresh : list.heap list.allocated = none) :
    (grown list level key value).link i = list.link i := by
  funext node
  by_cases isNew : node = list.allocated
  · subst isNew
    simp [SkipList.link, grown, createNode, fresh, List.getElem?_replicate]
    split <;> rfl
  · simp [SkipList.link, grown, createNode, isNew]

theorem grown_shape {node : Nat} (isOld : node ≠ list.allocated) :
    (grown list level key value).shape node = list.shape node := by
  simp [SkipList.shape, grown, createNode, isOld]

theorem grown_new : (grown list level key value).shape list.allocated =
    some (key, level + 1) := by
  simp [SkipList.shape, grown, createNode]

/-- Each level of the new node has its place in `update`. -/
theorem growLevel_ok (ordered : Ordered list (low ++ high)) (inside : level ≤ maxLevel)
    (lower : ∀ j, j ≤ list.level → update j = some (list.before low j)) :
    ∃ update', growLevel list level update =
        .ok ({ list with level := max list.level level }, update') ∧
      ∀ j, j ≤ level → update' j = some (list.before low j) := by
  by_cases higher : list.level < level
  · obtain ⟨update', ran, raised, kept⟩ :=
      raise_ok list.header
        (by omega : list.level + 1 + (level - list.level) ≤ maxLevel + 1) update
    rw [growLevel, if_pos higher, ran, Nat.max_eq_right (Nat.le_of_lt higher)]
    refine ⟨update', rfl, fun j small => ?_⟩
    by_cases early : j ≤ list.level
    · rw [kept j (by omega), lower j early]
    · have empty : low.filter (list.tall j) = [] :=
        filter_above ordered (by omega) fun node => List.mem_append_left _
      rw [raised j (by omega) (by omega), SkipList.before, empty]
      rfl
  · rw [growLevel, if_neg higher, Nat.max_eq_left (Nat.le_of_not_lt higher)]
    exact ⟨update, rfl, fun j small => lower j (by omega)⟩

/-- What an insertion between `low` and `high` does to the list. -/
structure Inserted (list list' : SkipList) (low high : List Nat) (key : Int) (top : Nat) :
    Prop where
  level : list'.level = max list.level top
  header : list'.header = list.header
  allocated : list'.allocated = list.allocated + 1
  old : ∀ node, node ≠ list.allocated → list'.shape node = list.shape node
  new : list'.shape list.allocated = some (key, top + 1)
  linked : ∀ j, j ≤ top → list'.link j =
    Function.update (Function.update (list.link j) list.allocated
      (some (high.filter (list.tall j)).head?)) (list.before low j) (some (some list.allocated))
  kept : ∀ j, top < j → list'.link j = list.link j

theorem insert_linked (ordered : Ordered list (low ++ high))
    (below : ∀ node ∈ low, list.keyOf node < key) (above : ∀ node ∈ high, key ≤ list.keyOf node)
    (absent : ¬ ∃ node ∈ low ++ high, list.keyOf node = key) (value : Int)
    (flips : Nat → Bool) : ∃ list', insert list key value flips = .ok (true, list') ∧
      Inserted list list' low high key (randomLevel flips) := by
  obtain ⟨update, ran, lower, -⟩ := descend_ok ordered below above ordered.level
    List.mem_cons_self fun _ => none
  obtain ⟨update', grew, places⟩ := growLevel_ok ordered (randomLevel_le flips) lower
  have fresh := ordered.fresh list.allocated (Nat.le_refl _)
  have place : ∀ j, 0 ≤ j → j < 0 + (randomLevel flips + 1) →
      Place (grown list (randomLevel flips) key value) update' list.allocated j
        (list.before low j) (high.filter (list.tall j)).head? := by
    intro j _ small
    have top := randomLevel_le flips
    have linked := before_linked ordered (by omega : j ≤ maxLevel)
    refine ⟨places j (by omega), ?_, ?_, ?_⟩
    · rw [grown_link fresh, linked]
    · intro same
      obtain ⟨content, live, -⟩ := link_slot linked
      rw [same, fresh] at live
      cases live
    · have shape : (grown list (randomLevel flips) key value).shape list.allocated =
          some (key, randomLevel flips + 1) := grown_new
      obtain ⟨content, live, shape⟩ := Option.map_eq_some_iff.mp shape
      have length : content.forward.length = randomLevel flips + 1 := congrArg Prod.snd shape
      exact ⟨content, live, by omega⟩
  obtain ⟨list', linked, same, lowest, highest⟩ := linkLevels_ok place
  refine ⟨list', ?_, same.level, same.header, same.allocated, fun node isOld => ?_, ?_,
    fun j small => ?_, fun j large => ?_⟩
  · unfold insert
    rw [ran, ok_bind]
    simp only
    rw [next_ok ordered, ok_bind, pointsAt_ok ordered below above, ok_bind,
      decide_eq_false absent, if_neg Bool.false_ne_true, grew, ok_bind]
    change (do return (true, ← linkLevels list.allocated update' (randomLevel flips + 1) 0
      (grown list (randomLevel flips) key value))) = _
    rw [linked]
    rfl
  · rw [same.shape, grown_shape isOld]
  · rw [same.shape, grown_new]
  · rw [lowest j (Nat.zero_le j) (by omega), grown_link fresh]
  · rw [highest j (by omega), grown_link fresh]

/-- A key that is there changes nothing. -/
theorem insert_known (ordered : Ordered list (low ++ high))
    (below : ∀ node ∈ low, list.keyOf node < key) (above : ∀ node ∈ high, key ≤ list.keyOf node)
    (present : ∃ node ∈ low ++ high, list.keyOf node = key) :
    insert list key value flips = .ok (false, list) := by
  obtain ⟨update, ran, -⟩ := descend_ok ordered below above ordered.level
    List.mem_cons_self fun _ => none
  unfold insert
  rw [ran, ok_bind]
  simp only
  rw [next_ok ordered, ok_bind, pointsAt_ok ordered below above, ok_bind,
    decide_eq_true present, if_pos rfl]
  rfl

namespace Inserted

theorem keyOf_old {node : Nat} (inserted : Inserted list list' low high key level)
    (isOld : node ≠ list.allocated) : list'.keyOf node = list.keyOf node := by
  rw [keyOf_shape, keyOf_shape, inserted.old node isOld]

theorem keyOf_new (inserted : Inserted list list' low high key level) :
    list'.keyOf list.allocated = key := by
  rw [keyOf_shape, inserted.new]
  rfl

theorem filter_old (inserted : Inserted list list' low high key level) {part : List Nat}
    (isOld : ∀ node ∈ part, node ≠ list.allocated) :
    part.filter (list'.tall i) = part.filter (list.tall i) := by
  apply List.filter_congr
  intro node member
  rw [tall_shape, tall_shape, inserted.old node (isOld node member)]

theorem tall_new (inserted : Inserted list list' low high key level) :
    list'.tall i list.allocated = decide (i < level + 1) := by
  rw [tall_shape, inserted.new]
  rfl

end Inserted

theorem not_allocated (ordered : Ordered list order) {node : Nat} (member : node ∈ order) :
    node ≠ list.allocated := by
  intro isNew
  obtain ⟨content, live, -⟩ := ordered.live node member
  rw [isNew, ordered.fresh list.allocated (Nat.le_refl _)] at live
  cases live

theorem header_old (ordered : Ordered list order) : list.header ≠ list.allocated := by
  intro isNew
  obtain ⟨content, live, -⟩ := ordered.header
  rw [isNew, ordered.fresh list.allocated (Nat.le_refl _)] at live
  cases live

/-- Each level has the new node in its list, or the list it had. -/
theorem inserted_chain (ordered : Ordered list (low ++ high))
    (inserted : Inserted list list' low high key level) (inside : i ≤ maxLevel) :
    Chain (list'.link i) (some list'.header)
      (list'.header :: (low ++ list.allocated :: high).filter (list'.tall i)) := by
  have chain := ordered.chains i inside
  have lowOld : low.filter (list'.tall i) = low.filter (list.tall i) :=
    inserted.filter_old fun node member =>
      not_allocated ordered (List.mem_append_left _ member)
  have highOld : high.filter (list'.tall i) = high.filter (list.tall i) :=
    inserted.filter_old fun node member =>
      not_allocated ordered (List.mem_append_right _ member)
  have outside : list.allocated ∉ list.header :: (low ++ high).filter (list.tall i) := by
    intro member
    rcases List.mem_cons.mp member with isHeader | member
    · exact header_old ordered isHeader.symm
    · exact not_allocated ordered (List.mem_filter.mp member).1 rfl
  rw [List.filter_append, List.filter_cons, inserted.tall_new, lowOld, highOld, inserted.header]
  rw [List.filter_append] at chain outside
  by_cases small : i < level + 1
  · obtain ⟨front, split⟩ := before_front list low i
    rw [decide_eq_true small, if_pos rfl, inserted.linked i (by omega), ← List.cons_append,
      split, List.append_assoc, List.singleton_append]
    rw [← List.cons_append, split, List.append_assoc, List.singleton_append] at chain outside
    exact chain.insertAfter (Chain.nodup chain) outside (before_linked ordered inside)
  · rw [decide_eq_false small, if_neg Bool.false_ne_true, inserted.kept i (by omega)]
    exact chain

/-- A new key has its node between the smaller and the larger ones. -/
theorem insert_new (ordered : Ordered list (low ++ high))
    (below : ∀ node ∈ low, list.keyOf node < key) (above : ∀ node ∈ high, key ≤ list.keyOf node)
    (absent : ¬ ∃ node ∈ low ++ high, list.keyOf node = key)
    (inserted : Inserted list list' low high key level) (top : level ≤ maxLevel) :
    Ordered list' (low ++ list.allocated :: high) := by
  have old : ∀ node ∈ low ++ high, node ≠ list.allocated := fun node => not_allocated ordered
  have oldLive : ∀ node ∈ low ++ high, ∃ value, list'.heap node = some value ∧
      0 < value.forward.length ∧ value.forward.length ≤ max list.level level + 1 := by
    intro node member
    obtain ⟨value, live, positive, short⟩ := ordered.live node member
    obtain ⟨value', live', length⟩ := live_shape (inserted.old node (old node member)) live
    exact ⟨value', live', by omega, by omega⟩
  refine ⟨?_, ?_, ?_, ?_, fun i => inserted_chain ordered inserted, ?_, ?_⟩
  · rw [inserted.level]
    exact Nat.max_le.mpr ⟨ordered.level, top⟩
  · obtain ⟨value, live, length⟩ := ordered.header
    obtain ⟨value', live', length'⟩ :=
      live_shape (inserted.old list.header (header_old ordered)) live
    exact ⟨value', inserted.header ▸ live', length'.trans length⟩
  · intro node member
    rw [inserted.level]
    rcases List.mem_append.mp member with early | later
    · exact oldLive node (List.mem_append_left _ early)
    · rcases List.mem_cons.mp later with rfl | late
      · obtain ⟨value, live, shapes⟩ := Option.map_eq_some_iff.mp inserted.new
        have length : value.forward.length = level + 1 := congrArg Prod.snd shapes
        exact ⟨value, live, by omega, by omega⟩
      · exact oldLive node (List.mem_append_right _ late)
  · have keyOld : ∀ node ∈ low ++ high, list'.keyOf node = list.keyOf node := fun node member =>
      inserted.keyOf_old (old node member)
    have kept : (low ++ high).Pairwise fun a b => list'.keyOf a < list'.keyOf b := by
      refine ordered.increasing.imp_of_mem fun first second smaller => ?_
      rwa [keyOld _ first, keyOld _ second]
    refine pairwise_insert kept (fun node member => ?_) (fun node member => ?_)
    · rw [inserted.keyOf_new, keyOld node (List.mem_append_left _ member)]
      exact below node member
    · have atLeast := above node member
      have differs : list.keyOf node ≠ key := fun same =>
        absent ⟨node, List.mem_append_right _ member, same⟩
      rw [inserted.keyOf_new, keyOld node (List.mem_append_right _ member)]
      omega
  · intro node large
    rw [inserted.allocated] at large
    have shape := inserted.old node (by omega)
    rw [SkipList.shape, SkipList.shape, ordered.fresh node (by omega)] at shape
    exact Option.map_eq_none_iff.mp shape
  · rw [inserted.allocated]
    have size := ordered.size
    simp only [List.length_append, List.length_cons] at size ⊢
    exact Nat.succ_lt_succ size

end Insertion

end LinuxCpp.Skiptable
