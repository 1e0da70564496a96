import LinuxCpp.AddressBook.Placing
import LinuxCpp.Trace.Along

set_option autoImplicit false

/- What the operations of the menu keep of the book. -/
namespace LinuxCpp.AddressBook

open C Linked Trace

section Search

variable {cts : Contacts} {index : Nat} {nodes : List Nat} {lists : Nat → List Nat}

theorem personSearchInGroup_ok {fuel : Nat} (name : CStr)
    (chain : Chain cts.next nodes.head? nodes) (enough : nodes.length < fuel) :
    personSearchInGroup cts name fuel nodes.head? =
      .ok (nodes.find? fun node => cts.nameOf node = name) := by
  induction nodes generalizing fuel with
  | nil =>
      obtain ⟨fuel, rfl⟩ := Nat.exists_eq_succ_of_ne_zero (Nat.ne_of_gt enough)
      rfl
  | cons node rest ih =>
      obtain ⟨fuel, rfl⟩ := Nat.exists_eq_succ_of_ne_zero (Nat.ne_of_gt (Nat.zero_lt_of_lt enough))
      obtain ⟨-, next, linked, tail⟩ := chain
      obtain ⟨item, live, rfl⟩ := live_next linked
      have start := Chain.head tail
      rw [List.length_cons] at enough
      simp only [List.head?_cons, personSearchInGroup]
      rw [deref_live live, ok_bind, List.find?_cons, nameOf_live live]
      by_cases same : item.name = name
      · rw [if_pos ((strcmp_eq_zero _ _).mpr same), decide_eq_true same]
        rfl
      · rw [if_neg (mt (strcmp_eq_zero _ _).mp same), decide_eq_false same, ok_bind, start]
        exact ih (start ▸ tail) (Nat.lt_of_succ_lt_succ enough)

theorem Book.search (book : Book cts lists) (bound : index < alphabetCount) (name : CStr) :
    personSearchInGroup cts name (cts.allocated + 1) (cts.groups index) =
      .ok ((lists index).find? fun node => cts.nameOf node = name) := by
  have group := book.group index bound
  rw [group.head]
  exact personSearchInGroup_ok name group.doubly.forward
    (Nat.lt_succ_of_le (book.length_le bound))

end Search

section Changes

variable {cts cts' : Contacts} {index p : Nat} {low high : List Nat} {lists : Nat → List Nat}
  {person : Person}

/-- The neighbours of a place in one group are in no other group. -/
theorem Book.neighbours (book : Book cts lists) (bound : index < alphabetCount) {other node : Nat}
    (otherBound : other < alphabetCount) (differs : other ≠ index)
    (lowIn : ∀ a ∈ low, a ∈ lists index) (highIn : ∀ a ∈ high, a ∈ lists index)
    (member : node ∈ lists other) : low.getLast? ≠ some node ∧ high.head? ≠ some node := by
  refine ⟨fun isLast => ?_, fun isFirst => ?_⟩
  · exact differs (book.only otherBound bound member (lowIn _ (List.mem_of_getLast? isLast)))
  · exact differs (book.only otherBound bound member (highIn _ (List.mem_of_mem_head? isFirst)))

/-- One group changes, and nothing that the others see. -/
theorem Book.update (book : Book cts lists) {nodes : List Nat} (group : Group cts' index nodes)
    (groups : ∀ other ≠ index, cts'.groups other = cts.groups other)
    (pointers : ∀ other ≠ index, other < alphabetCount → ∀ node ∈ lists other,
      cts'.next node = cts.next node ∧ cts'.previous node = cts.previous node)
    (entry : cts'.entry = cts.entry) (allocated : cts'.allocated = cts.allocated) :
    Book cts' (Function.update lists index nodes) := by
  refine ⟨fun other otherBound => ?_, fun q large => ?_⟩
  · by_cases same : other = index
    · subst same
      rw [Function.update_self]
      exact group
    · rw [Function.update_of_ne same]
      refine (book.group other otherBound).congr (groups other same) fun node member => ?_
      obtain ⟨sameNext, samePrevious⟩ := pointers other same otherBound node member
      exact ⟨sameNext, samePrevious, congrFun entry node⟩
  · rw [allocated] at large
    rw [← entry_none, entry, entry_none]
    exact book.fresh q large

theorem Placed.group (placed : Placed cts cts' index p low high)
    (group : Group cts index (low ++ high)) (notIn : p ∉ low ++ high)
    (live : cts.heap p = some person) (letter : getNameIndex (some person.name) = index)
    (below : ∀ node ∈ low, cts.nameOf node < person.name)
    (above : ∀ node ∈ high, person.name ≤ cts.nameOf node) :
    Group cts' index (low ++ p :: high) := by
  have names : ∀ node, cts'.nameOf node = cts.nameOf node := fun node =>
    nameOf_entry (congrFun placed.entry node)
  refine ⟨?_, ?_, ?_, fun node member => ?_⟩
  · rw [placed.groups, Function.update_self]
  · rw [placed.next, placed.previous]
    exact group.doubly.insert notIn
  · have kept : (low ++ high).Pairwise fun a b => cts'.nameOf a ≤ cts'.nameOf b := by
      simp only [names]
      exact group.sorted
    refine pairwise_insert kept (fun node member => ?_) (fun node member => ?_)
    · rw [names, names, nameOf_live live]
      exact le_of_lt (below node member)
    · rw [names, names, nameOf_live live]
      exact above node member
  · rw [names]
    by_cases isNew : node = p
    · rw [isNew, nameOf_live live, letter]
    · exact group.letter node (by simpa [isNew] using member)

theorem Placed.book (placed : Placed cts cts' index p low high) (book : Book cts lists)
    (bound : index < alphabetCount) (split : lists index = low ++ high)
    (outside : ∀ other, other < alphabetCount → p ∉ lists other)
    (live : cts.heap p = some person) (letter : getNameIndex (some person.name) = index)
    (below : ∀ node ∈ low, cts.nameOf node < person.name)
    (above : ∀ node ∈ high, person.name ≤ cts.nameOf node) :
    Book cts' (Function.update lists index (low ++ p :: high)) := by
  have group := placed.group (split ▸ book.group index bound) (split ▸ outside index bound) live
    letter below above
  refine book.update group (fun other differs => ?_) ?_ placed.entry placed.allocated
  · rw [placed.groups, Function.update_of_ne differs]
  · intro other differs otherBound node member
    have isOld : node ≠ p := fun isNew => outside other otherBound (isNew ▸ member)
    obtain ⟨notLast, notFirst⟩ := book.neighbours bound otherBound differs
      (fun a inLow => split ▸ List.mem_append_left high inLow)
      (fun a inHigh => split ▸ List.mem_append_right low inHigh) member
    rw [placed.next, placed.previous, writeIf_other notLast, writeIf_other notFirst,
      Function.update_of_ne isOld, Function.update_of_ne isOld]
    exact ⟨rfl, rfl⟩

theorem Removed.group (removed : Removed cts cts' index p low high)
    (group : Group cts index (low ++ p :: high)) : Group cts' index (low ++ high) := by
  have names : ∀ node, cts'.nameOf node = cts.nameOf node := fun node =>
    nameOf_entry (congrFun removed.entry node)
  have notIn : p ∉ low ++ high :=
    (List.nodup_cons.mp (List.nodup_middle.mp group.doubly.nodup)).1
  have isOther : ∀ node ∈ low ++ high, node ≠ p := fun node member isP => notIn (isP ▸ member)
  have sublist : (low ++ high).Sublist (low ++ p :: high) :=
    (List.sublist_cons_self p high).append_left low
  refine ⟨?_, ?_, ?_, fun node member => ?_⟩
  · rw [removed.groups, Function.update_self]
  · refine group.doubly.remove.congr (fun node member => ?_) fun node member => ?_
    · rw [removed.next, Function.update_of_ne (isOther node member)]
    · rw [removed.previous, Function.update_of_ne (isOther node member)]
  · simp only [names]
    exact group.sorted.sublist sublist
  · rw [names]
    exact group.letter node (sublist.subset member)

theorem Removed.book (removed : Removed cts cts' index p low high) (book : Book cts lists)
    (bound : index < alphabetCount) (split : lists index = low ++ p :: high) :
    Book cts' (Function.update lists index (low ++ high)) := by
  have isMember : p ∈ lists index := split ▸ List.mem_append_right low List.mem_cons_self
  have group := removed.group (split ▸ book.group index bound)
  refine book.update group (fun other differs => ?_) ?_ removed.entry removed.allocated
  · rw [removed.groups, Function.update_of_ne differs]
  · intro other differs otherBound node member
    have isOther : node ≠ p := fun isP =>
      differs (book.only otherBound bound member (isP ▸ isMember))
    obtain ⟨notLast, notFirst⟩ := book.neighbours bound otherBound differs
      (fun a inLow => split ▸ List.mem_append_left (p :: high) inLow)
      (fun a inHigh => split ▸ List.mem_append_right low (List.mem_cons_of_mem p inHigh))
      member
    rw [removed.next, removed.previous, Function.update_of_ne isOther,
      Function.update_of_ne isOther, writeIf_other notLast, writeIf_other notFirst]
    exact ⟨rfl, rfl⟩

end Changes

end LinuxCpp.AddressBook
