import LinuxCpp.AddressBook.Contacts
import LinuxCpp.Linked.Doubly
import LinuxCpp.Linked.Segment
import Mathlib.Data.List.Perm.Subperm

set_option autoImplicit false

/- The list of each group, and what the two pointer writes of the code do to it. -/
namespace LinuxCpp.AddressBook

open C Linked

namespace Contacts

def next (cts : Contacts) (p : Nat) : Option (Option Nat) := (cts.heap p).map Person.next

def previous (cts : Contacts) (p : Nat) : Option (Option Nat) := (cts.heap p).map Person.previous

/-- The name and the number of a person. -/
def entry (cts : Contacts) (p : Nat) : Option (CStr × CStr) :=
  (cts.heap p).map fun person => (person.name, person.phoneNumber)

def nameOf (cts : Contacts) (p : Nat) : CStr :=
  ((cts.entry p).map Prod.fst).getD ⟨[], List.not_mem_nil⟩

end Contacts

/-- The persons of a group from its head on, in the order of their names. -/
structure Group (cts : Contacts) (index : Nat) (nodes : List Nat) : Prop where
  head : cts.groups index = nodes.head?
  doubly : Doubly cts.next cts.previous nodes
  sorted : nodes.Pairwise fun a b => cts.nameOf a ≤ cts.nameOf b
  letter : ∀ node ∈ nodes, getNameIndex (some (cts.nameOf node)) = index

structure Book (cts : Contacts) (lists : Nat → List Nat) : Prop where
  group : ∀ index, index < alphabetCount → Group cts index (lists index)
  fresh : ∀ p, cts.allocated ≤ p → cts.heap p = none

/-- The pointers became these, the rest is as it was. -/
structure Links (cts cts' : Contacts) (next previous : Nat → Option (Option Nat)) : Prop where
  next : cts'.next = next
  previous : cts'.previous = previous
  entry : cts'.entry = cts.entry
  groups : cts'.groups = cts.groups
  allocated : cts'.allocated = cts.allocated

section Writes

variable {cts cts' : Contacts} {p : Option Nat} {node : Nat} {person : Person}

theorem entry_none : cts.entry node = none ↔ cts.heap node = none := Option.map_eq_none_iff

theorem nameOf_live (live : cts.heap node = some person) : cts.nameOf node = person.name := by
  simp [Contacts.nameOf, Contacts.entry, live]

theorem next_live (live : cts.heap node = some person) : cts.next node = some person.next := by
  simp [Contacts.next, live]

theorem previous_live (live : cts.heap node = some person) :
    cts.previous node = some person.previous := by
  simp [Contacts.previous, live]

theorem deref_live (live : cts.heap node = some person) : cts.deref node = .ok person := by
  unfold Contacts.deref
  rw [live]

theorem live_next {next : Option Nat} (linked : cts.next node = some next) :
    ∃ person, cts.heap node = some person ∧ person.next = next :=
  Option.map_eq_some_iff.mp linked

theorem live_entry (same : cts'.entry = cts.entry) :
    (∃ person, cts'.heap node = some person) ↔ ∃ person, cts.heap node = some person := by
  rw [← Option.ne_none_iff_exists', ← Option.ne_none_iff_exists', ne_eq, ne_eq,
    ← entry_none, ← entry_none, same]

theorem modify_ok (live : cts.heap node = some person) (change : Person → Person) :
    cts.modify node change =
      .ok { cts with heap := Function.update cts.heap node (some (change person)) } := by
  unfold Contacts.modify
  rw [deref_live live]
  rfl

/-- What is seen of the persons, when one of them changes. -/
theorem heap_view {α : Type} (view : Person → α) (changed : Person) :
    (fun p => (Function.update cts.heap node (some changed) p).map view) =
      Function.update (fun p => (cts.heap p).map view) node (some (view changed)) :=
  Function.comp_update (Option.map view) cts.heap node (some changed)

/-- A change of the two pointers of a person. -/
theorem modify_links (live : cts.heap node = some person) (change : Person → Person)
    (sameName : (change person).name = person.name)
    (sameNumber : (change person).phoneNumber = person.phoneNumber) :
    ∃ cts', cts.modify node change = .ok cts' ∧
      Links cts cts' (Function.update cts.next node (some (change person).next))
        (Function.update cts.previous node (some (change person).previous)) := by
  refine ⟨_, modify_ok live change, heap_view Person.next _, heap_view Person.previous _, ?_,
    rfl, rfl⟩
  have here : cts.entry node = some ((change person).name, (change person).phoneNumber) := by
    rw [sameName, sameNumber, Contacts.entry, live]
    rfl
  calc _ = Function.update cts.entry node
        (some ((change person).name, (change person).phoneNumber)) := heap_view _ _
    _ = cts.entry := by rw [← here, Function.update_eq_self]

theorem setNextIf_ok (live : ∀ node, p = some node → ∃ person, cts.heap node = some person)
    (value : Option Nat) :
    ∃ cts', cts.setNextIf p value = .ok cts' ∧
      Links cts cts' (writeIf cts.next p value) cts.previous := by
  cases p with
  | none => exact ⟨cts, rfl, rfl, rfl, rfl, rfl, rfl⟩
  | some node =>
      obtain ⟨person, isPerson⟩ := live node rfl
      obtain ⟨cts', modified, links⟩ := modify_links isPerson
        (fun person => { person with next := value }) rfl rfl
      rw [← previous_live isPerson, Function.update_eq_self] at links
      exact ⟨cts', modified, links⟩

theorem setPreviousIf_ok (live : ∀ node, p = some node → ∃ person, cts.heap node = some person)
    (value : Option Nat) :
    ∃ cts', cts.setPreviousIf p value = .ok cts' ∧
      Links cts cts' cts.next (writeIf cts.previous p value) := by
  cases p with
  | none => exact ⟨cts, rfl, rfl, rfl, rfl, rfl, rfl⟩
  | some node =>
      obtain ⟨person, isPerson⟩ := live node rfl
      obtain ⟨cts', modified, links⟩ := modify_links isPerson
        (fun person => { person with previous := value }) rfl rfl
      rw [← next_live isPerson, Function.update_eq_self] at links
      exact ⟨cts', modified, links⟩

/-- `p->previous = p->next = NULL;` -/
theorem clear_ok (live : cts.heap node = some person) :
    ∃ cts', (cts.modify node fun person => { person with next := none, previous := none }) =
        .ok cts' ∧ Links cts cts' (Function.update cts.next node (some none))
      (Function.update cts.previous node (some none)) :=
  modify_links live _ rfl rfl

end Writes

section Frames

variable {cts cts' : Contacts} {index : Nat} {nodes : List Nat} {lists : Nat → List Nat}
  {node : Nat}

theorem nameOf_entry (same : cts'.entry node = cts.entry node) :
    cts'.nameOf node = cts.nameOf node := by
  unfold Contacts.nameOf
  rw [same]

theorem Group.live (group : Group cts index nodes) (member : node ∈ nodes) :
    ∃ person, cts.heap node = some person := by
  obtain ⟨next, linked⟩ := group.doubly.forward.mem member
  obtain ⟨person, live, -⟩ := live_next linked
  exact ⟨person, live⟩

theorem Group.congr (group : Group cts index nodes)
    (sameHead : cts'.groups index = cts.groups index)
    (same : ∀ b ∈ nodes, cts'.next b = cts.next b ∧ cts'.previous b = cts.previous b ∧
      cts'.entry b = cts.entry b) : Group cts' index nodes := by
  have names : ∀ b ∈ nodes, cts'.nameOf b = cts.nameOf b := fun b member =>
    nameOf_entry (same b member).2.2
  refine ⟨sameHead.trans group.head, ?_, ?_, fun node member => ?_⟩
  · exact group.doubly.congr (fun b member => (same b member).1) fun b member =>
      (same b member).2.1
  · refine group.sorted.imp_of_mem fun first second least => ?_
    rwa [names _ first, names _ second]
  · rw [names node member]
    exact group.letter node member

/-- No person is in two groups. -/
theorem Book.only (book : Book cts lists) {i j : Nat} (iBound : i < alphabetCount)
    (jBound : j < alphabetCount) (inI : node ∈ lists i) (inJ : node ∈ lists j) : i = j := by
  have first := (book.group i iBound).letter node inI
  have second := (book.group j jBound).letter node inJ
  rw [first] at second
  exact Int.ofNat.inj second

theorem Book.length_le (book : Book cts lists) (bound : index < alphabetCount) :
    (lists index).length ≤ cts.allocated := by
  have group := book.group index bound
  have inside : lists index ⊆ List.range cts.allocated := by
    intro node member
    obtain ⟨person, live⟩ := group.live member
    rw [List.mem_range]
    by_contra large
    rw [book.fresh node (Nat.le_of_not_lt large)] at live
    cases live
  have short := (List.subperm_of_subset group.doubly.nodup inside).length_le
  rwa [List.length_range] at short

/-- What is outside of the groups may change. -/
theorem Book.frame (book : Book cts lists) (sameGroups : cts'.groups = cts.groups)
    (same : ∀ index, index < alphabetCount → ∀ node ∈ lists index,
      cts'.heap node = cts.heap node)
    (fresh : ∀ p, cts'.allocated ≤ p → cts'.heap p = none) : Book cts' lists := by
  refine ⟨fun index bound => ?_, fresh⟩
  refine (book.group index bound).congr (congrFun sameGroups index) fun node member => ?_
  have sameHeap := same index bound node member
  simp only [Contacts.next, Contacts.previous, Contacts.entry, sameHeap, and_self]

end Frames

end LinuxCpp.AddressBook
