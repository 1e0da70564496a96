import LinuxCpp.AddressBook.RoundTrip
import LinuxCpp.Trace.Balance

set_option autoImplicit false

/- What `person_traversal` prints of the grouped address book, and how that follows from the
answers that the user got before. -/
namespace LinuxCpp.AddressBook

open C Linked Trace
open scoped List

/-- A line of `person_traversal`. -/
inductive Shown where
  | heading (index : Nat)
  | person (name phoneNumber : CStr)
  | total (count : Nat)
deriving DecidableEq, Repr

/-- The `while` of `person_traversal`. -/
def traversalGroup (cts : Contacts) : Nat → Option Nat → Except Fault (List (CStr × CStr))
  | 0, _ => .error .fuel
  | _ + 1, none => .ok []
  | fuel + 1, some item => do
      let person ← cts.deref item
      return (person.name, person.phoneNumber) :: (← traversalGroup cts fuel person.next)

/-- The `for` of `person_traversal` over the remaining `n` groups from `i`. -/
def traversalGroups (cts : Contacts) : Nat → Nat → Nat → Except Fault (List Shown)
  | 0, _, total => .ok [.total total]
  | n + 1, i, total =>
      match cts.groups i with
      | none => traversalGroups cts n (i + 1) total
      | some head => do
          let people ← traversalGroup cts (cts.allocated + 1) (some head)
          let lines := people.map fun entry => .person entry.1 entry.2
          return .heading i :: lines ++ (← traversalGroups cts n (i + 1) (total + people.length))

def personTraversal (cts : Contacts) : Except Fault (List Shown) :=
  traversalGroups cts alphabetCount 0 0

/-- The lines of one group. -/
def sectionOf (groups : Nat → List (CStr × CStr)) (index : Nat) : List Shown :=
  match groups index with
  | [] => []
  | entry :: rest => .heading index :: (entry :: rest).map fun entry => .person entry.1 entry.2

/-- The entry that `insert_entry` makes. -/
def Op.adds (cts : Contacts) : Op → List (CStr × CStr)
  | .insert fresh name phone =>
      match insertEntry cts fresh name phone with
      | .ok (code, _) => if code = 0 then [(CStr.upToNul name, CStr.upToNul phone)] else []
      | .error _ => []
  | .delete _ => []
  | .load _ _ => []

/-- The name of the entry that `delete_entry` removes. -/
def Op.drops (cts : Contacts) : Op → List CStr
  | .insert _ _ _ => []
  | .delete name =>
      match deleteEntry cts name with
      | .ok (code, _) => if code = 0 then [CStr.upToNul name] else []
      | .error _ => []
  | .load _ _ => []

/-- An insertion or a deletion with a name and a number that fit. -/
def Op.Edits (op : Op) : Prop :=
  op.Fits ∧ match op with
    | .load _ _ => False
    | _ => True

section Lines

variable {cts : Contacts} {lists : Nat → List Nat} {people : List (CStr × CStr)}

theorem traversalGroup_ok {nodes : List Nat} {fuel : Nat}
    (chain : Chain cts.next nodes.head? nodes) (enough : nodes.length < fuel) :
    traversalGroup cts fuel nodes.head? = .ok (nodes.filterMap cts.entry) := by
  induction nodes generalizing fuel with
  | nil =>
      obtain ⟨fuel, rfl⟩ := Nat.exists_eq_succ_of_ne_zero (Nat.ne_of_gt enough)
      rfl
  | cons node rest ih =>
      obtain ⟨fuel, rfl⟩ := Nat.exists_eq_succ_of_ne_zero (Nat.ne_of_gt (Nat.zero_lt_of_lt enough))
      obtain ⟨-, next, linked, tail⟩ := chain
      obtain ⟨person, live, rfl⟩ := live_next linked
      have start := Chain.head tail
      have isEntry : cts.entry node = some (person.name, person.phoneNumber) := by
        simp [Contacts.entry, live]
      rw [List.head?_cons, traversalGroup, deref_live live, ok_bind, start,
        ih (start ▸ tail) (Nat.lt_of_succ_lt_succ enough), ok_bind,
        List.filterMap_cons_some isEntry]
      rfl

/-- The people of each group in the order of its list. -/
def groupsOf (cts : Contacts) (lists : Nat → List Nat) (index : Nat) : List (CStr × CStr) :=
  (lists index).filterMap cts.entry

theorem traversalGroups_ok (holds : Holds cts lists people) {n i total : Nat}
    (inside : i + n ≤ alphabetCount) : traversalGroups cts n i total =
      .ok ((List.range' i n).flatMap (sectionOf (groupsOf cts lists)) ++
        [.total (total + ((List.range' i n).flatMap (groupsOf cts lists)).length)]) := by
  induction n generalizing i total with
  | zero => rfl
  | succ n ih =>
      have bound : i < alphabetCount := by omega
      have group := holds.book.group i bound
      have later : i + 1 + n ≤ alphabetCount := by omega
      rw [List.range'_succ, List.flatMap_cons, List.flatMap_cons, traversalGroups, group.head]
      cases nodes : lists i with
      | nil =>
          have nobody : groupsOf cts lists i = [] := by rw [groupsOf, nodes]; rfl
          rw [sectionOf, nobody]
          exact ih later
      | cons node rest =>
          obtain ⟨person, live⟩ := group.live (nodes ▸ List.mem_cons_self)
          have isEntry : cts.entry node = some (person.name, person.phoneNumber) := by
            simp [Contacts.entry, live]
          have first : groupsOf cts lists i = (person.name, person.phoneNumber) ::
              rest.filterMap cts.entry := by
            rw [groupsOf, nodes, List.filterMap_cons_some isEntry]
          have walked := traversalGroup_ok group.doubly.forward
            (Nat.lt_succ_of_le (holds.book.length_le bound))
          rw [nodes, List.head?_cons, List.filterMap_cons_some isEntry] at walked
          rw [List.head?_cons]
          simp only
          rw [walked, ok_bind, ih later, ok_bind, sectionOf, first, List.append_assoc,
            List.length_append, Nat.add_assoc]
          rfl

end Lines

section Parts

variable {α : Type}

/-- A list and its parts by a number below `n`. -/
theorem parts_perm (number : α → Int) (items : List α) (n : Nat) :
    (List.range n).flatMap (fun i : Nat => items.filter fun item => number item = (i : Int)) ~
      items.filter fun item => 0 ≤ number item ∧ number item < n := by
  induction n with
  | zero =>
      refine .of_eq (Eq.symm (List.filter_eq_nil_iff.mpr fun item member => ?_))
      simp only [decide_eq_true_eq]
      omega
  | succ n ih =>
      rw [List.range_succ, List.flatMap_append, List.flatMap_singleton]
      have parts := List.filter_append_perm (fun item => decide (number item < n))
        (items.filter fun item => 0 ≤ number item ∧ number item < (n + 1 : Nat))
      rw [List.filter_filter, List.filter_filter] at parts
      refine (ih.append_right _).trans (List.Perm.trans (.of_eq ?_) parts)
      congr 1
      · refine List.filter_congr fun item _ => ?_
        rw [Bool.eq_iff_iff]
        simp only [Bool.and_eq_true, decide_eq_true_eq]
        omega
      · refine List.filter_congr fun item _ => ?_
        rw [Bool.eq_iff_iff]
        simp only [Bool.and_eq_true, decide_eq_true_eq, Bool.not_eq_true', decide_eq_false_iff_not]
        omega

end Parts

section Runs

variable {cts : Contacts} {lists : Nat → List Nat} {people : List (CStr × CStr)} {ops : List Op}

/-- What is printed are the people in the book. -/
theorem Holds.groups_perm (holds : Holds cts lists people)
    (letters : ∀ entry ∈ people, HasLetter entry.1) :
    people ~ (List.range alphabetCount).flatMap (groupsOf cts lists) := by
  have parts := parts_perm (fun entry : CStr × CStr => getNameIndex (some entry.1)) people
    alphabetCount
  have all : people.filter (fun entry => 0 ≤ getNameIndex (some entry.1) ∧
      getNameIndex (some entry.1) < alphabetCount) = people :=
    List.filter_eq_self.mpr fun entry member => decide_eq_true (letters entry member)
  rw [all] at parts
  refine parts.symm.trans (List.Perm.symm ?_)
  refine List.Perm.flatMap_left _ fun index member => ?_
  exact holds.group_perm (List.mem_range.mp member)

/-- What one insertion or deletion changes of the people in the book. -/
theorem edit_told {op : Op} (holds : Holds cts lists people)
    (letters : ∀ entry ∈ people, HasLetter entry.1) (edits : op.Edits) :
    ∃ cts' lists' people' gone, Op.exec cts op = .ok cts' ∧ Holds cts' lists' people' ∧
      (∀ entry ∈ people', HasLetter entry.1) ∧ gone.map Prod.fst = op.drops cts ∧
      op.adds cts ++ people ~ gone ++ people' := by
  obtain ⟨fits, kind⟩ := edits
  cases op with
  | insert fresh name phone =>
      obtain ⟨code, cts', lists', people', ran, holds', same, letter, -⟩ :=
        insertEntry_ok holds fresh fits.1 fits.2
      have stepped : Op.exec cts (.insert fresh name phone) = .ok cts' := by
        rw [Op.exec, ran]
        rfl
      refine ⟨cts', lists', people', [], stepped, holds', ?_, rfl, ?_⟩
      · intro entry member
        rw [same] at member
        split at member
        · rename_i entered
          rcases List.mem_cons.mp member with rfl | old
          · exact letter entered
          · exact letters entry old
        · exact letters entry member
      · rw [Op.adds, ran, same]
        simp only
        split
        · exact .refl _
        · exact .refl _
  | delete name =>
      obtain ⟨code, cts', lists', people', ran, holds', same, letter, -⟩ :=
        deleteEntry_ok holds fits
      have stepped : Op.exec cts (.delete name) = .ok cts' := by
        rw [Op.exec, ran]
        rfl
      rw [Op.drops, ran]
      simp only
      by_cases removed : code = 0
      · rw [if_pos removed] at same ⊢
        obtain ⟨phone, same⟩ := same
        have stay : ∀ entry ∈ people', HasLetter entry.1 := fun entry member =>
          letters entry (same.mem_iff.mpr (List.mem_cons_of_mem _ member))
        exact ⟨cts', lists', people', [(CStr.upToNul name, phone)], stepped, holds', stay, rfl,
          same⟩
      · rw [if_neg removed] at same ⊢
        subst same
        exact ⟨cts', lists', people', [], stepped, holds', letters, rfl, .refl _⟩
  | load file fresh => exact kind.elim

/-- The people in the book are those of the insertions without those of the deletions. -/
theorem edits_told (holds : Holds cts lists people) (letters : ∀ entry ∈ people, HasLetter entry.1)
    (edits : ∀ op ∈ ops, op.Edits) : ∃ cts' lists' people' gone,
    runs Op.exec cts ops = .ok cts' ∧ Holds cts' lists' people' ∧
      (∀ entry ∈ people', HasLetter entry.1) ∧
      gone.map Prod.fst = outputs Op.exec Op.drops cts ops ∧
      outputs Op.exec Op.adds cts ops ++ people ~ gone ++ people' := by
  induction ops generalizing cts lists people with
  | nil => exact ⟨cts, lists, people, [], rfl, holds, letters, rfl, .refl _⟩
  | cons op rest ih =>
      obtain ⟨edit, others⟩ := List.forall_mem_cons.mp edits
      obtain ⟨cts₁, lists₁, people₁, first, stepped, holds₁, letters₁, name, one⟩ :=
        edit_told holds letters edit
      obtain ⟨cts', lists', people', gone, later, holds', letters', names, all⟩ :=
        ih holds₁ letters₁ others
      refine ⟨cts', lists', people', first ++ gone, (runs_cons stepped).trans later, holds',
        letters', ?_, ?_⟩
      · rw [List.map_append, name, names, outputs_cons _ stepped]
      · rw [outputs_cons _ stepped]
        exact chain_perm one all

end Runs

/-- After any insertions and deletions the groups are printed from A to Z with their names in
order, the persons are those of the insertions that answered 0 without one of the name for each
deletion that answered 0, and the total is their number. -/
theorem traversal_tells (ops : List Op) (edits : ∀ op ∈ ops, op.Edits) :
    ∃ cts gone, ∃ groups : Nat → List (CStr × CStr),
      runs Op.exec emptyContacts ops = .ok cts ∧
      personTraversal cts = .ok ((List.range alphabetCount).flatMap (sectionOf groups) ++
        [.total ((List.range alphabetCount).flatMap groups).length]) ∧
      (∀ index, index < alphabetCount →
        ((groups index).Pairwise fun a b => strcmp a.1 b.1 ≤ 0) ∧
        ∀ entry ∈ groups index, getNameIndex (some entry.1) = index) ∧
      gone.map Prod.fst = outputs Op.exec Op.drops emptyContacts ops ∧
      outputs Op.exec Op.adds emptyContacts ops ~
        gone ++ (List.range alphabetCount).flatMap groups := by
  obtain ⟨cts, lists, people, gone, ran, holds, letters, names, all⟩ :=
    edits_told empty_holds (fun _ nobody => absurd nobody List.not_mem_nil) edits
  rw [List.append_nil] at all
  refine ⟨cts, gone, groupsOf cts lists, ran, ?_, fun index bound => ⟨?_, fun entry member => ?_⟩,
    names, all.trans ((holds.groups_perm letters).append_left _)⟩
  · rw [personTraversal, traversalGroups_ok holds (Nat.le_of_eq (Nat.zero_add _)), Nat.zero_add,
      List.range_eq_range']
  · refine List.pairwise_filterMap.mpr
      ((holds.book.group index bound).wellGrouped.sorted.imp fun least a isA b isB => ?_)
    rwa [Contacts.nameOf, Contacts.nameOf, isA, isB] at least
  · exact of_decide_eq_true (List.mem_filter.mp ((holds.group_perm bound).subset member)).2

/-- Three persons come in and the first one is deleted. -/
theorem traversal_tells_sample : ∃ cts lines,
    runs Op.exec emptyContacts (sampleOps.take 4) = .ok cts ∧
      personTraversal cts = .ok (lines ++ [.total 2]) := by
  have edits : ∀ op ∈ sampleOps.take 4, op.Edits := by
    simp only [sampleOps, List.take_succ_cons, List.take_zero, List.forall_mem_cons,
      List.not_mem_nil, false_imp_iff, implies_true, and_true, Op.Edits, Op.Fits]
    decide
  obtain ⟨cts, gone, groups, ran, shown, -, names, all⟩ := traversal_tells _ edits
  have added : (outputs Op.exec Op.adds emptyContacts (sampleOps.take 4)).length = 3 := by rfl
  have dropped : (outputs Op.exec Op.drops emptyContacts (sampleOps.take 4)).length = 1 := by rfl
  rw [← names, List.length_map] at dropped
  have size := all.length_eq
  rw [added, List.length_append, dropped] at size
  have two : ((List.range alphabetCount).flatMap groups).length = 2 := by omega
  rw [two] at shown
  exact ⟨cts, _, ran, shown⟩

end LinuxCpp.AddressBook
