import LinuxCpp.AddressBook.People

set_option autoImplicit false

/- The groups after any operations on an empty book. -/
namespace LinuxCpp.AddressBook

open C Linked Trace

/-- Names, numbers and files with room in the arrays they are read into. -/
def Op.Fits : Op → Prop
  | .insert _ name phone => name.length < nameLength ∧ phone.length < phoneNumberLength
  | .delete name => name.length < nameLength
  | .load none _ => True
  | .load (some bytes) _ => fileFits (bytes.length + 1) bytes = true

structure WellGrouped (cts : Contacts) (index : Nat) (nodes : List Nat) : Prop where
  chain : Chain cts.next (cts.groups index) nodes
  head : ∀ x, cts.groups index = some x → cts.previous x = some none
  back : ∀ x ∈ nodes, ∀ y, cts.next x = some (some y) → cts.previous y = some (some x)
  sorted : nodes.Pairwise fun a b => strcmp (cts.nameOf a) (cts.nameOf b) ≤ 0
  letter : ∀ x ∈ nodes, ∃ c, (cts.nameOf x).bytes.head? = some c ∧
    (toupper c).toNat = 65 + index

/-- Some group has this person, and it has this name. -/
def InGroup (cts : Contacts) (name : CStr) (p : Nat) : Prop :=
  ∃ index, index < alphabetCount ∧ ∃ nodes, Chain cts.next (cts.groups index) nodes ∧
    p ∈ nodes ∧ cts.nameOf p = name

section Lists

variable {cts : Contacts} {index : Nat} {nodes : List Nat} {lists : Nat → List Nat}
  {people : List (CStr × CStr)}

theorem letter_of_index {name : CStr} (letter : getNameIndex (some name) = index) :
    ∃ c, name.bytes.head? = some c ∧ (toupper c).toNat = 65 + index := by
  unfold getNameIndex at letter
  split at letter
  · omega
  · rename_i c first
    split at letter
    · exact ⟨c, first, by omega⟩
    · omega

theorem Group.wellGrouped (group : Group cts index nodes) : WellGrouped cts index nodes := by
  refine ⟨group.head ▸ group.doubly.forward, fun x isHead => ?_, fun x member y linked => ?_,
    group.sorted.imp fun least => ?_, fun x member => letter_of_index (group.letter x member)⟩
  · exact group.doubly.previous_head (group.head ▸ isHead)
  · exact group.doubly.next_previous member linked
  · have notAbove := mt (strcmp_pos _ _).mp (not_lt_of_ge least)
    omega

theorem Book.inGroup_iff (book : Book cts lists) {name : CStr} {p : Nat} :
    InGroup cts name p ↔
      ∃ index, index < alphabetCount ∧ p ∈ lists index ∧ cts.nameOf p = name := by
  have chains : ∀ index, index < alphabetCount →
      Chain cts.next (cts.groups index) (lists index) := fun index bound =>
    (book.group index bound).wellGrouped.chain
  constructor
  · rintro ⟨index, bound, nodes, chain, member, isName⟩
    have same := chain.unique (chains index bound)
    exact ⟨index, bound, same ▸ member, isName⟩
  · rintro ⟨index, bound, member, isName⟩
    exact ⟨index, bound, _, chains index bound, member, isName⟩

/-- One group is searched, and no other can have the name. -/
theorem Book.search_global (book : Book cts lists) (name : CStr) :
    ∃ found, personSearchGlobal cts (some name) = .ok found ∧
      (∀ p, found = some p → InGroup cts name p) ∧
      (found = none → ∀ p, ¬ InGroup cts name p) := by
  simp only [book.inGroup_iff]
  unfold personSearchGlobal
  rcases index_cases name with bad | ⟨index, bound, letter⟩
  · simp only [if_pos bad]
    refine ⟨none, rfl, fun p isFound => ?_, fun _ p => ?_⟩
    · cases isFound
    · rintro ⟨index, bound, member, rfl⟩
      rw [(book.group index bound).letter p member] at bad
      exact good_index bound bad
  · simp only [letter, if_neg (good_index bound), Int.toNat_natCast, book.search bound]
    refine ⟨_, rfl, fun p isFound => ?_, fun isNone p => ?_⟩
    · have isName := List.find?_some isFound
      exact ⟨index, bound, List.mem_of_find?_eq_some isFound, of_decide_eq_true isName⟩
    · rintro ⟨other, otherBound, member, rfl⟩
      have sameLetter := (book.group other otherBound).letter p member
      rw [letter] at sameLetter
      cases Int.ofNat.inj sameLetter
      have notFound := List.find?_eq_none.mp isNone p member
      exact notFound (decide_eq_true rfl)

theorem Op.exec_holds (holds : Holds cts lists people) {op : Op} (fits : op.Fits) :
    ∃ cts' lists' people', op.exec cts = .ok cts' ∧ Holds cts' lists' people' := by
  cases op with
  | insert fresh name phone =>
      obtain ⟨code, cts', lists', people', ran, holds', -⟩ :=
        insertEntry_ok holds fresh fits.1 fits.2
      refine ⟨cts', lists', people', ?_, holds'⟩
      rw [Op.exec, ran]
      rfl
  | delete name =>
      obtain ⟨code, cts', lists', people', ran, holds', -⟩ := deleteEntry_ok holds fits
      refine ⟨cts', lists', people', ?_, holds'⟩
      rw [Op.exec, ran]
      rfl
  | load file fresh =>
      cases file with
      | none => exact ⟨cts, lists, people, rfl, holds⟩
      | some bytes =>
          obtain ⟨code, cts', lists', people', ran, holds'⟩ :=
            loadRecords_ok holds fresh 0 0 fits (Nat.lt_succ_self _)
          refine ⟨cts', lists', people', ?_, holds'⟩
          rw [Op.exec, loadFile, ran]
          rfl

theorem runs_holds (holds : Holds cts lists people) {ops : List Op} (fits : ∀ op ∈ ops, op.Fits) :
    ∃ cts' lists' people', runs Op.exec cts ops = .ok cts' ∧ Holds cts' lists' people' := by
  induction ops generalizing cts lists people with
  | nil => exact ⟨cts, lists, people, rfl, holds⟩
  | cons op rest ih =>
      obtain ⟨fitsFirst, fitsRest⟩ := List.forall_mem_cons.mp fits
      obtain ⟨cts', lists', people', ran, holds'⟩ := Op.exec_holds holds fitsFirst
      rw [runs_cons ran]
      exact ih holds' fitsRest

theorem empty_holds : Holds emptyContacts (fun _ => []) [] := by
  refine ⟨⟨fun index bound => ⟨rfl, ⟨rfl, rfl⟩, .nil, ?_⟩, fun p large => rfl⟩, fun _ _ => .nil⟩
  simp

end Lists

theorem addressBook_grouped (ops : List Op) (fits : ∀ op ∈ ops, op.Fits) :
    ∃ cts, runs Op.exec emptyContacts ops = .ok cts ∧
      (∀ index, index < alphabetCount → ∃ nodes, WellGrouped cts index nodes) ∧
      ∀ name, ∃ found, personSearchGlobal cts (some name) = .ok found ∧
        (∀ p, found = some p → InGroup cts name p) ∧
        (found = none → ∀ p, ¬ InGroup cts name p) := by
  obtain ⟨cts, lists, people, ran, holds⟩ := runs_holds empty_holds fits
  refine ⟨cts, ran, fun index bound => ?_, holds.book.search_global⟩
  exact ⟨lists index, (holds.book.group index bound).wellGrouped⟩

/-- Memory as `malloc` may leave it. -/
def junkPerson : Person := ⟨⟨[1], by decide⟩, ⟨[2], by decide⟩, some 7, some 8⟩

/-- Three persons, one of them deleted, and a file with a fourth one. -/
def sampleOps : List Op :=
  [.insert (some junkPerson) (charBytes ['b', 'o', 'b']) (charBytes ['1']),
    .insert (some junkPerson) (charBytes ['A', 'n', 'n']) (charBytes ['2']),
    .insert (some junkPerson) (charBytes ['B', 'e', 'a']) (charBytes ['3']),
    .delete (charBytes ['b', 'o', 'b']),
    .load (some (charBytes ['n', 'a', 'm', 'e', ':', ' ', 'b', 'e', 'a', ',', ' ', 'p', 'h', 'o',
      'n', 'e', ':', ' ', '4'])) fun _ => some junkPerson]

theorem addressBook_grouped_sample :
    ∃ cts, runs Op.exec emptyContacts sampleOps = .ok cts ∧
      (∀ index, index < alphabetCount → ∃ nodes, WellGrouped cts index nodes) ∧
      ∀ name, ∃ found, personSearchGlobal cts (some name) = .ok found ∧
        (∀ p, found = some p → InGroup cts name p) ∧
        (found = none → ∀ p, ¬ InGroup cts name p) := by
  apply addressBook_grouped
  simp only [sampleOps, List.forall_mem_cons, List.not_mem_nil, false_imp_iff, implies_true,
    and_true, Op.Fits]
  decide

end LinuxCpp.AddressBook
