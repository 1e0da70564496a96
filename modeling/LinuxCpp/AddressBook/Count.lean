import LinuxCpp.AddressBook.Grouped
import Mathlib.Algebra.BigOperators.Group.Finset.Basic

set_option autoImplicit false

/- `cts->count` and the persons in the groups. `insert_entry` and `delete_entry` change the
count by one, `load_file` assigns it. -/
namespace LinuxCpp.AddressBook

open C Linked Trace

/-- The count is the number of the persons that are reached in the groups. -/
def CountExact (cts : Contacts) : Prop :=
  ∃ lists : Nat → List Nat,
    (∀ index, index < alphabetCount → Chain cts.next (cts.groups index) (lists index)) ∧
      cts.count = ((Finset.range alphabetCount).sum fun index => (lists index).length : Nat)

/-- How many records with a letter `load_file` reads, from the `record`-th call of `malloc`
on, and whether it is then refused a person. -/
def loadable (fresh : Nat → Option Person) : Nat → List UInt8 → Nat → Nat × Bool
  | 0, _, _ => (0, false)
  | fuel + 1, bytes, record =>
      match scanf recordFormat bytes with
      | ([name, _], rest) =>
          if fresh record = none then (0, true)
          else
            let (many, refused) := loadable fresh fuel rest (record + 1)
            (if HasLetter (CStr.upToNul name) then many + 1 else many, refused)
      | _ => (0, false)

/-- The file is not there, or it is read to its end into an empty book, or the memory is
refused in front of the first person of it. -/
def LoadCounts (cts : Contacts) (file : Option (List UInt8)) (fresh : Nat → Option Person) : Prop :=
  match file with
  | none => True
  | some bytes =>
      match loadable fresh (bytes.length + 1) bytes 0 with
      | (many, true) => many = 0
      | (_, false) => ∀ index, index < alphabetCount → cts.groups index = none

def CountsRight (cts : Contacts) : Op → Prop
  | .load file fresh => LoadCounts cts file fresh
  | _ => True

/-- The people that are in a group. -/
def lettered (people : List (CStr × CStr)) : Nat := people.countP fun entry => HasLetter entry.1

section Totals

variable {cts cts' : Contacts} {lists : Nat → List Nat} {people : List (CStr × CStr)}

theorem lettered_cons (entry : CStr × CStr) :
    lettered (entry :: people) = lettered people + if HasLetter entry.1 then 1 else 0 := by
  unfold lettered
  rw [List.countP_cons]
  simp only [decide_eq_true_eq]

/-- One group has a person whose name begins with a letter, the others do not. -/
theorem sum_letter (name : CStr) : ((Finset.range alphabetCount).sum fun index =>
    if getNameIndex (some name) = index then 1 else 0) = if HasLetter name then 1 else 0 := by
  by_cases letter : HasLetter name
  · obtain ⟨index, isIndex⟩ := Int.eq_ofNat_of_zero_le letter.1
    have bound : index < alphabetCount := by
      have below := letter.2
      omega
    rw [if_pos letter, Finset.sum_eq_single_of_mem index (Finset.mem_range.mpr bound)]
    · rw [if_pos isIndex]
    · intro other _ differs
      rw [if_neg]
      rw [isIndex]
      exact fun same => differs (Int.ofNat.inj same).symm
  · rw [if_neg letter]
    refine Finset.sum_eq_zero fun index member => if_neg fun isIndex => letter ?_
    exact hasLetter_of_index (Finset.mem_range.mp member) isIndex

theorem sum_ofGroup (people : List (CStr × CStr)) :
    ((Finset.range alphabetCount).sum fun index => (ofGroup people index).length) =
      lettered people := by
  induction people with
  | nil => rfl
  | cons entry people ih =>
      rw [lettered_cons, ← ih, ← sum_letter, ← Finset.sum_add_distrib]
      refine Finset.sum_congr rfl fun index _ => ?_
      rw [ofGroup_cons]
      split <;> rfl

theorem Holds.sum_length (holds : Holds cts lists people) :
    ((Finset.range alphabetCount).sum fun index => (lists index).length) = lettered people := by
  rw [← sum_ofGroup]
  refine Finset.sum_congr rfl fun index member => ?_
  have same := (holds.entries index (Finset.mem_range.mp member)).length_eq
  simpa using same

theorem Holds.chain (holds : Holds cts lists people) {index : Nat} (bound : index < alphabetCount) :
    Chain cts.next (cts.groups index) (lists index) := by
  have group := holds.book.group index bound
  rw [group.head]
  exact group.doubly.forward

theorem Holds.countExact_iff (holds : Holds cts lists people) :
    CountExact cts ↔ cts.count = lettered people := by
  rw [← holds.sum_length]
  constructor
  · rintro ⟨others, chains, exact_⟩
    rw [exact_]
    refine congrArg Nat.cast (Finset.sum_congr rfl fun index member => ?_)
    have bound := Finset.mem_range.mp member
    rw [Chain.unique (chains index bound) (holds.chain bound)]
  · exact fun exact_ => ⟨lists, fun index bound => holds.chain bound, exact_⟩

/-- A book is empty if nobody is in a group. -/
theorem Holds.empty_iff (holds : Holds cts lists people) :
    (∀ index, index < alphabetCount → cts.groups index = none) ↔ lettered people = 0 := by
  rw [← holds.sum_length, Finset.sum_eq_zero_iff]
  constructor
  · intro empty index member
    have bound := Finset.mem_range.mp member
    have chain := holds.chain bound
    rw [empty index bound] at chain
    rw [Chain.unique chain (show Chain cts.next none [] from rfl)]
    rfl
  · intro zero index bound
    have isNil := List.length_eq_zero_iff.mp (zero index (Finset.mem_range.mpr bound))
    rw [(holds.book.group index bound).head, isNil]
    rfl

end Totals

section Steps

variable {cts cts' : Contacts} {lists : Nat → List Nat} {people : List (CStr × CStr)}
  {code : Int}

theorem insertEntry_counts (holds : Holds cts lists people) {fresh : Option Person}
    {name phone : List UInt8} (ran : insertEntry cts fresh name phone = .ok (code, cts')) :
    ∃ lists' people', Holds cts' lists' people' ∧
      cts'.count - lettered people' = cts.count - lettered people := by
  cases fresh with
  | none =>
      cases ran
      exact ⟨lists, people, holds, rfl⟩
  | some junk =>
      have once := ran
      obtain ⟨str, stored, once⟩ := ok_of_bind once
      obtain ⟨first, -, once⟩ := ok_of_bind once
      obtain ⟨str', stored', -⟩ := ok_of_bind once
      obtain ⟨code', last, lists', people', ran', holds', rfl, letter, count⟩ :=
        insertEntry_ok holds (some junk) (storeText_fits stored) (storeText_fits stored')
      cases ran'.symm.trans ran
      refine ⟨lists', _, holds', ?_⟩
      rw [count]
      by_cases done : code = 0
      · rw [if_pos done, if_pos done, lettered_cons, if_pos (letter done)]
        omega
      · rw [if_neg done, if_neg done]

theorem deleteEntry_counts (holds : Holds cts lists people) {name : List UInt8}
    (ran : deleteEntry cts name = .ok (code, cts')) :
    ∃ lists' people', Holds cts' lists' people' ∧
      cts'.count - lettered people' = cts.count - lettered people := by
  obtain ⟨str, stored, -⟩ := ok_of_bind ran
  obtain ⟨code', last, lists', people', ran', holds', change, letter, count⟩ :=
    deleteEntry_ok holds (storeText_fits stored)
  cases ran'.symm.trans ran
  refine ⟨lists', people', holds', ?_⟩
  rw [count]
  by_cases done : code = 0
  · rw [if_pos done] at change ⊢
    obtain ⟨phone, arranged⟩ := change
    have fewer : lettered people = lettered people' + 1 := by
      have same := arranged.countP_eq fun entry => HasLetter entry.1
      refine same.trans ((lettered_cons _).trans ?_)
      rw [if_pos (letter done)]
    omega
  · rw [if_neg done] at change ⊢
    rw [change]

section Loadable

variable {fresh : Nat → Option Person} {fuel record : Nat} {bytes rest name phone : List UInt8}
  {junk : Person}

theorem loadable_refused (read : scanf recordFormat bytes = ([name, phone], rest))
    (made : fresh record = none) : loadable fresh (fuel + 1) bytes record = (0, true) := by
  rw [loadable, read]
  exact if_pos made

theorem loadable_read (read : scanf recordFormat bytes = ([name, phone], rest))
    (made : fresh record = some junk) : loadable fresh (fuel + 1) bytes record =
      ((loadable fresh fuel rest (record + 1)).1 +
        (if HasLetter (CStr.upToNul name) then 1 else 0),
        (loadable fresh fuel rest (record + 1)).2) := by
  have granted : fresh record ≠ none := by
    rw [made]
    exact Option.some_ne_none junk
  rw [loadable, read]
  dsimp only
  rw [if_neg granted]
  split <;> rfl

theorem loadable_end (notTwo : ∀ name phone rest,
    scanf recordFormat bytes ≠ ([name, phone], rest)) :
    loadable fresh (fuel + 1) bytes record = (0, false) := by
  rw [loadable]
  split
  · rename_i name phone rest read
    exact absurd read (notTwo name phone rest)
  · rfl

end Loadable

/-- `load_file` adds what it reads. If it is not refused, it assigns what it has counted. -/
theorem loadRecords_counts (holds : Holds cts lists people) {fresh : Nat → Option Person}
    {fuel : Nat} {bytes : List UInt8} {record : Nat} {count : Int}
    (ran : loadRecords fresh fuel cts bytes record count = .ok (code, cts')) :
    ∃ lists' people', Holds cts' lists' people' ∧
      lettered people' = lettered people + (loadable fresh fuel bytes record).1 ∧
      cts'.count = if (loadable fresh fuel bytes record).2 then cts.count
        else count + (loadable fresh fuel bytes record).1 := by
  induction fuel generalizing cts lists people bytes record count with
  | zero => cases ran
  | succ fuel ih =>
      rcases loadRecords_cases holds ran with ⟨name, phone, rest, read, made, rfl⟩ |
        ⟨name, phone, rest, junk, next, lists₁, people₁, count', read, made, ran, holds₁, kept,
          added⟩ | ⟨notTwo, rfl⟩
      · rw [loadable_refused read made]
        exact ⟨lists, people, holds, rfl, rfl⟩
      · obtain ⟨lists', people', holds', many, isCount⟩ := ih holds₁ ran
        refine ⟨lists', people', holds', ?_⟩
        rw [loadable_read read made]
        dsimp only
        rw [kept] at isCount
        rw [many, isCount]
        rcases added with ⟨noLetter, rfl, rfl⟩ | ⟨letter, rfl, rfl⟩
        · rw [if_neg noLetter]
          exact ⟨rfl, rfl⟩
        · rw [lettered_cons, if_pos letter]
          refine ⟨by omega, ?_⟩
          split
          · rfl
          · omega
      · rw [loadable_end notTwo]
        exact ⟨lists, people, holds.count count, rfl, (Int.add_zero count).symm⟩

/-- A step of the menu, from a book in order. -/
theorem Op.exec_counts (holds : Holds cts lists people) {op : Op} (ran : op.exec cts = .ok cts') :
    ∃ lists' people', Holds cts' lists' people' ∧
      (cts.count = lettered people → (cts'.count = lettered people' ↔ CountsRight cts op)) := by
  cases op with
  | insert fresh name phone =>
      obtain ⟨⟨code, last⟩, entered, returned⟩ := ok_of_bind ran
      cases returned
      obtain ⟨lists', people', holds', kept⟩ := insertEntry_counts holds entered
      refine ⟨lists', people', holds', fun exact_ => iff_of_true ?_ trivial⟩
      dsimp only
      omega
  | delete name =>
      obtain ⟨⟨code, last⟩, entered, returned⟩ := ok_of_bind ran
      cases returned
      obtain ⟨lists', people', holds', kept⟩ := deleteEntry_counts holds entered
      refine ⟨lists', people', holds', fun exact_ => iff_of_true ?_ trivial⟩
      dsimp only
      omega
  | load file fresh =>
      obtain ⟨⟨code, last⟩, loaded, returned⟩ := ok_of_bind ran
      cases returned
      cases file with
      | none =>
          cases loaded
          exact ⟨lists, people, holds, fun exact_ => iff_of_true exact_ trivial⟩
      | some bytes =>
          obtain ⟨lists', people', holds', many, isCount⟩ := loadRecords_counts holds loaded
          refine ⟨lists', people', holds', fun exact_ => ?_⟩
          rw [CountsRight, LoadCounts]
          generalize loadable fresh (bytes.length + 1) bytes 0 = found at many isCount
          obtain ⟨added, refused⟩ := found
          dsimp only at many isCount ⊢
          cases refused with
          | true =>
              rw [if_pos rfl] at isCount
              omega
          | false =>
              rw [if_neg Bool.false_ne_true] at isCount
              rw [holds.empty_iff]
              omega

end Steps

/-- The count is exact along a run exactly if every `load_file` finds no file, reads one to
its end into an empty book, or is refused in front of the first person. -/
theorem countExact_throughout_iff {ops : List Op} {last : Contacts}
    (ran : runs Op.exec emptyContacts ops = .ok last) :
    Throughout Op.exec CountExact emptyContacts ops ↔
      Along Op.exec CountsRight emptyContacts ops := by
  refine throughout_iff_of CountExact (fun cts => ∃ lists people, Holds cts lists people) ?_ ?_
    ⟨_, _, empty_holds⟩ (empty_holds.countExact_iff.mpr rfl) ran
  · rintro before op after ⟨lists, people, holds⟩ exact_ stepped
    obtain ⟨lists', people', holds', same⟩ := Op.exec_counts holds stepped
    rw [holds'.countExact_iff]
    exact same (holds.countExact_iff.mp exact_)
  · rintro before op after ⟨lists, people, holds⟩ - stepped
    obtain ⟨lists', people', holds', -⟩ := Op.exec_counts holds stepped
    exact ⟨lists', people', holds'⟩

/-- A file with Bea. -/
def beaFile : List UInt8 :=
  charBytes ['n', 'a', 'm', 'e', ':', ' ', 'b', 'e', 'a', ',', ' ', 'p', 'h', 'o', 'n', 'e', ':',
    ' ', '4']

/-- The file is loaded first, and then Bob comes into the book. -/
theorem countExact_throughout_bea :
    Throughout Op.exec CountExact emptyContacts
      [.load (some beaFile) fun _ => some junkPerson,
        .insert (some junkPerson) (charBytes ['b', 'o', 'b']) (charBytes ['1'])] := by
  refine (countExact_throughout_iff rfl).mpr ⟨?_, fun _ _ => ⟨trivial, fun _ _ => trivial⟩⟩
  exact fun _ _ => rfl

/-- The file is loaded into a book with Bob: two persons, and the count is 1. -/
theorem load_miscounts : ¬ ∀ ops, Throughout Op.exec CountExact emptyContacts ops := by
  intro all
  obtain ⟨cts, inserted⟩ : ∃ cts, Op.exec emptyContacts
      (.insert (some junkPerson) (charBytes ['b', 'o', 'b']) (charBytes ['1'])) = .ok cts :=
    ⟨_, rfl⟩
  obtain ⟨cts', loaded⟩ : ∃ cts', Op.exec cts (.load (some beaFile) fun _ => some junkPerson) =
      .ok cts' := by
    cases inserted
    exact ⟨_, rfl⟩
  obtain ⟨lists, people, holds, -⟩ := Op.exec_counts empty_holds inserted
  obtain ⟨lists', people', holds', same⟩ := Op.exec_counts holds loaded
  have before : CountExact cts := all [_] [_] [] rfl cts ((runs_cons inserted).trans rfl)
  have after : CountExact cts' := all [_, _] [_, _] [] rfl cts'
    ((runs_cons inserted).trans ((runs_cons loaded).trans rfl))
  have empty : ∀ index, index < alphabetCount → cts.groups index = none :=
    (same (holds.countExact_iff.mp before)).mp (holds'.countExact_iff.mp after)
  cases inserted
  cases empty 1 (by decide)

end LinuxCpp.AddressBook
