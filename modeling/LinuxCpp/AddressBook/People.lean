import LinuxCpp.AddressBook.Invariant
import LinuxCpp.C.Returns

set_option autoImplicit false

/- The book as the people in it: what each operation of the menu does to them. -/
namespace LinuxCpp.AddressBook

open C Linked

/-- The people whose names begin with the letter of this group. -/
def ofGroup (people : List (CStr × CStr)) (index : Nat) : List (CStr × CStr) :=
  people.filter fun entry => getNameIndex (some entry.1) = index

/-- The name begins with a letter, as the code asks for it. -/
def HasLetter (name : CStr) : Prop :=
  0 ≤ getNameIndex (some name) ∧ getNameIndex (some name) < alphabetCount

instance (name : CStr) : Decidable (HasLetter name) := inferInstanceAs (Decidable (_ ∧ _))

/-- The book is in order and has these people in it. -/
structure Holds (cts : Contacts) (lists : Nat → List Nat) (people : List (CStr × CStr)) :
    Prop where
  book : Book cts lists
  entries : ∀ index, index < alphabetCount →
    ((lists index).map cts.entry).Perm ((ofGroup people index).map some)

/-- A person of the heap that is in no group yet. -/
structure Draft (cts : Contacts) (lists : Nat → List Nat) (people : List (CStr × CStr)) (p : Nat)
    (person : Person) : Prop where
  holds : Holds cts lists people
  outside : ∀ index, index < alphabetCount → p ∉ lists index
  live : cts.heap p = some person
  allocated : p < cts.allocated

section Count

variable {cts : Contacts}

/-- A result that has the count of `cts`. -/
theorem modify_count (cts : Contacts) (p : Nat) (change : Person → Person) :
    Returns (cts.modify p change) fun cts' => cts'.count = cts.count :=
  .skip fun _ => .pure rfl

theorem setNextIf_count (cts : Contacts) (p value : Option Nat) :
    Returns (cts.setNextIf p value) fun cts' => cts'.count = cts.count := by
  cases p with
  | none => exact .pure rfl
  | some p => exact modify_count cts p _

theorem setPreviousIf_count (cts : Contacts) (p value : Option Nat) :
    Returns (cts.setPreviousIf p value) fun cts' => cts'.count = cts.count := by
  cases p with
  | none => exact .pure rfl
  | some p => exact modify_count cts p _

theorem free_count (cts : Contacts) (p : Nat) :
    Returns (cts.free p) fun cts' => cts'.count = cts.count :=
  .skip fun _ => .pure rfl

theorem personInsert_count (cts : Contacts) (index p : Nat) :
    Returns (personInsert cts index (some p)) fun r => r.2.count = cts.count := by
  have linkAfter_count (cts : Contacts) (prev : Option Nat) :
      Returns (linkAfter cts index prev p) fun cts' => cts'.count = cts.count := by
    cases prev with
    | none => exact .pure rfl
    | some prev => exact setNextIf_count cts (some prev) (some p)
  refine .ite ?_ (.skip fun found => ?_)
  · refine (setNextIf_count cts _ _).bind fun first same => ?_
    refine (setPreviousIf_count first _ _).bind fun second same' => .pure ?_
    exact same'.trans same
  · refine (setNextIf_count cts _ _).bind fun first same => ?_
    refine (setPreviousIf_count first _ _).bind fun second same₂ => ?_
    refine (linkAfter_count second _).bind fun third same₃ => ?_
    refine (setPreviousIf_count third _ _).bind fun last same₄ => .pure ?_
    exact same₄.trans (same₃.trans (same₂.trans same))

theorem listRemove_count (cts : Contacts) (item index : Nat) :
    Returns (listRemove cts item index) fun cts' => cts'.count = cts.count := by
  refine .skip fun _ => .skip fun _ => (setNextIf_count cts _ _).bind fun first same => ?_
  refine .skip fun _ => .skip fun _ => (setPreviousIf_count first _ _).bind fun second same' => ?_
  refine .skip fun person => ?_
  have kept : (if second.groups index = some item then second.setGroup index person.next
      else second).count = cts.count := by
    split <;> exact same'.trans same
  exact (modify_count _ item _).imp fun last same => same.trans kept

end Count

section Steps

variable {cts : Contacts} {lists : Nat → List Nat} {people : List (CStr × CStr)} {p : Nat}
  {person : Person}

theorem Holds.frame {cts' : Contacts} (holds : Holds cts lists people)
    (sameGroups : cts'.groups = cts.groups)
    (same : ∀ index, index < alphabetCount → ∀ node ∈ lists index,
      cts'.heap node = cts.heap node)
    (fresh : ∀ p, cts'.allocated ≤ p → cts'.heap p = none) : Holds cts' lists people := by
  refine ⟨holds.book.frame sameGroups same fresh, fun index bound => ?_⟩
  have sameEntries : (lists index).map cts'.entry = (lists index).map cts.entry := by
    refine List.map_congr_left fun node member => ?_
    rw [Contacts.entry, Contacts.entry, same index bound node member]
  rw [sameEntries]
  exact holds.entries index bound

theorem Holds.count (holds : Holds cts lists people) (count : Int) :
    Holds { cts with count := count } lists people :=
  holds.frame rfl (fun _ _ _ _ => rfl) holds.book.fresh

theorem Holds.malloc (holds : Holds cts lists people) (junk : Person) :
    Draft (cts.malloc (some junk)).1 lists people cts.allocated junk := by
  have outside : ∀ index, index < alphabetCount → cts.allocated ∉ lists index := by
    intro index bound member
    obtain ⟨person, live⟩ := (holds.book.group index bound).live member
    rw [holds.book.fresh cts.allocated (Nat.le_refl _)] at live
    cases live
  refine ⟨holds.frame rfl (fun index bound node member => ?_) fun q large => ?_, outside,
    Function.update_self .., Nat.lt_succ_self _⟩
  · have isOld : node ≠ cts.allocated := fun isNew => outside index bound (isNew ▸ member)
    exact Function.update_of_ne isOld ..
  · have large' : cts.allocated + 1 ≤ q := large
    have isOther : q ≠ cts.allocated := by omega
    exact (Function.update_of_ne isOther ..).trans (holds.book.fresh q (by omega))

/-- What is written to the draft does not touch the groups. -/
theorem Draft.put (draft : Draft cts lists people p person) (value : Option Person) :
    Holds { cts with heap := Function.update cts.heap p value } lists people := by
  refine draft.holds.frame rfl (fun index bound node member => ?_) fun q large => ?_
  · have isOther : node ≠ p := fun isP => draft.outside index bound (isP ▸ member)
    exact Function.update_of_ne isOther ..
  · have large' : cts.allocated ≤ q := large
    have small := draft.allocated
    have isOther : q ≠ p := by omega
    exact (Function.update_of_ne isOther ..).trans (draft.holds.book.fresh q large')

theorem Draft.modify (draft : Draft cts lists people p person) (change : Person → Person) :
    ∃ cts', cts.modify p change = .ok cts' ∧ Draft cts' lists people p (change person) :=
  ⟨_, modify_ok draft.live change, draft.put _, draft.outside, Function.update_self ..,
    draft.allocated⟩

theorem Draft.free (draft : Draft cts lists people p person) :
    ∃ cts', cts.free p = .ok cts' ∧ Holds cts' lists people := by
  refine ⟨_, ?_, draft.put none⟩
  unfold Contacts.free
  rw [deref_live draft.live]
  rfl

theorem ofGroup_cons (entry : CStr × CStr) (index : Nat) :
    ofGroup (entry :: people) index =
      if getNameIndex (some entry.1) = index then entry :: ofGroup people index
      else ofGroup people index := by
  by_cases letter : getNameIndex (some entry.1) = index
  · simp [ofGroup, letter]
  · simp [ofGroup, letter]

/-- `person_insert` takes the draft into its group. -/
theorem Draft.insert (draft : Draft cts lists people p person) {index : Nat}
    (bound : index < alphabetCount) (letter : getNameIndex (some person.name) = index) :
    ∃ cts' lists', personInsert cts index (some p) = .ok (0, cts') ∧
      Holds cts' lists' ((person.name, person.phoneNumber) :: people) := by
  have book := draft.holds.book
  have group := book.group index bound
  obtain ⟨low, high, split, below, above⟩ := sorted_cut group.sorted person.name
  have short := book.length_le bound
  rw [split] at group short
  obtain ⟨cts', ran, placed⟩ := personInsert_ok group draft.live below above short
  refine ⟨cts', _, ran, placed.book book bound split draft.outside draft.live letter below above,
    fun other otherBound => ?_⟩
  rw [placed.entry, ofGroup_cons]
  by_cases same : other = index
  · subst same
    have entries := draft.holds.entries other otherBound
    have isEntry : cts.entry p = some (person.name, person.phoneNumber) := by
      simp [Contacts.entry, draft.live]
    rw [split] at entries
    rw [Function.update_self, if_pos letter, List.map_cons, ← isEntry]
    exact (List.perm_middle.map cts.entry).trans (entries.cons _)
  · have notHere : getNameIndex (some person.name) ≠ other := by
      rw [letter]
      exact fun isOther => same (Int.ofNat.inj isOther).symm
    rw [Function.update_of_ne same, if_neg notHere]
    exact draft.holds.entries other otherBound

/-- A letter of the alphabet, as the code asks for it. -/
theorem index_cases (name : CStr) :
    (getNameIndex (some name) < 0 ∨ alphabetCount ≤ getNameIndex (some name)) ∨
      ∃ index, index < alphabetCount ∧ getNameIndex (some name) = (index : Nat) := by
  by_cases bad : getNameIndex (some name) < 0 ∨ alphabetCount ≤ getNameIndex (some name)
  · exact .inl bad
  · refine .inr ⟨(getNameIndex (some name)).toNat, ?_, ?_⟩
    · omega
    · omega

theorem hasLetter_of_index {name : CStr} {index : Nat} (bound : index < alphabetCount)
    (letter : getNameIndex (some name) = (index : Nat)) : HasLetter name := by
  unfold HasLetter
  omega

theorem good_index {index : Nat} (bound : index < alphabetCount) :
    ¬ ((index : Int) < 0 ∨ (alphabetCount : Int) ≤ index) := by
  omega

theorem insertEntry_ok (holds : Holds cts lists people) (fresh : Option Person)
    {name phone : List UInt8} (nameFits : name.length < nameLength)
    (phoneFits : phone.length < phoneNumberLength) :
    ∃ code cts' lists' people', insertEntry cts fresh name phone = .ok (code, cts') ∧
      Holds cts' lists' people' ∧
      (people' = if code = 0 then (CStr.upToNul name, CStr.upToNul phone) :: people
        else people) ∧
      (code = 0 → HasLetter (CStr.upToNul name)) ∧
      cts'.count = if code = 0 then cts.count + 1 else cts.count := by
  cases fresh with
  | none => exact ⟨-2, cts, lists, people, rfl, holds, rfl, nofun, rfl⟩
  | some junk =>
      have draft := holds.malloc junk
      obtain ⟨first, ran₁, draft₁⟩ := draft.modify fun person =>
        { person with name := CStr.upToNul name }
      obtain ⟨second, ran₂, draft₂⟩ := draft₁.modify fun person =>
        { person with phoneNumber := CStr.upToNul phone }
      have made : cts.malloc (some junk) = ((cts.malloc (some junk)).1, some cts.allocated) := rfl
      have counted : second.count = cts.count :=
        ((modify_count first _ _).of_ok second ran₂).trans
          ((modify_count (cts.malloc (some junk)).1 _ _).of_ok first ran₁)
      unfold insertEntry
      rw [made]
      dsimp only
      rw [storeText_ok nameFits, ok_bind, ran₁, ok_bind, storeText_ok phoneFits, ok_bind, ran₂,
        ok_bind, deref_live draft₂.live, ok_bind]
      rcases index_cases (CStr.upToNul name) with bad | ⟨index, bound, letter⟩
      · obtain ⟨third, freed, holds'⟩ := draft₂.free
        have same := ((free_count second _).of_ok third freed).trans counted
        rw [if_pos bad, freed]
        exact ⟨-3, third, lists, people, rfl, holds', rfl, nofun, same⟩
      · obtain ⟨third, lists', ran₃, holds'⟩ := draft₂.insert bound letter
        have same := ((personInsert_count second _ _).of_ok (0, third) ran₃).trans counted
        rw [letter, if_neg (good_index bound), Int.toNat_natCast, ran₃]
        exact ⟨0, _, lists', _, rfl, holds'.count (third.count + 1), rfl,
          fun _ => hasLetter_of_index bound letter, congrArg (· + 1) same⟩

/-- A person that is taken out of a group is a draft again. -/
theorem Holds.remove (holds : Holds cts lists people) {index : Nat}
    (bound : index < alphabetCount) (member : p ∈ lists index) (live : cts.heap p = some person) :
    ∃ cts' lists' people' person', listRemove cts p index = .ok cts' ∧
      Draft cts' lists' people' p person' ∧
      people.Perm ((person.name, person.phoneNumber) :: people') := by
  have book := holds.book
  obtain ⟨low, high, split⟩ := List.append_of_mem member
  have group := book.group index bound
  have entries := holds.entries index bound
  rw [split] at group entries
  obtain ⟨cts', ran, removed⟩ := listRemove_ok group
  have isEntry : cts.entry p = some (person.name, person.phoneNumber) := by
    simp [Contacts.entry, live]
  have shifted := (List.perm_middle.map cts.entry).symm.trans entries
  rw [List.map_cons, isEntry] at shifted
  have inGroup : (person.name, person.phoneNumber) ∈ ofGroup people index := by
    have inside := shifted.subset List.mem_cons_self
    simpa using inside
  obtain ⟨inPeople, letter⟩ := List.mem_filter.mp inGroup
  have arranged := List.perm_cons_erase inPeople
  obtain ⟨person', live'⟩ := (live_entry removed.entry).mpr ⟨person, live⟩
  refine ⟨cts', _, people.erase (person.name, person.phoneNumber), person', ran,
    ⟨⟨removed.book book bound split, fun other otherBound => ?_⟩, fun other otherBound => ?_,
      live', ?_⟩, arranged⟩
  · have parts := (arranged.filter fun entry => getNameIndex (some entry.1) = other).map some
    change ((ofGroup people other).map some).Perm ((ofGroup (_ :: _) other).map some) at parts
    rw [ofGroup_cons] at parts
    rw [removed.entry]
    by_cases same : other = index
    · subst same
      rw [if_pos (of_decide_eq_true letter)] at parts
      rw [Function.update_self]
      exact (shifted.trans parts).cons_inv
    · have notHere : getNameIndex (some person.name) ≠ other := by
        rw [of_decide_eq_true letter]
        exact fun isOther => same (Int.ofNat.inj isOther).symm
      rw [if_neg notHere] at parts
      rw [Function.update_of_ne same]
      exact (holds.entries other otherBound).trans parts
  · by_cases same : other = index
    · subst same
      rw [Function.update_self]
      exact (List.nodup_cons.mp (List.nodup_middle.mp group.doubly.nodup)).1
    · rw [Function.update_of_ne same]
      exact fun again => same (book.only otherBound bound again member)
  · rw [removed.allocated]
    by_contra large
    rw [book.fresh p (Nat.le_of_not_lt large)] at live
    cases live

theorem deleteEntry_ok (holds : Holds cts lists people) {name : List UInt8}
    (nameFits : name.length < nameLength) :
    ∃ code cts' lists' people', deleteEntry cts name = .ok (code, cts') ∧
      Holds cts' lists' people' ∧
      (if code = 0 then ∃ phone, people.Perm ((CStr.upToNul name, phone) :: people')
      else people' = people) ∧
      (code = 0 → HasLetter (CStr.upToNul name)) ∧
      cts'.count = if code = 0 then cts.count - 1 else cts.count := by
  unfold deleteEntry
  rw [storeText_ok nameFits, ok_bind]
  rcases index_cases (CStr.upToNul name) with bad | ⟨index, bound, letter⟩
  · rw [if_pos bad]
    exact ⟨-2, cts, lists, people, rfl, holds, rfl, nofun, rfl⟩
  · rw [letter, if_neg (good_index bound), Int.toNat_natCast, holds.book.search bound, ok_bind]
    cases found : (lists index).find? fun node => cts.nameOf node = CStr.upToNul name with
    | none => exact ⟨-2, cts, lists, people, rfl, holds, rfl, nofun, rfl⟩
    | some ps =>
        have member := List.mem_of_find?_eq_some found
        obtain ⟨person, live⟩ := (holds.book.group index bound).live member
        obtain ⟨cts', lists', people', person', ran, draft, arranged⟩ :=
          holds.remove bound member live
        obtain ⟨last, freed, holds'⟩ := draft.free
        have isName : person.name = CStr.upToNul name := by
          rw [← nameOf_live live]
          simpa using List.find?_some found
        simp only [personDelete]
        rw [ran, ok_bind, pure_bind, freed]
        rw [isName] at arranged
        have same := ((free_count cts' ps).of_ok last freed).trans
          ((listRemove_count cts ps index).of_ok cts' ran)
        exact ⟨0, _, lists', people', rfl, holds'.count (last.count - 1), ⟨_, arranged⟩,
          fun _ => hasLetter_of_index bound letter, congrArg (· - 1) same⟩

/-- One round of `load_file`. -/
theorem loadRecord_ok (holds : Holds cts lists people) (fresh : Nat → Option Person)
    {record : Nat} {bytes rest name phone : List UInt8} {junk : Person} (fuel : Nat)
    (count : Int) (read : scanf recordFormat bytes = ([name, phone], rest))
    (nameFits : name.length < nameLength) (phoneFits : phone.length < phoneNumberLength)
    (made : fresh record = some junk) :
    ∃ cts' lists' people' count',
      loadRecords fresh (fuel + 1) cts bytes record count =
        loadRecords fresh fuel cts' rest (record + 1) count' ∧ Holds cts' lists' people' ∧
      cts'.count = cts.count ∧
      (¬ HasLetter (CStr.upToNul name) ∧ people' = people ∧ count' = count ∨
        HasLetter (CStr.upToNul name) ∧
          people' = (CStr.upToNul name, CStr.upToNul phone) :: people ∧ count' = count + 1) := by
  have draft := holds.malloc junk
  obtain ⟨first, ran₁, draft₁⟩ := draft.modify fun _ =>
    ⟨strncpy (CStr.upToNul name) (nameLength - 1),
      strncpy (CStr.upToNul phone) (phoneNumberLength - 1), none, none⟩
  have got : cts.malloc (some junk) = ((cts.malloc (some junk)).1, some cts.allocated) := rfl
  have counted : first.count = cts.count :=
    (modify_count (cts.malloc (some junk)).1 _ _).of_ok first ran₁
  rw [loadRecords, read]
  dsimp only
  rw [storeText_ok nameFits, ok_bind, storeText_ok phoneFits, ok_bind, made, got]
  dsimp only
  rw [ran₁, ok_bind, deref_live draft₁.live, ok_bind]
  dsimp only
  rw [strncpy_upToNul nameFits, strncpy_upToNul phoneFits] at draft₁
  rw [strncpy_upToNul nameFits]
  rcases index_cases (CStr.upToNul name) with bad | ⟨index, bound, letter⟩
  · obtain ⟨second, freed, holds'⟩ := draft₁.free
    have notGood : ¬ (0 ≤ getNameIndex (some (CStr.upToNul name)) ∧
        getNameIndex (some (CStr.upToNul name)) < alphabetCount) := by
      omega
    have same := ((free_count first _).of_ok second freed).trans counted
    rw [if_neg notGood, freed, ok_bind]
    exact ⟨second, lists, people, count, rfl, holds', same, .inl ⟨notGood, rfl, rfl⟩⟩
  · obtain ⟨second, lists', ran₂, holds'⟩ := draft₁.insert bound letter
    have good : 0 ≤ (index : Int) ∧ (index : Int) < alphabetCount := by
      omega
    have same := ((personInsert_count first _ _).of_ok (0, second) ran₂).trans counted
    rw [letter, if_pos good, Int.toNat_natCast, ran₂, ok_bind]
    exact ⟨second, lists', _, count + 1, rfl, holds', same,
      .inr ⟨hasLetter_of_index bound letter, rfl, rfl⟩⟩

/-- What a round of `load_file` has done when the call returns: it was refused a person, or it
read one and the loop went on, or the file had no further record. -/
theorem loadRecords_cases (holds : Holds cts lists people) {fresh : Nat → Option Person}
    {fuel record : Nat} {bytes : List UInt8} {count code : Int} {cts' : Contacts}
    (ran : loadRecords fresh (fuel + 1) cts bytes record count = .ok (code, cts')) :
    (∃ name phone rest, scanf recordFormat bytes = ([name, phone], rest) ∧
      fresh record = none ∧ cts' = cts) ∨
    (∃ name phone rest junk next lists' people' count',
      scanf recordFormat bytes = ([name, phone], rest) ∧ fresh record = some junk ∧
      loadRecords fresh fuel next rest (record + 1) count' = .ok (code, cts') ∧
      Holds next lists' people' ∧ next.count = cts.count ∧
      (¬ HasLetter (CStr.upToNul name) ∧ people' = people ∧ count' = count ∨
        HasLetter (CStr.upToNul name) ∧
          people' = (CStr.upToNul name, CStr.upToNul phone) :: people ∧ count' = count + 1)) ∨
    (∀ name phone rest, scanf recordFormat bytes ≠ ([name, phone], rest)) ∧
      cts' = { cts with count := count } := by
  have once := ran
  rw [loadRecords] at once
  split at once
  · rename_i name phone rest read
    obtain ⟨str, stored, once⟩ := ok_of_bind once
    obtain ⟨str', stored', once⟩ := ok_of_bind once
    cases made : fresh record with
    | none =>
        rw [made] at once
        cases once
        exact .inl ⟨name, phone, rest, read, rfl, rfl⟩
    | some junk =>
        obtain ⟨next, lists', people', count', same, holds', kept, added⟩ :=
          loadRecord_ok holds fresh fuel count read (storeText_fits stored)
            (storeText_fits stored') made
        rw [same] at ran
        exact .inr (.inl ⟨name, phone, rest, junk, next, lists', people', count', read, rfl, ran,
          holds', kept, added⟩)
  · rename_i name rest read
    obtain ⟨str, stored, once⟩ := ok_of_bind once
    cases once
    refine .inr (.inr ⟨fun name' phone rest' two => ?_, rfl⟩)
    cases read.symm.trans two
  · rename_i notTwo notOne
    cases once
    exact .inr (.inr ⟨notTwo, rfl⟩)

theorem record_consumed {bytes rest name phone : List UInt8}
    (read : scanf recordFormat bytes = ([name, phone], rest)) : rest.length < bytes.length := by
  have front : recordFormat = .char 110 :: recordFormat.tail := rfl
  rw [front] at read
  have shorter := scanf_char_lt (by rw [read]; exact List.cons_ne_nil _ _)
  rwa [read] at shorter

/-- What the calls of `fscanf` read has room in the arrays. -/
def fileFits : Nat → List UInt8 → Bool
  | 0, _ => true
  | n + 1, bytes =>
      match scanf recordFormat bytes with
      | ([name, phone], rest) =>
          decide (name.length < nameLength) && decide (phone.length < phoneNumberLength) &&
            fileFits n rest
      | ([name], _) => decide (name.length < nameLength)
      | _ => true

theorem loadRecords_ok (holds : Holds cts lists people) (fresh : Nat → Option Person)
    {fuel : Nat} {bytes : List UInt8} (record : Nat) (count : Int)
    (fits : fileFits fuel bytes = true) (enough : bytes.length < fuel) :
    ∃ code cts' lists' people', loadRecords fresh fuel cts bytes record count = .ok (code, cts') ∧
      Holds cts' lists' people' := by
  induction fuel generalizing cts lists people record count bytes with
  | zero => omega
  | succ fuel ih =>
      rw [fileFits] at fits
      split at fits
      · rename_i name phone rest read
        simp only [Bool.and_eq_true, decide_eq_true_eq] at fits
        obtain ⟨⟨nameFits, phoneFits⟩, fits⟩ := fits
        cases made : fresh record with
        | none =>
            rw [loadRecords, read]
            dsimp only
            rw [storeText_ok nameFits, ok_bind, storeText_ok phoneFits, ok_bind, made]
            exact ⟨-2, cts, lists, people, rfl, holds⟩
        | some junk =>
            obtain ⟨cts', lists', people', count', ran, holds', -⟩ :=
              loadRecord_ok holds fresh fuel count read nameFits phoneFits made
            have consumed := record_consumed read
            rw [ran]
            exact ih holds' _ _ fits (by omega)
      · rename_i name rest read
        rw [loadRecords, read]
        dsimp only
        rw [storeText_ok (of_decide_eq_true fits)]
        exact ⟨0, _, lists, people, rfl, holds.count count⟩
      · rename_i notTwo notOne
        rw [loadRecords]
        split
        · rename_i name phone rest read
          exact absurd read (notTwo name phone rest)
        · rename_i name rest read
          exact absurd read (notOne name rest)
        · exact ⟨0, _, lists, people, rfl, holds.count count⟩

end Steps

end LinuxCpp.AddressBook
