import LinuxCpp.AddressBook.Grouped

set_option autoImplicit false

/- A book that is saved and loaded again. -/
namespace LinuxCpp.AddressBook

open C Linked Trace

/-- A text that `%s` reads into an array of this size. -/
def IsWord (size : Nat) (text : List UInt8) : Prop :=
  text ≠ [] ∧ text.length < size ∧ (0 : UInt8) ∉ text ∧ ∀ b ∈ text, isSpace b = false

theorem word_ok {size : Nat} {text : List UInt8} (nonempty : text ≠ [])
    (fits : text.length < size)
    (solid : (text.all fun b => decide (b ≠ 0) && !isSpace b) = true) : IsWord size text := by
  have each : ∀ b ∈ text, b ≠ 0 ∧ isSpace b = false := by
    simpa only [List.all_eq_true, Bool.and_eq_true, decide_eq_true_eq, Bool.not_eq_true']
      using solid
  exact ⟨nonempty, fits, fun nul => (each 0 nul).1 rfl, fun b member => (each b member).2⟩

def Plain (entry : CStr × CStr) : Prop :=
  IsWord nameLength entry.1.bytes ∧ IsWord phoneNumberLength entry.2.bytes

def Op.Words : Op → Prop
  | .insert _ name phone => IsWord nameLength name ∧ IsWord phoneNumberLength phone
  | .delete name => IsWord nameLength name
  | .load _ _ => False

/-- In each group the same persons, as often. -/
def SamePeople (cts loaded : Contacts) : Prop :=
  ∀ index, index < alphabetCount → ∃ nodes nodes',
    Chain cts.next (cts.groups index) nodes ∧ Chain loaded.next (loaded.groups index) nodes' ∧
      (nodes.map cts.entry).Perm (nodes'.map loaded.entry)

/-- The file of the book gives the book again. -/
def RoundTrips (cts : Contacts) (fresh : Nat → Option Person) : Prop :=
  ∃ bytes loaded, saveFile cts true = .ok (0, some bytes) ∧
    loadFile emptyContacts (some bytes) fresh = .ok (0, loaded) ∧ SamePeople cts loaded

section Records

variable {cts : Contacts} {lists : Nat → List Nat} {people : List (CStr × CStr)}
  {entry : CStr × CStr} {rest : List UInt8}

def entryText (entry : CStr × CStr) : List UInt8 :=
  charBytes ['n', 'a', 'm', 'e', ':'] ++ ([32] ++ (entry.1.bytes ++ 44 :: ([32] ++
    (charBytes ['p', 'h', 'o', 'n', 'e', ':'] ++ ([32] ++ (entry.2.bytes ++ [10]))))))

theorem recordText_eq (person : Person) :
    recordText person = entryText (person.name, person.phoneNumber) := by
  simp [recordText, entryText, charBytes]

theorem word_head {size : Nat} {text : List UInt8} (word : IsWord size text) (b : UInt8)
    (first : (text ++ rest).head? = some b) : isSpace b = false := by
  obtain ⟨nonempty, -, -, solid⟩ := word
  cases text with
  | nil => exact absurd rfl nonempty
  | cons c text => exact solid b (Option.some.inj first ▸ List.mem_cons_self)

/-- `fscanf` reads one record as `fprintf` wrote it. -/
theorem record_read (plain : Plain entry) (noComma : (44 : UInt8) ∉ entry.1.bytes)
    (solid : ∀ b, rest.head? = some b → isSpace b = false) :
    scanf recordFormat (entryText entry ++ rest) = ([entry.1.bytes, entry.2.bytes], rest) := by
  obtain ⟨name, phone⟩ := plain
  have blank : ∀ b ∈ [(32 : UInt8)], isSpace b = true :=
    List.forall_mem_singleton.mpr rfl
  have newline : ∀ b ∈ [(10 : UInt8)], isSpace b = true :=
    List.forall_mem_singleton.mpr rfl
  have split : entryText entry ++ rest = charBytes ['n', 'a', 'm', 'e', ':'] ++ ([32] ++
      (entry.1.bytes ++ 44 :: ([32] ++ (charBytes ['p', 'h', 'o', 'n', 'e', ':'] ++ ([32] ++
        (entry.2.bytes ++ 10 :: rest)))))) := by
    simp [entryText]
  have format : recordFormat = literal ['n', 'a', 'm', 'e', ':'] ++ .space :: .notIn 44 ::
      .char 44 :: .space :: (literal ['p', 'h', 'o', 'n', 'e', ':'] ++ [.space, .word, .space]) :=
    rfl
  have ending : scanf [.space] (10 :: rest) = ([], rest) := scanf_space newline solid
  have number : scanf [.space, .word, .space] ([32] ++ (entry.2.bytes ++ 10 :: rest)) =
      ([entry.2.bytes], rest) := by
    rw [scanf_space blank (word_head phone), scanf_word phone.1 phone.2.2.2 rfl, ending]
  have behind : scanf (.char 44 :: .space ::
      (literal ['p', 'h', 'o', 'n', 'e', ':'] ++ [.space, .word, .space])) (44 :: ([32] ++
        (charBytes ['p', 'h', 'o', 'n', 'e', ':'] ++ ([32] ++ (entry.2.bytes ++ 10 :: rest))))) =
      ([entry.2.bytes], rest) := by
    rw [scanf, if_pos rfl, scanf_space blank (by rintro b ⟨⟩; rfl), scanf_literal, number]
  rw [split, format, scanf_literal, scanf_space blank (word_head name),
    scanf_notIn name.1 noComma, behind]

/-- The name of a record is what stands in front of a comma. -/
theorem record_name {bytes name phone : List UInt8}
    (read : scanf recordFormat bytes = ([name, phone], rest)) : (44 : UInt8) ∉ name := by
  have format : recordFormat = literal ['n', 'a', 'm', 'e', ':'] ++ .space :: .notIn 44 ::
      recordFormat.drop 7 := rfl
  rw [format] at read
  obtain ⟨behind, rfl⟩ := scanf_literal_made (by rw [read]; exact List.cons_ne_nil _ _)
  rw [scanf_literal, scanf] at read
  exact scanf_notIn_free (congrArg Prod.fst read)

end Records

section Saving

variable {cts : Contacts} {lists : Nat → List Nat} {people : List (CStr × CStr)}

theorem saveGroup_ok {nodes : List Nat} {fuel : Nat} (chain : Chain cts.next nodes.head? nodes)
    (enough : nodes.length < fuel) :
    saveGroup cts fuel nodes.head? = .ok ((nodes.filterMap cts.entry).flatMap entryText) := by
  induction nodes generalizing fuel with
  | nil =>
      obtain ⟨fuel, rfl⟩ := Nat.exists_eq_succ_of_ne_zero (Nat.ne_of_gt enough)
      rfl
  | cons node rest ih =>
      obtain ⟨fuel, rfl⟩ := Nat.exists_eq_succ_of_ne_zero (Nat.ne_of_gt (Nat.zero_lt_of_lt enough))
      obtain ⟨-, next, linked, tail⟩ := chain
      obtain ⟨person, live, rfl⟩ := live_next linked
      have start := Chain.head tail
      have isEntry : cts.entry node = some (person.name, person.phoneNumber) := by
        simp [Contacts.entry, live]
      rw [List.length_cons] at enough
      simp only [List.head?_cons, saveGroup]
      rw [deref_live live, ok_bind, start, ih (start ▸ tail) (Nat.lt_of_succ_lt_succ enough),
        ok_bind, List.filterMap_cons_some isEntry, List.flatMap_cons, recordText_eq]
      rfl

theorem ofGroup_append (first second : List (CStr × CStr)) (index : Nat) :
    ofGroup (first ++ second) index = ofGroup first index ++ ofGroup second index :=
  List.filter_append ..

/-- A group of the book in the order of its list. -/
theorem Holds.group_perm (holds : Holds cts lists people) {index : Nat}
    (bound : index < alphabetCount) :
    ((lists index).filterMap cts.entry).Perm (ofGroup people index) := by
  have entries := (holds.entries index bound).filterMap id
  rwa [List.filterMap_map, List.filterMap_map, Function.id_comp, Function.id_comp,
    List.filterMap_some] at entries

theorem ofGroup_ofGroup (people : List (CStr × CStr)) (i index : Nat) :
    ofGroup (ofGroup people i) index = if index = i then ofGroup people i else [] := by
  by_cases same : index = i
  · subst same
    rw [if_pos rfl, ofGroup, ofGroup, List.filter_filter]
    simp
  · rw [if_neg same]
    refine List.filter_eq_nil_iff.mpr fun entry member => ?_
    have letter := of_decide_eq_true (List.mem_filter.mp member).2
    rw [letter]
    exact fun isIndex => same (Int.ofNat.inj (of_decide_eq_true isIndex)).symm

/-- The file has the people of each group. -/
theorem saveGroups_ok (holds : Holds cts lists people) {n i : Nat}
    (inside : i + n ≤ alphabetCount) :
    ∃ saved, saveGroups cts n i = .ok (saved.flatMap entryText) ∧
      (∀ entry ∈ saved, ∃ index, index < alphabetCount ∧ entry ∈ ofGroup people index) ∧
      ∀ index, (ofGroup saved index).Perm
        (if i ≤ index ∧ index < i + n then ofGroup people index else []) := by
  induction n generalizing i with
  | zero =>
      refine ⟨[], rfl, by simp, fun index => ?_⟩
      rw [if_neg (by omega)]
      exact .nil
  | succ n ih =>
      have bound : i < alphabetCount := by omega
      have group := holds.book.group i bound
      obtain ⟨saved, ran, known, perm⟩ := ih (by omega : i + 1 + n ≤ alphabetCount)
      refine ⟨(lists i).filterMap cts.entry ++ saved, ?_, fun entry member => ?_,
        fun index => ?_⟩
      · rw [saveGroups, group.head, saveGroup_ok group.doubly.forward
          (Nat.lt_succ_of_le (holds.book.length_le bound)), ok_bind, ran, ok_bind,
          List.flatMap_append]
        rfl
      · rcases List.mem_append.mp member with here | later
        · exact ⟨i, bound, (holds.group_perm bound).subset here⟩
        · exact known entry later
      · have first := (holds.group_perm bound).filter
          fun entry => decide (getNameIndex (some entry.1) = index)
        change (ofGroup _ index).Perm (ofGroup (ofGroup people i) index) at first
        rw [ofGroup_ofGroup] at first
        have both := first.append (perm index)
        rw [← ofGroup_append] at both
        refine both.trans (.of_eq ?_)
        rcases Nat.lt_trichotomy index i with before | rfl | later
        · rw [if_neg (by omega), if_neg (by omega), if_neg (by omega)]
          rfl
        · rw [if_pos rfl, if_neg (by omega), if_pos (by omega), List.append_nil]
        · rw [if_neg (by omega), List.nil_append]
          by_cases small : index < i + (n + 1)
          · rw [if_pos (by omega), if_pos (by omega)]
          · rw [if_neg (by omega), if_neg (by omega)]

end Saving

section Loading

variable {cts : Contacts} {lists : Nat → List Nat} {people saved : List (CStr × CStr)}
  {bytes : List UInt8} {code : Int}

theorem flatMap_solid (saved : List (CStr × CStr)) (b : UInt8)
    (first : (saved.flatMap entryText).head? = some b) : isSpace b = false := by
  cases saved with
  | nil => cases first
  | cons entry rest =>
      cases first
      rfl

theorem length_le_flatMap (saved : List (CStr × CStr)) :
    saved.length ≤ (saved.flatMap entryText).length := by
  induction saved with
  | nil => exact Nat.le_refl _
  | cons entry rest ih =>
      have positive : 0 < (entryText entry).length := by simp [entryText, charBytes]
      rw [List.flatMap_cons, List.length_append, List.length_cons]
      omega

/-- Without commas in the names every record comes back. -/
theorem loadRecords_saved (holds : Holds cts lists people)
    (good : ∀ entry ∈ saved, Plain entry ∧ (44 : UInt8) ∉ entry.1.bytes ∧
      ∃ index, index < alphabetCount ∧ getNameIndex (some entry.1) = (index : Nat))
    {fuel : Nat} (enough : saved.length < fuel) (junk : Nat → Person) (record : Nat)
    (count : Int) : ∃ cts' lists',
      loadRecords (fun n => some (junk n)) fuel cts (saved.flatMap entryText) record count =
        .ok (0, cts') ∧ Holds cts' lists' (saved.reverse ++ people) := by
  induction saved generalizing cts lists people fuel record count with
  | nil =>
      obtain ⟨fuel, rfl⟩ := Nat.exists_eq_succ_of_ne_zero (Nat.ne_of_gt enough)
      exact ⟨_, lists, rfl, holds.count count⟩
  | cons entry rest ih =>
      obtain ⟨fuel, rfl⟩ := Nat.exists_eq_succ_of_ne_zero (Nat.ne_of_gt (Nat.zero_lt_of_lt enough))
      obtain ⟨⟨plain, noComma, index, bound, letter⟩, goodRest⟩ := List.forall_mem_cons.mp good
      have read := record_read plain noComma (flatMap_solid rest)
      obtain ⟨cts', lists', people', count', ran, holds', -, added⟩ :=
        loadRecord_ok holds (fun n => some (junk n)) fuel count read plain.1.2.1 plain.2.2.1 rfl
      rw [CStr.upToNul_self, CStr.upToNul_self] at added
      obtain ⟨bad, -⟩ | ⟨-, rfl, -⟩ := added
      · exact absurd (hasLetter_of_index bound letter) bad
      · rw [List.length_cons] at enough
        obtain ⟨last, lists'', run, holds''⟩ :=
          ih holds' goodRest (Nat.lt_of_succ_lt_succ enough) (record + 1) count'
        refine ⟨last, lists'', ?_, ?_⟩
        · rw [List.flatMap_cons, ran, run]
        · rwa [List.reverse_cons, List.append_assoc]

/-- What was loaded has no comma in a name. -/
theorem loadRecords_names (holds : Holds cts lists people)
    (noComma : ∀ entry ∈ people, (44 : UInt8) ∉ entry.1.bytes) {fresh : Nat → Option Person}
    {fuel record : Nat} {count : Int} {cts' : Contacts}
    (ran : loadRecords fresh fuel cts bytes record count = .ok (code, cts')) :
    ∃ lists' people', Holds cts' lists' people' ∧
      ∀ entry ∈ people', (44 : UInt8) ∉ entry.1.bytes := by
  induction fuel generalizing cts lists people bytes record count with
  | zero => cases ran
  | succ fuel ih =>
      rcases loadRecords_cases holds ran with ⟨-, -, -, -, -, rfl⟩ |
        ⟨name, phone, rest, junk, next, lists', people', count', read, -, ran, holds', -, added⟩ |
        ⟨-, rfl⟩
      · exact ⟨lists, people, holds, noComma⟩
      · refine ih holds' ?_ ran
        obtain ⟨-, rfl, -⟩ | ⟨-, rfl, -⟩ := added
        · exact noComma
        · refine List.forall_mem_cons.mpr ⟨fun member => ?_, noComma⟩
          exact record_name read ((List.takeWhile_sublist _).subset member)
      · exact ⟨lists, people, holds.count count, noComma⟩

end Loading

section Runs

variable {cts : Contacts} {lists : Nat → List Nat} {people : List (CStr × CStr)}

theorem upToNul_word {size : Nat} {text : List UInt8} (word : IsWord size text) :
    IsWord size (CStr.upToNul text).bytes := by
  rwa [CStr.upToNul_bytes word.2.2.1]

theorem Op.exec_plain (holds : Holds cts lists people) (plain : ∀ entry ∈ people, Plain entry)
    {op : Op} (words : op.Words) :
    ∃ cts' lists' people', op.exec cts = .ok cts' ∧ Holds cts' lists' people' ∧
      ∀ entry ∈ people', Plain entry := by
  cases op with
  | insert fresh name phone =>
      obtain ⟨code, cts', lists', people', ran, holds', same, -⟩ :=
        insertEntry_ok holds fresh words.1.2.1 words.2.2.1
      refine ⟨cts', lists', people', ?_, holds', ?_⟩
      · rw [Op.exec, ran]
        rfl
      · rw [same]
        split
        · refine List.forall_mem_cons.mpr ⟨?_, plain⟩
          exact ⟨upToNul_word words.1, upToNul_word words.2⟩
        · exact plain
  | delete name =>
      obtain ⟨code, cts', lists', people', ran, holds', change, -⟩ :=
        deleteEntry_ok holds words.2.1
      refine ⟨cts', lists', people', ?_, holds', fun entry member => ?_⟩
      · rw [Op.exec, ran]
        rfl
      · split at change
        · obtain ⟨phone, arranged⟩ := change
          exact plain entry (arranged.symm.subset (List.mem_cons_of_mem _ member))
        · exact plain entry (change ▸ member)
  | load file fresh => exact words.elim

theorem runs_plain (holds : Holds cts lists people) (plain : ∀ entry ∈ people, Plain entry)
    {ops : List Op} (words : ∀ op ∈ ops, op.Words) :
    ∃ cts' lists' people', runs Op.exec cts ops = .ok cts' ∧ Holds cts' lists' people' ∧
      ∀ entry ∈ people', Plain entry := by
  induction ops generalizing cts lists people with
  | nil => exact ⟨cts, lists, people, rfl, holds, plain⟩
  | cons op rest ih =>
      obtain ⟨wordsFirst, wordsRest⟩ := List.forall_mem_cons.mp words
      obtain ⟨cts', lists', people', ran, holds', plain'⟩ := Op.exec_plain holds plain wordsFirst
      rw [runs_cons ran]
      exact ih holds' plain' wordsRest

/-- A person of the abstract book stands in its group. -/
theorem Holds.inGroup (holds : Holds cts lists people) {index : Nat}
    (bound : index < alphabetCount) {entry : CStr × CStr} (member : entry ∈ ofGroup people index) :
    ∃ p, InGroup cts entry.1 p := by
  obtain ⟨p, inList, isEntry⟩ :=
    List.mem_filterMap.mp ((holds.group_perm bound).symm.subset member)
  refine ⟨p, holds.book.inGroup_iff.mpr ⟨index, bound, inList, ?_⟩⟩
  simp [Contacts.nameOf, isEntry]

/-- Two books of the same people. -/
theorem Holds.samePeople (holds : Holds cts lists people) {loaded : Contacts}
    {lists' : Nat → List Nat} {people' : List (CStr × CStr)}
    (holds' : Holds loaded lists' people')
    (same : ∀ index, index < alphabetCount →
      (ofGroup people index).Perm (ofGroup people' index)) : SamePeople cts loaded := by
  intro index bound
  have group := (holds.book.group index bound).wellGrouped
  have group' := (holds'.book.group index bound).wellGrouped
  refine ⟨lists index, lists' index, group.chain, group'.chain, ?_⟩
  exact (holds.entries index bound).trans
    (((same index bound).map some).trans (holds'.entries index bound).symm)

theorem roundTrips_iff (holds : Holds cts lists people) (plain : ∀ entry ∈ people, Plain entry)
    (junk : Nat → Person) : RoundTrips cts (fun n => some (junk n)) ↔
      ∀ name p, InGroup cts name p → (44 : UInt8) ∉ name.bytes := by
  constructor
  · rintro ⟨bytes, loaded, -, ran, same⟩ name p inGroup
    obtain ⟨index, bound, member, isName⟩ := holds.book.inGroup_iff.mp inGroup
    obtain ⟨lists', people', holds', noComma⟩ :=
      loadRecords_names empty_holds (fun _ nobody => absurd nobody List.not_mem_nil) ran
    obtain ⟨nodes, nodes', chain, chain', perm⟩ := same index bound
    rw [chain.unique (holds.book.group index bound).wellGrouped.chain,
      chain'.unique (holds'.book.group index bound).wellGrouped.chain] at perm
    have known := perm.trans (holds'.entries index bound)
    obtain ⟨entry, inGroup', isEntry⟩ :=
      List.mem_map.mp (known.subset (List.mem_map_of_mem member))
    have sameName : entry.1 = name := by
      simpa [Contacts.nameOf, ← isEntry] using isName
    rw [← sameName]
    exact noComma entry (List.mem_filter.mp inGroup').1
  · intro noComma
    obtain ⟨saved, wrote, known, perm⟩ :=
      saveGroups_ok holds (Nat.le_of_eq (Nat.zero_add alphabetCount))
    have good : ∀ entry ∈ saved, Plain entry ∧ (44 : UInt8) ∉ entry.1.bytes ∧
        ∃ index, index < alphabetCount ∧ getNameIndex (some entry.1) = (index : Nat) := by
      intro entry member
      obtain ⟨index, bound, inGroup⟩ := known entry member
      obtain ⟨inPeople, letter⟩ := List.mem_filter.mp inGroup
      obtain ⟨p, isPerson⟩ := holds.inGroup bound inGroup
      exact ⟨plain entry inPeople, noComma entry.1 p isPerson, index, bound,
        of_decide_eq_true letter⟩
    obtain ⟨loaded, lists', ran, holds'⟩ := loadRecords_saved empty_holds good
      (Nat.lt_succ_of_le (length_le_flatMap saved)) junk 0 0
    rw [List.append_nil] at holds'
    refine ⟨saved.flatMap entryText, loaded, ?_, ran, holds.samePeople holds' fun index bound => ?_⟩
    · rw [saveFile, if_neg (by decide), wrote]
      rfl
    · have parts := perm index
      rw [if_pos (by omega)] at parts
      exact parts.symm.trans ((List.reverse_perm saved).symm.filter _)

end Runs

/-- The file gives the book again if and only if no name has a comma. -/
theorem addressBook_roundTrips_iff (ops : List Op) (words : ∀ op ∈ ops, op.Words)
    (junk : Nat → Person) : ∃ cts, runs Op.exec emptyContacts ops = .ok cts ∧
      (RoundTrips cts (fun n => some (junk n)) ↔
        ∀ name p, InGroup cts name p → (44 : UInt8) ∉ name.bytes) := by
  obtain ⟨cts, lists, people, ran, holds, plain⟩ :=
    runs_plain empty_holds (fun _ nobody => absurd nobody List.not_mem_nil) words
  exact ⟨cts, ran, roundTrips_iff holds plain junk⟩

/-- Two persons of one name, two others, and one of these is deleted again. -/
def fourPersons : List Op :=
  [.insert (some junkPerson) (charBytes ['A', 'n', 'n']) (charBytes ['2']),
    .insert (some junkPerson) (charBytes ['b', 'o', 'b']) (charBytes ['3', '4']),
    .insert (some junkPerson) (charBytes ['A', 'm', 'y']) (charBytes ['5']),
    .insert (some junkPerson) (charBytes ['A', 'n', 'n']) (charBytes ['6']),
    .delete (charBytes ['A', 'm', 'y'])]

theorem addressBook_roundTrips_fourPersons :
    ∃ cts, runs Op.exec emptyContacts fourPersons = .ok cts ∧
      RoundTrips cts fun _ => some junkPerson := by
  have words : ∀ op ∈ fourPersons, op.Words := by
    simp only [fourPersons, List.forall_mem_cons, List.not_mem_nil, false_imp_iff, implies_true,
      and_true, Op.Words]
    refine ⟨⟨?_, ?_⟩, ⟨?_, ?_⟩, ⟨?_, ?_⟩, ⟨?_, ?_⟩, ?_⟩ <;>
      exact word_ok (by decide) (by decide) (by decide)
  obtain ⟨cts, ran, roundTrips⟩ := addressBook_roundTrips_iff fourPersons words fun _ => junkPerson
  refine ⟨cts, ran, roundTrips.mpr ?_⟩
  rintro name p ⟨-, -, -, -, -, rfl⟩
  have concrete : runs Op.exec emptyContacts fourPersons = .ok _ := rfl
  cases concrete.symm.trans ran
  match p with
  | 0 => decide
  | 1 => decide
  | 2 => decide
  | 3 => decide
  | _ + 4 => exact List.not_mem_nil

/-- The only person of the book has a comma in its name and is not in the file's book. -/
theorem addressBook_comma_lost :
    (∀ op ∈ [Op.insert (some junkPerson) (charBytes ['a', ',', 'b']) (charBytes ['1'])],
      op.Words) ∧
    ∃ cts, runs Op.exec emptyContacts
        [.insert (some junkPerson) (charBytes ['a', ',', 'b']) (charBytes ['1'])] = .ok cts ∧
      ¬ RoundTrips cts fun _ => some junkPerson := by
  refine ⟨?_, _, rfl, ?_⟩
  · simp only [List.forall_mem_cons, List.not_mem_nil, false_imp_iff, implies_true, and_true,
      Op.Words]
    exact ⟨word_ok (by decide) (by decide) (by decide),
      word_ok (by decide) (by decide) (by decide)⟩
  · rintro ⟨bytes, loaded, saved, back, same⟩
    cases saved
    cases back
    obtain ⟨nodes, nodes', chain, chain', perm⟩ := same 0 (by decide)
    have nobody : nodes' = [] := Chain.unique chain' (segment_nil.mpr rfl)
    subst nobody
    rw [List.map_eq_nil_iff.mp perm.eq_nil] at chain
    cases chain

end LinuxCpp.AddressBook
