import LinuxCpp.AddressBook.Contacts
import LinuxCpp.Linked.Segment
import LinuxCpp.Trace.Along

set_option autoImplicit false

/- The address book of Contacts.c, with one list. `LIST_INSERT` leaves no pointer back to
the new head, and `LIST_REMOVE` relies on one. -/
namespace LinuxCpp.AddressBook.Flat

open C Linked Trace

/-- `struct contacts` with the memory of its persons. `allocated` counts the persons that
`malloc` has given. -/
structure Contacts where
  people : Option Nat
  count : Int
  heap : Nat → Option Person
  allocated : Nat

/-- The book after the `memset` of `main`. -/
def emptyContacts : Contacts := ⟨none, 0, fun _ => none, 0⟩

namespace Contacts

def deref (cts : Contacts) (p : Nat) : Except Fault Person :=
  match cts.heap p with
  | none => .error .useAfterFree
  | some person => .ok person

/-- Writes to fields of `*p`. -/
def modify (cts : Contacts) (p : Nat) (change : Person → Person) : Except Fault Contacts := do
  let person ← cts.deref p
  return { cts with heap := Function.update cts.heap p (some (change person)) }

/-- `if (p) p->next = value;` -/
def setNextIf (cts : Contacts) (p value : Option Nat) : Except Fault Contacts :=
  match p with
  | none => .ok cts
  | some p => cts.modify p fun person => { person with next := value }

/-- `if (p) p->previous = value;` -/
def setPreviousIf (cts : Contacts) (p value : Option Nat) : Except Fault Contacts :=
  match p with
  | none => .ok cts
  | some p => cts.modify p fun person => { person with previous := value }

/-- `malloc`, that returns NULL, or a block that is not in use with what stands in it. -/
def malloc (cts : Contacts) : Option (Nat × Person) → Contacts × Option Nat
  | none => (cts, none)
  | some (p, junk) =>
      if cts.heap p = none then
        ({ cts with
            heap := Function.update cts.heap p (some junk)
            allocated := cts.allocated + 1 }, some p)
      else (cts, none)

def free (cts : Contacts) (p : Nat) : Except Fault Contacts := do
  let _ ← cts.deref p
  return { cts with heap := Function.update cts.heap p none }

end Contacts

/-- `LIST_INSERT(item, *ppeople)` -/
def listInsert (cts : Contacts) (item : Nat) : Except Fault Contacts := do
  let cts ← cts.setPreviousIf (some item) none
  let cts ← cts.setNextIf (some item) cts.people
  return { cts with people := some item }

/-- `LIST_REMOVE(item, *ppeople)` -/
def listRemove (cts : Contacts) (item : Nat) : Except Fault Contacts := do
  let cts ← cts.setNextIf (← cts.deref item).previous (← cts.deref item).next
  let cts ← cts.setPreviousIf (← cts.deref item).next (← cts.deref item).previous
  let next := (← cts.deref item).next
  let cts := if cts.people = some item then { cts with people := next } else cts
  cts.modify item fun person => { person with next := none, previous := none }

def personInsert (cts : Contacts) (person : Option Nat) : Except Fault (Int × Contacts) :=
  match person with
  | none => .ok (-1, cts)
  | some p => do return (0, ← listInsert cts p)

def personDelete (cts : Contacts) (person : Option Nat) : Except Fault (Int × Contacts) :=
  match person with
  | none => .ok (-1, cts)
  | some p => do return (0, ← listRemove cts p)

def personSearch (cts : Contacts) (name : CStr) : Nat → Option Nat → Except Fault (Option Nat)
  | 0, _ => .error .fuel
  | _ + 1, none => .ok none
  | fuel + 1, some item => do
      if strcmp (← cts.deref item).name name = 0 then return some item
      else personSearch cts name fuel (← cts.deref item).next

/-- `name` and `phone` are what the two `scanf` read. -/
def insertEntry (cts : Contacts) (fresh : Option (Nat × Person)) (name phone : List UInt8) :
    Except Fault (Int × Contacts) := do
  match cts.malloc fresh with
  | (cts, none) => return (-2, cts)
  | (cts, some p) =>
      let name ← storeText nameLength name
      let cts ← cts.modify p fun person => { person with name := name }
      let phone ← storeText phoneNumberLength phone
      let cts ← cts.modify p fun person => { person with phoneNumber := phone }
      let (code, cts) ← personInsert cts (some p)
      if code ≠ 0 then return (-3, ← cts.free p)
      else return (0, { cts with count := cts.count + 1 })

def deleteEntry (cts : Contacts) (name : List UInt8) : Except Fault (Int × Contacts) := do
  let name ← storeText nameLength name
  match ← personSearch cts name (cts.allocated + 1) cts.people with
  | none => return (-2, cts)
  | some ps =>
      let (_, cts) ← personDelete cts (some ps)
      return (0, ← cts.free ps)

inductive Op where
  | insert (fresh : Option (Nat × Person)) (name phone : List UInt8)
  | delete (name : List UInt8)

def Op.exec (cts : Contacts) : Op → Except Fault Contacts
  | .insert fresh name phone => do return (← insertEntry cts fresh name phone).2
  | .delete name => do return (← deleteEntry cts name).2

namespace Contacts

/-- The `next` pointers of the persons in memory. -/
def next (cts : Contacts) (p : Nat) : Option (Option Nat) := (cts.heap p).map Person.next

def nameOf (cts : Contacts) (p : Nat) : Option CStr := (cts.heap p).map Person.name

/-- The name and the number of a person. -/
def entry (cts : Contacts) (p : Nat) : Option (CStr × CStr) :=
  (cts.heap p).map fun person => (person.name, person.phoneNumber)

/-- The persons from `cts->people` on, none of them freed. -/
abbrev Reaches (cts : Contacts) (nodes : List Nat) : Prop := Chain cts.next cts.people nodes

end Contacts

/-- A successful `delete_entry` takes the first person of the name out of the list, and leaves
the others as they are. -/
def DeletesFirst (cts : Contacts) : Op → Prop
  | .insert _ _ _ => True
  | .delete name => ∀ cts', deleteEntry cts name = .ok (0, cts') →
      ∃ low p high, cts.Reaches (low ++ p :: high) ∧
        cts.nameOf p = some (CStr.upToNul name) ∧
        (∀ q ∈ low, cts.nameOf q ≠ some (CStr.upToNul name)) ∧
        cts'.Reaches (low ++ high) ∧ ∀ q ∈ low ++ high, cts'.entry q = cts.entry q

/-- A name that somebody behind the head has is the name of the head, too. -/
def AtHead (cts : Contacts) : Op → Prop
  | .insert _ _ _ => True
  | .delete name => ∀ head rest, cts.Reaches (head :: rest) →
      (∃ q ∈ rest, cts.nameOf q = some (CStr.upToNul name)) →
      cts.nameOf head = some (CStr.upToNul name)

/-- The persons of the list. No pointer leads back. -/
structure Listed (cts : Contacts) (nodes : List Nat) : Prop where
  reaches : cts.Reaches nodes
  first : ∀ p ∈ nodes, ∃ person, cts.heap p = some person ∧ person.previous = none
  bounded : nodes.length ≤ cts.allocated

section Lists

variable {cts cts' : Contacts} {nodes low high : List Nat} {p : Nat} {person : Person}

theorem deref_live (live : cts.heap p = some person) : cts.deref p = .ok person := by
  unfold Contacts.deref
  rw [live]

theorem modify_ok (live : cts.heap p = some person) (change : Person → Person) :
    cts.modify p change =
      .ok { cts with heap := Function.update cts.heap p (some (change person)) } := by
  unfold Contacts.modify
  rw [deref_live live]
  rfl

theorem modify_same (live : cts.heap p = some person) {change : Person → Person}
    (same : change person = person) : cts.modify p change = .ok cts := by
  rw [modify_ok live, same, ← live, Function.update_eq_self]

/-- Without a pointer back only the head is taken out of the list. -/
theorem listRemove_ok (live : cts.heap p = some person) (noPrevious : person.previous = none)
    (successor : ∀ after, person.next = some after →
      ∃ w, cts.heap after = some w ∧ w.previous = none) :
    listRemove cts p = .ok { cts with
      people := if cts.people = some p then person.next else cts.people
      heap := Function.update cts.heap p
        (some { person with next := none, previous := none }) } := by
  have unlinked : cts.setPreviousIf person.next none = .ok cts := by
    cases next : person.next with
    | none => rfl
    | some after =>
        obtain ⟨w, liveAfter, wFirst⟩ := successor after next
        refine modify_same liveAfter ?_
        rw [← wFirst]
  unfold listRemove
  rw [deref_live live, ok_bind, ok_bind, noPrevious, Contacts.setNextIf, ok_bind,
    deref_live live, ok_bind, ok_bind, noPrevious, unlinked, ok_bind, deref_live live, ok_bind]
  dsimp only
  split
  · exact modify_ok (by exact live) _
  · exact modify_ok live _

theorem nameOf_live (live : cts.heap p = some person) : cts.nameOf p = some person.name := by
  unfold Contacts.nameOf
  rw [live]
  rfl

theorem personSearch_ok {q : Option Nat} {fuel : Nat} (name : CStr) (chain : Chain cts.next q nodes)
    (enough : nodes.length < fuel) : personSearch cts name fuel q =
      .ok (nodes.find? fun node => cts.nameOf node = some name) := by
  induction nodes generalizing q fuel with
  | nil =>
      obtain ⟨fuel, rfl⟩ := Nat.exists_eq_succ_of_ne_zero (Nat.ne_of_gt enough)
      cases chain
      rfl
  | cons node rest ih =>
      obtain ⟨fuel, rfl⟩ := Nat.exists_eq_succ_of_ne_zero (Nat.ne_of_gt (Nat.zero_lt_of_lt enough))
      obtain ⟨rfl, next, linked, tail⟩ := chain
      obtain ⟨item, live, rfl⟩ := Option.map_eq_some_iff.mp linked
      rw [List.length_cons] at enough
      rw [personSearch, deref_live live, ok_bind, List.find?_cons, nameOf_live live]
      by_cases same : item.name = name
      · rw [if_pos ((strcmp_eq_zero _ _).mpr same), decide_eq_true (congrArg some same)]
        rfl
      · have other : some item.name ≠ some name := fun isSame => same (Option.some.inj isSame)
        rw [if_neg (mt (strcmp_eq_zero _ _).mp same), decide_eq_false other, ok_bind]
        exact ih tail (Nat.lt_of_succ_lt_succ enough)

/-- Memory outside of the list is of no concern to it. -/
theorem Listed.outside (listed : Listed cts nodes) (notIn : p ∉ nodes) (value : Option Person) :
    Listed { cts with heap := Function.update cts.heap p value } nodes := by
  have other : ∀ q ∈ nodes, Function.update cts.heap p value q = cts.heap q := by
    intro q member
    have differs : q ≠ p := fun same => notIn (same ▸ member)
    exact Function.update_of_ne differs ..
  refine ⟨listed.reaches.congr fun q member => ?_, fun q member => ?_, listed.bounded⟩
  · exact congrArg (Option.map Person.next) (other q member)
  · obtain ⟨person, live, noPrevious⟩ := listed.first q member
    exact ⟨person, (other q member).trans live, noPrevious⟩

theorem listInsert_ok (live : cts.heap p = some person) : listInsert cts p = .ok { cts with
    people := some p
    heap := Function.update cts.heap p
      (some { person with previous := none, next := cts.people }) } := by
  have first := modify_ok live fun person => { person with previous := none }
  have set : Contacts.heap { cts with
      heap := Function.update cts.heap p (some { person with previous := none }) } p =
        some { person with previous := none } := Function.update_self ..
  have second := modify_ok set fun person => { person with next := cts.people }
  rw [listInsert, Contacts.setPreviousIf, first, ok_bind, Contacts.setNextIf, second, ok_bind]
  simp only [Function.update_idem]
  rfl

end Lists

section Steps

variable {cts cts' : Contacts} {nodes : List Nat} {code : Int}

/-- A new person is put in front of the list. -/
theorem Listed.push (listed : Listed cts nodes) {p : Nat} (notIn : p ∉ nodes) {person : Person}
    (isNext : person.next = cts.people) (noPrevious : person.previous = none) (count : Int) :
    Listed { cts with
      people := some p
      count := count
      heap := Function.update cts.heap p (some person)
      allocated := cts.allocated + 1 } (p :: nodes) := by
  have behind := listed.outside notIn (some person)
  have set : Function.update cts.heap p (some person) p = some person := Function.update_self ..
  refine ⟨.cons ?_ (behind.reaches.congr fun _ _ => rfl), ?_, Nat.succ_le_succ listed.bounded⟩
  · exact (congrArg (Option.map Person.next) set).trans (congrArg some isNext)
  · intro q member
    rcases List.mem_cons.mp member with rfl | old
    · exact ⟨person, set, noPrevious⟩
    · exact behind.first q old

theorem insertEntry_listed (listed : Listed cts nodes) {fresh : Option (Nat × Person)}
    {name phone : List UInt8} (ran : insertEntry cts fresh name phone = .ok (code, cts')) :
    ∃ nodes', Listed cts' nodes' := by
  have refused (isNull : cts.malloc fresh = (cts, none)) : ∃ nodes', Listed cts' nodes' := by
    rw [insertEntry, isNull] at ran
    cases ran
    exact ⟨nodes, listed⟩
  obtain - | ⟨p, junk⟩ := fresh
  · exact refused rfl
  · by_cases unused : cts.heap p = none
    · have notIn : p ∉ nodes := by
        intro member
        obtain ⟨person, live, -⟩ := listed.first p member
        cases unused.symm.trans live
      have made : cts.malloc (some (p, junk)) = ({ cts with
          heap := Function.update cts.heap p (some junk)
          allocated := cts.allocated + 1 }, some p) := if_pos unused
      rw [insertEntry, made] at ran
      obtain ⟨str, -, ran⟩ := ok_of_bind ran
      rw [modify_ok (Function.update_self ..), ok_bind] at ran
      obtain ⟨str', -, ran⟩ := ok_of_bind ran
      rw [modify_ok (Function.update_self ..), ok_bind, personInsert,
        listInsert_ok (Function.update_self ..)] at ran
      simp only [Function.update_idem] at ran
      cases ran
      exact ⟨_, listed.push notIn rfl rfl (cts.count + 1)⟩
    · exact refused (if_neg unused)

section Split

variable {low high : List Nat} {p after : Nat} {person : Person}

theorem Listed.successor (listed : Listed cts (low ++ p :: high)) (live : cts.heap p = some person)
    (isNext : person.next = some after) : ∃ w, cts.heap after = some w ∧ w.previous = none := by
  have linked := Chain.link_next listed.reaches
  rw [Contacts.next, live, Option.map_some, isNext, Option.some.injEq] at linked
  obtain ⟨rest, rfl⟩ := List.head?_eq_some_iff.mp linked.symm
  exact listed.first after (by simp)

theorem Listed.head_iff (listed : Listed cts (low ++ p :: high)) :
    cts.people = some p ↔ low = [] := by
  have head := Chain.head listed.reaches
  have nodup := Chain.nodup listed.reaches
  rw [head]
  cases low with
  | nil => exact iff_of_true rfl rfl
  | cons first rest =>
      refine iff_of_false (fun same => ?_) (List.cons_ne_nil _ _)
      cases same
      exact (List.nodup_cons.mp nodup).1 (by simp)

/-- A person of the list is taken out and freed. -/
theorem Listed.listRemove_free (listed : Listed cts (low ++ p :: high))
    (live : cts.heap p = some person) :
    ∃ removed, listRemove cts p = .ok removed ∧ removed.free p = .ok { cts with
      people := if low = [] then person.next else cts.people
      heap := Function.update cts.heap p none } := by
  have noPrevious : person.previous = none := by
    obtain ⟨person', live', noPrevious⟩ := listed.first p (by simp)
    cases live.symm.trans live'
    exact noPrevious
  refine ⟨_, listRemove_ok live noPrevious fun after => listed.successor live, ?_⟩
  rw [Contacts.free, deref_live (Function.update_self ..), ok_bind]
  simp only [Function.update_idem, listed.head_iff]
  rfl

end Split

/-- The person that `delete_entry` finds is freed, and leaves the list only from its head. -/
theorem deleteEntry_cases (listed : Listed cts nodes) {name : List UInt8}
    (ran : deleteEntry cts name = .ok (code, cts')) :
    code = -2 ∧ cts' = cts ∧ (∀ q ∈ nodes, cts.nameOf q ≠ some (CStr.upToNul name)) ∨
    ∃ low p high person, code = 0 ∧ nodes = low ++ p :: high ∧ cts.heap p = some person ∧
      person.name = CStr.upToNul name ∧
      (∀ q ∈ low, cts.nameOf q ≠ some (CStr.upToNul name)) ∧
      cts' = { cts with
        people := if low = [] then person.next else cts.people
        heap := Function.update cts.heap p none } := by
  obtain ⟨str, stored, ran⟩ := ok_of_bind ran
  rw [storeText_ok (storeText_fits stored)] at stored
  cases stored
  rw [personSearch_ok _ listed.reaches (Nat.lt_succ_of_le listed.bounded), ok_bind] at ran
  cases found : nodes.find? fun node => cts.nameOf node = some (CStr.upToNul name) with
  | none =>
      rw [found] at ran
      cases ran
      refine .inl ⟨rfl, rfl, fun q member isName => ?_⟩
      exact List.find?_eq_none.mp found q member (decide_eq_true isName)
  | some p =>
      rw [found] at ran
      obtain ⟨isName, low, high, split, before⟩ := List.find?_eq_some_iff_append.mp found
      obtain ⟨person, live, -⟩ := listed.first p (by simp [split])
      obtain ⟨removed, unlinked, freed⟩ := (split ▸ listed).listRemove_free live
      simp only [personDelete] at ran
      rw [unlinked, ok_bind, pure_bind, freed] at ran
      cases ran
      refine .inr ⟨low, p, high, person, rfl, split, live, ?_, fun q member isQ => ?_, rfl⟩
      · rw [nameOf_live live] at isName
        exact Option.some.inj (of_decide_eq_true isName)
      · have other := before q member
        rw [decide_eq_true isQ] at other
        cases other

/-- The head goes, and nothing leads to it. -/
theorem Listed.pop {p : Nat} {high : List Nat} {person : Person} (listed : Listed cts (p :: high))
    (live : cts.heap p = some person) : Listed { cts with
      people := person.next
      heap := Function.update cts.heap p none } high := by
  have notIn := (List.nodup_cons.mp (Chain.nodup listed.reaches)).1
  obtain ⟨-, next, linked, chain⟩ := listed.reaches
  have isNext : person.next = next := by
    rw [Contacts.next, live] at linked
    exact Option.some.inj linked
  have behind : Listed { cts with people := person.next } high := by
    refine ⟨?_, fun q member => listed.first q (List.mem_cons_of_mem _ member), ?_⟩
    · rw [isNext]
      exact chain
    · exact Nat.le_trans (Nat.le_succ _) listed.bounded
  exact behind.outside notIn none

theorem entry_update {p q : Nat} (value : Option Person) (differs : q ≠ p) :
    Contacts.entry { cts with heap := Function.update cts.heap p value } q = cts.entry q :=
  congrArg (Option.map _) (Function.update_of_ne differs ..)

/-- A person that is not the head stays in the list, freed. -/
theorem not_reaches_freed {low high : List Nat} {p : Nat} (listed : Listed cts (low ++ p :: high))
    (nodes' : List Nat) :
    ¬ Contacts.Reaches { cts with heap := Function.update cts.heap p none } nodes' := by
  intro reaches
  have apart := List.nodup_append.mp (Chain.nodup listed.reaches)
  obtain ⟨mid, front, back⟩ := segment_append.mp listed.reaches
  obtain ⟨rfl, -⟩ := back
  have front' : Segment (Contacts.next { cts with heap := Function.update cts.heap p none })
      cts.people low (some p) := by
    refine front.congr fun q member => congrArg (Option.map Person.next) ?_
    exact Function.update_of_ne (apart.2.2 q member p List.mem_cons_self) ..
  obtain ⟨rest, -, chain⟩ := Chain.behind reaches front'
  cases rest with
  | nil => cases chain
  | cons q rest =>
      obtain ⟨same, next, linked, -⟩ := chain
      cases same
      have freed : Contacts.next { cts with heap := Function.update cts.heap p none } p = none := by
        show (Function.update cts.heap p none p).map Person.next = none
        rw [Function.update_self]
        rfl
      cases freed.symm.trans linked

theorem delete_exact (listed : Listed cts nodes) {name : List UInt8}
    (ran : deleteEntry cts name = .ok (code, cts')) :
    DeletesFirst cts (.delete name) ↔ AtHead cts (.delete name) := by
  rcases deleteEntry_cases listed ran with
    ⟨rfl, rfl, nobody⟩ | ⟨low, p, high, person, rfl, rfl, live, isName, before, rfl⟩
  · refine iff_of_true (fun _ ran' => ?_) ?_
    · cases ran.symm.trans ran'
    · rintro head rest reaches ⟨q, member, isQ⟩
      cases Chain.unique listed.reaches reaches
      exact absurd isQ (nobody q (List.mem_cons_of_mem _ member))
  · have named : cts.nameOf p = some (CStr.upToNul name) := by
      rw [nameOf_live live, isName]
    by_cases isHead : low = []
    · subst isHead
      refine iff_of_true (fun cts' ran' => ?_) ?_
      · cases ran.symm.trans ran'
        have notIn := (List.nodup_cons.mp (Chain.nodup listed.reaches)).1
        refine ⟨[], p, high, listed.reaches, named, before, (listed.pop live).reaches, ?_⟩
        intro q member
        exact entry_update none fun same => notIn (same ▸ member)
      · rintro head rest reaches -
        cases Chain.unique listed.reaches reaches
        exact named
    · refine iff_of_false (fun deletes => ?_) fun atHead => ?_
      · obtain ⟨low', p', high', -, -, -, reaches, -⟩ := deletes _ ran
        rw [if_neg isHead] at reaches
        exact not_reaches_freed listed _ reaches
      · obtain ⟨first, rest, rfl⟩ := List.exists_cons_of_ne_nil isHead
        have isFirst := atHead first (rest ++ p :: high) listed.reaches ⟨p, by simp, named⟩
        exact before first List.mem_cons_self isFirst

theorem Op.exec_listed (listed : Listed cts nodes) {op : Op} (meets : AtHead cts op)
    (ran : op.exec cts = .ok cts') : ∃ nodes', Listed cts' nodes' := by
  cases op with
  | insert fresh name phone =>
      obtain ⟨⟨code, last⟩, entered, returned⟩ := ok_of_bind ran
      cases returned
      exact insertEntry_listed listed entered
  | delete name =>
      obtain ⟨⟨code, last⟩, entered, returned⟩ := ok_of_bind ran
      cases returned
      rcases deleteEntry_cases listed entered with
        ⟨-, rfl, -⟩ | ⟨low, p, high, person, rfl, rfl, live, isName, before, rfl⟩
      · exact ⟨nodes, listed⟩
      · obtain - | ⟨first, rest⟩ := low
        · exact ⟨high, listed.pop live⟩
        · have named : cts.nameOf p = some (CStr.upToNul name) := by
            rw [nameOf_live live, isName]
          have isFirst := meets first (rest ++ p :: high) listed.reaches ⟨p, by simp, named⟩
          exact absurd isFirst (before first List.mem_cons_self)

end Steps

/-- Every `delete_entry` of a run takes out the first person of its name, and leaves no freed
one in the list, exactly if each finds its name at the head or nowhere. -/
theorem deletesFirst_along_iff {ops : List Op} {last : Contacts}
    (ran : runs Op.exec emptyContacts ops = .ok last) :
    Along Op.exec DeletesFirst emptyContacts ops ↔ Along Op.exec AtHead emptyContacts ops := by
  refine along_iff (fun cts => ∃ nodes, Listed cts nodes) ?_ ?_ ⟨[], rfl, ?_, Nat.le_refl _⟩ ran
  · rintro before op after ⟨nodes, listed⟩ stepped
    cases op with
    | insert fresh name phone => exact Iff.rfl
    | delete name =>
        obtain ⟨⟨code, cts'⟩, entered, -⟩ := ok_of_bind stepped
        exact delete_exact listed entered
  · rintro before op after ⟨nodes, listed⟩ meets stepped
    exact Op.exec_listed listed meets stepped
  · exact fun p member => absurd member List.not_mem_nil

/-- Memory as `malloc` may leave it. -/
def junkPerson : Person := ⟨.upToNul [1], .upToNul [2], some 7, some 8⟩

/-- Ann comes into the book, and Bob in front of her. -/
def annAndBob : List Op :=
  [.insert (some (1, junkPerson)) (charBytes ['A', 'n', 'n']) (charBytes ['1']),
    .insert (some (2, junkPerson)) (charBytes ['B', 'o', 'b']) (charBytes ['2'])]

/-- Bob is deleted, who came last. -/
theorem deletesFirst_along_bob :
    Along Op.exec DeletesFirst emptyContacts (annAndBob ++ [.delete (charBytes ['B', 'o', 'b'])]) ↔
      Along Op.exec AtHead emptyContacts (annAndBob ++ [.delete (charBytes ['B', 'o', 'b'])]) :=
  deletesFirst_along_iff rfl

/-- Ann is deleted: Bob still points to her structure. -/
theorem freed_person_listed : ¬ ∀ ops, Along Op.exec DeletesFirst emptyContacts ops := by
  intro all
  have last := (all (annAndBob ++ [.delete (charBytes ['A', 'n', 'n'])])).meets_at rfl
  obtain ⟨low, p, high, -, -, -, reaches, -⟩ := last _ rfl
  obtain ⟨rest, -, chain⟩ := Chain.behind reaches
    (show Segment _ _ [2] (some 1) from ⟨rfl, _, rfl, rfl⟩)
  cases rest with
  | nil => cases chain
  | cons q rest =>
      obtain ⟨same, next, linked, -⟩ := chain
      cases same
      cases linked

end LinuxCpp.AddressBook.Flat
