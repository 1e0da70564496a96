import LinuxCpp.C.Memory
import LinuxCpp.C.Scanf

set_option autoImplicit false

/- The grouped address book of Contacts_task.c. A block of `malloc` gets the next number
for its address, also where an earlier one was freed. -/
namespace LinuxCpp.AddressBook

open C

def nameLength : Nat := 16

def phoneNumberLength : Nat := 32

def alphabetCount : Nat := 26

structure Person where
  name : CStr
  phoneNumber : CStr
  next : Option Nat
  previous : Option Nat
deriving DecidableEq, Repr

/-- `struct contacts` with the memory of its persons. -/
structure Contacts where
  groups : Nat → Option Nat
  count : Int
  heap : Nat → Option Person
  allocated : Nat

/-- The book after the `memset` of `main`. -/
def emptyContacts : Contacts := ⟨fun _ => none, 0, fun _ => none, 0⟩

namespace Contacts

def deref (cts : Contacts) (p : Nat) : Except Fault Person :=
  match cts.heap p with
  | none => .error .useAfterFree
  | some person => .ok person

/-- Writes to fields of `*p`. -/
def modify (cts : Contacts) (p : Nat) (change : Person → Person) : Except Fault Contacts := do
  let person ← cts.deref p
  return { cts with heap := Function.update cts.heap p (some (change person)) }

/-- `if (p) p->next = value;` -/
def setNextIf (cts : Contacts) (p value : Option Nat) : Except Fault Contacts :=
  match p with
  | none => .ok cts
  | some p => cts.modify p fun person => { person with next := value }

/-- `if (p) p->previous = value;` -/
def setPreviousIf (cts : Contacts) (p value : Option Nat) : Except Fault Contacts :=
  match p with
  | none => .ok cts
  | some p => cts.modify p fun person => { person with previous := value }

def setGroup (cts : Contacts) (index : Nat) (p : Option Nat) : Contacts :=
  { cts with groups := Function.update cts.groups index p }

/-- `malloc`, that returns NULL or a block with what happens to stand in it. -/
def malloc (cts : Contacts) : Option Person → Contacts × Option Nat
  | none => (cts, none)
  | some junk =>
      ({ cts with
          heap := Function.update cts.heap cts.allocated (some junk)
          allocated := cts.allocated + 1 }, some cts.allocated)

def free (cts : Contacts) (p : Nat) : Except Fault Contacts := do
  let _ ← cts.deref p
  return { cts with heap := Function.update cts.heap p none }

end Contacts

/-- `toupper` of the C locale. -/
def toupper (c : UInt8) : UInt8 := if 97 ≤ c ∧ c ≤ 122 then c - 32 else c

def getNameIndex (name : Option CStr) : Int :=
  match name.bind fun name => name.bytes.head? with
  | none => -1
  | some c => if 65 ≤ toupper c ∧ toupper c ≤ 90 then (toupper c).toNat - 65 else -1

/-- The loop of `person_insert`. -/
def findPlace (cts : Contacts) (person : Nat) :
    Nat → Option Nat → Option Nat → Except Fault (Option Nat × Option Nat)
  | 0, _, _ => .error .fuel
  | _ + 1, prev, none => .ok (prev, none)
  | fuel + 1, prev, some current => do
      if 0 < strcmp (← cts.deref person).name (← cts.deref current).name then
        findPlace cts person fuel (some current) (← cts.deref current).next
      else return (prev, some current)

/-- `if (prev) prev->next = person; else *group_head = person;` -/
def linkAfter (cts : Contacts) (index : Nat) (prev : Option Nat) (person : Nat) :
    Except Fault Contacts :=
  match prev with
  | none => .ok (cts.setGroup index (some person))
  | some _ => cts.setNextIf prev (some person)

def personInsert (cts : Contacts) (index : Nat) (person : Option Nat) :
    Except Fault (Int × Contacts) :=
  match person with
  | none => .ok (-1, cts)
  | some p =>
      if cts.groups index = none then do
        let cts ← cts.setNextIf person none
        let cts ← cts.setPreviousIf person none
        return (0, cts.setGroup index person)
      else do
        let (prev, current) ← findPlace cts p (cts.allocated + 1) none (cts.groups index)
        let cts ← cts.setNextIf person current
        let cts ← cts.setPreviousIf person prev
        let cts ← linkAfter cts index prev p
        let cts ← cts.setPreviousIf current person
        return (0, cts)

/-- `LIST_REMOVE(item, groups[index])` -/
def listRemove (cts : Contacts) (item index : Nat) : Except Fault Contacts := do
  let cts ← cts.setNextIf (← cts.deref item).previous (← cts.deref item).next
  let cts ← cts.setPreviousIf (← cts.deref item).next (← cts.deref item).previous
  let next := (← cts.deref item).next
  let cts := if cts.groups index = some item then cts.setGroup index next else cts
  cts.modify item fun person => { person with next := none, previous := none }

def personDelete (cts : Contacts) (index : Nat) (person : Option Nat) :
    Except Fault (Int × Contacts) :=
  match person with
  | none => .ok (-1, cts)
  | some p => do return (0, ← listRemove cts p index)

def personSearchInGroup (cts : Contacts) (name : CStr) : Nat → Option Nat →
    Except Fault (Option Nat)
  | 0, _ => .error .fuel
  | _ + 1, none => .ok none
  | fuel + 1, some item => do
      if strcmp (← cts.deref item).name name = 0 then return some item
      else personSearchInGroup cts name fuel (← cts.deref item).next

def personSearchGlobal (cts : Contacts) (name : Option CStr) : Except Fault (Option Nat) :=
  match name with
  | none => .ok none
  | some text =>
      let index := getNameIndex name
      if index < 0 ∨ alphabetCount ≤ index then .ok none
      else personSearchInGroup cts text (cts.allocated + 1) (cts.groups index.toNat)

/-- `name` and `phone` are what the two `scanf` read. -/
def insertEntry (cts : Contacts) (fresh : Option Person) (name phone : List UInt8) :
    Except Fault (Int × Contacts) := do
  match cts.malloc fresh with
  | (cts, none) => return (-2, cts)
  | (cts, some p) =>
      let name ← storeText nameLength name
      let cts ← cts.modify p fun person => { person with name := name }
      let phone ← storeText phoneNumberLength phone
      let cts ← cts.modify p fun person => { person with phoneNumber := phone }
      let index := getNameIndex (some (← cts.deref p).name)
      if index < 0 ∨ alphabetCount ≤ index then return (-3, ← cts.free p)
      else
        let (code, cts) ← personInsert cts index.toNat (some p)
        if code ≠ 0 then return (-3, ← cts.free p)
        else return (0, { cts with count := cts.count + 1 })

def deleteEntry (cts : Contacts) (name : List UInt8) : Except Fault (Int × Contacts) := do
  let name ← storeText nameLength name
  let index := getNameIndex (some name)
  if index < 0 ∨ alphabetCount ≤ index then return (-2, cts)
  else
    match ← personSearchInGroup cts name (cts.allocated + 1) (cts.groups index.toNat) with
    | none => return (-2, cts)
    | some ps =>
        let (_, cts) ← personDelete cts index.toNat (some ps)
        let cts ← cts.free ps
        return (0, { cts with count := cts.count - 1 })

/-- `"name: %[^,], phone: %s\n"` -/
def recordFormat : List Directive :=
  literal ['n', 'a', 'm', 'e', ':'] ++ [.space, .notIn 44, .char 44, .space] ++
    literal ['p', 'h', 'o', 'n', 'e', ':'] ++ [.space, .word, .space]

/-- The loop of `load_file`, from the `record`-th call of `malloc` on. -/
def loadRecords (fresh : Nat → Option Person) :
    Nat → Contacts → List UInt8 → Nat → Int → Except Fault (Int × Contacts)
  | 0, _, _, _, _ => .error .fuel
  | fuel + 1, cts, bytes, record, count =>
      match scanf recordFormat bytes with
      | ([name, phone], rest) => do
          let name ← storeText nameLength name
          let phone ← storeText phoneNumberLength phone
          match cts.malloc (fresh record) with
          | (cts, none) => return (-2, cts)
          | (cts, some newPerson) =>
              let cts ← cts.modify newPerson fun _ =>
                ⟨strncpy name (nameLength - 1), strncpy phone (phoneNumberLength - 1), none, none⟩
              let index := getNameIndex (some (← cts.deref newPerson).name)
              if 0 ≤ index ∧ index < alphabetCount then
                let (_, cts) ← personInsert cts index.toNat (some newPerson)
                loadRecords fresh fuel cts rest (record + 1) (count + 1)
              else loadRecords fresh fuel (← cts.free newPerson) rest (record + 1) count
      | ([name], _) => do
          -- the call returned 1, with the name in its array
          let _ ← storeText nameLength name
          return (0, { cts with count := count })
      | _ => return (0, { cts with count := count })

/-- `file` is the file that `fopen` finds. -/
def loadFile (cts : Contacts) (file : Option (List UInt8)) (fresh : Nat → Option Person) :
    Except Fault (Int × Contacts) :=
  match file with
  | none => .ok (-1, cts)
  | some bytes => loadRecords fresh (bytes.length + 1) cts bytes 0 0

/-- `"name: %s, phone: %s\n"` -/
def recordText (person : Person) : List UInt8 :=
  charBytes ['n', 'a', 'm', 'e', ':', ' '] ++ person.name.bytes ++
    charBytes [',', ' ', 'p', 'h', 'o', 'n', 'e', ':', ' '] ++ person.phoneNumber.bytes ++ [10]

/-- The inner loop of `save_file`. -/
def saveGroup (cts : Contacts) : Nat → Option Nat → Except Fault (List UInt8)
  | 0, _ => .error .fuel
  | _ + 1, none => .ok []
  | fuel + 1, some item => do
      let person ← cts.deref item
      return recordText person ++ (← saveGroup cts fuel person.next)

/-- The loop of `save_file` over the remaining `n` groups from `i`. -/
def saveGroups (cts : Contacts) : Nat → Nat → Except Fault (List UInt8)
  | 0, _ => .ok []
  | n + 1, i => do
      return (← saveGroup cts (cts.allocated + 1) (cts.groups i)) ++ (← saveGroups cts n (i + 1))

/-- The code and the file that a call leaves, if `fopen` does not fail. -/
def saveFile (cts : Contacts) (opened : Bool) : Except Fault (Int × Option (List UInt8)) :=
  if opened = false then .ok (-1, none)
  else do return (0, some (← saveGroups cts alphabetCount 0))

inductive Op where
  | insert (fresh : Option Person) (name phone : List UInt8)
  | delete (name : List UInt8)
  | load (file : Option (List UInt8)) (fresh : Nat → Option Person)

def Op.exec (cts : Contacts) : Op → Except Fault Contacts
  | .insert fresh name phone => do return (← insertEntry cts fresh name phone).2
  | .delete name => do return (← deleteEntry cts name).2
  | .load file fresh => do return (← loadFile cts file fresh).2

end LinuxCpp.AddressBook
