import LinuxCpp.C.Memory

set_option autoImplicit false

/- The array engine of kvs_array.c. The `inst` argument of the source is always
the address of a global, so its NULL test is not modelled; `key` and `value`
are tokens and may be NULL. -/
namespace LinuxCpp.Kvstore

open C

def kvsArraySize : Nat := 1024

structure KvsArrayItem where
  key : CPtr
  value : CPtr
deriving DecidableEq, Repr

/-- `table` is NULL before `kvs_array_create`; its cells past the written ones
hold whatever the allocator left there. -/
structure KvsArray where
  table : Option (Nat → KvsArrayItem)
  total : Nat

namespace KvsArray

/-- The zeroed global. -/
def zeroed : KvsArray := ⟨none, 0⟩

def item (inst : KvsArray) (i : Nat) : Except Fault KvsArrayItem :=
  match inst.table with
  | none => .error .nullDeref
  | some table => if i < kvsArraySize then .ok (table i) else .error .outOfBounds

def setItem (inst : KvsArray) (i : Nat) (entry : KvsArrayItem) : Except Fault KvsArray :=
  match inst.table with
  | none => .error .nullDeref
  | some table =>
      if i < kvsArraySize then .ok { inst with table := some (Function.update table i entry) }
      else .error .outOfBounds

end KvsArray

def kvsArrayCreate (inst : KvsArray) : CM (Int × KvsArray) := do
  if inst.table.isSome then return (-1, inst)
  match ← malloc with
  | none => return (-1, inst)
  | some block =>
      let words ← junkOf block
      return (0, ⟨some fun i => ⟨.ofWord (words (2 * i)), .ofWord (words (2 * i + 1))⟩, 0⟩)

/-- The loop `for (i = 0; i < total; i++)` over the remaining `n` cells from
`i`. Only `kvs_array_del` lacks the test that skips a NULL key. -/
def scanKey (skipHoles : Bool) (inst : KvsArray) (key : CStr) :
    Nat → Nat → Except Fault (Option Nat)
  | 0, _ => .ok none
  | n + 1, i => do
      let cell ← inst.item i
      if skipHoles = true ∧ cell.key = .null then
        scanKey skipHoles inst key n (i + 1)
      else if strcmp (← cell.key.deref) key = 0 then
        return some i
      else
        scanKey skipHoles inst key n (i + 1)

def kvsArrayGet (inst : KvsArray) (key : Option CStr) : Except Fault CPtr := do
  match key with
  | none => return .null
  | some key =>
      match ← scanKey true inst key inst.total 0 with
      | none => return .null
      | some i => return (← inst.item i).value

/-- The first cell below `total` with a NULL key. -/
def findHole (inst : KvsArray) : Nat → Nat → Except Fault (Option Nat)
  | 0, _ => .ok none
  | n + 1, i => do
      if (← inst.item i).key = .null then return some i
      findHole inst n (i + 1)

def kvsArraySet (inst : KvsArray) (key value : Option CStr) : CM (Int × KvsArray) := do
  match key, value with
  | some key, some value =>
      if inst.total = kvsArraySize then return (-1, inst)
      if (← kvsArrayGet inst (some key)) ≠ .null then return (1, inst)
      let kcopy ← strdup key
      if kcopy = .null then return (-2, inst)
      let kvalue ← strdup value
      if kvalue = .null then return (-2, inst)
      match ← findHole inst inst.total 0 with
      | some i =>
          let inst ← inst.setItem i ⟨kcopy, kvalue⟩
          return (0, { inst with total := inst.total + 1 })
      | none =>
          if inst.total < kvsArraySize then
            let inst ← inst.setItem inst.total ⟨kcopy, kvalue⟩
            return (0, { inst with total := inst.total + 1 })
          return (0, inst)
  | _, _ => return (-1, inst)

def kvsArrayDel (inst : KvsArray) (key : Option CStr) : CM (Int × KvsArray) := do
  match key with
  | none => return (-1, inst)
  | some key =>
      match ← scanKey false inst key inst.total 0 with
      | none => return (inst.total, inst)
      | some i =>
          let cell ← inst.item i
          free cell.key
          free cell.value
          let inst ← inst.setItem i ⟨.null, .null⟩
          return (0, { inst with total := inst.total - 1 })

def kvsArrayMod (inst : KvsArray) (key value : Option CStr) : CM (Int × KvsArray) := do
  match key, value with
  | some key, some value =>
      if inst.total = 0 then return (kvsArraySize, inst)
      match ← scanKey true inst key inst.total 0 with
      | none => return (inst.total, inst)
      | some i =>
          let cell ← inst.item i
          free cell.value
          match ← strdup value with
          | .live block copy =>
              return (0, ← inst.setItem i { cell with value := .live block copy })
          | _ =>
              -- the cell keeps the pointer just freed
              return (-2, ← inst.setItem i { cell with value := cell.value.released })
  | _, _ => return (-1, inst)

def kvsArrayExist (inst : KvsArray) (key : Option CStr) : Except Fault Int := do
  if (← kvsArrayGet inst key) = .null then return 1
  return 0

end LinuxCpp.Kvstore
