import LinuxCpp.C.Memory

set_option autoImplicit false

/- The chained hash engine of kvs_hash.c. A chain is the list of its nodes; a
slot of the table that was never written holds the word the allocator left. -/
namespace LinuxCpp.Kvstore

open C

def maxTableSize : Nat := 1024

structure HashNode where
  addr : Nat
  key : CPtr
  value : CPtr
deriving DecidableEq, Repr

/-- `hashnode_t *` at the head of a slot. -/
inductive Bucket where
  | chain (nodes : List HashNode)
  | wild (word : Nat)
deriving DecidableEq, Repr

structure HashTable where
  nodes : Option (Nat → Bucket)
  maxSlots : Int
  count : Int

/-- `int` addition; overflow is undefined. -/
def addInt (a b : Int) : Except Fault Int :=
  if -2 ^ 31 ≤ a + b ∧ a + b < 2 ^ 31 then .ok (a + b) else .error .overflow

/-- A `char` is signed. -/
def signedByte (b : UInt8) : Int := if b.toNat < 128 then b.toNat else (b.toNat : Int) - 256

def byteSum : Int → List UInt8 → Except Fault Int
  | sum, [] => .ok sum
  | sum, b :: bytes => do byteSum (← addInt sum (signedByte b)) bytes

/-- `_hash`; the remainder has the sign of the sum. -/
def hash (key : Option CStr) (size : Nat) : Except Fault Int := do
  match key with
  | none => return -1
  | some key => return Int.tmod (← byteSum 0 key.bytes) size

namespace HashTable

/-- `hash->nodes[idx]` -/
def load (h : HashTable) (idx : Int) : Except Fault Bucket :=
  match h.nodes with
  | none => .error .nullDeref
  | some table =>
      if 0 ≤ idx ∧ idx < maxTableSize then .ok (table idx.toNat) else .error .outOfBounds

/-- `hash->nodes[idx] = ...` after the slot was read. -/
def store (h : HashTable) (idx : Int) (nodes : List HashNode) : HashTable :=
  { h with nodes := h.nodes.map fun table => Function.update table idx.toNat (.chain nodes) }

end HashTable

/-- `while (node != NULL) { if (strcmp(node->key, key) == 0) ...; node = node->next; }`:
the position of the first node with this key. -/
def findNode (key : CStr) : List HashNode → Except Fault (Option Nat)
  | [] => .ok none
  | node :: rest => do
      if strcmp (← node.key.deref) key = 0 then return some 0
      return (← findNode key rest).map (· + 1)

/-- The nodes reached from a slot; a wild head is followed at once. -/
def Bucket.walk : Bucket → Except Fault (List HashNode)
  | chain nodes => .ok nodes
  | wild _ => .error .wildDeref

/-- `_create_node`: NULL when an allocation is refused. -/
def createNode (key value : CStr) : CM (Option HashNode) := do
  match ← malloc with
  | none => return none
  | some addr =>
      let kcopy ← strdup key
      if kcopy = .null then return none
      let kvalue ← strdup value
      if kvalue = .null then return none
      return some ⟨addr, kcopy, kvalue⟩

def kvsHashCreate : CM (Int × HashTable) := do
  match ← malloc with
  | none => return (-1, ⟨none, 0, 0⟩)
  | some block =>
      let words ← junkOf block
      let slot (i : Nat) : Bucket := if words i = 0 then .chain [] else .wild (words i)
      return (0, ⟨some slot, maxTableSize, 0⟩)

/-- The nodes of a chain go back to the allocator, their strings do not. -/
def freeChain : List HashNode → CM Unit
  | [] => pure ()
  | node :: rest => do
      freeBlock node.addr
      freeChain rest

/-- `for (i = 0; i < max_slots; i++)` over the remaining `n` slots from `i`. -/
def destorySlots : HashTable → Nat → Nat → CM HashTable
  | h, 0, _ => return h
  | h, n + 1, i => do
      freeChain (← (← h.load i).walk)
      destorySlots (h.store i []) n (i + 1)

/-- `block` is the block of `hash->nodes`, which the table does not record. -/
def kvsHashDestory (block : Nat) (h : HashTable) : CM Unit := do
  let h ← destorySlots h h.maxSlots.toNat 0
  if h.nodes.isSome then freeBlock block

def kvsHashSet (h : HashTable) (key value : Option CStr) : CM (Int × HashTable) := do
  match key, value with
  | some key, some value =>
      let idx ← hash (some key) maxTableSize
      let nodes ← (← h.load idx).walk
      if (← findNode key nodes) ≠ none then return (1, h)
      match ← createNode key value with
      | none => throw .nullDeref
      | some node =>
          let h := h.store idx (node :: nodes)
          return (0, { h with count := ← addInt h.count 1 })
  | _, _ => return (-1, h)

def kvsHashGet (h : HashTable) (key : Option CStr) : Except Fault CPtr := do
  match key with
  | none => return .null
  | some key =>
      let idx ← hash (some key) maxTableSize
      let nodes ← (← h.load idx).walk
      match ← findNode key nodes with
      | none => return .null
      | some i => return (nodes[i]?.map HashNode.value).getD .null

def kvsHashMod (h : HashTable) (key value : Option CStr) : CM (Int × HashTable) := do
  match key with
  | none => return (-1, h)
  | some key =>
      let idx ← hash (some key) maxTableSize
      let nodes ← (← h.load idx).walk
      match ← findNode key nodes with
      | none => return (1, h)
      | some i =>
          free ((nodes[i]?.map HashNode.value).getD .null)
          match value with
          | none => throw .nullDeref
          | some value =>
              let kvalue ← strdup value
              if kvalue = .null then
                return (-2,
                  h.store idx (nodes.modify i fun n => { n with value := n.value.released }))
              return (0, h.store idx (nodes.modify i fun n => { n with value := kvalue }))

/-- The search of an interior node: `cur->next` is compared, then followed. -/
def unlinkNext (key : CStr) : List HashNode → Except Fault (Option (HashNode × List HashNode))
  | [] => .ok none
  | next :: rest => do
      if strcmp (← next.key.deref) key = 0 then return some (next, rest)
      return (← unlinkNext key rest).map fun (tmp, rest) => (tmp, next :: rest)

def kvsHashDel (h : HashTable) (key : Option CStr) : CM (Int × HashTable) := do
  match key with
  | none => return (-2, h)
  | some key =>
      let idx ← hash (some key) maxTableSize
      match ← (← h.load idx).walk with
      | [] => return (-1, h)
      | head :: rest =>
          if strcmp (← head.key.deref) key = 0 then
            let h := h.store idx rest
            -- the strings of a head node are not freed
            freeBlock head.addr
            return (0, { h with count := ← addInt h.count (-1) })
          match ← unlinkNext key rest with
          | none => return (-1, h)
          | some (tmp, rest) =>
              let h := h.store idx (head :: rest)
              free tmp.key
              free tmp.value
              freeBlock tmp.addr
              return (0, { h with count := ← addInt h.count (-1) })

def kvsHashExist (h : HashTable) (key : Option CStr) : Except Fault Int := do
  if (← kvsHashGet h key) = .null then return 1 else return 0

end LinuxCpp.Kvstore
