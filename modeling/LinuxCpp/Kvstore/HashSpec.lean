import LinuxCpp.Kvstore.Hash
import Mathlib.Algebra.BigOperators.Group.Finset.Basic
import Mathlib.Algebra.Order.BigOperators.Group.Finset
import Mathlib.Algebra.Order.Group.Int

set_option autoImplicit false

namespace LinuxCpp.Kvstore

open C

/-- A node of a chain: its address, and the blocks of its two strings. -/
structure HashItem where
  addr : Nat
  keyBlock : Nat
  key : CStr
  valueBlock : Nat
  value : CStr
deriving DecidableEq, Repr

def HashItem.node (x : HashItem) : HashNode :=
  ⟨x.addr, .live x.keyBlock x.key, .live x.valueBlock x.value⟩

/-- The chains of the table; a slot never written is `none`. -/
abbrev Chains := Nat → Option (List HashItem)

def Bucket.Holds (b : Bucket) : Option (List HashItem) → Prop
  | some items => b = .chain (items.map HashItem.node)
  | none => ∃ word, b = .wild word

def Chains.total (chains : Chains) : Nat :=
  ∑ s ∈ Finset.range maxTableSize, ((chains s).getD []).length

/-- The chain at a slot holds only keys of that slot, no key twice, and the
count is the number of nodes. -/
structure HashInv (h : HashTable) (chains : Chains) : Prop where
  table : ∃ table, h.nodes = some table ∧ ∀ s, s < maxTableSize → (table s).Holds (chains s)
  placed : ∀ s items, s < maxTableSize → chains s = some items →
    ∀ x ∈ items, hash (some x.key) maxTableSize = .ok (s : Int)
  distinct : ∀ s items, s < maxTableSize → chains s = some items →
    (items.map HashItem.key).Nodup
  count : h.count = chains.total
  small : h.count < 2 ^ 31

/-- The slot of a key, when `_hash` is defined and not negative. -/
def HashSlot (key : CStr) (s : Nat) : Prop := hash (some key) maxTableSize = .ok (s : Int)

theorem HashSlot.lt {key : CStr} {s : Nat} (slot : HashSlot key s) : s < maxTableSize := by
  obtain ⟨n, -, returned⟩ := ok_of_bind slot
  have isMod : Int.tmod n maxTableSize = (s : Int) := Except.ok.inj returned
  have below : Int.tmod n maxTableSize < maxTableSize :=
    Int.tmod_lt_of_pos n (by decide)
  omega

theorem HashSlot.unique {key : CStr} {s s' : Nat} (slot : HashSlot key s)
    (slot' : HashSlot key s') : s = s' := by
  rw [HashSlot, slot] at slot'
  have := Except.ok.inj slot'
  omega

section Walk

variable {key : CStr} {x : HashItem} {items pre post : List HashItem}

/-- A chain without the key, or split at its only node with the key. -/
theorem chain_cases (key : CStr) (items : List HashItem) :
    (∀ x ∈ items, x.key ≠ key) ∨
      ∃ pre x post, items = pre ++ x :: post ∧ x.key = key ∧ ∀ y ∈ pre, y.key ≠ key := by
  cases found : items.find? fun x => decide (x.key = key) with
  | none => exact Or.inl (by simpa using List.find?_eq_none.mp found)
  | some x =>
      obtain ⟨here, pre, post, split, before⟩ := List.find?_eq_some_iff_append.mp found
      exact Or.inr ⟨pre, x, post, split, by simpa using here, by simpa using before⟩

theorem findNode_absent (absent : ∀ x ∈ items, x.key ≠ key) :
    findNode key (items.map HashItem.node) = .ok none := by
  induction items with
  | nil => rfl
  | cons x items ih =>
      have different : x.key ≠ key := absent x (by simp)
      simp only [List.map_cons, findNode, HashItem.node, CPtr.deref_live, ok_bind, strcmp_eq_zero,
        different, ↓reduceIte, ih fun y member => absent y (List.mem_cons_of_mem _ member)]
      rfl

theorem findNode_present (here : x.key = key) (before : ∀ y ∈ pre, y.key ≠ key) :
    findNode key ((pre ++ x :: post).map HashItem.node) = .ok (some pre.length) := by
  induction pre with
  | nil =>
      simp only [List.nil_append, List.map_cons, findNode, HashItem.node, CPtr.deref_live, ok_bind,
        strcmp_eq_zero, here, ↓reduceIte]
      rfl
  | cons y pre ih =>
      have different : y.key ≠ key := before y (by simp)
      simp only [List.cons_append, List.map_cons, findNode, HashItem.node, CPtr.deref_live, ok_bind,
        strcmp_eq_zero, different, ↓reduceIte,
        ih fun z member => before z (List.mem_cons_of_mem _ member)]
      rfl

theorem unlinkNext_absent (absent : ∀ x ∈ items, x.key ≠ key) :
    unlinkNext key (items.map HashItem.node) = .ok none := by
  induction items with
  | nil => rfl
  | cons x items ih =>
      have different : x.key ≠ key := absent x (by simp)
      simp only [List.map_cons, unlinkNext, HashItem.node, CPtr.deref_live, ok_bind,
        strcmp_eq_zero, different, ↓reduceIte,
        ih fun y member => absent y (List.mem_cons_of_mem _ member)]
      rfl

theorem unlinkNext_present (here : x.key = key) (before : ∀ y ∈ pre, y.key ≠ key) :
    unlinkNext key ((pre ++ x :: post).map HashItem.node) =
      .ok (some (x.node, (pre ++ post).map HashItem.node)) := by
  induction pre with
  | nil =>
      simp only [List.nil_append, List.map_cons, unlinkNext, HashItem.node, CPtr.deref_live,
        ok_bind, strcmp_eq_zero, here, ↓reduceIte]
      rfl
  | cons y pre ih =>
      have different : y.key ≠ key := before y (by simp)
      simp only [List.cons_append, List.map_cons, unlinkNext, HashItem.node, CPtr.deref_live,
        ok_bind, strcmp_eq_zero, different, ↓reduceIte,
        ih fun z member => before z (List.mem_cons_of_mem _ member)]
      rfl

/-- The slot of a key is read without fault. -/
theorem HashInv.load {h : HashTable} {chains : Chains} {s : Nat} {items : List HashItem}
    (inv : HashInv h chains) (slot : HashSlot key s) (chain : chains s = some items) :
    h.load (s : Int) = .ok (.chain (items.map HashItem.node)) := by
  obtain ⟨table, isTable, holds⟩ := inv.table
  have bucket : table s = .chain (items.map HashItem.node) := by
    have held := holds s slot.lt
    rwa [chain] at held
  simp only [HashTable.load, isTable]
  rw [if_pos ⟨by omega, by exact_mod_cast slot.lt⟩]
  simp only [Int.toNat_natCast, bucket]

end Walk

section Operations

variable {h : HashTable} {chains : Chains} {A : Allocator} {key : CStr} {s : Nat}
  {items : List HashItem}

/-- The item a key is bound to. -/
def hashLookup (chains : Chains) (key : CStr) : Option HashItem :=
  match hash (some key) maxTableSize with
  | .ok (.ofNat s) => ((chains s).getD []).find? fun x => x.key = key
  | _ => none

theorem hashLookup_slot (slot : HashSlot key s) (chain : chains s = some items) :
    hashLookup chains key = items.find? fun x => x.key = key := by
  have isSlot : hash (some key) maxTableSize = .ok (.ofNat s) := slot
  simp only [hashLookup, isSlot, chain, Option.getD_some]

theorem hashLookup_absent (slot : HashSlot key s) (chain : chains s = some items)
    (absent : ∀ x ∈ items, x.key ≠ key) : hashLookup chains key = none := by
  rw [hashLookup_slot slot chain, List.find?_eq_none]
  simpa using absent

theorem hashLookup_present {pre post : List HashItem} {x : HashItem} (slot : HashSlot key s)
    (chain : chains s = some (pre ++ x :: post)) (here : x.key = key)
    (before : ∀ y ∈ pre, y.key ≠ key) : hashLookup chains key = some x := by
  rw [hashLookup_slot slot chain, List.find?_eq_some_iff_append]
  exact ⟨by simpa using here, pre, post, rfl, by simpa using before⟩

/-- The pointer `kvs_hash_get` answers with. -/
def hashAnswer (chains : Chains) (key : CStr) : CPtr :=
  match hashLookup chains key with
  | none => .null
  | some x => .live x.valueBlock x.value

theorem kvsHashGet_slot (inv : HashInv h chains) (slot : HashSlot key s)
    (chain : chains s = some items) :
    kvsHashGet h (some key) = .ok (hashAnswer chains key) := by
  have isSlot : hash (some key) maxTableSize = .ok (s : Int) := slot
  simp only [kvsHashGet, isSlot, ok_bind, inv.load slot chain, Bucket.walk]
  rcases chain_cases key items with absent | ⟨pre, x, post, rfl, here, before⟩
  · rw [findNode_absent absent, hashAnswer, hashLookup_absent slot chain absent]
    rfl
  · rw [findNode_present here before, hashAnswer, hashLookup_present slot chain here before]
    simp only [ok_bind, List.map_append, List.map_cons, List.getElem?_append_right,
      List.length_map, Nat.le_refl, Nat.sub_self]
    rfl

theorem kvsHashExist_slot (inv : HashInv h chains) (slot : HashSlot key s)
    (chain : chains s = some items) :
    kvsHashExist h (some key) = .ok (if hashLookup chains key = none then 1 else 0) := by
  simp only [kvsHashExist, kvsHashGet_slot inv slot chain, ok_bind, hashAnswer]
  cases hashLookup chains key <;> rfl

end Operations

end LinuxCpp.Kvstore
