import LinuxCpp.Kvstore.HashOps
import Mathlib.Algebra.BigOperators.Group.List.Lemmas

set_option autoImplicit false

namespace LinuxCpp.Kvstore

open C

/-- The sum of the bytes of a key, without a bound. -/
def byteTotal (key : CStr) : Nat := (key.bytes.map UInt8.toNat).sum

section Sum

/-- A sum of nonnegative `char`s is exact until it leaves `int`. -/
theorem byteSum_ascii (bytes : List UInt8) (ascii : ∀ b ∈ bytes, b.toNat < 128) (sum : Nat)
    (start : sum < 2 ^ 31) :
    byteSum sum bytes = if sum + (bytes.map UInt8.toNat).sum < 2 ^ 31 then
      .ok ((sum + (bytes.map UInt8.toNat).sum : Nat) : Int) else .error .overflow := by
  induction bytes generalizing sum with
  | nil => exact (if_pos start).symm
  | cons b bytes ih =>
      have positive : signedByte b = (b.toNat : Int) := if_pos (ascii b (by simp))
      have rest := ih fun c member => ascii c (List.mem_cons_of_mem _ member)
      rw [byteSum, positive, List.map_cons, List.sum_cons]
      by_cases fits : sum + b.toNat < 2 ^ 31
      · have step : addInt sum b.toNat = .ok ((sum + b.toNat : Nat) : Int) := by
          rw [addInt_ok (by omega) (by exact_mod_cast fits)]
          rfl
        rw [step, ok_bind, rest (sum + b.toNat) fits, Nat.add_assoc]
      · have step : addInt sum b.toNat = .error .overflow :=
          if_neg fun range => fits (by exact_mod_cast range.2)
        rw [step, if_neg (by omega)]
        rfl

theorem hash_ascii {key : CStr} (ascii : ∀ b ∈ key.bytes, b.toNat < 128)
    (fits : byteTotal key < 2 ^ 31) : HashSlot key (byteTotal key % maxTableSize) := by
  have sum := byteSum_ascii key.bytes ascii 0 (by decide)
  rw [Nat.zero_add, ← byteTotal, if_pos fits] at sum
  simp only [HashSlot, hash]
  rw [show byteSum 0 key.bytes = .ok ((byteTotal key : Nat) : Int) from sum, ok_bind]
  exact congrArg Except.ok (Int.ofNat_tmod ..).symm

theorem hash_overflow {key : CStr} (ascii : ∀ b ∈ key.bytes, b.toNat < 128)
    (large : 2 ^ 31 ≤ byteTotal key) : hash (some key) maxTableSize = .error .overflow := by
  have sum := byteSum_ascii key.bytes ascii 0 (by decide)
  rw [Nat.zero_add, ← byteTotal, if_neg (not_lt.mpr large)] at sum
  simp only [hash]
  rw [show byteSum 0 key.bytes = .error .overflow from sum]
  rfl

end Sum

/-- Every slot of the table is a chain. -/
def Chains.Full (chains : Chains) : Prop := ∀ s, s < maxTableSize → chains s ≠ none

/-- The finite map the table stands for. -/
def hashView (chains : Chains) (key : CStr) : Option CStr :=
  (hashLookup chains key).map HashItem.value

section Refines

variable {h : HashTable} {chains : Chains} {key : CStr}

theorem Chains.Full.update (full : chains.Full) (s : Nat) (items : List HashItem) :
    Chains.Full (Function.update chains s (some items)) := by
  intro t below
  by_cases same : t = s
  · simp [same]
  · rw [Function.update_of_ne same]
    exact full t below

theorem hashView_update {chains' : Chains} {result : Option HashItem}
    (lookups : ∀ k, hashLookup chains' k = if k = key then result else hashLookup chains k) :
    hashView chains' = Function.update (hashView chains) key (result.map HashItem.value) := by
  funext k
  rw [hashView, lookups k, Function.update_apply]
  split <;> rfl

theorem hashView_eq_none : hashView chains key = none ↔ hashLookup chains key = none := by
  rw [hashView, Option.map_eq_none_iff]

theorem hashAnswer_holds : (hashAnswer chains key).Holds (hashView chains key) := by
  unfold hashAnswer hashView
  cases hashLookup chains key with
  | none => rfl
  | some x => exact ⟨x.valueBlock, rfl⟩

end Refines

/-- The operations of the hash engine on a key whose byte sum is an `int`, as
operations of a finite map. -/
theorem kvsHash_refines_map (h : HashTable) (chains : Chains) (A : Allocator)
    (inv : HashInv h chains) (full : chains.Full) (granted : A.AllSucceed) (key value : CStr)
    (ascii : ∀ b ∈ key.bytes, b.toNat < 128) (fits : byteTotal key < 2 ^ 31) :
    (hashView chains key ≠ none → kvsHashSet h (some key) (some value) A = .ok ((1, h), A)) ∧
    (hashView chains key = none → h.count + 1 < 2 ^ 31 → ∃ h' B chains',
      kvsHashSet h (some key) (some value) A = .ok ((0, h'), B) ∧ HashInv h' chains' ∧
        chains'.Full ∧ hashView chains' = Function.update (hashView chains) key (some value)) ∧
    (hashView chains key ≠ none → ∃ h' B chains',
      kvsHashMod h (some key) (some value) A = .ok ((0, h'), B) ∧ HashInv h' chains' ∧
        chains'.Full ∧ hashView chains' = Function.update (hashView chains) key (some value)) ∧
    (hashView chains key = none → kvsHashMod h (some key) (some value) A = .ok ((1, h), A)) ∧
    (hashView chains key ≠ none → ∃ h' B chains',
      kvsHashDel h (some key) A = .ok ((0, h'), B) ∧ HashInv h' chains' ∧
        chains'.Full ∧ hashView chains' = Function.update (hashView chains) key none) ∧
    (hashView chains key = none → ∃ code, code < 0 ∧
      kvsHashDel h (some key) A = .ok ((code, h), A)) ∧
    (∃ p, kvsHashGet h (some key) = .ok p ∧ p.Holds (hashView chains key)) ∧
    kvsHashExist h (some key) = .ok (if hashView chains key = none then 1 else 0) := by
  have slot := hash_ascii ascii fits
  obtain ⟨items, chain⟩ := Option.ne_none_iff_exists'.mp (full _ slot.lt)
  simp only [ne_eq, hashView_eq_none]
  refine ⟨fun present => kvsHashSet_present value inv slot chain present, ?_, ?_,
    fun absent => kvsHashMod_absent value inv slot chain absent, ?_,
    fun absent => ⟨-1, by decide, kvsHashDel_absent inv slot chain absent⟩,
    ⟨_, kvsHashGet_slot inv slot chain, hashAnswer_holds⟩, kvsHashExist_slot inv slot chain⟩
  · intro absent room
    obtain ⟨h', B, x, ran, -, rfl, inv', -, -, lookups⟩ :=
      kvsHashSet_absent value inv granted slot chain absent room
    exact ⟨h', B, _, ran, inv', full.update _ _, hashView_update lookups⟩
  · intro present
    obtain ⟨h', B, x, items', ran, -, rfl, inv', -, -, lookups⟩ :=
      kvsHashMod_present value inv granted slot chain present
    exact ⟨h', B, _, ran, inv', full.update _ _, hashView_update lookups⟩
  · intro present
    obtain ⟨h', B, items', ran, inv', -, -, lookups⟩ :=
      kvsHashDel_present (A := A) inv slot chain present
    exact ⟨h', B, _, ran, inv', full.update _ _, hashView_update lookups⟩

/-- A table of empty chains. -/
def emptyTable : HashTable := ⟨some fun _ => .chain [], maxTableSize, 0⟩

def emptyChains : Chains := fun _ => some []

theorem emptyTable_inv : HashInv emptyTable emptyChains := by
  refine ⟨⟨_, rfl, fun s _ => rfl⟩, ?_, ?_, ?_, by decide⟩
  · rintro s items - isEmpty x member
    cases isEmpty
    cases member
  · rintro s items - isEmpty
    cases isEmpty
    exact List.nodup_nil
  · simp [Chains.total, emptyChains, emptyTable]

theorem emptyChains_full : emptyChains.Full := fun _ _ => by simp [emptyChains]

/-- `ab` and `ba`, two keys of the byte sum 195. -/
def collidingItems : List HashItem :=
  [⟨1, 2, ⟨[97, 98], by decide⟩, 3, ⟨[43], by decide⟩⟩,
    ⟨4, 5, ⟨[98, 97], by decide⟩, 6, ⟨[45], by decide⟩⟩]

def collidingChains : Chains := Function.update emptyChains 195 (some collidingItems)

/-- The chain of slot 195 holds both keys. -/
def collidingTable : HashTable :=
  ⟨some (Function.update (fun _ => .chain []) 195 (.chain (collidingItems.map HashItem.node))),
    maxTableSize, 2⟩

theorem collidingChains_full : collidingChains.Full := emptyChains_full.update 195 _

theorem collidingTable_inv : HashInv collidingTable collidingChains := by
  have only : ∀ s items, collidingChains s = some items →
      s = 195 ∧ items = collidingItems ∨ items = [] := by
    intro s items chain
    by_cases here : s = 195
    · subst here
      rw [collidingChains, Function.update_self] at chain
      exact Or.inl ⟨rfl, (Option.some.inj chain).symm⟩
    · rw [collidingChains, Function.update_of_ne here] at chain
      exact Or.inr (Option.some.inj chain).symm
  refine ⟨⟨_, rfl, ?_⟩, ?_, ?_, ?_, by decide⟩
  · intro s below
    by_cases here : s = 195
    · subst here
      simp [collidingChains, Bucket.Holds]
    · simp [collidingChains, Function.update_of_ne here, emptyChains, Bucket.Holds]
  · intro s items below chain x member
    rcases only s items chain with ⟨rfl, rfl⟩ | rfl
    · revert x
      decide
    · cases member
  · intro s items below chain
    rcases only s items chain with ⟨-, rfl⟩ | rfl
    · decide
    · exact List.nodup_nil
  · have atFirst : emptyChains 195 = some [] := rfl
    have total := total_update collidingItems (by decide) atFirst
    have none : emptyChains.total = 0 := total_empty fun s items isEmpty =>
      (Option.some.inj isEmpty).symm
    have two : collidingItems.length = 2 := rfl
    simp only [none, two, List.length_nil] at total
    simp only [collidingTable, collidingChains]
    omega

/-- At the slot that `ab` and `ba` share: `AAA` of the same byte sum is added, `ba` behind
`ab` is changed, and `ab` is taken out before `ba`. -/
theorem kvsHash_refines_map_colliding :
    (∃ h' B chains', kvsHashSet collidingTable (some ⟨[65, 65, 65], by decide⟩)
        (some ⟨[51], by decide⟩) .plentiful = .ok ((0, h'), B) ∧ HashInv h' chains' ∧
      hashView chains' ⟨[65, 65, 65], by decide⟩ = some ⟨[51], by decide⟩ ∧
      hashView chains' ⟨[97, 98], by decide⟩ = some ⟨[43], by decide⟩) ∧
    (∃ h' B chains', kvsHashMod collidingTable (some ⟨[98, 97], by decide⟩)
        (some ⟨[51], by decide⟩) .plentiful = .ok ((0, h'), B) ∧ HashInv h' chains' ∧
      hashView chains' ⟨[98, 97], by decide⟩ = some ⟨[51], by decide⟩ ∧
      hashView chains' ⟨[97, 98], by decide⟩ = some ⟨[43], by decide⟩) ∧
    (∃ h' B chains', kvsHashDel collidingTable (some ⟨[97, 98], by decide⟩) .plentiful =
        .ok ((0, h'), B) ∧ HashInv h' chains' ∧ hashView chains' ⟨[97, 98], by decide⟩ = none ∧
      hashView chains' ⟨[98, 97], by decide⟩ = some ⟨[45], by decide⟩) := by
  have refines := fun key ascii fits => kvsHash_refines_map collidingTable collidingChains
    .plentiful collidingTable_inv collidingChains_full Allocator.plentiful_allSucceed key
    ⟨[51], by decide⟩ ascii fits
  have viewAb : hashView collidingChains ⟨[97, 98], by decide⟩ = some ⟨[43], by decide⟩ := by rfl
  have viewBa : hashView collidingChains ⟨[98, 97], by decide⟩ = some ⟨[45], by decide⟩ := by rfl
  have viewAAA : hashView collidingChains ⟨[65, 65, 65], by decide⟩ = none := by rfl
  refine ⟨?_, ?_, ?_⟩
  · obtain ⟨-, set, -⟩ := refines ⟨[65, 65, 65], by decide⟩ (by simp) (by decide)
    obtain ⟨h', B, chains', ran, inv', -, view⟩ := set viewAAA (by decide)
    refine ⟨h', B, chains', ran, inv', ?_, ?_⟩
    · rw [view, Function.update_self]
    · rw [view, Function.update_of_ne (by decide), viewAb]
  · obtain ⟨-, -, mod, -⟩ := refines ⟨[98, 97], by decide⟩ (by simp) (by decide)
    obtain ⟨h', B, chains', ran, inv', -, view⟩ := mod (by rw [viewBa]; simp)
    refine ⟨h', B, chains', ran, inv', ?_, ?_⟩
    · rw [view, Function.update_self]
    · rw [view, Function.update_of_ne (by decide), viewAb]
  · obtain ⟨-, -, -, -, del, -⟩ := refines ⟨[97, 98], by decide⟩ (by simp) (by decide)
    obtain ⟨h', B, chains', ran, inv', -, view⟩ := del (by rw [viewAb]; simp)
    refine ⟨h', B, chains', ran, inv', ?_, ?_⟩
    · rw [view, Function.update_self]
    · rw [view, Function.update_of_ne (by decide), viewBa]

/-- A key of this many bytes 0x7f has a byte sum just above `INT_MAX`. -/
def longLength : Nat := 16909321

def longKey : CStr := ⟨List.replicate longLength 127, fun member =>
  absurd (List.eq_of_mem_replicate member) (by decide)⟩

/-- The sum of the bytes of the long key overflows, and the call never returns. -/
theorem kvsHashSet_long_key :
    HashInv emptyTable emptyChains ∧ emptyChains.Full ∧ (∀ b ∈ longKey.bytes, b.toNat < 128) ∧
      hashView emptyChains longKey = none ∧
      kvsHashSet emptyTable (some longKey) (some ⟨[43], by decide⟩) .plentiful =
        .error .overflow := by
  have ascii : ∀ b ∈ longKey.bytes, b.toNat < 128 := by
    intro b member
    rw [List.eq_of_mem_replicate member]
    decide
  have large : 2 ^ 31 ≤ byteTotal longKey := by
    rw [byteTotal, longKey, List.map_replicate, List.sum_replicate, longLength]
    decide
  have overflow := hash_overflow ascii large
  refine ⟨emptyTable_inv, emptyChains_full, ascii, ?_, ?_⟩
  · rw [hashView, hashLookup, overflow]
    rfl
  · simp only [kvsHashSet, overflow]
    rfl

end LinuxCpp.Kvstore
