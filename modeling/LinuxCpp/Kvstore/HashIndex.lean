import LinuxCpp.C.Avoids
import LinuxCpp.Kvstore.Hash
import Mathlib.Algebra.BigOperators.Group.List.Basic
import Mathlib.Tactic.Linarith

set_option autoImplicit false

/- The slot computed by `_hash` for keys of any bytes. -/
namespace LinuxCpp.Kvstore

open C

/-- The sum of the bytes as signed characters. -/
def charSum (bytes : List UInt8) : Int := (bytes.map signedByte).sum

def FitsInt (n : Int) : Prop := -2 ^ 31 ≤ n ∧ n < 2 ^ 31

instance (n : Int) : Decidable (FitsInt n) := inferInstanceAs (Decidable (_ ∧ _))

@[simp] theorem charSum_nil : charSum [] = 0 := rfl

@[simp] theorem charSum_cons (b : UInt8) (bytes : List UInt8) :
    charSum (b :: bytes) = signedByte b + charSum bytes := by
  simp [charSum]

/-- The loop returns the sum if none of its partial sums leaves the range of `int`. -/
theorem byteSum_ok_iff (bytes : List UInt8) (sum n : Int) (fits : FitsInt sum) :
    byteSum sum bytes = .ok n ↔ n = sum + charSum bytes ∧
      ∀ first, first <+: bytes → FitsInt (sum + charSum first) := by
  induction bytes generalizing sum with
  | nil =>
      constructor
      · intro ran
        cases ran
        refine ⟨by simp, fun first isPrefix => ?_⟩
        rw [List.prefix_nil.mp isPrefix]
        simpa using fits
      · rintro ⟨rfl, -⟩
        simp [byteSum, charSum]
  | cons b bytes ih =>
      by_cases next : FitsInt (sum + signedByte b)
      · have added : addInt sum (signedByte b) = .ok (sum + signedByte b) := if_pos next
        rw [byteSum, added, ok_bind, ih _ next, charSum_cons, add_assoc]
        refine and_congr_right fun _ => ⟨fun all first isPrefix => ?_, fun all first isPrefix => ?_⟩
        · cases first with
          | nil => simpa using fits
          | cons c first =>
              obtain ⟨rfl, shorter⟩ := List.cons_prefix_cons.mp isPrefix
              rw [charSum_cons, ← add_assoc]
              exact all first shorter
        · have longer := all (b :: first) (List.cons_prefix_cons.mpr ⟨rfl, isPrefix⟩)
          rwa [charSum_cons, ← add_assoc] at longer
      · have added : addInt sum (signedByte b) = .error .overflow := if_neg next
        rw [byteSum, added]
        refine ⟨fun ran => (by cases ran), fun ⟨_, all⟩ => absurd (all [b] ?_) ?_⟩
        · exact List.cons_prefix_cons.mpr ⟨rfl, List.nil_prefix⟩
        · simpa using next

/-- No partial sum of `_hash` overflows. -/
def SumsFit (key : CStr) : Prop := ∀ first, first <+: key.bytes → FitsInt (charSum first)

theorem hash_ok_iff (key : CStr) (slot : Int) :
    hash (some key) maxTableSize = .ok slot ↔
      slot = Int.tmod (charSum key.bytes) maxTableSize ∧ SumsFit key := by
  have sum := fun n => byteSum_ok_iff key.bytes 0 n (by decide)
  simp only [zero_add] at sum
  simp only [hash]
  cases run : byteSum 0 key.bytes with
  | error fault =>
      refine ⟨fun ran => (by cases ran), fun ⟨_, all⟩ => ?_⟩
      rw [(sum _).mpr ⟨rfl, all⟩] at run
      cases run
  | ok n =>
      obtain ⟨rfl, all⟩ := (sum n).mp run
      simp only [ok_bind]
      exact ⟨fun ran => ⟨(Except.ok.inj ran).symm, all⟩, fun ⟨same, _⟩ => by rw [same]; rfl⟩

/-- The remainder of C has the sign of the dividend. -/
theorem tmod_nonneg_iff (n : Int) : 0 ≤ Int.tmod n maxTableSize ↔
    0 ≤ n ∨ (maxTableSize : Int) ∣ n := by
  have positive : (0 : Int) < maxTableSize := by decide
  constructor
  · intro slot
    by_contra neither
    simp only [not_or, not_le] at neither
    have nonpos : Int.tmod n maxTableSize ≤ 0 := by
      have mirrored := Int.tmod_nonneg (maxTableSize : Int) (show 0 ≤ -n by omega)
      rw [Int.neg_tmod] at mirrored
      omega
    exact neither.2 (Int.dvd_of_tmod_eq_zero (by omega))
  · rintro (nonneg | divides)
    · exact Int.tmod_nonneg _ nonneg
    · rw [Int.tmod_eq_zero_of_dvd divides]

/-- `_hash` returns a slot of the table. -/
def SlotInside (key : CStr) : Prop :=
  ∃ slot, hash (some key) maxTableSize = .ok slot ∧ 0 ≤ slot ∧ slot < maxTableSize

theorem slotInside_iff (key : CStr) : SlotInside key ↔
    SumsFit key ∧ (0 ≤ charSum key.bytes ∨ (maxTableSize : Int) ∣ charSum key.bytes) := by
  rw [← tmod_nonneg_iff]
  constructor
  · rintro ⟨slot, ran, nonneg, -⟩
    obtain ⟨rfl, fits⟩ := (hash_ok_iff key slot).mp ran
    exact ⟨fits, nonneg⟩
  · rintro ⟨fits, nonneg⟩
    exact ⟨_, (hash_ok_iff key _).mpr ⟨rfl, fits⟩, nonneg, Int.tmod_lt_of_pos _ (by decide)⟩

section Operations

variable {h : HashTable} {key : CStr} {A : Allocator}

theorem load_inside {slot : Int} (nonneg : 0 ≤ slot) (below : slot < maxTableSize) :
    h.load slot ≠ .error .outOfBounds := by
  unfold HashTable.load
  split
  · simp
  · rw [if_pos ⟨nonneg, below⟩]
    simp

theorem walk_inside (b : Bucket) : b.walk ≠ .error .outOfBounds := by
  cases b <;> simp [Bucket.walk]

theorem findNode_inside (key : CStr) (nodes : List HashNode) :
    findNode key nodes ≠ .error .outOfBounds := by
  induction nodes with
  | nil => exact pure_ne_error _
  | cons node rest ih =>
      refine bind_ne_error (deref_inside _) fun str _ => ?_
      split
      · exact pure_ne_error _
      · exact bind_ne_error ih fun _ _ => pure_ne_error _

theorem unlinkNext_inside (key : CStr) (nodes : List HashNode) :
    unlinkNext key nodes ≠ .error .outOfBounds := by
  induction nodes with
  | nil => exact pure_ne_error _
  | cons node rest ih =>
      refine bind_ne_error (deref_inside _) fun str _ => ?_
      split
      · exact pure_ne_error _
      · exact bind_ne_error ih fun _ _ => pure_ne_error _

theorem addInt_inside (a b : Int) : addInt a b ≠ .error .outOfBounds := by
  unfold addInt
  split <;> simp

/-- The nodes of the chain a key of the table's range leads to. -/
theorem chain_inside (inside : SlotInside key) {slot : Int}
    (isSlot : hash (some key) maxTableSize = .ok slot) : h.load slot ≠ .error .outOfBounds := by
  obtain ⟨other, same, nonneg, below⟩ := inside
  rw [isSlot] at same
  cases same
  exact load_inside nonneg below

theorem hash_inside (inside : SlotInside key) :
    hash (some key) maxTableSize ≠ .error .outOfBounds := by
  obtain ⟨slot, isSlot, -, -⟩ := inside
  rw [isSlot]
  simp

theorem kvsHashGet_inside (inside : SlotInside key) :
    kvsHashGet h (some key) ≠ .error .outOfBounds := by
  simp only [kvsHashGet]
  refine bind_ne_error (hash_inside inside) fun slot isSlot => ?_
  refine bind_ne_error (chain_inside inside isSlot) fun b _ => ?_
  refine bind_ne_error (walk_inside b) fun nodes _ => ?_
  refine bind_ne_error (findNode_inside key nodes) fun found _ => ?_
  cases found <;> exact pure_ne_error _

theorem createNode_inside (key value : CStr) (A : Allocator) :
    Avoids .outOfBounds (createNode key value) A := by
  refine .malloc (fun _ => .pure _) fun _ => ?_
  refine .bind (strdup_inside key _) fun kcopy B _ => .ite (fun _ => .pure _) fun _ => ?_
  exact .bind (strdup_inside value B) fun kvalue C _ => .ite (fun _ => .pure _) fun _ => .pure _

theorem kvsHashSet_inside (inside : SlotInside key) (value : CStr) :
    Avoids .outOfBounds (kvsHashSet h (some key) (some value)) A := by
  simp only [kvsHashSet]
  refine .after (hash_inside inside) fun slot isSlot => ?_
  refine .after (chain_inside inside isSlot) fun b _ => .after (walk_inside b) fun nodes _ => ?_
  refine .after (findNode_inside key nodes) fun found _ => .ite (fun _ => .pure _) fun _ => ?_
  refine .bind (createNode_inside key value A) fun made B _ => ?_
  cases made with
  | none => exact .throw (by simp)
  | some node => exact .after (addInt_inside _ _) fun _ _ => .pure _

theorem kvsHashMod_inside (inside : SlotInside key) (value : Option CStr) :
    Avoids .outOfBounds (kvsHashMod h (some key) value) A := by
  simp only [kvsHashMod]
  refine .after (hash_inside inside) fun slot isSlot => ?_
  refine .after (chain_inside inside isSlot) fun b _ => .after (walk_inside b) fun nodes _ => ?_
  refine .after (findNode_inside key nodes) fun found _ => ?_
  cases found with
  | none => exact .pure _
  | some i =>
      refine .bind (free_inside _ A) fun _ B _ => ?_
      cases value with
      | none => exact .throw (by simp)
      | some value =>
          exact .bind (strdup_inside value B) fun kvalue C _ =>
            .ite (fun _ => .pure _) fun _ => .pure _

theorem kvsHashDel_inside (inside : SlotInside key) :
    Avoids .outOfBounds (kvsHashDel h (some key)) A := by
  have frees : ∀ block B, Avoids .outOfBounds (freeBlock block) B := fun _ _ => .of_ok rfl
  simp only [kvsHashDel]
  refine .after (hash_inside inside) fun slot isSlot => ?_
  refine .after (chain_inside inside isSlot) fun b _ => .after (walk_inside b) fun nodes _ => ?_
  cases nodes with
  | nil => exact .pure _
  | cons head rest =>
      refine .after (deref_inside _) fun str _ => .ite (fun _ => ?_) fun _ => ?_
      · exact .bind (frees _ A) fun _ _ _ => .after (addInt_inside _ _) fun _ _ => .pure _
      · refine .after (unlinkNext_inside key rest) fun found _ => ?_
        cases found with
        | none => exact .pure _
        | some unlinked =>
            refine .bind (free_inside _ A) fun _ B _ => .bind (free_inside _ B) fun _ C _ => ?_
            exact .bind (frees _ C) fun _ _ _ => .after (addInt_inside _ _) fun _ _ => .pure _

/-- The four calls index `hash->nodes` within the table, whatever it holds. -/
def IndexesInside (key : CStr) : Prop :=
  ∀ (h : HashTable) (value : CStr) (A : Allocator),
    Avoids .outOfBounds (kvsHashSet h (some key) (some value)) A ∧
    kvsHashGet h (some key) ≠ .error .outOfBounds ∧
    Avoids .outOfBounds (kvsHashMod h (some key) (some value)) A ∧
    Avoids .outOfBounds (kvsHashDel h (some key)) A

/-- `_hash` returns a slot of the table, and the calls index within it, exactly for the
keys whose characters add up, within `int`, to no negative number or to a multiple of
the table size. -/
theorem hash_index_inside_iff (key : CStr) : SlotInside key ∧ IndexesInside key ↔
    SumsFit key ∧ (0 ≤ charSum key.bytes ∨ (maxTableSize : Int) ∣ charSum key.bytes) := by
  rw [← slotInside_iff]
  refine and_iff_left_of_imp fun inside h value A => ?_
  exact ⟨kvsHashSet_inside inside value, kvsHashGet_inside inside,
    kvsHashMod_inside inside (some value), kvsHashDel_inside inside⟩

/-- The two bytes of a Latin letter beyond ASCII, in UTF-8: the slot is −148. -/
theorem hash_index_negative :
    hash (some ⟨[195, 169], by decide⟩) maxTableSize = .ok (-148) ∧
    ¬ SlotInside ⟨[195, 169], by decide⟩ ∧
    kvsHashGet ⟨some fun _ => .chain [], maxTableSize, 0⟩ (some ⟨[195, 169], by decide⟩) =
      .error .outOfBounds := by
  refine ⟨rfl, ?_, rfl⟩
  rintro ⟨slot, ran, nonneg, -⟩
  cases ran
  exact absurd nonneg (by decide)

end Operations

end LinuxCpp.Kvstore
