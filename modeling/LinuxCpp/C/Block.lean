import LinuxCpp.C.Bytes

set_option autoImplicit false

/- Blocks of a fixed size, as the buffers of a structure are. -/
namespace LinuxCpp.C

structure Block (size : Nat) where
  bytes : List UInt8
  length : bytes.length = size
deriving DecidableEq, Repr

namespace Block

variable {size : Nat}

/-- The block after `memset(b, 0, size)`. -/
def zeroed (size : Nat) : Block size := ⟨List.replicate size 0, List.length_replicate⟩

/-- A block that begins with these bytes; the others are zero. -/
def holding (bytes : List UInt8) (fits : bytes.length ≤ size) : Block size :=
  ⟨bytes ++ List.replicate (size - bytes.length) 0, by
    rw [List.length_append, List.length_replicate]
    omega⟩

def load (b : Block size) (i n : Nat) : Except Fault (List UInt8) := loadAt b.bytes i n

def store (b : Block size) (i : Nat) (bytes : List UInt8) : Except Fault (Block size) :=
  if inside : i + bytes.length ≤ size then
    .ok ⟨b.bytes.take i ++ (bytes ++ b.bytes.drop (i + bytes.length)), by
      have length := b.length
      simp only [List.length_append, List.length_take, List.length_drop]
      omega⟩
  else .error .outOfBounds

variable {b b' : Block size} {i j n : Nat} {bytes : List UInt8}

theorem storeAt_of_store (stored : b.store i bytes = .ok b') :
    storeAt b.bytes i bytes = .ok b'.bytes := by
  unfold store at stored
  split at stored
  · rename_i inside
    cases stored
    exact storeAt_eq (by rw [b.length]; exact inside)
  · cases stored

theorem store_inside (b : Block size) (bytes : List UInt8) (inside : i + bytes.length ≤ size) :
    ∃ b', b.store i bytes = .ok b' := by
  unfold store
  rw [dif_pos inside]
  exact ⟨_, rfl⟩

theorem store_beyond (beyond : size < i + bytes.length) :
    b.store i bytes = .error .outOfBounds := by
  rw [store, dif_neg (Nat.not_le_of_lt beyond)]

theorem load_store (stored : b.store i bytes = .ok b') : b'.load i bytes.length = .ok bytes :=
  loadAt_storeAt (storeAt_of_store stored)

/-- What a write does not touch. -/
theorem load_store_apart (stored : b.store i bytes = .ok b')
    (apart : j + n ≤ i ∨ i + bytes.length ≤ j) : b'.load j n = b.load j n :=
  loadAt_storeAt_apart (storeAt_of_store stored) apart

theorem store_split (bytes : List UInt8) {front old back : List UInt8}
    (split : b.bytes = front ++ (old ++ back))
    (before : front.length = i) (same : bytes.length = old.length) :
    ∃ b', b.store i bytes = .ok b' ∧ b'.bytes = front ++ (bytes ++ back) := by
  have length := congrArg List.length split
  rw [b.length] at length
  simp only [List.length_append] at length
  obtain ⟨b', stored⟩ := b.store_inside (i := i) bytes (by omega)
  refine ⟨b', stored, ?_⟩
  have written := storeAt_of_store stored
  rw [split, storeAt_append before same] at written
  exact (Except.ok.inj written).symm

/-- A write to the whole block. -/
theorem store_whole (b : Block size) (all : bytes.length = size) :
    b.store 0 bytes = .ok ⟨bytes, all⟩ := by
  have behind : b.bytes.drop (0 + bytes.length) = [] := by
    rw [Nat.zero_add]
    exact List.drop_eq_nil_of_le (by rw [b.length, all])
  unfold store
  rw [dif_pos (by omega)]
  simp only [behind, List.append_nil, List.take_zero, List.nil_append]

/-- Two writes, the second one behind the first. -/
theorem load_stores {bytes' : List UInt8} {b'' : Block size} (stored : b.store i bytes = .ok b')
    (stored' : b'.store (i + bytes.length) bytes' = .ok b'') :
    b''.load i (bytes.length + bytes'.length) = .ok (bytes ++ bytes') := by
  have first := (load_store_apart stored' (.inl (Nat.le_refl _))).trans (load_store stored)
  exact loadAt_join first (load_store stored')

theorem load_inside (inside : i + n ≤ size) : ∃ bytes, b.load i n = .ok bytes := by
  refine ⟨_, loadAt_eq ?_⟩
  rw [b.length]
  exact inside

theorem load_whole (bytes : List UInt8) :
    (⟨bytes, rfl⟩ : Block bytes.length).load 0 bytes.length = .ok bytes := by
  unfold load
  rw [loadAt_eq (Nat.le_of_eq (Nat.zero_add _)), List.drop_zero, List.take_length]

/-- A part of the bytes that a block begins with. -/
theorem load_holding (fits : bytes.length ≤ size) (front middle back : List UInt8)
    (parts : bytes = front ++ (middle ++ back)) (at_ : front.length = i)
    (many : middle.length = n) : (holding bytes fits).load i n = .ok middle := by
  have whole : (holding bytes fits).bytes =
      front ++ (middle ++ (back ++ List.replicate (size - bytes.length) 0)) := by
    simp [holding, parts]
  have inside : i + n ≤ (holding bytes fits).bytes.length := by
    rw [whole]
    simp only [List.length_append]
    omega
  unfold load
  rw [loadAt_eq inside, whole, List.drop_left' at_, List.take_left' many]

end Block

end LinuxCpp.C
