import LinuxCpp.C.Memory

set_option autoImplicit false

/- Blocks of memory as lists of bytes: numbers in little-endian order, and reads and
writes that stay inside their block. -/
namespace LinuxCpp.C

/-- The lowest `width` bytes of a number, from the least significant on. -/
def bytesOf : Nat → Nat → List UInt8
  | 0, _ => []
  | width + 1, n => .ofNat n :: bytesOf width (n / 256)

def numberOf : List UInt8 → Nat
  | [] => 0
  | byte :: rest => numberOf rest * 256 + byte.toNat

@[simp] theorem bytesOf_length (width n : Nat) : (bytesOf width n).length = width := by
  induction width generalizing n with
  | zero => rfl
  | succ width ih => exact congrArg (· + 1) (ih (n / 256))

theorem bytesOf_one (n : UInt8) : bytesOf 1 n.toNat = [n] := by
  rw [bytesOf, bytesOf, UInt8.ofNat_toNat]

theorem numberOf_bytesOf (width n : Nat) : numberOf (bytesOf width n) = n % 256 ^ width := by
  induction width generalizing n with
  | zero => exact (Nat.mod_one n).symm
  | succ width ih =>
      show numberOf (bytesOf width (n / 256)) * 256 + (UInt8.ofNat n).toNat = _
      rw [ih, Nat.pow_succ', Nat.mod_mul, UInt8.toNat_ofNat']
      omega

theorem bytesOf_numberOf (bytes : List UInt8) : bytesOf bytes.length (numberOf bytes) = bytes := by
  induction bytes with
  | nil => rfl
  | cons byte rest ih =>
      have small := byte.toNat_lt
      have high : (numberOf rest * 256 + byte.toNat) / 256 = numberOf rest := by omega
      have low : UInt8.ofNat (numberOf rest * 256 + byte.toNat) = byte := by
        rw [← UInt8.toNat_inj, UInt8.toNat_ofNat']
        omega
      show UInt8.ofNat (numberOf rest * 256 + byte.toNat) ::
        bytesOf rest.length ((numberOf rest * 256 + byte.toNat) / 256) = byte :: rest
      rw [high, low, ih]

theorem numberOf_lt (bytes : List UInt8) : numberOf bytes < 256 ^ bytes.length := by
  induction bytes with
  | nil => exact Nat.one_pos
  | cons byte rest ih =>
      have small := byte.toNat_lt
      show numberOf rest * 256 + byte.toNat < 256 ^ (rest.length + 1)
      rw [Nat.pow_succ]
      omega

/-- The bytes of a number in the other order. -/
def swapBytes (width n : Nat) : Nat := numberOf (bytesOf width n).reverse

theorem swapBytes_lt (width n : Nat) : swapBytes width n < 256 ^ width := by
  have bound := numberOf_lt (bytesOf width n).reverse
  rwa [List.length_reverse, bytesOf_length] at bound

theorem swapBytes_swapBytes (width n : Nat) :
    swapBytes width (swapBytes width n) = n % 256 ^ width := by
  have back := bytesOf_numberOf (bytesOf width n).reverse
  rw [List.length_reverse, bytesOf_length] at back
  rw [swapBytes, swapBytes, back, List.reverse_reverse, numberOf_bytesOf]

/-- `n` bytes from offset `i` on. -/
def loadAt (block : List UInt8) (i n : Nat) : Except Fault (List UInt8) :=
  if i + n ≤ block.length then .ok ((block.drop i).take n) else .error .outOfBounds

def storeAt (block : List UInt8) (i : Nat) (bytes : List UInt8) : Except Fault (List UInt8) :=
  if i + bytes.length ≤ block.length then
    .ok (block.take i ++ (bytes ++ block.drop (i + bytes.length)))
  else .error .outOfBounds

def load8 (block : List UInt8) (i : Nat) : Except Fault UInt8 :=
  (loadAt block i 1).map fun bytes => .ofNat (numberOf bytes)

def load16 (block : List UInt8) (i : Nat) : Except Fault UInt16 :=
  (loadAt block i 2).map fun bytes => .ofNat (numberOf bytes)

def load32 (block : List UInt8) (i : Nat) : Except Fault UInt32 :=
  (loadAt block i 4).map fun bytes => .ofNat (numberOf bytes)

/-- Assignments to parts of one block, one after the other. -/
def storeAll (block : List UInt8) : List (Nat × List UInt8) → Except Fault (List UInt8)
  | [] => .ok block
  | write :: writes => do storeAll (← storeAt block write.1 write.2) writes

section Blocks

variable {block block' : List UInt8} {i j n : Nat} {bytes : List UInt8}

theorem loadAt_eq (inside : i + n ≤ block.length) :
    loadAt block i n = .ok ((block.drop i).take n) := if_pos inside

/-- Reads from the first part of a block do not depend on what is behind it. -/
theorem loadAt_left {front : List UInt8} (inside : i + n ≤ front.length) (back : List UInt8) :
    loadAt (front ++ back) i n = .ok ((front.drop i).take n) := by
  rw [loadAt_eq (by rw [List.length_append]; omega), List.drop_append_of_le_length (by omega),
    List.take_append_of_le_length (by rw [List.length_drop]; omega)]

theorem loadAt_ok (loaded : loadAt block i n = .ok bytes) :
    i + n ≤ block.length ∧ bytes = (block.drop i).take n := by
  unfold loadAt at loaded
  split at loaded
  · rename_i inside
    cases loaded
    exact ⟨inside, rfl⟩
  · cases loaded

/-- Reads inside of what is read. -/
theorem loadAt_within {part : List UInt8} (loaded : loadAt block i n = .ok part) {k : Nat}
    (inside : j + k ≤ n) : loadAt part j k = loadAt block (i + j) k := by
  obtain ⟨whole, rfl⟩ := loadAt_ok loaded
  have length : ((block.drop i).take n).length = n :=
    List.length_take_of_le (by rw [List.length_drop]; omega)
  rw [loadAt_eq (by omega), loadAt_eq (by omega), List.drop_take, List.take_take, List.drop_drop]
  congr 2
  omega

/-- Reads from the front part of a block. -/
theorem loadAt_front {front : List UInt8} (loaded : loadAt block 0 n = .ok front) {k : Nat}
    (inside : j + k ≤ n) : loadAt front j k = loadAt block j k := by
  rw [loadAt_within loaded inside, Nat.zero_add]

/-- The first bytes of what is read. -/
theorem loadAt_part {part : List UInt8} (loaded : loadAt block i n = .ok part) {k : Nat}
    (shorter : k ≤ n) : loadAt block i k = .ok (part.take k) := by
  obtain ⟨whole, rfl⟩ := loadAt_ok loaded
  rw [loadAt_eq (by omega), List.take_take, Nat.min_eq_left shorter]

/-- Two reads, one behind the other. -/
theorem loadAt_join {first second : List UInt8} {k : Nat}
    (loaded : loadAt block i n = .ok first) (loaded' : loadAt block (i + n) k = .ok second) :
    loadAt block i (n + k) = .ok (first ++ second) := by
  obtain ⟨inside, rfl⟩ := loadAt_ok loaded
  obtain ⟨inside', rfl⟩ := loadAt_ok loaded'
  rw [loadAt_eq (by omega), List.take_add, List.drop_drop]

/-- The rest of a block, read in two parts. -/
theorem drop_eq_append {first : List UInt8}
    (loaded : loadAt block i n = .ok first) : block.drop i = first ++ block.drop (i + n) := by
  obtain ⟨-, rfl⟩ := loadAt_ok loaded
  rw [← List.drop_drop, List.take_append_drop]

theorem loadAt_drop (inside : i ≤ block.length) :
    loadAt block i (block.length - i) = .ok (block.drop i) := by
  rw [loadAt_eq (by omega), List.take_of_length_le (by rw [List.length_drop])]

theorem loadAt_beyond (beyond : block.length < i + n) : loadAt block i n = .error .outOfBounds :=
  if_neg (by omega)

theorem storeAt_eq (inside : i + bytes.length ≤ block.length) :
    storeAt block i bytes = .ok (block.take i ++ (bytes ++ block.drop (i + bytes.length))) :=
  if_pos inside

theorem storeAt_ok (stored : storeAt block i bytes = .ok block') :
    i + bytes.length ≤ block.length ∧
      block' = block.take i ++ (bytes ++ block.drop (i + bytes.length)) := by
  unfold storeAt at stored
  split at stored
  · rename_i inside
    cases stored
    exact ⟨inside, rfl⟩
  · cases stored

/-- A block up to the end of a write, and behind it. -/
theorem take_storeAt (stored : storeAt block i bytes = .ok block') :
    block'.take (i + bytes.length) = block.take i ++ bytes := by
  obtain ⟨inside, rfl⟩ := storeAt_ok stored
  have front : (block.take i).length = i := List.length_take_of_le (by omega)
  rw [← List.append_assoc, List.take_left' (by rw [List.length_append, front])]

theorem drop_storeAt (stored : storeAt block i bytes = .ok block') (behind : i + bytes.length ≤ j) :
    block'.drop j = block.drop j := by
  obtain ⟨inside, rfl⟩ := storeAt_ok stored
  obtain ⟨k, rfl⟩ := Nat.exists_eq_add_of_le behind
  have front : (block.take i ++ bytes).length = i + bytes.length := by
    rw [List.length_append, List.length_take_of_le (by omega)]
  rw [← List.append_assoc, ← List.drop_drop, List.drop_left' front, List.drop_drop]

theorem storeAt_length (stored : storeAt block i bytes = .ok block') :
    block'.length = block.length := by
  obtain ⟨inside, rfl⟩ := storeAt_ok stored
  simp only [List.length_append, List.length_take, List.length_drop]
  omega

theorem loadAt_storeAt (stored : storeAt block i bytes = .ok block') :
    loadAt block' i bytes.length = .ok bytes := by
  have length := storeAt_length stored
  obtain ⟨inside, rfl⟩ := storeAt_ok stored
  have front : (block.take i).length = i := List.length_take_of_le (by omega)
  rw [loadAt_eq (by omega), List.drop_left' front, List.take_left' rfl]

/-- What a write does not touch. -/
theorem loadAt_storeAt_apart (stored : storeAt block i bytes = .ok block')
    (apart : j + n ≤ i ∨ i + bytes.length ≤ j) : loadAt block' j n = loadAt block j n := by
  have length := storeAt_length stored
  unfold loadAt
  rw [length]
  split
  · obtain ⟨inside, rfl⟩ := storeAt_ok stored
    have front : (block.take i).length = i := List.length_take_of_le (by omega)
    congr 1
    rcases apart with before | after
    · rw [List.drop_append_of_le_length (by omega), List.take_append_of_le_length
        (by rw [List.length_drop]; omega), List.drop_take, List.take_take]
      congr 1
      omega
    · obtain ⟨k, rfl⟩ := Nat.exists_eq_add_of_le after
      rw [← List.append_assoc, List.drop_append, List.drop_eq_nil_of_le, List.nil_append,
        List.drop_drop]
      · simp only [List.length_append, front]
        congr 2
        omega
      · simp only [List.length_append, front]
        omega
  · rfl

/-- The parts of a block in front of a read and behind it. -/
theorem loadAt_parts (loaded : loadAt block i n = .ok bytes) :
    ∃ front back, block = front ++ (bytes ++ back) ∧ front.length = i ∧ bytes.length = n := by
  obtain ⟨inside, rfl⟩ := loadAt_ok loaded
  refine ⟨block.take i, (block.drop i).drop n, ?_, List.length_take_of_le (by omega), ?_⟩
  · rw [List.take_append_drop, List.take_append_drop]
  · rw [List.length_take_of_le (by rw [List.length_drop]; omega)]

theorem loadAt_append {front back : List UInt8} (before : front.length = i)
    (many : bytes.length = n) : loadAt (front ++ (bytes ++ back)) i n = .ok bytes := by
  rw [loadAt_eq (by simp only [List.length_append]; omega), List.drop_left' before,
    List.take_left' many]

theorem storeAt_append {front old back : List UInt8} (before : front.length = i)
    (same : bytes.length = old.length) :
    storeAt (front ++ (old ++ back)) i bytes = .ok (front ++ (bytes ++ back)) := by
  have after : (front ++ (old ++ back)).drop (i + bytes.length) = back := by
    rw [← List.append_assoc, List.drop_left' (by rw [List.length_append]; omega)]
  rw [storeAt_eq (by simp only [List.length_append]; omega), List.take_left' before, after]

/-- A write inside of what is read. -/
theorem loadAt_storeAt_within {part part' : List UInt8} (loaded : loadAt block j n = .ok part)
    (stored : storeAt part i bytes = .ok part') :
    ∃ block', storeAt block (j + i) bytes = .ok block' ∧ loadAt block' j n = .ok part' := by
  obtain ⟨front, back, rfl, before, many⟩ := loadAt_parts loaded
  have length := storeAt_length stored
  obtain ⟨inside, -⟩ := storeAt_ok stored
  obtain ⟨old, overwritten⟩ : ∃ old, loadAt part i bytes.length = .ok old := ⟨_, loadAt_eq inside⟩
  obtain ⟨first, last, rfl, offset, width⟩ := loadAt_parts overwritten
  rw [storeAt_append offset width.symm] at stored
  cases stored
  refine ⟨front ++ first ++ (bytes ++ (last ++ back)), ?_, ?_⟩
  · rw [List.append_assoc first, List.append_assoc, ← List.append_assoc front]
    exact storeAt_append (by rw [List.length_append, before, offset]) width.symm
  · rw [List.append_assoc, ← List.append_assoc bytes, ← List.append_assoc first]
    exact loadAt_append before (length.trans many)

/-- A write over another one of the same place. -/
theorem storeAt_storeAt {bytes' : List UInt8} (stored : storeAt block i bytes = .ok block')
    (same : bytes'.length = bytes.length) : storeAt block' i bytes' = storeAt block i bytes' := by
  have length := storeAt_length stored
  obtain ⟨inside, rfl⟩ := storeAt_ok stored
  have front : (block.take i).length = i := List.length_take_of_le (by omega)
  have tail : (block.take i ++ (bytes ++ block.drop (i + bytes.length))).drop (i + bytes.length) =
      block.drop (i + bytes.length) := by
    rw [← List.append_assoc, List.drop_left' (by rw [List.length_append, front])]
  rw [storeAt_eq (by omega), storeAt_eq (by omega), List.take_left' front, same, tail]

end Blocks

section Writes

variable {block block' : List UInt8} {writes writes' : List (Nat × List UInt8)} {j n : Nat}

/-- Writes inside the block succeed. -/
theorem storeAll_inside (inside : ∀ write ∈ writes, write.1 + write.2.length ≤ block.length) :
    ∃ block', storeAll block writes = .ok block' ∧ block'.length = block.length := by
  induction writes generalizing block with
  | nil => exact ⟨block, rfl, rfl⟩
  | cons write rest ih =>
      have stored := storeAt_eq (inside write List.mem_cons_self)
      have length := storeAt_length stored
      obtain ⟨block', ran, length'⟩ := ih fun later member =>
        length ▸ inside later (List.mem_cons_of_mem write member)
      refine ⟨block', ?_, length'.trans length⟩
      rw [storeAll, stored]
      exact ran

theorem storeAll_ok (ran : storeAll block writes = .ok block') :
    block'.length = block.length ∧ ∀ write ∈ writes, write.1 + write.2.length ≤ block.length := by
  induction writes generalizing block with
  | nil =>
      cases ran
      exact ⟨rfl, fun write member => nomatch member⟩
  | cons write rest ih =>
      rw [storeAll] at ran
      obtain ⟨between, stored, ran⟩ := ok_of_bind ran
      have length := storeAt_length stored
      obtain ⟨length', inside⟩ := ih ran
      rw [length] at length' inside
      exact ⟨length', List.forall_mem_cons.mpr ⟨(storeAt_ok stored).1, inside⟩⟩

theorem loadAt_storeAll_apart (ran : storeAll block writes = .ok block')
    (apart : ∀ write ∈ writes, j + n ≤ write.1 ∨ write.1 + write.2.length ≤ j) :
    loadAt block' j n = loadAt block j n := by
  induction writes generalizing block with
  | nil =>
      cases ran
      rfl
  | cons write rest ih =>
      rw [storeAll] at ran
      obtain ⟨between, stored, ran⟩ := ok_of_bind ran
      rw [ih ran fun later member => apart later (List.mem_cons_of_mem write member)]
      exact loadAt_storeAt_apart stored (apart write List.mem_cons_self)

/-- The last write of a place is what is read there. -/
theorem loadAt_storeAll {k : Nat} {bytes : List UInt8} (ran : storeAll block writes = .ok block')
    (written : writes[k]? = some (j, bytes))
    (apart : ∀ write ∈ writes.drop (k + 1),
      j + bytes.length ≤ write.1 ∨ write.1 + write.2.length ≤ j) :
    loadAt block' j bytes.length = .ok bytes := by
  induction writes generalizing block k with
  | nil => cases written
  | cons write rest ih =>
      rw [storeAll] at ran
      obtain ⟨between, stored, after⟩ := ok_of_bind ran
      cases k with
      | zero =>
          cases written
          rw [loadAt_storeAll_apart after apart]
          exact loadAt_storeAt stored
      | succ k => exact ih after written apart

/-- Writes that keep apart from each other are all there in the end. -/
theorem loadAt_storeAll_mem {write : Nat × List UInt8} (ran : storeAll block writes = .ok block')
    (apart : writes.Pairwise fun a b => a.1 + a.2.length ≤ b.1 ∨ b.1 + b.2.length ≤ a.1)
    (member : write ∈ writes) : loadAt block' write.1 write.2.length = .ok write.2 := by
  induction writes generalizing block with
  | nil => cases member
  | cons first rest ih =>
      rw [storeAll] at ran
      obtain ⟨between, stored, after⟩ := ok_of_bind ran
      obtain ⟨others, apart⟩ := List.pairwise_cons.mp apart
      rcases List.mem_cons.mp member with rfl | later
      · rw [loadAt_storeAll_apart after others]
        exact loadAt_storeAt stored
      · exact ih after apart later

end Writes

section Numbers

variable {block : List UInt8} {i : Nat}

theorem load8_eq {n : UInt8} (loaded : loadAt block i 1 = .ok (bytesOf 1 n.toNat)) :
    load8 block i = .ok n := by
  have small := n.toNat_lt
  rw [load8, loaded, Except.map, numberOf_bytesOf, Nat.mod_eq_of_lt (by exact small),
    UInt8.ofNat_toNat]

theorem load8_of_load {byte : UInt8} (loaded : loadAt block i 1 = .ok [byte]) :
    load8 block i = .ok byte := by
  apply load8_eq
  rw [loaded, bytesOf_one]

theorem load8_at {front rest : List UInt8} {byte : UInt8}
    (split : block = front ++ byte :: rest) : load8 block front.length = .ok byte := by
  have one : [byte].length = 1 := rfl
  rw [split]
  exact load8_of_load (loadAt_append rfl one)

theorem load8_inside (inside : i < block.length) : load8 block i = .ok (block.getD i 0) := by
  apply load8_of_load
  rw [loadAt_eq inside, List.drop_eq_getElem_cons inside, List.take_succ_cons, List.take_zero,
    List.getD_eq_getElem?_getD, List.getElem?_eq_getElem inside]
  rfl

theorem load8_beyond (beyond : block.length ≤ i) : load8 block i = .error .outOfBounds := by
  rw [load8, loadAt_beyond (Nat.lt_succ_of_le beyond)]
  rfl

theorem load16_eq {n : UInt16} (loaded : loadAt block i 2 = .ok (bytesOf 2 n.toNat)) :
    load16 block i = .ok n := by
  have small := n.toNat_lt
  rw [load16, loaded, Except.map, numberOf_bytesOf, Nat.mod_eq_of_lt (by exact small),
    UInt16.ofNat_toNat]

theorem load32_eq {n : UInt32} (loaded : loadAt block i 4 = .ok (bytesOf 4 n.toNat)) :
    load32 block i = .ok n := by
  have small := n.toNat_lt
  rw [load32, loaded, Except.map, numberOf_bytesOf, Nat.mod_eq_of_lt (by exact small),
    UInt32.ofNat_toNat]

end Numbers

end LinuxCpp.C
