import LinuxCpp.Kvstore.ArraySlots

set_option autoImplicit false

namespace LinuxCpp.Kvstore

open C

theorem findIdx_isNone_le_live (slots : List Slot) :
    slots.findIdx Option.isNone ≤ liveSlots slots := by
  induction slots with
  | nil => simp
  | cons slot rest ih =>
      cases slot with
      | none => simp [List.findIdx_cons]
      | some entry =>
          simp only [List.findIdx_cons, Option.isNone_some, liveSlots,
            List.countP_cons_of_pos (show (some entry : Slot).isSome = true from rfl)] at ih ⊢
          simpa using ih

/-- Placing an entry writes one cell: the first hole, or the end. -/
theorem slotsPlace_getElem? (entry : CStr × CStr) (slots : List Slot) (j : Nat) :
    (slotsPlace entry slots)[j]? =
      if j = slots.findIdx Option.isNone then some (some entry) else slots[j]? := by
  induction slots generalizing j with
  | nil => cases j <;> simp [slotsPlace]
  | cons slot rest ih =>
      cases slot with
      | none => cases j <;> simp [slotsPlace, List.findIdx_cons]
      | some old => cases j <;> simp [slotsPlace, List.findIdx_cons, ih]

@[simp] theorem liveSlots_place (entry : CStr × CStr) (slots : List Slot) :
    liveSlots (slotsPlace entry slots) = liveSlots slots + 1 := by
  induction slots with
  | nil => rfl
  | cons slot rest ih =>
      cases slot with
      | none => simp [slotsPlace, liveSlots]
      | some old =>
          simp only [liveSlots] at ih
          simp [slotsPlace, liveSlots, ih]

theorem slotsPlace_length (entry : CStr × CStr) (slots : List Slot) :
    (slotsPlace entry slots).length =
      if slots.findIdx Option.isNone < slots.length then slots.length else slots.length + 1 := by
  induction slots with
  | nil => rfl
  | cons slot rest ih =>
      cases slot with
      | none => simp [slotsPlace, List.findIdx_cons]
      | some old =>
          simp only [slotsPlace, List.findIdx_cons, List.length_cons, ih, Option.isNone_some,
            cond_false]
          split <;> split <;> omega

theorem liveSlots_set_none {slots : List Slot} {i : Nat} {entry : CStr × CStr}
    (occupied : slots[i]? = some (some entry)) :
    liveSlots (slots.set i none) + 1 = liveSlots slots := by
  induction slots generalizing i with
  | nil => simp at occupied
  | cons slot rest ih =>
      cases i with
      | zero =>
          have head : slot = some entry := by simpa using occupied
          simp [liveSlots, head]
      | succ i =>
          have tail := ih (i := i) (by simpa using occupied)
          simp only [liveSlots, List.set_cons_succ, List.countP_cons] at tail ⊢
          omega

theorem liveSlots_set_some {slots : List Slot} {i : Nat} {entry fresh : CStr × CStr}
    (occupied : slots[i]? = some (some entry)) :
    liveSlots (slots.set i (some fresh)) = liveSlots slots := by
  induction slots generalizing i with
  | nil => simp at occupied
  | cons slot rest ih =>
      cases i with
      | zero =>
          have head : slot = some entry := by simpa using occupied
          simp [liveSlots, head]
      | succ i =>
          have tail := ih (i := i) (by simpa using occupied)
          simp only [liveSlots, List.set_cons_succ, List.countP_cons] at tail ⊢
          omega

theorem set_getElem?_of_lt (slots : List Slot) (i : Nat) (slot : Slot) (j : Nat)
    (below : j < (slots.set i slot).length) :
    (slots.set i slot)[j]? = if j = i then some slot else slots[j]? := by
  rw [List.length_set] at below
  rw [List.getElem?_set]
  by_cases same : i = j
  · simp [same, below]
  · simp [same, Ne.symm same]

/-- A slot after a write is the one written, or one that was there before. -/
theorem written_slot {slots slots' : List Slot} {i j : Nat} {slot found : Slot}
    (shape : ∀ j, j < slots'.length → slots'[j]? = if j = i then some slot else slots[j]?)
    (inside : slots'[j]? = some found) :
    (j = i ∧ found = slot) ∨ (j ≠ i ∧ slots[j]? = some found) := by
  obtain ⟨bound, -⟩ := List.getElem?_eq_some_iff.mp inside
  rw [shape j bound] at inside
  by_cases same : j = i
  · rw [if_pos same] at inside
    exact .inl ⟨same, (Option.some.inj inside).symm⟩
  · rw [if_neg same] at inside
    exact .inr ⟨same, inside⟩

/-- One cell write, with `total` adjusted to the new number of live slots. -/
theorem Represents.write {inst : KvsArray} {slots slots' : List Slot}
    (rep : Represents inst slots) {i : Nat} {slot : Slot} (cell : KvsArrayItem)
    (physical : i < kvsArraySize) (bounded : slots'.length ≤ kvsArraySize)
    (shape : ∀ j, j < slots'.length → slots'[j]? = if j = i then some slot else slots[j]?)
    (keyHeld : cell.key.Holds (slot.map Prod.fst))
    (valueHeld : cell.value.Holds (slot.map Prod.snd)) :
    ∃ inst', inst.setItem i cell = .ok inst' ∧ inst'.total = inst.total ∧
      Represents { inst' with total := liveSlots slots' } slots' := by
  obtain ⟨table, present, cells⟩ := rep.cells
  refine ⟨{ inst with table := some (Function.update table i cell) },
    by simp [KvsArray.setItem, present, physical], rfl, bounded, rfl, _, rfl, ?_⟩
  intro j found inside
  obtain ⟨rfl, rfl⟩ | ⟨differs, before⟩ := written_slot shape inside
  · simpa using ⟨keyHeld, valueHeld⟩
  · simpa [Function.update_of_ne differs] using cells j found before

theorem findHole_spec {inst : KvsArray} {slots : List Slot} (keyed : Keyed inst slots)
    (n i : Nat) (within : i + n ≤ slots.length) :
    findHole inst n i =
      .ok ((((slots.drop i).take n).findIdx? Option.isNone).map (i + ·)) := by
  induction n generalizing i with
  | zero => simp [findHole]
  | succ n ih =>
      have inside : i < slots.length := by omega
      obtain ⟨cell, loaded, keyHeld⟩ := keyed.item i _ (List.getElem?_eq_getElem inside)
      rw [List.drop_eq_getElem_cons inside, List.take_succ_cons, List.findIdx?_cons]
      unfold findHole
      cases slot : slots[i] with
      | none =>
          rw [slot] at keyHeld
          have isNull : cell.key = .null := keyHeld
          simp [loaded, bind, Except.bind, isNull, pure, Except.pure]
      | some entry =>
          rw [slot] at keyHeld
          obtain ⟨block, isLive⟩ := keyHeld
          simp only [loaded, bind, Except.bind, isLive, reduceCtorEq, ↓reduceIte,
            ih (i + 1) (by omega), Option.isNone_some, Bool.false_eq_true]
          cases ((slots.drop (i + 1)).take n).findIdx? Option.isNone with
          | none => rfl
          | some index => simp only [Option.map_some, Except.ok.injEq, Option.some.injEq]; omega

theorem Keyed.hole {inst : KvsArray} {slots : List Slot} (keyed : Keyed inst slots) :
    findHole inst inst.total 0 =
      .ok (if slots.findIdx Option.isNone < inst.total then
        some (slots.findIdx Option.isNone) else none) := by
  rw [findHole_spec keyed inst.total 0 (by simpa using keyed.total_le), List.drop_zero]
  congr 1
  split
  · rename_i below
    have inside : slots.findIdx Option.isNone < slots.length :=
      Nat.lt_of_lt_of_le below keyed.total_le
    have found : (slots.take inst.total).findIdx? Option.isNone =
        some (slots.findIdx Option.isNone) := by
      rw [List.findIdx?_eq_some_iff_getElem]
      refine ⟨by rw [List.length_take]; omega, ?_, ?_⟩
      · rw [List.getElem_take]
        exact List.findIdx_getElem
      · intro j earlier
        rw [List.getElem_take]
        rw [List.not_of_lt_findIdx earlier]
        exact Bool.false_ne_true
    simp [found]
  · rename_i above
    have absent : (slots.take inst.total).findIdx? Option.isNone = none := by
      rw [List.findIdx?_eq_none_iff]
      intro slot member
      obtain ⟨j, inside, rfl⟩ := List.getElem_of_mem member
      rw [List.length_take] at inside
      rw [List.getElem_take]
      exact List.not_of_lt_findIdx (by omega)
    simp [absent]

section Operations

variable {inst : KvsArray} {slots : List Slot} {A : Allocator}

theorem kvsArraySet_full (full : inst.total = kvsArraySize)
    (key value : CStr) :
    kvsArraySet inst (some key) (some value) A = .ok ((-1, inst), A) := by
  simp only [kvsArraySet, full, ↓reduceIte]
  rfl

theorem kvsArraySet_present (rep : Represents inst slots) (room : inst.total ≠ kvsArraySize)
    (key value : CStr) (present : slotsGet key (scanned slots) ≠ none) :
    kvsArraySet inst (some key) (some value) A = .ok ((1, inst), A) := by
  obtain ⟨p, got, held⟩ := kvsArrayGet_spec rep key
  have nonNull : p ≠ .null := fun isNull => present (held.eq_null_iff.mp isNull)
  simp only [kvsArraySet, room, ↓reduceIte]
  rw [lift_bind_ok got, if_pos nonNull]
  rfl

theorem kvsArraySet_absent (rep : Represents inst slots) (granted : A.AllSucceed)
    (room : inst.total ≠ kvsArraySize) (key value : CStr)
    (absent : slotsGet key (scanned slots) = none) :
    ∃ inst' A', kvsArraySet inst (some key) (some value) A = .ok ((0, inst'), A') ∧
      Represents inst' (slotsPlace (key, value) slots) ∧ A.Later A' := by
  obtain ⟨p, got, held⟩ := kvsArrayGet_spec rep key
  have isNull : p = .null := held.eq_null_iff.mpr absent
  have first := findIdx_isNone_le_live slots
  have physical : inst.total < kvsArraySize := by
    have := rep.total_le
    have := rep.bounded
    omega
  have fits : (slotsPlace (key, value) slots).length ≤ kvsArraySize := by
    have := rep.bounded
    have := rep.total
    rw [slotsPlace_length]
    split <;> omega
  obtain ⟨inst', stored, total, rep'⟩ := rep.write
    ⟨.live (A.calls + 1) key, .live (A.next.calls + 1) value⟩ (i := slots.findIdx Option.isNone)
    (by have := rep.total; omega) fits (fun j _ => slotsPlace_getElem? _ _ j) ⟨_, rfl⟩ ⟨_, rfl⟩
  refine ⟨{ inst' with total := inst'.total + 1 }, A.next.next, ?_, ?_,
    (Allocator.Later.next A).trans (Allocator.Later.next A.next)⟩
  · simp only [kvsArraySet, room, ↓reduceIte]
    rw [lift_bind_ok got]
    simp only [isNull, ne_eq, not_true_eq_false, ↓reduceIte]
    rw [bind_ok (strdup_run granted key)]
    simp only [reduceCtorEq, ↓reduceIte]
    rw [bind_ok (strdup_run ((Allocator.Later.next A).allSucceed granted) value)]
    simp only [reduceCtorEq, ↓reduceIte]
    rw [lift_bind_ok rep.keyed.hole]
    by_cases below : slots.findIdx Option.isNone < inst.total
    · simp only [below, ↓reduceIte]
      rw [lift_bind_ok stored]
      rfl
    · have atEnd : inst.total = slots.findIdx Option.isNone := by
        have := rep.total
        omega
      simp only [below, physical, ↓reduceIte]
      rw [lift_bind_ok (atEnd ▸ stored)]
      rfl
  · rw [total, rep.total, ← liveSlots_place (key, value) slots]
    exact rep'

theorem kvsArrayDel_absent (rep : Represents inst slots) (key : CStr)
    (clear : NoHoleBefore key (scanned slots)) (absent : slotsGet key (scanned slots) = none) :
    kvsArrayDel inst (some key) A = .ok ((inst.total, inst), A) := by
  have scan := rep.keyed.scan false key (Or.inr clear)
  rw [slotsIndex_eq_none_iff.mpr absent] at scan
  simp only [kvsArrayDel]
  rw [lift_bind_ok scan]
  rfl

theorem kvsArrayDel_hole (keyed : Keyed inst slots) (key : CStr)
    (hole : ¬ NoHoleBefore key (scanned slots)) :
    kvsArrayDel inst (some key) A = .error .nullDeref := by
  have scan := scanKey_hole keyed key inst.total 0 (by simpa using keyed.total_le)
    (by rwa [List.drop_zero, keyed.total])
  simp only [kvsArrayDel, scan]
  rfl

theorem kvsArrayDel_present (rep : Represents inst slots) (key : CStr) {i : Nat}
    (clear : NoHoleBefore key (scanned slots))
    (found : slotsIndex key (scanned slots) = some i) :
    ∃ inst' A', kvsArrayDel inst (some key) A = .ok ((0, inst'), A') ∧
      Represents inst' (slots.set i none) ∧ A.Later A' := by
  have scan := rep.keyed.scan false key (Or.inr clear)
  rw [found] at scan
  obtain ⟨value, atIndex, -⟩ := slotsIndex_some found
  have occupied := scanned_getElem? atIndex
  obtain ⟨cell, loaded, ⟨keyBlock, keyLive⟩, valueBlock, valueLive⟩ := rep.item occupied
  have inside := (List.getElem?_eq_some_iff.mp occupied).1
  obtain ⟨inst', stored, total, rep'⟩ := rep.write ⟨.null, .null⟩
    (Nat.lt_of_lt_of_le inside rep.bounded) (by simpa using rep.bounded)
    (set_getElem?_of_lt slots i none) rfl rfl
  refine ⟨{ inst' with total := inst'.total - 1 },
    { A with freed := valueBlock :: keyBlock :: A.freed }, ?_, ?_, ⟨rfl, rfl, Nat.le_refl _⟩⟩
  · simp only [kvsArrayDel]
    rw [lift_bind_ok scan]
    simp only
    rw [lift_bind_ok loaded, keyLive, valueLive, bind_ok (free_live A keyBlock key),
      bind_ok (free_live _ valueBlock value), lift_bind_ok stored]
    rfl
  · rw [total, rep.total, ← liveSlots_set_none occupied, Nat.add_sub_cancel]
    exact rep'

theorem kvsArrayMod_absent (rep : Represents inst slots) (key value : CStr)
    (absent : slotsGet key (scanned slots) = none) :
    ∃ code : Int, 0 < code ∧
      kvsArrayMod inst (some key) (some value) A = .ok ((code, inst), A) := by
  have scan := rep.keyed.scan true key (Or.inl rfl)
  rw [slotsIndex_eq_none_iff.mpr absent] at scan
  by_cases empty : inst.total = 0
  · refine ⟨kvsArraySize, by decide, ?_⟩
    simp only [kvsArrayMod, empty, ↓reduceIte]
    rfl
  · refine ⟨inst.total, by omega, ?_⟩
    simp only [kvsArrayMod, empty, ↓reduceIte]
    rw [lift_bind_ok scan]
    rfl

/-- A scan that finds a slot had slots to look at. -/
theorem Represents.total_ne_zero (rep : Represents inst slots) {i : Nat} {slot : Slot}
    (atIndex : (scanned slots)[i]? = some slot) : inst.total ≠ 0 := by
  have bound := (List.getElem?_eq_some_iff.mp atIndex).1
  rw [scanned, List.length_take] at bound
  have := rep.total
  omega

theorem kvsArrayMod_present (rep : Represents inst slots) (granted : A.AllSucceed)
    (key value : CStr) {i : Nat} (found : slotsIndex key (scanned slots) = some i) :
    ∃ inst' A', kvsArrayMod inst (some key) (some value) A = .ok ((0, inst'), A') ∧
      Represents inst' (slots.set i (some (key, value))) ∧ A.Later A' := by
  have scan := rep.keyed.scan true key (Or.inl rfl)
  rw [found] at scan
  obtain ⟨old, atIndex, -⟩ := slotsIndex_some found
  have occupied := scanned_getElem? atIndex
  obtain ⟨cell, loaded, keyHeld, valueBlock, valueLive⟩ := rep.item occupied
  have inside := (List.getElem?_eq_some_iff.mp occupied).1
  have nonempty := rep.total_ne_zero atIndex
  obtain ⟨inst', stored, total, rep'⟩ := rep.write
    { cell with value := .live (A.calls + 1) value }
    (Nat.lt_of_lt_of_le inside rep.bounded) (by simpa using rep.bounded)
    (set_getElem?_of_lt slots i (some (key, value))) keyHeld ⟨_, rfl⟩
  refine ⟨inst', { A.next with freed := valueBlock :: A.freed }, ?_, ?_,
    ⟨rfl, rfl, Nat.le_succ _⟩⟩
  · simp only [kvsArrayMod, nonempty, ↓reduceIte]
    rw [lift_bind_ok scan]
    simp only
    rw [lift_bind_ok loaded, valueLive, bind_ok (free_live A valueBlock old),
      bind_ok (strdup_run (A := { A with freed := valueBlock :: A.freed }) granted value)]
    simp only
    rw [lift_bind_ok stored]
    rfl
  · have same : inst'.total = liveSlots (slots.set i (some (key, value))) := by
      rw [total, rep.total, liveSlots_set_some occupied]
    rw [← same] at rep'
    exact rep'

theorem kvsArrayExist_spec (rep : Represents inst slots) (key : CStr) :
    kvsArrayExist inst (some key) =
      .ok (if slotsGet key (scanned slots) = none then 1 else 0) := by
  obtain ⟨p, got, held⟩ := kvsArrayGet_spec rep key
  simp only [kvsArrayExist, got, bind, Except.bind, held.eq_null_iff]
  split <;> rfl

end Operations

end LinuxCpp.Kvstore
