import LinuxCpp.Kvstore.Array
import Mathlib.Data.List.Basic

set_option autoImplicit false

/- The array engine as a list of slots: each cell ever written is a hole or
holds one key and its value. Scans of the source see only the first `total`
slots, and `total` counts the live ones. -/
namespace LinuxCpp.Kvstore

open C

abbrev Slot := Option (CStr × CStr)

def liveSlots (slots : List Slot) : Nat := slots.countP Option.isSome

/-- The value found by a scan that skips holes. -/
def slotsGet (key : CStr) (slots : List Slot) : Option CStr :=
  slots.findSome? fun slot => slot.bind fun entry => if entry.1 = key then some entry.2 else none

/-- The index found by a scan that skips holes. -/
def slotsIndex (key : CStr) (slots : List Slot) : Option Nat :=
  slots.findIdx? fun slot => slot.any fun entry => entry.1 = key

/-- No hole stands before the slot of the key, or anywhere if it is absent. -/
def NoHoleBefore (key : CStr) : List Slot → Prop
  | [] => True
  | none :: _ => False
  | some entry :: rest => entry.1 = key ∨ NoHoleBefore key rest

/-- The first hole is filled, else the entry goes to the end. -/
def slotsPlace (entry : CStr × CStr) : List Slot → List Slot
  | [] => [some entry]
  | none :: rest => some entry :: rest
  | some old :: rest => some old :: slotsPlace entry rest

/-- What the loops of the source look at. -/
def scanned (slots : List Slot) : List Slot := slots.take (liveSlots slots)

structure Represents (inst : KvsArray) (slots : List Slot) : Prop where
  bounded : slots.length ≤ kvsArraySize
  total : inst.total = liveSlots slots
  cells : ∃ table, inst.table = some table ∧ ∀ i slot, slots[i]? = some slot →
    (table i).key.Holds (slot.map Prod.fst) ∧ (table i).value.Holds (slot.map Prod.snd)

/-- The keys of the slots; the values may be anything. -/
structure Keyed (inst : KvsArray) (slots : List Slot) : Prop where
  bounded : slots.length ≤ kvsArraySize
  total : inst.total = liveSlots slots
  item : ∀ i slot, slots[i]? = some slot →
    ∃ cell, inst.item i = .ok cell ∧ cell.key.Holds (slot.map Prod.fst)

theorem liveSlots_le (slots : List Slot) : liveSlots slots ≤ slots.length := List.countP_le_length

theorem Keyed.total_le {inst : KvsArray} {slots : List Slot} (keyed : Keyed inst slots) :
    inst.total ≤ slots.length :=
  keyed.total ▸ liveSlots_le slots

namespace Represents

variable {inst : KvsArray} {slots : List Slot}

theorem item (rep : Represents inst slots) {i : Nat} {slot : Slot}
    (found : slots[i]? = some slot) :
    ∃ cell, inst.item i = .ok cell ∧ cell.key.Holds (slot.map Prod.fst) ∧
      cell.value.Holds (slot.map Prod.snd) := by
  obtain ⟨table, present, cells⟩ := rep.cells
  have inside : i < slots.length := (List.getElem?_eq_some_iff.mp found).1
  have physical : i < kvsArraySize := Nat.lt_of_lt_of_le inside rep.bounded
  exact ⟨table i, by simp [KvsArray.item, present, physical], cells i slot found⟩

theorem keyed (rep : Represents inst slots) : Keyed inst slots := by
  refine ⟨rep.bounded, rep.total, fun i slot found => ?_⟩
  obtain ⟨cell, loaded, keyHeld, -⟩ := rep.item found
  exact ⟨cell, loaded, keyHeld⟩

theorem total_le (rep : Represents inst slots) : inst.total ≤ slots.length := rep.keyed.total_le

end Represents

/-- The scan of the source is the search in the slot list, except that the
delete scan passes the NULL key of a hole to `strcmp`. -/
theorem scanKey_found {inst : KvsArray} {slots : List Slot} (keyed : Keyed inst slots)
    (skipHoles : Bool) (key : CStr) (n i : Nat) (within : i + n ≤ slots.length)
    (clear : skipHoles = true ∨ NoHoleBefore key ((slots.drop i).take n)) :
    scanKey skipHoles inst key n i =
      .ok ((slotsIndex key ((slots.drop i).take n)).map (i + ·)) := by
  induction n generalizing i with
  | zero => simp [scanKey, slotsIndex]
  | succ n ih =>
      have inside : i < slots.length := by omega
      obtain ⟨cell, loaded, keyHeld⟩ := keyed.item i _ (List.getElem?_eq_getElem inside)
      have front : (slots.drop i).take (n + 1) = slots[i] :: (slots.drop (i + 1)).take n := by
        rw [List.drop_eq_getElem_cons inside, List.take_succ_cons]
      rw [front] at clear ⊢
      have rest := fun clear => ih (i + 1) (by omega) clear
      have shift : ∀ found : Option Nat,
          found.map (i + 1 + ·) = (found.map (· + 1)).map (i + ·) := by
        intro found
        cases found with
        | none => rfl
        | some index => simp only [Option.map_some, Option.some.injEq]; omega
      unfold scanKey
      cases slot : slots[i] with
      | none =>
          rw [slot] at keyHeld clear
          have isNull : cell.key = .null := keyHeld
          have skips : skipHoles = true := clear.resolve_right (by simp [NoHoleBefore])
          simp only [loaded, bind, Except.bind, skips, isNull, and_self, ↓reduceIte]
          rw [← skips, rest (Or.inl skips), shift]
          simp [slotsIndex, List.findIdx?_cons]
      | some entry =>
          rw [slot] at keyHeld clear
          obtain ⟨block, isLive⟩ := keyHeld
          by_cases same : entry.1 = key
          · simp [loaded, bind, Except.bind, isLive, same, slotsIndex, List.findIdx?_cons, pure,
              Except.pure]
          · have clear' := clear.imp_right (fun h => h.resolve_left same)
            simp only [loaded, bind, Except.bind, isLive, reduceCtorEq, and_false, ↓reduceIte,
              CPtr.deref_live, strcmp_eq_zero, same]
            rw [rest clear', shift]
            simp [slotsIndex, List.findIdx?_cons, same]

theorem slotsIndex_none {key : CStr} {slots : List Slot} (absent : slotsIndex key slots = none) :
    slotsGet key slots = none := by
  simp only [slotsIndex, List.findIdx?_eq_none_iff] at absent
  simp only [slotsGet, List.findSome?_eq_none_iff]
  intro slot member
  cases slot with
  | none => rfl
  | some entry => simpa using absent (some entry) member

theorem slotsIndex_some {key : CStr} {slots : List Slot} {i : Nat}
    (found : slotsIndex key slots = some i) :
    ∃ value, slots[i]? = some (some (key, value)) ∧ slotsGet key slots = some value := by
  induction slots generalizing i with
  | nil => simp [slotsIndex] at found
  | cons slot rest ih =>
      simp only [slotsIndex, List.findIdx?_cons] at found
      cases slot with
      | none =>
          simp only [Option.any_none, Bool.false_eq_true, ↓reduceIte,
            Option.map_eq_some_iff] at found
          obtain ⟨j, later, rfl⟩ := found
          obtain ⟨value, atIndex, get⟩ := ih later
          exact ⟨value, by simpa using atIndex, by simpa [slotsGet] using get⟩
      | some entry =>
          by_cases same : entry.1 = key
          · have first : 0 = i := by simpa [same] using found
            subst first
            exact ⟨entry.2, by simp [← same], by simp [slotsGet, same]⟩
          · simp only [Option.any_some, same, decide_false, Bool.false_eq_true, ↓reduceIte,
              Option.map_eq_some_iff] at found
            obtain ⟨j, later, rfl⟩ := found
            obtain ⟨value, atIndex, get⟩ := ih later
            exact ⟨value, by simpa using atIndex, by simpa [slotsGet, same] using get⟩

theorem slotsIndex_eq_none_iff {key : CStr} {slots : List Slot} :
    slotsIndex key slots = none ↔ slotsGet key slots = none := by
  refine ⟨slotsIndex_none, fun absent => ?_⟩
  cases index : slotsIndex key slots with
  | none => rfl
  | some i =>
      obtain ⟨value, -, get⟩ := slotsIndex_some index
      rw [get] at absent
      cases absent

theorem scanned_getElem? {slots : List Slot} {i : Nat} {slot : Slot}
    (found : (scanned slots)[i]? = some slot) : slots[i]? = some slot := by
  obtain ⟨inside, -⟩ := List.getElem?_eq_some_iff.mp found
  rw [scanned, List.length_take] at inside
  rw [scanned, List.getElem?_take_of_lt (by omega)] at found
  exact found

theorem Keyed.scan {inst : KvsArray} {slots : List Slot} (keyed : Keyed inst slots)
    (skipHoles : Bool) (key : CStr)
    (clear : skipHoles = true ∨ NoHoleBefore key (scanned slots)) :
    scanKey skipHoles inst key inst.total 0 = .ok (slotsIndex key (scanned slots)) := by
  have shape : (slots.drop 0).take inst.total = scanned slots := by
    rw [List.drop_zero, keyed.total, scanned]
  have result := scanKey_found keyed skipHoles key inst.total 0 (by simpa using keyed.total_le)
    (by rw [shape]; exact clear)
  rw [result, shape]
  cases slotsIndex key (scanned slots) <;> simp

/-- A NULL key before the slot of the key reaches `strcmp`. -/
theorem scanKey_hole {inst : KvsArray} {slots : List Slot} (keyed : Keyed inst slots)
    (key : CStr) (n i : Nat) (within : i + n ≤ slots.length)
    (hole : ¬ NoHoleBefore key ((slots.drop i).take n)) :
    scanKey false inst key n i = .error .nullDeref := by
  induction n generalizing i with
  | zero => simp [NoHoleBefore] at hole
  | succ n ih =>
      have inside : i < slots.length := by omega
      obtain ⟨cell, loaded, keyHeld⟩ := keyed.item i _ (List.getElem?_eq_getElem inside)
      rw [List.drop_eq_getElem_cons inside, List.take_succ_cons] at hole
      unfold scanKey
      cases slot : slots[i] with
      | none =>
          rw [slot] at keyHeld
          have isNull : cell.key = .null := keyHeld
          simp [loaded, bind, Except.bind, isNull]
      | some entry =>
          rw [slot] at keyHeld hole
          obtain ⟨block, isLive⟩ := keyHeld
          simp only [NoHoleBefore, not_or] at hole
          simp only [loaded, bind, Except.bind, isLive, Bool.false_eq_true, false_and,
            ↓reduceIte, CPtr.deref_live, strcmp_eq_zero, hole.1]
          exact ih (i + 1) (by omega) hole.2

theorem kvsArrayGet_spec {inst : KvsArray} {slots : List Slot} (rep : Represents inst slots)
    (key : CStr) :
    ∃ p, kvsArrayGet inst (some key) = .ok p ∧ p.Holds (slotsGet key (scanned slots)) := by
  have scan := rep.keyed.scan true key (Or.inl rfl)
  unfold kvsArrayGet
  cases index : slotsIndex key (scanned slots) with
  | none =>
      refine ⟨.null, ?_, ?_⟩
      · simp only [scan, index, bind, Except.bind]
        rfl
      · rw [slotsIndex_none index]
        rfl
  | some i =>
      obtain ⟨value, atIndex, get⟩ := slotsIndex_some index
      obtain ⟨cell, loaded, -, valueHeld⟩ := rep.item (scanned_getElem? atIndex)
      refine ⟨cell.value, ?_, ?_⟩
      · simp only [scan, index, loaded, bind, Except.bind]
        rfl
      · rw [get]
        exact valueHeld

end LinuxCpp.Kvstore
