import LinuxCpp.Kvstore.ArrayHistory

set_option autoImplicit false

/- As long as every delete hits the last scanned cell the table has no hole,
and the scans of the source see every entry. -/
namespace LinuxCpp.Kvstore

open C

abbrev Entries := List (CStr × CStr)

def Entries.slots (entries : Entries) : List Slot := entries.map some

structure Dense (inst : KvsArray) (entries : Entries) : Prop where
  rep : Represents inst entries.slots
  distinct : (entries.map Prod.fst).Nodup

namespace Entries

variable (entries : Entries)

@[simp] theorem slots_length : entries.slots.length = entries.length := List.length_map _

@[simp] theorem liveSlots_slots : liveSlots entries.slots = entries.length := by
  induction entries with
  | nil => rfl
  | cons entry rest ih =>
      simp only [slots, liveSlots, List.map_cons, List.countP_cons] at ih ⊢
      simp [ih]

@[simp] theorem scanned_slots : scanned entries.slots = entries.slots := by
  rw [scanned, liveSlots_slots, ← slots_length, List.take_length]

theorem noHoleBefore_slots (key : CStr) : NoHoleBefore key entries.slots := by
  induction entries with
  | nil => trivial
  | cons entry rest ih => exact Or.inr ih

@[simp] theorem slotsPlace_slots (entry : CStr × CStr) :
    slotsPlace entry entries.slots = Entries.slots (entries ++ [entry]) := by
  induction entries with
  | nil => rfl
  | cons old rest ih =>
      simp only [slots, List.map_cons, slotsPlace, List.cons_append] at ih ⊢
      rw [ih]

theorem slotsGet_append (key : CStr) (first second : Entries) :
    slotsGet key (Entries.slots (first ++ second)) =
      (slotsGet key first.slots).or (slotsGet key second.slots) := by
  simp [slots, slotsGet, List.findSome?_append]

theorem slotsGet_cons (key : CStr) (entry : CStr × CStr) (rest : Entries) :
    slotsGet key (Entries.slots (entry :: rest)) =
      if entry.1 = key then some entry.2 else slotsGet key rest.slots := by
  by_cases same : entry.1 = key <;> simp [slots, slotsGet, same]

theorem slotsGet_eq_none (key : CStr) (absent : key ∉ entries.map Prod.fst) :
    slotsGet key entries.slots = none := by
  induction entries with
  | nil => rfl
  | cons entry rest ih =>
      simp only [List.map_cons, List.mem_cons, not_or] at absent
      rw [slotsGet_cons, if_neg (Ne.symm absent.1), ih absent.2]

theorem key_absent_of_slotsGet {key : CStr} (absent : slotsGet key entries.slots = none) :
    key ∉ entries.map Prod.fst := by
  induction entries with
  | nil => simp
  | cons entry rest ih =>
      rw [slotsGet_cons] at absent
      split at absent
      · cases absent
      · rename_i different
        simp only [List.map_cons, List.mem_cons, not_or]
        exact ⟨Ne.symm different, ih absent⟩

/-- The slot found for a key splits the entries around it. -/
theorem split_at {key : CStr} {i : Nat} (found : slotsIndex key entries.slots = some i) :
    ∃ front old back, entries = front ++ (key, old) :: back ∧ front.length = i := by
  obtain ⟨old, atIndex, -⟩ := slotsIndex_some found
  simp only [slots, List.getElem?_map, Option.map_eq_some_iff, Option.some.injEq] at atIndex
  obtain ⟨entry, atIndex, rfl⟩ := atIndex
  obtain ⟨inside, here⟩ := List.getElem?_eq_some_iff.mp atIndex
  refine ⟨entries.take i, old, entries.drop (i + 1), ?_, by rw [List.length_take]; omega⟩
  rw [← here, List.getElem_cons_drop, List.take_append_drop]

end Entries

/-- Trailing holes carry no information. -/
theorem Represents.dropHole {inst : KvsArray} {slots : List Slot}
    (rep : Represents inst (slots ++ [none])) : Represents inst slots := by
  refine ⟨?_, ?_, ?_⟩
  · have := rep.bounded
    rw [List.length_append] at this
    omega
  · rw [rep.total, liveSlots, List.countP_append]
    rfl
  · obtain ⟨table, present, cells⟩ := rep.cells
    refine ⟨table, present, fun i slot found => cells i slot ?_⟩
    have inside := (List.getElem?_eq_some_iff.mp found).1
    rwa [List.getElem?_append_left inside]

section Step

variable {inst : KvsArray} {entries : Entries} {A : Allocator}

theorem Dense.total (dense : Dense inst entries) : inst.total = entries.length := by
  rw [dense.rep.total, Entries.liveSlots_slots]

theorem Dense.item (dense : Dense inst entries) {i : Nat} {entry : CStr × CStr}
    (atIndex : entries[i]? = some entry) :
    ∃ cell, inst.item i = .ok cell ∧ cell.key.str? = some entry.1 := by
  have occupied : entries.slots[i]? = some (some entry) := by simp [Entries.slots, atIndex]
  obtain ⟨cell, loaded, keyHeld, -⟩ := dense.rep.item occupied
  exact ⟨cell, loaded, keyHeld.str?⟩

theorem Dense.append (dense : Dense inst entries) {key value : CStr} {inst' : KvsArray}
    (absent : slotsGet key entries.slots = none)
    (rep : Represents inst' (slotsPlace (key, value) entries.slots)) :
    Dense inst' (entries ++ [(key, value)]) := by
  refine ⟨by simpa using rep, ?_⟩
  rw [List.map_append, List.nodup_append]
  refine ⟨dense.distinct, by simp, ?_⟩
  rintro k member _ last rfl
  have : k = key := by simpa using last
  exact entries.key_absent_of_slotsGet absent (this ▸ member)

theorem Dense.replace {front back : Entries} {key old value : CStr}
    (dense : Dense inst (front ++ (key, old) :: back)) {inst' : KvsArray}
    (rep : Represents inst'
      ((Entries.slots (front ++ (key, old) :: back)).set front.length (some (key, value)))) :
    Dense inst' (front ++ (key, value) :: back) := by
  refine ⟨?_, by simpa using dense.distinct⟩
  simpa [Entries.slots, List.set_append] using rep

theorem Dense.removeLast {front : Entries} {key old : CStr}
    (dense : Dense inst (front ++ [(key, old)])) {inst' : KvsArray}
    (rep : Represents inst' ((Entries.slots (front ++ [(key, old)])).set front.length none)) :
    Dense inst' front := by
  refine ⟨?_, ?_⟩
  · apply Represents.dropHole
    simpa [Entries.slots, List.set_append] using rep
  · have distinct := dense.distinct
    rw [List.map_append, List.nodup_append] at distinct
    exact distinct.1

theorem Entries.not_mem_front {front back : Entries} {key old : CStr}
    (distinct : ((front ++ (key, old) :: back).map Prod.fst).Nodup) :
    key ∉ front.map Prod.fst := by
  intro member
  rw [List.map_append, List.nodup_append] at distinct
  exact distinct.2.2 key member key (by simp) rfl

theorem Entries.slotsGet_split {front back : Entries} {key old : CStr}
    (distinct : ((front ++ (key, old) :: back).map Prod.fst).Nodup) (k : CStr) :
    slotsGet k (Entries.slots (front ++ (key, old) :: back)) =
      if key = k then some old
      else (slotsGet k front.slots).or (slotsGet k back.slots) := by
  rw [Entries.slotsGet_append, Entries.slotsGet_cons]
  by_cases same : key = k
  · subst same
    simp [front.slotsGet_eq_none key (Entries.not_mem_front distinct)]
  · simp [same]

end Step

end LinuxCpp.Kvstore
