import LinuxCpp.C.Avoids
import LinuxCpp.C.Returns
import LinuxCpp.Kvstore.ArraySurvival

set_option autoImplicit false

/- What one call makes of the slots, whatever the allocator answers, and when
the delete scan meets a hole. -/
namespace LinuxCpp.Kvstore

open C

/-- The keys of the cells stay as they are, except in the listed cells. -/
def SameKeys (inst inst' : KvsArray) (except : List Nat) : Prop :=
  ∀ j, j ∉ except → (inst'.item j).map KvsArrayItem.key = (inst.item j).map KvsArrayItem.key

/-- The effect of a call that returned on the slots and on the key fields. -/
inductive SlotStep (inst : KvsArray) (slots : List Slot) :
    ArrayOp → KvsArray → List Slot → Prop where
  | idle (op : ArrayOp) (inst' : KvsArray) (same : SameKeys inst inst' [])
      (missing : ∀ key, op = .del key → slotsIndex key (scanned slots) = none) :
      SlotStep inst slots op inst' slots
  | place (key value : CStr) (inst' : KvsArray)
      (same : SameKeys inst inst' [slots.findIdx Option.isNone]) :
      SlotStep inst slots (.set key value) inst' (slotsPlace (key, value) slots)
  | erase (key : CStr) (i : Nat) (inst' : KvsArray)
      (found : slotsIndex key (scanned slots) = some i) (same : SameKeys inst inst' [i]) :
      SlotStep inst slots (.del key) inst' (slots.set i none)

theorem SameKeys.refl (inst : KvsArray) (except : List Nat) : SameKeys inst inst except :=
  fun _ _ => rfl

theorem item_of_setItem {inst inst' : KvsArray} {i : Nat} {cell : KvsArrayItem}
    (stored : inst.setItem i cell = .ok inst') :
    i < kvsArraySize ∧ inst'.total = inst.total ∧ inst'.item i = .ok cell ∧
      ∀ j, j ≠ i → inst'.item j = inst.item j := by
  unfold KvsArray.setItem at stored
  split at stored
  · cases stored
  · rename_i table present
    split at stored
    · rename_i physical
      cases stored
      refine ⟨physical, rfl, ?_, ?_⟩
      · simp only [KvsArray.item, if_pos physical, Function.update_self]
      · intro j differs
        simp only [KvsArray.item, present, Function.update_of_ne differs]
    · cases stored

/-- One cell write, with `total` adjusted to the new number of live slots. -/
theorem Keyed.write {inst inst' : KvsArray} {slots slots' : List Slot} (keyed : Keyed inst slots)
    {i : Nat} {cell : KvsArrayItem} (stored : inst.setItem i cell = .ok inst') (slot : Slot)
    (bounded : slots'.length ≤ kvsArraySize)
    (shape : ∀ j, j < slots'.length → slots'[j]? = if j = i then some slot else slots[j]?)
    (keyHeld : cell.key.Holds (slot.map Prod.fst)) :
    Keyed { inst' with total := liveSlots slots' } slots' := by
  obtain ⟨-, -, written, others⟩ := item_of_setItem stored
  refine ⟨bounded, rfl, fun j found inside => ?_⟩
  obtain ⟨rfl, rfl⟩ | ⟨differs, before⟩ := written_slot shape inside
  · exact ⟨cell, written, keyHeld⟩
  · obtain ⟨old, loaded, held⟩ := keyed.item j found before
    exact ⟨old, (others j differs).trans loaded, held⟩

theorem SameKeys.of_setItem {inst inst' : KvsArray} {i : Nat} {cell : KvsArrayItem}
    (stored : inst.setItem i cell = .ok inst') (total : Nat) :
    SameKeys inst { inst' with total := total } [i] := by
  intro j outside
  obtain ⟨-, -, -, others⟩ := item_of_setItem stored
  exact congrArg _ (others j (by simpa using outside))

section Calls

variable {inst : KvsArray} {slots : List Slot} {A : Allocator}

/-- The slots after a call, with their keys in the cells. -/
def Moves (inst : KvsArray) (slots : List Slot) (op : ArrayOp) (inst' : KvsArray) : Prop :=
  ∃ slots', Keyed inst' slots' ∧ SlotStep inst slots op inst' slots'

theorem Keyed.stays (keyed : Keyed inst slots) {op : ArrayOp}
    (missing : ∀ key, op = .del key → slotsIndex key (scanned slots) = none) :
    Moves inst slots op inst :=
  ⟨slots, keyed, .idle op inst (.refl inst []) missing⟩

theorem strdup_returns (s : CStr) :
    ReturnsM (strdup s) fun p => p = .null ∨ ∃ block, p = .live block s := by
  refine .skip fun granted => ?_
  cases granted with
  | none => exact .pure (.inl rfl)
  | some block => exact .pure (.inr ⟨block, rfl⟩)

theorem kvsArraySet_moves (keyed : Keyed inst slots) (key value : CStr) :
    Leaves (kvsArraySet inst (some key) (some value)) A
      fun r _ => Moves inst slots (.set key value) r.2 := by
  have stays : Moves inst slots (.set key value) inst := keyed.stays fun _ isDel => nomatch isDel
  simp only [kvsArraySet]
  refine .ite (fun _ => .pure stays) fun room => ?_
  refine .skip fun p _ => .ite (fun _ => .pure stays) fun _ => ?_
  refine .bind (.of_returns (strdup_returns key)) fun kcopy B copied => ?_
  refine .ite (fun _ => .pure stays) fun notNull => ?_
  obtain ⟨block, isLive⟩ := copied.resolve_left notNull
  refine .bind (.of_returns (strdup_returns value)) fun kvalue C _ => ?_
  refine .ite (fun _ => .pure stays) fun _ => ?_
  have placed : ∀ inst', inst.setItem (slots.findIdx Option.isNone) ⟨kcopy, kvalue⟩ = .ok inst' →
      Moves inst slots (.set key value) { inst' with total := inst'.total + 1 } := by
    intro inst' stored
    obtain ⟨physical, total, -, -⟩ := item_of_setItem stored
    have fits : (slotsPlace (key, value) slots).length ≤ kvsArraySize := by
      have := keyed.bounded
      have : slots.findIdx Option.isNone ≤ slots.length := List.findIdx_le_length
      rw [slotsPlace_length]
      split <;> omega
    have rep := keyed.write stored (some (key, value)) fits
      (fun j _ => slotsPlace_getElem? _ _ j) ⟨block, isLive⟩
    rw [liveSlots_place, ← keyed.total, ← total] at rep
    exact ⟨_, rep, .place key value _ (.of_setItem stored _)⟩
  rw [keyed.hole]
  refine .skip fun hole isHole => ?_
  cases isHole
  by_cases below : slots.findIdx Option.isNone < inst.total
  · simp only [if_pos below]
    exact .skip fun inst' stored => .pure (placed inst' stored)
  · have atEnd : slots.findIdx Option.isNone = inst.total := by
      have := findIdx_isNone_le_live slots
      have := keyed.total
      omega
    simp only [if_neg below]
    refine .ite (fun _ => .skip fun inst' stored => .pure ?_) fun full => ?_
    · exact placed inst' (atEnd ▸ stored)
    · have := keyed.total_le
      have := keyed.bounded
      omega

theorem kvsArrayDel_moves (keyed : Keyed inst slots) (key : CStr) :
    Leaves (kvsArrayDel inst (some key)) A fun r _ => Moves inst slots (.del key) r.2 := by
  by_cases clear : NoHoleBefore key (scanned slots)
  · simp only [kvsArrayDel]
    rw [keyed.scan false key (.inr clear)]
    refine .skip fun found isFound => ?_
    cases isFound
    cases index : slotsIndex key (scanned slots) with
    | none =>
        refine .pure (keyed.stays fun other isDel => ?_)
        cases isDel
        exact index
    | some i =>
        refine .skip fun cell _ => .ignore fun _ B => .ignore fun _ C => ?_
        refine .skip fun inst' stored => .pure ?_
        obtain ⟨value, atIndex, -⟩ := slotsIndex_some index
        have live := liveSlots_set_none (scanned_getElem? atIndex)
        obtain ⟨-, total, -, -⟩ := item_of_setItem stored
        have rep := keyed.write stored none (by rw [List.length_set]; exact keyed.bounded)
          (fun j => set_getElem?_of_lt slots i none j) rfl
        have count : liveSlots (slots.set i none) = inst'.total - 1 := by
          have := keyed.total
          omega
        rw [count] at rep
        exact ⟨_, rep, .erase key i _ index (.of_setItem stored _)⟩
  · refine ⟨fun r B ran => ?_⟩
    rw [kvsArrayDel_hole keyed key clear] at ran
    cases ran

theorem kvsArrayMod_moves (keyed : Keyed inst slots) (key value : CStr) :
    Leaves (kvsArrayMod inst (some key) (some value)) A
      fun r _ => Moves inst slots (.mod key value) r.2 := by
  have rewritten : ∀ i cell fresh inst', inst.item i = .ok cell →
      inst.setItem i { cell with value := fresh } = .ok inst' →
      Moves inst slots (.mod key value) inst' := by
    intro i cell fresh inst' loaded stored
    obtain ⟨-, total, written, others⟩ := item_of_setItem stored
    have same : SameKeys inst inst' [] := by
      intro j _
      by_cases here : j = i
      · rw [here, written, loaded]
        rfl
      · rw [others j here]
    refine ⟨slots, ⟨keyed.bounded, total.trans keyed.total, ?_⟩,
      .idle _ _ same fun _ isDel => nomatch isDel⟩
    intro j slot found
    obtain ⟨old, isOld, held⟩ := keyed.item j slot found
    have atIndex := same j (by simp)
    rw [isOld] at atIndex
    obtain ⟨cell', now, key'⟩ := ok_of_map atIndex
    exact ⟨cell', now, key' ▸ held⟩
  have stays : Moves inst slots (.mod key value) inst := keyed.stays fun _ isDel => nomatch isDel
  simp only [kvsArrayMod]
  refine .ite (fun _ => .pure stays) fun _ => .skip fun found _ => ?_
  cases found with
  | none => exact .pure stays
  | some i =>
      refine .skip fun cell loaded => .ignore fun _ B => .ignore fun copy C => ?_
      cases copy <;> exact .skip fun inst' stored => .pure (rewritten i cell _ inst' loaded stored)

theorem ArrayOp.exec_moves (keyed : Keyed inst slots) (op : ArrayOp) :
    Leaves (op.exec inst) A fun r _ => Moves inst slots op r.2 := by
  cases op with
  | set key value => exact (kvsArraySet_moves keyed key value).bind fun r B moved => .pure moved
  | get key => exact .skip fun p _ => .pure (keyed.stays fun _ isDel => nomatch isDel)
  | mod key value => exact (kvsArrayMod_moves keyed key value).bind fun r B moved => .pure moved
  | del key => exact (kvsArrayDel_moves keyed key).bind fun r B moved => .pure moved
  | exist key => exact .skip fun code _ => .pure (keyed.stays fun _ isDel => nomatch isDel)

/-- `strcmp` gets a NULL key exactly when a hole comes before the key. -/
theorem kvsArrayDel_null_iff (keyed : Keyed inst slots) (key : CStr) :
    kvsArrayDel inst (some key) A = .error .nullDeref ↔ ¬ NoHoleBefore key (scanned slots) := by
  constructor
  · intro failed clear
    refine absurd failed ?_
    have scan := keyed.scan false key (.inr clear)
    have avoids : Avoids .nullDeref (kvsArrayDel inst (some key)) A := by
      simp only [kvsArrayDel]
      refine .after (by rw [scan]; simp) fun found isFound => ?_
      rw [scan] at isFound
      cases isFound
      cases index : slotsIndex key (scanned slots) with
      | none => exact .pure _
      | some i =>
          obtain ⟨value, atIndex, -⟩ := slotsIndex_some index
          obtain ⟨cell, loaded, -⟩ := keyed.item i _ (scanned_getElem? atIndex)
          have frees : ∀ (p : CPtr) B, Avoids .nullDeref (free p) B := by
            intro p B failed
            cases p <;> cases failed
          refine .after (by rw [loaded]; simp) fun _ _ => .bind (frees _ _) fun _ _ _ => ?_
          refine .bind (frees _ _) fun _ _ _ => .after ?_ fun _ _ => .pure _
          unfold KvsArray.item at loaded
          unfold KvsArray.setItem
          split at loaded
          · cases loaded
          · split <;> simp
    exact avoids
  · exact kvsArrayDel_hole keyed key

theorem Keyed.key_at (keyed : Keyed inst slots) {key : CStr} {j : Nat} {cell : KvsArrayItem}
    (below : j < inst.total) (loaded : inst.item j = .ok cell) (isKey : cell.key.str? = some key) :
    ∃ value, (scanned slots)[j]? = some (some (key, value)) := by
  have inside : j < slots.length := Nat.lt_of_lt_of_le below keyed.total_le
  obtain ⟨other, same, held⟩ := keyed.item j _ (List.getElem?_eq_getElem inside)
  rw [loaded] at same
  cases same
  rw [held.str?] at isKey
  rw [scanned, List.getElem?_take_of_lt (keyed.total ▸ below), List.getElem?_eq_getElem inside]
  cases slot : slots[j] with
  | none => rw [slot] at isKey; cases isKey
  | some entry =>
      rw [slot] at isKey
      cases isKey
      exact ⟨entry.2, rfl⟩

theorem Keyed.lastCell_of_missing (keyed : Keyed inst slots) {key : CStr}
    (missing : slotsIndex key (scanned slots) = none) : LastCell inst key := by
  intro j cell below loaded isKey
  obtain ⟨value, atIndex⟩ := keyed.key_at below loaded isKey
  have none := List.findIdx?_eq_none_iff.mp missing _ (List.mem_of_getElem? atIndex)
  simp at none

theorem Keyed.lastCell_iff (keyed : Keyed inst slots) {key : CStr} {i : Nat}
    (found : slotsIndex key (scanned slots) = some i) : LastCell inst key ↔ i + 1 = inst.total := by
  obtain ⟨value, atIndex, -⟩ := slotsIndex_some found
  have inside := (List.getElem?_eq_some_iff.mp atIndex).1
  have below : i < inst.total := by
    rw [scanned, List.length_take] at inside
    have := keyed.total
    omega
  constructor
  · intro last
    obtain ⟨cell, loaded, held⟩ := keyed.item i _ (scanned_getElem? atIndex)
    exact last i cell below loaded held.str?
  · intro atEnd j cell bound loaded isKey
    obtain ⟨other, here⟩ := keyed.key_at bound loaded isKey
    obtain ⟨_, _, first⟩ := List.findIdx?_eq_some_iff_getElem.mp found
    have notBefore : ¬ j < i := by
      intro before
      have differs := first j before
      rw [(List.getElem?_eq_some_iff.mp here).2] at differs
      simp at differs
    omega

theorem noHoleBefore_iff (key : CStr) : NoHoleBefore key slots ↔
    ∀ j : Nat, slots[j]? = some none →
      ∃ (i : Nat) (value : CStr), i < j ∧ slots[i]? = some (some (key, value)) := by
  induction slots with
  | nil => exact ⟨fun _ j hole => by simp at hole, fun _ => trivial⟩
  | cons slot rest ih =>
      cases slot with
      | none =>
          refine ⟨fun clear => clear.elim, fun earlier => ?_⟩
          obtain ⟨i, value, before, -⟩ := earlier 0 rfl
          exact absurd before (Nat.not_lt_zero i)
      | some entry =>
          constructor
          · rintro (same | clear) j hole
            · cases j with
              | zero => simp at hole
              | succ j => exact ⟨0, entry.2, Nat.succ_pos j, by rw [← same]; rfl⟩
            · cases j with
              | zero => simp at hole
              | succ j =>
                  obtain ⟨i, value, before, found⟩ := ih.mp clear j (by simpa using hole)
                  exact ⟨i + 1, value, by omega, by simpa using found⟩
          · intro earlier
            by_cases same : entry.1 = key
            · exact .inl same
            · refine .inr (ih.mpr fun j hole => ?_)
              obtain ⟨i, value, before, found⟩ := earlier (j + 1) (by simpa using hole)
              cases i with
              | zero =>
                  have isEntry : entry = (key, value) := by simpa using found
                  exact absurd (congrArg Prod.fst isEntry) same
              | succ i => exact ⟨i, value, by omega, by simpa using found⟩

/-- A delete that leaves a scanned cell behind it leaves a hole to the scans. -/
theorem hole_of_erase {key : CStr} {i : Nat} (found : slotsIndex key (scanned slots) = some i)
    (earlier : i < liveSlots (slots.set i none)) :
    ¬ NoHoleBefore key (scanned (slots.set i none)) := by
  obtain ⟨inside, _, first⟩ := List.findIdx?_eq_some_iff_getElem.mp found
  have bound : i < slots.length := by
    rw [scanned, List.length_take] at inside
    omega
  intro clear
  obtain ⟨j, value, before, here⟩ := (noHoleBefore_iff key).mp clear i (by
    rw [scanned, List.getElem?_take_of_lt earlier, List.getElem?_set_self bound])
  have atIndex := scanned_getElem? here
  rw [List.getElem?_set_ne (by omega)] at atIndex
  have differs := first j before
  have inScan := Nat.lt_trans before inside
  have same : (scanned slots)[j] = some (key, value) := by
    simp only [scanned, List.getElem_take]
    exact (List.getElem?_eq_some_iff.mp atIndex).2
  rw [same] at differs
  simp at differs

theorem Keyed.dropHole (keyed : Keyed inst (slots ++ [none])) : Keyed inst slots := by
  refine ⟨?_, ?_, fun i slot found => keyed.item i slot ?_⟩
  · have := keyed.bounded
    rw [List.length_append] at this
    omega
  · rw [keyed.total, liveSlots, List.countP_append]
    rfl
  · have inside := (List.getElem?_eq_some_iff.mp found).1
    rwa [List.getElem?_append_left inside]

/-- The cells below `total` hold keys, and no cell past them was written. -/
def Packed (inst : KvsArray) : Prop := ∃ entries : Entries, Keyed inst entries.slots

theorem Packed.moves {inst' : KvsArray} {op : ArrayOp} (packed : Packed inst)
    (moved : ∀ slots, Keyed inst slots → Moves inst slots op inst')
    (last : ∀ key, op = .del key → LastCell inst key) : Packed inst' := by
  obtain ⟨entries, keyed⟩ := packed
  obtain ⟨slots', keyed', step⟩ := moved _ keyed
  cases step with
  | idle op inst' same missing => exact ⟨entries, keyed'⟩
  | place key value inst' same =>
      rw [Entries.slotsPlace_slots] at keyed'
      exact ⟨_, keyed'⟩
  | erase key i inst' found same =>
      have atEnd := (keyed.lastCell_iff found).mp (last key rfl)
      rw [Entries.scanned_slots] at found
      obtain ⟨front, old, back, rfl, rfl⟩ := entries.split_at found
      have size := keyed.total
      rw [Entries.liveSlots_slots, List.length_append, List.length_cons] at size
      have noBack : back = [] := List.length_eq_zero_iff.mp (by omega)
      subst noBack
      refine ⟨front, Keyed.dropHole ?_⟩
      simpa [Entries.slots, List.set_append] using keyed'

end Calls

/-- `strcmp` gets no NULL key from a `kvs_array_del` after these calls. -/
def DelPassesNoNull (A : Allocator) (ops : List ArrayOp) : Prop :=
  ∀ trace inst A', arrayHistory ops A = .ok ((trace, inst), A') →
    ∀ key, kvsArrayDel inst (some key) A' ≠ .error .nullDeref

/-- It gets none in any state these calls go through. -/
def NeverPassesNull (A : Allocator) (ops : List ArrayOp) : Prop :=
  ∀ earlier, earlier <+: ops → DelPassesNoNull A earlier

theorem Packed.del {inst : KvsArray} (packed : Packed inst) (A : Allocator) (key : CStr) :
    kvsArrayDel inst (some key) A ≠ .error .nullDeref := by
  obtain ⟨entries, keyed⟩ := packed
  intro failed
  refine (kvsArrayDel_null_iff keyed key).mp failed ?_
  rw [Entries.scanned_slots]
  exact entries.noHoleBefore_slots key

theorem kvsArrayCreate_packed {A : Allocator} {code : Int} {inst : KvsArray} {B : Allocator}
    (created : kvsArrayCreate .zeroed A = .ok ((code, inst), B)) : Packed inst := by
  have fresh : Leaves (kvsArrayCreate .zeroed) A fun r _ => r.2.total = 0 := by
    refine .malloc (fun _ => .pure rfl) fun _ => ?_
    exact .ignore fun words C => .pure rfl
  exact ⟨[], Nat.zero_le _, fresh.of_ok _ _ created, fun i slot found => nomatch found⟩

theorem DeletesLastCell.take {A : Allocator} {ops : List ArrayOp} (last : DeletesLastCell A ops)
    (n : Nat) : DeletesLastCell A (ops.take n) := by
  intro m key trace inst A' isDel ran
  have inside : m < n := by
    have := (List.getElem?_eq_some_iff.mp isDel).1
    rw [List.length_take] at this
    omega
  rw [List.getElem?_take_of_lt inside] at isDel
  rw [List.take_take, Nat.min_eq_left (Nat.le_of_lt inside)] at ran
  exact last m key trace inst A' isDel ran

theorem DeletesLastCell.before {A : Allocator} {ops : List ArrayOp} {op : ArrayOp}
    (last : DeletesLastCell A (ops ++ [op])) : DeletesLastCell A ops := by
  have first := last.take ops.length
  rwa [List.take_left'] at first
  rfl

theorem packed_of_deletesLastCell {A : Allocator} {ops : List ArrayOp} {trace : ArrayTrace}
    {inst : KvsArray} {A' : Allocator} (ran : arrayHistory ops A = .ok ((trace, inst), A')) :
    DeletesLastCell A ops → Packed inst := by
  refine arrayHistory_invariant (fun ops inst _ => DeletesLastCell A ops → Packed inst)
    (fun code inst B created _ => kvsArrayCreate_packed created) ?_ ran
  intro ops op trace inst A' ret inst' B before ih stepped last
  refine (ih last.before).moves (fun slots keyed => (op.exec_moves keyed).of_ok _ _ stepped) ?_
  intro key isDel
  refine last ops.length key trace inst A' (by simp [isDel]) ?_
  rwa [List.take_left']
  rfl

/-- A delete after which every delete is safe has hit the last cell. -/
theorem lastCell_of_passes {B : Allocator} {inst inst' : KvsArray} {key : CStr}
    (packed : Packed inst) (moved : ∀ slots, Keyed inst slots → Moves inst slots (.del key) inst')
    (safe : ∀ other, kvsArrayDel inst' (some other) B ≠ .error .nullDeref) :
    LastCell inst key := by
  obtain ⟨entries, keyed⟩ := packed
  obtain ⟨slots', keyed', step⟩ := moved _ keyed
  cases step with
  | idle op inst' same missing => exact keyed.lastCell_of_missing (missing key rfl)
  | erase key i inst' found same =>
      obtain ⟨value, atIndex, -⟩ := slotsIndex_some found
      have inside := (List.getElem?_eq_some_iff.mp atIndex).1
      have live := liveSlots_set_none (scanned_getElem? atIndex)
      have := keyed.total
      rw [scanned, List.length_take] at inside
      rw [keyed.lastCell_iff found]
      by_contra earlier
      refine safe key ((kvsArrayDel_null_iff keyed' key).mpr (hole_of_erase found ?_))
      omega

theorem deletesLastCell_of_passes {A : Allocator} {ops : List ArrayOp} {trace : ArrayTrace}
    {inst : KvsArray} {A' : Allocator} (ran : arrayHistory ops A = .ok ((trace, inst), A')) :
    NeverPassesNull A ops → Packed inst ∧ DeletesLastCell A ops := by
  refine arrayHistory_invariant
    (fun ops inst _ => NeverPassesNull A ops → Packed inst ∧ DeletesLastCell A ops)
    (fun code inst B created _ => ⟨kvsArrayCreate_packed created, ?_⟩) ?_ ran
  · intro n key trace inst A' isDel
    simp at isDel
  intro ops op trace inst A' ret inst' B before ih stepped safe
  have whole : arrayHistory (ops ++ [op]) A = .ok ((trace ++ [(op, ret)], inst'), B) := by
    rw [arrayHistory_snoc before op, bind_ok stepped]
    rfl
  have moved : ∀ slots, Keyed inst slots → Moves inst slots op inst' := fun slots keyed =>
    (op.exec_moves keyed).of_ok _ _ stepped
  obtain ⟨packed, earlier⟩ := ih fun earlier isPrefix =>
    safe earlier (isPrefix.trans (List.prefix_append ops [op]))
  have last : ∀ key, op = .del key → LastCell inst key := by
    rintro key rfl
    refine lastCell_of_passes (B := B) packed moved ?_
    exact safe _ List.prefix_rfl _ inst' B whole
  refine ⟨packed.moves moved last, ?_⟩
  intro n key trace₁ inst₁ A₁ isDel ran₁
  rcases Nat.lt_or_ge n ops.length with inside | beyond
  · rw [List.getElem?_append_left inside] at isDel
    rw [List.take_append_of_le_length (Nat.le_of_lt inside)] at ran₁
    exact earlier n key trace₁ inst₁ A₁ isDel ran₁
  · have atEnd : n = ops.length := by
      have := (List.getElem?_eq_some_iff.mp isDel).1
      simp only [List.length_append, List.length_singleton] at this
      omega
    subst atEnd
    rw [List.take_append_of_le_length (Nat.le_refl _), List.take_length, before] at ran₁
    cases ran₁
    exact last key (by simpa using isDel)

/-- Along a history that returned, `kvs_array_del` passes no NULL key to `strcmp`
in any state, for any key, exactly when every delete of the history hits the last
cell a scan sees. -/
theorem del_passes_no_null_iff {A : Allocator} {ops : List ArrayOp}
    {after : (ArrayTrace × KvsArray) × Allocator} (ran : arrayHistory ops A = .ok after) :
    NeverPassesNull A ops ↔ DeletesLastCell A ops := by
  constructor
  · exact fun safe => (deletesLastCell_of_passes ran safe).2
  · intro last earlier isPrefix trace inst A' earlierRan key
    rw [List.prefix_iff_eq_take.mp isPrefix] at earlierRan
    exact (packed_of_deletesLastCell earlierRan (last.take _)).del A' key

/-- `SET a 1`, `SET b 2`, `DEL b` -/
theorem del_passes_no_null_stack :
    DeletesLastCell .plentiful
      [.set ⟨[97], by decide⟩ ⟨[49], by decide⟩, .set ⟨[98], by decide⟩ ⟨[50], by decide⟩,
        .del ⟨[98], by decide⟩] ∧
    NeverPassesNull .plentiful
      [.set ⟨[97], by decide⟩ ⟨[49], by decide⟩, .set ⟨[98], by decide⟩ ⟨[50], by decide⟩,
        .del ⟨[98], by decide⟩] :=
  ⟨deletesLastCell_stack, (del_passes_no_null_iff rfl).mpr deletesLastCell_stack⟩

/-- `SET a 1`, `SET b 2`, `DEL a`: the next delete compares its key with NULL. -/
theorem del_passes_null :
    ¬ NeverPassesNull .plentiful
      [.set ⟨[97], by decide⟩ ⟨[49], by decide⟩, .set ⟨[98], by decide⟩ ⟨[50], by decide⟩,
        .del ⟨[97], by decide⟩] := by
  intro safe
  exact safe _ List.prefix_rfl _ _ _ rfl ⟨[98], by decide⟩ rfl

end LinuxCpp.Kvstore
