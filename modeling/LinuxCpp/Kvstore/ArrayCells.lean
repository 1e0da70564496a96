import LinuxCpp.C.Alike
import LinuxCpp.Kvstore.ArrayHoles

set_option autoImplicit false

/- Which cells of the table the calls look at, and which of them were written. -/
namespace LinuxCpp.Kvstore

open C

/-- Two tables with the same cells below `total`. -/
structure SameScanned (inst inst' : KvsArray) : Prop where
  total : inst'.total = inst.total
  table : inst'.table.isSome = inst.table.isSome
  cells : ∀ i, i < inst.total → inst'.item i = inst.item i

/-- The same result, and the same `total` afterwards. -/
def SameAnswer {ρ : Type} (r r' : ρ × KvsArray) : Prop := r'.1 = r.1 ∧ r'.2.total = r.2.total

/-- The call answers from the cells below `total`, whatever the others hold. -/
def ReadsScanned (op : ArrayOp) (inst : KvsArray) (A : Allocator) : Prop :=
  ∀ inst', SameScanned inst inst' →
    Alike SameAnswer (op.exec inst) (op.exec inst') A

section Reads

variable {inst inst' : KvsArray} {A : Allocator}

theorem scanKey_agree (skipHoles : Bool) (key : CStr) (n i : Nat)
    (agree : ∀ j, i ≤ j → j < i + n → inst'.item j = inst.item j) :
    scanKey skipHoles inst' key n i = scanKey skipHoles inst key n i := by
  induction n generalizing i with
  | zero => rfl
  | succ n ih =>
      simp only [scanKey]
      rw [agree i (Nat.le_refl i) (by omega), ih (i + 1) fun j after below =>
        agree j (by omega) (by omega)]

theorem scanKey_bound (skipHoles : Bool) (key : CStr) (n i : Nat) :
    Returns (scanKey skipHoles inst key n i) fun found => ∀ j, found = some j → j < i + n := by
  induction n generalizing i with
  | zero =>
      refine .pure fun j found => ?_
      cases found
  | succ n ih =>
      have later : Returns (scanKey skipHoles inst key n (i + 1))
          fun found => ∀ j, found = some j → j < i + (n + 1) := by
        refine ⟨fun found ran j isJ => ?_⟩
        have := (ih (i + 1)).of_ok found ran j isJ
        omega
      refine .skip fun cell => .ite later (.skip fun str => .ite (.pure ?_) later)
      intro j isJ
      cases isJ
      omega

theorem findHole_agree (n i : Nat) (agree : ∀ j, i ≤ j → j < i + n → inst'.item j = inst.item j) :
    findHole inst' n i = findHole inst n i := by
  induction n generalizing i with
  | zero => rfl
  | succ n ih =>
      simp only [findHole]
      rw [agree i (Nat.le_refl i) (by omega), ih (i + 1) fun j after below =>
        agree j (by omega) (by omega)]

theorem SameScanned.scan (same : SameScanned inst inst') (skipHoles : Bool) (key : CStr) :
    scanKey skipHoles inst' key inst'.total 0 = scanKey skipHoles inst key inst.total 0 := by
  rw [same.total]
  exact scanKey_agree skipHoles key _ 0 fun j _ below => same.cells j (by omega)

theorem SameScanned.hole (same : SameScanned inst inst') :
    findHole inst' inst'.total 0 = findHole inst inst.total 0 := by
  rw [same.total]
  exact findHole_agree _ 0 fun j _ below => same.cells j (by omega)

theorem SameScanned.get (same : SameScanned inst inst') (key : CStr) :
    kvsArrayGet inst' (some key) = kvsArrayGet inst (some key) := by
  simp only [kvsArrayGet, same.scan true key]
  cases scan : scanKey true inst key inst.total 0 with
  | error fault => rfl
  | ok found =>
      cases found with
      | none => rfl
      | some i =>
          have below := (scanKey_bound true key _ 0).of_ok _ scan i rfl
          simp only [ok_bind, same.cells i (by omega)]

theorem SameScanned.setItem_faults (same : SameScanned inst inst') (i : Nat) (cell : KvsArrayItem)
    (fault : Fault) :
    inst.setItem i cell = .error fault ↔ inst'.setItem i cell = .error fault := by
  have table := same.table
  unfold KvsArray.setItem
  cases here : inst.table with
  | none =>
      rw [here, Option.isSome_none, Option.isSome_eq_false_iff, Option.isNone_iff_eq_none] at table
      rw [table]
  | some cells =>
      rw [here, Option.isSome_some] at table
      obtain ⟨cells', there⟩ := Option.isSome_iff_exists.mp table
      rw [there]
      by_cases physical : i < kvsArraySize <;> simp [physical]

/-- The same cell written to both. -/
theorem SameScanned.store (same : SameScanned inst inst') (i : Nat) (cell : KvsArrayItem)
    (code : Int) (change : Nat → Nat) :
    Alike SameAnswer
      (do
        let inst ← inst.setItem i cell
        return (code, { inst with total := change inst.total }) : CM (Int × KvsArray))
      (do
        let inst ← inst'.setItem i cell
        return (code, { inst with total := change inst.total }) : CM (Int × KvsArray)) A := by
  refine .lift (same.setItem_faults i cell) fun done done' stored stored' => .pure ⟨rfl, ?_⟩
  show change done'.total = change done.total
  rw [(item_of_setItem stored).2.1, (item_of_setItem stored').2.1, same.total]

theorem SameScanned.set (same : SameScanned inst inst') (key value : CStr) :
    Alike SameAnswer
      (kvsArraySet inst (some key) (some value)) (kvsArraySet inst' (some key) (some value)) A := by
  have unchanged : ∀ code : Int, code = code ∧ inst'.total = inst.total := fun _ =>
    ⟨rfl, same.total⟩
  simp only [kvsArraySet, same.get key, same.hole]
  rw [same.total]
  refine .ite (fun _ => .pure (unchanged _)) fun _ => .after fun found _ _ => ?_
  refine .ite (fun _ => .pure (unchanged _)) fun _ => .after fun kcopy _ _ => ?_
  refine .ite (fun _ => .pure (unchanged _)) fun _ => .after fun kvalue _ _ => ?_
  refine .ite (fun _ => .pure (unchanged _)) fun _ => .after fun hole _ _ => ?_
  cases hole with
  | some i => exact same.store i _ 0 (· + 1)
  | none => exact .ite (fun _ => same.store _ _ 0 (· + 1)) fun _ => .pure (unchanged _)

theorem SameScanned.del (same : SameScanned inst inst') (key : CStr) :
    Alike SameAnswer
      (kvsArrayDel inst (some key)) (kvsArrayDel inst' (some key)) A := by
  simp only [kvsArrayDel, same.scan false key]
  refine .lift (fun _ => .rfl) fun found found' scan scan' => ?_
  rw [scan] at scan'
  cases scan'
  cases found with
  | none => exact .pure ⟨congrArg (Nat.cast (R := Int)) same.total, same.total⟩
  | some i =>
      have below := (scanKey_bound false key _ 0).of_ok _ scan i rfl
      simp only [same.cells i (by omega)]
      exact .after fun cell _ _ => .after fun _ _ _ => .after fun _ _ _ => same.store i _ 0 (· - 1)

theorem SameScanned.mod (same : SameScanned inst inst') (key value : CStr) :
    Alike SameAnswer
      (kvsArrayMod inst (some key) (some value)) (kvsArrayMod inst' (some key) (some value)) A := by
  simp only [kvsArrayMod, same.scan true key]
  rw [same.total]
  refine .ite (fun _ => .pure ⟨rfl, same.total⟩) fun _ => ?_
  refine .lift (fun _ => .rfl) fun found found' scan scan' => ?_
  rw [scan] at scan'
  cases scan'
  cases found with
  | none => exact .pure ⟨rfl, same.total⟩
  | some i =>
      have below := (scanKey_bound true key _ 0).of_ok _ scan i rfl
      simp only [same.cells i (by omega)]
      refine .after fun cell _ _ => .after fun _ _ _ => .after fun copy _ _ => ?_
      cases copy <;> exact same.store i _ _ id

theorem ArrayOp.readsScanned (op : ArrayOp) (inst : KvsArray) (A : Allocator) :
    ReadsScanned op inst A := by
  intro inst' same
  have coded : ∀ (r r' : Int × KvsArray) B, SameAnswer r r' →
      Alike SameAnswer (pure (ArrayRet.code r.1, r.2)) (pure (ArrayRet.code r'.1, r'.2)) B :=
    fun r r' B alike => .pure ⟨congrArg ArrayRet.code alike.1, alike.2⟩
  cases op with
  | set key value => exact (same.set key value).bind coded
  | del key => exact (same.del key).bind coded
  | mod key value => exact (same.mod key value).bind coded
  | get key =>
      simp only [ArrayOp.exec, same.get key]
      exact .after fun p B _ => .pure ⟨rfl, same.total⟩
  | exist key =>
      simp only [ArrayOp.exec, kvsArrayExist, same.get key]
      exact .after fun p B _ => .pure ⟨rfl, same.total⟩

theorem item_inside {i : Nat} (physical : i < kvsArraySize) :
    inst.item i ≠ .error .outOfBounds := by
  unfold KvsArray.item
  split <;> simp [physical]

theorem setItem_inside {i : Nat} (physical : i < kvsArraySize) (cell : KvsArrayItem) :
    inst.setItem i cell ≠ .error .outOfBounds := by
  unfold KvsArray.setItem
  split <;> simp [physical]

theorem scanKey_inside (skipHoles : Bool) (key : CStr) (n i : Nat) (fits : i + n ≤ kvsArraySize) :
    scanKey skipHoles inst key n i ≠ .error .outOfBounds := by
  induction n generalizing i with
  | zero => exact pure_ne_error _
  | succ n ih =>
      have next := ih (i + 1) (by omega)
      refine bind_ne_error (item_inside (by omega)) fun cell _ => ?_
      split
      · exact next
      · refine bind_ne_error (deref_inside _) fun str _ => ?_
        split
        · exact pure_ne_error _
        · exact next

theorem findHole_inside (n i : Nat) (fits : i + n ≤ kvsArraySize) :
    findHole inst n i ≠ .error .outOfBounds := by
  induction n generalizing i with
  | zero => exact pure_ne_error _
  | succ n ih =>
      refine bind_ne_error (item_inside (by omega)) fun cell _ => ?_
      split
      · exact pure_ne_error _
      · exact ih (i + 1) (by omega)

theorem findHole_bound (n i : Nat) :
    Returns (findHole inst n i) fun found => ∀ j, found = some j → j < i + n := by
  induction n generalizing i with
  | zero =>
      refine .pure fun j found => ?_
      cases found
  | succ n ih =>
      refine .skip fun cell => .ite (.pure ?_) ⟨fun found ran j isJ => ?_⟩
      · intro j isJ
        cases isJ
        omega
      · have := (ih (i + 1)).of_ok found ran j isJ
        omega

section Bounds

variable (fits : inst.total ≤ kvsArraySize)

include fits

theorem kvsArrayGet_inside (key : CStr) : kvsArrayGet inst (some key) ≠ .error .outOfBounds := by
  simp only [kvsArrayGet]
  refine bind_ne_error (scanKey_inside true key _ 0 (by omega)) fun found scan => ?_
  cases found with
  | none => exact pure_ne_error _
  | some i =>
      have below := (scanKey_bound true key _ 0).of_ok _ scan i rfl
      exact bind_ne_error (item_inside (by omega)) fun _ _ => pure_ne_error _

theorem kvsArraySet_inside (key value : CStr) :
    Avoids .outOfBounds (kvsArraySet inst (some key) (some value)) A := by
  have stored : ∀ i cell B, i < kvsArraySize → Avoids .outOfBounds
      (do
        let inst ← inst.setItem i cell
        return (0, { inst with total := inst.total + 1 }) : CM (Int × KvsArray)) B :=
    fun i cell B physical => .after (setItem_inside physical cell) fun _ _ => .pure _
  simp only [kvsArraySet]
  refine .ite (fun _ => .pure _) fun room => ?_
  refine .after (kvsArrayGet_inside fits key) fun _ _ => .ite (fun _ => .pure _) fun _ => ?_
  refine .bind (strdup_inside key A) fun kcopy B _ => .ite (fun _ => .pure _) fun _ => ?_
  refine .bind (strdup_inside value B) fun kvalue C _ => .ite (fun _ => .pure _) fun _ => ?_
  refine .after (findHole_inside _ 0 (by omega)) fun hole isHole => ?_
  cases hole with
  | some i =>
      have below := (findHole_bound _ 0).of_ok _ isHole i rfl
      exact stored i _ C (by omega)
  | none => exact .ite (fun physical => stored _ _ C physical) fun _ => .pure _

theorem kvsArrayDel_inside (key : CStr) :
    Avoids .outOfBounds (kvsArrayDel inst (some key)) A := by
  simp only [kvsArrayDel]
  refine .after (scanKey_inside false key _ 0 (by omega)) fun found scan => ?_
  cases found with
  | none => exact .pure _
  | some i =>
      have below := (scanKey_bound false key _ 0).of_ok _ scan i rfl
      refine .after (item_inside (by omega)) fun cell _ => .bind (free_inside _ A) fun _ B _ => ?_
      refine .bind (free_inside _ B) fun _ C _ => ?_
      exact .after (setItem_inside (by omega) _) fun _ _ => .pure _

theorem kvsArrayMod_inside (key value : CStr) :
    Avoids .outOfBounds (kvsArrayMod inst (some key) (some value)) A := by
  simp only [kvsArrayMod]
  refine .ite (fun _ => .pure _) fun _ => ?_
  refine .after (scanKey_inside true key _ 0 (by omega)) fun found scan => ?_
  cases found with
  | none => exact .pure _
  | some i =>
      have below := (scanKey_bound true key _ 0).of_ok _ scan i rfl
      refine .after (item_inside (by omega)) fun cell _ => .bind (free_inside _ A) fun _ B _ => ?_
      refine .bind (strdup_inside value B) fun copy C _ => ?_
      cases copy <;> exact .after (setItem_inside (by omega) _) fun _ _ => .pure _

/-- No call uses an index outside the table. -/
theorem ArrayOp.exec_inside (op : ArrayOp) : Avoids .outOfBounds (op.exec inst) A := by
  cases op with
  | set key value => exact .bind (kvsArraySet_inside fits key value) fun _ _ _ => .pure _
  | del key => exact .bind (kvsArrayDel_inside fits key) fun _ _ _ => .pure _
  | mod key value => exact .bind (kvsArrayMod_inside fits key value) fun _ _ _ => .pure _
  | get key => exact .after (kvsArrayGet_inside fits key) fun _ _ => .pure _
  | exist key =>
      refine .after (bind_ne_error (kvsArrayGet_inside fits key) fun p _ => ?_) fun _ _ => .pure _
      split <;> exact pure_ne_error _

end Bounds

end Reads

def ArrayOp.SetsOrDeletes : ArrayOp → Prop
  | .set _ _ | .del _ => True
  | _ => False

/-- Some `kvs_array_set` or `kvs_array_del` of these calls changed the cell. -/
def Written (A : Allocator) (ops : List ArrayOp) (i : Nat) : Prop :=
  ∃ earlier op trace inst A' ret inst' B, earlier ++ [op] <+: ops ∧ op.SetsOrDeletes ∧
    arrayHistory earlier A = .ok ((trace, inst), A') ∧
    op.exec inst A' = .ok ((ret, inst'), B) ∧ inst'.item i ≠ inst.item i

theorem Written.later {A : Allocator} {ops : List ArrayOp} {i : Nat} (written : Written A ops i)
    (op : ArrayOp) : Written A (ops ++ [op]) i := by
  obtain ⟨earlier, last, trace, inst, A', ret, inst', B, isPrefix, rest⟩ := written
  exact ⟨earlier, last, trace, inst, A', ret, inst', B,
    isPrefix.trans (List.prefix_append ops [op]), rest⟩

/-- The cells up to the highest one ever used were written, and the others hold
no string. -/
structure HighWater (A : Allocator) (ops : List ArrayOp) (inst : KvsArray) (slots : List Slot) :
    Prop where
  keyed : Keyed inst slots
  written : ∀ i, i < slots.length → Written A ops i
  fresh : ∀ i, slots.length ≤ i → ∀ cell, inst.item i = .ok cell → cell.key.str? = none

theorem SameKeys.str? {inst inst' : KvsArray} {except : List Nat}
    (same : SameKeys inst inst' except) {i : Nat} (outside : i ∉ except) {cell' : KvsArrayItem}
    (loaded : inst'.item i = .ok cell') :
    ∃ cell, inst.item i = .ok cell ∧ cell'.key = cell.key := by
  have atIndex := same i outside
  rw [loaded] at atIndex
  obtain ⟨cell, old, key⟩ := ok_of_map atIndex.symm
  exact ⟨cell, old, key.symm⟩

section HighWater

variable {A A' B : Allocator} {ops : List ArrayOp} {inst inst' : KvsArray} {slots : List Slot}
  {trace : ArrayTrace} {ret : ArrayRet}

theorem HighWater.place (high : HighWater A ops inst slots) {key value : CStr}
    (before : arrayHistory ops A = .ok ((trace, inst), A'))
    (stepped : (ArrayOp.set key value).exec inst A' = .ok ((ret, inst'), B))
    (keyed : Keyed inst' (slotsPlace (key, value) slots))
    (same : SameKeys inst inst' [slots.findIdx Option.isNone]) :
    HighWater A (ops ++ [.set key value]) inst' (slotsPlace (key, value) slots) := by
  have first : slots.findIdx Option.isNone ≤ slots.length := List.findIdx_le_length
  have size := slotsPlace_length (key, value) slots
  refine ⟨keyed, fun i inside => ?_, fun i beyond cell' loaded => ?_⟩
  · by_cases old : i < slots.length
    · exact (high.written i old).later _
    have atEnd : i = slots.findIdx Option.isNone := by
      split at size <;> omega
    have placed : (slotsPlace (key, value) slots)[i]? = some (some (key, value)) := by
      rw [slotsPlace_getElem?, if_pos atEnd]
    obtain ⟨cell', loaded', held⟩ := keyed.item i _ placed
    refine ⟨ops, _, trace, inst, A', ret, inst', B, List.prefix_rfl, trivial, before, stepped, ?_⟩
    intro unchanged
    rw [loaded'] at unchanged
    have none := high.fresh i (by omega) cell' unchanged.symm
    rw [held.str?] at none
    cases none
  · have apart : i ∉ [slots.findIdx Option.isNone] := by
      simp only [List.mem_singleton]
      split at size <;> omega
    obtain ⟨cell, loaded₀, sameKey⟩ := same.str? apart loaded
    rw [sameKey]
    refine high.fresh i ?_ cell loaded₀
    split at size <;> omega

theorem HighWater.step (high : HighWater A ops inst slots) {op : ArrayOp}
    (before : arrayHistory ops A = .ok ((trace, inst), A'))
    (stepped : op.exec inst A' = .ok ((ret, inst'), B)) :
    ∃ slots', HighWater A (ops ++ [op]) inst' slots' := by
  obtain ⟨slots', keyed, step⟩ := (op.exec_moves high.keyed).of_ok _ _ stepped
  refine ⟨slots', ?_⟩
  cases step with
  | idle op inst' same missing =>
      refine ⟨keyed, fun i inside => (high.written i inside).later op, ?_⟩
      intro i beyond cell' loaded
      obtain ⟨cell, loaded₀, sameKey⟩ := same.str? (by simp) loaded
      rw [sameKey]
      exact high.fresh i beyond cell loaded₀
  | place key value inst' same => exact high.place before stepped keyed same
  | erase key j inst' found same =>
      obtain ⟨value, atIndex, -⟩ := slotsIndex_some found
      have below := (List.getElem?_eq_some_iff.mp (scanned_getElem? atIndex)).1
      have size : (slots.set j none).length = slots.length := List.length_set
      refine ⟨keyed, fun i inside => (high.written i (size ▸ inside)).later _, ?_⟩
      intro i beyond cell' loaded
      rw [size] at beyond
      obtain ⟨cell, loaded₀, sameKey⟩ := same.str? (by simp; omega) loaded
      rw [sameKey]
      exact high.fresh i beyond cell loaded₀

theorem kvsArrayCreate_highWater {code : Int}
    (created : kvsArrayCreate .zeroed A = .ok ((code, inst), B)) : HighWater A [] inst [] := by
  have start : Leaves (kvsArrayCreate .zeroed) A fun r _ => r.2.total = 0 ∧
      ∀ i cell, r.2.item i = .ok cell → cell.key.str? = none := by
    refine .malloc (fun _ => .pure ⟨rfl, fun i cell loaded => by cases loaded⟩) fun _ => ?_
    refine .ignore fun words C => .pure ⟨rfl, fun i cell loaded => ?_⟩
    simp only [KvsArray.item] at loaded
    split at loaded
    · cases loaded
      exact CPtr.str?_ofWord _
    · cases loaded
  obtain ⟨total, fresh⟩ := start.of_ok _ _ created
  exact ⟨⟨Nat.zero_le _, total, fun i slot found => by cases found⟩,
    fun i inside => absurd inside (Nat.not_lt_zero i), fun i _ cell loaded => fresh i cell loaded⟩

theorem arrayHistory_highWater (ran : arrayHistory ops A = .ok ((trace, inst), A')) :
    ∃ slots, HighWater A ops inst slots := by
  refine arrayHistory_invariant (fun ops inst _ => ∃ slots, HighWater A ops inst slots)
    (fun code inst B created => ⟨[], kvsArrayCreate_highWater created⟩) ?_ ran
  intro ops op trace inst A' ret inst' B before high stepped
  obtain ⟨slots, high⟩ := high
  exact high.step before stepped

/-- In every state of a history that returned, the scans look at cells of the table
that an earlier set or delete wrote, and no call looks at others. -/
theorem scans_read_written_cells (ran : arrayHistory ops A = .ok ((trace, inst), A')) :
    inst.total ≤ kvsArraySize ∧ (∀ i, i < inst.total → Written A ops i) ∧
      ∀ op : ArrayOp, ReadsScanned op inst A' ∧ op.exec inst A' ≠ .error .outOfBounds := by
  obtain ⟨slots, high⟩ := arrayHistory_highWater ran
  have below := high.keyed.total_le
  have fits := Nat.le_trans below high.keyed.bounded
  refine ⟨fits, fun i inside => high.written i (Nat.lt_of_lt_of_le inside below), fun op => ?_⟩
  exact ⟨op.readsScanned inst A', op.exec_inside fits⟩

end HighWater

/-- Three sets, a delete and a set that fills its hole: the scans reach the third cell
again. -/
theorem scans_read_written_refilled : Written .plentiful
    [.set ⟨[97], by decide⟩ ⟨[49], by decide⟩, .set ⟨[98], by decide⟩ ⟨[50], by decide⟩,
      .set ⟨[99], by decide⟩ ⟨[51], by decide⟩, .del ⟨[97], by decide⟩,
      .set ⟨[100], by decide⟩ ⟨[52], by decide⟩] 2 := by
  obtain ⟨-, written, -⟩ := scans_read_written_cells (show arrayHistory
    [.set ⟨[97], by decide⟩ ⟨[49], by decide⟩, .set ⟨[98], by decide⟩ ⟨[50], by decide⟩,
      .set ⟨[99], by decide⟩ ⟨[51], by decide⟩, .del ⟨[97], by decide⟩,
      .set ⟨[100], by decide⟩ ⟨[52], by decide⟩] .plentiful = .ok _ from rfl)
  exact written 2 (by decide)

end LinuxCpp.Kvstore
