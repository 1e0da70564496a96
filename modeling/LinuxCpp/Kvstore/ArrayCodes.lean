import LinuxCpp.Kvstore.ArrayHoles

set_option autoImplicit false

/- The codes of `kvs_array_del` and `kvs_array_mod` beside the answer of
`kvs_array_exist`. -/
namespace LinuxCpp.Kvstore

open C

/-- 0 for a key that is there, a positive code for one that is not. -/
def Truthful (answer code : Int) : Prop := if answer = 0 then code = 0 else 0 < code

/-- The call returns, with a code that agrees with what `kvs_array_exist` says. -/
def TellsTruth (call : CM (Int × KvsArray)) (inst : KvsArray) (A : Allocator) (key : CStr) : Prop :=
  ∃ answer code inst' B, kvsArrayExist inst (some key) = .ok answer ∧
    call A = .ok ((code, inst'), B) ∧ Truthful answer code

/-- Every NULL key below `total` comes after a cell with this key. -/
def KeyBeforeHoles (inst : KvsArray) (key : CStr) : Prop :=
  ∀ i cell, i < inst.total → inst.item i = .ok cell → cell.key = .null →
    ∃ j cell', j < i ∧ inst.item j = .ok cell' ∧ cell'.key.str? = some key

section State

variable {inst : KvsArray} {slots : List Slot} {A : Allocator}

theorem Keyed.keyBeforeHoles_iff (keyed : Keyed inst slots) (key : CStr) :
    KeyBeforeHoles inst key ↔ NoHoleBefore key (scanned slots) := by
  rw [noHoleBefore_iff]
  constructor
  · intro before j hole
    have inside := (List.getElem?_eq_some_iff.mp hole).1
    rw [scanned, List.length_take] at inside
    have below : j < inst.total := by
      have := keyed.total
      omega
    obtain ⟨cell, loaded, isNull⟩ := keyed.item j _ (scanned_getElem? hole)
    obtain ⟨i, cell', earlier, loaded', isKey⟩ := before j cell below loaded isNull
    obtain ⟨value, here⟩ := keyed.key_at (by omega) loaded' isKey
    exact ⟨i, value, earlier, here⟩
  · intro before i cell below loaded isNull
    have inside : i < slots.length := Nat.lt_of_lt_of_le below keyed.total_le
    obtain ⟨other, same, held⟩ := keyed.item i _ (List.getElem?_eq_getElem inside)
    rw [loaded] at same
    cases same
    have hole : (scanned slots)[i]? = some none := by
      rw [scanned, List.getElem?_take_of_lt (keyed.total ▸ below), List.getElem?_eq_getElem inside]
      simpa using held.eq_null_iff.mp isNull
    obtain ⟨j, value, earlier, here⟩ := before i hole
    obtain ⟨cell', loaded', held'⟩ := keyed.item j _ (scanned_getElem? here)
    exact ⟨j, cell', earlier, loaded', held'.str?⟩

theorem kvsArrayMod_tellsTruth (rep : Represents inst slots) (granted : A.AllSucceed)
    (key value : CStr) : TellsTruth (kvsArrayMod inst (some key) (some value)) inst A key := by
  have answer := kvsArrayExist_spec rep key
  cases index : slotsIndex key (scanned slots) with
  | none =>
      have absent := slotsIndex_none index
      obtain ⟨code, positive, ran⟩ := kvsArrayMod_absent (A := A) rep key value absent
      rw [if_pos absent] at answer
      exact ⟨1, code, inst, A, answer, ran, positive⟩
  | some i =>
      obtain ⟨old, -, found⟩ := slotsIndex_some index
      obtain ⟨inst', B, ran, -⟩ := kvsArrayMod_present rep granted key value index
      rw [if_neg (by rw [found]; simp)] at answer
      exact ⟨0, 0, inst', B, answer, ran, rfl⟩

theorem kvsArrayDel_tellsTruth_iff (rep : Represents inst slots) (key : CStr) :
    TellsTruth (kvsArrayDel inst (some key)) inst A key ↔ KeyBeforeHoles inst key ∧
      (kvsArrayExist inst (some key) = .ok 0 ∨ 0 < inst.total) := by
  rw [rep.keyed.keyBeforeHoles_iff key]
  have answer := kvsArrayExist_spec rep key
  by_cases clear : NoHoleBefore key (scanned slots)
  · cases index : slotsIndex key (scanned slots) with
    | none =>
        have absent := slotsIndex_none index
        have ran := kvsArrayDel_absent (A := A) rep key clear absent
        rw [if_pos absent] at answer
        constructor
        · rintro ⟨found, code, inst', B, said, deleted, truth⟩
          rw [answer] at said
          rw [ran] at deleted
          cases said
          cases deleted
          exact ⟨clear, .inr (by simpa [Truthful] using truth)⟩
        · rintro ⟨-, present | positive⟩
          · rw [answer] at present
            cases present
          · exact ⟨1, inst.total, inst, A, answer, ran, by simpa [Truthful] using positive⟩
    | some i =>
        obtain ⟨old, -, found⟩ := slotsIndex_some index
        obtain ⟨inst', B, ran, -⟩ := kvsArrayDel_present (A := A) rep key clear index
        rw [if_neg (by rw [found]; simp)] at answer
        exact ⟨fun _ => ⟨clear, .inl answer⟩, fun _ => ⟨0, 0, inst', B, answer, ran, rfl⟩⟩
  · have fault := kvsArrayDel_hole (A := A) rep.keyed key clear
    refine ⟨?_, fun met => absurd met.1 clear⟩
    rintro ⟨found, code, inst', B, -, deleted, -⟩
    rw [fault] at deleted
    cases deleted

theorem kvsArraySet_represents (rep : Represents inst slots) (granted : A.AllSucceed)
    (key value : CStr) :
    ∃ code inst' slots' B, kvsArraySet inst (some key) (some value) A = .ok ((code, inst'), B) ∧
      Represents inst' slots' ∧ B.AllSucceed := by
  by_cases full : inst.total = kvsArraySize
  · exact ⟨-1, inst, slots, A, kvsArraySet_full full key value, rep, granted⟩
  · by_cases absent : slotsGet key (scanned slots) = none
    · obtain ⟨inst', B, ran, rep', later⟩ := kvsArraySet_absent rep granted full key value absent
      exact ⟨0, inst', _, B, ran, rep', later.allSucceed granted⟩
    · exact ⟨1, inst, slots, A, kvsArraySet_present rep full key value absent, rep, granted⟩

theorem kvsArrayMod_represents (rep : Represents inst slots) (granted : A.AllSucceed)
    (key value : CStr) :
    ∃ code inst' slots' B, kvsArrayMod inst (some key) (some value) A = .ok ((code, inst'), B) ∧
      Represents inst' slots' ∧ B.AllSucceed := by
  cases index : slotsIndex key (scanned slots) with
  | none =>
      obtain ⟨code, -, ran⟩ := kvsArrayMod_absent (A := A) rep key value (slotsIndex_none index)
      exact ⟨code, inst, slots, A, ran, rep, granted⟩
  | some i =>
      obtain ⟨inst', B, ran, rep', later⟩ := kvsArrayMod_present rep granted key value index
      exact ⟨0, inst', _, B, ran, rep', later.allSucceed granted⟩

theorem kvsArrayDel_represents (rep : Represents inst slots) (granted : A.AllSucceed) {key : CStr}
    (clear : NoHoleBefore key (scanned slots)) :
    ∃ code inst' slots' B, kvsArrayDel inst (some key) A = .ok ((code, inst'), B) ∧
      Represents inst' slots' ∧ B.AllSucceed := by
  cases index : slotsIndex key (scanned slots) with
  | none =>
      have ran := kvsArrayDel_absent (A := A) rep key clear (slotsIndex_none index)
      exact ⟨inst.total, inst, slots, A, ran, rep, granted⟩
  | some i =>
      obtain ⟨inst', B, ran, rep', later⟩ := kvsArrayDel_present (A := A) rep key clear index
      exact ⟨0, inst', _, B, ran, rep', later.allSucceed granted⟩

/-- Without a refused allocation a call that returns leaves whole slots behind. -/
theorem Represents.exec (rep : Represents inst slots) (granted : A.AllSucceed) {op : ArrayOp}
    {ret : ArrayRet} {inst' : KvsArray} {B : Allocator}
    (stepped : op.exec inst A = .ok ((ret, inst'), B)) :
    (∃ slots', Represents inst' slots') ∧ B.AllSucceed := by
  cases op with
  | set key value =>
      obtain ⟨code, inst₁, slots₁, C, ran, rep₁, granted₁⟩ :=
        kvsArraySet_represents rep granted key value
      simp only [ArrayOp.exec] at stepped
      rw [bind_ok ran] at stepped
      cases stepped
      exact ⟨⟨slots₁, rep₁⟩, granted₁⟩
  | mod key value =>
      obtain ⟨code, inst₁, slots₁, C, ran, rep₁, granted₁⟩ :=
        kvsArrayMod_represents rep granted key value
      simp only [ArrayOp.exec] at stepped
      rw [bind_ok ran] at stepped
      cases stepped
      exact ⟨⟨slots₁, rep₁⟩, granted₁⟩
  | del key =>
      simp only [ArrayOp.exec] at stepped
      by_cases clear : NoHoleBefore key (scanned slots)
      · obtain ⟨code, inst₁, slots₁, C, ran, rep₁, granted₁⟩ :=
          kvsArrayDel_represents rep granted clear
        rw [bind_ok ran] at stepped
        cases stepped
        exact ⟨⟨slots₁, rep₁⟩, granted₁⟩
      · rw [bind_error (kvsArrayDel_hole rep.keyed key clear)] at stepped
        cases stepped
  | get key =>
      obtain ⟨p, got, -⟩ := kvsArrayGet_spec rep key
      simp only [ArrayOp.exec] at stepped
      rw [lift_bind_ok got] at stepped
      cases stepped
      exact ⟨⟨slots, rep⟩, granted⟩
  | exist key =>
      simp only [ArrayOp.exec] at stepped
      rw [lift_bind_ok (kvsArrayExist_spec rep key)] at stepped
      cases stepped
      exact ⟨⟨slots, rep⟩, granted⟩

end State

section History

variable {A A' : Allocator} {ops : List ArrayOp} {trace : ArrayTrace} {inst : KvsArray}

theorem arrayHistory_represents (granted : A.AllSucceed)
    (ran : arrayHistory ops A = .ok ((trace, inst), A')) :
    (∃ slots, Represents inst slots) ∧ A'.AllSucceed := by
  refine arrayHistory_invariant
    (fun _ inst A' => (∃ slots, Represents inst slots) ∧ A'.AllSucceed) ?_ ?_ ran
  · intro code inst B created
    obtain ⟨fresh, ran, rep⟩ := kvsArrayCreate_run granted
    rw [ran] at created
    cases created
    exact ⟨⟨[], rep⟩, (Allocator.Later.next A).allSucceed granted⟩
  · rintro ops op trace inst A' ret inst' B - ⟨⟨slots, rep⟩, granted'⟩ stepped
    exact rep.exec granted' stepped

/-- In every state reached, `kvs_array_mod` tells the truth, and `kvs_array_del` does
exactly when no NULL key comes before the key and the key is there or the table not
empty. -/
theorem codes_tell_truth_iff (granted : A.AllSucceed)
    (ran : arrayHistory ops A = .ok ((trace, inst), A')) (key value : CStr) :
    (TellsTruth (kvsArrayMod inst (some key) (some value)) inst A' key ∧
      TellsTruth (kvsArrayDel inst (some key)) inst A' key) ↔
    KeyBeforeHoles inst key ∧ (kvsArrayExist inst (some key) = .ok 0 ∨ 0 < inst.total) := by
  obtain ⟨⟨slots, rep⟩, granted'⟩ := arrayHistory_represents granted ran
  rw [kvsArrayDel_tellsTruth_iff rep key]
  exact and_iff_right (kvsArrayMod_tellsTruth rep granted' key value)

end History

/-- After `SET a 1`, `SET b 2`, for the key `b`. -/
theorem codes_tell_truth_stored : ∃ trace inst A',
    arrayHistory
      [.set ⟨[97], by decide⟩ ⟨[49], by decide⟩, .set ⟨[98], by decide⟩ ⟨[50], by decide⟩]
      .plentiful = .ok ((trace, inst), A') ∧
    TellsTruth (kvsArrayMod inst (some ⟨[98], by decide⟩) (some ⟨[51], by decide⟩)) inst A'
      ⟨[98], by decide⟩ ∧
    TellsTruth (kvsArrayDel inst (some ⟨[98], by decide⟩)) inst A' ⟨[98], by decide⟩ := by
  have ran : arrayHistory
      [.set ⟨[97], by decide⟩ ⟨[49], by decide⟩, .set ⟨[98], by decide⟩ ⟨[50], by decide⟩]
      .plentiful = .ok ((_, _), _) := rfl
  refine ⟨_, _, _, ran,
    (codes_tell_truth_iff Allocator.plentiful_allSucceed ran _ _).mpr ⟨?_, .inl rfl⟩⟩
  intro i cell below loaded isNull
  match i with
  | 0 | 1 => cases loaded; cases isNull
  | i + 2 => simp only at below; omega

/-- On a table just created, deleting `a` returns the success code. -/
theorem del_absent_reports_success : ∃ inst A',
    arrayHistory [] .plentiful = .ok (([], inst), A') ∧
    kvsArrayExist inst (some ⟨[97], by decide⟩) = .ok 1 ∧
    ¬ TellsTruth (kvsArrayDel inst (some ⟨[97], by decide⟩)) inst A' ⟨[97], by decide⟩ := by
  refine ⟨_, _, rfl, rfl, ?_⟩
  rintro ⟨answer, code, inst', B, said, ran, truth⟩
  cases said
  cases ran
  exact absurd (show Truthful 1 0 from truth) (by simp [Truthful])

end LinuxCpp.Kvstore
