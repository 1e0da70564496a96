import LinuxCpp.Kvstore.ArrayDense

set_option autoImplicit false

namespace LinuxCpp.Kvstore

open C

/-- The table is dense and holds exactly what the calls so far acknowledged. -/
def Tracks (inst : KvsArray) (trace : ArrayTrace) : Prop :=
  ∃ entries, Dense inst entries ∧ ∀ key, slotsGet key entries.slots = acknowledged key trace

section Step

variable {inst : KvsArray} {trace : ArrayTrace} {A : Allocator}

theorem Tracks.get (tracks : Tracks inst trace) (key : CStr) :
    ∃ p, kvsArrayGet inst (some key) = .ok p ∧ p.Holds (acknowledged key trace) := by
  obtain ⟨entries, dense, expected⟩ := tracks
  obtain ⟨p, got, held⟩ := kvsArrayGet_spec dense.rep key
  rw [Entries.scanned_slots, expected] at held
  exact ⟨p, got, held⟩

/-- A call that acknowledges no write leaves the expectation as it is. -/
theorem Tracks.idle (tracks : Tracks inst trace) (step : ArrayOp × ArrayRet)
    (silent : ∀ key current, acknowledge key current step = current) :
    Tracks inst (trace ++ [step]) := by
  obtain ⟨entries, dense, expected⟩ := tracks
  exact ⟨entries, dense, fun key => by rw [acknowledged_snoc, silent, expected]⟩

theorem Tracks.set (tracks : Tracks inst trace) (granted : A.AllSucceed) (key value : CStr) :
    ∃ ret inst' A', (ArrayOp.set key value).exec inst A = .ok ((ret, inst'), A') ∧
      Tracks inst' (trace ++ [(.set key value, ret)]) ∧ A'.AllSucceed := by
  obtain ⟨entries, dense, expected⟩ := tracks
  by_cases full : inst.total = kvsArraySize
  · refine ⟨.code (-1), inst, A, ?_, Tracks.idle ⟨entries, dense, expected⟩ _ (by
      intro k current; rfl), granted⟩
    simp only [ArrayOp.exec]
    rw [bind_ok (kvsArraySet_full full key value)]
    rfl
  · cases present : slotsGet key entries.slots with
    | some old =>
        refine ⟨.code 1, inst, A, ?_, Tracks.idle ⟨entries, dense, expected⟩ _ (by
          intro k current; rfl), granted⟩
        simp only [ArrayOp.exec]
        rw [bind_ok (kvsArraySet_present dense.rep full key value (by simp [present]))]
        rfl
    | none =>
        obtain ⟨inst', A', ran, rep, later⟩ :=
          kvsArraySet_absent dense.rep granted full key value (by simpa using present)
        refine ⟨.code 0, inst', A', ?_, ⟨_, dense.append present rep, ?_⟩,
          later.allSucceed granted⟩
        · simp only [ArrayOp.exec]
          rw [bind_ok ran]
          rfl
        · intro k
          rw [acknowledged_snoc, Entries.slotsGet_append, expected, Entries.slotsGet_cons]
          by_cases same : key = k
          · subst same
            rw [expected] at present
            simp [acknowledge, present]
          · simp [acknowledge, same, slotsGet, Entries.slots]

theorem Tracks.mod (tracks : Tracks inst trace) (granted : A.AllSucceed) (key value : CStr) :
    ∃ ret inst' A', (ArrayOp.mod key value).exec inst A = .ok ((ret, inst'), A') ∧
      Tracks inst' (trace ++ [(.mod key value, ret)]) ∧ A'.AllSucceed := by
  obtain ⟨entries, dense, expected⟩ := tracks
  cases index : slotsIndex key entries.slots with
  | none =>
      obtain ⟨code, positive, ran⟩ := kvsArrayMod_absent (A := A) dense.rep key value
        (by simpa using slotsIndex_none index)
      refine ⟨.code code, inst, A, ?_, Tracks.idle ⟨entries, dense, expected⟩ _ ?_, granted⟩
      · simp only [ArrayOp.exec]
        rw [bind_ok ran]
        rfl
      · intro k current
        unfold acknowledge
        split <;> simp_all
  | some i =>
      obtain ⟨inst', A', ran, rep, later⟩ :=
        kvsArrayMod_present dense.rep granted key value (by simpa using index)
      obtain ⟨front, old, back, rfl, rfl⟩ := entries.split_at index
      refine ⟨.code 0, inst', A', ?_, ⟨_, dense.replace rep, ?_⟩, later.allSucceed granted⟩
      · simp only [ArrayOp.exec]
        rw [bind_ok ran]
        rfl
      · intro k
        rw [acknowledged_snoc, ← expected, Entries.slotsGet_split dense.distinct,
          Entries.slotsGet_split (by simpa using dense.distinct)]
        by_cases same : key = k <;> simp [acknowledge, same]

theorem Dense.key_at {entries : Entries} (dense : Dense inst entries) {key : CStr} {i : Nat}
    {cell : KvsArrayItem} (below : i < inst.total) (loaded : inst.item i = .ok cell)
    (isKey : cell.key.str? = some key) : ∃ value, entries[i]? = some (key, value) := by
  have inside : i < entries.length := dense.total ▸ below
  obtain ⟨other, same, otherKey⟩ := dense.item (List.getElem?_eq_getElem inside)
  rw [loaded] at same
  cases same
  rw [isKey] at otherKey
  exact ⟨entries[i].2, by rw [List.getElem?_eq_getElem inside, Option.some.inj otherKey]⟩

theorem Dense.lastCell_of_absent {entries : Entries} (dense : Dense inst entries) {key : CStr}
    (absent : slotsGet key entries.slots = none) : LastCell inst key := by
  intro i cell below loaded isKey
  obtain ⟨value, atIndex⟩ := dense.key_at below loaded isKey
  exact absurd (List.mem_map_of_mem (List.mem_of_getElem? atIndex))
    (entries.key_absent_of_slotsGet absent)

theorem Dense.lastCell_iff {front back : Entries} {key old : CStr}
    (dense : Dense inst (front ++ (key, old) :: back)) : LastCell inst key ↔ back = [] := by
  have size := dense.total
  rw [List.length_append, List.length_cons] at size
  constructor
  · intro last
    have here : (front ++ (key, old) :: back)[front.length]? = some (key, old) := by simp
    obtain ⟨cell, loaded, isKey⟩ := dense.item here
    have atEnd := last front.length cell (by omega) loaded isKey
    exact List.length_eq_zero_iff.mp (by omega)
  · rintro rfl i cell below loaded isKey
    obtain ⟨value, atIndex⟩ := dense.key_at below loaded isKey
    have notBefore : ¬ i < front.length := by
      intro inside
      rw [List.getElem?_append_left inside] at atIndex
      exact Entries.not_mem_front dense.distinct
        (List.mem_map_of_mem (List.mem_of_getElem? atIndex))
    simp only [List.length_nil] at size
    omega

theorem Tracks.del (tracks : Tracks inst trace) (granted : A.AllSucceed) (key : CStr)
    (last : LastCell inst key) :
    ∃ ret inst' A', (ArrayOp.del key).exec inst A = .ok ((ret, inst'), A') ∧
      Tracks inst' (trace ++ [(.del key, ret)]) ∧ A'.AllSucceed := by
  obtain ⟨entries, dense, expected⟩ := tracks
  have clear : NoHoleBefore key (scanned entries.slots) := by
    simpa using entries.noHoleBefore_slots key
  cases index : slotsIndex key entries.slots with
  | none =>
      have absent := slotsIndex_none index
      have ran := kvsArrayDel_absent (A := A) dense.rep key clear (by simpa using absent)
      refine ⟨.code inst.total, inst, A, ?_, ⟨entries, dense, ?_⟩, granted⟩
      · simp only [ArrayOp.exec]
        rw [bind_ok ran]
        rfl
      · intro k
        rw [acknowledged_snoc]
        by_cases same : key = k
        -- on an empty table the source returns its index 0, which reads as success
        · subst same
          rw [expected] at absent ⊢
          unfold acknowledge
          split <;> simp_all
        · rw [expected]
          unfold acknowledge
          split <;> simp_all
  | some i =>
      obtain ⟨inst', A', ran, rep, later⟩ :=
        kvsArrayDel_present (A := A) dense.rep key clear (by simpa using index)
      obtain ⟨front, old, back, rfl, rfl⟩ := entries.split_at index
      have atEnd := dense.lastCell_iff.mp last
      subst atEnd
      refine ⟨.code 0, inst', A', ?_, ⟨_, dense.removeLast rep, ?_⟩, later.allSucceed granted⟩
      · simp only [ArrayOp.exec]
        rw [bind_ok ran]
        rfl
      · intro k
        rw [acknowledged_snoc, ← expected, Entries.slotsGet_split dense.distinct]
        by_cases same : key = k
        · subst same
          simp [acknowledge,
            Entries.slotsGet_eq_none front key (Entries.not_mem_front dense.distinct)]
        · simp [acknowledge, same, slotsGet, Entries.slots]

theorem Tracks.step (tracks : Tracks inst trace) (granted : A.AllSucceed) (op : ArrayOp)
    (last : ∀ key, op = .del key → LastCell inst key) :
    ∃ ret inst' A', op.exec inst A = .ok ((ret, inst'), A') ∧
      Tracks inst' (trace ++ [(op, ret)]) ∧ A'.AllSucceed := by
  cases op with
  | set key value => exact tracks.set granted key value
  | mod key value => exact tracks.mod granted key value
  | del key => exact tracks.del granted key (last key rfl)
  | get key =>
      obtain ⟨p, got, -⟩ := tracks.get key
      refine ⟨.ptr p, inst, A, ?_, tracks.idle _ (fun _ _ => rfl), granted⟩
      simp only [ArrayOp.exec]
      rw [lift_bind_ok got]
      rfl
  | exist key =>
      obtain ⟨entries, dense, -⟩ := id tracks
      have checked := kvsArrayExist_spec dense.rep key
      refine ⟨.code (if slotsGet key (scanned entries.slots) = none then 1 else 0), inst, A, ?_,
        tracks.idle _ (fun _ _ => rfl), granted⟩
      simp only [ArrayOp.exec]
      rw [lift_bind_ok checked]
      rfl

/-- After a delete in the middle the scans end one slot before the last entry. -/
theorem scanned_hole (front body : Entries) (entry last : CStr × CStr) :
    scanned ((Entries.slots (front ++ entry :: (body ++ [last]))).set front.length none) =
      Entries.slots front ++ none :: Entries.slots body := by
  have occupied : (Entries.slots (front ++ entry :: (body ++ [last])))[front.length]? =
      some (some entry) := by simp [Entries.slots]
  have live := liveSlots_set_none occupied
  rw [Entries.liveSlots_slots] at live
  simp only [List.length_append, List.length_cons, List.length_nil] at live
  have count : liveSlots ((Entries.slots (front ++ entry :: (body ++ [last]))).set
      front.length none) = front.length + (body.length + 1) := by omega
  have shape : (Entries.slots (front ++ entry :: (body ++ [last]))).set front.length none =
      (Entries.slots front ++ none :: Entries.slots body) ++ [some last] := by
    simp [Entries.slots]
  rw [scanned, count, shape, List.take_left']
  simp [Entries.slots]

theorem slotsGet_around_hole (key : CStr) (front body : Entries) :
    slotsGet key (Entries.slots front ++ none :: Entries.slots body) =
      slotsGet key (Entries.slots (front ++ body)) := by
  simp [slotsGet, Entries.slots, List.findSome?_append]

/-- A delete of an earlier cell shrinks the scans below the last entry, whose
acknowledged value is then no longer found. -/
theorem Tracks.del_earlier_loses (tracks : Tracks inst trace) (key : CStr)
    (earlier : ¬ LastCell inst key) {ret : ArrayRet} {inst' : KvsArray} {A' : Allocator}
    (ran : (ArrayOp.del key).exec inst A = .ok ((ret, inst'), A')) :
    ∃ lost value, acknowledged lost (trace ++ [(.del key, ret)]) = some value ∧
      kvsArrayGet inst' (some lost) = .ok .null := by
  obtain ⟨entries, dense, expected⟩ := tracks
  cases index : slotsIndex key entries.slots with
  | none => exact absurd (dense.lastCell_of_absent (slotsIndex_none index)) earlier
  | some j =>
      obtain ⟨inst₁, A₁, ran₁, rep, -⟩ := kvsArrayDel_present (A := A) dense.rep key
        (by simpa using entries.noHoleBefore_slots key) (by simpa using index)
      simp only [ArrayOp.exec] at ran
      rw [bind_ok ran₁] at ran
      cases ran
      obtain ⟨front, old, back, rfl, rfl⟩ := entries.split_at index
      have notEmpty : back ≠ [] := fun atEnd => earlier (dense.lastCell_iff.mpr atEnd)
      obtain ⟨body, ⟨lost, value⟩, shape⟩ := List.eq_nil_or_concat back |>.resolve_left notEmpty
      rw [List.concat_eq_append] at shape
      subst shape
      have regroup : front ++ (key, old) :: (body ++ [(lost, value)]) =
          (front ++ (key, old) :: body) ++ (lost, value) :: [] := by simp
      have fresh := Entries.not_mem_front (regroup ▸ dense.distinct)
      simp only [List.map_append, List.map_cons, List.mem_append, List.mem_cons, not_or] at fresh
      refine ⟨lost, value, ?_, ?_⟩
      · rw [acknowledged_snoc, ← expected lost, regroup,
          Entries.slotsGet_split (regroup ▸ dense.distinct)]
        simp [acknowledge, Ne.symm fresh.2.1]
      · obtain ⟨p, got, held⟩ := kvsArrayGet_spec rep lost
        have gone : slotsGet lost (scanned ((Entries.slots
            (front ++ (key, old) :: (body ++ [(lost, value)]))).set front.length none)) = none := by
          rw [scanned_hole, slotsGet_around_hole]
          apply Entries.slotsGet_eq_none
          simp only [List.map_append, List.mem_append, not_or]
          exact ⟨fresh.1, fresh.2.2⟩
        rw [got, held.eq_null_iff.mpr gone]

end Step

theorem arrayHistory_nil {A : Allocator} (granted : A.AllSucceed) :
    ∃ inst, arrayHistory [] A = .ok (([], inst), A.next) ∧ Tracks inst [] := by
  obtain ⟨inst, created, rep⟩ := kvsArrayCreate_run granted
  refine ⟨inst, ?_, [], ⟨by simpa [Entries.slots] using rep, by simp⟩, fun key => rfl⟩
  unfold arrayHistory
  rw [bind_ok created]
  rfl

theorem take_succ_of_getElem? {ops : List ArrayOp} {n : Nat} {op : ArrayOp}
    (atIndex : ops[n]? = some op) : ops.take (n + 1) = ops.take n ++ [op] := by
  rw [List.take_add_one, atIndex]
  rfl

theorem arrayHistory_step {ops : List ArrayOp} {A A' B : Allocator} {trace : ArrayTrace}
    {inst inst' : KvsArray} {op : ArrayOp} {ret : ArrayRet} {n : Nat}
    (before : arrayHistory (ops.take n) A = .ok ((trace, inst), A'))
    (atIndex : ops[n]? = some op) (ran : op.exec inst A' = .ok ((ret, inst'), B)) :
    arrayHistory (ops.take (n + 1)) A = .ok ((trace ++ [(op, ret)], inst'), B) := by
  rw [take_succ_of_getElem? atIndex, arrayHistory_snoc before op, bind_ok ran]
  rfl

/-- The first `n` calls of the run return and leave a dense table. -/
def TracksAfter (A : Allocator) (ops : List ArrayOp) (n : Nat) : Prop :=
  ∃ trace inst A', arrayHistory (ops.take n) A = .ok ((trace, inst), A') ∧
    Tracks inst trace ∧ A'.AllSucceed

theorem TracksAfter.zero {A : Allocator} (granted : A.AllSucceed) (ops : List ArrayOp) :
    TracksAfter A ops 0 := by
  obtain ⟨inst, ran, tracks⟩ := arrayHistory_nil granted
  exact ⟨[], inst, A.next, ran, tracks, (Allocator.Later.next A).allSucceed granted⟩

theorem TracksAfter.succ {A : Allocator} {ops : List ArrayOp} {n : Nat}
    (before : TracksAfter A ops n)
    (last : ∀ key trace inst A', ops[n]? = some (.del key) →
      arrayHistory (ops.take n) A = .ok ((trace, inst), A') → LastCell inst key) :
    TracksAfter A ops (n + 1) := by
  obtain ⟨trace, inst, A', ran, tracks, granted⟩ := before
  cases atIndex : ops[n]? with
  | none =>
      have short : ops.take (n + 1) = ops.take n := by rw [List.take_add_one, atIndex]; simp
      exact ⟨trace, inst, A', short ▸ ran, tracks, granted⟩
  | some op =>
      obtain ⟨ret, inst', B, stepped, tracks', granted'⟩ := tracks.step granted op
        (fun key isDel => last key trace inst A' (by rw [atIndex, isDel]) ran)
      exact ⟨_, inst', B, arrayHistory_step ran atIndex stepped, tracks', granted'⟩

theorem TracksAfter.survives {A : Allocator} {ops : List ArrayOp} {n : Nat}
    (after : TracksAfter A ops n) : Survives A (ops.take n) := by
  obtain ⟨trace, inst, A', ran, tracks, -⟩ := after
  exact ⟨trace, inst, A', ran, tracks.get⟩

/-- A delete that answered correctly must have hit the last cell. -/
theorem TracksAfter.lastCell {A : Allocator} {ops : List ArrayOp} {n : Nat}
    (before : TracksAfter A ops n) (after : Survives A (ops.take (n + 1))) (key : CStr)
    {trace : ArrayTrace} {inst : KvsArray} {A' : Allocator} (isDel : ops[n]? = some (.del key))
    (ran : arrayHistory (ops.take n) A = .ok ((trace, inst), A')) : LastCell inst key := by
  obtain ⟨trace₀, inst₀, A₀, ran₀, tracks, granted⟩ := before
  rw [ran] at ran₀
  cases ran₀
  by_contra earlier
  obtain ⟨trace₁, inst₁, A₁, ran₁, answers⟩ := after
  rw [take_succ_of_getElem? isDel, arrayHistory_snoc ran] at ran₁
  obtain ⟨⟨ret, inst'⟩, B, stepped, returned⟩ := run_of_bind ran₁
  cases returned
  obtain ⟨lost, value, owed, missing⟩ := tracks.del_earlier_loses key earlier stepped
  obtain ⟨p, got, held⟩ := answers lost
  rw [missing] at got
  cases got
  rw [owed] at held
  obtain ⟨block, impossible⟩ := held
  cases impossible

/-- Acknowledged writes survive at every moment of a run exactly when every
delete of the run hits the last cell a scan sees. -/
theorem acknowledged_writes_survive_iff (A : Allocator) (granted : A.AllSucceed)
    (ops : List ArrayOp) :
    (∀ n, Survives A (ops.take n)) ↔ DeletesLastCell A ops := by
  constructor
  · intro survives
    have tracked : ∀ n, TracksAfter A ops n := by
      intro n
      induction n with
      | zero => exact .zero granted ops
      | succ n ih =>
          exact ih.succ fun key _ _ _ isDel ran => ih.lastCell (survives (n + 1)) key isDel ran
    intro n key trace inst A' isDel ran
    exact (tracked n).lastCell (survives (n + 1)) key isDel ran
  · intro last n
    have tracked : TracksAfter A ops n := by
      induction n with
      | zero => exact .zero granted ops
      | succ n ih => exact ih.succ (last n)
    exact tracked.survives

theorem deletesLastCell_stack :
    DeletesLastCell .plentiful
      [.set ⟨[97], by decide⟩ ⟨[49], by decide⟩, .set ⟨[98], by decide⟩ ⟨[50], by decide⟩,
        .del ⟨[98], by decide⟩] := by
  intro n key trace inst A' isDel ran i cell below loaded isKey
  match n with
  | 0 | 1 => simp at isDel
  | 2 =>
      cases isDel
      cases ran
      match i with
      | 0 => cases loaded; cases isKey
      | 1 => rfl
      | i + 2 => simp only at below; omega
  | n + 3 => simp at isDel

/-- `SET a 1`, `SET b 2`, `DEL b`: the delete hits the last cell. -/
theorem acknowledged_writes_survive_stack :
    DeletesLastCell .plentiful
      [.set ⟨[97], by decide⟩ ⟨[49], by decide⟩, .set ⟨[98], by decide⟩ ⟨[50], by decide⟩,
        .del ⟨[98], by decide⟩] ∧
    ∀ n, Survives .plentiful (List.take n
      [.set ⟨[97], by decide⟩ ⟨[49], by decide⟩, .set ⟨[98], by decide⟩ ⟨[50], by decide⟩,
        .del ⟨[98], by decide⟩]) :=
  ⟨deletesLastCell_stack, (acknowledged_writes_survive_iff .plentiful
    Allocator.plentiful_allSucceed _).mpr deletesLastCell_stack⟩

/-- `SET a 1`, `SET b 2`, `DEL a`: the scans then end before the cell of `b`. -/
theorem acknowledged_write_lost :
    ¬ Survives .plentiful
      [.set ⟨[97], by decide⟩ ⟨[49], by decide⟩, .set ⟨[98], by decide⟩ ⟨[50], by decide⟩,
        .del ⟨[97], by decide⟩] := by
  rintro ⟨trace, inst, A', ran, answers⟩
  obtain ⟨p, got, held⟩ := answers ⟨[98], by decide⟩
  have lost : (match arrayHistory
      [.set ⟨[97], by decide⟩ ⟨[49], by decide⟩, .set ⟨[98], by decide⟩ ⟨[50], by decide⟩,
        .del ⟨[97], by decide⟩] .plentiful with
      | .ok ((trace, inst), _) => (acknowledged ⟨[98], by decide⟩ trace,
          kvsArrayGet inst (some ⟨[98], by decide⟩))
      | .error _ => (none, .ok .null)) = (some ⟨[50], by decide⟩, .ok .null) := by rfl
  rw [ran] at lost
  simp only [Prod.mk.injEq] at lost
  rw [lost.1] at held
  rw [lost.2] at got
  cases got
  obtain ⟨block, impossible⟩ := held
  cases impossible

end LinuxCpp.Kvstore
