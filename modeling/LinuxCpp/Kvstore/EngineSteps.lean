import LinuxCpp.Kvstore.ArrayDense
import LinuxCpp.Kvstore.HashRefines
import LinuxCpp.Kvstore.RbtreeMod
import LinuxCpp.Kvstore.Requests

set_option autoImplicit false

/- One request to one engine: the answer of the map the engine stands for, and
the map after it. -/
namespace LinuxCpp.Kvstore

open C RedBlack RedBlack.ColorTree

section Rbtree

variable {S : Store} {A : Allocator} {t : RbTree}

/-- The deletion does not take out a black leaf below another node. -/
def Request.SparesBlackLeaf (t : RbTree) (r : Request) : Prop :=
  ∀ key, r = .del key → splicesBlackLeaf RbItem.key key t = false

/-- One round more than the tree has nodes is enough for the descent, one more for the repair. -/
theorem rbtree_run (inv : RbInv S.rbtree A t) (granted : A.AllSucceed) (r : Request)
    (spares : r.SparesBlackLeaf t) {fuel : Nat} (enough : t.size + 2 ≤ fuel) :
    ∃ T' B t', r.exec fuel S .rbtree A =
        .ok ((sprintf (r.answer noExistText (rbView t)), { S with rbtree := T' }), B) ∧
      RbInv T' B t' ∧ rbView t' = r.update (rbView t) ∧ A.Later B := by
  have descent : t.size < fuel := by omega
  have repair : t.size + 1 ≤ fuel := by omega
  cases r with
  | get key =>
      have got : kvsRbtreeGet fuel S.rbtree (some key) = .ok (answer t key) :=
        kvsRbtreeGet_holds inv.holds inv.sorted descent
      refine ⟨S.rbtree, A, t, ?_, inv, rfl, .refl A⟩
      exact (lift_bind_ok got).trans (lift_bind_ok (valueReply_holds noExistText answer_holds))
  | exist key =>
      have checked : kvsRbtreeExist fuel S.rbtree (some key) = _ :=
        kvsRbtreeExist_holds inv.holds inv.sorted descent
      simp only [← rbView_eq_none] at checked
      refine ⟨S.rbtree, A, t, ?_, inv, rfl, .refl A⟩
      rw [← existReply_code]
      exact lift_bind_ok checked
  | set key value =>
      by_cases absent : rbView t key = none
      · obtain ⟨T', B, ran, inv', later⟩ := kvsRbtreeSet_absent value inv granted
          (rbView_eq_none.mp absent) enough
        have called : kvsSet fuel S (some key) (some value) .rbtree A = _ := bind_ok ran
        refine ⟨T', B, _, Request.exec_set_new absent called, inv', ?_, later⟩
        rw [rbView_inserted inv.sorted (rbView_eq_none.mp absent), Request.update, if_pos absent]
      · obtain ⟨T', B, ran, inv', later⟩ := kvsRbtreeSet_present value inv granted
          (mt rbView_eq_none.mpr absent) descent
        have called : kvsSet fuel S (some key) (some value) .rbtree A = _ := bind_ok ran
        exact ⟨T', B, t, Request.exec_set_old absent called, inv', (if_neg absent).symm, later⟩
  | mod key value =>
      by_cases absent : rbView t key = none
      · have ran := kvsRbtreeMod_absent value inv (rbView_eq_none.mp absent) descent
        have called : kvsMod fuel S (some key) (some value) .rbtree A = _ := bind_ok ran
        exact ⟨S.rbtree, A, t, Request.exec_mod_absent absent Int.one_pos called, inv,
          (if_pos absent).symm, .refl A⟩
      · obtain ⟨T', B, t', ran, inv', view, later⟩ := kvsRbtreeMod_present value inv granted
          (mt rbView_eq_none.mpr absent) descent
        have called : kvsMod fuel S (some key) (some value) .rbtree A = _ := bind_ok ran
        refine ⟨T', B, t', Request.exec_mod_present absent called, inv', ?_, later⟩
        rw [view, Request.update, if_neg absent]
  | del key =>
      by_cases absent : rbView t key = none
      · have ran := kvsRbtreeDel_absent inv (rbView_eq_none.mp absent) descent
        have called : kvsDel fuel S (some key) .rbtree A = _ := bind_ok ran
        exact ⟨S.rbtree, A, t, Request.exec_del_absent absent called rfl, inv,
          (Request.update_del_absent absent).symm, .refl A⟩
      · obtain ⟨T', B, t', ran, inv', removed, later⟩ := kvsRbtreeDel_present inv
          (mt rbView_eq_none.mpr absent) (spares key rfl) repair
        have called : kvsDel fuel S (some key) .rbtree A = _ := bind_ok ran
        exact ⟨T', B, t', Request.exec_del_present absent called, inv', rbView_removed removed,
          later⟩

theorem rbtree_step (inv : RbInv S.rbtree A t) (granted : A.AllSucceed) (r : Request)
    (spares : r.SparesBlackLeaf t) :
    ∃ T' B t', Answers S A .rbtree r (r.answer noExistText (rbView t)) { S with rbtree := T' } B ∧
      RbInv T' B t' ∧ rbView t' = r.update (rbView t) ∧ A.Later B := by
  obtain ⟨T', B, t', ran, inv', view, later⟩ := rbtree_run inv granted r spares (Nat.le_refl _)
  exact ⟨T', B, t', .of_run _ ran, inv', view, later⟩

end Rbtree

section Hash

variable {S : Store} {A : Allocator} {chains : Chains} {s : Nat} {items : List HashItem}

theorem hash_step (inv : HashInv S.hash chains) (granted : A.AllSucceed) (r : Request)
    (slot : HashSlot r.key s) (chain : chains s = some items)
    (room : ∀ key value, r = .set key value → S.hash.count + 1 < 2 ^ 31) :
    ∃ h' B chains', Answers S A .hash r (r.answer errorText (hashView chains))
        { S with hash := h' } B ∧
      HashInv h' chains' ∧ hashView chains' = r.update (hashView chains) ∧ A.Later B ∧
      h'.count = r.count (hashView chains) S.hash.count ∧
      ∀ t, chains t ≠ none → chains' t ≠ none := by
  have kept : ∀ t, chains t ≠ none → chains t ≠ none := fun _ set => set
  have updated : ∀ items' t, chains t ≠ none →
      Function.update chains s (some items') t ≠ none := by
    intro items' t set
    rw [Function.update_apply]
    split
    · simp
    · exact set
  cases r with
  | get key =>
      have got := kvsHashGet_slot inv slot chain
      refine ⟨S.hash, A, chains, .of_run 0 ?_, inv, rfl, .refl A, rfl, kept⟩
      exact (lift_bind_ok got).trans (lift_bind_ok (valueReply_holds errorText hashAnswer_holds))
  | exist key =>
      have checked := kvsHashExist_slot inv slot chain
      simp only [← hashView_eq_none] at checked
      refine ⟨S.hash, A, chains, .of_run 0 ?_, inv, rfl, .refl A, rfl, kept⟩
      rw [← existReply_code]
      exact lift_bind_ok checked
  | set key value =>
      by_cases absent : hashView chains key = none
      · obtain ⟨h', B, x, ran, -, rfl, inv', later, more, lookups⟩ :=
          kvsHashSet_absent value inv granted slot chain (hashView_eq_none.mp absent)
            (room key value rfl)
        have called : kvsSet 0 S (some key) (some x.value) .hash A = _ := bind_ok ran
        refine ⟨h', B, _, .set_new absent called, inv', ?_, later,
          more.trans (if_pos absent).symm, updated _⟩
        rw [hashView_update lookups, Request.update, if_pos absent]
        rfl
      · have ran := kvsHashSet_present (A := A) value inv slot chain
          (mt hashView_eq_none.mpr absent)
        have called : kvsSet 0 S (some key) (some value) .hash A = _ := bind_ok ran
        exact ⟨S.hash, A, chains, .set_old absent called, inv, (if_neg absent).symm, .refl A,
          (if_neg absent).symm, kept⟩
  | mod key value =>
      by_cases absent : hashView chains key = none
      · have ran := kvsHashMod_absent (A := A) value inv slot chain (hashView_eq_none.mp absent)
        have called : kvsMod 0 S (some key) (some value) .hash A = _ := bind_ok ran
        exact ⟨S.hash, A, chains, .mod_absent absent Int.one_pos called, inv, (if_pos absent).symm,
          .refl A, rfl, kept⟩
      · obtain ⟨h', B, x, items', ran, -, rfl, inv', later, same, lookups⟩ :=
          kvsHashMod_present value inv granted slot chain (mt hashView_eq_none.mpr absent)
        have called : kvsMod 0 S (some key) (some x.value) .hash A = _ := bind_ok ran
        refine ⟨h', B, _, .mod_present absent called, inv', ?_, later, same, updated _⟩
        rw [hashView_update lookups, Request.update, if_neg absent]
        rfl
  | del key =>
      by_cases absent : hashView chains key = none
      · have ran := kvsHashDel_absent (A := A) inv slot chain (hashView_eq_none.mp absent)
        have called : kvsDel 0 S (some key) .hash A = _ := bind_ok ran
        exact ⟨S.hash, A, chains, .del_absent absent called rfl, inv,
          (Request.update_del_absent absent).symm, .refl A, (if_pos absent).symm, kept⟩
      · obtain ⟨h', B, items', ran, inv', later, fewer, lookups⟩ :=
          kvsHashDel_present (A := A) inv slot chain (mt hashView_eq_none.mpr absent)
        have called : kvsDel 0 S (some key) .hash A = _ := bind_ok ran
        exact ⟨h', B, _, .del_present absent called, inv', hashView_update lookups, later,
          fewer.trans (if_neg absent).symm, updated _⟩

end Hash

section Array

variable {S : Store} {A : Allocator} {slots : List Slot}

/-- What a scan of the array can find. -/
def scannedView (slots : List Slot) : View := fun key => slotsGet key (scanned slots)

/-- The array returns its index for an absent key, which is 0 if it is empty. -/
def arrayMissing (inst : KvsArray) : List UInt8 := if inst.total = 0 then okText else noExistText

/-- The slots after a request. -/
def slotsStep (slots : List Slot) : Request → List Slot
  | .set key value =>
      if scannedView slots key = none then slotsPlace (key, value) slots else slots
  | .get _ => slots
  | .del key =>
      match slotsIndex key (scanned slots) with
      | none => slots
      | some i => slots.set i none
  | .mod key value =>
      match slotsIndex key (scanned slots) with
      | none => slots
      | some i => slots.set i (some (key, value))
  | .exist _ => slots

/-- The delete scan meets no hole before the key. -/
def Request.ScanClear (slots : List Slot) (r : Request) : Prop :=
  ∀ key, r = .del key → NoHoleBefore key (scanned slots)

theorem scannedView_ne_none {key : CStr} {i : Nat}
    (index : slotsIndex key (scanned slots) = some i) : scannedView slots key ≠ none := by
  obtain ⟨old, -, found⟩ := slotsIndex_some index
  rw [scannedView, found]
  simp

theorem array_step (rep : Represents S.array slots) (granted : A.AllSucceed) (r : Request)
    (clear : r.ScanClear slots) (room : ∀ key value, r = .set key value →
      S.array.total ≠ kvsArraySize) :
    ∃ inst' B, Answers S A .array r (r.answer (arrayMissing S.array) (scannedView slots))
        { S with array := inst' } B ∧
      Represents inst' (slotsStep slots r) ∧ A.Later B := by
  cases r with
  | get key =>
      obtain ⟨p, got, held⟩ := kvsArrayGet_spec rep key
      refine ⟨S.array, A, .of_run 0 ?_, rep, .refl A⟩
      have answered := valueReply_holds (m := scannedView slots) (arrayMissing S.array) held
      exact (lift_bind_ok got).trans (lift_bind_ok answered)
  | exist key =>
      have checked := kvsArrayExist_spec rep key
      refine ⟨S.array, A, .of_run 0 ?_, rep, .refl A⟩
      rw [← existReply_code]
      exact lift_bind_ok checked
  | set key value =>
      by_cases absent : scannedView slots key = none
      · obtain ⟨inst', B, ran, rep', later⟩ := kvsArraySet_absent rep granted
          (room key value rfl) key value absent
        have called : kvsSet 0 S (some key) (some value) .array A = _ := bind_ok ran
        exact ⟨inst', B, .set_new absent called, by rwa [slotsStep, if_pos absent], later⟩
      · have ran := kvsArraySet_present (A := A) rep (room key value rfl) key value absent
        have called : kvsSet 0 S (some key) (some value) .array A = _ := bind_ok ran
        exact ⟨S.array, A, .set_old absent called, by rwa [slotsStep, if_neg absent], .refl A⟩
  | mod key value =>
      cases index : slotsIndex key (scanned slots) with
      | none =>
          have absent : scannedView slots key = none := slotsIndex_none index
          obtain ⟨code, positive, ran⟩ := kvsArrayMod_absent (A := A) rep key value absent
          have called : kvsMod 0 S (some key) (some value) .array A = _ := bind_ok ran
          exact ⟨S.array, A, .mod_absent absent positive called, by rwa [slotsStep, index], .refl A⟩
      | some i =>
          obtain ⟨inst', B, ran, rep', later⟩ := kvsArrayMod_present rep granted key value index
          have called : kvsMod 0 S (some key) (some value) .array A = _ := bind_ok ran
          exact ⟨inst', B, .mod_present (scannedView_ne_none index) called,
            by rwa [slotsStep, index], later⟩
  | del key =>
      cases index : slotsIndex key (scanned slots) with
      | none =>
          have absent : scannedView slots key = none := slotsIndex_none index
          have ran := kvsArrayDel_absent (A := A) rep key (clear key rfl) absent
          have called : kvsDel 0 S (some key) .array A = _ := bind_ok ran
          refine ⟨S.array, A, .del_absent absent called ?_, by rwa [slotsStep, index], .refl A⟩
          rw [codeReply, if_neg (by omega)]
          simp only [arrayMissing, Nat.cast_eq_zero]
      | some i =>
          obtain ⟨inst', B, ran, rep', later⟩ := kvsArrayDel_present (A := A) rep key
            (clear key rfl) index
          have called : kvsDel 0 S (some key) .array A = _ := bind_ok ran
          exact ⟨inst', B, .del_present (scannedView_ne_none index) called,
            by rwa [slotsStep, index], later⟩

/-- A full table refuses every `SET`. -/
theorem array_full (full : S.array.total = kvsArraySize) (key value : CStr) :
    Answers S A .array (.set key value) setErrorText S A := by
  refine .of_run 0 ?_
  have called : kvsSet 0 S (some key) (some value) .array A = _ :=
    bind_ok (kvsArraySet_full full key value)
  exact Request.exec_set called

end Array

end LinuxCpp.Kvstore
