import LinuxCpp.C.Refusal
import LinuxCpp.Kvstore.FreshMemory

set_option autoImplicit false

/- `set` and `mod` under an allocator that may refuse any of their calls. -/
namespace LinuxCpp.Kvstore

open C RedBlack RedBlack.ColorTree Rbtree

/-- If a call is refused, the operation reports it and no answer of `get`
changes. -/
def FailsAtomically {Engine : Type} (operation : CM (Int × Engine))
    (get : Engine → CStr → Except Fault CPtr) (engine : Engine) (A : Allocator) : Prop :=
  ¬ Unrefused operation A → ∃ code engine' B, operation A = .ok ((code, engine'), B) ∧ code < 0 ∧
    ∀ key, get engine' key = get engine key

section Rules

variable {Engine : Type} {operation : CM (Int × Engine)} {get : Engine → CStr → Except Fault CPtr}
  {engine : Engine} {A : Allocator}

theorem FailsAtomically.of_unrefused (unrefused : Unrefused operation A) :
    FailsAtomically operation get engine A :=
  fun refused => absurd unrefused refused

/-- A refused call went unreported, or an answer changed. -/
theorem not_failsAtomically (refused : ¬ Unrefused operation A)
    (broken : ∀ code engine' B, operation A = .ok ((code, engine'), B) →
      0 ≤ code ∨ ∃ key, get engine' key ≠ get engine key) :
    ¬ FailsAtomically operation get engine A := by
  intro atomic
  obtain ⟨code, engine', B, ran, negative, same⟩ := atomic refused
  rcases broken code engine' B ran with reported | ⟨key, changed⟩
  · omega
  · exact changed (same key)

/-- Another code than the one of the run with every call granted. -/
theorem refused_of_codes {code code' : Int} {engine' engine'' : Engine} {B B' : Allocator}
    (ran : operation A = .ok ((code, engine'), B))
    (granted : operation A.granting = .ok ((code', engine''), B')) (different : code ≠ code') :
    ¬ Unrefused operation A := by
  intro unrefused
  rw [Unrefused, ran, granted] at unrefused
  cases unrefused
  exact different rfl

end Rules

section Array

variable {inst : KvsArray} {slots : List Slot} {A : Allocator} (key value : CStr)

def arrayGet (inst : KvsArray) (key : CStr) : Except Fault CPtr := kvsArrayGet inst (some key)

theorem kvsArraySet_unrefused (first : A.grants A.calls = true)
    (second : A.grants (A.calls + 1) = true) :
    Unrefused (kvsArraySet inst (some key) (some value)) A := by
  simp only [kvsArraySet]
  refine .ite (fun _ => .pure _) fun room => .after _ fun p _ => .ite (fun _ => .pure _) fun _ => ?_
  refine (Unrefused.strdup key first).bind fun kcopy B copied => ?_
  rw [strdup_granted key first] at copied
  cases copied
  refine .ite (fun _ => .pure _) fun _ => ?_
  refine (Unrefused.strdup value second).bind fun kvalue B copied => ?_
  refine .ite (fun _ => .pure _) fun _ => .after _ fun hole _ => ?_
  cases hole with
  | some i => exact .after _ fun _ _ => .pure _
  | none => exact .ite (fun _ => .after _ fun _ _ => .pure _) fun _ => .pure _

theorem kvsArraySet_refused (rep : Represents inst slots) (room : inst.total ≠ kvsArraySize)
    (absent : slotsGet key (scanned slots) = none)
    (refused : ¬ (A.grants A.calls = true ∧ A.grants (A.calls + 1) = true)) :
    ∃ B, kvsArraySet inst (some key) (some value) A = .ok ((-2, inst), B) := by
  obtain ⟨p, got, held⟩ := kvsArrayGet_spec rep key
  rw [show p = .null from held.eq_null_iff.mpr absent] at got
  simp only [kvsArraySet, room, ↓reduceIte]
  rw [lift_bind_ok got]
  simp only [ne_eq, not_true_eq_false, if_false]
  cases first : A.grants A.calls with
  | false =>
      rw [bind_ok (strdup_refused key first), if_pos rfl]
      exact ⟨_, rfl⟩
  | true =>
      have second : A.next.grants A.next.calls = false := by
        simpa [first] using refused
      rw [bind_ok (strdup_granted key first), if_neg (by simp),
        bind_ok (strdup_refused value second), if_pos rfl]
      exact ⟨_, rfl⟩

theorem kvsArraySet_atomic (rep : Represents inst slots) :
    FailsAtomically (kvsArraySet inst (some key) (some value)) arrayGet inst A := by
  by_cases full : inst.total = kvsArraySize
  · refine .of_unrefused ?_
    rw [Unrefused, kvsArraySet_full full, kvsArraySet_full full]
    rfl
  by_cases absent : slotsGet key (scanned slots) = none
  · by_cases both : A.grants A.calls = true ∧ A.grants (A.calls + 1) = true
    · exact .of_unrefused (kvsArraySet_unrefused key value both.1 both.2)
    · intro _
      obtain ⟨B, ran⟩ := kvsArraySet_refused key value rep full absent both
      exact ⟨-2, inst, B, ran, by decide, fun _ => rfl⟩
  · refine .of_unrefused ?_
    rw [Unrefused, kvsArraySet_present rep full key value absent,
      kvsArraySet_present rep full key value absent]
    rfl

theorem kvsArrayMod_unrefused
    (granted : ∀ i, scanKey true inst key inst.total 0 = .ok (some i) → A.grants A.calls = true) :
    Unrefused (kvsArrayMod inst (some key) (some value)) A := by
  simp only [kvsArrayMod]
  refine .ite (fun _ => .pure _) fun _ => .after _ fun found scan => ?_
  cases found with
  | none => exact .pure _
  | some i =>
      have granted := granted i scan
      refine .after _ fun cell _ => (Unrefused.free _).bind fun _ B freed => ?_
      have same : B.grants B.calls = true := by
        cases pointer : cell.value <;> rw [pointer] at freed <;> cases freed <;> exact granted
      refine (Unrefused.strdup value same).bind fun copy C copied => ?_
      rw [strdup_granted value same] at copied
      cases copied
      exact .after _ fun _ _ => .pure _

/-- The scan looks at the keys only. -/
theorem scanKey_congr {inst inst' : KvsArray} (skipHoles : Bool)
    (keys : ∀ i, (inst'.item i).map KvsArrayItem.key = (inst.item i).map KvsArrayItem.key)
    (n i : Nat) : scanKey skipHoles inst' key n i = scanKey skipHoles inst key n i := by
  induction n generalizing i with
  | zero => rfl
  | succ n ih =>
      have atIndex := keys i
      simp only [scanKey, ih]
      cases cell : inst.item i with
      | error fault =>
          cases cell' : inst'.item i with
          | error fault' =>
              rw [cell, cell'] at atIndex
              cases atIndex
              rfl
          | ok _ => rw [cell, cell'] at atIndex; cases atIndex
      | ok _ =>
          cases cell' : inst'.item i with
          | error _ => rw [cell, cell'] at atIndex; cases atIndex
          | ok _ =>
              rw [cell, cell'] at atIndex
              simp only [Except.map, Except.ok.injEq] at atIndex
              simp only [ok_bind, atIndex]

/-- A refused `mod` leaves the cell with the value it has just freed. -/
theorem kvsArrayMod_refused (rep : Represents inst slots) {i : Nat}
    (found : slotsIndex key (scanned slots) = some i) (refused : A.grants A.calls = false) :
    ∃ inst' B block, kvsArrayMod inst (some key) (some value) A = .ok ((-2, inst'), B) ∧
      arrayGet inst' key = .ok (.freed block) := by
  have scan := rep.keyed.scan true key (Or.inl rfl)
  rw [found] at scan
  obtain ⟨old, atIndex, -⟩ := slotsIndex_some found
  have occupied := scanned_getElem? atIndex
  have inside := (List.getElem?_eq_some_iff.mp occupied).1
  have physical : i < kvsArraySize := Nat.lt_of_lt_of_le inside rep.bounded
  obtain ⟨table, present, cells⟩ := rep.cells
  obtain ⟨-, block, isLive⟩ := cells i _ occupied
  have loaded : inst.item i = .ok (table i) := by simp [KvsArray.item, present, physical]
  have nonempty := rep.total_ne_zero atIndex
  let cell : KvsArrayItem := { table i with value := .freed block }
  let inst' : KvsArray := { inst with table := some (Function.update table i cell) }
  have stored : inst.setItem i cell = .ok inst' := by
    simp [KvsArray.setItem, present, physical, inst']
  have keys : ∀ j, (inst'.item j).map KvsArrayItem.key = (inst.item j).map KvsArrayItem.key := by
    intro j
    simp only [KvsArray.item, present, inst']
    split
    · by_cases same : j = i
      · subst same
        simp [Except.map, cell]
      · simp [Function.update_of_ne same]
    · rfl
  refine ⟨inst', { A.next with freed := block :: A.freed }, block, ?_, ?_⟩
  · simp only [kvsArrayMod, nonempty, ↓reduceIte]
    rw [lift_bind_ok scan]
    simp only
    have isValue : (table i).value = .live block old := isLive
    rw [lift_bind_ok loaded, isValue, bind_ok (free_live A block old),
      bind_ok (strdup_refused value (by exact refused))]
    exact lift_bind_ok stored
  · have again : scanKey true inst' key inst'.total 0 = .ok (some i) := by
      rw [scanKey_congr key true keys]
      exact scan
    have reloaded : inst'.item i = .ok cell := by
      simp [KvsArray.item, inst', physical]
    simp only [arrayGet, kvsArrayGet, again, ok_bind, reloaded]
    rfl

theorem arrayGet_eq_null_iff (rep : Represents inst slots) :
    arrayGet inst key = .ok .null ↔ slotsGet key (scanned slots) = none := by
  obtain ⟨p, got, held⟩ := kvsArrayGet_spec rep key
  rw [arrayGet, got, Except.ok.injEq]
  exact held.eq_null_iff

theorem kvsArrayMod_atomic_iff (rep : Represents inst slots) :
    FailsAtomically (kvsArrayMod inst (some key) (some value)) arrayGet inst A ↔
      (arrayGet inst key ≠ .ok .null → A.grants A.calls = true) := by
  rw [ne_eq, arrayGet_eq_null_iff key rep]
  constructor
  · intro atomic present
    by_contra refused
    obtain ⟨i, found⟩ := Option.ne_none_iff_exists'.mp (mt slotsIndex_eq_none_iff.mp present)
    obtain ⟨inst', B, block, ran, got⟩ :=
      kvsArrayMod_refused key value rep found (by simpa using refused)
    obtain ⟨inst'', C, all, -⟩ :=
      kvsArrayMod_present rep A.granting_allSucceed key value found
    refine not_failsAtomically (refused_of_codes ran all (by decide)) ?_ atomic
    intro code engine' B' ran'
    rw [ran] at ran'
    cases ran'
    obtain ⟨p, old, held⟩ := kvsArrayGet_spec rep key
    refine .inr ⟨key, ?_⟩
    rw [got, arrayGet, old]
    intro same
    cases same
    cases content : slotsGet key (scanned slots) with
    | none => exact present content
    | some _ =>
        rw [content] at held
        obtain ⟨_, live⟩ := held
        cases live
  · intro granted
    refine .of_unrefused (kvsArrayMod_unrefused key value ?_)
    intro i scan
    apply granted
    rw [rep.keyed.scan true key (Or.inl rfl), Except.ok.injEq] at scan
    rw [← slotsIndex_eq_none_iff, scan]
    simp

end Array

section Rbtree

variable {T : Rbtree} {A : Allocator} {t : RbTree} {fuel : Nat} (key value : CStr)

def rbtreeGet (fuel : Nat) (T : Rbtree) (key : CStr) : Except Fault CPtr :=
  kvsRbtreeGet fuel T (some key)

theorem rbtreeGet_eq_null_iff (inv : RbInv T A t) (enough : t.size < fuel) :
    rbtreeGet fuel T key = .ok .null ↔ lookup RbItem.key key t = none := by
  rw [rbtreeGet, kvsRbtreeGet_holds inv.holds inv.sorted enough, Except.ok.injEq,
    answer_holds.eq_null_iff, rbView_eq_none]

theorem mallocNode_granted (granted : A.grants A.calls = true) : mallocNode T A =
    .ok ((T.store (A.calls + 1) (.ofWords (A.junk A.calls)), A.calls + 1), A.next) := by
  rw [mallocNode, bind_ok (malloc_granted granted)]
  rfl

theorem mallocNode_refused (refused : A.grants A.calls = false) :
    mallocNode T A = .ok ((T, 0), A.next) := by
  rw [mallocNode, bind_ok (malloc_refused refused)]
  rfl

theorem mallocNode_unrefused (granted : A.grants A.calls = true) :
    Unrefused (mallocNode T) A := by
  have granted' : A.granting.grants A.granting.calls = true := rfl
  rw [Unrefused, mallocNode_granted granted, mallocNode_granted granted']
  rfl

theorem kvsRbtreeSet_unrefused (first : A.grants A.calls = true)
    (strings : rbtreeSearch fuel (T.store (A.calls + 1) (.ofWords (A.junk A.calls))) key =
      .ok T.nil → A.grants (A.calls + 1) = true ∧ A.grants (A.calls + 2) = true) :
    Unrefused (kvsRbtreeSet fuel T (some key) (some value)) A := by
  simp only [kvsRbtreeSet]
  refine (mallocNode_unrefused first).bind fun made B ran => ?_
  rw [mallocNode_granted first] at ran
  cases ran
  refine .after _ fun found search => .ite (fun _ => .pure _) fun missing => ?_
  obtain ⟨second, third⟩ := strings (search.trans (congrArg Except.ok (not_not.mp missing)))
  refine (Unrefused.strdup key second).bind fun kcopy B copied => ?_
  rw [strdup_granted key (by exact second)] at copied
  cases copied
  refine .after _ fun T _ => .ite (fun _ => .pure _) fun _ => ?_
  refine (Unrefused.strdup value third).bind fun kvalue B copied => ?_
  exact .after _ fun T _ => .ite (fun _ => .pure _) fun _ => .after _ fun _ _ => .pure _

/-- A node without its strings is not yet in the tree. -/
theorem kvsRbtreeSet_refused (inv : RbInv T A t) (first : A.grants A.calls = true)
    (refused : ¬ (A.grants (A.calls + 1) = true ∧ A.grants (A.calls + 2) = true))
    (absent : lookup RbItem.key key t = none) (enough : t.size < fuel) :
    ∃ T' B, kvsRbtreeSet fuel T (some key) (some value) A = .ok ((-2, T'), B) ∧
      Holds T' t := by
  have notFound : ptr T.nil (seek RbItem.key key [] t).2 = T.nil := by
    rw [(lookup_eq_none_iff inv.sorted).mp absent]
    rfl
  simp only [kvsRbtreeSet]
  rw [bind_ok (mallocNode_granted first)]
  simp only
  rw [lift_bind_ok (rbtreeSearch_holds (inv.leak _).holds enough), store_nil,
    if_neg (not_not.mpr notFound)]
  cases second : A.grants (A.calls + 1) with
  | false =>
      rw [bind_ok (strdup_refused key (by exact second)),
        lift_bind_ok (setKey_of (store_same ..) _), store_store, if_pos rfl]
      exact ⟨_, _, rfl, (inv.leak _).holds⟩
  | true =>
      have third : A.next.next.grants A.next.next.calls = false := by
        simpa [second] using refused
      rw [bind_ok (strdup_granted key (by exact second)),
        lift_bind_ok (setKey_of (store_same ..) _), store_store, if_neg (by simp),
        bind_ok (strdup_refused value third), lift_bind_ok (setValue_of (store_same ..) _),
        store_store, if_pos rfl]
      exact ⟨_, _, rfl, (inv.leak _).holds⟩

/-- Without the node, `set` answers 1 for a present key and writes to NULL for an
absent one. -/
theorem kvsRbtreeSet_node_refused (inv : RbInv T A t) (refused : A.grants A.calls = false)
    (enough : t.size < fuel) :
    kvsRbtreeSet fuel T (some key) (some value) A =
      if lookup RbItem.key key t = none then .error .nullDeref else .ok ((1, T), A.next) := by
  have notFound := (lookup_eq_none_iff inv.sorted (k := key)).trans
    inv.holds.at_seek.ptr_eq_nil_iff.symm
  simp only [kvsRbtreeSet]
  rw [bind_ok (mallocNode_refused refused)]
  simp only
  rw [lift_bind_ok (rbtreeSearch_holds inv.holds enough)]
  by_cases absent : lookup RbItem.key key t = none
  · have noNode : ∀ p, T.setKey 0 p = .error .nullDeref := by
      intro p
      simp only [setKey, load, inv.holds.null]
      rfl
    rw [if_pos absent, if_neg (not_not.mpr (notFound.mp absent))]
    cases second : A.next.grants A.next.calls with
    | false =>
        rw [bind_ok (strdup_refused key second)]
        exact lift_bind_error (noNode _)
    | true =>
        rw [bind_ok (strdup_granted key second)]
        exact lift_bind_error (noNode _)
  · rw [if_neg absent, if_pos (mt notFound.mpr absent)]
    rfl

/-- The heap of the run with every call granted has one node more. -/
theorem kvsRbtreeSet_node_felt (inv : RbInv T A t) (refused : A.grants A.calls = false)
    (enough : t.size + 2 ≤ fuel) :
    ¬ Unrefused (kvsRbtreeSet fuel T (some key) (some value)) A := by
  have inv' : RbInv T A.granting t := ⟨inv.holds, inv.valid, inv.sorted, inv.fresh⟩
  have small : t.size < fuel := by omega
  rw [Unrefused, kvsRbtreeSet_node_refused key value inv refused small]
  by_cases absent : lookup RbItem.key key t = none
  · obtain ⟨T', B, ran, -⟩ :=
      kvsRbtreeSet_absent value inv' A.granting_allSucceed absent enough
    rw [ran, if_pos absent]
    intro same
    cases same
  · have found : ptr T.nil (seek RbItem.key key [] t).2 ≠ T.nil := fun same =>
      absent ((lookup_eq_none_iff inv.sorted).mpr (inv.holds.at_seek.ptr_eq_nil_iff.mp same))
    rw [if_neg absent]
    simp only [kvsRbtreeSet]
    rw [bind_ok (mallocNode_run A.granting_allSucceed)]
    simp only
    rw [lift_bind_ok (rbtreeSearch_holds (inv'.leak _).holds small), store_nil, if_pos found]
    intro same
    have trees := congrArg (fun d => d.1.2.heap (A.calls + 1)) (Except.ok.inj same)
    have unmapped : T.heap (A.calls + 1) = none := inv.fresh _ (Nat.lt_succ_self _)
    simp [unmapped, store, Allocator.granting] at trees

theorem kvsRbtreeSet_atomic_iff (inv : RbInv T A t) (enough : t.size + 2 ≤ fuel) :
    FailsAtomically (kvsRbtreeSet fuel T (some key) (some value)) (rbtreeGet fuel) T A ↔
      A.grants A.calls = true := by
  have small : t.size < fuel := by omega
  have gets : ∀ {T' : Rbtree}, Holds T' t → ∀ k, rbtreeGet fuel T' k = .ok (answer t k) :=
    fun holds k => kvsRbtreeGet_holds holds inv.sorted small
  constructor
  · intro atomic
    by_contra granted
    have refused : A.grants A.calls = false := by simpa using granted
    refine not_failsAtomically (kvsRbtreeSet_node_felt key value inv refused enough) ?_ atomic
    intro code T' B ran
    rw [kvsRbtreeSet_node_refused key value inv refused small] at ran
    split at ran
    · cases ran
    · cases ran
      exact .inl (by decide)
  · intro first
    by_cases both : A.grants (A.calls + 1) = true ∧ A.grants (A.calls + 2) = true
    · exact .of_unrefused (kvsRbtreeSet_unrefused key value first fun _ => both)
    by_cases absent : lookup RbItem.key key t = none
    · intro _
      obtain ⟨T', B, ran, holds⟩ := kvsRbtreeSet_refused key value inv first both absent small
      exact ⟨-2, T', B, ran, by decide, fun k => (gets holds k).trans (gets inv.holds k).symm⟩
    · refine .of_unrefused (kvsRbtreeSet_unrefused key value first fun search => ?_)
      rw [rbtreeSearch_holds (inv.leak _).holds small, store_nil, Except.ok.injEq,
        inv.holds.at_seek.ptr_eq_nil_iff] at search
      exact absurd ((lookup_eq_none_iff inv.sorted).mpr search) absent

theorem kvsRbtreeMod_unrefused
    (granted : ∀ node, rbtreeSearch fuel T key = .ok node → node ≠ T.nil →
      A.grants A.calls = true) :
    Unrefused (kvsRbtreeMod fuel T (some key) (some value)) A := by
  simp only [kvsRbtreeMod]
  refine .after _ fun node search => .ite (fun _ => .pure _) fun found => ?_
  have granted := granted node search found
  refine .after _ fun old _ => (Unrefused.free _).bind fun _ B freed => ?_
  have same : B.grants B.calls = true := by
    cases old <;> cases freed <;> exact granted
  refine (Unrefused.strdup value same).bind fun copy C copied => ?_
  exact .after _ fun _ _ => .ite (fun _ => .pure _) fun _ => .pure _

/-- The search does not look at values. -/
theorem searchFrom_store_value {a : Nat} {n : RbNode} (present : T.heap a = some n) (p : CPtr)
    (fuel x : Nat) :
    searchFrom (T.store a { n with value := p }) key fuel x = searchFrom T key fuel x := by
  have loads : ∀ y, ((T.store a { n with value := p }).load y = T.load y) ∨
      ∃ m, (T.store a { n with value := p }).load y = .ok { m with value := p } ∧
        T.load y = .ok m := by
    intro y
    by_cases same : y = a
    · subst same
      exact .inr ⟨n, load_of (store_same ..), load_of present⟩
    · refine .inl ?_
      simp only [load, store_ne _ _ same]
  induction fuel generalizing x with
  | zero => rfl
  | succ fuel ih =>
      simp only [searchFrom, ih, Rbtree.key, child, store_nil]
      rcases loads x with same | ⟨m, after, before⟩
      · rw [same]
      · rw [after, before]
        rfl

/-- A refused `mod` leaves the node without a value. -/
theorem kvsRbtreeMod_refused (inv : RbInv T A t) (refused : A.grants A.calls = false)
    (present : lookup RbItem.key key t ≠ none) (enough : t.size < fuel) :
    ∃ T' B, kvsRbtreeMod fuel T (some key) (some value) A = .ok ((-2, T'), B) ∧
      rbtreeGet fuel T' key = .ok .null := by
  obtain ⟨fs, color, l, z, r, rfl, found, rfl, notNil⟩ := split_of_present inv present
  have at_ : Holds T (plug fs (build .left color l z r)) := inv.holds
  have search : rbtreeSearch fuel T z.key = .ok z.addr := by
    rw [rbtreeSearch_holds inv.holds enough, found]
    rfl
  refine ⟨T.store z.addr { cellOf .left color (ptr T.nil l) (ptr T.nil r) (parentOf T.nil fs) z with
    value := .null }, { A.next with freed := z.valueBlock :: A.freed }, ?_, ?_⟩
  · simp only [kvsRbtreeMod]
    rw [lift_bind_ok search, if_neg notNil, lift_bind_ok (value_of at_.cell), cellOf_value,
      bind_ok (free_live ..), bind_ok (strdup_refused value (by exact refused)),
      lift_bind_ok (setValue_of at_.cell _)]
    rfl
  · have again : rbtreeSearch fuel (T.store z.addr { cellOf .left color (ptr T.nil l)
        (ptr T.nil r) (parentOf T.nil fs) z with value := .null }) z.key = .ok z.addr := by
      rw [rbtreeSearch, searchFrom_store_value z.key at_.cell]
      exact search
    simp only [rbtreeGet, kvsRbtreeGet, again, ok_bind, store_nil]
    exact (if_neg notNil).trans (value_of (store_same ..))

theorem kvsRbtreeMod_atomic_iff (inv : RbInv T A t) (enough : t.size < fuel) :
    FailsAtomically (kvsRbtreeMod fuel T (some key) (some value)) (rbtreeGet fuel) T A ↔
      (rbtreeGet fuel T key ≠ .ok .null → A.grants A.calls = true) := by
  constructor
  · intro atomic different
    have present := mt (rbtreeGet_eq_null_iff key inv enough).mpr different
    by_contra granted
    have inv' : RbInv T A.granting t := ⟨inv.holds, inv.valid, inv.sorted, inv.fresh⟩
    obtain ⟨T', B, ran, got⟩ :=
      kvsRbtreeMod_refused key value inv (by simpa using granted) present enough
    obtain ⟨T'', B', t', all, -⟩ :=
      kvsRbtreeMod_present value inv' A.granting_allSucceed present enough
    refine not_failsAtomically (refused_of_codes ran all (by decide)) ?_ atomic
    intro code T₁ B₁ ran₁
    rw [ran] at ran₁
    cases ran₁
    refine .inr ⟨key, ?_⟩
    rw [got]
    exact different.symm
  · intro granted
    refine .of_unrefused (kvsRbtreeMod_unrefused key value fun node search notNil => ?_)
    apply granted
    rw [ne_eq, rbtreeGet_eq_null_iff key inv enough]
    intro absent
    rw [rbtreeSearch_holds inv.holds enough, (lookup_eq_none_iff inv.sorted).mp absent] at search
    cases search
    exact notNil rfl

end Rbtree

section Hash

variable {h : HashTable} {A : Allocator} {chains : Chains} {s : Nat} {items : List HashItem}
  (key value : CStr)

def hashGet (h : HashTable) (key : CStr) : Except Fault CPtr := kvsHashGet h (some key)

theorem createNode_unrefused (first : A.grants A.calls = true)
    (second : A.grants (A.calls + 1) = true) (third : A.grants (A.calls + 2) = true) :
    Unrefused (createNode key value) A := by
  simp only [createNode]
  refine (Unrefused.malloc first).bind fun addr B ran => ?_
  rw [malloc_granted first] at ran
  cases ran
  refine (Unrefused.strdup key second).bind fun kcopy B copied => ?_
  rw [strdup_granted key (by exact second)] at copied
  cases copied
  refine .ite (fun _ => .pure _) fun _ => ?_
  refine (Unrefused.strdup value third).bind fun kvalue B _ => ?_
  exact .ite (fun _ => .pure _) fun _ => .pure _

theorem createNode_refused (refused : ¬ (A.grants A.calls = true ∧
    A.grants (A.calls + 1) = true ∧ A.grants (A.calls + 2) = true)) :
    ∃ B, createNode key value A = .ok (none, B) := by
  simp only [createNode]
  cases first : A.grants A.calls with
  | false =>
      rw [bind_ok (malloc_refused first)]
      exact ⟨_, rfl⟩
  | true =>
      rw [bind_ok (malloc_granted first)]
      cases second : A.grants (A.calls + 1) with
      | false =>
          simp only
          rw [bind_ok (strdup_refused key (by exact second)), if_pos rfl]
          exact ⟨_, rfl⟩
      | true =>
          have third : A.next.next.grants A.next.next.calls = false := by
            simpa [first, second] using refused
          simp only
          rw [bind_ok (strdup_granted key (by exact second)), if_neg (by simp),
            bind_ok (strdup_refused value third), if_pos rfl]
          exact ⟨_, rfl⟩

theorem kvsHashSet_unrefused (granted : hashGet h key = .ok .null → A.grants A.calls = true ∧
    A.grants (A.calls + 1) = true ∧ A.grants (A.calls + 2) = true) :
    Unrefused (kvsHashSet h (some key) (some value)) A := by
  simp only [kvsHashSet]
  refine .after _ fun idx isIdx => .after _ fun b loaded => .after _ fun nodes walked =>
    .after _ fun found search => .ite (fun _ => .pure _) fun missing => ?_
  have absent : hashGet h key = .ok .null := by
    rw [not_not.mp missing] at search
    simp only [hashGet, kvsHashGet, isIdx, ok_bind, loaded, walked, search]
    rfl
  obtain ⟨first, second, third⟩ := granted absent
  refine (createNode_unrefused key value first second third).bind fun node B _ => ?_
  cases node with
  | none => exact .throw _
  | some node => exact .after _ fun _ _ => .pure _

theorem kvsHashSet_refused (inv : HashInv h chains) (absent : hashGet h key = .ok .null)
    (refused : ¬ (A.grants A.calls = true ∧ A.grants (A.calls + 1) = true ∧
      A.grants (A.calls + 2) = true)) :
    kvsHashSet h (some key) (some value) A = .error .nullDeref := by
  obtain ⟨s, items, slot, chain, isNull⟩ := inv.get_ok absent
  have isSlot : hash (some key) maxTableSize = .ok (s : Int) := slot
  have missing : ∀ x ∈ items, x.key ≠ key := by
    have none := hashAnswer_holds.eq_null_iff.mp isNull.symm
    rw [hashView_eq_none, hashLookup_slot slot chain, List.find?_eq_none] at none
    simpa using none
  obtain ⟨B, failed⟩ := createNode_refused key value refused
  simp only [kvsHashSet]
  rw [lift_bind_ok isSlot, lift_bind_ok (inv.load slot chain), Bucket.walk, lift_bind_ok rfl,
    lift_bind_ok (findNode_absent missing), if_neg (by simp), bind_ok failed]
  rfl

theorem kvsHashSet_atomic_iff (inv : HashInv h chains) :
    FailsAtomically (kvsHashSet h (some key) (some value)) hashGet h A ↔
      (hashGet h key = .ok .null → A.grants A.calls = true ∧ A.grants (A.calls + 1) = true ∧
        A.grants (A.calls + 2) = true) := by
  constructor
  · intro atomic absent
    by_contra refused
    have ran := kvsHashSet_refused key value inv absent refused
    obtain ⟨s, items, slot, chain, isNull⟩ := inv.get_ok absent
    have missing := hashView_eq_none.mp (hashAnswer_holds.eq_null_iff.mp isNull.symm)
    refine not_failsAtomically ?_ ?_ atomic
    · rw [Unrefused, ran]
      by_cases room : h.count + 1 < 2 ^ 31
      · obtain ⟨h', B, x, all, -⟩ :=
          kvsHashSet_absent value inv A.granting_allSucceed slot chain missing room
        rw [all]
        intro same
        cases same
      · rw [kvsHashSet_overflow value inv A.granting_allSucceed slot chain missing room]
        intro same
        cases same
    · intro code h' B returned
      rw [ran] at returned
      cases returned
  · intro granted
    exact .of_unrefused (kvsHashSet_unrefused key value granted)

theorem kvsHashMod_unrefused (inv : HashInv h chains)
    (granted : ∀ p, hashGet h key = .ok p → p ≠ .null → A.grants A.calls = true) :
    Unrefused (kvsHashMod h (some key) (some value)) A := by
  simp only [kvsHashMod]
  refine .after _ fun idx isIdx => .after _ fun b loaded => .after _ fun nodes walked =>
    .after _ fun found search => ?_
  cases found with
  | none => exact .pure _
  | some i =>
      have got : hashGet h key = .ok ((nodes[i]?.map HashNode.value).getD .null) := by
        simp only [hashGet, kvsHashGet, isIdx, ok_bind, loaded, walked, search]
        rfl
      have granted : A.grants A.calls = true := by
        apply granted _ got
        intro isNull
        obtain ⟨s, items, slot, chain, same⟩ := inv.get_ok got
        have absent := hashAnswer_holds.eq_null_iff.mp (same.symm.trans isNull)
        rw [hashView_eq_none, hashLookup_slot slot chain, List.find?_eq_none] at absent
        have isSlot : hash (some key) maxTableSize = .ok (s : Int) := slot
        rw [isSlot] at isIdx
        cases isIdx
        rw [inv.load slot chain] at loaded
        cases loaded
        cases walked
        rw [findNode_absent (by simpa using absent)] at search
        cases search
      refine (Unrefused.free _).bind fun _ B freed => ?_
      have same : B.grants B.calls = true := by
        cases old : (nodes[i]?.map HashNode.value).getD .null <;> rw [old] at freed <;>
          cases freed <;> exact granted
      refine (Unrefused.strdup value same).bind fun copy C copied => ?_
      exact .ite (fun _ => .pure _) fun _ => .pure _

/-- The search looks at the keys only. -/
theorem findNode_congr {nodes nodes' : List HashNode}
    (keys : nodes'.map HashNode.key = nodes.map HashNode.key) :
    findNode key nodes' = findNode key nodes := by
  induction nodes generalizing nodes' with
  | nil =>
      cases nodes' with
      | nil => rfl
      | cons _ _ => cases keys
  | cons n nodes ih =>
      cases nodes' with
      | nil => cases keys
      | cons n' nodes' =>
          rw [List.map_cons, List.map_cons, List.cons.injEq] at keys
          simp only [findNode, keys.1, ih keys.2]

/-- A refused `mod` leaves the node with the value it has just freed. -/
theorem kvsHashMod_refused (inv : HashInv h chains) (slot : HashSlot key s)
    (chain : chains s = some items) (present : hashLookup chains key ≠ none)
    (refused : A.grants A.calls = false) :
    ∃ h' B block, kvsHashMod h (some key) (some value) A = .ok ((-2, h'), B) ∧
      hashGet h' key = .ok (.freed block) := by
  have isSlot : hash (some key) maxTableSize = .ok (s : Int) := slot
  rcases chain_cases key items with absent | ⟨pre, x, post, rfl, here, before⟩
  · exact absurd (hashLookup_absent slot chain absent) present
  have search : findNode key ((pre ++ x :: post).map HashItem.node) = .ok (some pre.length) :=
    findNode_present here before
  have nodes : (pre ++ x :: post).map HashItem.node =
      pre.map HashItem.node ++ x.node :: post.map HashItem.node := by simp
  have atNode : (pre.map HashItem.node ++ x.node :: post.map HashItem.node)[pre.length]? =
      some x.node := by simp
  let dangling : HashNode := { x.node with value := .freed x.valueBlock }
  have replaced := modify_middle (fun n : HashNode => { n with value := n.value.released })
    (pre.map HashItem.node) x.node (post.map HashItem.node)
  rw [List.length_map] at replaced
  rw [nodes] at search
  refine ⟨h.store s (pre.map HashItem.node ++ dangling :: post.map HashItem.node),
    { A.next with freed := x.valueBlock :: A.freed }, x.valueBlock, ?_, ?_⟩
  · simp only [kvsHashMod]
    rw [lift_bind_ok isSlot, lift_bind_ok (inv.load slot chain), Bucket.walk, lift_bind_ok rfl,
      nodes, lift_bind_ok search]
    simp only [atNode, Option.map_some, Option.getD_some]
    have freeRun : free x.node.value A = .ok ((), { A with freed := x.valueBlock :: A.freed }) :=
      rfl
    rw [bind_ok freeRun, bind_ok (strdup_refused value (by exact refused)), if_pos rfl, replaced]
    rfl
  · obtain ⟨table, isTable, -⟩ := inv.table
    have loaded : (h.store s (pre.map HashItem.node ++ dangling :: post.map HashItem.node)).load s =
        .ok (.chain (pre.map HashItem.node ++ dangling :: post.map HashItem.node)) := by
      simp only [HashTable.load, HashTable.store, isTable, Option.map_some, Int.toNat_natCast,
        Function.update_self]
      rw [if_pos ⟨by omega, by exact_mod_cast slot.lt⟩]
    have again : findNode key (pre.map HashItem.node ++ dangling :: post.map HashItem.node) =
        .ok (some pre.length) := by
      rw [← search]
      exact findNode_congr key (by simp [dangling])
    simp only [hashGet, kvsHashGet, isSlot, ok_bind, loaded, Bucket.walk, again]
    simp [dangling]
    rfl

theorem kvsHashMod_atomic_iff (inv : HashInv h chains) :
    FailsAtomically (kvsHashMod h (some key) (some value)) hashGet h A ↔
      (∀ p, hashGet h key = .ok p → p ≠ .null → A.grants A.calls = true) := by
  constructor
  · intro atomic p got different
    by_contra granted
    obtain ⟨s, items, slot, chain, rfl⟩ := inv.get_ok got
    have present : hashLookup chains key ≠ none := fun absent =>
      different (hashAnswer_holds.eq_null_iff.mpr (hashView_eq_none.mpr absent))
    obtain ⟨h', B, block, ran, dangling⟩ :=
      kvsHashMod_refused key value inv slot chain present (by simpa using granted)
    obtain ⟨h'', C, x, items', all, -⟩ :=
      kvsHashMod_present value inv A.granting_allSucceed slot chain present
    refine not_failsAtomically (refused_of_codes ran all (by decide)) ?_ atomic
    intro code h₁ B₁ ran₁
    rw [ran] at ran₁
    cases ran₁
    refine .inr ⟨key, ?_⟩
    rw [dangling, got]
    unfold hashAnswer
    cases hashLookup chains key <;> nofun
  · intro granted
    exact .of_unrefused (kvsHashMod_unrefused key value inv granted)

end Hash

/-- When `set` and `mod` of the three engines survive a refused call. -/
theorem alloc_failure_atomic_iff {inst : KvsArray} {slots : List Slot} {T : Rbtree} {t : RbTree}
    {h : HashTable} {chains : Chains} {A : Allocator} {fuel : Nat} (rep : Represents inst slots)
    (inv : RbInv T A t) (enough : t.size + 2 ≤ fuel) (table : HashInv h chains)
    (key value : CStr) :
    FailsAtomically (kvsArraySet inst (some key) (some value)) arrayGet inst A ∧
    (FailsAtomically (kvsArrayMod inst (some key) (some value)) arrayGet inst A ↔
      (arrayGet inst key ≠ .ok .null → A.grants A.calls = true)) ∧
    (FailsAtomically (kvsRbtreeSet fuel T (some key) (some value)) (rbtreeGet fuel) T A ↔
      A.grants A.calls = true) ∧
    (FailsAtomically (kvsRbtreeMod fuel T (some key) (some value)) (rbtreeGet fuel) T A ↔
      (rbtreeGet fuel T key ≠ .ok .null → A.grants A.calls = true)) ∧
    (FailsAtomically (kvsHashSet h (some key) (some value)) hashGet h A ↔
      (hashGet h key = .ok .null → A.grants A.calls = true ∧ A.grants (A.calls + 1) = true ∧
        A.grants (A.calls + 2) = true)) ∧
    (FailsAtomically (kvsHashMod h (some key) (some value)) hashGet h A ↔
      (∀ p, hashGet h key = .ok p → p ≠ .null → A.grants A.calls = true)) :=
  ⟨kvsArraySet_atomic key value rep, kvsArrayMod_atomic_iff key value rep,
    kvsRbtreeSet_atomic_iff key value inv enough,
    kvsRbtreeMod_atomic_iff key value inv (by omega), kvsHashSet_atomic_iff key value table,
    kvsHashMod_atomic_iff key value table⟩

section Refusing

/-- Three new engines over cleared memory, and then no call is granted any more. -/
theorem refusing_engines : ∃ (S : Store) (A : Allocator) (chains : Chains),
    (∀ call, A.grants call = false) ∧ Represents S.array [] ∧ RbInv S.rbtree A .leaf ∧
      HashInv S.hash chains := by
  obtain ⟨S, B, chains, -, -, rep, tree, table, -⟩ := initKvengine_run Allocator.cleared_allSucceed
  exact ⟨S, { B with grants := fun _ => false }, chains, fun _ => rfl, rep,
    ⟨tree.holds, tree.valid, tree.sorted, tree.fresh⟩, table⟩

/-- Three engines that hold the key `a`, and then no call is granted any more. -/
theorem refusing_engines_holding : ∃ (inst : KvsArray) (slots : List Slot) (T : Rbtree)
    (t : RbTree) (h : HashTable) (chains : Chains) (A : Allocator),
    (∀ call, A.grants call = false) ∧
    (Represents inst slots ∧ arrayGet inst ⟨[97], by decide⟩ ≠ .ok .null) ∧
    (RbInv T A t ∧ t.size + 2 ≤ 3 ∧ rbtreeGet 3 T ⟨[97], by decide⟩ ≠ .ok .null) ∧
    HashInv h chains ∧ ∃ p, hashGet h ⟨[97], by decide⟩ = .ok p ∧ p ≠ .null := by
  obtain ⟨S, A, chains, created, granted, rep, tree, table, empty⟩ :=
    initKvengine_run Allocator.cleared_allSucceed
  have bucket : HasBucket S.hash ⟨[97], by decide⟩ := by
    have run : initKvengine .cleared = .ok (_, _) := rfl
    rw [run] at created
    cases created
    exact ⟨97, _, [], rfl, rfl, rfl⟩
  obtain ⟨s, items, slot, chain⟩ := bucket.chain table
  obtain rfl := empty s items chain
  obtain ⟨inst, -, -, rep, -⟩ := kvsArraySet_absent rep granted (by rw [rep.total]; decide)
    ⟨[97], by decide⟩ ⟨[49], by decide⟩ rfl
  have absent : lookup RbItem.key ⟨[97], by decide⟩ (.leaf : RbTree) = none := rfl
  obtain ⟨T, B, -, tree, -⟩ := kvsRbtreeSet_absent ⟨[49], by decide⟩ tree granted absent
    (Nat.le_refl 2)
  obtain ⟨h, -, x, -, -, -, table, -, -, found⟩ := kvsHashSet_absent ⟨[49], by decide⟩ table
    granted slot chain (by rw [hashLookup_slot slot chain]; rfl) (by
      rw [table.count, total_empty empty]
      decide)
  refine ⟨inst, _, T, _, h, _, { B with grants := fun _ => false }, fun _ => rfl, ⟨rep, ?_⟩,
    ⟨⟨tree.holds, tree.valid, tree.sorted, tree.fresh⟩, Nat.le_refl 3, ?_⟩, table,
    _, kvsHashGet_slot table slot (Function.update_self ..), ?_⟩
  · rw [ne_eq, arrayGet_eq_null_iff _ rep]
    decide
  · rw [ne_eq, rbtreeGet_eq_null_iff _ tree (show 1 < 3 by decide)]
    exact Option.some_ne_none _
  · rw [ne_eq, hashAnswer_holds.eq_null_iff, hashView_eq_none, found, if_pos rfl]
    exact Option.some_ne_none x

/-- On engines that hold the key and get no memory, `set` of the array and of the hash table
survive; `set` of the tree does not, nor does any `mod`. -/
theorem alloc_failure_atomic_iff_refusing : ∃ (inst : KvsArray) (T : Rbtree) (h : HashTable)
    (A : Allocator),
    FailsAtomically (kvsArraySet inst (some ⟨[97], by decide⟩) (some ⟨[50], by decide⟩))
      arrayGet inst A ∧
    ¬ FailsAtomically (kvsArrayMod inst (some ⟨[97], by decide⟩) (some ⟨[50], by decide⟩))
      arrayGet inst A ∧
    ¬ FailsAtomically (kvsRbtreeSet 3 T (some ⟨[97], by decide⟩) (some ⟨[50], by decide⟩))
      (rbtreeGet 3) T A ∧
    ¬ FailsAtomically (kvsRbtreeMod 3 T (some ⟨[97], by decide⟩) (some ⟨[50], by decide⟩))
      (rbtreeGet 3) T A ∧
    FailsAtomically (kvsHashSet h (some ⟨[97], by decide⟩) (some ⟨[50], by decide⟩)) hashGet h A ∧
    ¬ FailsAtomically (kvsHashMod h (some ⟨[97], by decide⟩) (some ⟨[50], by decide⟩)) hashGet h A
      := by
  obtain ⟨inst, slots, T, t, h, chains, A, refuses, ⟨rep, inArray⟩, ⟨tree, enough, inTree⟩, table,
    p, inHash, some_⟩ := refusing_engines_holding
  obtain ⟨arraySet, arrayMod, rbtreeSet, rbtreeMod, hashSet, hashMod⟩ :=
    alloc_failure_atomic_iff rep tree enough table ⟨[97], by decide⟩ ⟨[50], by decide⟩
  have refused : ¬ A.grants A.calls = true := by
    rw [refuses]
    exact Bool.false_ne_true
  refine ⟨inst, T, h, A, arraySet, ?_, mt rbtreeSet.mp refused, ?_, ?_, ?_⟩
  · exact fun atomic => refused (arrayMod.mp atomic inArray)
  · exact fun atomic => refused (rbtreeMod.mp atomic inTree)
  · refine hashSet.mpr fun absent => absurd (Except.ok.inj (inHash.symm.trans absent)) some_
  · exact fun atomic => refused (hashMod.mp atomic p inHash some_)

/-- `kvs_rbtree_set` of a new key writes through the NULL that `kvs_malloc`
returned for its node. -/
theorem kvsRbtreeSet_writes_null : ∃ (T : Rbtree) (A : Allocator), RbInv T A .leaf ∧
    A.grants A.calls = false ∧ ∀ fuel, 0 < fuel →
      kvsRbtreeSet fuel T (some ⟨[97], by decide⟩) (some ⟨[49], by decide⟩) A =
        .error .nullDeref := by
  obtain ⟨S, A, chains, refuses, -, tree, -⟩ := refusing_engines
  refine ⟨S.rbtree, A, tree, refuses _, ?_⟩
  intro fuel positive
  exact kvsRbtreeSet_node_refused _ _ tree (refuses _) positive

end Refusing

end LinuxCpp.Kvstore
