import LinuxCpp.C.Returns
import LinuxCpp.Kvstore.Rbtree

set_option autoImplicit false

/- Where the nodes and values of the red-black engine come from. The balancing code
moves value pointers between nodes that exist and makes none up, in any heap
whatever. -/
namespace LinuxCpp.Kvstore

open C RedBlack

/-- Every value field of the heap satisfies `P`. -/
def Rbtree.ValuesIn (P : CPtr → Prop) (T : Rbtree) : Prop :=
  ∀ a n, T.heap a = some n → P n.value

/-- The sentinel and every node lie at addresses in `D`, and every value field
satisfies `P`. -/
def Rbtree.NodesIn (D : Nat → Prop) (P : CPtr → Prop) (T : Rbtree) : Prop :=
  D T.nil ∧ ∀ a n, T.heap a = some n → D a ∧ P n.value

theorem Rbtree.valuesIn_iff {P : CPtr → Prop} {T : Rbtree} :
    T.ValuesIn P ↔ T.NodesIn (fun _ => True) P := by
  simp only [Rbtree.ValuesIn, Rbtree.NodesIn, true_and]

section Primitives

variable {D : Nat → Prop} {P : CPtr → Prop} {T : Rbtree}

theorem Rbtree.NodesIn.store (values : T.NodesIn D P) {a : Nat} {n : RbNode}
    (holds : D a ∧ P n.value) : (T.store a n).NodesIn D P := by
  refine ⟨values.1, fun b m present => ?_⟩
  by_cases same : b = a
  · subst same
    simp only [Rbtree.store, Function.update_self, Option.some.injEq] at present
    exact present ▸ holds
  · simp only [Rbtree.store, Function.update_of_ne same] at present
    exact values.2 b m present

theorem Rbtree.NodesIn.drop (values : T.NodesIn D P) (a : Nat) : (T.drop a).NodesIn D P := by
  refine ⟨values.1, fun b m present => ?_⟩
  by_cases same : b = a
  · subst same
    simp [Rbtree.drop] at present
  · simp only [Rbtree.drop, Function.update_of_ne same] at present
    exact values.2 b m present

theorem load_nodes (values : T.NodesIn D P) (a : Nat) :
    Returns (T.load a) fun n => D a ∧ P n.value := by
  refine ⟨fun n loaded => ?_⟩
  unfold Rbtree.load at loaded
  split at loaded
  · cases loaded
    exact values.2 a n ‹_›
  · cases loaded

theorem value_nodes (values : T.NodesIn D P) (a : Nat) : Returns (T.value a) P :=
  (load_nodes values a).bind fun _ holds => .pure holds.2

theorem setColor_nodes (values : T.NodesIn D P) (a : Nat) (color : Color) :
    Returns (T.setColor a color) (Rbtree.NodesIn D P) :=
  (load_nodes values a).bind fun _ holds => .pure (values.store holds)

theorem setChild_nodes (values : T.NodesIn D P) (d : Dir) (a p : Nat) :
    Returns (T.setChild d a p) (Rbtree.NodesIn D P) :=
  (load_nodes values a).bind fun _ holds => .pure (values.store (by cases d <;> exact holds))

theorem setParent_nodes (values : T.NodesIn D P) (a p : Nat) :
    Returns (T.setParent a p) (Rbtree.NodesIn D P) :=
  (load_nodes values a).bind fun _ holds => .pure (values.store holds)

theorem setKey_nodes (values : T.NodesIn D P) (a : Nat) (key : CPtr) :
    Returns (T.setKey a key) (Rbtree.NodesIn D P) :=
  (load_nodes values a).bind fun _ holds => .pure (values.store holds)

theorem setValue_nodes (values : T.NodesIn D P) (a : Nat) {value : CPtr} (holds : P value) :
    Returns (T.setValue a value) (Rbtree.NodesIn D P) :=
  (load_nodes values a).bind fun _ loaded => .pure (values.store ⟨loaded.1, holds⟩)

end Primitives

section Balancing

variable {D : Nat → Prop} {P : CPtr → Prop} {T : Rbtree}

theorem relink_nodes (values : T.NodesIn D P) (d : Dir) (x y : Nat) :
    Returns (relink d T x y) (Rbtree.NodesIn D P) := by
  unfold relink
  refine .skip fun _ => .ite (.pure values) (.skip fun _ => .skip fun _ => .ite ?_ ?_)
  · exact .skip fun _ => setChild_nodes values ..
  · exact .skip fun _ => setChild_nodes values ..

theorem adopt_nodes (values : T.NodesIn D P) (b parent : Nat) :
    Returns (adopt T b parent) (Rbtree.NodesIn D P) :=
  .ite (setParent_nodes values ..) (.pure values)

theorem rotate_nodes (values : T.NodesIn D P) (d : Dir) (x : Nat) :
    Returns (rotate d T x) (Rbtree.NodesIn D P) := by
  unfold rotate
  refine .skip fun y => .skip fun _ => (setChild_nodes values ..).bind fun T values => ?_
  refine .skip fun _ => (adopt_nodes values ..).bind fun T values => ?_
  refine .skip fun _ => (setParent_nodes values ..).bind fun T values => ?_
  refine (relink_nodes values ..).bind fun T values => ?_
  exact (setChild_nodes values ..).bind fun T values => setParent_nodes values ..

theorem turnInner_nodes (values : T.NodesIn D P) (d : Dir) (z : Nat) :
    Returns (turnInner d T z) fun r => r.1.NodesIn D P := by
  unfold turnInner
  refine .skip fun _ => .skip fun _ => .ite (.skip fun z => ?_) (.pure values)
  exact (rotate_nodes values ..).bind fun T values => .pure values

theorem insertFixupRound_nodes (values : T.NodesIn D P) (d : Dir) (z : Nat) :
    Returns (insertFixupRound d T z) fun r => r.1.NodesIn D P := by
  unfold insertFixupRound
  refine .skip fun _ => .skip fun _ => .skip fun y => .skip fun _ => .ite ?_ ?_
  · refine .skip fun _ => (setColor_nodes values ..).bind fun T values => ?_
    refine (setColor_nodes values ..).bind fun T values => ?_
    refine .skip fun _ => .skip fun _ => (setColor_nodes values ..).bind fun T values => ?_
    exact .skip fun _ => .skip fun _ => .pure values
  · refine (turnInner_nodes values ..).bind fun (T, z) values => ?_
    refine .skip fun _ => (setColor_nodes values ..).bind fun T values => ?_
    refine .skip fun _ => .skip fun _ => (setColor_nodes values ..).bind fun T values => ?_
    refine .skip fun _ => .skip fun _ => (rotate_nodes values ..).bind fun T values => ?_
    exact .pure values

theorem rbtreeInsertFixup_nodes (fuel : Nat) (values : T.NodesIn D P) (z : Nat) :
    Returns (rbtreeInsertFixup fuel T z) (Rbtree.NodesIn D P) := by
  induction fuel generalizing T z with
  | zero => exact .error _
  | succ fuel ih =>
      refine .skip fun _ => .skip fun _ => .ite ?_ (setColor_nodes values ..)
      refine .skip fun _ => .skip fun _ => .skip fun side => .skip fun _ => ?_
      exact (insertFixupRound_nodes values ..).bind fun (T, z) values => ih values z

theorem attach_nodes (values : T.NodesIn D P) (z y : Nat) :
    Returns (attach T z y) (Rbtree.NodesIn D P) := by
  unfold attach
  refine .ite (.pure values) (.skip fun _ => .skip fun _ => ?_)
  refine .skip fun _ => .skip fun _ => .ite ?_ ?_
  · exact setChild_nodes values ..
  · exact setChild_nodes values ..

theorem rbtreeInsert_nodes (fuel : Nat) (values : T.NodesIn D P) (z : Nat) :
    Returns (rbtreeInsert fuel T z) (Rbtree.NodesIn D P) := by
  unfold rbtreeInsert
  refine .skip fun place => ?_
  cases place with
  | none => exact .pure values
  | some y =>
      refine (setParent_nodes values ..).bind fun T values => ?_
      refine (attach_nodes values ..).bind fun T values => ?_
      refine (setChild_nodes values ..).bind fun T values => ?_
      refine (setChild_nodes values ..).bind fun T values => ?_
      exact (setColor_nodes values ..).bind fun T values => rbtreeInsertFixup_nodes fuel values z

theorem liftRedSibling_nodes (values : T.NodesIn D P) (d : Dir) (x w : Nat) :
    Returns (liftRedSibling d T x w) fun r => r.1.NodesIn D P := by
  unfold liftRedSibling
  refine .skip fun _ => .ite ?_ (.pure values)
  refine (setColor_nodes values ..).bind fun T values => ?_
  refine .skip fun _ => (setColor_nodes values ..).bind fun T values => ?_
  refine .skip fun _ => (rotate_nodes values ..).bind fun T values => ?_
  exact .skip fun _ => .skip fun _ => .pure values

theorem turnSibling_nodes (values : T.NodesIn D P) (d : Dir) (x w : Nat) :
    Returns (turnSibling d T x w) fun r => r.1.NodesIn D P := by
  unfold turnSibling
  refine .skip fun _ => .skip fun _ => .ite ?_ (.pure values)
  refine .skip fun _ => (setColor_nodes values ..).bind fun T values => ?_
  refine (setColor_nodes values ..).bind fun T values => ?_
  refine (rotate_nodes values ..).bind fun T values => ?_
  exact .skip fun _ => .skip fun _ => .pure values

theorem deleteFixupRound_nodes (values : T.NodesIn D P) (d : Dir) (x : Nat) :
    Returns (deleteFixupRound d T x) fun r => r.1.NodesIn D P := by
  unfold deleteFixupRound
  refine .skip fun _ => .skip fun w => ?_
  refine (liftRedSibling_nodes values ..).bind fun (T, w) values => ?_
  refine .skip fun _ => .ite ?_ ?_
  · refine (setColor_nodes values ..).bind fun T values => ?_
    exact .skip fun _ => .pure values
  · refine (turnSibling_nodes values ..).bind fun (T, w) values => ?_
    refine .skip fun _ => .skip fun _ => (setColor_nodes values ..).bind fun T values => ?_
    refine .skip fun _ => (setColor_nodes values ..).bind fun T values => ?_
    refine .skip fun _ => (setColor_nodes values ..).bind fun T values => ?_
    refine .skip fun _ => (rotate_nodes values ..).bind fun T values => ?_
    exact .pure values

theorem rbtreeDeleteFixup_nodes (fuel : Nat) (values : T.NodesIn D P) (x : Nat) :
    Returns (rbtreeDeleteFixup fuel T x) (Rbtree.NodesIn D P) := by
  induction fuel generalizing T x with
  | zero => exact .error _
  | succ fuel ih =>
      refine .ite (setColor_nodes values ..) (.skip fun _ => .ite ?_ (setColor_nodes values ..))
      refine .skip fun _ => .skip fun side => ?_
      exact (deleteFixupRound_nodes values ..).bind fun (T, x) values => ih values x

/-- The exchange of payloads moves values between two nodes. -/
theorem swapPayload_nodes (values : T.NodesIn D P) (z y : Nat) :
    Returns (swapPayload T z y) (Rbtree.NodesIn D P) := by
  unfold swapPayload
  refine .ite (.pure values) (.skip fun _ => .skip fun _ => ?_)
  refine (setKey_nodes values ..).bind fun T values => ?_
  refine (setKey_nodes values ..).bind fun T values => ?_
  refine (value_nodes values z).bind fun old oldIn => ?_
  refine (value_nodes values y).bind fun new newIn => ?_
  exact (setValue_nodes values z newIn).bind fun T values => setValue_nodes values y oldIn

theorem onlyChild_nodes (values : T.NodesIn D P) (y : Nat) :
    Returns (onlyChild T y) fun _ => D y := by
  unfold onlyChild
  have first : Returns (T.child .left y) fun _ => D y :=
    (load_nodes values y).bind fun _ holds => .pure holds.1
  exact first.bind fun _ inside => ⟨fun _ _ => inside⟩

theorem rbtreeDelete_nodes (fuel : Nat) (values : T.NodesIn D P) (z : Nat) :
    Returns (rbtreeDelete fuel T z) fun r => r.1.NodesIn D P ∧ D r.2 := by
  unfold rbtreeDelete
  refine .skip fun y => (onlyChild_nodes values y).bind fun x inside => .skip fun _ => ?_
  refine (adopt_nodes values ..).bind fun T values => ?_
  refine (relink_nodes values ..).bind fun T values => ?_
  refine (swapPayload_nodes values ..).bind fun T values => ?_
  refine .skip fun _ => .ite ?_ (.pure ⟨values, inside⟩)
  exact (rbtreeDeleteFixup_nodes fuel values x).bind fun T values => .pure ⟨values, inside⟩

end Balancing

section Engine

variable {P : CPtr → Prop} {T : Rbtree}

/-- What the engines store besides copies of their arguments: words of fresh
memory, NULL among them, and pointers to freed blocks. -/
structure Admits (P : CPtr → Prop) : Prop where
  junk : ∀ word, P (.ofWord word)
  freed : ∀ block, P (.freed block)

theorem Admits.null (admits : Admits P) : P .null := admits.junk 0

theorem Admits.released (admits : Admits P) {p : CPtr} (holds : P p) : P p.released := by
  cases p with
  | live block str => exact admits.freed block
  | null => exact holds
  | freed block => exact holds
  | wild word => exact holds

/-- Copies of this argument may be stored. -/
def Admitted (P : CPtr → Prop) (value : Option CStr) : Prop :=
  ∀ v block, value = some v → P (.live block v)

theorem strdup_values (admits : Admits P) {v : CStr} (allowed : ∀ block, P (.live block v)) :
    ReturnsM (strdup v) P := by
  unfold strdup
  refine .skip fun block => ?_
  cases block with
  | none => exact .pure admits.null
  | some block => exact .pure (allowed block)

theorem mallocNode_values (admits : Admits P) (values : T.ValuesIn P) :
    ReturnsM (mallocNode T) fun r => r.1.ValuesIn P := by
  simp only [Rbtree.valuesIn_iff] at values ⊢
  unfold mallocNode
  refine .skip fun block => ?_
  cases block with
  | none => exact .pure values
  | some block => exact .skip fun words => .pure (values.store ⟨trivial, admits.junk _⟩)

theorem kvsRbtreeCreate_values (admits : Admits P) :
    ReturnsM kvsRbtreeCreate fun r => r.2.ValuesIn P := by
  unfold kvsRbtreeCreate
  refine (mallocNode_values admits (fun a n present => by cases present)).bind
    fun (T, nil) values => ?_
  simp only [Rbtree.valuesIn_iff] at values ⊢
  have named : Rbtree.NodesIn (fun _ => True) P { T with nil := nil } := ⟨trivial, values.2⟩
  refine .bind (.lift (setColor_nodes named ..)) fun T values => ?_
  exact .pure ⟨trivial, values.2⟩

theorem kvsRbtreeSet_values (admits : Admits P) (fuel : Nat) (values : T.ValuesIn P)
    (key : Option CStr) {value : Option CStr} (allowed : Admitted P value) :
    ReturnsM (kvsRbtreeSet fuel T key value) fun r => r.2.ValuesIn P := by
  unfold kvsRbtreeSet
  split
  · rename_i k v
    refine (mallocNode_values admits values).bind fun (T, node) values => ?_
    simp only [Rbtree.valuesIn_iff] at values ⊢
    refine .skip fun _ => .ite (.pure values) (.skip fun kcopy => ?_)
    refine .bind (.lift (setKey_nodes values ..)) fun T values => .ite (.pure values) ?_
    refine (strdup_values admits fun block => allowed v block rfl).bind fun kvalue holds => ?_
    refine .bind (.lift (setValue_nodes values node holds)) fun T values =>
      .ite (.pure values) ?_
    exact .bind (.lift (rbtreeInsert_nodes fuel values node)) fun T values => .pure values
  · exact .pure values

theorem kvsRbtreeGet_values (admits : Admits P) (fuel : Nat) (values : T.ValuesIn P)
    (key : Option CStr) : Returns (kvsRbtreeGet fuel T key) P := by
  unfold kvsRbtreeGet
  split
  · exact .pure admits.null
  · refine .skip fun node => .ite (.pure admits.null) ?_
    exact value_nodes (Rbtree.valuesIn_iff.mp values) node

theorem kvsRbtreeDel_values (fuel : Nat) (values : T.ValuesIn P) (key : Option CStr) :
    ReturnsM (kvsRbtreeDel fuel T key) fun r => r.2.ValuesIn P := by
  unfold kvsRbtreeDel
  split
  · exact .pure values
  · simp only [Rbtree.valuesIn_iff] at values ⊢
    refine .skip fun node => .ite (.pure values) ?_
    refine .bind (.lift (rbtreeDelete_nodes fuel values node)) fun (T, cur) values => ?_
    exact .skip fun _ => .pure (values.1.drop cur)

theorem kvsRbtreeMod_values (admits : Admits P) (fuel : Nat) (values : T.ValuesIn P)
    (key : Option CStr) {value : Option CStr} (allowed : Admitted P value) :
    ReturnsM (kvsRbtreeMod fuel T key value) fun r => r.2.ValuesIn P := by
  unfold kvsRbtreeMod
  split
  · rename_i k v
    simp only [Rbtree.valuesIn_iff] at values ⊢
    refine .skip fun node => .ite (.pure values) (.skip fun _ => .skip fun _ => ?_)
    refine (strdup_values admits fun block => allowed v block rfl).bind fun kvalue holds => ?_
    exact .bind (.lift (setValue_nodes values node holds)) fun T values =>
      .ite (.pure values) (.pure values)
  · exact .pure values

end Engine

end LinuxCpp.Kvstore
