import LinuxCpp.Kvstore.RbtreeValues
import LinuxCpp.Kvstore.FreshMemory

set_option autoImplicit false

/- The blocks of the tree and the hash engine: what `set`, `mod` and `del` obtain,
what they free, and what `destory` leaves behind. -/
namespace LinuxCpp.Kvstore

open C RedBlack RedBlack.ColorTree Rbtree

inductive Update where
  | set (key value : CStr)
  | mod (key value : CStr)
  | del (key : CStr)
deriving DecidableEq, Repr

namespace Update

def key : Update → CStr
  | set key _ => key
  | mod key _ => key
  | del key => key

def isSet : Update → Bool
  | set _ _ => true
  | _ => false

def rbtree (fuel : Nat) (T : Rbtree) : Update → CM (Int × Rbtree)
  | set key value => kvsRbtreeSet fuel T (some key) (some value)
  | mod key value => kvsRbtreeMod fuel T (some key) (some value)
  | del key => kvsRbtreeDel fuel T (some key)

def hash (h : HashTable) : Update → CM (Int × HashTable)
  | set key value => kvsHashSet h (some key) (some value)
  | mod key value => kvsHashMod h (some key) (some value)
  | del key => kvsHashDel h (some key)

end Update

section Runs

variable {Engine : Type} (call : Engine → Update → CM (Int × Engine))

def runUpdates : Engine → List Update → CM Engine
  | engine, [] => return engine
  | engine, update :: rest => do
      let (_, engine) ← call engine update
      runUpdates engine rest

/-- The blocks handed out since `A` and not freed are the blocks of the engine
after every call; after `destory` each of them was freed exactly once. -/
structure Ledger (destory : Engine → CM Unit) (Owns : Engine → Nat → Prop) (engine : Engine)
    (A : Allocator) (updates : List Update) : Prop where
  held : ∀ done, done <+: updates → ∃ engine' B, runUpdates call engine done A = .ok (engine', B) ∧
    ∀ block, (A.calls < block ∧ block ≤ B.calls ∧ block ∉ B.freed) ↔ Owns engine' block
  returned : ∃ engine' B C, runUpdates call engine updates A = .ok (engine', B) ∧
    destory engine' B = .ok ((), C) ∧
    ∀ block, A.calls < block → block ≤ B.calls → C.freed.count block = 1

end Runs

/-- The nodes reached from the root. -/
inductive Rbtree.Reaches (T : Rbtree) : Nat → Prop
  | root : T.root ≠ T.nil → Reaches T T.root
  | child {a : Nat} {n : RbNode} (d : Dir) : Reaches T a → T.heap a = some n →
      n.child d ≠ T.nil → Reaches T (n.child d)

/-- A node of the tree, or a key or value of one. -/
def Rbtree.Owns (T : Rbtree) (block : Nat) : Prop :=
  ∃ a, T.Reaches a ∧ (block = a ∨ ∃ n, T.heap a = some n ∧
    (n.key.block? = some block ∨ n.value.block? = some block))

/-- A node of some chain, or a key or value of one. -/
def HashTable.Owns (h : HashTable) (block : Nat) : Prop :=
  ∃ table s nodes, h.nodes = some table ∧ s < maxTableSize ∧ table s = .chain nodes ∧
    ∃ n ∈ nodes, block = n.addr ∨ n.key.block? = some block ∨
      n.value.block? = some block

section Tree

variable {k fuel : Nat} {T : Rbtree} {A : Allocator}

/-- A block that no node or value of the tree refers to: nobody can free it. -/
structure Lost (k : Nat) (T : Rbtree) (A : Allocator) : Prop where
  granted : A.AllSucceed
  handed : k ≤ A.calls
  kept : k ∉ A.freed
  nodes : T.NodesIn (· ≠ k) (·.block? ≠ some k)

/-- The key copy of a new node is the second block of `set`; it is only ever
stored in a key field. -/
theorem kvsRbtreeSet_lost (granted : A.AllSucceed) (kept : k ∉ A.freed)
    (nodes : T.NodesIn (· ≠ k) (·.block? ≠ some k)) (key value : CStr)
    (known : k ≤ A.calls ∨ k = A.calls + 2 ∧ rbtreeSearch fuel
      (T.store (A.calls + 1) (.ofWords (A.junk A.calls))) key = .ok T.nil) :
    Leaves (kvsRbtreeSet fuel T (some key) (some value)) A fun r B => Lost k r.2 B := by
  have granted₁ := (Allocator.Later.next A).allSucceed granted
  have granted₂ := (Allocator.Later.next A.next).allSucceed granted₁
  have granted₃ := (Allocator.Later.next A.next.next).allSucceed granted₂
  have nodes : (T.store (A.calls + 1) (.ofWords (A.junk A.calls))).NodesIn (· ≠ k)
      (·.block? ≠ some k) := by
    refine nodes.store ⟨?_, ?_⟩
    · omega
    · simp [RbNode.ofWords]
  simp only [kvsRbtreeSet]
  refine .step (mallocNode_run granted) (.skip fun found search => ?_)
  refine .ite (fun isFound => ?_) fun _ => ?_
  · refine .pure ⟨granted₁, ?_, kept, nodes⟩
    rcases known with old | ⟨-, absent⟩
    · exact Nat.le_succ_of_le old
    · rw [absent] at search
      cases search
      exact absurd rfl isFound
  · refine .step (strdup_run granted₁ key) (.after (setKey_nodes nodes ..) fun T nodes => ?_)
    refine .ite (fun isNull => by cases isNull) fun _ => .step (strdup_run granted₂ value) ?_
    have fresh : (CPtr.live (A.next.next.calls + 1) value).block? ≠ some k := by
      simp only [CPtr.block?_live, Allocator.next_calls, ne_eq, Option.some.injEq]
      omega
    refine .after (setValue_nodes nodes _ fresh) fun T nodes => ?_
    refine .ite (fun isNull => by cases isNull) fun _ => ?_
    refine .after (rbtreeInsert_nodes fuel nodes _) fun T nodes => .pure ⟨granted₃, ?_, kept, nodes⟩
    simp only [Allocator.next_calls]
    omega

theorem Lost.mod (lost : Lost k T A) (key value : CStr) :
    Leaves (kvsRbtreeMod fuel T (some key) (some value)) A fun r B => Lost k r.2 B := by
  simp only [kvsRbtreeMod]
  refine .skip fun node _ => .ite (fun _ => .pure lost) fun _ => ?_
  refine .after (value_nodes lost.nodes node) fun p safe => ?_
  have freed : Leaves (free p) A fun _ B => Lost k T B := by
    cases p with
    | null => exact .pure lost
    | freed _ => exact .throw _
    | wild _ => exact .throw _
    | live block str =>
        refine ⟨fun _ B ran => ?_⟩
        cases ran
        refine ⟨lost.granted, lost.handed, ?_, lost.nodes⟩
        intro member
        rcases List.mem_cons.mp member with rfl | before
        · exact safe rfl
        · exact lost.kept before
  refine freed.bind fun _ B lost => .step (strdup_run lost.granted value) ?_
  have fresh : (CPtr.live (B.calls + 1) value).block? ≠ some k := by
    have := lost.handed
    simp only [CPtr.block?_live, ne_eq, Option.some.injEq]
    omega
  have after := (Allocator.Later.next B).allSucceed lost.granted
  refine .after (setValue_nodes lost.nodes _ fresh) fun T nodes => ?_
  exact .ite (fun isNull => by cases isNull) fun _ =>
    .pure ⟨after, Nat.le_succ_of_le lost.handed, lost.kept, nodes⟩

theorem Lost.del (lost : Lost k T A) (key : CStr) :
    Leaves (kvsRbtreeDel fuel T (some key)) A fun r B => Lost k r.2 B := by
  simp only [kvsRbtreeDel]
  refine .skip fun node _ => .ite (fun _ => .pure lost) fun _ => ?_
  refine .after (rbtreeDelete_nodes fuel lost.nodes node) fun deleted nodes => ?_
  obtain ⟨T, cur⟩ := deleted
  refine .step (freeBlock_run A cur) (.pure ⟨lost.granted, lost.handed, ?_, nodes.1.drop cur⟩)
  intro member
  rcases List.mem_cons.mp member with rfl | before
  · exact nodes.2 rfl
  · exact lost.kept before

theorem Lost.call (lost : Lost k T A) (update : Update) :
    Leaves (update.rbtree fuel T) A fun r B => Lost k r.2 B := by
  cases update with
  | set key value =>
      exact kvsRbtreeSet_lost lost.granted lost.kept lost.nodes key value (.inl lost.handed)
  | mod key value => exact lost.mod key value
  | del key => exact lost.del key

theorem Lost.run (lost : Lost k T A) (updates : List Update) :
    Leaves (runUpdates (Update.rbtree fuel) T updates) A fun T B => Lost k T B := by
  induction updates generalizing T A with
  | nil => exact .pure lost
  | cons update rest ih => exact (lost.call update).bind fun r B lost => ih lost

theorem Lost.destoryNodes (lost : Lost k T A) (fuel : Nat) :
    Leaves (destoryNodes fuel T) A fun T B => Lost k T B := by
  induction fuel generalizing T A with
  | zero => exact .throw _
  | succ fuel ih =>
      refine .ite (fun _ => .pure lost) fun _ => .skip fun mini _ => ?_
      refine .after (rbtreeDelete_nodes fuel lost.nodes mini) fun (T, cur) nodes => ?_
      refine .step (freeBlock_run A cur) (ih ⟨lost.granted, lost.handed, ?_, nodes.1.drop cur⟩)
      intro member
      rcases List.mem_cons.mp member with rfl | before
      · exact nodes.2 rfl
      · exact lost.kept before

theorem Lost.destory (lost : Lost k T A) (fuel : Nat) :
    Leaves (kvsRbtreeDestory fuel T) A fun _ B => k ∉ B.freed := by
  refine (lost.destoryNodes fuel).bind fun T B lost => .ite (fun _ => ?_) fun _ => .pure lost.kept
  refine ⟨fun _ C ran => ?_⟩
  cases ran
  intro member
  rcases List.mem_cons.mp member with rfl | before
  · exact lost.nodes.1 rfl
  · exact lost.kept before

/-- A tree without nodes, as `create` leaves it. -/
structure Bare (T : Rbtree) (A : Allocator) : Prop where
  granted : A.AllSucceed
  tree : RbInv T A leaf
  fresh : ∀ block ∈ A.freed, block ≤ A.calls
  nodes : T.NodesIn (· ≤ A.calls) (·.block? = none)

theorem kvsRbtreeCreate_bare (granted : A.AllSucceed) (fresh : ∀ block ∈ A.freed, block ≤ A.calls) :
    ∃ T B, kvsRbtreeCreate A = .ok ((0, T), B) ∧ Bare T B := by
  obtain ⟨T, B, ran, tree, later⟩ := kvsRbtreeCreate_inv granted
  refine ⟨T, B, ran, later.allSucceed granted, tree, ?_, ?_⟩
  all_goals
    rw [kvsRbtreeCreate_run granted] at ran
    cases ran
  · intro block member
    exact Nat.le_succ_of_le (fresh block member)
  · refine ⟨Nat.le_refl _, fun a n present => ?_⟩
    by_cases atNil : a = A.calls + 1
    · subst atNil
      simp only [Function.update_self, Option.some.injEq] at present
      subst present
      exact ⟨Nat.le_refl _, CPtr.block?_ofWord _⟩
    · simp only [Function.update_of_ne atNil] at present
      cases present

theorem Bare.call (bare : Bare T A) (positive : 0 < fuel) {update : Update}
    (other : update.isSet = false) : update.rbtree fuel T A = .ok ((1, T), A) := by
  cases update with
  | set key value => cases other
  | mod key value => exact kvsRbtreeMod_absent value bare.tree rfl positive
  | del key => exact kvsRbtreeDel_absent bare.tree rfl positive

theorem Bare.run (bare : Bare T A) (positive : 0 < fuel) (updates : List Update)
    (others : ∀ update ∈ updates, update.isSet = false) :
    runUpdates (Update.rbtree fuel) T updates A = .ok (T, A) := by
  induction updates with
  | nil => rfl
  | cons update rest ih =>
      apply (bind_ok (bare.call positive (others update (by simp)))).trans
      exact ih fun update member => others update (List.mem_cons_of_mem _ member)

/-- After the first `set` its key copy can no longer be freed. -/
theorem Bare.run_set (bare : Bare T A) (positive : 0 < fuel) (updates : List Update)
    (stored : ∃ update ∈ updates, update.isSet = true) :
    Leaves (runUpdates (Update.rbtree fuel) T updates) A fun T B => Lost (A.calls + 2) T B := by
  induction updates with
  | nil =>
      obtain ⟨_, member, -⟩ := stored
      cases member
  | cons update rest ih =>
      cases isSet : update.isSet with
      | false =>
          refine .step (bare.call positive isSet) (ih ?_)
          obtain ⟨other, member, set⟩ := stored
          rcases List.mem_cons.mp member with rfl | later
          · rw [isSet] at set
            cases set
          · exact ⟨other, later, set⟩
      | true =>
          obtain ⟨key, value, rfl⟩ : ∃ key value, update = .set key value := by
            cases update with
            | set key value => exact ⟨key, value, rfl⟩
            | mod _ _ => cases isSet
            | del _ => cases isSet
          refine Leaves.bind (kvsRbtreeSet_lost bare.granted ?_ ?_ key value (.inr ⟨rfl, ?_⟩))
            fun r B lost => lost.run rest
          · intro member
            have := bare.fresh _ member
            omega
          · refine ⟨by have := bare.nodes.1; omega, fun a n present => ?_⟩
            obtain ⟨below, noBlock⟩ := bare.nodes.2 a n present
            exact ⟨by omega, by simp [noBlock]⟩
          · exact rbtreeSearch_holds (bare.tree.leak _).holds positive

theorem Bare.owns_nothing (bare : Bare T A) (block : Nat) : ¬ T.Owns block := by
  have unreached : ∀ a, ¬ T.Reaches a := by
    intro a reached
    induction reached with
    | root notNil => exact notNil bare.tree.holds.root
    | child _ _ _ _ ih => exact ih
  rintro ⟨a, reached, -⟩
  exact unreached a reached

theorem Bare.ledger_iff (bare : Bare T A) (positive : 0 < fuel) (updates : List Update) :
    Ledger (Update.rbtree fuel) (kvsRbtreeDestory fuel) Rbtree.Owns T A updates ↔
      ∀ update ∈ updates, update.isSet = false := by
  constructor
  · intro ledger
    by_contra stored
    obtain ⟨T', B, C, ran, gone, once⟩ := ledger.returned
    have lost := (bare.run_set positive updates (by simpa using stored)).of_ok _ _ ran
    have missing := (lost.destory fuel).of_ok _ _ gone
    have counted := once (A.calls + 2) (by omega) lost.handed
    rw [List.count_eq_zero_of_not_mem missing] at counted
    cases counted
  · intro others
    have runs : ∀ done, done <+: updates → runUpdates (Update.rbtree fuel) T done A = .ok (T, A) :=
      fun done isPrefix => bare.run positive done fun update member =>
        others update (isPrefix.subset member)
    refine ⟨fun done isPrefix => ⟨T, A, runs done isPrefix, fun block => ?_⟩, ?_⟩
    · constructor
      · rintro ⟨above, below, -⟩
        omega
      · intro owned
        exact absurd owned (bare.owns_nothing block)
    · obtain ⟨n, sentinel, -⟩ := bare.tree.holds.sentinel
      have notNull : T.nil ≠ 0 := by
        intro isNull
        rw [isNull, bare.tree.holds.null] at sentinel
        cases sentinel
      have rootNil : T.root = T.nil := bare.tree.holds.root
      obtain ⟨rounds, rfl⟩ := Nat.exists_eq_succ_of_ne_zero (Nat.pos_iff_ne_zero.mp positive)
      refine ⟨T, A, { A with freed := T.nil :: A.freed }, runs updates List.prefix_rfl, ?_, ?_⟩
      · have unrooted : destoryNodes (rounds + 1) T A = .ok (T, A) := by
          rw [destoryNodes, if_pos (rootNil ▸ notNull)]
          rfl
        apply (bind_ok unrooted).trans
        rw [if_pos notNull]
        rfl
      · intro block above below
        omega

end Tree

end LinuxCpp.Kvstore
