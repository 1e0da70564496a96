import LinuxCpp.Kvstore.RbtreeInsert
import LinuxCpp.Kvstore.RbtreeSearch
import Mathlib.Data.List.Sort

set_option autoImplicit false

namespace LinuxCpp.Kvstore

open C RedBlack RedBlack.ColorTree Rbtree

/-- A block of its own: not in the tree, not the sentinel, not NULL. -/
structure Apart (T : Rbtree) (t : RbTree) (z : Nat) : Prop where
  outside : z ∉ addrs t
  notNil : z ≠ T.nil
  notNull : z ≠ 0

section Graft

variable {T : Rbtree} {t : RbTree} {fs : RbPath} {z : Nat}

/-- Writes to a block outside the tree leave it alone. -/
theorem Holds.store_apart (holds : Holds T t) (apart : Apart T t z) (n : RbNode) :
    Holds (T.store z n) t := by
  refine ⟨holds.root, holds.rep.congr fun q member => store_ne _ _ ?_, holds.distinct, ?_,
    holds.nilFree, ?_⟩
  · rintro rfl
    exact apart.outside member
  · rw [store_nil, store_ne _ _ apart.notNil.symm]
    exact holds.sentinel
  · rw [store_ne _ _ apart.notNull.symm, holds.null]

theorem Apart.store (apart : Apart T t z) (n : RbNode) : Apart (T.store z n) t z :=
  ⟨apart.outside, apart.notNil, apart.notNull⟩

/-- The link from the place of an absent key to the new node. -/
structure Linked (T T' : Rbtree) (fs : RbPath) (z : Nat) : Prop where
  nil : T'.nil = T.nil
  root : T'.root = if fs = [] then z else T.root
  parent : ∀ f rest, fs = f :: rest → T'.heap f.item.addr =
    some (cellOf f.dir f.color z (ptr T.nil f.other) (parentOf T.nil rest) f.item)
  others : ∀ q, q ∉ pathAddrs fs ∨ q ≠ parentOf T.nil fs → T'.heap q = T.heap q

theorem attach_linked {n : RbNode} {block : Nat} {key : CStr} (holds : Holds T (plug fs leaf))
    (apart : Apart T (plug fs leaf) z) (atZ : T.heap z = some n) (newKey : n.key = .live block key)
    (around : Around RbItem.key key fs) :
    ∃ T', attach T z (parentOf T.nil fs) = .ok T' ∧ Linked T T' fs z := by
  cases fs with
  | nil =>
      refine ⟨{ T with root := z }, ?_, rfl, by simp, by simp, fun _ _ => rfl⟩
      simp [attach, parentOf]
      rfl
  | cons f rest =>
      have cell := holds.parentCell
      refine ⟨T.store f.item.addr (cellOf f.dir f.color z (ptr T.nil f.other)
        (parentOf T.nil rest) f.item), ?_, rfl, by simp, ?_, ?_⟩
      · have side : (key < f.item.key) = (f.dir = .left) := by
          cases dir : f.dir with
          | left =>
              have above := around.above f.item (by simp [after, Frame.after, dir])
              simpa using above
          | right =>
              have below := around.below f.item (by simp [before, Frame.before, dir])
              simpa using below.le
        change attach T z f.item.addr = _
        simp only [attach, holds.parent_ne_nil, ↓reduceIte, key_of atZ, newKey, ok_bind,
          CPtr.deref_live, key_of cell, cellOf_key, strcmp_neg, side]
        split
        · rename_i isLeft
          rw [← isLeft, setChild_of cell, cellOf_setChild]
        · rename_i notLeft
          have isRight : f.dir = .right := by
            cases dir : f.dir with
            | left => exact absurd dir notLeft
            | right => rfl
          rw [← isRight, setChild_of cell, cellOf_setChild]
      · rintro g gs same
        cases same
        exact store_same ..
      · intro q away
        apply store_ne _ _
        rintro rfl
        rcases away with away | away
        · exact away (by simp [pathAddrs])
        · exact away rfl

/-- A red node linked at the place of its key. -/
theorem Linked.holds {T₁ T' : Rbtree} {x : RbItem} (linked : Linked T T₁ fs x.addr)
    (holds : Holds T (plug fs leaf)) (apart : Apart T (plug fs leaf) x.addr)
    (same : T' = T₁.store x.addr (cellOf .left .red T.nil T.nil (parentOf T.nil fs) x)) :
    Holds T' (plug fs (node .red leaf x leaf)) := by
  subst same
  have distinct := holds.distinct
  have outside := apart.outside
  simp only [addrs_plug, addrs, Multiset.zero_add] at distinct outside
  obtain ⟨path, -⟩ := (rep_plug ..).mp holds.rep
  have elsewhere : ∀ q, q ≠ x.addr → (q ∉ pathAddrs fs ∨ q ≠ parentOf T.nil fs) →
      (T₁.store x.addr (cellOf .left .red T.nil T.nil (parentOf T.nil fs) x)).heap q =
        T.heap q := by
    intro q different away
    rw [store_ne _ _ different, linked.others q away]
  have nilOut : T.nil ∉ pathAddrs fs := fun member => holds.nilFree (by simp [member, addrs])
  have nullOut : 0 ∉ pathAddrs fs := fun member => holds.zero_not_mem (by simp [member, addrs])
  refine ⟨?_, ?_, ?_, ?_, ?_, ?_⟩
  · rw [store_root, store_nil, linked.root, linked.nil]
    cases fs with
    | nil => rfl
    | cons f rest =>
        rw [if_neg (by simp), holds.root]
        exact ptr_plug_cons T.nil f rest _ _
  · rw [store_nil, linked.nil, rep_plug]
    refine ⟨path.redirect ?_ ?_ distinct, ?_, trivial, trivial⟩
    · rintro f rest rfl
      rw [store_ne _ _ (by rintro same; exact outside (by simp [pathAddrs, same])),
        linked.parent f rest rfl]
      rfl
    · intro q member notParent
      exact elsewhere q (by rintro rfl; exact outside member) (Or.inr notParent)
    · exact store_same ..
  · simp only [addrs_plug, addrs, Multiset.add_zero, Multiset.cons_add, Multiset.zero_add,
      Multiset.nodup_cons]
    exact ⟨outside, distinct⟩
  · rw [store_nil, linked.nil, elsewhere _ apart.notNil.symm (Or.inl nilOut)]
    exact holds.sentinel
  · rw [store_nil, linked.nil]
    simp only [addrs_plug, addrs, Multiset.add_zero, Multiset.cons_add, Multiset.zero_add,
      Multiset.mem_cons, not_or]
    exact ⟨apart.notNil.symm, nilOut⟩
  · rw [elsewhere 0 apart.notNull.symm (Or.inl nullOut), holds.null]

end Graft

section Insert

variable {T : Rbtree} {t : RbTree} {n : RbNode} {x : RbItem}

/-- The node `rbtree_insert` links, before the repair. -/
def newLeaf (x : RbItem) : RbTree := node .red leaf x leaf

/-- The tree after `rbtree_insert` of an absent key. -/
def inserted (t : RbTree) (x : RbItem) : RbTree :=
  repairInsert (seek RbItem.key x.key [] t).1 (newLeaf x)

theorem redAt_newLeaf (valid : t.Valid) (absent : (seek RbItem.key x.key [] t).2 = leaf) :
    RedAt (seek RbItem.key x.key [] t).1 (newLeaf x) := by
  have whole : (plug (seek RbItem.key x.key [] t).1 leaf).Valid := by
    rw [← absent, plug_seek]
    exact valid
  obtain ⟨-, path, -, n, height, rest⟩ := (valid_plug_iff _ _).mp whole
  exact ⟨rfl, ⟨fun _ => ⟨rfl, rfl⟩, trivial, trivial⟩, path, n, ⟨n, rfl, height, height⟩, rest⟩

theorem toList_inserted (x : RbItem) :
    (inserted t x).toList = before (seek RbItem.key x.key [] t).1 ++
      x :: after (seek RbItem.key x.key [] t).1 := by
  rw [inserted, toList_repairInsert _ _ (by simp [newLeaf])]
  simp [newLeaf, toList]

/-- `z->left = T->nil; z->right = T->nil; z->color = RED;` -/
theorem dress_run {z : Nat} (present : T.heap z = some n) (next : Rbtree → Except Fault Rbtree) :
    (do
      let T ← T.setChild .left z T.nil
      let T ← T.setChild .right z T.nil
      let T ← T.setColor z .red
      next T) = next (T.store z { n with left := T.nil, right := T.nil, color := .red }) := by
  simp only [setChild_of present, ok_bind, setChild_of (store_same T z _), store_store,
    setColor_of (store_same T z _), store_nil]
  rfl

theorem rbtreeInsert_holds {fuel : Nat} (holds : Holds T t) (valid : t.Valid)
    (sorted : Sorted RbItem.key t) (apart : Apart T t x.addr) (atX : T.heap x.addr = some n)
    (newKey : n.key = .live x.keyBlock x.key) (newValue : n.value = .live x.valueBlock x.value)
    (absent : (seek RbItem.key x.key [] t).2 = leaf) (enough : t.size + 2 ≤ fuel) :
    ∃ T', rbtreeInsert fuel T x.addr = .ok T' ∧ Holds T' (inserted t x) ∧ T'.nil = T.nil ∧
      ∀ q, q ∉ addrs t → q ≠ x.addr → T'.heap q = T.heap q := by
  have around := seek_around RbItem.key x.key sorted (around_nil RbItem.key x.key)
  have place : plug (seek RbItem.key x.key [] t).1 leaf = t := by rw [← absent, plug_seek]; rfl
  have short := length_seek RbItem.key x.key [] t
  have at_ := redAt_newLeaf valid absent
  have descent := insertDescent_holds [] t (z := x.addr) holds
    (by rw [key_of atX, newKey]) (show t.size < fuel by omega) absent
  rw [← holds.root] at descent
  unfold inserted
  generalize (seek RbItem.key x.key [] t).1 = fs at *
  -- z->parent = y
  have holds₁ := holds.store_apart apart { n with parent := parentOf T.nil fs }
  have apart₁ := apart.store { n with parent := parentOf T.nil fs }
  rw [← place] at holds₁ apart₁
  obtain ⟨T₂, linkRun, linked⟩ := attach_linked holds₁ apart₁ (store_same ..) newKey around
  have outside : x.addr ∉ pathAddrs fs := fun member => apart₁.outside (by simp [member])
  have atX₂ : T₂.heap x.addr = some { n with parent := parentOf T.nil fs } := by
    rw [linked.others x.addr (Or.inl outside), store_same]
  have holds₃ := linked.holds holds₁ apart₁ rfl
  obtain ⟨T', loop, holds', within⟩ := rbtreeInsertFixup_holds fs (newLeaf x) holds₃ at_
    (show fs.length + 2 ≤ fuel by simp only [List.length_nil] at short; omega)
  refine ⟨T', ?_, holds', ?_, ?_⟩
  · rw [parentOf] at descent
    simp only [rbtreeInsert, descent, ok_bind, setParent_of atX]
    rw [store_nil] at linkRun
    rw [linkRun, ok_bind, dress_run atX₂, ← loop, linked.nil, newKey, newValue]
    rfl
  · rw [within.nil, store_nil, linked.nil, store_nil]
  · intro q away different
    have notPath : q ∉ pathAddrs fs := by
      rw [← place] at away
      simpa [addrs] using away
    rw [within.outside q (by simp [newLeaf, addrs, notPath, different]), store_ne _ _ different,
      linked.others q (Or.inl notPath), store_ne _ _ different]

end Insert

section Set

variable {T : Rbtree} {A : Allocator} {t : RbTree}

theorem mallocNode_run (granted : A.AllSucceed) : mallocNode T A =
    .ok ((T.store (A.calls + 1) (.ofWords (A.junk A.calls)), A.calls + 1), A.next) := by
  rw [mallocNode, bind_ok (malloc_run granted)]
  rfl

/-- The next block of the allocator is not in use. -/
theorem RbInv.apart (inv : RbInv T A t) : Apart T t (A.calls + 1) := by
  have unmapped : T.heap (A.calls + 1) = none := inv.fresh _ (Nat.lt_succ_self _)
  refine ⟨fun member => inv.holds.mapped member unmapped, fun same => ?_, Nat.succ_ne_zero _⟩
  obtain ⟨n, present, -⟩ := inv.holds.sentinel
  rw [← same, unmapped] at present
  cases present

/-- A node allocated and not linked. -/
theorem RbInv.leak (inv : RbInv T A t) (n : RbNode) : RbInv (T.store (A.calls + 1) n) A.next t :=
  ⟨inv.holds.store_apart inv.apart n, inv.valid, inv.sorted, fun a later => by
    rw [Allocator.next_calls] at later
    rw [store_ne _ _ (by omega), inv.fresh a (by omega)]⟩

/-- A new engine: the sentinel and nothing else. -/
theorem kvsRbtreeCreate_run (granted : A.AllSucceed) :
    kvsRbtreeCreate A = .ok ((0, ⟨A.calls + 1, A.calls + 1,
      Function.update (fun _ => none) (A.calls + 1)
        (some { RbNode.ofWords (A.junk A.calls) with color := .black })⟩), A.next) := by
  rw [kvsRbtreeCreate, bind_ok (mallocNode_run granted)]
  simp only
  rw [lift_bind_ok (setColor_of (n := RbNode.ofWords (A.junk A.calls)) (by simp [store]) .black)]
  simp only [store, Function.update_idem]
  rfl

/-- The engine starts as the empty tree. -/
theorem kvsRbtreeCreate_inv (granted : A.AllSucceed) :
    ∃ T B, kvsRbtreeCreate A = .ok ((0, T), B) ∧ RbInv T B leaf ∧ A.Later B := by
  refine ⟨_, _, kvsRbtreeCreate_run granted, ⟨⟨rfl, trivial, by simp [addrs], ?_, by simp [addrs],
    ?_⟩, ⟨rfl, trivial, 0, rfl⟩, List.Pairwise.nil, ?_⟩, Allocator.Later.next A⟩
  · exact ⟨{ RbNode.ofWords (A.junk A.calls) with color := .black }, by simp, rfl⟩
  · simp
  · intro a later
    rw [Allocator.next_calls] at later
    simp [show a ≠ A.calls + 1 by omega]

theorem sorted_inserted {x : RbItem} (sorted : Sorted RbItem.key t)
    (absent : (seek RbItem.key x.key [] t).2 = leaf) : Sorted RbItem.key (inserted t x) := by
  have around := seek_around RbItem.key x.key sorted (around_nil RbItem.key x.key)
  have order := sorted
  rw [Sorted, (seek_absent sorted absent).1, List.map_append, List.pairwise_append] at order
  rw [Sorted, toList_inserted, List.map_append, List.map_cons, List.pairwise_append,
    List.pairwise_cons]
  simp only [List.mem_map, List.mem_cons, forall_exists_index, and_imp, forall_apply_eq_imp_iff₂,
    forall_eq_or_imp] at order ⊢
  exact ⟨order.1, ⟨around.above, order.2.1⟩, fun a member =>
    ⟨around.below a member, order.2.2 a member⟩⟩

/-- `kvs_rbtree_set` on a present key: a node is leaked, the tree stays. -/
theorem kvsRbtreeSet_present {fuel : Nat} {key : CStr} (value : CStr) (inv : RbInv T A t)
    (granted : A.AllSucceed) (present : lookup RbItem.key key t ≠ none) (enough : t.size < fuel) :
    ∃ T' B, kvsRbtreeSet fuel T (some key) (some value) A = .ok ((1, T'), B) ∧ RbInv T' B t ∧
      A.Later B := by
  have leaked := inv.leak (.ofWords (A.junk A.calls))
  refine ⟨_, _, ?_, leaked, Allocator.Later.next A⟩
  have found : ptr T.nil (seek RbItem.key key [] t).2 ≠ T.nil := fun same =>
    present ((lookup_eq_none_iff inv.sorted).mpr (inv.holds.at_seek.ptr_eq_nil_iff.mp same))
  simp only [kvsRbtreeSet]
  rw [bind_ok (mallocNode_run granted)]
  simp only
  rw [lift_bind_ok (rbtreeSearch_holds leaked.holds enough)]
  rw [store_nil, if_pos found]
  rfl

/-- `kvs_rbtree_set` on an absent key. -/
theorem kvsRbtreeSet_absent {fuel : Nat} {key : CStr} (value : CStr) (inv : RbInv T A t)
    (granted : A.AllSucceed) (absent : lookup RbItem.key key t = none)
    (enough : t.size + 2 ≤ fuel) :
    ∃ T' B, kvsRbtreeSet fuel T (some key) (some value) A = .ok ((0, T'), B) ∧
      RbInv T' B (inserted t ⟨A.calls + 1, A.calls + 2, key, A.calls + 3, value⟩) ∧
      A.Later B := by
  have atEnd : (seek RbItem.key key [] t).2 = leaf := (lookup_eq_none_iff inv.sorted).mp absent
  have notFound : ptr T.nil (seek RbItem.key key [] t).2 = T.nil := by rw [atEnd]; rfl
  have later := (Allocator.Later.next A).allSucceed granted
  have later' := (Allocator.Later.next A.next).allSucceed later
  -- the node as filled in before rbtree_insert
  have filled := inv.leak { RbNode.ofWords (A.junk A.calls) with
    key := .live (A.calls + 2) key, value := .live (A.calls + 3) value }
  obtain ⟨T', ran, holds', nil', frame⟩ := rbtreeInsert_holds
    (x := ⟨A.calls + 1, A.calls + 2, key, A.calls + 3, value⟩) filled.holds inv.valid inv.sorted
    (inv.apart.store _) (store_same ..) rfl rfl atEnd enough
  refine ⟨T', A.next.next.next, ?_, ⟨holds', repairInsert_valid _ _ (redAt_newLeaf inv.valid atEnd),
    sorted_inserted inv.sorted atEnd, ?_⟩,
    ((Allocator.Later.next A).trans (Allocator.Later.next _)).trans (Allocator.Later.next _)⟩
  · simp only [kvsRbtreeSet]
    rw [bind_ok (mallocNode_run granted)]
    simp only
    rw [lift_bind_ok (rbtreeSearch_holds (inv.leak _).holds (by omega)), store_nil,
      if_neg (not_not.mpr notFound), bind_ok (strdup_run later key),
      lift_bind_ok (setKey_of (store_same ..) _), store_store]
    rw [if_neg (by simp), bind_ok (strdup_run later' value),
      lift_bind_ok (setValue_of (store_same ..) _), store_store, if_neg (by simp)]
    exact lift_bind_ok ran
  · intro a later
    simp only [Allocator.next_calls] at later
    have unmapped : T.heap a = none := inv.fresh a (by omega)
    rw [frame a (fun member => inv.holds.mapped member unmapped) (by simp only; omega),
      store_ne _ _ (by omega), unmapped]

theorem orderedInsert_between {β : Type} (r : β → β → Prop) [DecidableRel r] (x : β)
    (smaller larger : List β) (below : ∀ a ∈ smaller, ¬ r x a) (above : ∀ a ∈ larger, r x a) :
    (smaller ++ larger).orderedInsert r x = smaller ++ x :: larger := by
  induction smaller with
  | nil =>
      cases larger with
      | nil => rfl
      | cons a larger => simp [above a (by simp)]
  | cons y smaller ih =>
      rw [List.cons_append, List.orderedInsert_cons, if_neg (below y (by simp)),
        ih fun a member => below a (List.mem_cons_of_mem _ member), List.cons_append]

theorem entries_inserted {x : RbItem} (sorted : Sorted RbItem.key t)
    (absent : (seek RbItem.key x.key [] t).2 = leaf) :
    entries (inserted t x) =
      (entries t).orderedInsert (fun a b => a.1 ≤ b.1) (x.key, x.value) := by
  have around := seek_around RbItem.key x.key sorted (around_nil RbItem.key x.key)
  rw [entries, entries, toList_inserted, (seek_absent sorted absent).1, List.map_append,
    List.map_append, List.map_cons, orderedInsert_between]
  · simpa using around.below
  · simpa using fun a member => (around.above a member).le

theorem answer_inserted {x : RbItem} (sorted : Sorted RbItem.key t)
    (absent : (seek RbItem.key x.key [] t).2 = leaf) (k : CStr) :
    answer (inserted t x) k = if k = x.key then .live x.valueBlock x.value else answer t k := by
  have around := seek_around RbItem.key x.key sorted (around_nil RbItem.key x.key)
  have step := lookup_between (k := k) (seek_absent sorted absent).1 (toList_inserted x)
    around.below
  split
  · rename_i same
    rw [answer, step.1 same]
  · rename_i different
    rw [answer, step.2 different, answer]

theorem size_inserted {x : RbItem} (sorted : Sorted RbItem.key t)
    (absent : (seek RbItem.key x.key [] t).2 = leaf) : (inserted t x).size = t.size + 1 := by
  rw [size_eq_length, size_eq_length, toList_inserted, (seek_absent sorted absent).1]
  simp only [List.length_append, List.length_cons]
  omega

theorem mem_keys_iff {key : CStr} : key ∈ (entries t).map Prod.fst ↔
    lookup RbItem.key key t ≠ none := by
  simp [entries, lookup]

end Set

/-- `kvs_rbtree_set` with `t.size + 3` rounds for each loop keeps the invariant,
and inserts an absent key at its sorted place. -/
theorem kvsRbtreeSet_correct (T : Rbtree) (A : Allocator) (t : RbTree) (inv : RbInv T A t)
    (granted : A.AllSucceed) (key value : CStr) (fuel : Nat) (enough : t.size + 3 ≤ fuel) :
    ∃ code T' B t', kvsRbtreeSet fuel T (some key) (some value) A = .ok ((code, T'), B) ∧
      RbInv T' B t' ∧
      (key ∈ (entries t).map Prod.fst → code = 1 ∧ entries t' = entries t ∧
        ∀ k, kvsRbtreeGet fuel T' (some k) = kvsRbtreeGet fuel T (some k)) ∧
      (key ∉ (entries t).map Prod.fst → code = 0 ∧
        entries t' = (entries t).orderedInsert (fun a b => a.1 ≤ b.1) (key, value) ∧
        (∃ block, kvsRbtreeGet fuel T' (some key) = .ok (.live block value)) ∧
        ∀ k, k ≠ key → kvsRbtreeGet fuel T' (some k) = kvsRbtreeGet fuel T (some k)) := by
  by_cases present : lookup RbItem.key key t = none
  · have atEnd : (seek RbItem.key key [] t).2 = leaf := (lookup_eq_none_iff inv.sorted).mp present
    obtain ⟨T', B, ran, inv', -⟩ := kvsRbtreeSet_absent value inv granted present
      (show t.size + 2 ≤ fuel by omega)
    have get : ∀ k, kvsRbtreeGet fuel T' (some k) = _ := fun k =>
      kvsRbtreeGet_holds inv'.holds inv'.sorted
        (by rw [size_inserted inv.sorted atEnd]; omega)
    have getOld : ∀ k, kvsRbtreeGet fuel T (some k) = _ := fun k =>
      kvsRbtreeGet_holds inv.holds inv.sorted (by omega)
    refine ⟨0, T', B, _, ran, inv', fun member => absurd present (mem_keys_iff.mp member),
      fun _ => ⟨rfl, entries_inserted inv.sorted atEnd, ⟨A.calls + 3, ?_⟩, fun k different => ?_⟩⟩
    · rw [get, answer_inserted inv.sorted atEnd, if_pos rfl]
    · rw [get, getOld, answer_inserted inv.sorted atEnd, if_neg different]
  · obtain ⟨T', B, ran, inv', -⟩ := kvsRbtreeSet_present value inv granted present
      (show t.size < fuel by omega)
    refine ⟨1, T', B, t, ran, inv', fun _ => ⟨rfl, rfl, fun k => ?_⟩,
      fun absent => absurd (mem_keys_iff.mpr present) absent⟩
    rw [kvsRbtreeGet_holds inv'.holds inv'.sorted (by omega),
      kvsRbtreeGet_holds inv.holds inv.sorted (by omega)]

/-- The item at block `place`, with its strings in two of the blocks after the seven nodes;
the value is the key again. -/
def letterItem (place : Nat) (key : CStr) : RbItem :=
  ⟨place, 2 * place + 5, key, 2 * place + 6, key⟩

/-- Keys `A` to `G` at the blocks 2 to 8. The node `F` has two red children,
and its parent `D` is red. -/
def sevenKeys : RbTree :=
  node .black (node .black leaf (letterItem 2 ⟨[65], by decide⟩) leaf)
    (letterItem 3 ⟨[66], by decide⟩)
    (node .red (node .black leaf (letterItem 4 ⟨[67], by decide⟩) leaf)
      (letterItem 5 ⟨[68], by decide⟩)
      (node .black (node .red leaf (letterItem 6 ⟨[69], by decide⟩) leaf)
        (letterItem 7 ⟨[70], by decide⟩)
        (node .red leaf (letterItem 8 ⟨[71], by decide⟩) leaf)))

/-- The cell of an item, with the colour and the links of its node. -/
def letterCell (x : RbItem) (color : Color) (right left parent : Nat) : RbNode :=
  ⟨color, right, left, parent, .live x.keyBlock x.key, .live x.valueBlock x.value⟩

/-- The heap of `sevenKeys`, with the sentinel in block 1 of zeroed memory. -/
def sevenKeysHeap : Rbtree :=
  ⟨3, 1, fun a => match a with
    | 1 => some ⟨.black, 0, 0, 0, .null, .null⟩
    | 2 => some (letterCell (letterItem 2 ⟨[65], by decide⟩) .black 1 1 3)
    | 3 => some (letterCell (letterItem 3 ⟨[66], by decide⟩) .black 5 2 1)
    | 4 => some (letterCell (letterItem 4 ⟨[67], by decide⟩) .black 1 1 5)
    | 5 => some (letterCell (letterItem 5 ⟨[68], by decide⟩) .red 7 4 3)
    | 6 => some (letterCell (letterItem 6 ⟨[69], by decide⟩) .red 1 1 7)
    | 7 => some (letterCell (letterItem 7 ⟨[70], by decide⟩) .black 8 6 5)
    | 8 => some (letterCell (letterItem 8 ⟨[71], by decide⟩) .red 1 1 7)
    | _ => none⟩

theorem sevenKeys_inv :
    RbInv sevenKeysHeap { Allocator.plentiful with calls := 22 } sevenKeys := by
  refine ⟨⟨rfl, ⟨rfl, ⟨rfl, trivial, trivial⟩, rfl, ⟨rfl, trivial, trivial⟩, rfl,
    ⟨rfl, trivial, trivial⟩, rfl, trivial, trivial⟩, by decide, ⟨_, rfl, rfl⟩, by decide, rfl⟩,
    ⟨rfl, ?_, ?_⟩, ?_, ?_⟩
  · simp [sevenKeys, NoRedRed, rootColor]
  · have single : ∀ (color : Color) (x : RbItem),
        (node color leaf x leaf).BlackHeight color.weight := fun color x =>
      ⟨0, (Nat.zero_add _).symm, rfl, rfl⟩
    exact ⟨2, 1, rfl, single .black _, 1, rfl, single .black _, 0, rfl, single .red _,
      single .red _⟩
  · simp only [Sorted, sevenKeys, toList, List.nil_append, List.cons_append, List.map_cons,
      List.map_nil]
    decide
  · intro a later
    simp only at later
    obtain ⟨b, rfl⟩ : ∃ b, a = b + 9 := ⟨a - 9, by omega⟩
    rfl

theorem sevenKeys_turns :
    (kvsRbtreeSet 10 sevenKeysHeap (some ⟨[72], by decide⟩) (some ⟨[50], by decide⟩)
      { Allocator.plentiful with calls := 22 }).map (fun r => r.1.2.root) = .ok 5 := by
  rfl

/-- The key `H` comes below the red `G`: `E`, `F` and `G` are recoloured, and then the red
`F` below the red `D` turns the tree at its root. -/
theorem kvsRbtreeSet_correct_turned :
    ∃ T' B t', kvsRbtreeSet 10 sevenKeysHeap (some ⟨[72], by decide⟩) (some ⟨[50], by decide⟩)
        { Allocator.plentiful with calls := 22 } = .ok ((0, T'), B) ∧
      RbInv T' B t' ∧ T'.root = 5 ∧ (entries sevenKeys).length = 7 ∧
      entries t' = entries sevenKeys ++ [(⟨[72], by decide⟩, ⟨[50], by decide⟩)] := by
  obtain ⟨code, T', B, t', ran, inv', -, absent⟩ := kvsRbtreeSet_correct sevenKeysHeap _ sevenKeys
    sevenKeys_inv (fun _ => rfl) ⟨[72], by decide⟩ ⟨[50], by decide⟩ 10 (by decide)
  obtain ⟨isZero, list, -⟩ := absent (by decide)
  have turned := sevenKeys_turns
  rw [ran] at turned
  refine ⟨T', B, t', isZero ▸ ran, inv', ?_, rfl, ?_⟩
  · exact Except.ok.inj turned
  · rw [list]
    decide

end LinuxCpp.Kvstore
