import LinuxCpp.Kvstore.RbtreeUnlink

set_option autoImplicit false

namespace LinuxCpp.Kvstore

open C RedBlack RedBlack.ColorTree Rbtree

section Swap

variable {T : Rbtree} {fs : RbPath} {a b : RbTree} {d : Dir} {color : Color} {y z : RbItem}

/-- The item at the address of `z` with the strings of `y`. -/
def payloadOf (z y : RbItem) : RbItem := { y with addr := z.addr }

theorem swapPayload_self (T : Rbtree) (z : Nat) : swapPayload T z z = .ok T := by
  simp only [swapPayload, ↓reduceIte]
  rfl

theorem swapPayload_run {z y : Nat} {nz ny : RbNode} (different : y ≠ z) (atZ : T.heap z = some nz)
    (atY : T.heap y = some ny) :
    swapPayload T z y = .ok ((T.store z { nz with key := ny.key, value := ny.value }).store y
      { ny with key := nz.key, value := nz.value }) := by
  obtain ⟨T₁, def₁⟩ : ∃ T₁, T₁ = T.store z { nz with key := ny.key } := ⟨_, rfl⟩
  have y₁ : T₁.heap y = some ny := by rw [def₁, store_ne _ _ different, atY]
  obtain ⟨T₂, def₂⟩ : ∃ T₂, T₂ = T₁.store y { ny with key := nz.key } := ⟨_, rfl⟩
  have z₂ : T₂.heap z = some { nz with key := ny.key } := by
    rw [def₂, store_ne _ _ different.symm, def₁, store_same]
  have y₂ : T₂.heap y = some { ny with key := nz.key } := by rw [def₂, store_same]
  obtain ⟨T₃, def₃⟩ : ∃ T₃, T₃ = T₂.store z { nz with key := ny.key, value := ny.value } :=
    ⟨_, rfl⟩
  have y₃ : T₃.heap y = some { ny with key := nz.key } := by
    rw [def₃, store_ne _ _ different, y₂]
  simp only [swapPayload, different, ↓reduceIte, key_of atZ, key_of atY, setKey_of atZ, ok_bind,
    ← def₁, setKey_of y₁, ← def₂, value_of z₂, value_of y₂, setValue_of z₂, ← def₃,
    setValue_of y₃]
  rw [def₃, def₂, store_comm _ _ _ different, store_store, def₁, store_store]

/-- The strings of the unlinked node move to the node that stays. -/
theorem swapPayload_holds {ny : RbNode} (holds : Holds T (plug fs (build d color a z b)))
    (apart : Apart T (plug fs (build d color a z b)) y.addr) (atY : T.heap y.addr = some ny)
    (key : ny.key = .live y.keyBlock y.key) (value : ny.value = .live y.valueBlock y.value) :
    ∃ T', swapPayload T z.addr y.addr = .ok T' ∧
      Holds T' (plug fs (build d color a (payloadOf z y) b)) ∧
      Apart T' (plug fs (build d color a (payloadOf z y) b)) y.addr ∧ T'.nil = T.nil ∧
      (∃ n, T'.heap y.addr = some n ∧ n.color = ny.color) ∧
      ∀ q, q ∉ addrs (plug fs (build d color a z b)) → q ≠ y.addr → T'.heap q = T.heap q := by
  have different : y.addr ≠ z.addr := fun same => apart.outside (by simp [same])
  have atZ := holds.cell
  obtain ⟨holds', within⟩ := store_holds holds color (payloadOf z y) rfl
  have apart' : Apart (T.store z.addr (cellOf d color (ptr T.nil a) (ptr T.nil b)
      (parentOf T.nil fs) (payloadOf z y))) (plug fs (build d color a (payloadOf z y) b)) y.addr :=
    ⟨by simpa [payloadOf] using apart.outside, apart.notNil, apart.notNull⟩
  have cell : { cellOf d color (ptr T.nil a) (ptr T.nil b) (parentOf T.nil fs) z with
      key := ny.key, value := ny.value } =
      cellOf d color (ptr T.nil a) (ptr T.nil b) (parentOf T.nil fs) (payloadOf z y) := by
    rw [key, value]
    cases d <;> rfl
  refine ⟨_, swapPayload_run different atZ atY, ?_, ?_, rfl, ⟨_, store_same .., rfl⟩, ?_⟩
  · rw [cell]
    exact holds'.store_apart apart' _
  · rw [cell]
    exact apart'.store _
  · intro q away notY
    rw [store_ne _ _ notY, cell, within.outside q away]

end Swap

section Fixup

variable {T : Rbtree} {fs : RbPath} {l r : RbTree} {x : RbItem}

/-- The repair is only a recolouring when the child is red, or the tree empty. -/
theorem deleteFixup_recolor {child : RbTree} (fuel : Nat) (holds : Holds T (plug fs child))
    (red : child ≠ leaf → child.rootColor = .red) (empty : child = leaf → fs = []) :
    ∃ T', rbtreeDeleteFixup (fuel + 1) T (ptr T.nil child) = .ok T' ∧
      Holds T' (plug fs child.blacken) ∧ T'.nil = T.nil ∧
      ∀ q, q ≠ T.nil → q ∉ addrs child → T'.heap q = T.heap q := by
  cases child with
  | leaf =>
      obtain rfl := empty rfl
      obtain ⟨n, present, black⟩ := holds.sentinel
      have atRoot : T.nil = T.root := holds.root.symm
      refine ⟨T.store T.nil { n with color := .black }, ?_, ?_, rfl, fun q notNil _ =>
        store_ne _ _ notNil⟩
      · simp only [rbtreeDeleteFixup, ptr, ← atRoot, ↓reduceIte, setColor_of present]
      · refine ⟨holds.root, trivial, holds.distinct, ⟨_, store_same .., rfl⟩, holds.nilFree, ?_⟩
        rw [store_ne _ _ ?_, holds.null]
        intro same
        rw [← same, holds.null] at present
        cases present
  | node color l x r =>
      have isRed : color = .red := red (by simp)
      have cell := holds.cell (d := .left)
      obtain ⟨T', set, holds', -⟩ := setColor_holds (d := .left) holds .black
      refine ⟨T', ?_, holds', ?_, ?_⟩
      · simp only [rbtreeDeleteFixup, ptr, color_of cell, cellOf_color, isRed, ok_bind,
          reduceCtorEq, ↓reduceIte, set, ite_self]
      · rw [setColor_of cell] at set
        cases set
        rfl
      · intro q _ away
        rw [setColor_of cell] at set
        cases set
        exact store_ne _ _ (by rintro rfl; exact away (by simp [addrs]))

theorem addrs_spliceOut (color : Color) (one : l = leaf ∨ r = leaf) :
    addrs (spliceOut color l r) = addrs (join l r) :=
  addrs_congr (by rw [toList_spliceOut one, toList_join one])

/-- `rbtree_delete` from the test of the colour of `y` on. -/
def finishDelete (fuel : Nat) (T : Rbtree) (x y : Nat) : Except Fault (Rbtree × Nat) := do
  if (← T.color y) = .black then
    return (← rbtreeDeleteFixup fuel T x, y)
  else
    return (T, y)

/-- `rbtree_delete` up to there: `y` is unlinked, and its child in its place. -/
structure Spliced (T T' : Rbtree) (t : RbTree) (fs : RbPath) (color : Color) (l r : RbTree)
    (y : Nat) : Prop where
  holds : Holds T' (plug fs (join l r))
  apart : Apart T' (plug fs (join l r)) y
  cell : ∃ n, T'.heap y = some n ∧ n.color = color
  nil : T'.nil = T.nil
  fewer : ∀ q ∈ addrs (plug fs (join l r)), q ∈ addrs t
  outside : ∀ q, q ∉ addrs t → T'.heap q = T.heap q

/-- The last step, when no black height is lost. -/
theorem Spliced.finish {T' : Rbtree} {t : RbTree} {color : Color} {y : Nat}
    (spliced : Spliced T T' t fs color l r y) (fuel : Nat) (one : l = leaf ∨ r = leaf)
    (red : join l r ≠ leaf → (join l r).rootColor = .red)
    (easy : color = .black → l = leaf → r = leaf → fs = []) :
    ∃ T'', finishDelete (fuel + 1) T' (ptr T.nil (join l r)) y = .ok (T'', y) ∧
      Holds T'' (plug fs (spliceOut color l r)) ∧ Apart T'' (plug fs (spliceOut color l r)) y ∧
      ∀ q, q ≠ T.nil → q ∉ addrs t → T''.heap q = T.heap q := by
  obtain ⟨n, atY, rfl⟩ := spliced.cell
  rw [finishDelete, color_of atY, ok_bind, ← spliced.nil]
  cases isColor : n.color with
  | red =>
      exact ⟨T', rfl, spliced.holds, spliced.apart, fun q _ away => spliced.outside q away⟩
  | black =>
      obtain ⟨T'', ran, holds', nil', frame⟩ := deleteFixup_recolor fuel spliced.holds red
        (fun empty => by
          cases l with
          | leaf => exact easy isColor rfl empty
          | node c l' x r' => cases empty)
      refine ⟨T'', ?_, holds', ⟨?_, nil'.symm ▸ spliced.apart.notNil, spliced.apart.notNull⟩, ?_⟩
      · rw [if_pos rfl, ran]
        rfl
      · rw [addrs_plug, addrs_spliceOut _ one, ← addrs_plug]
        exact spliced.apart.outside
      · intro q notNil away
        rw [frame q notNil fun member => away (spliced.fewer q (by simp [member])),
          spliced.outside q away]

/-- A black leaf below another node: the repair reads the parent of the
sentinel. -/
theorem Spliced.fault {T' : Rbtree} {t : RbTree} {y : Nat} {n : RbNode}
    (spliced : Spliced T T' t fs .black leaf leaf y) (fuel : Nat) (inner : fs ≠ [])
    (nilFree : T.nil ∉ addrs t) (sentinel : T.heap T.nil = some n) (black : n.color = .black)
    (unset : n.parent = 0) :
    finishDelete (fuel + 1) T' (ptr T.nil (leaf : RbTree)) y = .error .nullDeref := by
  obtain ⟨m, atY, isBlack⟩ := spliced.cell
  have atNil : T'.heap T.nil = some n := (spliced.outside _ nilFree).trans sentinel
  have notRoot : T.nil ≠ T'.root := by
    intro same
    rw [spliced.holds.root, ← spliced.nil] at same
    have nonempty : plug fs (leaf : RbTree) ≠ leaf := by
      cases fs with
      | nil => exact absurd rfl inner
      | cons f fs => exact plug_ne_leaf fs (fill_ne_leaf f _)
    have whole : Holds T' (plug [] (plug fs leaf)) := spliced.holds
    exact nonempty (whole.ptr_eq_nil_iff.mp same.symm)
  have null : T'.child .left 0 = .error .nullDeref := by
    simp only [child, load, spliced.holds.null, ↓reduceIte]
    rfl
  simp only [finishDelete, color_of atY, isBlack, ok_bind, ↓reduceIte, ptr, rbtreeDeleteFixup,
    notRoot, color_of atNil, black, parent_of atNil, unset, null]
  rfl

end Fixup

/-- The tree around the node that the deletion of `z` unlinks. -/
structure SplicePlan (t : RbTree) (z : RbItem) (fs : RbPath) (color : Color) (l r : RbTree) :
    Prop where
  one : l = leaf ∨ r = leaf
  red : join l r ≠ leaf → (join l r).rootColor = .red
  valid : (color = .black → l = leaf → r = leaf → fs = []) →
    (plug fs (spliceOut color l r)).Valid
  removed : ∃ smaller larger, t.toList = smaller ++ z :: larger ∧
    entries (plug fs (spliceOut color l r)) = (smaller ++ larger).map fun x => (x.key, x.value)
  hard : splicesBlackLeaf RbItem.key z.key t = true ↔
    color = .black ∧ l = leaf ∧ r = leaf ∧ fs ≠ []

section Delete

variable {T : Rbtree} {fs : RbPath} {l r : RbTree} {color : Color} {z : RbItem}

/-- The unlinked node was in the tree, once. -/
theorem Unlinked.apart {T' : Rbtree} {y : RbItem} (unlinked : Unlinked T T' fs color l r y)
    (holds : Holds T (plug fs (node color l y r))) (one : l = leaf ∨ r = leaf) :
    Apart T' (plug fs (join l r)) y.addr := by
  have distinct := holds.distinct
  simp only [addrs_plug, addrs, ← addrs_join one, Multiset.nodup_cons, Multiset.cons_add]
    at distinct
  refine ⟨by rw [addrs_plug]; exact distinct.1, ?_, ?_⟩
  · rw [unlinked.nil]
    exact holds.addr_ne_nil (d := .left)
  · intro zero
    exact holds.zero_not_mem (by simp [addrs, ← zero])

theorem join_red {x : RbItem} (valid : (plug fs (node color l x r)).Valid)
    (one : l = leaf ∨ r = leaf) (nonempty : join l r ≠ leaf) : (join l r).rootColor = .red := by
  obtain ⟨noRedRed, -, -, n, height, -⟩ := (valid_plug_iff _ _).mp valid
  obtain ⟨-, childHeight, -⟩ := join_of_valid one height noRedRed
  exact Color.eq_red fun black => nonempty (eq_leaf_of_blackHeight childHeight black)

/-- `rbtree_delete` of a node with at most one child. -/
theorem rbtreeDelete_one (fuel : Nat) (holds : Holds T (plug fs (node color l z r)))
    (one : l = leaf ∨ r = leaf) :
    ∃ T', rbtreeDelete fuel T z.addr = finishDelete fuel T' (ptr T.nil (join l r)) z.addr ∧
      Spliced T T' (plug fs (node color l z r)) fs color l r z.addr := by
  have cell := holds.cell (d := .left)
  obtain ⟨T₁, T₂, adoptRun, relinkRun, unlinked⟩ := unlink_run holds one
  refine ⟨T₂, ?_, unlinked.holds, unlinked.apart holds one,
    ⟨_, unlinked.cell.trans cell, cellOf_color ..⟩, unlinked.nil, ?_, unlinked.outside⟩
  · simp only [rbtreeDelete, splicedNode_one holds one, onlyChild_holds holds, ok_bind,
      parent_of cell, cellOf_parent, adoptRun, relinkRun, swapPayload_self]
    rfl
  · intro q member
    simp only [addrs_plug, addrs, addrs_join one, Multiset.mem_add, Multiset.mem_cons] at member ⊢
    tauto

/-- `rbtree_delete` of a node with two children: the first node of the right
subtree is unlinked, and its strings move. -/
theorem rbtreeDelete_two {pre : RbPath} {color' : Color} {y : RbItem} {r' : RbTree} {fuel : Nat}
    (holds : Holds T (plug fs (node color l z r))) (left : l ≠ leaf) (right : r ≠ leaf)
    (enough : r.size ≤ fuel)
    (first : leftmost (⟨.right, color, z, l⟩ :: fs) r =
      (pre ++ ⟨.right, color, z, l⟩ :: fs, node color' leaf y r'))
    (whole : plug pre (node color' leaf y r') = r) :
    ∃ T', rbtreeDelete fuel T z.addr = finishDelete fuel T' (ptr T.nil r') y.addr ∧
      Spliced T T' (plug fs (node color l z r))
        (pre ++ ⟨.right, color, payloadOf z y, l⟩ :: fs) color' leaf r' y.addr := by
  have spliced : splicedNode fuel T z.addr = .ok y.addr := by
    rw [splicedNode_two holds left right enough, first]
    rfl
  -- a tree around z, seen from below z
  have fromZ : ∀ (item : RbItem) (sub : RbTree), plug (pre ++ ⟨.right, color, item, l⟩ :: fs) sub =
      plug fs (build .right color (plug pre sub) item l) := fun item sub => plug_append ..
  have shape : plug (pre ++ ⟨.right, color, z, l⟩ :: fs) (node color' leaf y r') =
      plug fs (node color l z r) := by
    rw [fromZ, whole]
    rfl
  rw [← shape] at holds ⊢
  have cell := holds.cell (d := .left)
  obtain ⟨T₁, T₂, adoptRun, relinkRun, unlinked⟩ := unlink_run holds (Or.inl rfl)
  have apart₂ := unlinked.apart holds (Or.inl rfl)
  obtain ⟨T₃, swapRun, holds₃, apart₃, nil₃, ⟨n, cell₃, color₃⟩, frame₃⟩ := swapPayload_holds
    (by rw [← fromZ]; exact unlinked.holds) (by rw [← fromZ]; exact apart₂)
    (unlinked.cell.trans cell) (cellOf_key ..) (cellOf_value ..)
  rw [← fromZ] at holds₃ apart₃ frame₃
  refine ⟨T₃, ?_, holds₃, apart₃, ⟨n, cell₃, color₃.trans (cellOf_color ..)⟩,
    nil₃.trans unlinked.nil, ?_, ?_⟩
  · simp only [rbtreeDelete, spliced, onlyChild_holds holds, ok_bind, parent_of cell,
      cellOf_parent, adoptRun, relinkRun, swapRun]
    rfl
  · intro q member
    rw [fromZ] at member ⊢
    simp only [addrs_plug, addrs_build, addrs, join, payloadOf, Multiset.mem_add,
      Multiset.mem_cons, Multiset.zero_add] at member ⊢
    tauto
  · intro q away
    have apart := away
    rw [fromZ] at apart
    simp only [addrs_plug, addrs_build, addrs, Multiset.mem_add, Multiset.mem_cons,
      Multiset.zero_add, not_or] at apart
    rw [frame₃ q ?_ apart.1.2.1.1.1, unlinked.outside q away]
    rw [fromZ]
    simp only [addrs_plug, addrs_build, join, Multiset.mem_add, Multiset.mem_cons, not_or]
    tauto

end Delete

section Plan

variable {T : Rbtree} {A : Allocator} {t : RbTree} {fuel : Nat}

/-- A key whose node has at most one child is unlinked in place. -/
theorem SplicePlan.inPlace {fs : RbPath} {l r : RbTree} {color : Color} {z : RbItem}
    (found : seek RbItem.key z.key [] t = (fs, node color l z r))
    (whole : plug fs (node color l z r) = t) (valid : t.Valid) (one : l = leaf ∨ r = leaf) :
    SplicePlan t z fs color l r := by
  have point : splicePoint RbItem.key z.key t = (fs, node color l z r) := by
    unfold splicePoint
    rw [found]
    rcases one with rfl | rfl
    · rfl
    · cases l <;> rfl
  rw [← whole] at valid
  refine ⟨one, join_red valid one, valid_spliceOut valid one,
    ⟨before fs ++ l.toList, r.toList ++ after fs, ?_, ?_⟩, ?_⟩
  · simp [← whole, toList_plug, toList]
  · simp [entries, toList_plug, toList_spliceOut one]
  · rw [splicesBlackLeaf, point]
    cases fs <;> cases color <;> cases l <;> cases r <;> simp

/-- A key whose node has two children is overwritten by the next one, whose
node is unlinked. -/
theorem SplicePlan.next {fs pre : RbPath} {l r r' : RbTree} {color color' : Color} {y z : RbItem}
    (found : seek RbItem.key z.key [] t = (fs, node color l z r))
    (whole : plug fs (node color l z r) = t) (valid : t.Valid) (left : l ≠ leaf) (right : r ≠ leaf)
    (first : leftmost (⟨.right, color, z, l⟩ :: fs) r =
      (pre ++ ⟨.right, color, z, l⟩ :: fs, node color' leaf y r'))
    (noneBefore : before pre = []) (inner : plug pre (node color' leaf y r') = r) :
    SplicePlan t z (pre ++ ⟨.right, color, payloadOf z y, l⟩ :: fs) color' leaf r' := by
  have point : splicePoint RbItem.key z.key t =
      (pre ++ ⟨.right, color, z, l⟩ :: fs, node color' leaf y r') := by
    rw [← first]
    unfold splicePoint
    rw [found]
    cases l with
    | leaf => exact absurd rfl left
    | node c l' x r'' =>
        cases r with
        | leaf => exact absurd rfl right
        | node c' l'' x' r''' => rfl
  have fromZ : ∀ (item : RbItem) (sub : RbTree), plug (pre ++ ⟨.right, color, item, l⟩ :: fs) sub =
      plug fs (build .right color (plug pre sub) item l) := fun item sub => plug_append ..
  have shape : plug (pre ++ ⟨.right, color, z, l⟩ :: fs) (node color' leaf y r') = t := by
    rw [fromZ, inner, ← whole]
    rfl
  rw [← shape] at valid
  refine ⟨Or.inl rfl, join_red valid (Or.inl rfl), fun easy => ?_,
    ⟨before fs ++ l.toList, y :: (r'.toList ++ after pre ++ after fs), ?_, ?_⟩, ?_⟩
  · have spliceValid := valid_spliceOut valid (Or.inl rfl)
      fun black empty empty' => by simpa using easy black empty empty'
    rw [fromZ] at spliceValid ⊢
    exact valid_replace _ spliceValid
  · rw [← shape, fromZ]
    simp [toList_plug, build, toList, noneBefore]
  · rw [fromZ]
    simp [entries, toList_plug, build, toList, noneBefore, toList_spliceOut, payloadOf]
  · rw [splicesBlackLeaf, point]
    cases pre <;> cases color' <;> cases r' <;> simp

/-- Every deletion unlinks one node with at most one child. -/
theorem rbtreeDelete_splice {fs : RbPath} {l r : RbTree} {color : Color} {z : RbItem}
    (inv : RbInv T A t) (found : seek RbItem.key z.key [] t = (fs, node color l z r))
    (enough : t.size ≤ fuel) :
    ∃ T' gs color' l' r' y,
      rbtreeDelete fuel T z.addr = finishDelete fuel T' (ptr T.nil (join l' r')) y ∧
      Spliced T T' t gs color' l' r' y ∧ SplicePlan t z gs color' l' r' := by
  have whole : plug fs (node color l z r) = t := by
    have := plug_seek RbItem.key z.key [] t
    rwa [found] at this
  have holds := inv.holds
  rw [← whole] at holds
  by_cases one : l = leaf ∨ r = leaf
  · obtain ⟨T', ran, spliced⟩ := rbtreeDelete_one fuel holds one
    exact ⟨T', _, _, _, _, _, ran, whole ▸ spliced, .inPlace found whole inv.valid one⟩
  · obtain ⟨left, right⟩ := not_or.mp one
    obtain ⟨pre, color', y, r', first, noneBefore, inner⟩ :=
      leftmost_shape (⟨.right, color, z, l⟩ :: fs) r right
    have small : r.size ≤ fuel := by
      have := congrArg (fun s => s.toList.length) whole
      simp only [toList_plug, toList, List.length_append, List.length_cons,
        ← size_eq_length] at this
      omega
    obtain ⟨T', ran, spliced⟩ := rbtreeDelete_two holds left right small first inner
    exact ⟨T', _, color', leaf, r', y.addr, ran, whole ▸ spliced,
      .next found whole inv.valid left right first noneBefore inner⟩

end Plan

end LinuxCpp.Kvstore
