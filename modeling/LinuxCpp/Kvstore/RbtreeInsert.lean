import LinuxCpp.Kvstore.RbtreeTurn
import LinuxCpp.RedBlack.InsertRepair
import Mathlib.Algebra.Order.Group.Multiset
import Mathlib.Tactic.Abel

set_option autoImplicit false

namespace LinuxCpp.Kvstore

open C RedBlack RedBlack.ColorTree Rbtree

theorem fill_ne_leaf (f : Frame RbItem) (t : RbTree) : f.fill t ≠ leaf := by
  unfold Frame.fill
  cases f.dir <;> simp [build]

theorem plug_ne_leaf (fs : RbPath) {t : RbTree} (nonempty : t ≠ leaf) : plug fs t ≠ leaf := by
  induction fs generalizing t with
  | nil => exact nonempty
  | cons f fs ih => exact ih (fill_ne_leaf f t)

/-- The addresses of a tree are those of its in-order sequence. -/
theorem addrs_eq_coe (t : RbTree) :
    addrs t = ((t.toList.map RbItem.addr : List Nat) : Multiset Nat) := by
  induction t with
  | leaf => rfl
  | node color left x right ihl ihr =>
      rw [addrs, ihl, ihr, toList, List.map_append, List.map_cons, ← Multiset.coe_add,
        ← Multiset.cons_coe, Multiset.add_cons]

theorem addrs_congr {t t' : RbTree} (same : t.toList = t'.toList) : addrs t = addrs t' := by
  rw [addrs_eq_coe, addrs_eq_coe, same]

section Round

variable {T : Rbtree} {fs : RbPath} {f g : Frame RbItem} {t : RbTree}

/-- The loop ends below a black parent, or at the root. -/
theorem insertFixup_exit (fuel : Nat) (holds : Holds T (plug fs t)) (nonempty : t ≠ leaf)
    (exit : fs = [] ∨ BlackParent fs) :
    ∃ T', rbtreeInsertFixup (fuel + 1) T (ptr T.nil t) = .ok T' ∧
      Holds T' (plug fs t).blacken ∧ Within T T' (plug fs t) := by
  have black : T.color (parentOf T.nil fs) = .ok .black := by
    rcases exit with rfl | ⟨f, rest, rfl, black⟩
    · obtain ⟨n, present, black⟩ := holds.sentinel
      rw [parentOf, color_of present, black]
    · rw [parentOf, color_of holds.parentCell, cellOf_color, black]
  obtain ⟨T', set, result⟩ := setRootBlack_holds holds (plug_ne_leaf fs nonempty)
  refine ⟨T', ?_, result⟩
  simp only [rbtreeInsertFixup, holds.parent_root nonempty, ok_bind, black, reduceCtorEq,
    ↓reduceIte, set]

/-- Parent and grandparent as the source reads them. -/
theorem Holds.parents (holds : Holds T (plug (f :: g :: fs) t)) (nonempty : t ≠ leaf) :
    T.parent (ptr T.nil t) = .ok f.item.addr ∧ T.parent f.item.addr = .ok g.item.addr := by
  refine ⟨holds.parent_root nonempty, ?_⟩
  have above := (show Holds T (plug (g :: fs) (f.fill t)) from holds).parent_root
    (fill_ne_leaf f t)
  rwa [ptr_fill] at above

theorem Holds.uncle (holds : Holds T (plug (f :: g :: fs) t)) :
    T.child g.dir.opp g.item.addr = .ok (ptr T.nil g.other) ∧
      T.color (ptr T.nil g.other) = .ok g.other.rootColor := by
  have above : Holds T (plug (g :: fs) (f.fill t)) := holds
  refine ⟨by rw [child_of above.parentCell, cellOf_child_opp], ?_⟩
  rw [← plug_flip] at above
  exact above.color_root

/-- A round of the loop below a red parent. -/
theorem insertFixup_continue {fuel z : Nat} {T₁ : Rbtree} (holds : Holds T (plug (f :: g :: fs) t))
    (nonempty : t ≠ leaf) (red : f.color = .red)
    (round : insertFixupRound g.dir T (ptr T.nil t) = .ok (T₁, z)) :
    rbtreeInsertFixup (fuel + 1) T (ptr T.nil t) = rbtreeInsertFixup fuel T₁ z := by
  have parents := holds.parents nonempty
  have parentRed : T.color f.item.addr = .ok .red := by
    rw [color_of holds.parentCell, cellOf_color, red]
  have above : Holds T (plug (g :: fs) (f.fill t)) := holds
  obtain ⟨side, left, isDir⟩ : ∃ side, T.child .left g.item.addr = .ok side ∧
      (if f.item.addr = side then Dir.left else Dir.right) = g.dir := by
    have cell := above.parentCell
    have different := Holds.children_ne (show Holds T (plug fs
      (build g.dir g.color (f.fill t) g.item g.other)) from above) (fill_ne_leaf f t)
    rw [ptr_fill] at cell different
    refine ⟨_, child_of cell .left, ?_⟩
    cases side : g.dir with
    | left => simp [cellOf, RbNode.child]
    | right => simp [cellOf, RbNode.child, different.symm]
  simp only [rbtreeInsertFixup, parents.1, parents.2, ok_bind, parentRed, ↓reduceIte, left, isDir,
    round]

/-- Red uncle: three colours change and the repair moves up to the grandparent. -/
theorem insertFixupRound_recolor (holds : Holds T (plug (f :: g :: fs) t)) (nonempty : t ≠ leaf)
    (uncle : g.other.rootColor = .red) :
    ∃ T', insertFixupRound g.dir T (ptr T.nil t) = .ok (T', g.item.addr) ∧
      Holds T' (plug fs (recolor f g t)) ∧ Within T T' (plug (f :: g :: fs) t) := by
  obtain ⟨ul, u, ur, isNode⟩ : ∃ ul u ur, g.other = node .red ul u ur := by
    cases shape : g.other with
    | leaf => rw [shape] at uncle; cases uncle
    | node color ul u ur =>
        rw [shape] at uncle
        have : color = .red := uncle
        exact ⟨ul, u, ur, by rw [this]⟩
  -- z->parent->color = BLACK
  obtain ⟨T₁, set₁, holds₁, within₁⟩ := setColor_holds (d := f.dir) holds .black
  -- y->color = BLACK
  have refocus : Holds T₁ (plug (g.flip (({ f with color := .black } : Frame RbItem).fill t) :: fs)
      (build .left .red ul u ur)) := by
    have flipped := holds₁
    rwa [← plug_flip, isNode] at flipped
  obtain ⟨T₂, set₂, holds₂, within₂⟩ := setColor_holds refocus .black
  have holds₂' : Holds T₂ (plug ({ f with color := .black } ::
      { g with other := build .left .black ul u ur } :: fs) t) := by
    rw [plug_cons, ← plug_flip]
    exact holds₂
  -- z->parent->parent->color = RED
  obtain ⟨T₃, set₃, holds₃, within₃⟩ := setColor_holds (d := g.dir) (x := g.item)
    (a := ({ f with color := .black } : Frame RbItem).fill t)
    (b := build .left .black ul u ur) holds₂' .red
  have holds₃' : Holds T₃ (plug ({ f with color := .black } ::
      { g with color := .red, other := build .left .black ul u ur } :: fs) t) := holds₃
  have nil₂ : T₂.nil = T.nil := within₂.nil.trans within₁.nil
  have nil₃ : T₃.nil = T.nil := within₃.nil.trans nil₂
  have parents := holds.parents nonempty
  have parents₂ := holds₂'.parents nonempty
  have parents₃ := holds₃'.parents nonempty
  rw [nil₂] at parents₂
  rw [nil₃] at parents₃
  have uncleAt : ptr T.nil g.other = u.addr := by rw [isNode]; rfl
  have uncleRed : T.color u.addr = .ok .red := by rw [← uncleAt, holds.uncle.2, uncle]
  refine ⟨T₃, ?_, ?_, ?_⟩
  · simp only [insertFixupRound, parents.1, parents.2, ok_bind, holds.uncle.1, uncleAt, uncleRed,
      ↓reduceIte, set₁, set₂, parents₂.1, parents₂.2, set₃, parents₃.1, parents₃.2]
    rfl
  · rw [recolor, isNode]
    exact holds₃
  · have back : plug (g.flip (({ f with color := .black } : Frame RbItem).fill t) :: fs)
        (build .left .red ul u ur) = plug (g :: fs)
          (({ f with color := .black } : Frame RbItem).fill t) := by
      rw [← plug_flip g, isNode]
      rfl
    rw [back] at within₂
    refine within₁.trans (within₂.trans within₃ ?_) ?_
    · simp [pathAddrs, isNode, addrs, Multiset.add_assoc]
    · simp

/-- Black uncle, once the node is an outer grandchild: parent and grandparent
change colours and trade places. -/
theorem insertFixupRound_outer {T₁ : Rbtree} {z : Nat} {near far : RbTree} {p : RbItem}
    {color : Color} (uncle : T.child g.dir.opp g.item.addr = .ok (ptr T.nil g.other))
    (parents : T.parent z = .ok f.item.addr ∧ T.parent f.item.addr = .ok g.item.addr)
    (black : T.color (ptr T.nil g.other) = .ok .black) (nonempty : near ≠ leaf)
    (turn : turnInner g.dir T z = .ok (T₁, ptr T₁.nil near))
    (holds : Holds T₁ (plug (g :: fs) (build g.dir color near p far))) :
    ∃ T', insertFixupRound g.dir T z = .ok (T', ptr T₁.nil near) ∧
      Holds T' (plug fs (build g.dir .black near p (build g.dir .red far g.item g.other))) ∧
      Within T₁ T' (plug (g :: fs) (build g.dir color near p far)) := by
  -- z->parent->color = BLACK
  obtain ⟨T₂, set₂, holds₂, within₂⟩ := setColor_holds holds .black
  -- z->parent->parent->color = RED
  obtain ⟨T₃, set₃, holds₃, within₃⟩ := setColor_holds (d := g.dir) (x := g.item)
    (b := g.other) holds₂ .red
  have parents₁ := (show Holds T₁ (plug (⟨g.dir, color, p, far⟩ :: g :: fs) near) from
    holds).parents nonempty
  have parents₂ := (show Holds T₂ (plug (⟨g.dir, .black, p, far⟩ :: g :: fs) near) from
    holds₂).parents nonempty
  have parents₃ := (show Holds T₃ (plug (⟨g.dir, .black, p, far⟩ :: { g with color := .red } :: fs)
    near) from holds₃).parents nonempty
  rw [within₂.nil] at parents₂
  rw [within₃.nil, within₂.nil] at parents₃
  rw [← build_opp, ← build_opp g.dir .black] at holds₃
  obtain ⟨T', ran, holds', within'⟩ := rotate_holds holds₃
  refine ⟨T', ?_, ?_, ?_⟩
  · simp only [insertFixupRound, parents.1, parents.2, ok_bind, uncle, black, reduceCtorEq,
      ↓reduceIte, turn, parents₁.1, set₂, parents₂.1, parents₂.2, set₃, parents₃.1, parents₃.2, ran]
    rfl
  · rw [build_opp, build_opp] at holds'
    exact holds'
  · refine within₂.trans (within₃.trans within' ?_) ?_
    · simp [build_opp]
    · simp [pathAddrs, Multiset.add_assoc]

theorem turnInner_outer (holds : Holds T (plug (f :: g :: fs) t)) (nonempty : t ≠ leaf)
    (outer : f.dir = g.dir) : turnInner g.dir T (ptr T.nil t) = .ok (T, ptr T.nil t) := by
  have sibling : T.child g.dir.opp f.item.addr = .ok (ptr T.nil f.other) := by
    rw [child_of holds.parentCell, ← outer, cellOf_child_opp]
  have different : ptr T.nil t ≠ ptr T.nil f.other :=
    (Holds.children_ne (show Holds T (plug (g :: fs) (build f.dir f.color t f.item f.other)) from
      holds) nonempty).symm
  simp only [turnInner, (holds.parents nonempty).1, ok_bind, sibling, different, ↓reduceIte]
  rfl

theorem turnInner_inner {near far : RbTree} {z : RbItem} {color : Color}
    (holds : Holds T (plug (f :: g :: fs) (build g.dir color near z far)))
    (inner : f.dir = g.dir.opp) :
    ∃ T', turnInner g.dir T z.addr = .ok (T', f.item.addr) ∧
      Holds T' (plug (g :: fs)
        (build g.dir color (build g.dir f.color f.other f.item near) z far)) ∧
      Within T T' (plug (f :: g :: fs) (build g.dir color near z far)) := by
  have nonempty : build g.dir color near z far ≠ leaf := fill_ne_leaf ⟨g.dir, color, z, far⟩ near
  have self : T.child g.dir.opp f.item.addr = .ok z.addr := by
    rw [child_of holds.parentCell, ← inner, cellOf_child, ptr_build]
  have parents := holds.parents nonempty
  rw [ptr_build] at parents
  rw [plug_cons, Frame.fill, inner, build_opp] at holds
  obtain ⟨T', ran, holds', within⟩ := rotate_holds holds
  refine ⟨T', ?_, holds', ?_⟩
  · simp only [turnInner, parents.1, ok_bind, self, ↓reduceIte, ran]
    rfl
  · rwa [plug_cons, Frame.fill, inner, build_opp]

/-- Black uncle: the round is the one or two rotations of `straighten`, and the
loop variable ends below a black node. -/
theorem insertFixupRound_straighten (holds : Holds T (plug (f :: g :: fs) t))
    (nonempty : t ≠ leaf) (red : f.color = .red) (redRoot : t.rootColor = .red)
    (uncle : g.other.rootColor ≠ .red) :
    ∃ T' h s, insertFixupRound g.dir T (ptr T.nil t) = .ok (T', ptr T.nil s) ∧ s ≠ leaf ∧
      h.color = .black ∧ h.fill s = straighten f g t ∧ Holds T' (plug (h :: fs) s) ∧
      Within T T' (plug (f :: g :: fs) t) := by
  have black : T.color (ptr T.nil g.other) = .ok .black := by
    rw [holds.uncle.2, Color.eq_black uncle]
  rcases Dir.eq_or_opp g.dir f.dir with outer | inner
  · obtain ⟨T', ran, holds', within⟩ := insertFixupRound_outer
      (p := f.item) holds.uncle.1 (holds.parents nonempty) black nonempty
      (turnInner_outer holds nonempty outer) (by rw [← outer]; exact holds)
    refine ⟨T', ⟨g.dir, .black, f.item, build g.dir .red f.other g.item g.other⟩, t, ran, nonempty,
      rfl, (straighten_outer f g t outer).symm, holds', ?_⟩
    rwa [plug_cons, Frame.fill, outer]
  · cases t with
    | leaf => exact absurd rfl nonempty
    | node color left item right =>
        have isRed : color = .red := redRoot
        subst isRed
        obtain ⟨near, far, shape⟩ := exists_build g.dir .red left item right
        have parents := holds.parents nonempty
        have uncleAt := holds.uncle.1
        rw [shape] at holds parents ⊢
        obtain ⟨T₁, turn, holds₁, within₁⟩ := turnInner_inner holds inner
        have notLeaf : build g.dir .red f.other f.item near ≠ leaf :=
          fill_ne_leaf ⟨g.dir, .red, f.item, near⟩ f.other
        rw [red] at holds₁
        rw [ptr_build] at parents ⊢
        obtain ⟨T', ran, holds', within'⟩ := insertFixupRound_outer uncleAt parents black notLeaf
          (by rw [ptr_build]; exact turn) holds₁
        refine ⟨T', ⟨g.dir, .black, item, build g.dir .red far g.item g.other⟩, _,
          by rw [ran, within₁.nil], notLeaf, rfl,
          (straighten_inner f g .red near far item inner).symm, holds', within₁.trans within' ?_⟩
        simp only [addrs_plug, addrs_build, pathAddrs, ← Multiset.singleton_add]
        abel

end Round

/-- The repair loop of the source computes `repairInsert`. -/
theorem rbtreeInsertFixup_holds (fs : RbPath) (t : RbTree) {T : Rbtree} {fuel : Nat}
    (holds : Holds T (plug fs t)) (at_ : RedAt fs t) (enough : fs.length + 2 ≤ fuel) :
    ∃ T', rbtreeInsertFixup fuel T (ptr T.nil t) = .ok T' ∧
      Holds T' (repairInsert fs t) ∧ Within T T' (plug fs t) := by
  induction fs, t using repairInsert.induct generalizing T fuel with
  | case1 t =>
      obtain ⟨fuel, rfl⟩ := Nat.exists_eq_add_of_lt enough
      exact insertFixup_exit _ holds at_.ne_leaf (Or.inl rfl)
  | case2 f t =>
      obtain ⟨fuel, rfl⟩ := Nat.exists_eq_add_of_lt enough
      exact insertFixup_exit _ holds at_.ne_leaf (Or.inr ⟨f, [], rfl, at_.parent_black⟩)
  | case3 f g fs t black =>
      rw [repairInsert, if_pos black]
      obtain ⟨fuel, rfl⟩ := Nat.exists_eq_add_of_lt enough
      exact insertFixup_exit _ holds at_.ne_leaf (Or.inr ⟨f, g :: fs, rfl, black⟩)
  | case4 f g fs t notBlack uncle ih =>
      have red : f.color = .red := Color.eq_red notBlack
      obtain ⟨fuel, rfl⟩ := Nat.exists_eq_add_of_lt enough
      obtain ⟨T₁, round, holds₁, within₁⟩ := insertFixupRound_recolor holds at_.ne_leaf uncle
      have at₁ := at_.recolor red uncle
      obtain ⟨T', loop, holds', within'⟩ := ih holds₁ at₁
        (show fs.length + 2 ≤ (f :: g :: fs).length + 1 + fuel by
          simp only [List.length_cons]
          omega)
      rw [repairInsert, if_neg notBlack, if_pos uncle]
      refine ⟨T', ?_, holds', within₁.trans within' ?_⟩
      · rw [insertFixup_continue holds at_.ne_leaf red round, ← loop, recolor, ptr_build]
      · exact addrs_congr (by simp [toList_plug, toList_recolor, before, after])
  | case5 f g fs t notBlack uncle =>
      have red : f.color = .red := Color.eq_red notBlack
      obtain ⟨fuel, rfl⟩ := Nat.exists_eq_add_of_lt enough
      obtain ⟨T₁, h, s, round, nonempty, black, shape, holds₁, within₁⟩ :=
        insertFixupRound_straighten holds at_.ne_leaf red at_.red uncle
      obtain ⟨T', loop, holds', within'⟩ := insertFixup_exit (fs.length + 2 + fuel)
        holds₁ nonempty (Or.inr ⟨h, fs, rfl, black⟩)
      rw [repairInsert, if_neg notBlack, if_neg uncle, ← shape]
      refine ⟨T', ?_, holds', within₁.trans within' ?_⟩
      · rw [within₁.nil] at loop
        rw [insertFixup_continue holds at_.ne_leaf red round, ← loop]
        congr 1
        simp only [List.length_cons]
        omega
      · rw [plug_cons, shape]
        exact addrs_congr
          (by simp [toList_plug, toList_straighten f g t at_.ne_leaf, before, after])

end LinuxCpp.Kvstore
