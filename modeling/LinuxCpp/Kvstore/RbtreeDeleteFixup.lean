import LinuxCpp.Kvstore.RbtreeDel
import LinuxCpp.Kvstore.LoopBound
import LinuxCpp.RedBlack.DeleteRepair

set_option autoImplicit false

/- The deletion repair of kvs_rbtree.c where the parent field of `x` is right,
also when `x` is the sentinel: its cell is in no tree, so no step of the loop
writes to it before the loop ends. -/
namespace LinuxCpp.Kvstore

open C RedBlack RedBlack.ColorTree Rbtree

/-- The engine holds a tree in which `t` stands below the frame `f`, and the
parent field of `t` says so. -/
structure Aimed (T : Rbtree) (f : Frame RbItem) (fs : RbPath) (t : RbTree) : Prop where
  holds : Holds T (plug (f :: fs) t)
  parent : T.parent (ptr T.nil t) = .ok f.item.addr

section Aim

variable {T T' : Rbtree} {f f' : Frame RbItem} {fs fs' : RbPath} {t near far : RbTree} {d : Dir}
  {c color : Color} {p w : RbItem}

/-- The parent field stays right while the same node is the parent. -/
theorem Aimed.step (aimed : Aimed T f fs t) (holds : Holds T' (plug (f' :: fs') t))
    (within : Within T T' (plug (f :: fs) t)) (same : f'.item = f.item) : Aimed T' f' fs' t := by
  refine ⟨holds, ?_⟩
  cases t with
  | leaf =>
      have cell : T'.heap T'.nil = T.heap T.nil := by
        rw [within.nil, within.outside T.nil aimed.holds.nilFree]
      have named := aimed.parent
      simp only [ptr, Rbtree.parent, load] at named ⊢
      rw [cell, within.nil, same]
      exact named
  | node color left x right =>
      rw [holds.parent_root (by simp), parentOf]

theorem Aimed.sibling (aimed : Aimed T f fs t) :
    T.child f.dir.opp f.item.addr = .ok (ptr T.nil f.other) := by
  rw [child_of aimed.holds.parentCell, cellOf_child_opp]

/-- The parent gets another colour. -/
theorem Aimed.colorParent (aimed : Aimed T f fs t) (color : Color) :
    ∃ T', T.setColor f.item.addr color = .ok T' ∧ T'.nil = T.nil ∧
      Aimed T' ⟨f.dir, color, f.item, f.other⟩ fs t := by
  obtain ⟨T', set, holds', within⟩ := setColor_holds
    (show Holds T (plug fs (build f.dir f.color t f.item f.other)) from aimed.holds) color
  exact ⟨T', set, within.nil, aimed.step holds' within rfl⟩

/-- The same tree, seen from a node below the sibling. -/
theorem plug_sibling (gs : RbPath) (s : RbTree) :
    plug (gs ++ ⟨d.opp, c, p, t⟩ :: fs) s = plug (⟨d, c, p, plug gs s⟩ :: fs) t := by
  rw [plug_append]
  exact plug_flip ⟨d, c, p, plug gs s⟩ fs t

/-- A node of the sibling, down a path `gs`, gets another colour. -/
theorem Aimed.colorInSibling (gs : RbPath) {e : Dir} (color' : Color)
    (aimed : Aimed T ⟨d, c, p, plug gs (build e color near w far)⟩ fs t) :
    ∃ T', T.setColor w.addr color' = .ok T' ∧ T'.nil = T.nil ∧
      Aimed T' ⟨d, c, p, plug gs (build e color' near w far)⟩ fs t := by
  have holds := aimed.holds
  rw [← plug_sibling] at holds
  obtain ⟨T', set, holds', within⟩ := setColor_holds holds color'
  rw [plug_sibling] at holds' within
  exact ⟨T', set, within.nil, aimed.step holds' within rfl⟩

/-- The sibling is lifted above the parent. -/
theorem Aimed.rotateParent (aimed : Aimed T ⟨d, c, p, build d color near w far⟩ fs t) :
    ∃ T', rotate d T p.addr = .ok T' ∧ T'.nil = T.nil ∧
      Aimed T' ⟨d, c, p, near⟩ (⟨d, color, w, far⟩ :: fs) t := by
  obtain ⟨T', ran, holds', within⟩ := rotate_holds
    (show Holds T (plug fs (build d c t p (build d color near w far))) from aimed.holds)
  exact ⟨T', ran, within.nil, aimed.step holds' within rfl⟩

/-- The near nephew `v` is lifted above the sibling. -/
theorem Aimed.rotateSibling {left right : RbTree} {color' : Color} {v : RbItem}
    (aimed : Aimed T ⟨d, c, p, build d color (build d color' left v right) w far⟩ fs t) :
    ∃ T', rotate d.opp T w.addr = .ok T' ∧ T'.nil = T.nil ∧
      Aimed T' ⟨d, c, p, build d color' left v (build d color right w far)⟩ fs t := by
  have refocus : ∀ s : RbTree, plug (⟨d.opp, c, p, t⟩ :: fs) s = plug (⟨d, c, p, s⟩ :: fs) t :=
    plug_sibling []
  have holds := aimed.holds
  rw [← refocus, ← build_opp, ← build_opp d color'] at holds
  obtain ⟨T', ran, holds', within⟩ := rotate_holds holds
  rw [build_opp, build_opp, refocus] at holds'
  rw [build_opp, build_opp, refocus] at within
  exact ⟨T', ran, within.nil, aimed.step holds' within rfl⟩

theorem Aimed.inSibling (gs : RbPath) {s : RbTree} (aimed : Aimed T ⟨d, c, p, plug gs s⟩ fs t) :
    Holds T (plug (gs ++ ⟨d.opp, c, p, t⟩ :: fs) s) := by
  rw [plug_sibling]
  exact aimed.holds

/-- The cell of the sibling. -/
theorem Aimed.siblingCell (aimed : Aimed T ⟨d, c, p, build d color near w far⟩ fs t) :
    T.heap w.addr = some (cellOf d color (ptr T.nil near) (ptr T.nil far) p.addr w) :=
  (show Holds T (plug (⟨d.opp, c, p, t⟩ :: fs) (build d color near w far)) from
    Aimed.inSibling [] aimed).cell

/-- The colours of the two nephews, the sentinel included. -/
theorem Aimed.nephews (aimed : Aimed T ⟨d, c, p, build d color near w far⟩ fs t) :
    T.color (ptr T.nil near) = .ok near.rootColor ∧
      T.color (ptr T.nil far) = .ok far.rootColor := by
  have aimed' := aimed
  rw [← build_opp] at aimed'
  exact ⟨(Aimed.inSibling [⟨d, color, w, far⟩] aimed).color_root,
    (Aimed.inSibling [⟨d.opp, color, w, near⟩] aimed').color_root⟩

theorem childrenBlack_aimed (aimed : Aimed T ⟨d, c, p, build d color near w far⟩ fs t) :
    childrenBlack T w.addr =
      .ok (decide (near.rootColor = .black ∧ far.rootColor = .black)) := by
  obtain ⟨nearColor, farColor⟩ := aimed.nephews
  have cell := aimed.siblingCell
  cases d with
  | left =>
      simp only [childrenBlack, child_of cell, ok_bind, cellOf, RbNode.child, nearColor, farColor]
      cases near.rootColor <;> cases far.rootColor <;> rfl
  | right =>
      simp only [childrenBlack, child_of cell, ok_bind, cellOf, RbNode.child, nearColor, farColor]
      cases near.rootColor <;> cases far.rootColor <;> rfl

theorem liftRedSibling_black (x : Nat)
    (aimed : Aimed T ⟨d, c, p, build d .black near w far⟩ fs t) :
    liftRedSibling d T x w.addr = .ok (T, w.addr) := by
  simp only [liftRedSibling, color_of aimed.siblingCell, cellOf_color, ok_bind, reduceCtorEq,
    ↓reduceIte]
  rfl

theorem liftRedSibling_red (aimed : Aimed T ⟨d, .black, p, build d .red near w far⟩ fs t) :
    ∃ T', liftRedSibling d T (ptr T.nil t) w.addr = .ok (T', ptr T.nil near) ∧ T'.nil = T.nil ∧
      Aimed T' ⟨d, .red, p, near⟩ (⟨d, .black, w, far⟩ :: fs) t := by
  obtain ⟨T₁, set₁, nil₁, aimed₁⟩ := Aimed.colorInSibling [] .black aimed
  obtain ⟨T₂, set₂, nil₂, aimed₂⟩ := aimed₁.colorParent .red
  obtain ⟨T₃, ran, nil₃, aimed₃⟩ := aimed₂.rotateParent
  have parent₁ := aimed₁.parent
  have parent₂ := aimed₂.parent
  have parent₃ := aimed₃.parent
  have sibling₃ := aimed₃.sibling
  rw [nil₁] at parent₁
  rw [nil₂, nil₁] at parent₂
  rw [nil₃, nil₂, nil₁] at parent₃ sibling₃
  refine ⟨T₃, ?_, nil₃.trans (nil₂.trans nil₁), aimed₃⟩
  simp only [liftRedSibling, color_of aimed.siblingCell, cellOf_color, ok_bind, ↓reduceIte, set₁,
    parent₁, set₂, parent₂, ran, parent₃, sibling₃]
  rfl

theorem turnSibling_outer (x : Nat)
    (aimed : Aimed T ⟨d, c, p, build d .black near w far⟩ fs t) (farRed : far.rootColor = .red) :
    turnSibling d T x w.addr = .ok (T, w.addr) := by
  simp only [turnSibling, child_of aimed.siblingCell, cellOf_child_opp, ok_bind, aimed.nephews.2,
    farRed, reduceCtorEq, ↓reduceIte]
  rfl

/-- The inner case becomes the outer one. -/
theorem turnSibling_inner {left right : RbTree} {v : RbItem}
    (aimed : Aimed T ⟨d, c, p, build d .black (build d .red left v right) w far⟩ fs t)
    (farBlack : far.rootColor = .black) :
    ∃ T', turnSibling d T (ptr T.nil t) w.addr = .ok (T', v.addr) ∧ T'.nil = T.nil ∧
      Aimed T' ⟨d, c, p, build d .black left v (build d .red right w far)⟩ fs t := by
  obtain ⟨T₁, set₁, nil₁, aimed₁⟩ :=
    Aimed.colorInSibling [⟨d, .black, w, far⟩] .black aimed
  obtain ⟨T₂, set₂, nil₂, aimed₂⟩ := Aimed.colorInSibling [] .red aimed₁
  obtain ⟨T₃, ran, nil₃, aimed₃⟩ := aimed₂.rotateSibling
  have parent₃ := aimed₃.parent
  have sibling₃ := aimed₃.sibling
  rw [nil₃, nil₂, nil₁] at parent₃
  rw [ptr_build] at sibling₃
  refine ⟨T₃, ?_, nil₃.trans (nil₂.trans nil₁), aimed₃⟩
  simp only [turnSibling, child_of aimed.siblingCell, cellOf_child_opp, cellOf_child, ptr_build,
    ok_bind, aimed.nephews.2, farBlack, ↓reduceIte, set₁, set₂, ran, parent₃, sibling₃]
  rfl

end Aim

/-- The last case of a round: the far nephew is red. -/
def spendNephew (d : Dir) (T : Rbtree) (x w : Nat) : Except Fault (Rbtree × Nat) := do
  let T ← T.setColor w (← T.color (← T.parent x))
  let T ← T.setColor (← T.parent x) .black
  let T ← T.setColor (← T.child d.opp w) .black
  let T ← rotate d T (← T.parent x)
  return (T, T.root)

/-- A round once the sibling `w` is black. -/
def belowBlackSibling (d : Dir) (T : Rbtree) (x w : Nat) : Except Fault (Rbtree × Nat) := do
  if ← childrenBlack T w then
    let T ← T.setColor w .red
    return (T, ← T.parent x)
  else
    let (T, w) ← turnSibling d T x w
    spendNephew d T x w

theorem deleteFixupRound_eq (d : Dir) (T : Rbtree) (x : Nat) : deleteFixupRound d T x = (do
    let w ← T.child d.opp (← T.parent x)
    let (T, w) ← liftRedSibling d T x w
    belowBlackSibling d T x w) := rfl

section Round

variable {T : Rbtree} {fs : RbPath} {t near far : RbTree} {d : Dir} {c : Color} {p w : RbItem}

theorem spendNephew_holds (aimed : Aimed T ⟨d, c, p, build d .black near w far⟩ fs t)
    (farRed : far.rootColor = .red) :
    ∃ T', spendNephew d T (ptr T.nil t) w.addr = .ok (T', T'.root) ∧
      Holds T' (plug fs (build d c (build d .black t p near) w far.blacken)) := by
  obtain ⟨l, y, r, isNode⟩ : ∃ l y r, far = build .left .red l y r := by
    cases far with
    | leaf => cases farRed
    | node color l y r =>
        have isRed : color = .red := farRed
        exact ⟨l, y, r, by rw [isRed]; rfl⟩
  subst isNode
  have parentColor : T.color p.addr = .ok c := by
    rw [color_of aimed.holds.parentCell, cellOf_color]
  obtain ⟨T₁, set₁, nil₁, aimed₁⟩ := Aimed.colorInSibling [] c aimed
  obtain ⟨T₂, set₂, nil₂, aimed₂⟩ := aimed₁.colorParent .black
  have farAt := child_of aimed₂.siblingCell d.opp
  have flipped := aimed₂
  simp only [plug_nil] at flipped
  rw [← build_opp] at flipped
  obtain ⟨T₃, set₃, nil₃, aimed₃⟩ :=
    Aimed.colorInSibling [⟨d.opp, c, w, near⟩] .black flipped
  rw [plug_cons, Frame.fill, build_opp] at aimed₃
  obtain ⟨T₄, ran, nil₄, aimed₄⟩ := aimed₃.rotateParent
  have parent₁ := aimed₁.parent
  have parent₃ := aimed₃.parent
  rw [nil₁] at parent₁
  rw [nil₃, nil₂, nil₁] at parent₃
  rw [cellOf_child_opp, ptr_build] at farAt
  refine ⟨T₄, ?_, aimed₄.holds⟩
  simp only [spendNephew, aimed.parent, ok_bind, parentColor, set₁, parent₁, set₂, farAt, set₃,
    parent₃, ran]
  rfl

/-- Below a black sibling a round either moves the defect to the parent or
ends the repair. -/
theorem belowBlackSibling_mends (aimed : Aimed T ⟨d, c, p, build d .black near w far⟩ fs t)
    (black : t.rootColor = .black) :
    (∃ T', belowBlackSibling d T (ptr T.nil t) w.addr = .ok (T', p.addr) ∧
      near.rootColor = .black ∧ far.rootColor = .black ∧
      Holds T' (plug fs (build d c t p (build d .red near w far)))) ∨
    ∃ T' r, belowBlackSibling d T (ptr T.nil t) w.addr = .ok (T', T'.root) ∧ Holds T' r ∧
      Mends (⟨d, c, p, build d .black near w far⟩ :: fs) t r := by
  have children := childrenBlack_aimed aimed
  by_cases nephews : near.rootColor = .black ∧ far.rootColor = .black
  · obtain ⟨T₁, set₁, nil₁, aimed₁⟩ := Aimed.colorInSibling [] .red aimed
    have parent₁ := aimed₁.parent
    rw [nil₁] at parent₁
    refine Or.inl ⟨T₁, ?_, nephews.1, nephews.2, aimed₁.holds⟩
    simp only [belowBlackSibling, children, nephews, ok_bind, and_self, decide_true, ↓reduceIte,
      set₁, parent₁]
    rfl
  · refine Or.inr ?_
    cases farColor : far.rootColor with
    | red =>
        obtain ⟨T', ran, holds'⟩ := spendNephew_holds aimed farColor
        refine ⟨T', _, ?_, holds', .outer black farColor⟩
        simp only [belowBlackSibling, children, farColor, ok_bind, reduceCtorEq, and_false,
          decide_false, Bool.false_eq_true, ↓reduceIte, turnSibling_outer _ aimed farColor, ran]
    | black =>
        obtain ⟨left, v, right, isNode⟩ : ∃ left v right, near = build d .red left v right := by
          cases near with
          | leaf => exact absurd ⟨rfl, farColor⟩ nephews
          | node color l v r =>
              have isRed : color = .red := Color.eq_red fun isBlack => nephews ⟨isBlack, farColor⟩
              obtain ⟨left, right, same⟩ := exists_build d color l v r
              exact ⟨left, v, right, by rw [same, isRed]⟩
        subst isNode
        obtain ⟨T₁, turn, nil₁, aimed₁⟩ := turnSibling_inner aimed farColor
        obtain ⟨T', ran, holds'⟩ := spendNephew_holds aimed₁ (rootColor_build ..)
        rw [blacken_build] at holds'
        rw [nil₁] at ran
        refine ⟨T', _, ?_, holds', .inner black farColor⟩
        simp only [belowBlackSibling, children, rootColor_build, ok_bind, reduceCtorEq, false_and,
          decide_false, Bool.false_eq_true, ↓reduceIte, turn, ran]

theorem deleteFixupRound_black (aimed : Aimed T ⟨d, c, p, build d .black near w far⟩ fs t) :
    deleteFixupRound d T (ptr T.nil t) = belowBlackSibling d T (ptr T.nil t) w.addr := by
  have sibling := aimed.sibling
  rw [ptr_build] at sibling
  simp only [deleteFixupRound_eq, aimed.parent, ok_bind, sibling,
    liftRedSibling_black _ aimed]

/-- A red sibling is lifted, and the round goes on below the near nephew. -/
theorem deleteFixupRound_red {left right : RbTree} {v : RbItem}
    (aimed : Aimed T ⟨d, .black, p, build d .red (build d .black left v right) w far⟩ fs t) :
    ∃ T₁, deleteFixupRound d T (ptr T.nil t) = belowBlackSibling d T₁ (ptr T₁.nil t) v.addr ∧
      Aimed T₁ ⟨d, .red, p, build d .black left v right⟩ (⟨d, .black, w, far⟩ :: fs) t := by
  obtain ⟨T₁, lift, nil₁, aimed₁⟩ := liftRedSibling_red aimed
  have sibling := aimed.sibling
  rw [ptr_build] at sibling lift
  refine ⟨T₁, ?_, aimed₁⟩
  simp only [deleteFixupRound_eq, aimed.parent, ok_bind, sibling, lift, nil₁]

end Round

section Loop

variable {T T₁ : Rbtree} {f : Frame RbItem} {fs : RbPath} {t r near far : RbTree} {x : Nat}
  {d : Dir} {c : Color} {p w : RbItem}

/-- The root of a tree is on the path to any subtree below it. -/
theorem root_mem_pathAddrs (nil : Nat) (f : Frame RbItem) (fs : RbPath) (t : RbTree) :
    ptr nil (plug (f :: fs) t) ∈ pathAddrs (f :: fs) := by
  have nonempty : plug (f :: fs) leaf ≠ leaf := plug_ne_leaf fs (fill_ne_leaf f leaf)
  have member := (ptr_mem_or nil).resolve_left nonempty
  rw [addrs_plug, addrs, zero_add] at member
  rwa [ptr_plug_cons nil f fs t leaf]

/-- A subtree below another node is not the root. -/
theorem Holds.ne_root (holds : Holds T (plug (f :: fs) t)) : ptr T.nil t ≠ T.root := by
  have onPath := root_mem_pathAddrs T.nil f fs t
  rw [holds.root]
  intro same
  rw [← same] at onPath
  rcases ptr_mem_or (t := t) T.nil with empty | inside
  · rw [empty, ptr] at onPath
    exact holds.nilFree (by rw [addrs_plug]; exact Multiset.mem_add.mpr (Or.inr onPath))
  · have distinct := holds.distinct
    rw [addrs_plug, Multiset.nodup_add, Multiset.disjoint_left] at distinct
    exact distinct.2.2 inside onPath

/-- At the root the loop ends, and the root turns black. -/
theorem deleteFixup_exit (fuel : Nat) (holds : Holds T t) :
    ∃ T', rbtreeDeleteFixup (fuel + 1) T T.root = .ok T' ∧ Holds T' t.blacken := by
  cases t with
  | leaf =>
      have whole : Holds T (plug [] leaf) := holds
      obtain ⟨T', ran, holds', -⟩ := deleteFixup_recolor fuel whole (by simp) fun _ => rfl
      exact ⟨T', by rw [holds.root]; exact ran, holds'⟩
  | node color left item right =>
      obtain ⟨T', set, holds', -⟩ := setRootBlack_holds holds (by simp)
      exact ⟨T', by simp only [rbtreeDeleteFixup, ↓reduceIte, set], holds'⟩

/-- A black node below another one is given a round, on its own side. -/
theorem deleteFixup_continue (fuel : Nat) (aimed : Aimed T f fs t) (black : t.rootColor = .black)
    (sibling : f.other ≠ leaf) (round : deleteFixupRound f.dir T (ptr T.nil t) = .ok (T₁, x)) :
    rbtreeDeleteFixup (fuel + 1) T (ptr T.nil t) = rbtreeDeleteFixup fuel T₁ x := by
  have cell := aimed.holds.parentCell
  have different : ptr T.nil t ≠ ptr T.nil f.other := by
    have flipped := aimed.holds
    rw [← plug_flip] at flipped
    exact Holds.children_ne (show Holds T (plug fs (build f.dir.opp f.color f.other f.item t)) from
      flipped) sibling
  obtain ⟨side, left, isDir⟩ : ∃ side, T.child .left f.item.addr = .ok side ∧
      (if ptr T.nil t = side then Dir.left else Dir.right) = f.dir := by
    refine ⟨_, child_of cell .left, ?_⟩
    cases dir : f.dir with
    | left => simp [cellOf, RbNode.child]
    | right => simp [cellOf, RbNode.child, different]
  simp only [rbtreeDeleteFixup, aimed.holds.ne_root, ↓reduceIte, aimed.holds.color_root, black,
    ok_bind, aimed.parent, left, isDir, round]

/-- After a round that ends the repair, the loop ends at the root. -/
theorem deleteFixup_done (fuel : Nat) (aimed : Aimed T f fs t) (black : t.rootColor = .black)
    (sibling : f.other ≠ leaf)
    (round : deleteFixupRound f.dir T (ptr T.nil t) = .ok (T₁, T₁.root)) (holds₁ : Holds T₁ r)
    (valid : r.Valid) :
    ∃ T', rbtreeDeleteFixup (fuel + 2) T (ptr T.nil t) = .ok T' ∧ Holds T' r := by
  obtain ⟨T', ran, holds'⟩ := deleteFixup_exit fuel holds₁
  rw [blacken_of_valid valid] at holds'
  exact ⟨T', by rw [deleteFixup_continue _ aimed black sibling round, ran], holds'⟩

/-- Where the sibling is red, no more than one round follows. -/
theorem deleteFixup_redSibling (fuel : Nat)
    (aimed : Aimed T ⟨d, c, p, build d .red near w far⟩ fs t) (black : t.rootColor = .black)
    (short : ShortAt (⟨d, c, p, build d .red near w far⟩ :: fs) t) :
    ∃ T' r, rbtreeDeleteFixup (fuel + 2) T (ptr T.nil t) = .ok T' ∧ Holds T' r ∧
      Mends (⟨d, c, p, build d .red near w far⟩ :: fs) t r := by
  obtain rfl : c = .black := short.parent_black (rootColor_build ..)
  have nearBlack : near.rootColor = .black := (short.lift.path.1 rfl).1
  obtain ⟨_, _, _, nephewColor, left, v, right, same⟩ := short.lift.sibling
  cases same
  obtain rfl : nephewColor = .black := by rwa [rootColor_build] at nearBlack
  have nonempty := fill_ne_leaf ⟨d, .red, w, far⟩ (build d .black left v right)
  obtain ⟨T₁, round, aimed₁⟩ := deleteFixupRound_red aimed
  rcases belowBlackSibling_mends aimed₁ black with
    ⟨T₂, ran, leftBlack, rightBlack, holds₂⟩ | ⟨T₂, r, ran, holds₂, mends⟩
  · -- the parent is red now, and the loop ends with it
    obtain ⟨T', loop, holds', -⟩ := deleteFixup_recolor fuel holds₂
      (fun _ => rootColor_build ..)
      (fun empty => absurd empty (fill_ne_leaf ⟨d, .red, p, _⟩ t))
    rw [ptr_build] at loop
    refine ⟨T', _, ?_, holds',
      .lift (.shift black leftBlack rightBlack (.red (rootColor_build ..)))⟩
    rw [← loop]
    exact deleteFixup_continue _ aimed black nonempty (round.trans ran)
  · obtain ⟨T', loop, holds'⟩ := deleteFixup_done fuel aimed black nonempty
      (round.trans ran) holds₂ (mends.valid short.lift)
    exact ⟨T', r, loop, holds', .lift mends⟩

/-- The repair loop of the source ends, with a tree the repair may end with. -/
theorem rbtreeDeleteFixup_mends (fs : RbPath) (t : RbTree) {T : Rbtree}
    (holds : Holds T (plug fs t))
    (named : ∀ f rest, fs = f :: rest → T.parent (ptr T.nil t) = .ok f.item.addr)
    (short : ShortAt fs t) :
    ∃ T' r, rbtreeDeleteFixup (fs.length + 2) T (ptr T.nil t) = .ok T' ∧ Holds T' r ∧
      Mends fs t r := by
  induction fs generalizing t T with
  | nil =>
      obtain ⟨T', ran, holds'⟩ := deleteFixup_exit 1 holds
      exact ⟨T', _, by rw [← show T.root = ptr T.nil t from holds.root]; exact ran, holds', .root⟩
  | cons f fs ih =>
      cases color : t.rootColor with
      | red =>
          obtain ⟨T', ran, holds', -⟩ := deleteFixup_recolor (fs.length + 2) holds
            (fun _ => color) (by rintro rfl; cases color)
          exact ⟨T', _, ran, holds', .red color⟩
      | black =>
          obtain ⟨d, c, p, siblingColor, near, w, far, rfl⟩ := short.sibling
          have aimed := Aimed.mk holds (named _ _ rfl)
          have nonempty := fill_ne_leaf ⟨d, siblingColor, w, far⟩ near
          cases siblingColor with
          | black =>
              have round := deleteFixupRound_black aimed
              rcases belowBlackSibling_mends aimed color with
                ⟨T₁, ran, nearBlack, farBlack, holds₁⟩ | ⟨T₁, r, ran, holds₁, mends⟩
              · -- the parent takes the place of x
                have parent := holds₁.parent_root (fill_ne_leaf ⟨d, c, p, _⟩ t)
                obtain ⟨T', r, loop, holds', mends⟩ := ih _ holds₁
                  (by rintro g rest rfl; exact parent) (short.shift color nearBlack farBlack)
                refine ⟨T', r, ?_, holds', .shift color nearBlack farBlack mends⟩
                rw [ptr_build] at loop
                rw [← loop]
                exact deleteFixup_continue _ aimed color nonempty (round.trans ran)
              · obtain ⟨T', loop, holds'⟩ := deleteFixup_done (fs.length + 1) aimed color nonempty
                  (round.trans ran) holds₁ (mends.valid short)
                exact ⟨T', r, loop, holds', mends⟩
          | red => exact deleteFixup_redSibling (fs.length + 1) aimed color short

end Loop

/-- Where one subtree is a black node short and the parent field of its root,
the sentinel included, is right, `rbtree_delete_fixup` ends with a red-black
tree of the same items in the same order. -/
theorem rbtreeDeleteFixup_restores (T : Rbtree) (fs : RbPath) (t : RbTree)
    (holds : Holds T (plug fs t)) (short : ShortAt fs t)
    (named : ∀ f rest, fs = f :: rest → T.parent (ptr T.nil t) = .ok f.item.addr) :
    ∃ T' r, (∀ fuel, fs.length + 2 ≤ fuel → rbtreeDeleteFixup fuel T (ptr T.nil t) = .ok T') ∧
      Holds T' r ∧ r.Valid ∧ r.toList = (plug fs t).toList := by
  obtain ⟨T', r, ran, holds', mends⟩ := rbtreeDeleteFixup_mends fs t holds named short
  exact ⟨T', r, fun fuel enough => (rbtreeDeleteFixup_extends _ enough).of_ok T' ran, holds',
    mends.valid short, mends.toList⟩

/-- The path to the left of a black root `m`, whose right child `n` is black. -/
def unlinkedPath : RbPath :=
  [⟨.left, .black, ⟨3, 7, ⟨[109], by decide⟩, 8, ⟨[55], by decide⟩⟩,
    node .black leaf ⟨4, 9, ⟨[110], by decide⟩, 10, ⟨[56], by decide⟩⟩ leaf⟩]

/-- The heap once a black leaf on the left of `m` is unlinked, where the
sentinel names the parent. -/
def unlinkedHeap : Rbtree :=
  ⟨3, 1, fun a => match a with
    | 1 => some ⟨.black, 0, 0, 3, .null, .null⟩
    | 3 => some ⟨.black, 4, 1, 1, .live 7 ⟨[109], by decide⟩, .live 8 ⟨[55], by decide⟩⟩
    | 4 => some ⟨.black, 1, 1, 3, .live 9 ⟨[110], by decide⟩, .live 10 ⟨[56], by decide⟩⟩
    | _ => none⟩

theorem unlinkedHeap_short : Holds unlinkedHeap (plug unlinkedPath leaf) ∧
    ShortAt unlinkedPath (leaf : RbTree) := by
  refine ⟨⟨rfl, ⟨rfl, trivial, rfl, trivial, trivial⟩, ?_, ⟨_, rfl, rfl⟩, ?_, rfl⟩, trivial,
    ⟨by simp, ⟨by simp, trivial, trivial⟩, trivial⟩, 0, rfl, ⟨0, rfl, rfl, rfl⟩,
    trivial⟩
  · simp [unlinkedPath, plug, Frame.fill, build, addrs]
  · simp [unlinkedPath, plug, Frame.fill, build, addrs, unlinkedHeap]

/-- The deletion of a black leaf is repaired when the sentinel names its
parent. -/
theorem rbtreeDeleteFixup_restores_unlinked :
    (Holds unlinkedHeap (plug unlinkedPath leaf) ∧ ShortAt unlinkedPath (leaf : RbTree)) ∧
      ∃ T' r, (∀ fuel, 3 ≤ fuel → rbtreeDeleteFixup fuel unlinkedHeap 1 = .ok T') ∧
        Holds T' r ∧ r.Valid ∧ r.toList = (plug unlinkedPath leaf).toList :=
  ⟨unlinkedHeap_short, rbtreeDeleteFixup_restores unlinkedHeap unlinkedPath leaf
    unlinkedHeap_short.1 unlinkedHeap_short.2 (by rintro f rest same; cases same; rfl)⟩

end LinuxCpp.Kvstore
