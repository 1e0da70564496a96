import LinuxCpp.Kvstore.RbtreeRotate

set_option autoImplicit false

namespace LinuxCpp.Kvstore

open C RedBlack RedBlack.ColorTree Rbtree

/-- Only cells of the tree differ, and the sentinel is the same. -/
structure Within (T T' : Rbtree) (t : RbTree) : Prop where
  nil : T'.nil = T.nil
  outside : ∀ q, q ∉ addrs t → T'.heap q = T.heap q

namespace Within

theorem refl (T : Rbtree) (t : RbTree) : Within T T t := ⟨rfl, fun _ _ => rfl⟩

theorem trans {T T' T'' : Rbtree} {t t' : RbTree} (first : Within T T' t)
    (second : Within T' T'' t') (same : addrs t' = addrs t) : Within T T'' t :=
  ⟨second.nil.trans first.nil, fun q away =>
    (second.outside q (by rwa [same])).trans (first.outside q away)⟩

end Within

namespace Holds

variable {T T' : Rbtree} {fs : RbPath} {t a b c : RbTree} {d : Dir} {x : RbItem} {color : Color}

/-- The cell of any node, seen from either side. -/
theorem cell (holds : Holds T (plug fs (build d color a x b))) :
    T.heap x.addr =
      some (cellOf d color (ptr T.nil a) (ptr T.nil b) (parentOf T.nil fs) x) :=
  ((rep_build ..).mp ((rep_plug ..).mp holds.rep).2).1

theorem addr_ne_nil (holds : Holds T (plug fs (build d color a x b))) : x.addr ≠ T.nil := by
  intro same
  apply holds.nilFree
  simp [← same]

/-- The cell of the parent of a subtree. -/
theorem parentCell {f : Frame RbItem} (holds : Holds T (plug (f :: fs) t)) :
    T.heap f.item.addr = some (cellOf f.dir f.color (ptr T.nil t) (ptr T.nil f.other)
      (parentOf T.nil fs) f.item) :=
  holds.cell

theorem parent_ne_nil {f : Frame RbItem} (holds : Holds T (plug (f :: fs) t)) :
    f.item.addr ≠ T.nil :=
  holds.addr_ne_nil

/-- The root, when another tree takes the place of a subtree. -/
theorem root_plug (holds : Holds T (plug fs t)) (t' : RbTree) :
    (if parentOf T.nil fs = T.nil then ptr T.nil t' else T.root) = ptr T.nil (plug fs t') := by
  cases fs with
  | nil => exact if_pos rfl
  | cons f rest =>
      rw [parentOf, if_neg holds.parent_ne_nil, holds.root]
      exact ptr_plug_cons T.nil f rest _ _

/-- A rewrite of tree cells that keeps the set of addresses. -/
theorem update {t' : RbTree} (holds : Holds T t) (within : Within T T' t)
    (same : addrs t' = addrs t) (root : T'.root = ptr T.nil t')
    (rep : Rep T'.heap T.nil t' T.nil) (null : T'.heap 0 = none) : Holds T' t' := by
  refine ⟨by rw [root, within.nil], by rw [within.nil]; exact rep, same ▸ holds.distinct, ?_,
    by rw [within.nil, same]; exact holds.nilFree, null⟩
  rw [within.nil, within.outside T.nil holds.nilFree]
  exact holds.sentinel

/-- An address of the tree is mapped, so it is not NULL. -/
theorem mapped (holds : Holds T t) {q : Nat} (member : q ∈ addrs t) : T.heap q ≠ none := by
  have aux : ∀ (t : RbTree) (parent : Nat), Rep T.heap T.nil t parent → q ∈ addrs t →
      T.heap q ≠ none := by
    intro t
    induction t with
    | leaf => intro parent _ member; simp [addrs] at member
    | node color left x right ihl ihr =>
        intro parent rep member
        simp only [addrs, Multiset.mem_cons, Multiset.mem_add] at member
        rcases member with rfl | member | member
        · simp [rep.1]
        · exact ihl _ rep.2.1 member
        · exact ihr _ rep.2.2 member
  exact aux t T.nil holds.rep member

theorem zero_not_mem (holds : Holds T t) : 0 ∉ addrs t :=
  fun member => holds.mapped member holds.null

end Holds

section Rotation

variable {T : Rbtree} {fs : RbPath} {a b c : RbTree} {d : Dir} {colorX colorY : Color}
  {x y : RbItem}

/-- The middle subtree of a rotation stands apart from the rotated nodes. -/
theorem Holds.movable (holds : Holds T (plug fs (build d colorX a x (build d colorY b y c)))) :
    Movable T (ptr T.nil b) x.addr y.addr := by
  rcases ptr_mem_or (t := b) T.nil with rfl | member
  · exact Or.inl rfl
  · have distinct := holds.distinct
    simp only [addrs_plug, addrs_build, Multiset.nodup_add, Multiset.nodup_cons, Multiset.mem_add,
      Multiset.mem_cons, not_or, Multiset.cons_add, Multiset.add_cons] at distinct
    have inTree : ptr T.nil b ∈ addrs (plug fs (build d colorX a x (build d colorY b y c))) := by
      simp [member]
    refine Or.inr ⟨fun same => holds.nilFree (same ▸ inTree), fun same => ?_, fun same => ?_,
      Option.ne_none_iff_exists'.mp (holds.mapped inTree)⟩
    · exact distinct.1.2.1.2.1 (same ▸ member)
    · exact distinct.2.1.1.2.1 (same ▸ member)

/-- The node above a rotation, if there is one, stands apart from it. -/
theorem Holds.above (holds : Holds T (plug fs (build d colorX a x (build d colorY b y c)))) :
    ∃ e color other up item,
      Above T (parentOf T.nil fs) x.addr y.addr (ptr T.nil b) e color other up item ∧
      ∀ f rest, fs = f :: rest → e = f.dir ∧ color = f.color ∧ other = ptr T.nil f.other ∧
        up = parentOf T.nil rest ∧ item = f.item := by
  cases fs with
  | nil => exact ⟨.left, .red, 0, 0, x, Or.inl rfl, by simp⟩
  | cons f rest =>
      refine ⟨f.dir, f.color, ptr T.nil f.other, parentOf T.nil rest, f.item, Or.inr ?_, by
        rintro g gs same
        cases same
        exact ⟨rfl, rfl, rfl, rfl, rfl⟩⟩
      have distinct := holds.distinct
      simp only [addrs_plug, addrs_build, pathAddrs, Multiset.nodup_add, Multiset.nodup_cons,
        Multiset.mem_add, Multiset.mem_cons, Multiset.disjoint_left, not_or, Multiset.cons_add,
        Multiset.add_cons] at distinct
      have notNil := holds.parent_ne_nil
      have xNil := holds.addr_ne_nil
      refine ⟨notNil, fun same => ?_, fun same => ?_, fun same => ?_, fun same => ?_, ?_⟩
      · simp only [parentOf] at same
        grind
      · simp only [parentOf] at same
        grind
      · rcases ptr_mem_or (t := b) T.nil with rfl | member
        · exact notNil same
        · simp only [parentOf] at same
          grind
      · rcases ptr_mem_or (t := f.other) T.nil with empty | member
        · rw [empty] at same
          exact xNil same.symm
        · grind
      · have parent := holds.parentCell
        rwa [ptr_build] at parent

/-- Rotation in the heap is rotation in the tree. -/
theorem rotate_holds (holds : Holds T (plug fs (build d colorX a x (build d colorY b y c)))) :
    ∃ T', rotate d T x.addr = .ok T' ∧
      Holds T' (plug fs (build d colorY (build d colorX a x b) y c)) ∧
      Within T T' (plug fs (build d colorX a x (build d colorY b y c))) := by
  have distinct := holds.distinct
  simp only [addrs_plug, addrs_build, Multiset.nodup_add, Multiset.nodup_cons, Multiset.mem_add,
    Multiset.mem_cons, Multiset.disjoint_left, not_or, Multiset.cons_add, Multiset.add_cons]
    at distinct
  obtain ⟨path, sub⟩ := (rep_plug ..).mp holds.rep
  obtain ⟨atX, repA, repY⟩ := (rep_build ..).mp sub
  obtain ⟨atY, repB, repC⟩ := (rep_build ..).mp repY
  rw [ptr_build] at atX
  obtain ⟨e, color, other, up, item, above, aboveIs⟩ := holds.above
  obtain ⟨T', ran, rotated⟩ := rotate_run atX atY distinct.1.1 holds.movable above
  -- a rotation touches x, y, the root of the middle subtree and the parent
  have quiet : ∀ q, q ≠ x.addr → q ≠ y.addr → (q ∈ addrs b → q ≠ ptr T.nil b) →
      (q ∈ pathAddrs fs → q ≠ parentOf T.nil fs) → T'.heap q = T.heap q := by
    intro q notX notY notB notParent
    refine rotated.frame q notX notY ?_ ?_
    · by_cases member : q ∈ addrs b
      · exact Or.inl (notB member)
      · exact ne_ptr_of_not_mem T.nil member
    · by_cases member : q ∈ pathAddrs fs
      · exact Or.inl (notParent member)
      · exact ne_parentOf_of_not_mem T.nil member
  have within : Within T T' (plug fs (build d colorX a x (build d colorY b y c))) := by
    refine ⟨rotated.nil, fun q away => ?_⟩
    simp only [addrs_plug, addrs_build, Multiset.mem_add, Multiset.mem_cons, not_or] at away
    exact quiet q away.1.1 away.1.2.2.1 (fun member => absurd member away.1.2.2.2.1)
      (fun member => absurd member away.2)
  refine ⟨T', ran, holds.update within ?_ ?_ ?_ ?_, within⟩
  · simp only [addrs_plug, addrs_build, Multiset.cons_add, Multiset.add_cons, Multiset.add_assoc]
    rw [Multiset.cons_swap]
  · have root := holds.root_plug (build d colorY (build d colorX a x b) y c)
    rw [ptr_build] at root
    exact rotated.root.trans root
  · rw [rep_plug, rep_build, rep_build, ptr_build, ptr_build]
    refine ⟨path.redirect ?_ ?_ distinct.2.2.2.1, ⟨rotated.atY, ⟨rotated.atX, ?_, ?_⟩, ?_⟩⟩
    · rintro f rest rfl
      obtain ⟨rfl, rfl, rfl, rfl, rfl⟩ := aboveIs f rest rfl
      exact rotated.atP holds.parent_ne_nil
    · intro q member notParent
      exact quiet q (by grind) (by grind) (by grind) (fun _ => notParent)
    · exact repA.congr fun q member => quiet q (by grind) (by grind) (by grind) (by grind)
    · refine repB.reparent ?_ (fun q member notRoot =>
        quiet q (by grind) (by grind) (fun _ => notRoot) (by grind)) distinct.2.2.1.2.1.1
      rintro color left z right rfl
      have zNil : z.addr ≠ T.nil := fun same => holds.nilFree (by simp [addrs, same])
      exact rotated.atB zNil _ repB.1
    · exact repC.congr fun q member => quiet q (by grind) (by grind) (by grind) (by grind)
  · rw [within.outside 0 holds.zero_not_mem, holds.null]

end Rotation

section Store

variable {T : Rbtree} {fs : RbPath} {t a b : RbTree} {d : Dir} {color : Color} {x : RbItem}

/-- A node may get another colour, key and value; its links stay. -/
theorem store_holds (holds : Holds T (plug fs (build d color a x b))) (color' : Color)
    (x' : RbItem) (same : x'.addr = x.addr) :
    Holds (T.store x.addr (cellOf d color' (ptr T.nil a) (ptr T.nil b) (parentOf T.nil fs) x'))
        (plug fs (build d color' a x' b)) ∧
      Within T
        (T.store x.addr (cellOf d color' (ptr T.nil a) (ptr T.nil b) (parentOf T.nil fs) x'))
        (plug fs (build d color a x b)) := by
  have distinct := holds.distinct
  simp only [addrs_plug, addrs_build, Multiset.nodup_cons, Multiset.mem_add, not_or,
    Multiset.cons_add] at distinct
  obtain ⟨path, sub⟩ := (rep_plug ..).mp holds.rep
  obtain ⟨atX, repA, repB⟩ := (rep_build ..).mp sub
  have within : Within T
      (T.store x.addr (cellOf d color' (ptr T.nil a) (ptr T.nil b) (parentOf T.nil fs) x'))
      (plug fs (build d color a x b)) :=
    ⟨rfl, fun q away => store_ne _ _ (by rintro rfl; exact away (by simp))⟩
  have others : ∀ q, q ≠ x.addr → (T.store x.addr
      (cellOf d color' (ptr T.nil a) (ptr T.nil b) (parentOf T.nil fs) x')).heap q = T.heap q :=
    fun q different => store_ne _ _ different
  refine ⟨holds.update within (by simp [same]) ?_ ?_ ?_, within⟩
  · rw [store_root, holds.root]
    exact ptr_plug_congr T.nil fs (by simp [same])
  · rw [rep_plug, rep_build, ptr_build, same]
    rw [ptr_build] at path
    refine ⟨path.congr fun q member => others q ?_, store_same .., repA.congr fun q member =>
      others q ?_, repB.congr fun q member => others q ?_⟩ <;> rintro rfl
    · exact distinct.1.2 member
    · exact distinct.1.1.1 member
    · exact distinct.1.1.2 member
  · rw [within.outside 0 holds.zero_not_mem, holds.null]

theorem setColor_holds (holds : Holds T (plug fs (build d color a x b))) (color' : Color) :
    ∃ T', T.setColor x.addr color' = .ok T' ∧ Holds T' (plug fs (build d color' a x b)) ∧
      Within T T' (plug fs (build d color a x b)) := by
  refine ⟨_, ?_, store_holds holds color' x rfl⟩
  rw [setColor_of holds.cell, cellOf_setColor]

theorem setRootBlack_holds (holds : Holds T t) (nonempty : t ≠ leaf) :
    ∃ T', T.setColor T.root .black = .ok T' ∧ Holds T' t.blacken ∧ Within T T' t := by
  cases t with
  | leaf => exact absurd rfl nonempty
  | node color left x right =>
      rw [holds.root]
      have whole : Holds T (plug [] (build .left color left x right)) := holds
      exact setColor_holds whole .black

/-- The parent field of the root of a subtree. -/
theorem Holds.parent_root (holds : Holds T (plug fs t)) (nonempty : t ≠ leaf) :
    T.parent (ptr T.nil t) = .ok (parentOf T.nil fs) := by
  cases t with
  | leaf => exact absurd rfl nonempty
  | node color left x right =>
      have cell := holds.cell (d := .left)
      rw [ptr, parent_of cell, cellOf_parent]

/-- The colour read through a pointer, sentinel included. -/
theorem Holds.color_root (holds : Holds T (plug fs t)) :
    T.color (ptr T.nil t) = .ok t.rootColor := by
  cases t with
  | leaf =>
      obtain ⟨n, present, black⟩ := holds.sentinel
      rw [ptr, color_of present, black]
      rfl
  | node color left x right =>
      have cell := holds.cell (d := .left)
      rw [ptr, color_of cell, cellOf_color]
      rfl

/-- The two children of a node are different unless both are the sentinel. -/
theorem Holds.children_ne (holds : Holds T (plug fs (build d color a x b))) (nonempty : a ≠ leaf) :
    ptr T.nil b ≠ ptr T.nil a := by
  have inA : ptr T.nil a ∈ addrs a := (ptr_mem_or T.nil).resolve_left nonempty
  intro same
  rcases ptr_mem_or (t := b) T.nil with empty | inB
  · rw [empty, ptr] at same
    rw [← same] at inA
    exact holds.nilFree (by simp [inA])
  · have distinct := holds.distinct
    simp only [addrs_plug, addrs_build, Multiset.nodup_add, Multiset.nodup_cons,
      Multiset.disjoint_left, Multiset.cons_add] at distinct
    exact distinct.2.1.2.2 inA (same ▸ inB)

end Store

end LinuxCpp.Kvstore
