import LinuxCpp.Kvstore.RbtreeSet
import LinuxCpp.RedBlack.Splice

set_option autoImplicit false

namespace LinuxCpp.Kvstore

open C RedBlack RedBlack.ColorTree Rbtree

section Choice

variable {T : Rbtree} {fs : RbPath} {t l r : RbTree} {color : Color} {y z : RbItem}

theorem onlyChild_holds (holds : Holds T (plug fs (node color l y r))) :
    onlyChild T y.addr = .ok (ptr T.nil (join l r)) := by
  have cell := holds.cell (d := .left)
  have left := (show Holds T (plug (⟨.left, color, y, r⟩ :: fs) l) from holds).ptr_eq_nil_iff
  have right := (show Holds T (plug (⟨.right, color, y, l⟩ :: fs) r) from holds).ptr_eq_nil_iff
  simp only [onlyChild, child_of cell, ok_bind, cellOf, RbNode.child, ne_eq, left, right]
  cases l with
  | leaf =>
      cases r with
      | leaf => rfl
      | node c l' x r' => rfl
  | node c l' x r' => rfl

/-- `rbtree_mini` walks to the first node of a subtree. -/
theorem extremum_left_holds (fs : RbPath) (t : RbTree) {fuel : Nat} (holds : Holds T (plug fs t))
    (nonempty : t ≠ leaf) (enough : t.size ≤ fuel) :
    extremum .left T fuel (ptr T.nil t) = .ok (ptr T.nil (leftmost fs t).2) := by
  induction fs, t using leftmost.induct generalizing fuel with
  | case1 fs => exact absurd rfl nonempty
  | case2 fs color x right =>
      obtain ⟨fuel, rfl⟩ : ∃ m, fuel = m + 1 := ⟨fuel - 1, by simp only [size] at enough; omega⟩
      have cell := holds.cell (d := .left)
      simp only [extremum, ptr, child_of cell, ok_bind, cellOf_child, leftmost, ne_eq,
        not_true_eq_false, ↓reduceIte]
      rfl
  | case3 fs color color' left' x' right' x right ih =>
      obtain ⟨fuel, rfl⟩ : ∃ m, fuel = m + 1 := ⟨fuel - 1, by simp only [size] at enough; omega⟩
      have cell := holds.cell (d := .left)
      have inner : Holds T (plug (⟨.left, color, x, right⟩ :: fs)
        (node color' left' x' right')) := holds
      have notNil : x'.addr ≠ T.nil := inner.addr_ne_nil (d := .left)
      have rest := ih inner (by simp)
        (show (node color' left' x' right').size ≤ fuel by simp only [size] at enough ⊢; omega)
      simp only [ptr] at rest cell
      simp only [extremum, ptr, child_of cell, ok_bind, cellOf_child, notNil, ne_eq,
        not_false_eq_true, ↓reduceIte, rest, leftmost]

theorem splicedNode_one (holds : Holds T (plug fs (node color l z r)))
    (one : l = leaf ∨ r = leaf) (fuel : Nat) : splicedNode fuel T z.addr = .ok z.addr := by
  have cell := holds.cell (d := .left)
  have left := (show Holds T (plug (⟨.left, color, z, r⟩ :: fs) l) from holds).ptr_eq_nil_iff
  have right := (show Holds T (plug (⟨.right, color, z, l⟩ :: fs) r) from holds).ptr_eq_nil_iff
  simp only [splicedNode, child_of cell, ok_bind, cellOf, RbNode.child, left, right]
  rcases one with rfl | rfl
  · rfl
  · split <;> rfl

theorem splicedNode_two (holds : Holds T (plug fs (node color l z r))) (left : l ≠ leaf)
    (right : r ≠ leaf) {fuel : Nat} (enough : r.size ≤ fuel) :
    splicedNode fuel T z.addr =
      .ok (ptr T.nil (leftmost (⟨.right, color, z, l⟩ :: fs) r).2) := by
  have cell := holds.cell (d := .left)
  have atLeft : Holds T (plug (⟨.left, color, z, r⟩ :: fs) l) := holds
  have atRight : Holds T (plug (⟨.right, color, z, l⟩ :: fs) r) := holds
  simp only [splicedNode, rbtreeSuccessor, rbtreeMini, child_of cell, parent_of cell, ok_bind,
    cellOf, RbNode.child, atLeft.ptr_eq_nil_iff, atRight.ptr_eq_nil_iff, left, right, ↓reduceIte,
    ne_eq, not_false_eq_true, extremum_left_holds _ _ atRight right enough]

end Choice

section Unlink

variable {T : Rbtree} {fs : RbPath} {l r : RbTree} {color : Color} {y : RbItem}

theorem addrs_join (one : l = leaf ∨ r = leaf) : addrs (join l r) = addrs l + addrs r := by
  rw [addrs_eq_coe, toList_join one, List.map_append, ← Multiset.coe_add, ← addrs_eq_coe,
    ← addrs_eq_coe]

theorem rep_join {heap : Nat → Option RbNode} {nil parent : Nat} (left : Rep heap nil l parent)
    (right : Rep heap nil r parent) : Rep heap nil (join l r) parent := by
  cases l with
  | leaf => exact right
  | node c l' x r' => exact left

/-- The node unlinked is out of the tree; its cell is untouched. -/
structure Unlinked (T T' : Rbtree) (fs : RbPath) (color : Color) (l r : RbTree) (y : RbItem) :
    Prop where
  holds : Holds T' (plug fs (join l r))
  nil : T'.nil = T.nil
  cell : T'.heap y.addr = T.heap y.addr
  outside : ∀ q, q ∉ addrs (plug fs (node color l y r)) → T'.heap q = T.heap q

/-- The link to a node from above, if it has a parent. -/
theorem Holds.parentLink {t : RbTree} (holds : Holds T (plug fs t)) (nonempty : t ≠ leaf) :
    ∃ e color other up item, (parentOf T.nil fs = T.nil ∨ other ≠ ptr T.nil t ∧
        T.heap (parentOf T.nil fs) = some (cellOf e color (ptr T.nil t) other up item)) ∧
      ∀ f rest, fs = f :: rest → e = f.dir ∧ color = f.color ∧ other = ptr T.nil f.other ∧
        up = parentOf T.nil rest ∧ item = f.item := by
  cases fs with
  | nil => exact ⟨.left, .red, 0, 0, ⟨0, 0, ⟨[], by simp⟩, 0, ⟨[], by simp⟩⟩, Or.inl rfl, by simp⟩
  | cons f rest =>
      have different := Holds.children_ne (show Holds T (plug rest
        (build f.dir f.color t f.item f.other)) from holds) nonempty
      refine ⟨f.dir, f.color, ptr T.nil f.other, parentOf T.nil rest, f.item,
        Or.inr ⟨different, holds.parentCell⟩, ?_⟩
      rintro g gs same
      cases same
      exact ⟨rfl, rfl, rfl, rfl, rfl⟩

/-- The node to unlink, its only child and the path above have no cell in common. -/
structure Spaced (T : Rbtree) (fs : RbPath) (y : RbItem) (t : RbTree) : Prop where
  child : (addrs t).Nodup
  path : (pathAddrs fs).Nodup
  disjoint : ∀ q ∈ addrs t, q ∉ pathAddrs fs
  apart : y.addr ∉ addrs t ∧ y.addr ∉ pathAddrs fs
  nil : T.nil ∉ addrs t ∧ T.nil ∉ pathAddrs fs

theorem Holds.spaced (holds : Holds T (plug fs (node color l y r))) (one : l = leaf ∨ r = leaf) :
    Spaced T fs y (join l r) := by
  have distinct := holds.distinct
  have nilFree := holds.nilFree
  simp only [addrs_plug, addrs, ← addrs_join one, Multiset.nodup_add, Multiset.nodup_cons,
    Multiset.disjoint_left, Multiset.mem_cons, Multiset.cons_add, Multiset.mem_add, not_or]
    at distinct nilFree
  obtain ⟨apart, child, path, disjoint⟩ := distinct
  exact ⟨child, path, fun q => disjoint, apart, nilFree.2⟩

/-- The heap after both assignments, cell by cell. -/
structure Bypassed (T T' : Rbtree) (fs : RbPath) (t : RbTree) : Prop where
  nil : T'.nil = T.nil
  root : T'.root = if parentOf T.nil fs = T.nil then ptr T.nil t else T.root
  parent : ∀ f rest, fs = f :: rest → T'.heap f.item.addr =
    some (cellOf f.dir f.color (ptr T.nil t) (ptr T.nil f.other) (parentOf T.nil rest) f.item)
  child : ∀ c l x r, t = node c l x r → T'.heap x.addr =
    some (cellOf .left c (ptr T.nil l) (ptr T.nil r) (parentOf T.nil fs) x)
  frame : ∀ q, (q ≠ ptr T.nil t ∨ ptr T.nil t = T.nil) →
    (q ≠ parentOf T.nil fs ∨ parentOf T.nil fs = T.nil) → T'.heap q = T.heap q

theorem bypass_run (holds : Holds T (plug fs (node color l y r))) (one : l = leaf ∨ r = leaf) :
    ∃ T₁ T₂, adopt T (ptr T.nil (join l r)) (parentOf T.nil fs) = .ok T₁ ∧
      relink .left T₁ y.addr (ptr T.nil (join l r)) = .ok T₂ ∧ Bypassed T T₂ fs (join l r) := by
  have spaced := holds.spaced one
  obtain ⟨path, atY, repL, repR⟩ := (rep_plug ..).mp holds.rep
  have repChild := rep_join repL repR
  have parentApart : parentOf T.nil fs ∉ addrs (join l r) := by
    intro member
    rcases ne_parentOf_of_not_mem T.nil (spaced.disjoint _ member) with other | top
    · exact other rfl
    · exact spaced.nil.1 (top ▸ member)
  have childMapped : ptr T.nil (join l r) = T.nil ∨
      ∃ n, T.heap (ptr T.nil (join l r)) = some n := by
    rcases ptr_mem_or (t := join l r) T.nil with empty | member
    · exact Or.inl (by rw [empty, ptr])
    · have inTree : ptr T.nil (join l r) ∈ addrs (plug fs (node color l y r)) := by
        simp [addrs, ← addrs_join one, member]
      exact Or.inr (Option.ne_none_iff_exists'.mp (holds.mapped inTree))
  obtain ⟨T₁, adoptRun, adopted⟩ := adopt_run (T := T) (parentOf T.nil fs) childMapped
  have atY₁ : T₁.heap y.addr = _ :=
    (adopted.others _ (ne_ptr_of_not_mem T.nil spaced.apart.1)).trans atY
  obtain ⟨e, c, other, up, item, link, isFrame⟩ := holds.parentLink (by simp)
  obtain ⟨T₂, relinkRun, relinked⟩ := relink_run (T := T₁) (y := ptr T.nil (join l r)) .left atY₁
    (cellOf_parent ..) (by
      rw [adopted.nil]
      exact link.imp_right fun linked =>
        ⟨linked.1, (adopted.others _ (ne_ptr_of_not_mem T.nil parentApart)).trans linked.2⟩)
  have untouched : ∀ q, (q ≠ parentOf T.nil fs ∨ parentOf T.nil fs = T.nil) →
      T₂.heap q = T₁.heap q := by
    intro q away
    exact relinked.others q (by rwa [adopted.nil])
  refine ⟨T₁, T₂, adoptRun, relinkRun, relinked.nil.trans adopted.nil, ?_, ?_, ?_, ?_⟩
  · rw [relinked.root, adopted.nil, adopted.root]
  · rintro f rest rfl
    obtain ⟨rfl, rfl, rfl, rfl, rfl⟩ := isFrame f rest rfl
    exact relinked.parent (by rw [adopted.nil]; exact holds.parent_ne_nil)
  · intro c' l' x r' shape
    have member : x.addr ∈ addrs (join l r) := by simp [shape, addrs]
    have isPtr : x.addr = ptr T.nil (join l r) := by rw [shape]; rfl
    have notNil : ptr T.nil (join l r) ≠ T.nil := fun same =>
      spaced.nil.1 (same ▸ isPtr ▸ member)
    rw [untouched _ (ne_parentOf_of_not_mem T.nil (spaced.disjoint _ member)), isPtr]
    rw [shape] at repChild
    rw [adopted.child notNil _ (isPtr ▸ repChild.1), cellOf_setParent]
  · intro q awayChild awayParent
    rw [untouched q awayParent, adopted.others q awayChild]

theorem Bypassed.unlinked {T' : Rbtree} (bypassed : Bypassed T T' fs (join l r))
    (holds : Holds T (plug fs (node color l y r))) (one : l = leaf ∨ r = leaf) :
    Unlinked T T' fs color l r y := by
  have spaced := holds.spaced one
  obtain ⟨path, -, repL, repR⟩ := (rep_plug ..).mp holds.rep
  have repChild := rep_join repL repR
  have elsewhere : ∀ q, q ∉ addrs (join l r) → q ∉ pathAddrs fs → T'.heap q = T.heap q :=
    fun q awayChild awayPath => bypassed.frame q (ne_ptr_of_not_mem T.nil awayChild)
      (ne_parentOf_of_not_mem T.nil awayPath)
  refine ⟨⟨?_, ?_, ?_, ?_, ?_, ?_⟩, bypassed.nil, ?_, ?_⟩
  · rw [bypassed.root, bypassed.nil]
    exact holds.root_plug (join l r)
  · rw [bypassed.nil, rep_plug]
    refine ⟨path.redirect bypassed.parent ?_ spaced.path,
      repChild.reparent bypassed.child ?_ spaced.child⟩
    · intro q member notParent
      refine bypassed.frame q (ne_ptr_of_not_mem T.nil fun inChild => ?_) (.inl notParent)
      exact spaced.disjoint q inChild member
    · intro q member notRoot
      exact bypassed.frame q (.inl notRoot)
        (ne_parentOf_of_not_mem T.nil (spaced.disjoint q member))
  · rw [addrs_plug]
    exact Multiset.nodup_add.mpr
      ⟨spaced.child, spaced.path, Multiset.disjoint_left.mpr (spaced.disjoint _)⟩
  · rw [bypassed.nil, elsewhere _ spaced.nil.1 spaced.nil.2]
    exact holds.sentinel
  · rw [bypassed.nil, addrs_plug, Multiset.mem_add, not_or]
    exact spaced.nil
  · have zero := holds.zero_not_mem
    simp only [addrs_plug, addrs, ← addrs_join one, Multiset.mem_add, Multiset.mem_cons,
      not_or] at zero
    rw [elsewhere 0 zero.1.2 zero.2, holds.null]
  · exact elsewhere _ spaced.apart.1 spaced.apart.2
  · intro q away
    simp only [addrs_plug, addrs, ← addrs_join one, Multiset.mem_add, Multiset.mem_cons,
      not_or] at away
    exact elsewhere q away.1.2 away.2

theorem unlink_run (holds : Holds T (plug fs (node color l y r))) (one : l = leaf ∨ r = leaf) :
    ∃ T₁ T₂, adopt T (ptr T.nil (join l r)) (parentOf T.nil fs) = .ok T₁ ∧
      relink .left T₁ y.addr (ptr T.nil (join l r)) = .ok T₂ ∧ Unlinked T T₂ fs color l r y := by
  obtain ⟨T₁, T₂, adoptRun, relinkRun, bypassed⟩ := bypass_run holds one
  exact ⟨T₁, T₂, adoptRun, relinkRun, bypassed.unlinked holds one⟩

end Unlink

end LinuxCpp.Kvstore
