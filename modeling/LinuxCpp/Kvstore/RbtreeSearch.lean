import LinuxCpp.Kvstore.RbtreeTurn
import LinuxCpp.RedBlack.Search

set_option autoImplicit false

namespace LinuxCpp.Kvstore

open C RedBlack RedBlack.ColorTree Rbtree

/-- What every operation of the engine keeps: the heap holds a valid search
tree, and blocks not yet handed out are not mapped. -/
structure RbInv (T : Rbtree) (A : Allocator) (t : RbTree) : Prop where
  holds : Holds T t
  valid : t.Valid
  sorted : Sorted RbItem.key t
  fresh : ∀ a, A.calls < a → T.heap a = none

/-- The in-order list of (key, value) pairs. -/
def entries (t : RbTree) : List (CStr × CStr) := t.toList.map fun x => (x.key, x.value)

/-- The pointer `kvs_rbtree_get` answers with. -/
def answer (t : RbTree) (key : CStr) : CPtr :=
  match lookup RbItem.key key t with
  | none => .null
  | some x => .live x.valueBlock x.value

section Descent

variable {T : Rbtree} {key : CStr}

/-- The search loop is the descent in the tree. -/
theorem searchFrom_holds (fs : RbPath) (t : RbTree) {fuel : Nat} (holds : Holds T (plug fs t))
    (enough : t.size < fuel) :
    searchFrom T key fuel (ptr T.nil t) = .ok (ptr T.nil (seek RbItem.key key fs t).2) := by
  induction t generalizing fs fuel with
  | leaf =>
      obtain ⟨fuel, rfl⟩ := Nat.exists_eq_add_of_lt enough
      simp only [searchFrom, ptr, ↓reduceIte, seek]
      rfl
  | node color left x right ihl ihr =>
      obtain ⟨fuel, rfl⟩ := Nat.exists_eq_add_of_lt enough
      have cell := holds.cell (d := .left)
      have notNil : x.addr ≠ T.nil := holds.addr_ne_nil (d := .left)
      have smaller : left.size < (node color left x right).size + fuel ∧
          right.size < (node color left x right).size + fuel := by simp only [size]; omega
      have left' := ihl (⟨.left, color, x, right⟩ :: fs) holds smaller.1
      have right' := ihr (⟨.right, color, x, left⟩ :: fs) holds smaller.2
      simp only [searchFrom, ptr, notNil, ↓reduceIte, key_of cell, ok_bind, cellOf_key,
        CPtr.deref_live, strcmp_neg, strcmp_pos, child_of cell, seek]
      split
      · exact left'
      · split
        · exact right'
        · rfl

theorem rbtreeSearch_holds {t : RbTree} {fuel : Nat} (holds : Holds T t) (enough : t.size < fuel) :
    rbtreeSearch fuel T key = .ok (ptr T.nil (seek RbItem.key key [] t).2) := by
  rw [rbtreeSearch, holds.root]
  exact searchFrom_holds [] t holds enough

/-- The descent of an insertion ends below the last node of the path. -/
theorem insertDescent_holds (fs : RbPath) (t : RbTree) {fuel z block : Nat}
    (holds : Holds T (plug fs t)) (new : T.key z = .ok (.live block key)) (enough : t.size < fuel)
    (absent : (seek RbItem.key key fs t).2 = leaf) :
    insertDescent T z fuel (parentOf T.nil fs) (ptr T.nil t) =
      .ok (some (parentOf T.nil (seek RbItem.key key fs t).1)) := by
  induction t generalizing fs fuel with
  | leaf =>
      obtain ⟨fuel, rfl⟩ := Nat.exists_eq_add_of_lt enough
      simp only [insertDescent, ptr, ↓reduceIte, seek]
      rfl
  | node color left x right ihl ihr =>
      obtain ⟨fuel, rfl⟩ := Nat.exists_eq_add_of_lt enough
      have cell := holds.cell (d := .left)
      have notNil : x.addr ≠ T.nil := holds.addr_ne_nil (d := .left)
      have smaller : left.size < (node color left x right).size + fuel ∧
          right.size < (node color left x right).size + fuel := by simp only [size]; omega
      have left' := ihl (⟨.left, color, x, right⟩ :: fs) holds smaller.1
      have right' := ihr (⟨.right, color, x, left⟩ :: fs) holds smaller.2
      simp only [seek] at absent
      simp only [insertDescent, ptr, notNil, ↓reduceIte, key_of cell, ok_bind, cellOf_key, new,
        CPtr.deref_live, strcmp_neg, strcmp_pos, child_of cell, seek]
      split
      · rename_i smaller
        rw [if_pos smaller] at absent
        exact left' absent
      · rename_i notSmaller
        rw [if_neg notSmaller] at absent
        split
        · rename_i larger
          rw [if_pos larger] at absent
          exact right' absent
        · rename_i notLarger
          rw [if_neg notLarger] at absent
          cases absent

/-- A search that ends at the sentinel found nothing. -/
theorem Holds.ptr_eq_nil_iff {fs : RbPath} {t : RbTree} (holds : Holds T (plug fs t)) :
    ptr T.nil t = T.nil ↔ t = leaf := by
  constructor
  · intro same
    cases t with
    | leaf => rfl
    | node color left x right => exact absurd same (holds.addr_ne_nil (d := .left))
  · rintro rfl
    rfl

theorem Holds.at_seek {t : RbTree} (holds : Holds T t) :
    Holds T (plug (seek RbItem.key key [] t).1 (seek RbItem.key key [] t).2) := by
  rwa [plug_seek]

/-- `kvs_rbtree_get` on a search tree. -/
theorem kvsRbtreeGet_holds {t : RbTree} {fuel : Nat} (holds : Holds T t)
    (sorted : Sorted RbItem.key t) (enough : t.size < fuel) :
    kvsRbtreeGet fuel T (some key) = .ok (answer t key) := by
  simp only [kvsRbtreeGet, rbtreeSearch_holds holds enough, ok_bind,
    holds.at_seek.ptr_eq_nil_iff]
  rcases seek_end RbItem.key key [] t with absent | ⟨color, left, x, right, found, -⟩
  · rw [if_pos absent, answer, (seek_absent sorted absent).2]
    rfl
  · have cell : T.heap x.addr = _ := Holds.cell (d := .left) (found ▸ holds.at_seek)
    rw [if_neg (by rw [found]; simp), answer, (seek_present sorted found).2.2, found, ptr,
      value_of cell, cellOf_value]

theorem kvsRbtreeExist_holds {t : RbTree} {fuel : Nat} (holds : Holds T t)
    (sorted : Sorted RbItem.key t) (enough : t.size < fuel) :
    kvsRbtreeExist fuel T (some key) =
      .ok (if lookup RbItem.key key t = none then 1 else 0) := by
  simp only [kvsRbtreeExist, rbtreeSearch_holds holds enough, ok_bind,
    holds.at_seek.ptr_eq_nil_iff, ← lookup_eq_none_iff sorted]
  split <;> rfl

end Descent

end LinuxCpp.Kvstore
