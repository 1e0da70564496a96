import LinuxCpp.Kvstore.RbtreeRep

set_option autoImplicit false

namespace LinuxCpp.Kvstore

open C RedBlack RedBlack.ColorTree

namespace Rbtree

variable {T : Rbtree} {a : Nat} {n : RbNode}

@[simp] theorem store_nil (T : Rbtree) (a : Nat) (n : RbNode) : (T.store a n).nil = T.nil := rfl

@[simp] theorem store_root (T : Rbtree) (a : Nat) (n : RbNode) : (T.store a n).root = T.root := rfl

@[simp] theorem store_same (T : Rbtree) (a : Nat) (n : RbNode) :
    (T.store a n).heap a = some n := Function.update_self ..

theorem store_ne (T : Rbtree) {a b : Nat} (n : RbNode) (different : b ≠ a) :
    (T.store a n).heap b = T.heap b := Function.update_of_ne different ..

@[simp] theorem store_store (T : Rbtree) (a : Nat) (n m : RbNode) :
    (T.store a n).store a m = T.store a m := by
  simp [store]

theorem store_comm (T : Rbtree) {a b : Nat} (n m : RbNode) (different : a ≠ b) :
    (T.store a n).store b m = (T.store b m).store a n := by
  simp only [store, Function.update_comm different]

theorem load_of (present : T.heap a = some n) : T.load a = .ok n := by
  simp [load, present]

theorem color_of (present : T.heap a = some n) : T.color a = .ok n.color := by
  simp only [color, load_of present, ok_bind]
  rfl

theorem child_of (present : T.heap a = some n) (d : Dir) : T.child d a = .ok (n.child d) := by
  simp only [child, load_of present, ok_bind]
  rfl

theorem parent_of (present : T.heap a = some n) : T.parent a = .ok n.parent := by
  simp only [parent, load_of present, ok_bind]
  rfl

theorem key_of (present : T.heap a = some n) : T.key a = .ok n.key := by
  simp only [key, load_of present, ok_bind]
  rfl

theorem value_of (present : T.heap a = some n) : T.value a = .ok n.value := by
  simp only [value, load_of present, ok_bind]
  rfl

theorem setColor_of (present : T.heap a = some n) (c : Color) :
    T.setColor a c = .ok (T.store a { n with color := c }) := by
  simp only [setColor, load_of present, ok_bind]
  rfl

theorem setChild_of (present : T.heap a = some n) (d : Dir) (p : Nat) :
    T.setChild d a p = .ok (T.store a (n.setChild d p)) := by
  simp only [setChild, load_of present, ok_bind]
  rfl

theorem setParent_of (present : T.heap a = some n) (p : Nat) :
    T.setParent a p = .ok (T.store a { n with parent := p }) := by
  simp only [setParent, load_of present, ok_bind]
  rfl

theorem setKey_of (present : T.heap a = some n) (p : CPtr) :
    T.setKey a p = .ok (T.store a { n with key := p }) := by
  simp only [setKey, load_of present, ok_bind]
  rfl

theorem setValue_of (present : T.heap a = some n) (p : CPtr) :
    T.setValue a p = .ok (T.store a { n with value := p }) := by
  simp only [setValue, load_of present, ok_bind]
  rfl

end Rbtree

open Rbtree

theorem relink_root {T : Rbtree} {x y : Nat} {n : RbNode} (d : Dir) (atX : T.heap x = some n)
    (top : n.parent = T.nil) : relink d T x y = .ok { T with root := y } := by
  simp only [relink, parent_of atX, ok_bind, top, ↓reduceIte]
  rfl

/-- Below a parent exactly the link that named `x` is redirected, whichever
side is compared first. -/
theorem relink_below {T : Rbtree} {x y p other up : Nat} {n : RbNode} {e : Dir} {color : Color}
    {item : RbItem} (d : Dir) (atX : T.heap x = some n) (parent : n.parent = p) (inner : p ≠ T.nil)
    (atP : T.heap p = some (cellOf e color x other up item)) (different : other ≠ x) :
    relink d T x y = .ok (T.store p (cellOf e color y other up item)) := by
  simp only [relink, parent_of atX, ok_bind, parent, inner, ↓reduceIte, child_of atP,
    setChild_of atP]
  rcases Dir.eq_or_opp d e with rfl | rfl
  · simp
  · rw [cellOf_opp, cellOf_opp]
    simp [Ne.symm different]

/-- Effect of the link from above: `y` stands where `x` stood. -/
structure Relinked (T T' : Rbtree) (p y : Nat) (e : Dir) (color : Color) (other up : Nat)
    (item : RbItem) : Prop where
  nil : T'.nil = T.nil
  root : T'.root = if p = T.nil then y else T.root
  parent : p ≠ T.nil → T'.heap p = some (cellOf e color y other up item)
  others : ∀ q, (q ≠ p ∨ p = T.nil) → T'.heap q = T.heap q

theorem relink_run {T : Rbtree} {x y p other up : Nat} {n : RbNode} {e : Dir} {color : Color}
    {item : RbItem} (d : Dir) (atX : T.heap x = some n) (parent : n.parent = p)
    (above : p = T.nil ∨ other ≠ x ∧ T.heap p = some (cellOf e color x other up item)) :
    ∃ T', relink d T x y = .ok T' ∧ Relinked T T' p y e color other up item := by
  by_cases top : p = T.nil
  · exact ⟨{ T with root := y }, relink_root d atX (parent.trans top), rfl, by simp [top],
      fun inner => absurd top inner, fun _ _ => rfl⟩
  · obtain ⟨different, atP⟩ := above.resolve_left top
    refine ⟨_, relink_below d atX parent top atP different, rfl, by simp [top],
      fun _ => store_same .., fun q away => store_ne _ _ (away.resolve_right top)⟩

/-- Effect of a parent assignment that the sentinel is spared. -/
structure Adopted (T T' : Rbtree) (b parent : Nat) : Prop where
  nil : T'.nil = T.nil
  root : T'.root = T.root
  child : b ≠ T.nil → ∀ n, T.heap b = some n → T'.heap b = some { n with parent := parent }
  others : ∀ q, (q ≠ b ∨ b = T.nil) → T'.heap q = T.heap q

theorem adopt_run {T : Rbtree} {b : Nat} (parent : Nat)
    (mapped : b = T.nil ∨ ∃ n, T.heap b = some n) :
    ∃ T', adopt T b parent = .ok T' ∧ Adopted T T' b parent := by
  by_cases isNil : b = T.nil
  · exact ⟨T, by simp [adopt, isNil], rfl, rfl, fun notNil => absurd isNil notNil, fun _ _ => rfl⟩
  · obtain ⟨n, atB⟩ := mapped.resolve_left isNil
    refine ⟨T.store b { n with parent := parent }, by simp [adopt, isNil, setParent_of atB], rfl,
      rfl, ?_, fun q away => store_ne _ _ (away.resolve_right isNil)⟩
    intro _ m atB'
    rw [atB] at atB'
    cases atB'
    exact store_same ..

/-- What the pointer below the middle of a rotation must satisfy. -/
def Movable (T : Rbtree) (b x y : Nat) : Prop :=
  b = T.nil ∨ b ≠ T.nil ∧ b ≠ x ∧ b ≠ y ∧ ∃ n, T.heap b = some n

/-- The cell above a rotation: none, or a node with `x` below it. -/
def Above (T : Rbtree) (p x y b : Nat) (e : Dir) (color : Color) (other up : Nat)
    (item : RbItem) : Prop :=
  p = T.nil ∨ p ≠ T.nil ∧ p ≠ x ∧ p ≠ y ∧ p ≠ b ∧ other ≠ x ∧
    T.heap p = some (cellOf e color x other up item)

/-- The heap after a rotation, cell by cell. -/
structure Rotated (T T' : Rbtree) (d : Dir) (colorX colorY : Color) (a b c p x y : Nat)
    (itemX itemY : RbItem) (e : Dir) (color : Color) (other up : Nat) (item : RbItem) : Prop where
  nil : T'.nil = T.nil
  root : T'.root = if p = T.nil then y else T.root
  atX : T'.heap x = some (cellOf d colorX a b y itemX)
  atY : T'.heap y = some (cellOf d colorY x c p itemY)
  atB : b ≠ T.nil → ∀ n, T.heap b = some n → T'.heap b = some { n with parent := x }
  atP : p ≠ T.nil → T'.heap p = some (cellOf e color y other up item)
  frame : ∀ q, q ≠ x → q ≠ y → (q ≠ b ∨ b = T.nil) → (q ≠ p ∨ p = T.nil) → T'.heap q = T.heap q

theorem rotate_run {T : Rbtree} {d e : Dir} {colorX colorY color : Color}
    {a b c p x y other up : Nat} {itemX itemY item : RbItem}
    (atX : T.heap x = some (cellOf d colorX a y p itemX))
    (atY : T.heap y = some (cellOf d colorY b c x itemY)) (apart : x ≠ y)
    (below : Movable T b x y) (above : Above T p x y b e color other up item) :
    ∃ T', rotate d T x = .ok T' ∧
      Rotated T T' d colorX colorY a b c p x y itemX itemY e color other up item := by
  -- x->right = y->left
  have step₁ : T.setChild d.opp x b = .ok (T.store x (cellOf d colorX a b p itemX)) := by
    rw [setChild_of atX, cellOf_setChild_opp]
  obtain ⟨T₁, def₁⟩ : ∃ T₁, T₁ = T.store x (cellOf d colorX a b p itemX) := ⟨_, rfl⟩
  have x₁ : T₁.heap x = some (cellOf d colorX a b p itemX) := by rw [def₁, store_same]
  have old₁ : ∀ q, q ≠ x → T₁.heap q = T.heap q := fun q hq => by rw [def₁, store_ne _ _ hq]
  have nil₁ : T₁.nil = T.nil := by rw [def₁, store_nil]
  have y₁ : T₁.heap y = some (cellOf d colorY b c x itemY) := by rw [old₁ y apart.symm, atY]
  -- the middle subtree moves below x
  obtain ⟨T₂, step₂, adopted⟩ := adopt_run (T := T₁) (b := b) x (by
    rcases below with isNil | ⟨notNil, bx, by_, n, atB⟩
    · exact Or.inl (isNil.trans nil₁.symm)
    · exact Or.inr ⟨n, by rw [old₁ b bx, atB]⟩)
  have apartB : (x ≠ b ∨ b = T₁.nil) ∧ (y ≠ b ∨ b = T₁.nil) := by
    rw [nil₁]
    rcases below with isNil | ⟨notNil, bx, by_, -⟩
    · exact ⟨Or.inr isNil, Or.inr isNil⟩
    · exact ⟨Or.inl bx.symm, Or.inl by_.symm⟩
  have x₂ : T₂.heap x = some (cellOf d colorX a b p itemX) := by
    rw [adopted.others x apartB.1, x₁]
  have y₂ : T₂.heap y = some (cellOf d colorY b c x itemY) := by
    rw [adopted.others y apartB.2, y₁]
  have nil₂ : T₂.nil = T.nil := adopted.nil.trans nil₁
  have old₂ : ∀ q, q ≠ x → (q ≠ b ∨ b = T.nil) → T₂.heap q = T.heap q := fun q hq away => by
    rw [adopted.others q (by rwa [nil₁]), old₁ q hq]
  -- y->parent = x->parent
  have step₃ : T₂.setParent y p = .ok (T₂.store y (cellOf d colorY b c p itemY)) := by
    rw [setParent_of y₂, cellOf_setParent]
  obtain ⟨T₃, def₃⟩ : ∃ T₃, T₃ = T₂.store y (cellOf d colorY b c p itemY) := ⟨_, rfl⟩
  have old₃ : ∀ q, q ≠ y → T₃.heap q = T₂.heap q := fun q hq => by rw [def₃, store_ne _ _ hq]
  have x₃ : T₃.heap x = some (cellOf d colorX a b p itemX) := by rw [old₃ x apart, x₂]
  have y₃ : T₃.heap y = some (cellOf d colorY b c p itemY) := by rw [def₃, store_same]
  have nil₃ : T₃.nil = T.nil := by rw [def₃, store_nil, nil₂]
  have root₃ : T₃.root = T.root := by rw [def₃, store_root, adopted.root, def₁, store_root]
  -- the link from above
  obtain ⟨T₄, step₄, relinked⟩ := relink_run (T := T₃) (y := y) (p := p) (e := e)
    d x₃ (cellOf_parent ..) (by
      rw [nil₃]
      refine above.imp_right fun ⟨notNil, px, py, pb, different, atP⟩ => ⟨different, ?_⟩
      rw [old₃ p py, old₂ p px (Or.inl pb), atP])
  have apartP : (x ≠ p ∨ p = T₃.nil) ∧ (y ≠ p ∨ p = T₃.nil) ∧ (b ≠ p ∨ p = T₃.nil) := by
    rw [nil₃]
    rcases above with isNil | ⟨-, px, py, pb, -⟩
    · exact ⟨Or.inr isNil, Or.inr isNil, Or.inr isNil⟩
    · exact ⟨Or.inl px.symm, Or.inl py.symm, Or.inl pb.symm⟩
  have x₄ : T₄.heap x = some (cellOf d colorX a b p itemX) := by
    rw [relinked.others x apartP.1, x₃]
  have y₄ : T₄.heap y = some (cellOf d colorY b c p itemY) := by
    rw [relinked.others y apartP.2.1, y₃]
  -- y->left = x, x->parent = y
  have step₅ : T₄.setChild d y x = .ok (T₄.store y (cellOf d colorY x c p itemY)) := by
    rw [setChild_of y₄, cellOf_setChild]
  obtain ⟨T₅, def₅⟩ : ∃ T₅, T₅ = T₄.store y (cellOf d colorY x c p itemY) := ⟨_, rfl⟩
  have x₅ : T₅.heap x = some (cellOf d colorX a b p itemX) := by rw [def₅, store_ne _ _ apart, x₄]
  have step₆ : T₅.setParent x y = .ok (T₅.store x (cellOf d colorX a b y itemX)) := by
    rw [setParent_of x₅, cellOf_setParent]
  refine ⟨T₅.store x (cellOf d colorX a b y itemX), ?_, ?_⟩
  · simp only [rotate, child_of atX, child_of atY, ok_bind, cellOf_child_opp, cellOf_child, step₁,
      ← def₁, child_of y₁, step₂, parent_of x₂, cellOf_parent, step₃, ← def₃, step₄, step₅,
      ← def₅, step₆]
  · have far : ∀ q, q ≠ x → q ≠ y → (T₅.store x (cellOf d colorX a b y itemX)).heap q =
        T₄.heap q := fun q hx hy => by rw [store_ne _ _ hx, def₅, store_ne _ _ hy]
    refine ⟨by rw [store_nil, def₅, store_nil, relinked.nil, nil₃],
      by rw [store_root, def₅, store_root, relinked.root, nil₃, root₃],
      store_same .., by rw [store_ne _ _ apart.symm, def₅, store_same], ?_, ?_, ?_⟩
    · intro notNil n atB
      obtain ⟨-, bx, by_, -⟩ := below.resolve_left notNil
      rw [far b bx by_, relinked.others b apartP.2.2, old₃ b by_,
        adopted.child (by rwa [nil₁]) n (by rw [old₁ b bx, atB])]
    · intro notNil
      obtain ⟨-, px, py, -⟩ := above.resolve_left notNil
      rw [far p px py, relinked.parent (by rwa [nil₃])]
    · intro q hx hy hb hp
      rw [far q hx hy, relinked.others q (by rwa [nil₃]), old₃ q hy, old₂ q hx hb]

end LinuxCpp.Kvstore
