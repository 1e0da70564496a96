import LinuxCpp.Kvstore.Rbtree
import Mathlib.Data.Multiset.UnionInter

set_option autoImplicit false

/- The heap of the red-black engine as a tree: parent and child links agree,
and each node occurs once. Nothing is said about the links of the sentinel. -/
namespace LinuxCpp.Kvstore

open C RedBlack RedBlack.ColorTree

/-- A node of the tree: its address, and the blocks of its two strings. -/
structure RbItem where
  addr : Nat
  keyBlock : Nat
  key : CStr
  valueBlock : Nat
  value : CStr
deriving DecidableEq, Repr

abbrev RbTree := ColorTree RbItem
abbrev RbPath := List (Frame RbItem)

/-- The heap cell of an item whose `d`-child is at `near`. -/
def cellOf (d : Dir) (color : Color) (near far parent : Nat) (x : RbItem) : RbNode :=
  match d with
  | .left => ⟨color, far, near, parent, .live x.keyBlock x.key, .live x.valueBlock x.value⟩
  | .right => ⟨color, near, far, parent, .live x.keyBlock x.key, .live x.valueBlock x.value⟩

def ptr (nil : Nat) : RbTree → Nat
  | leaf => nil
  | node _ _ x _ => x.addr

def parentOf (nil : Nat) : RbPath → Nat
  | [] => nil
  | f :: _ => f.item.addr

def addrs : RbTree → Multiset Nat
  | leaf => 0
  | node _ left x right => x.addr ::ₘ (addrs left + addrs right)

def pathAddrs : RbPath → Multiset Nat
  | [] => 0
  | f :: fs => f.item.addr ::ₘ (addrs f.other + pathAddrs fs)

/-- The heap holds this tree below the node `parent`. -/
def Rep (heap : Nat → Option RbNode) (nil : Nat) : RbTree → Nat → Prop
  | leaf, _ => True
  | node color left x right, parent =>
      heap x.addr = some (cellOf .left color (ptr nil left) (ptr nil right) parent x) ∧
        Rep heap nil left x.addr ∧ Rep heap nil right x.addr

/-- The heap holds this path above the node `hole`. -/
def RepPath (heap : Nat → Option RbNode) (nil : Nat) : RbPath → Nat → Prop
  | [], _ => True
  | f :: fs, hole =>
      heap f.item.addr =
          some (cellOf f.dir f.color hole (ptr nil f.other) (parentOf nil fs) f.item) ∧
        Rep heap nil f.other f.item.addr ∧ RepPath heap nil fs f.item.addr

/-- The engine holds the tree `t`. The sentinel is black; its links, key and
value are arbitrary. -/
structure Holds (T : Rbtree) (t : RbTree) : Prop where
  root : T.root = ptr T.nil t
  rep : Rep T.heap T.nil t T.nil
  distinct : (addrs t).Nodup
  sentinel : ∃ n, T.heap T.nil = some n ∧ n.color = .black
  nilFree : T.nil ∉ addrs t
  null : T.heap 0 = none

section Cells

variable (d : Dir) (color : Color) (near far parent : Nat) (x : RbItem)

theorem cellOf_opp : cellOf d.opp color near far parent x = cellOf d color far near parent x := by
  cases d <;> rfl

@[simp] theorem cellOf_color : (cellOf d color near far parent x).color = color := by
  cases d <;> rfl

@[simp] theorem cellOf_child : (cellOf d color near far parent x).child d = near := by
  cases d <;> rfl

@[simp] theorem cellOf_child_opp : (cellOf d color near far parent x).child d.opp = far := by
  cases d <;> rfl

@[simp] theorem cellOf_parent : (cellOf d color near far parent x).parent = parent := by
  cases d <;> rfl

@[simp] theorem cellOf_key :
    (cellOf d color near far parent x).key = .live x.keyBlock x.key := by
  cases d <;> rfl

@[simp] theorem cellOf_value :
    (cellOf d color near far parent x).value = .live x.valueBlock x.value := by
  cases d <;> rfl

@[simp] theorem cellOf_setChild (p : Nat) :
    (cellOf d color near far parent x).setChild d p = cellOf d color p far parent x := by
  cases d <;> rfl

@[simp] theorem cellOf_setChild_opp (p : Nat) :
    (cellOf d color near far parent x).setChild d.opp p = cellOf d color near p parent x := by
  cases d <;> rfl

@[simp] theorem cellOf_setParent (p : Nat) :
    { cellOf d color near far parent x with parent := p } = cellOf d color near far p x := by
  cases d <;> rfl

@[simp] theorem cellOf_setColor (c : Color) :
    { cellOf d color near far parent x with color := c } = cellOf d c near far parent x := by
  cases d <;> rfl

end Cells

section Build

variable (nil : Nat) (d : Dir) (color : Color) (near far : RbTree) (x : RbItem)

@[simp] theorem ptr_build : ptr nil (build d color near x far) = x.addr := by
  cases d <;> rfl

@[simp] theorem ptr_fill (f : Frame RbItem) (t : RbTree) : ptr nil (f.fill t) = f.item.addr :=
  ptr_build ..

@[simp] theorem addrs_build : addrs (build d color near x far) =
    x.addr ::ₘ (addrs near + addrs far) := by
  cases d
  · rfl
  · simp only [build, addrs, Multiset.add_comm]

@[simp] theorem addrs_fill (f : Frame RbItem) (t : RbTree) :
    addrs (f.fill t) = f.item.addr ::ₘ (addrs t + addrs f.other) :=
  addrs_build ..

@[simp] theorem addrs_plug (fs : RbPath) (t : RbTree) :
    addrs (plug fs t) = addrs t + pathAddrs fs := by
  induction fs generalizing t with
  | nil => simp [pathAddrs]
  | cons f fs ih =>
      rw [plug_cons, ih, Frame.fill, addrs_build, pathAddrs, Multiset.cons_add, Multiset.add_cons,
        Multiset.add_assoc]

/-- The root of a tree with a hole below the root is outside the hole. -/
theorem ptr_plug_congr (fs : RbPath) {t t' : RbTree} (same : ptr nil t = ptr nil t') :
    ptr nil (plug fs t) = ptr nil (plug fs t') := by
  induction fs generalizing t t' with
  | nil => exact same
  | cons f fs ih => exact ih (by rw [ptr_fill, ptr_fill])

theorem ptr_plug_cons (f : Frame RbItem) (fs : RbPath) (t t' : RbTree) :
    ptr nil (plug (f :: fs) t) = ptr nil (plug (f :: fs) t') :=
  ptr_plug_congr nil fs (by rw [ptr_fill, ptr_fill])

theorem rep_build (heap : Nat → Option RbNode) (parent : Nat) :
    Rep heap nil (build d color near x far) parent ↔
      heap x.addr = some (cellOf d color (ptr nil near) (ptr nil far) parent x) ∧
        Rep heap nil near x.addr ∧ Rep heap nil far x.addr := by
  cases d
  · rfl
  · simp only [build, Rep, cellOf]
    tauto

theorem rep_plug (heap : Nat → Option RbNode) (fs : RbPath) (t : RbTree) :
    Rep heap nil (plug fs t) nil ↔
      RepPath heap nil fs (ptr nil t) ∧ Rep heap nil t (parentOf nil fs) := by
  induction fs generalizing t with
  | nil => simp [RepPath, parentOf]
  | cons f fs ih =>
      rw [plug_cons, ih, Frame.fill, rep_build, ptr_build]
      simp only [RepPath, parentOf]
      tauto

end Build

section Frames

variable {heap heap' : Nat → Option RbNode} {nil : Nat}

/-- A tree depends only on its own cells. -/
theorem Rep.congr {t : RbTree} {parent : Nat} (rep : Rep heap nil t parent)
    (same : ∀ a ∈ addrs t, heap' a = heap a) : Rep heap' nil t parent := by
  induction t generalizing parent with
  | leaf => trivial
  | node color left x right ihl ihr =>
      simp only [addrs, Multiset.mem_cons, Multiset.mem_add] at same
      exact ⟨(same _ (Or.inl rfl)).trans rep.1,
        ihl rep.2.1 fun a member => same a (Or.inr (Or.inl member)),
        ihr rep.2.2 fun a member => same a (Or.inr (Or.inr member))⟩

theorem RepPath.congr {fs : RbPath} {hole : Nat} (rep : RepPath heap nil fs hole)
    (same : ∀ a ∈ pathAddrs fs, heap' a = heap a) : RepPath heap' nil fs hole := by
  induction fs generalizing hole with
  | nil => trivial
  | cons f fs ih =>
      simp only [pathAddrs, Multiset.mem_cons, Multiset.mem_add] at same
      exact ⟨(same _ (Or.inl rfl)).trans rep.1,
        rep.2.1.congr fun a member => same a (Or.inr (Or.inl member)),
        ih rep.2.2 fun a member => same a (Or.inr (Or.inr member))⟩

/-- Only the cell of the parent of the hole mentions the hole. -/
theorem RepPath.redirect {fs : RbPath} {hole hole' : Nat} (rep : RepPath heap nil fs hole)
    (parent : ∀ f rest, fs = f :: rest → heap' f.item.addr =
      some (cellOf f.dir f.color hole' (ptr nil f.other) (parentOf nil rest) f.item))
    (same : ∀ a ∈ pathAddrs fs, a ≠ parentOf nil fs → heap' a = heap a)
    (distinct : (pathAddrs fs).Nodup) : RepPath heap' nil fs hole' := by
  cases fs with
  | nil => trivial
  | cons f fs =>
      simp only [pathAddrs, Multiset.nodup_cons, Multiset.mem_add, not_or] at distinct
      simp only [pathAddrs, Multiset.mem_cons, Multiset.mem_add, parentOf] at same
      refine ⟨parent f fs rfl, rep.2.1.congr fun a member => same a (Or.inr (Or.inl member)) ?_,
        rep.2.2.congr fun a member => same a (Or.inr (Or.inr member)) ?_⟩
      · rintro rfl
        exact distinct.1.1 member
      · rintro rfl
        exact distinct.1.2 member

theorem ptr_mem_or {t : RbTree} (nil : Nat) : t = leaf ∨ ptr nil t ∈ addrs t := by
  cases t with
  | leaf => exact Or.inl rfl
  | node color left x right => exact Or.inr (Multiset.mem_cons_self _ _)

/-- An address outside a tree is not the one of its root. -/
theorem ne_ptr_of_not_mem {t : RbTree} {q : Nat} (nil : Nat) (away : q ∉ addrs t) :
    q ≠ ptr nil t ∨ ptr nil t = nil := by
  rcases ptr_mem_or (t := t) nil with rfl | member
  · exact Or.inr rfl
  · exact Or.inl fun same => away (same ▸ member)

/-- An address that is no parent on a path is not the one at its end. -/
theorem ne_parentOf_of_not_mem {fs : RbPath} {q : Nat} (nil : Nat) (away : q ∉ pathAddrs fs) :
    q ≠ parentOf nil fs ∨ parentOf nil fs = nil := by
  cases fs with
  | nil => exact Or.inr rfl
  | cons f rest =>
      refine Or.inl fun same => away ?_
      rw [same]
      exact Multiset.mem_cons_self ..

/-- A tree hung below another parent differs in the cell of its root only. -/
theorem Rep.reparent {t : RbTree} {parent parent' : Nat} (rep : Rep heap nil t parent)
    (root : ∀ color left x right, t = node color left x right → heap' x.addr =
      some (cellOf .left color (ptr nil left) (ptr nil right) parent' x))
    (same : ∀ a ∈ addrs t, a ≠ ptr nil t → heap' a = heap a) (distinct : (addrs t).Nodup) :
    Rep heap' nil t parent' := by
  cases t with
  | leaf => trivial
  | node color left x right =>
      simp only [addrs, Multiset.nodup_cons, Multiset.mem_add, not_or] at distinct
      simp only [addrs, Multiset.mem_cons, Multiset.mem_add, ptr] at same
      refine ⟨root color left x right rfl,
        rep.2.1.congr fun a member => same a (Or.inr (Or.inl member)) ?_,
        rep.2.2.congr fun a member => same a (Or.inr (Or.inr member)) ?_⟩
      · rintro rfl
        exact distinct.1.1 member
      · rintro rfl
        exact distinct.1.2 member

/-- Cells and sentinel decide about the tree. -/
theorem Rep.unique {t t' : RbTree} {parent parent' : Nat} (rep : Rep heap nil t parent)
    (rep' : Rep heap nil t' parent') (same : ptr nil t = ptr nil t') (apart : nil ∉ addrs t)
    (apart' : nil ∉ addrs t') : t = t' := by
  induction t generalizing t' parent parent' with
  | leaf =>
      cases t' with
      | leaf => rfl
      | node color left x right =>
          have isNil : nil = x.addr := same
          exact absurd (isNil ▸ Multiset.mem_cons_self ..) apart'
  | node color left x right ihl ihr =>
      cases t' with
      | leaf =>
          have isNil : x.addr = nil := same
          exact absurd (isNil ▸ Multiset.mem_cons_self ..) apart
      | node color' left' x' right' =>
          obtain ⟨cell, repLeft, repRight⟩ := rep
          obtain ⟨cell', repLeft', repRight'⟩ := rep'
          simp only [addrs, Multiset.mem_cons, Multiset.mem_add, not_or] at apart apart'
          rw [show x.addr = x'.addr from same, cell'] at cell
          simp only [cellOf, Option.some.injEq, RbNode.mk.injEq, CPtr.live.injEq] at cell
          obtain ⟨rfl, sameRight, sameLeft, -, ⟨keyBlock, key⟩, valueBlock, value⟩ := cell
          have item : x = x' := by
            obtain ⟨addr, kb, k, vb, v⟩ := x
            obtain ⟨addr', kb', k', vb', v'⟩ := x'
            simp only at same keyBlock key valueBlock value
            rw [show addr = addr' from same, keyBlock, key, valueBlock, value]
          rw [ihl repLeft repLeft' sameLeft.symm apart.2.1 apart'.2.1,
            ihr repRight repRight' sameRight.symm apart.2.2 apart'.2.2, item]

end Frames

theorem Holds.unique {T : Rbtree} {t t' : RbTree} (holds : Holds T t) (holds' : Holds T t') :
    t = t' :=
  holds.rep.unique holds'.rep (holds.root.symm.trans holds'.root) holds.nilFree holds'.nilFree

end LinuxCpp.Kvstore
