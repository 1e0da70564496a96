import Mathlib.Data.Multiset.AddSub
import Mathlib.Data.List.Sort

set_option autoImplicit false

/- Coloured binary trees and their one-hole contexts. The constructor `build`
names the children by a side and its opposite, so that one lemma covers a
rotation or a repair step and its mirror image. -/
namespace LinuxCpp.RedBlack

inductive Color where
  | red
  | black
deriving DecidableEq, Repr

inductive Dir where
  | left
  | right
deriving DecidableEq, Repr

def Dir.opp : Dir → Dir
  | left => right
  | right => left

@[simp] theorem Dir.opp_opp (d : Dir) : d.opp.opp = d := by cases d <;> rfl

@[simp] theorem Dir.opp_ne (d : Dir) : d.opp ≠ d := by cases d <;> simp [opp]

@[simp] theorem Dir.ne_opp (d : Dir) : d ≠ d.opp := by cases d <;> simp [opp]

theorem Dir.eq_or_opp (d e : Dir) : e = d ∨ e = d.opp := by cases d <;> cases e <;> simp [opp]

/-- How much a node adds to the black height. -/
def Color.weight : Color → Nat
  | .red => 0
  | .black => 1

theorem Color.eq_red {color : Color} (notBlack : color ≠ .black) : color = .red := by
  cases color with
  | red => rfl
  | black => exact absurd rfl notBlack

theorem Color.eq_black {color : Color} (notRed : color ≠ .red) : color = .black := by
  cases color with
  | red => exact absurd rfl notRed
  | black => rfl

inductive ColorTree (α : Type) where
  | leaf
  | node (color : Color) (left : ColorTree α) (item : α) (right : ColorTree α)
deriving Repr, DecidableEq

/-- One step of the path from a subtree to the root. -/
structure Frame (α : Type) where
  dir : Dir
  color : Color
  item : α
  other : ColorTree α
deriving Repr, DecidableEq

variable {α : Type}

namespace ColorTree

/-- The node whose `d`-child is `near`. -/
def build (d : Dir) (color : Color) (near : ColorTree α) (item : α) (far : ColorTree α) :
    ColorTree α :=
  match d with
  | .left => node color near item far
  | .right => node color far item near

def toList : ColorTree α → List α
  | leaf => []
  | node _ left item right => left.toList ++ item :: right.toList

def size : ColorTree α → Nat
  | leaf => 0
  | node _ left _ right => left.size + right.size + 1

/-- Empty trees stand for the black sentinel. -/
def rootColor : ColorTree α → Color
  | leaf => .black
  | node color _ _ _ => color

def blacken : ColorTree α → ColorTree α
  | leaf => leaf
  | node _ left item right => node .black left item right

/-- Every path from the root to a leaf passes this many black nodes. -/
def BlackHeight : ColorTree α → Nat → Prop
  | leaf, n => n = 0
  | node color left _ right, n =>
      ∃ m, n = m + color.weight ∧ left.BlackHeight m ∧ right.BlackHeight m

def NoRedRed : ColorTree α → Prop
  | leaf => True
  | node color left _ right =>
      (color = .red → left.rootColor = .black ∧ right.rootColor = .black) ∧
        left.NoRedRed ∧ right.NoRedRed

structure Valid (t : ColorTree α) : Prop where
  root : t.rootColor = .black
  noRedRed : t.NoRedRed
  balanced : ∃ n, t.BlackHeight n

end ColorTree

open ColorTree

def Frame.fill (f : Frame α) (t : ColorTree α) : ColorTree α := build f.dir f.color t f.item f.other

/-- The whole tree around a subtree; the head of the path is the parent. -/
def plug : List (Frame α) → ColorTree α → ColorTree α
  | [], t => t
  | f :: fs, t => plug fs (f.fill t)

namespace Frame

def before (f : Frame α) : List α :=
  match f.dir with
  | .left => []
  | .right => f.other.toList ++ [f.item]

def after (f : Frame α) : List α :=
  match f.dir with
  | .left => f.item :: f.other.toList
  | .right => []

end Frame

/-- The items left of the hole, in order. -/
def before : List (Frame α) → List α
  | [] => []
  | f :: fs => before fs ++ f.before

/-- The items right of the hole, in order. -/
def after : List (Frame α) → List α
  | [] => []
  | f :: fs => f.after ++ after fs

@[simp] theorem plug_nil (t : ColorTree α) : plug [] t = t := rfl

theorem plug_cons (f : Frame α) (fs : List (Frame α)) (t : ColorTree α) :
    plug (f :: fs) t = plug fs (f.fill t) := rfl

theorem build_opp (d : Dir) (color : Color) (near : ColorTree α) (item : α) (far : ColorTree α) :
    build d.opp color near item far = build d color far item near := by
  cases d <;> rfl

/-- The frame of the sibling, when the subtree itself is `t`. -/
def Frame.flip (f : Frame α) (t : ColorTree α) : Frame α := ⟨f.dir.opp, f.color, f.item, t⟩

/-- The same tree seen from the sibling of a subtree. -/
theorem plug_flip (f : Frame α) (fs : List (Frame α)) (t : ColorTree α) :
    plug (f.flip t :: fs) f.other = plug (f :: fs) t := by
  rw [plug_cons, plug_cons, Frame.fill, Frame.fill, Frame.flip, build_opp]

@[simp] theorem rootColor_build (d : Dir) (color : Color) (near : ColorTree α) (item : α)
    (far : ColorTree α) : (build d color near item far).rootColor = color := by
  cases d <;> rfl

@[simp] theorem rootColor_fill (f : Frame α) (t : ColorTree α) : (f.fill t).rootColor = f.color :=
  rootColor_build ..

@[simp] theorem blacken_build (d : Dir) (color : Color) (near : ColorTree α) (item : α)
    (far : ColorTree α) : (build d color near item far).blacken = build d .black near item far := by
  cases d <;> rfl

@[simp] theorem rootColor_blacken (t : ColorTree α) : t.blacken.rootColor = .black := by
  cases t <;> rfl

theorem blacken_of_black {t : ColorTree α} (black : t.rootColor = .black) : t.blacken = t := by
  cases t with
  | leaf => rfl
  | node color left item right =>
      have isBlack : color = .black := black
      rw [isBlack]
      rfl

@[simp] theorem toList_blacken (t : ColorTree α) : t.blacken.toList = t.toList := by
  cases t <;> rfl

theorem toList_build (d : Dir) (color : Color) (near : ColorTree α) (item : α)
    (far : ColorTree α) : (build d color near item far).toList =
      match d with
      | .left => near.toList ++ item :: far.toList
      | .right => far.toList ++ item :: near.toList := by
  cases d <;> rfl

theorem toList_fill (f : Frame α) (t : ColorTree α) :
    (f.fill t).toList = f.before ++ t.toList ++ f.after := by
  cases f with
  | mk dir color item other =>
      cases dir <;> simp [Frame.fill, build, Frame.before, Frame.after, toList]

theorem toList_plug (fs : List (Frame α)) (t : ColorTree α) :
    (plug fs t).toList = before fs ++ t.toList ++ after fs := by
  induction fs generalizing t with
  | nil => simp [before, after]
  | cons f fs ih => simp [plug_cons, ih, toList_fill, before, after]

theorem size_eq_length (t : ColorTree α) : t.size = t.toList.length := by
  induction t with
  | leaf => rfl
  | node color left item right ihl ihr => simp [size, toList, ihl, ihr]; omega

/-- A nonempty tree seen from either side. -/
theorem exists_build (d : Dir) (color : Color) (left : ColorTree α) (item : α)
    (right : ColorTree α) :
    ∃ near far, node color left item right = build d color near item far := by
  cases d
  · exact ⟨left, right, rfl⟩
  · exact ⟨right, left, rfl⟩

section Invariant

theorem blackHeight_build (d : Dir) (color : Color) (near : ColorTree α) (item : α)
    (far : ColorTree α)
    (n : Nat) : (build d color near item far).BlackHeight n ↔
      ∃ m, n = m + color.weight ∧ near.BlackHeight m ∧ far.BlackHeight m := by
  cases d
  · rfl
  · simp only [build, BlackHeight]
    constructor <;> rintro ⟨m, same, first, second⟩ <;> exact ⟨m, same, second, first⟩

theorem noRedRed_build (d : Dir) (color : Color) (near : ColorTree α) (item : α)
    (far : ColorTree α) :
    (build d color near item far).NoRedRed ↔
      (color = .red → near.rootColor = .black ∧ far.rootColor = .black) ∧
        near.NoRedRed ∧ far.NoRedRed := by
  cases d
  · rfl
  · simp only [build, NoRedRed]
    tauto

theorem NoRedRed.blacken {t : ColorTree α} (valid : t.NoRedRed) : t.blacken.NoRedRed := by
  cases t with
  | leaf => trivial
  | node color left item right => exact ⟨by simp, valid.2⟩

/-- The hole expects a subtree of black height `n`. -/
def PathHeight : List (Frame α) → Nat → Prop
  | [], _ => True
  | f :: fs, n => f.other.BlackHeight n ∧ PathHeight fs (n + f.color.weight)

/-- The parent of the hole is a black node. -/
def BlackParent (fs : List (Frame α)) : Prop := ∃ f rest, fs = f :: rest ∧ f.color = .black

/-- No red node of the path is the root or has a red child, the hole aside. -/
def PathNoRedRed : List (Frame α) → Prop
  | [] => True
  | f :: fs => (f.color = .red → f.other.rootColor = .black ∧ BlackParent fs) ∧
      f.other.NoRedRed ∧ PathNoRedRed fs

/-- The red-black conditions of a whole tree, read at one of its subtrees. -/
theorem valid_plug_iff (fs : List (Frame α)) (t : ColorTree α) :
    (plug fs t).Valid ↔
      t.NoRedRed ∧ PathNoRedRed fs ∧ (t.rootColor = .red → BlackParent fs) ∧
        ∃ n, t.BlackHeight n ∧ PathHeight fs n := by
  induction fs generalizing t with
  | nil =>
      rw [plug_nil]
      constructor
      · rintro ⟨root, noRedRed, n, height⟩
        refine ⟨noRedRed, trivial, fun red => ?_, n, height, trivial⟩
        rw [root] at red
        cases red
      · rintro ⟨noRedRed, -, root, n, height, -⟩
        refine ⟨?_, noRedRed, n, height⟩
        cases color : t.rootColor with
        | black => rfl
        | red =>
            obtain ⟨f, rest, impossible, -⟩ := root color
            cases impossible
  | cons f fs ih =>
      rw [plug_cons, ih, Frame.fill, noRedRed_build, rootColor_build]
      constructor
      · rintro ⟨⟨colors, near, far⟩, path, root, n, height, rest⟩
        obtain ⟨m, rfl, nearHeight, farHeight⟩ := (blackHeight_build ..).mp height
        refine ⟨near, ⟨fun red => ⟨(colors red).2, root red⟩, far, path⟩, ?_,
          m, nearHeight, farHeight, rest⟩
        intro red
        refine ⟨f, fs, rfl, ?_⟩
        cases color : f.color with
        | black => rfl
        | red => rw [(colors color).1] at red; cases red
      · rintro ⟨near, ⟨colors, far, path⟩, root, n, nearHeight, farHeight, rest⟩
        refine ⟨⟨?_, near, far⟩, path, fun red => (colors red).2, n + f.color.weight,
          (blackHeight_build ..).mpr ⟨n, rfl, nearHeight, farHeight⟩, rest⟩
        intro red
        refine ⟨?_, (colors red).1⟩
        cases color : t.rootColor with
        | black => rfl
        | red =>
            obtain ⟨g, gs, same, black⟩ := root color
            cases same
            rw [red] at black
            cases black

end Invariant

end LinuxCpp.RedBlack
