import LinuxCpp.RedBlack.InsertRepair
import LinuxCpp.RedBlack.Search

set_option autoImplicit false

/- The node a deletion unlinks, and what is left where it was. Every case but
one ends with a recolouring; a black leaf below another node leaves a black
height too small, and needs the repair loop. -/
namespace LinuxCpp.RedBlack

open ColorTree

variable {α : Type}

/-- The first item of a nonempty subtree, with the path to it. -/
def leftmost : List (Frame α) → ColorTree α → List (Frame α) × ColorTree α
  | fs, leaf => (fs, leaf)
  | fs, node color leaf x right => (fs, node color leaf x right)
  | fs, node color (node color' left' x' right') x right =>
      leftmost (⟨.left, color, x, right⟩ :: fs) (node color' left' x' right')

theorem plug_append (fs gs : List (Frame α)) (t : ColorTree α) :
    plug (fs ++ gs) t = plug gs (plug fs t) := by
  induction fs generalizing t with
  | nil => rfl
  | cons f fs ih => exact ih _

/-- The path to the first item goes left only. -/
theorem leftmost_shape (fs : List (Frame α)) (t : ColorTree α) (nonempty : t ≠ leaf) :
    ∃ pre color y right, leftmost fs t = (pre ++ fs, node color leaf y right) ∧
      before pre = [] ∧ plug pre (node color leaf y right) = t := by
  induction fs, t using leftmost.induct with
  | case1 fs => exact absurd rfl nonempty
  | case2 fs color x right => exact ⟨[], color, x, right, rfl, rfl, rfl⟩
  | case3 fs color color' left' x' right' x right ih =>
      obtain ⟨pre, c, y, r, found, noneBefore, whole⟩ := ih (by simp)
      refine ⟨pre ++ [⟨.left, color, x, right⟩], c, y, r, ?_, ?_, ?_⟩
      · rw [leftmost, found, List.append_assoc]
        rfl
      · clear found whole ih
        induction pre with
        | nil => rfl
        | cons f pre ih =>
            simp only [before, List.append_eq_nil_iff, List.cons_append] at noneBefore ⊢
            exact ⟨ih noneBefore.1, noneBefore.2⟩
      · rw [plug_append, whole]
        rfl

/-- The child of a node that has at most one. -/
def join : ColorTree α → ColorTree α → ColorTree α
  | leaf, right => right
  | node color left x right, _ => node color left x right

/-- What takes the place of an unlinked node of this colour. -/
def spliceOut (color : Color) (left right : ColorTree α) : ColorTree α :=
  match color with
  | .red => join left right
  | .black => (join left right).blacken

theorem toList_join {left right : ColorTree α} (one : left = leaf ∨ right = leaf) :
    (join left right).toList = left.toList ++ right.toList := by
  cases left with
  | leaf => rfl
  | node color l x r =>
      have empty : right = leaf := one.resolve_left (by simp)
      simp [join, empty, toList]

theorem toList_spliceOut {color : Color} {left right : ColorTree α}
    (one : left = leaf ∨ right = leaf) :
    (spliceOut color left right).toList = left.toList ++ right.toList := by
  cases color
  · exact toList_join one
  · rw [spliceOut, toList_blacken, toList_join one]

theorem eq_leaf_of_blackHeight {t : ColorTree α} (height : t.BlackHeight 0)
    (black : t.rootColor = .black) : t = leaf := by
  cases t with
  | leaf => rfl
  | node color left x right =>
      have isBlack : color = .black := black
      subst isBlack
      obtain ⟨m, impossible, -⟩ := height
      simp only [Color.weight] at impossible
      omega

/-- The only child of a node is balanced, of black height 0. -/
theorem join_of_valid {color : Color} {left right : ColorTree α} {x : α} {n : Nat}
    (one : left = leaf ∨ right = leaf) (height : (node color left x right).BlackHeight n)
    (noRedRed : (node color left x right).NoRedRed) :
    n = color.weight ∧ (join left right).BlackHeight 0 ∧ (join left right).NoRedRed ∧
      (color = .red → join left right = leaf) := by
  obtain ⟨m, rfl, leftHeight, rightHeight⟩ := height
  have zero : m = 0 := by
    rcases one with rfl | rfl
    · exact leftHeight
    · exact rightHeight
  subst zero
  cases left with
  | leaf =>
      exact ⟨Nat.zero_add _, rightHeight, noRedRed.2.2, fun red =>
        eq_leaf_of_blackHeight rightHeight (noRedRed.1 red).2⟩
  | node c l y r =>
      exact ⟨Nat.zero_add _, leftHeight, noRedRed.2.1, fun red =>
        eq_leaf_of_blackHeight leftHeight (noRedRed.1 red).1⟩

/-- Unlinking a node with at most one child keeps the conditions, unless it is
a black leaf below another node. -/
theorem valid_spliceOut {fs : List (Frame α)} {color : Color} {left right : ColorTree α} {x : α}
    (valid : (plug fs (node color left x right)).Valid) (one : left = leaf ∨ right = leaf)
    (easy : color = .black → left = leaf → right = leaf → fs = []) :
    (plug fs (spliceOut color left right)).Valid := by
  obtain ⟨noRedRed, path, root, n, height, rest⟩ := (valid_plug_iff _ _).mp valid
  obtain ⟨rfl, childHeight, childValid, redCase⟩ := join_of_valid one height noRedRed
  cases color with
  | red =>
      rw [spliceOut, redCase rfl, valid_plug_iff]
      exact ⟨trivial, path, by simp [rootColor], 0, rfl, rest⟩
  | black =>
      rw [spliceOut]
      cases child : join left right with
      | leaf =>
          have both : left = leaf ∧ right = leaf := by
            cases left with
            | leaf => exact ⟨rfl, child⟩
            | node c l y r => cases child
          rw [easy rfl both.1 both.2]
          exact ⟨rfl, trivial, 0, rfl⟩
      | node c l y r =>
          rw [child] at childHeight childValid
          have red : c = .red := by
            refine Color.eq_red fun black => ?_
            have := eq_leaf_of_blackHeight childHeight black
            cases this
          rw [valid_plug_iff]
          exact ⟨NoRedRed.blacken childValid, path, by simp [blacken, rootColor], 1,
            blackHeight_blacken (show (node c l y r).rootColor = .red from red) childHeight, rest⟩

/-- Colours do not depend on the items. -/
theorem valid_replace {fs : List (Frame α)} {d : Dir} {color : Color} {near far : ColorTree α}
    {x : α} (x' : α) (valid : (plug fs (build d color near x far)).Valid) :
    (plug fs (build d color near x' far)).Valid := by
  rw [valid_plug_iff, noRedRed_build, rootColor_build] at valid ⊢
  simp only [blackHeight_build] at valid ⊢
  exact valid

section Point

variable {κ : Type} [LinearOrder κ] (key : α → κ) (k : κ)

/-- The node that the deletion of `k` unlinks: its own, or the next in order if
its own has two children. -/
def splicePoint (t : ColorTree α) : List (Frame α) × ColorTree α :=
  match seek key k [] t with
  | (fs, node color (node c l x r) z (node c' l' x' r')) =>
      leftmost (⟨.right, color, z, node c l x r⟩ :: fs) (node c' l' x' r')
  | point => point

/-- The deletion of `k` unlinks a black node without children that is not the
root. -/
def splicesBlackLeaf (t : ColorTree α) : Bool :=
  match splicePoint key k t with
  | (_ :: _, node .black leaf _ leaf) => true
  | _ => false

end Point

end LinuxCpp.RedBlack
