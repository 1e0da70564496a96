import LinuxCpp.RedBlack.Tree

set_option autoImplicit false

namespace LinuxCpp.RedBlack

open ColorTree

variable {α : Type}

/-- The subtree that replaces grandparent, parent and `t` when the uncle is
black: one rotation if `t` is an outer grandchild, two if it is an inner one. -/
def straighten (f g : Frame α) (t : ColorTree α) : ColorTree α :=
  if f.dir = g.dir then
    build g.dir .black t f.item (build g.dir .red f.other g.item g.other)
  else
    match g.dir, t with
    | _, leaf => leaf
    | .left, node _ near item far =>
        build .left .black (build .left .red f.other f.item near) item
          (build .left .red far g.item g.other)
    | .right, node _ far item near =>
        build .right .black (build .right .red f.other f.item near) item
          (build .right .red far g.item g.other)

theorem straighten_outer (f g : Frame α) (t : ColorTree α) (outer : f.dir = g.dir) :
    straighten f g t = build g.dir .black t f.item (build g.dir .red f.other g.item g.other) := by
  unfold straighten
  rw [if_pos outer]

theorem straighten_inner (f g : Frame α) (color : Color) (near far : ColorTree α) (item : α)
    (inner : f.dir = g.dir.opp) :
    straighten f g (build g.dir color near item far) =
      build g.dir .black (build g.dir .red f.other f.item near) item
        (build g.dir .red far g.item g.other) := by
  have different : f.dir ≠ g.dir := by rw [inner]; exact Dir.opp_ne _
  unfold straighten
  rw [if_neg different]
  cases side : g.dir <;> simp [build]

/-- Red uncle: parent and uncle turn black, the grandparent red. -/
def recolor (f g : Frame α) (t : ColorTree α) : ColorTree α :=
  build g.dir .red (build f.dir .black t f.item f.other) g.item g.other.blacken

/-- The insertion repair on a path: `t` is red, and so may be its parent. -/
def repairInsert : List (Frame α) → ColorTree α → ColorTree α
  | [], t => t.blacken
  | [f], t => (f.fill t).blacken
  | f :: g :: fs, t =>
      if f.color = .black then (plug (f :: g :: fs) t).blacken
      else if g.other.rootColor = .red then repairInsert fs (recolor f g t)
      else (plug fs (straighten f g t)).blacken

theorem toList_straighten (f g : Frame α) (t : ColorTree α) (nonempty : t ≠ leaf) :
    (straighten f g t).toList = g.before ++ (f.before ++ t.toList ++ f.after) ++ g.after := by
  rcases Dir.eq_or_opp g.dir f.dir with outer | inner
  · rw [straighten_outer f g t outer]
    cases side : g.dir <;> simp [build, toList, Frame.before, Frame.after, outer, side]
  · cases t with
    | leaf => exact absurd rfl nonempty
    | node color left item right =>
        obtain ⟨near, far, shape⟩ := exists_build g.dir color left item right
        rw [shape, straighten_inner f g color near far item inner]
        cases side : g.dir <;>
          simp [build, toList, Frame.before, Frame.after, inner, side, Dir.opp]

theorem toList_recolor (f g : Frame α) (t : ColorTree α) :
    (recolor f g t).toList = g.before ++ (f.before ++ t.toList ++ f.after) ++ g.after := by
  cases side : g.dir <;> cases inner : f.dir <;>
    simp [recolor, build, toList, Frame.before, Frame.after, side, inner]

/-- The repair moves nothing in the in-order sequence. -/
theorem toList_repairInsert (fs : List (Frame α)) (t : ColorTree α) (nonempty : t ≠ leaf) :
    (repairInsert fs t).toList = before fs ++ t.toList ++ after fs := by
  induction fs, t using repairInsert.induct with
  | case1 t => simp [repairInsert, before, after]
  | case2 f t => simp [repairInsert, toList_fill, before, after]
  | case3 f g fs t black =>
      rw [repairInsert, if_pos black, toList_blacken, toList_plug]
  | case4 f g fs t red uncle ih =>
      rw [repairInsert, if_neg red, if_pos uncle, ih (by
        unfold recolor
        cases g.dir <;> simp [build]), toList_recolor]
      simp [before, after]
  | case5 f g fs t red uncle =>
      rw [repairInsert, if_neg red, if_neg uncle, toList_blacken, toList_plug,
        toList_straighten f g t nonempty]
      simp [before, after]

/-- What the repair loop preserves: `t` is a red node over valid subtrees, and
the path is valid except that the parent of `t` may be red. -/
structure RedAt (fs : List (Frame α)) (t : ColorTree α) : Prop where
  red : t.rootColor = .red
  noRedRed : t.NoRedRed
  path : PathNoRedRed fs
  balanced : ∃ n, t.BlackHeight n ∧ PathHeight fs n

theorem RedAt.ne_leaf {fs : List (Frame α)} {t : ColorTree α} (at_ : RedAt fs t) : t ≠ leaf := by
  rintro rfl
  have := at_.red
  cases this

theorem blackHeight_blacken {t : ColorTree α} {n : Nat} (red : t.rootColor = .red)
    (height : t.BlackHeight n) : t.blacken.BlackHeight (n + 1) := by
  cases t with
  | leaf => cases red
  | node color left item right =>
      have isRed : color = .red := red
      subst isRed
      obtain ⟨m, same, first, second⟩ := height
      exact ⟨m, by rw [same]; rfl, first, second⟩

theorem valid_blacken {t : ColorTree α} (noRedRed : t.NoRedRed) (balanced : ∃ n, t.BlackHeight n) :
    t.blacken.Valid := by
  refine ⟨rootColor_blacken t, NoRedRed.blacken noRedRed, ?_⟩
  obtain ⟨n, height⟩ := balanced
  cases t with
  | leaf => exact ⟨n, height⟩
  | node color left item right =>
      obtain ⟨m, rfl, first, second⟩ := height
      exact ⟨m + 1, m, rfl, first, second⟩

theorem blacken_of_valid {t : ColorTree α} (valid : t.Valid) : t.blacken = t :=
  blacken_of_black valid.root

/-- A red parent is below a black grandparent. -/
theorem RedAt.grandparent {f : Frame α} {fs : List (Frame α)} {t : ColorTree α}
    (at_ : RedAt (f :: fs) t) (red : f.color = .red) :
    ∃ g rest, fs = g :: rest ∧ g.color = .black := (at_.path.1 red).2

/-- The root of the whole tree is black. -/
theorem RedAt.parent_black {f : Frame α} {t : ColorTree α} (at_ : RedAt [f] t) :
    f.color = .black := by
  refine Color.eq_black fun red => ?_
  obtain ⟨g, rest, impossible, -⟩ := at_.grandparent red
  cases impossible

theorem RedAt.recolor {f g : Frame α} {fs : List (Frame α)} {t : ColorTree α}
    (at_ : RedAt (f :: g :: fs) t) (parent : f.color = .red) (uncle : g.other.rootColor = .red) :
    RedAt fs (recolor f g t) := by
  obtain ⟨n, height, sibling, uncleHeight, rest⟩ := at_.balanced
  obtain ⟨parentColors, siblingValid, grandColors, uncleValid, pathValid⟩ := at_.path
  obtain ⟨_, _, same, grand⟩ := (parentColors parent).2
  cases same
  rw [parent] at uncleHeight rest
  rw [grand] at rest
  simp only [Color.weight, Nat.add_zero] at uncleHeight rest
  refine ⟨rootColor_build .., ?_, pathValid, n + 1, ?_, rest⟩
  · rw [RedBlack.recolor, noRedRed_build, noRedRed_build]
    refine ⟨fun _ => ⟨rootColor_build .., ?_⟩, ⟨by simp, at_.noRedRed, siblingValid⟩,
      NoRedRed.blacken uncleValid⟩
    cases g.other <;> rfl
  · rw [RedBlack.recolor, blackHeight_build]
    exact ⟨n + 1, rfl, (blackHeight_build ..).mpr ⟨n, rfl, height, sibling⟩,
      blackHeight_blacken uncle uncleHeight⟩

theorem RedAt.straighten {f g : Frame α} {fs : List (Frame α)} {t : ColorTree α}
    (at_ : RedAt (f :: g :: fs) t) (parent : f.color = .red) (uncle : g.other.rootColor ≠ .red) :
    (plug fs (straighten f g t)).Valid := by
  obtain ⟨n, height, sibling, uncleHeight, rest⟩ := at_.balanced
  obtain ⟨parentColors, siblingValid, grandColors, uncleValid, pathValid⟩ := at_.path
  obtain ⟨siblingColor, _, _, same, grand⟩ := parentColors parent
  cases same
  rw [parent] at uncleHeight rest
  rw [grand] at rest
  simp only [Color.weight, Nat.add_zero] at uncleHeight rest
  have uncleBlack : g.other.rootColor = .black := Color.eq_black uncle
  rw [valid_plug_iff]
  rcases Dir.eq_or_opp g.dir f.dir with outer | inner
  · rw [straighten_outer f g t outer]
    refine ⟨?_, pathValid, by simp, n + 1, ?_, rest⟩
    · simp only [noRedRed_build, rootColor_build]
      exact ⟨by simp, at_.noRedRed, fun _ => ⟨siblingColor, uncleBlack⟩, siblingValid, uncleValid⟩
    · rw [blackHeight_build]
      exact ⟨n, rfl, height, (blackHeight_build ..).mpr ⟨n, rfl, sibling, uncleHeight⟩⟩
  · cases t with
    | leaf => exact absurd rfl at_.ne_leaf
    | node color left item right =>
        obtain ⟨near, far, shape⟩ := exists_build g.dir color left item right
        have isRed : color = .red := at_.red
        subst isRed
        have valid := at_.noRedRed
        rw [shape] at height valid ⊢
        rw [noRedRed_build] at valid
        obtain ⟨m, same, nearHeight, farHeight⟩ := (blackHeight_build ..).mp height
        simp only [Color.weight, Nat.add_zero] at same
        subst same
        rw [straighten_inner f g .red near far item inner]
        refine ⟨?_, pathValid, by simp, n + 1, ?_, rest⟩
        · simp only [noRedRed_build, rootColor_build]
          exact ⟨by simp, ⟨fun _ => ⟨siblingColor, (valid.1 rfl).1⟩, siblingValid, valid.2.1⟩,
            fun _ => ⟨(valid.1 rfl).2, uncleBlack⟩, valid.2.2, uncleValid⟩
        · rw [blackHeight_build]
          exact ⟨n, rfl, (blackHeight_build ..).mpr ⟨n, rfl, sibling, nearHeight⟩,
            (blackHeight_build ..).mpr ⟨n, rfl, farHeight, uncleHeight⟩⟩

/-- The repair restores every red-black condition. -/
theorem repairInsert_valid (fs : List (Frame α)) (t : ColorTree α) (at_ : RedAt fs t) :
    (repairInsert fs t).Valid := by
  induction fs, t using repairInsert.induct with
  | case1 t =>
      obtain ⟨n, height, -⟩ := at_.balanced
      exact valid_blacken at_.noRedRed ⟨n, height⟩
  | case2 f t =>
      have black : f.color = .black := at_.parent_black
      have valid : (plug [f] t).Valid :=
        (valid_plug_iff _ _).mpr
          ⟨at_.noRedRed, at_.path, fun _ => ⟨f, [], rfl, black⟩, at_.balanced⟩
      change (plug [f] t).blacken.Valid
      rwa [blacken_of_valid valid]
  | case3 f g fs t black =>
      have valid : (plug (f :: g :: fs) t).Valid := (valid_plug_iff _ _).mpr
        ⟨at_.noRedRed, at_.path, fun _ => ⟨f, g :: fs, rfl, black⟩, at_.balanced⟩
      rwa [repairInsert, if_pos black, blacken_of_valid valid]
  | case4 f g fs t notBlack uncle ih =>
      have red : f.color = .red := Color.eq_red notBlack
      rw [repairInsert, if_neg notBlack, if_pos uncle]
      exact ih (at_.recolor red uncle)
  | case5 f g fs t notBlack uncle =>
      have red : f.color = .red := Color.eq_red notBlack
      have valid := at_.straighten red uncle
      rwa [repairInsert, if_neg notBlack, if_neg uncle, blacken_of_valid valid]

end LinuxCpp.RedBlack
