import LinuxCpp.RedBlack.Splice

set_option autoImplicit false

/- The repair after a deletion: one subtree is a black node short. Its sibling
is never empty, so there is a black node to borrow, or the whole level above
the sibling is made short as well and the defect moves up. -/
namespace LinuxCpp.RedBlack

open ColorTree

variable {α : Type}

/-- What the repair loop preserves: the paths through the hole are one black
node short, and `t` may be red whatever stands above or below it. -/
structure ShortAt (fs : List (Frame α)) (t : ColorTree α) : Prop where
  noRedRed : t.blacken.NoRedRed
  path : PathNoRedRed fs
  balanced : ∃ n, t.BlackHeight n ∧ PathHeight fs (n + 1)

/-- The repair of a path above a short subtree, as the trees it may end with. -/
inductive Mends : List (Frame α) → ColorTree α → ColorTree α → Prop
  | root {t : ColorTree α} : Mends [] t t.blacken
  | red {f : Frame α} {fs : List (Frame α)} {t : ColorTree α} (red : t.rootColor = .red) :
      Mends (f :: fs) t (plug (f :: fs) t.blacken)
  /-- A red sibling is lifted above the parent. -/
  | lift {fs : List (Frame α)} {t near far r : ColorTree α} {d : Dir} {p w : α}
      (rest : Mends (⟨d, .red, p, near⟩ :: ⟨d, .black, w, far⟩ :: fs) t r) :
      Mends (⟨d, .black, p, build d .red near w far⟩ :: fs) t r
  /-- A sibling with black children turns red, and the parent is short. -/
  | shift {fs : List (Frame α)} {t near far r : ColorTree α} {d : Dir} {c : Color} {p w : α}
      (black : t.rootColor = .black) (nearBlack : near.rootColor = .black)
      (farBlack : far.rootColor = .black)
      (rest : Mends fs (build d c t p (build d .red near w far)) r) :
      Mends (⟨d, c, p, build d .black near w far⟩ :: fs) t r
  /-- A red far nephew gives its colour away in one rotation. -/
  | outer {fs : List (Frame α)} {t near far : ColorTree α} {d : Dir} {c : Color} {p w : α}
      (black : t.rootColor = .black) (farRed : far.rootColor = .red) :
      Mends (⟨d, c, p, build d .black near w far⟩ :: fs) t
        (plug fs (build d c (build d .black t p near) w far.blacken))
  /-- A red near nephew does so in two. -/
  | inner {fs : List (Frame α)} {t left right far : ColorTree α} {d : Dir} {c : Color}
      {p v w : α} (black : t.rootColor = .black) (farBlack : far.rootColor = .black) :
      Mends (⟨d, c, p, build d .black (build d .red left v right) w far⟩ :: fs) t
        (plug fs (build d c (build d .black t p left) v (build d .black right w far)))

/-- The repair moves nothing in the in-order sequence. -/
theorem Mends.toList {fs : List (Frame α)} {t r : ColorTree α} (mends : Mends fs t r) :
    r.toList = (plug fs t).toList := by
  induction mends with
  | root => exact toList_blacken _
  | red => rw [toList_plug, toList_plug, toList_blacken]
  | @lift fs t near far r d p w rest ih =>
      rw [ih]
      cases d <;> simp [toList_plug, before, after, Frame.before, Frame.after, toList_build]
  | @shift fs t near far r d c p w black nearBlack farBlack rest ih =>
      rw [ih]
      cases d <;> simp [toList_plug, before, after, Frame.before, Frame.after, toList_build]
  | @outer fs t near far d c p w black farRed =>
      cases d <;> simp [toList_plug, before, after, Frame.before, Frame.after, toList_build]
  | @inner fs t left right far d c p v w black farBlack =>
      cases d <;> simp [toList_plug, before, after, Frame.before, Frame.after, toList_build]

namespace ShortAt

variable {fs : List (Frame α)} {f : Frame α} {t near far : ColorTree α} {d : Dir} {c : Color}
  {p w : α}

/-- The sibling of a short subtree is not empty. -/
theorem sibling (short : ShortAt (f :: fs) t) :
    ∃ d c p color near w far, f = ⟨d, c, p, build d color near w far⟩ := by
  obtain ⟨d, c, p, other⟩ := f
  obtain ⟨n, -, height, -⟩ := short.balanced
  cases other with
  | leaf => cases height
  | node color left w right =>
      obtain ⟨near, far, same⟩ := exists_build d color left w right
      exact ⟨d, c, p, color, near, w, far, by rw [same]⟩

/-- A red sibling stands below a black parent. -/
theorem parent_black (short : ShortAt (f :: fs) t) (red : f.other.rootColor = .red) :
    f.color = .black := by
  refine Color.eq_black fun parentRed => ?_
  have siblingBlack := (short.path.1 parentRed).1
  rw [red] at siblingBlack
  cases siblingBlack

/-- The new sibling is the near nephew, and it is black. -/
theorem lift (short : ShortAt (⟨d, .black, p, build d .red near w far⟩ :: fs) t) :
    ShortAt (⟨d, .red, p, near⟩ :: ⟨d, .black, w, far⟩ :: fs) t := by
  obtain ⟨noRedRed, ⟨-, sibling, path⟩, n, height, siblingHeight, rest⟩ := short
  obtain ⟨colors, nearValid, farValid⟩ := (noRedRed_build ..).mp sibling
  obtain ⟨m, same, nearHeight, farHeight⟩ := (blackHeight_build ..).mp siblingHeight
  simp only [Color.weight, Nat.add_zero] at same
  subst same
  refine ⟨noRedRed, ⟨fun _ => ⟨(colors rfl).1, _, _, rfl, rfl⟩, nearValid, by simp, farValid,
    path⟩, n, height, nearHeight, farHeight, rest⟩

/-- Once the sibling is red, both subtrees of the parent are short. -/
theorem shift (short : ShortAt (⟨d, c, p, build d .black near w far⟩ :: fs) t)
    (black : t.rootColor = .black) (nearBlack : near.rootColor = .black)
    (farBlack : far.rootColor = .black) :
    ShortAt fs (build d c t p (build d .red near w far)) := by
  obtain ⟨noRedRed, ⟨-, sibling, path⟩, n, height, siblingHeight, rest⟩ := short
  rw [blacken_of_black black] at noRedRed
  obtain ⟨-, nearValid, farValid⟩ := (noRedRed_build ..).mp sibling
  obtain ⟨m, same, nearHeight, farHeight⟩ := (blackHeight_build ..).mp siblingHeight
  simp only [Color.weight, Nat.add_right_cancel_iff] at same
  subst same
  refine ⟨?_, path, n + c.weight, ?_, ?_⟩
  · rw [blacken_build, noRedRed_build, noRedRed_build]
    exact ⟨by simp, noRedRed, fun _ => ⟨nearBlack, farBlack⟩, nearValid, farValid⟩
  · rw [blackHeight_build]
    exact ⟨n, rfl, height, (blackHeight_build ..).mpr ⟨n, rfl, nearHeight, farHeight⟩⟩
  · rwa [Nat.add_right_comm]

/-- A red root of the short subtree pays for the missing node. -/
theorem valid_red (short : ShortAt fs t) (red : t.rootColor = .red) :
    (plug fs t.blacken).Valid := by
  obtain ⟨n, height, rest⟩ := short.balanced
  rw [valid_plug_iff]
  exact ⟨short.noRedRed, short.path, by simp, n + 1,
    blackHeight_blacken red height, rest⟩

theorem valid_root (short : ShortAt [] t) : t.blacken.Valid := by
  cases color : t.rootColor with
  | red => exact short.valid_red color
  | black =>
      obtain ⟨n, height, -⟩ := short.balanced
      refine ⟨rootColor_blacken t, short.noRedRed, n, ?_⟩
      rwa [blacken_of_black color]

theorem valid_outer (short : ShortAt (⟨d, c, p, build d .black near w far⟩ :: fs) t)
    (black : t.rootColor = .black) (farRed : far.rootColor = .red) :
    (plug fs (build d c (build d .black t p near) w far.blacken)).Valid := by
  obtain ⟨noRedRed, ⟨colors, sibling, path⟩, n, height, siblingHeight, rest⟩ := short
  rw [blacken_of_black black] at noRedRed
  obtain ⟨-, nearValid, farValid⟩ := (noRedRed_build ..).mp sibling
  obtain ⟨m, same, nearHeight, farHeight⟩ := (blackHeight_build ..).mp siblingHeight
  simp only [Color.weight, Nat.add_right_cancel_iff] at same
  subst same
  rw [valid_plug_iff, noRedRed_build, noRedRed_build, rootColor_build, rootColor_build]
  refine ⟨⟨fun _ => ⟨rfl, rootColor_blacken far⟩, ⟨by simp, noRedRed, nearValid⟩,
    NoRedRed.blacken farValid⟩, path, fun red => (colors red).2, n + 1 + c.weight, ?_, rest⟩
  rw [blackHeight_build]
  exact ⟨n + 1, rfl, (blackHeight_build ..).mpr ⟨n, rfl, height, nearHeight⟩,
    blackHeight_blacken farRed farHeight⟩

theorem valid_inner {left right : ColorTree α} {v : α}
    (short : ShortAt (⟨d, c, p, build d .black (build d .red left v right) w far⟩ :: fs) t)
    (black : t.rootColor = .black) :
    (plug fs (build d c (build d .black t p left) v (build d .black right w far))).Valid := by
  obtain ⟨noRedRed, ⟨colors, sibling, path⟩, n, height, siblingHeight, rest⟩ := short
  rw [blacken_of_black black] at noRedRed
  obtain ⟨-, nearValid, farValid⟩ := (noRedRed_build ..).mp sibling
  obtain ⟨-, leftValid, rightValid⟩ := (noRedRed_build ..).mp nearValid
  obtain ⟨m, same, nearHeight, farHeight⟩ := (blackHeight_build ..).mp siblingHeight
  simp only [Color.weight, Nat.add_right_cancel_iff] at same
  subst same
  obtain ⟨k, same, leftHeight, rightHeight⟩ := (blackHeight_build ..).mp nearHeight
  simp only [Color.weight, Nat.add_zero] at same
  subst same
  rw [valid_plug_iff, noRedRed_build, noRedRed_build, noRedRed_build]
  refine ⟨⟨by simp, ⟨by simp, noRedRed, leftValid⟩, by simp, rightValid, farValid⟩, path,
    fun red => (colors (by rwa [rootColor_build] at red)).2, n + 1 + c.weight, ?_, rest⟩
  rw [blackHeight_build]
  exact ⟨n + 1, rfl, (blackHeight_build ..).mpr ⟨n, rfl, height, leftHeight⟩,
    (blackHeight_build ..).mpr ⟨n, rfl, rightHeight, farHeight⟩⟩

end ShortAt

/-- The repair restores every red-black condition. -/
theorem Mends.valid {fs : List (Frame α)} {t r : ColorTree α} (mends : Mends fs t r)
    (short : ShortAt fs t) : r.Valid := by
  induction mends with
  | root => exact short.valid_root
  | red red => exact short.valid_red red
  | lift rest ih => exact ih short.lift
  | shift black nearBlack farBlack rest ih => exact ih (short.shift black nearBlack farBlack)
  | outer black farRed => exact short.valid_outer black farRed
  | inner black farBlack => exact short.valid_inner black

end LinuxCpp.RedBlack
