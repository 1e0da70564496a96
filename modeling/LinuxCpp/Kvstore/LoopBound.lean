import LinuxCpp.C.Extends
import LinuxCpp.Kvstore.Protocol

set_option autoImplicit false

/- The bound on the rounds of a loop decides whether the model returns, never
what it returns. -/
namespace LinuxCpp.Kvstore

open C RedBlack

section Loops

variable {T : Rbtree} {fuel more : Nat}

theorem searchFrom_extends (key : CStr) (node : Nat) (larger : fuel ≤ more) :
    Extends (searchFrom T key fuel node) (searchFrom T key more node) := by
  induction fuel generalizing more node with
  | zero => exact .error ..
  | succ fuel ih =>
      obtain ⟨more, rfl⟩ : ∃ n, more = n + 1 := ⟨more - 1, by omega⟩
      have rest := fun node => ih node (Nat.le_of_succ_le_succ larger)
      refine .ite (.refl _) (.after fun _ => .after fun _ => .ite ?_ (.ite ?_ (.refl _)))
      · exact .after fun _ => rest _
      · exact .after fun _ => rest _

theorem extremum_extends (d : Dir) (x : Nat) (larger : fuel ≤ more) :
    Extends (extremum d T fuel x) (extremum d T more x) := by
  induction fuel generalizing more x with
  | zero => exact .error ..
  | succ fuel ih =>
      obtain ⟨more, rfl⟩ : ∃ n, more = n + 1 := ⟨more - 1, by omega⟩
      exact .after fun next => .ite (ih next (Nat.le_of_succ_le_succ larger)) (.refl _)

theorem climb_extends (x y : Nat) (larger : fuel ≤ more) :
    Extends (climb T fuel x y) (climb T more x y) := by
  induction fuel generalizing more x y with
  | zero => exact .error ..
  | succ fuel ih =>
      obtain ⟨more, rfl⟩ : ∃ n, more = n + 1 := ⟨more - 1, by omega⟩
      refine .ite (.refl _) (.after fun _ => .ite (.after fun up => ?_) (.refl _))
      exact ih y up (Nat.le_of_succ_le_succ larger)

theorem rbtreeSuccessor_extends (x : Nat) (larger : fuel ≤ more) :
    Extends (rbtreeSuccessor fuel T x) (rbtreeSuccessor more T x) := by
  refine .after fun y => .after fun _ => .ite (.after fun right => ?_) ?_
  · exact extremum_extends .left right larger
  · exact climb_extends x y larger

theorem splicedNode_extends (z : Nat) (larger : fuel ≤ more) :
    Extends (splicedNode fuel T z) (splicedNode more T z) :=
  .after fun _ => .ite (.refl _)
    (.after fun _ => .ite (.refl _) (rbtreeSuccessor_extends z larger))

theorem insertDescent_extends (z y x : Nat) (larger : fuel ≤ more) :
    Extends (insertDescent T z fuel y x) (insertDescent T z more y x) := by
  induction fuel generalizing more y x with
  | zero => exact .error ..
  | succ fuel ih =>
      obtain ⟨more, rfl⟩ : ∃ n, more = n + 1 := ⟨more - 1, by omega⟩
      have rest := fun y x => ih y x (Nat.le_of_succ_le_succ larger)
      refine .ite (.refl _) (.after fun _ => .after fun _ => .after fun _ => .after fun _ => ?_)
      refine .ite (.after fun _ => rest ..) (.ite (.after fun _ => rest ..) (.refl _))

theorem rbtreeInsertFixup_extends (z : Nat) (larger : fuel ≤ more) :
    Extends (rbtreeInsertFixup fuel T z) (rbtreeInsertFixup more T z) := by
  induction fuel generalizing more T z with
  | zero => exact .error ..
  | succ fuel ih =>
      obtain ⟨more, rfl⟩ : ∃ n, more = n + 1 := ⟨more - 1, by omega⟩
      refine .after fun _ => .after fun _ => .ite ?_ (.refl _)
      refine .after fun _ => .after fun _ => .after fun _ => .after fun _ => .after fun (T, z) => ?_
      exact ih z (Nat.le_of_succ_le_succ larger)

theorem rbtreeInsert_extends (z : Nat) (larger : fuel ≤ more) :
    Extends (rbtreeInsert fuel T z) (rbtreeInsert more T z) := by
  refine (insertDescent_extends z _ _ larger).bind fun place => ?_
  cases place with
  | none => exact .refl _
  | some y =>
      refine .after fun _ => .after fun _ => .after fun _ => .after fun _ => .after fun _ => ?_
      exact rbtreeInsertFixup_extends z larger

theorem rbtreeDeleteFixup_extends (x : Nat) (larger : fuel ≤ more) :
    Extends (rbtreeDeleteFixup fuel T x) (rbtreeDeleteFixup more T x) := by
  induction fuel generalizing more T x with
  | zero => exact .error ..
  | succ fuel ih =>
      obtain ⟨more, rfl⟩ : ∃ n, more = n + 1 := ⟨more - 1, by omega⟩
      refine .ite (.refl _) (.after fun _ => .ite ?_ (.refl _))
      refine .after fun _ => .after fun _ => .after fun (T, x) => ?_
      exact ih x (Nat.le_of_succ_le_succ larger)

theorem rbtreeDelete_extends (z : Nat) (larger : fuel ≤ more) :
    Extends (rbtreeDelete fuel T z) (rbtreeDelete more T z) := by
  refine (splicedNode_extends z larger).bind fun y => .after fun x => .after fun _ => ?_
  refine .after fun _ => .after fun _ => .after fun _ => .after fun _ => .ite ?_ (.refl _)
  exact (rbtreeDeleteFixup_extends x larger).bind fun _ => .refl _

end Loops

section Commands

variable {T : Rbtree} {S : Store} {fuel more : Nat}

theorem rbtreeSearch_extends (key : CStr) (larger : fuel ≤ more) :
    Extends (rbtreeSearch fuel T key) (rbtreeSearch more T key) :=
  searchFrom_extends key T.root larger

theorem kvsRbtreeSet_extends (key value : Option CStr) (larger : fuel ≤ more) :
    ExtendsM (kvsRbtreeSet fuel T key value) (kvsRbtreeSet more T key value) := by
  unfold kvsRbtreeSet
  split
  · refine .after fun (T, node) => .bind (.lift (rbtreeSearch_extends _ larger)) fun _ => ?_
    refine .ite (.refl _) (.after fun _ => .after fun _ => .ite (.refl _) (.after fun _ => ?_))
    refine .after fun _ => .ite (.refl _) ?_
    exact .bind (.lift (rbtreeInsert_extends node larger)) fun _ => .refl _
  · exact .refl _

theorem kvsRbtreeGet_extends (key : Option CStr) (larger : fuel ≤ more) :
    Extends (kvsRbtreeGet fuel T key) (kvsRbtreeGet more T key) := by
  unfold kvsRbtreeGet
  split
  · exact .refl _
  · exact (rbtreeSearch_extends _ larger).bind fun _ => .refl _

theorem kvsRbtreeDel_extends (key : Option CStr) (larger : fuel ≤ more) :
    ExtendsM (kvsRbtreeDel fuel T key) (kvsRbtreeDel more T key) := by
  unfold kvsRbtreeDel
  split
  · exact .refl _
  · refine .bind (.lift (rbtreeSearch_extends _ larger)) fun node => .ite (.refl _) ?_
    exact .bind (.lift (rbtreeDelete_extends node larger)) fun _ => .refl _

theorem kvsRbtreeMod_extends (key value : Option CStr) (larger : fuel ≤ more) :
    ExtendsM (kvsRbtreeMod fuel T key value) (kvsRbtreeMod more T key value) := by
  unfold kvsRbtreeMod
  split
  · exact .bind (.lift (rbtreeSearch_extends _ larger)) fun _ => .refl _
  · exact .refl _

theorem kvsRbtreeExist_extends (key : Option CStr) (larger : fuel ≤ more) :
    Extends (kvsRbtreeExist fuel T key) (kvsRbtreeExist more T key) := by
  unfold kvsRbtreeExist
  split
  · exact .refl _
  · exact (rbtreeSearch_extends _ larger).bind fun _ => .refl _

/-- Only the red-black engine has loops without a bound of their own. -/
theorem runCommand_extends (key value : Option CStr) (engine : Engine) (verb : Verb)
    (larger : fuel ≤ more) :
    ExtendsM (runCommand fuel S key value engine verb)
      (runCommand more S key value engine verb) := by
  cases engine with
  | array => cases verb <;> exact .refl _
  | hash => cases verb <;> exact .refl _
  | rbtree =>
      cases verb with
      | set =>
          refine .bind (.bind (kvsRbtreeSet_extends key value larger) fun _ => .refl _) fun _ => ?_
          exact .refl _
      | get => exact .bind (.lift (kvsRbtreeGet_extends key larger)) fun _ => .refl _
      | del =>
          exact .bind (.bind (kvsRbtreeDel_extends key larger) fun _ => .refl _) fun _ => .refl _
      | mod =>
          refine .bind (.bind (kvsRbtreeMod_extends key value larger) fun _ => .refl _) fun _ => ?_
          exact .refl _
      | exist => exact .bind (.lift (kvsRbtreeExist_extends key larger)) fun _ => .refl _

theorem kvsFilterProtocol_extends (tokens : List CStr) (larger : fuel ≤ more) :
    ExtendsM (kvsFilterProtocol fuel S tokens) (kvsFilterProtocol more S tokens) := by
  unfold kvsFilterProtocol
  split
  · exact .refl _
  · split
    · exact .refl _
    · exact runCommand_extends _ _ _ _ larger

theorem kvsProtocol_extends (msg : List UInt8) (length : Int) (larger : fuel ≤ more) :
    ExtendsM (kvsProtocol fuel S msg length) (kvsProtocol more S msg length) :=
  .ite (.refl _) (.after fun tokens => kvsFilterProtocol_extends tokens larger)

end Commands

end LinuxCpp.Kvstore
