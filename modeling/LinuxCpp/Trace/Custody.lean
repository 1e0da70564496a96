import Mathlib.Data.List.Nodup
import Mathlib.Logic.Function.Basic

set_option autoImplicit false

/- Things that are obtained, kept for a while and given back. They are numbered in the
order in which they were obtained. -/
namespace LinuxCpp.Trace

/-- How often a thing was given back, and whether it was used after that. -/
structure Fate where
  releases : Nat
  late : Bool
deriving DecidableEq, Repr

namespace Fate

def kept : Fate := ⟨0, false⟩

def settled : Fate := ⟨1, false⟩

theorem kept_ne_settled : kept ≠ settled := by decide

end Fate

/-- Of the things obtained so far, those in the list are still kept, each in one place;
the others were given back once and not used after that. -/
structure Custody (obtained : Nat) (held : List Nat) (fates : Nat → Fate) : Prop where
  once : held.Nodup
  known : ∀ id ∈ held, id < obtained
  kept : ∀ id ∈ held, fates id = .kept
  settled : ∀ id < obtained, id ∉ held → fates id = .settled
  unborn : ∀ id, obtained ≤ id → fates id = .kept

namespace Custody

variable {obtained more : Nat} {held held' gone placed : List Nat} {fates fates' : Nat → Fate}

theorem start : Custody 0 [] fun _ => .kept :=
  ⟨List.nodup_nil, fun _ member => absurd member List.not_mem_nil,
    fun _ member => absurd member List.not_mem_nil, fun _ none_ => absurd none_ (Nat.not_lt_zero _),
    fun _ _ => rfl⟩

/-- Only what is kept counts, not where. -/
theorem perm (custody : Custody obtained held fates) (same : held.Perm held') :
    Custody obtained held' fates :=
  ⟨same.nodup_iff.mp custody.once, fun id member => custody.known id (same.mem_iff.mpr member),
    fun id member => custody.kept id (same.mem_iff.mpr member),
    fun id below outside => custody.settled id below fun member => outside (same.mem_iff.mp member),
    custody.unborn⟩

/-- Some things leave and others are obtained. All is well after that exactly if those that
left were given back once, and those that were obtained all found their place. -/
theorem step_iff (custody : Custody obtained (gone ++ held) fates)
    (others : ∀ id ∉ gone, fates' id = fates id)
    (placed_new : ∀ id ∈ placed, obtained ≤ id ∧ id < obtained + more) (once : placed.Nodup) :
    Custody (obtained + more) (held ++ placed) fates' ↔
      (∀ id ∈ gone, fates' id = .settled) ∧
      ∀ id, obtained ≤ id → id < obtained + more → id ∈ placed := by
  obtain ⟨nodup, known, kept, settled, unborn⟩ := custody
  rw [List.nodup_append] at nodup
  have old {id : Nat} (member : id ∈ gone) : id < obtained :=
    known id (List.mem_append_left _ member)
  have apart {id : Nat} (member : id ∈ gone) (later : id ∈ held) : False :=
    nodup.2.2 id member id later rfl
  constructor
  · intro after
    refine ⟨fun id member => ?_, fun id lower upper => ?_⟩
    · apply after.settled id (Nat.lt_add_right more (old member))
      rw [List.mem_append, not_or]
      refine ⟨apart member, fun new => ?_⟩
      exact absurd (placed_new id new).1 (Nat.not_le_of_lt (old member))
    · by_contra lost
      have fresh : fates' id = .kept := by
        rw [others id fun member => absurd lower (Nat.not_le_of_lt (old member))]
        exact unborn id lower
      have outside : id ∉ held ++ placed := by
        rw [List.mem_append, not_or]
        refine ⟨fun member => ?_, lost⟩
        exact absurd lower (Nat.not_le_of_lt (known id (List.mem_append_right _ member)))
      exact Fate.kept_ne_settled (fresh.symm.trans (after.settled id upper outside))
  · rintro ⟨given, found⟩
    refine ⟨List.nodup_append.mpr ⟨nodup.2.1, once, ?_⟩, ?_, ?_, ?_, ?_⟩
    · intro id member id' new same
      have below := known id (List.mem_append_right _ member)
      have above := (placed_new id' new).1
      omega
    · intro id member
      rcases List.mem_append.mp member with still | new
      · exact Nat.lt_add_right more (known id (List.mem_append_right _ still))
      · exact (placed_new id new).2
    · intro id member
      rcases List.mem_append.mp member with still | new
      · rw [others id fun left => apart left still]
        exact kept id (List.mem_append_right _ still)
      · have above := (placed_new id new).1
        rw [others id fun left => absurd above (Nat.not_le_of_lt (old left))]
        exact unborn id above
    · intro id below outside
      rw [List.mem_append, not_or] at outside
      by_cases left : id ∈ gone
      · exact given id left
      · rw [others id left]
        apply settled
        · by_contra above
          exact outside.2 (found id (Nat.le_of_not_lt above) below)
        · rw [List.mem_append, not_or]
          exact ⟨left, outside.1⟩
    · intro id above
      rw [others id fun left => absurd (old left) (by omega)]
      exact unborn id (by omega)

/-- Nothing leaves, and one thing is obtained. -/
theorem obtain_iff (custody : Custody obtained held fates) (placed_new : placed ⊆ [obtained])
    (once : placed.Nodup) :
    Custody (obtained + 1) (held ++ placed) fates ↔ obtained ∈ placed := by
  have new (id : Nat) (member : id ∈ placed) : obtained ≤ id ∧ id < obtained + 1 := by
    have same := List.mem_singleton.mp (placed_new member)
    omega
  have step : Custody (obtained + 1) (held ++ placed) fates ↔ (∀ id ∈ [], fates id = .settled) ∧
      ∀ id, obtained ≤ id → id < obtained + 1 → id ∈ placed :=
    Custody.step_iff custody (fun _ _ => rfl) new once
  rw [step]
  constructor
  · rintro ⟨-, all⟩
    exact all obtained (Nat.le_refl _) (Nat.lt_succ_self _)
  · intro found
    refine ⟨fun id member => absurd member List.not_mem_nil, fun id lower upper => ?_⟩
    have same : id = obtained := by omega
    exact same ▸ found

/-- Some things leave, and nothing is obtained. -/
theorem give_iff (custody : Custody obtained (gone ++ held) fates)
    (others : ∀ id ∉ gone, fates' id = fates id) :
    Custody obtained held fates' ↔ ∀ id ∈ gone, fates' id = .settled := by
  have step : Custody (obtained + 0) (held ++ []) fates' ↔ (∀ id ∈ gone, fates' id = .settled) ∧
      ∀ id, obtained ≤ id → id < obtained + 0 → id ∈ [] :=
    custody.step_iff others (fun id member => absurd member List.not_mem_nil) List.nodup_nil
  rw [Nat.add_zero, List.append_nil] at step
  rw [step]
  constructor
  · exact And.left
  · exact fun given => ⟨given, fun id lower upper => absurd lower (Nat.not_le_of_lt upper)⟩

/-- What is obtained and given back at once. -/
theorem pass (custody : Custody obtained held fates) :
    Custody (obtained + 1) held (Function.update fates obtained .settled) := by
  have taken : Custody (obtained + 1) (held ++ [obtained]) fates :=
    (custody.obtain_iff (fun _ member => member) (List.nodup_singleton _)).mpr List.mem_cons_self
  apply ((taken.perm List.perm_append_comm).give_iff fun id outside => ?_).mpr
  · intro id member
    rw [List.mem_singleton.mp member, Function.update_self]
  · exact Function.update_of_ne (fun same => outside (List.mem_singleton.mpr same)) ..

end Custody

end LinuxCpp.Trace
