import Mathlib.Data.List.Perm.Basic
import Mathlib.Data.List.Nodup
import Mathlib.Logic.Function.Basic

set_option autoImplicit false

/- Labelled items of which some are kept and the others lent. What is out are the
labels of the items lent. -/
namespace LinuxCpp.Trace

variable {ι η : Type}

/-- No item is in two places, no two items have one label, and each lent item is out
once. -/
structure Lending (label : ι → Option η) (kept lent : List ι) (out : List (Option η)) : Prop where
  apart : (kept ++ lent).Nodup
  labelled : ∀ item ∈ kept ++ lent, ∃ name, label item = some name
  labels : ((kept ++ lent).map label).Nodup
  owed : out.Perm (lent.map label)

namespace Lending

variable {label : ι → Option η} {kept lent before after : List ι} {out : List (Option η)} {item : ι}

theorem start (label : ι → Option η) : Lending label [] [] [] :=
  ⟨List.nodup_nil, fun _ member => absurd member List.not_mem_nil, List.nodup_nil, .refl _⟩

/-- The same items in other places. -/
theorem rearrange {kept' lent' : List ι} {out' : List (Option η)}
    (lending : Lending label kept lent out) (same : (kept ++ lent).Perm (kept' ++ lent'))
    (owed : out'.Perm (lent'.map label)) : Lending label kept' lent' out' :=
  ⟨same.nodup_iff.mp lending.apart,
    fun item member => lending.labelled item (same.mem_iff.mpr member),
    (same.map label).nodup_iff.mp lending.labels, owed⟩

theorem lend (lending : Lending label (item :: kept) lent out) :
    Lending label kept (item :: lent) (label item :: out) :=
  lending.rearrange List.perm_middle.symm (lending.owed.cons _)

theorem giveBack (lending : Lending label kept (before ++ item :: after) (label item :: out)) :
    Lending label (item :: kept) (before ++ after) out := by
  refine lending.rearrange ?_ ?_
  · rw [List.cons_append, ← List.append_assoc]
    exact List.perm_middle.trans (by rw [List.append_assoc])
  · have owed := lending.owed
    rw [List.map_append, List.map_cons] at owed
    rw [List.map_append]
    exact List.Perm.cons_inv (owed.trans List.perm_middle)

/-- A label that is out belongs to one lent item. -/
theorem owner {name : η} (lending : Lending label kept lent out) (isOut : some name ∈ out) :
    ∃ item ∈ lent, label item = some name := by
  obtain ⟨item, member, isName⟩ := List.mem_map.mp (lending.owed.mem_iff.mp isOut)
  exact ⟨item, member, isName⟩

theorem out_nodup (lending : Lending label kept lent out) : out.Nodup := by
  have labels := lending.labels
  rw [List.map_append] at labels
  exact lending.owed.nodup_iff.mpr (List.nodup_append.mp labels).2.1

/-- What is kept is not out. -/
theorem kept_not_out (lending : Lending label (item :: kept) lent out) : label item ∉ out := by
  intro isOut
  have labels := lending.labels
  rw [List.cons_append, List.map_cons, List.map_append] at labels
  refine (List.nodup_cons.mp labels).1 (List.mem_append_right _ ?_)
  exact lending.owed.mem_iff.mp isOut

variable [DecidableEq ι]

/-- A new label for an item that is nowhere. -/
theorem relabel (lending : Lending label kept lent out) (outside : item ∉ kept ++ lent)
    (new : Option η) : Lending (Function.update label item new) kept lent out := by
  have same : ∀ other ∈ kept ++ lent, Function.update label item new other = label other := by
    intro other member
    have differs : other ≠ item := fun equal => outside (equal ▸ member)
    exact Function.update_of_ne differs ..
  refine ⟨lending.apart, fun other member => ?_, ?_, ?_⟩
  · rw [same other member]
    exact lending.labelled other member
  · rw [List.map_congr_left same]
    exact lending.labels
  · rw [List.map_congr_left fun other member => same other (List.mem_append_right _ member)]
    exact lending.owed

theorem drop (lending : Lending label (item :: kept) lent out) (new : Option η) :
    Lending (Function.update label item new) kept lent out := by
  have apart := List.nodup_cons.mp lending.apart
  refine relabel ⟨apart.2, fun other member => ?_, ?_, lending.owed⟩ apart.1 new
  · exact lending.labelled other (List.mem_cons_of_mem _ member)
  · exact (List.nodup_cons.mp lending.labels).2

theorem add {name : η} (lending : Lending label kept lent out) (outside : item ∉ kept ++ lent)
    (fresh : ∀ other ∈ kept ++ lent, label other ≠ some name) :
    Lending (Function.update label item (some name)) (item :: kept) lent out := by
  have kept_ := lending.relabel outside (some name)
  refine ⟨List.nodup_cons.mpr ⟨outside, lending.apart⟩, ?_, ?_, kept_.owed⟩
  · intro other member
    rcases List.mem_cons.mp member with rfl | member
    · exact ⟨name, Function.update_self ..⟩
    · exact kept_.labelled other member
  · rw [List.cons_append, List.map_cons, Function.update_self]
    refine List.nodup_cons.mpr ⟨fun again => ?_, kept_.labels⟩
    obtain ⟨other, member, isName⟩ := List.mem_map.mp again
    have differs : other ≠ item := fun equal => outside (equal ▸ member)
    rw [Function.update_of_ne differs] at isName
    exact fresh other member isName

end Lending

end LinuxCpp.Trace
