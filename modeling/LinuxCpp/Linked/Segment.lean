import Mathlib.Data.List.Nodup
import Mathlib.Logic.Function.Basic
import Mathlib.Order.Defs.LinearOrder
import Mathlib.Order.Lattice

set_option autoImplicit false

/- Linked lists in memory. A link function gives for each node the pointer stored
in it, and nothing for an address that is no node. -/
namespace LinuxCpp.Linked

variable {ι : Type} {link link' : ι → Option (Option ι)} {p q : Option ι} {a : ι}
  {first second nodes : List ι}

/-- Following the links from `p` one meets these nodes and arrives at `q`. -/
def Segment (link : ι → Option (Option ι)) : Option ι → List ι → Option ι → Prop
  | p, [], q => p = q
  | p, a :: rest, q => p = some a ∧ ∃ next, link a = some next ∧ Segment link next rest q

/-- The list from `p` up to the NULL pointer. -/
abbrev Chain (link : ι → Option (Option ι)) (p : Option ι) (nodes : List ι) : Prop :=
  Segment link p nodes none

@[simp] theorem segment_nil : Segment link p [] q ↔ p = q := Iff.rfl

theorem Segment.cons {next : Option ι} (linked : link a = some next)
    (rest : Segment link next nodes q) : Segment link (some a) (a :: nodes) q :=
  ⟨rfl, next, linked, rest⟩

theorem Segment.mem (segment : Segment link p nodes q) (member : a ∈ nodes) :
    ∃ next, link a = some next := by
  induction nodes generalizing p with
  | nil => exact absurd member List.not_mem_nil
  | cons b rest ih =>
      obtain ⟨-, next, linked, segment⟩ := segment
      rcases List.mem_cons.mp member with rfl | later
      · exact ⟨next, linked⟩
      · exact ih segment later

theorem segment_append : Segment link p (first ++ second) q ↔
    ∃ mid, Segment link p first mid ∧ Segment link mid second q := by
  induction first generalizing p with
  | nil => simp
  | cons a rest ih =>
      constructor
      · rintro ⟨head, next, linked, segment⟩
        obtain ⟨mid, front, back⟩ := ih.mp segment
        exact ⟨mid, ⟨head, next, linked, front⟩, back⟩
      · rintro ⟨mid, ⟨head, next, linked, front⟩, back⟩
        exact ⟨head, next, linked, ih.mpr ⟨mid, front, back⟩⟩

/-- The links of the nodes decide. -/
theorem Segment.congr (segment : Segment link p nodes q)
    (same : ∀ a ∈ nodes, link' a = link a) : Segment link' p nodes q := by
  induction nodes generalizing p with
  | nil => exact segment
  | cons a rest ih =>
      obtain ⟨head, next, linked, segment⟩ := segment
      refine ⟨head, next, (same a List.mem_cons_self).trans linked, ih segment ?_⟩
      exact fun b member => same b (List.mem_cons_of_mem _ member)

/-- Up to a pointer that is not followed there is one list. -/
theorem Chain.unique {nodes' : List ι} (chain : Chain link p nodes) (chain' : Chain link p nodes') :
    nodes = nodes' := by
  induction nodes generalizing p nodes' with
  | nil =>
      cases nodes' with
      | nil => rfl
      | cons b rest =>
          obtain ⟨head, -⟩ := chain'
          cases chain.symm.trans head
  | cons a rest ih =>
      obtain ⟨rfl, next, linked, chain⟩ := chain
      cases nodes' with
      | nil => cases chain'
      | cons b rest' =>
          obtain ⟨head, next', linked', chain'⟩ := chain'
          cases head
          cases linked.symm.trans linked'
          rw [ih chain chain']

/-- A list goes on where a part of it ends. -/
theorem Chain.behind (chain : Chain link p nodes) (segment : Segment link p first q) :
    ∃ rest, nodes = first ++ rest ∧ Chain link q rest := by
  induction first generalizing p nodes with
  | nil =>
      cases segment
      exact ⟨nodes, rfl, chain⟩
  | cons a first ih =>
      obtain ⟨rfl, next, linked, segment⟩ := segment
      cases nodes with
      | nil => cases chain
      | cons b nodes =>
          obtain ⟨head, next', linked', chain⟩ := chain
          cases head
          cases linked.symm.trans linked'
          obtain ⟨rest, rfl, behind⟩ := ih chain segment
          exact ⟨rest, rfl, behind⟩

/-- A pointer into a list points to its first node. -/
theorem Chain.head (chain : Chain link p nodes) : p = nodes.head? := by
  cases nodes with
  | nil => exact chain
  | cons a rest => exact chain.1

/-- The list from one of its nodes on. -/
theorem Segment.suffix (segment : Segment link p (first ++ a :: second) q) :
    Segment link (some a) (a :: second) q := by
  obtain ⟨mid, -, back⟩ := segment_append.mp segment
  obtain ⟨rfl, -⟩ := id back
  exact back

/-- A node points to the one behind it. -/
theorem Chain.link_next (chain : Chain link p (first ++ a :: second)) :
    link a = some second.head? := by
  obtain ⟨-, next, linked, rest⟩ := chain.suffix
  rw [linked, Chain.head rest]

/-- A list that ends visits no node twice. -/
theorem Chain.nodup (chain : Chain link p nodes) : nodes.Nodup := by
  induction nodes generalizing p with
  | nil => exact List.nodup_nil
  | cons a rest ih =>
      obtain ⟨rfl, next, linked, tail⟩ := id chain
      refine List.nodup_cons.mpr ⟨fun again => ?_, ih tail⟩
      obtain ⟨before, after, rfl⟩ := List.append_of_mem again
      obtain ⟨mid, -, back⟩ := segment_append.mp tail
      obtain ⟨rfl, -⟩ := id back
      have same := congrArg List.length (Chain.unique chain back)
      simp only [List.length_cons, List.length_append] at same
      omega

section Writes

variable [DecidableEq ι] {b : ι} {next : Option ι}

/-- What stands outside of the list does not matter. -/
theorem Segment.update (segment : Segment link p nodes q) (outside : a ∉ nodes)
    (new : Option (Option ι)) : Segment (Function.update link a new) p nodes q := by
  refine segment.congr fun node member => ?_
  have differs : node ≠ a := fun same => outside (same ▸ member)
  exact Function.update_of_ne differs ..

/-- A node is put in front of the list. -/
theorem Segment.push (segment : Segment link p nodes q) (outside : a ∉ nodes) :
    Segment (Function.update link a (some p)) (some a) (a :: nodes) q :=
  .cons (Function.update_self ..) (segment.update outside _)

/-- The node behind `b` is taken out by a write to `b`. -/
theorem Segment.bypass (segment : Segment link p (first ++ b :: a :: second) q)
    (distinct : (first ++ b :: a :: second).Nodup) (linked : link a = some next) :
    Segment (Function.update link b (some next)) p (first ++ b :: second) q := by
  obtain ⟨mid, front, rfl, next', linkedB, rfl, next'', linkedA, back⟩ := segment_append.mp segment
  cases linked.symm.trans linkedA
  have apart := List.nodup_append.mp distinct
  have bOutside := List.nodup_cons.mp apart.2.1
  refine segment_append.mpr ⟨some b, front.update (fun member => ?_) _, ?_⟩
  · exact apart.2.2 b member b List.mem_cons_self rfl
  · exact back.push fun member => bOutside.1 (List.mem_cons_of_mem _ member)

/-- A node is put behind `b` by a write to it and one to `b`. -/
theorem Segment.insertAfter (segment : Segment link p (first ++ b :: second) q)
    (distinct : (first ++ b :: second).Nodup) (outside : a ∉ first ++ b :: second)
    (linked : link b = some next) :
    Segment (Function.update (Function.update link a (some next)) b (some (some a))) p
      (first ++ b :: a :: second) q := by
  obtain ⟨mid, front, rfl, next', linkedB, back⟩ := segment_append.mp segment
  cases linked.symm.trans linkedB
  have apart := List.nodup_append.mp distinct
  have bOutside := List.nodup_cons.mp apart.2.1
  simp only [List.mem_append, List.mem_cons, not_or] at outside
  refine segment_append.mpr ⟨some b, ?_, ?_⟩
  · refine (front.update outside.1 _).update (fun member => ?_) _
    exact apart.2.2 b member b List.mem_cons_self rfl
  · refine (back.push outside.2.2).push ?_
    simp only [List.mem_cons, not_or]
    exact ⟨Ne.symm outside.2.1, bOutside.1⟩

end Writes

section Sorted

variable {κ : Type} {low high : List ι}

/-- Where a key belongs in a sorted list. -/
theorem sorted_cut [LinearOrder κ] {keyOf : ι → κ}
    (sorted : nodes.Pairwise fun a b => keyOf a ≤ keyOf b) (key : κ) :
    ∃ low high, nodes = low ++ high ∧ (∀ node ∈ low, keyOf node < key) ∧
      ∀ node ∈ high, key ≤ keyOf node := by
  induction nodes with
  | nil => exact ⟨[], [], rfl, by simp, by simp⟩
  | cons node rest ih =>
      obtain ⟨first, later⟩ := List.pairwise_cons.mp sorted
      by_cases smaller : keyOf node < key
      · obtain ⟨low, high, rfl, below, above⟩ := ih later
        exact ⟨node :: low, high, rfl, List.forall_mem_cons.mpr ⟨smaller, below⟩, above⟩
      · have notBelow := le_of_not_gt smaller
        refine ⟨[], node :: rest, rfl, by simp, List.forall_mem_cons.mpr ⟨notBelow, ?_⟩⟩
        intro other member
        exact le_trans notBelow (first other member)

theorem pairwise_insert {R : ι → ι → Prop} (sorted : (low ++ high).Pairwise R)
    (below : ∀ node ∈ low, R node a) (above : ∀ node ∈ high, R a node) :
    (low ++ a :: high).Pairwise R := by
  obtain ⟨lowers, highers, across⟩ := List.pairwise_append.mp sorted
  refine List.pairwise_append.mpr ⟨lowers, List.pairwise_cons.mpr ⟨above, highers⟩, ?_⟩
  intro node member
  exact List.forall_mem_cons.mpr ⟨below node member, across node member⟩

end Sorted

end LinuxCpp.Linked
