import LinuxCpp.Linked.Segment

set_option autoImplicit false

/- Lists linked in both directions. The links back are a list of their own, of the same
nodes in the other order. -/
namespace LinuxCpp.Linked

variable {ι : Type} {link next previous : ι → Option (Option ι)} {a x y : ι}
  {low high nodes : List ι}

structure Doubly (next previous : ι → Option (Option ι)) (nodes : List ι) : Prop where
  forward : Chain next nodes.head? nodes
  backward : Chain previous nodes.getLast? nodes.reverse

theorem Chain.next_of_split {p : Option ι} (chain : Chain link p nodes)
    (split : nodes = low ++ a :: high) : link a = some high.head? := by
  subst split
  exact chain.link_next

namespace Doubly

theorem nodup (doubly : Doubly next previous nodes) : nodes.Nodup := doubly.forward.nodup

theorem next_eq (doubly : Doubly next previous (low ++ a :: high)) :
    next a = some high.head? := doubly.forward.link_next

theorem previous_eq (doubly : Doubly next previous (low ++ a :: high)) :
    previous a = some low.getLast? := by
  have turned : (low ++ a :: high).reverse = high.reverse ++ a :: low.reverse := by simp
  rw [doubly.backward.next_of_split turned, List.head?_reverse]

/-- The first node has nothing in front of it. -/
theorem previous_head (doubly : Doubly next previous nodes) (first : nodes.head? = some x) :
    previous x = some none := by
  obtain ⟨rest, rfl⟩ := List.head?_eq_some_iff.mp first
  have split : Doubly next previous ([] ++ x :: rest) := doubly
  exact split.previous_eq

/-- `x->next->previous == x` -/
theorem next_previous (doubly : Doubly next previous nodes) (member : x ∈ nodes)
    (linked : next x = some (some y)) : previous y = some (some x) := by
  obtain ⟨low, high, rfl⟩ := List.append_of_mem member
  rw [doubly.next_eq, Option.some.injEq] at linked
  obtain ⟨rest, rfl⟩ := List.head?_eq_some_iff.mp linked
  have split : low ++ x :: y :: rest = (low ++ [x]) ++ y :: rest := by simp
  rw [split] at doubly
  rw [doubly.previous_eq, List.getLast?_concat]

/-- What stands outside of the list does not matter. -/
theorem congr {next' previous' : ι → Option (Option ι)}
    (doubly : Doubly next previous nodes) (sameNext : ∀ b ∈ nodes, next' b = next b)
    (samePrevious : ∀ b ∈ nodes, previous' b = previous b) : Doubly next' previous' nodes :=
  ⟨doubly.forward.congr sameNext, doubly.backward.congr fun b member =>
    samePrevious b (List.mem_reverse.mp member)⟩

end Doubly

section Writes

variable [DecidableEq ι]

/-- `if (p) p->field = value;` -/
def writeIf (link : ι → Option (Option ι)) (p : Option ι) (value : Option ι) :
    ι → Option (Option ι) :=
  match p with
  | none => link
  | some p => Function.update link p (some value)

/-- A node goes between two parts of the list. -/
theorem Chain.insert (chain : Chain link (low ++ high).head? (low ++ high))
    (outside : a ∉ low ++ high) :
    Chain (writeIf (Function.update link a (some high.head?)) low.getLast? (some a))
      (low ++ a :: high).head? (low ++ a :: high) := by
  rcases List.eq_nil_or_concat' low with rfl | ⟨front, last, rfl⟩
  · exact chain.push outside
  · rw [List.getLast?_concat]
    rw [List.append_assoc, List.singleton_append] at chain outside ⊢
    have start : (front ++ last :: a :: high).head? = (front ++ last :: high).head? := by
      cases front <;> rfl
    rw [start]
    exact chain.insertAfter chain.nodup outside chain.link_next

/-- The node between two parts of the list is taken out. -/
theorem Chain.remove (chain : Chain link (low ++ a :: high).head? (low ++ a :: high)) :
    Chain (writeIf link low.getLast? high.head?) (low ++ high).head? (low ++ high) := by
  have linked : link a = some high.head? := chain.link_next
  rcases List.eq_nil_or_concat' low with rfl | ⟨front, last, rfl⟩
  · obtain ⟨-, next, linked', rest⟩ := chain
    cases linked.symm.trans linked'
    exact rest
  · rw [List.getLast?_concat]
    rw [List.append_assoc, List.singleton_append] at chain ⊢
    have start : (front ++ last :: high).head? = (front ++ last :: a :: high).head? := by
      cases front <;> rfl
    rw [start]
    exact chain.bypass chain.nodup linked

theorem Doubly.insert (doubly : Doubly next previous (low ++ high)) (outside : a ∉ low ++ high) :
    Doubly (writeIf (Function.update next a (some high.head?)) low.getLast? (some a))
      (writeIf (Function.update previous a (some low.getLast?)) high.head? (some a))
      (low ++ a :: high) := by
  refine ⟨doubly.forward.insert outside, ?_⟩
  have back := doubly.backward
  rw [← List.head?_reverse, List.reverse_append] at back
  have chain := back.insert (a := a) (by simpa [or_comm] using outside)
  have turned : high.reverse ++ a :: low.reverse = (low ++ a :: high).reverse := by simp
  rwa [turned, List.head?_reverse, List.head?_reverse, List.getLast?_reverse] at chain

theorem Doubly.remove (doubly : Doubly next previous (low ++ a :: high)) :
    Doubly (writeIf next low.getLast? high.head?) (writeIf previous high.head? low.getLast?)
      (low ++ high) := by
  refine ⟨doubly.forward.remove, ?_⟩
  have turned : (low ++ a :: high).reverse = high.reverse ++ a :: low.reverse := by simp
  have back := doubly.backward
  rw [← List.head?_reverse, turned] at back
  have chain := back.remove
  rwa [← List.reverse_append, List.head?_reverse, List.head?_reverse, List.getLast?_reverse]
    at chain

end Writes

end LinuxCpp.Linked
