import LinuxCpp.AddressBook.Groups

set_option autoImplicit false

/- `person_insert`, `LIST_REMOVE` and the search on the list of one group. -/
namespace LinuxCpp.AddressBook

open C Linked

section Insertion

variable {cts cts' : Contacts} {index p : Nat} {low high : List Nat} {person : Person}

/-- The loop stops in front of the first name that is not smaller. -/
theorem findPlace_ok {prev : Option Nat} {fuel : Nat} (live : cts.heap p = some person)
    (chain : Chain cts.next (low ++ high).head? (low ++ high))
    (below : ∀ node ∈ low, cts.nameOf node < person.name)
    (above : ∀ node ∈ high, person.name ≤ cts.nameOf node) (enough : low.length < fuel) :
    findPlace cts p fuel prev (low ++ high).head? = .ok (low.getLast?.or prev, high.head?) := by
  induction low generalizing prev fuel with
  | nil =>
      obtain ⟨fuel, rfl⟩ := Nat.exists_eq_succ_of_ne_zero (Nat.ne_of_gt enough)
      cases high with
      | nil => rfl
      | cons node rest =>
          obtain ⟨next, linked⟩ := chain.mem (List.mem_append_right _ List.mem_cons_self)
          obtain ⟨current, isCurrent, -⟩ := live_next linked
          have least := above node List.mem_cons_self
          rw [nameOf_live isCurrent] at least
          have stop : ¬ 0 < strcmp person.name current.name := by
            rw [strcmp_pos]
            exact not_lt_of_ge least
          simp only [List.nil_append, List.head?_cons, findPlace]
          rw [deref_live live, ok_bind, deref_live isCurrent, ok_bind, if_neg stop]
          rfl
  | cons node rest ih =>
      obtain ⟨fuel, rfl⟩ := Nat.exists_eq_succ_of_ne_zero (Nat.ne_of_gt (Nat.zero_lt_of_lt enough))
      obtain ⟨-, next, linked, tail⟩ := chain
      obtain ⟨current, isCurrent, rfl⟩ := live_next linked
      have smaller := below node List.mem_cons_self
      rw [nameOf_live isCurrent] at smaller
      have further : 0 < strcmp person.name current.name := (strcmp_pos _ _).mpr smaller
      have start : current.next = (rest ++ high).head? := Chain.head tail
      rw [List.length_cons] at enough
      have ran : findPlace cts p fuel (some node) (rest ++ high).head? =
          .ok (rest.getLast?.or (some node), high.head?) :=
        ih (start ▸ tail) (fun other member => below other (List.mem_cons_of_mem _ member))
          (Nat.lt_of_succ_lt_succ enough)
      have last : rest.getLast?.or (some node) = (node :: rest).getLast?.or prev := by
        rw [List.getLast?_cons]
        cases rest.getLast? <;> rfl
      simp only [List.cons_append, List.head?_cons, findPlace]
      rw [deref_live live, ok_bind, deref_live isCurrent, ok_bind, if_pos further, ok_bind,
        start, ran, last]

/-- Where `person_insert` leaves the pointers. -/
structure Placed (cts cts' : Contacts) (index p : Nat) (low high : List Nat) : Prop where
  next : cts'.next =
    writeIf (Function.update cts.next p (some high.head?)) low.getLast? (some p)
  previous : cts'.previous =
    writeIf (Function.update cts.previous p (some low.getLast?)) high.head? (some p)
  entry : cts'.entry = cts.entry
  groups : cts'.groups = Function.update cts.groups index (low ++ p :: high).head?
  allocated : cts'.allocated = cts.allocated

theorem linkAfter_ok {prev : Option Nat} (index p : Nat)
    (live : ∀ node, prev = some node → ∃ person, cts.heap node = some person) :
    ∃ cts', linkAfter cts index prev p = .ok cts' ∧
      cts'.next = writeIf cts.next prev (some p) ∧ cts'.previous = cts.previous ∧
      cts'.entry = cts.entry ∧ cts'.allocated = cts.allocated ∧
      cts'.groups = prev.elim (Function.update cts.groups index (some p)) fun _ => cts.groups := by
  cases prev with
  | none => exact ⟨_, rfl, rfl, rfl, rfl, rfl, rfl⟩
  | some node =>
      obtain ⟨cts', ran, links⟩ := setNextIf_ok live (some p)
      exact ⟨cts', ran, links.next, links.previous, links.entry, links.allocated, links.groups⟩

theorem live_some (live : cts.heap p = some person) :
    ∀ node, some p = some node → ∃ person, cts.heap node = some person := by
  rintro _ ⟨⟩
  exact ⟨person, live⟩

/-- A person is the first one of a group. -/
theorem personInsert_first (group : Group cts index (low ++ high))
    (live : cts.heap p = some person) (empty : cts.groups index = none) :
    ∃ cts', personInsert cts index (some p) = .ok (0, cts') ∧
      Placed cts cts' index p low high := by
  have nothing := empty
  rw [group.head, List.head?_eq_none_iff, List.append_eq_nil_iff] at nothing
  obtain ⟨rfl, rfl⟩ := nothing
  obtain ⟨first, ran, links⟩ := setNextIf_ok (live_some live) none
  obtain ⟨second, ran', links'⟩ :=
    setPreviousIf_ok (fun node same => (live_entry links.entry).mpr (live_some live node same)) none
  refine ⟨second.setGroup index (some p), ?_, ?_, ?_, ?_, ?_, ?_⟩
  · rw [personInsert, if_pos empty, ran, ok_bind, ran']
    rfl
  · exact links'.next.trans links.next
  · exact links'.previous.trans (congrArg (writeIf · (some p) none) links.previous)
  · exact links'.entry.trans links.entry
  · show Function.update second.groups index (some p) = _
    rw [links'.groups, links.groups]
    rfl
  · exact links'.allocated.trans links.allocated

/-- Or it is linked in between the ones below it and the others. -/
theorem personInsert_between (group : Group cts index (low ++ high))
    (live : cts.heap p = some person) (below : ∀ node ∈ low, cts.nameOf node < person.name)
    (above : ∀ node ∈ high, person.name ≤ cts.nameOf node)
    (enough : (low ++ high).length ≤ cts.allocated) (some_ : ¬ cts.groups index = none) :
    ∃ cts', personInsert cts index (some p) = .ok (0, cts') ∧
      Placed cts cts' index p low high := by
  have chain := group.doubly.forward
  have found : findPlace cts p (cts.allocated + 1) none (cts.groups index) =
      .ok (low.getLast?, high.head?) := by
    rw [List.length_append] at enough
    rw [group.head, findPlace_ok live chain below above (by omega), Option.or_none]
  obtain ⟨first, ran₁, links₁⟩ := setNextIf_ok (live_some live) high.head?
  obtain ⟨second, ran₂, links₂⟩ :=
    setPreviousIf_ok (fun node same => (live_entry links₁.entry).mpr (live_some live node same))
      low.getLast?
  have entry₂ := links₂.entry.trans links₁.entry
  have lastLive : ∀ node, low.getLast? = some node →
      ∃ person, second.heap node = some person := fun node isLast =>
    (live_entry entry₂).mpr
      (group.live (List.mem_append_left _ (List.mem_of_getLast? isLast)))
  obtain ⟨third, ran₃, next, previous, entry, allocated, groups⟩ :=
    linkAfter_ok index p lastLive
  have firstLive : ∀ node, high.head? = some node →
      ∃ person, third.heap node = some person := fun node isFirst =>
    (live_entry (entry.trans entry₂)).mpr
      (group.live (List.mem_append_right _ (List.mem_of_mem_head? isFirst)))
  obtain ⟨last, ran₄, links₄⟩ := setPreviousIf_ok firstLive (some p)
  refine ⟨last, ?_, ?_, ?_, ?_, ?_, ?_⟩
  · rw [personInsert, if_neg some_, found, ok_bind]
    simp only
    rw [ran₁, ok_bind, ran₂, ok_bind, ran₃, ok_bind, ran₄]
    rfl
  · rw [links₄.next, next, links₂.next, links₁.next]
    rfl
  · rw [links₄.previous, previous, links₂.previous, links₁.previous]
    rfl
  · rw [links₄.entry, entry, links₂.entry, links₁.entry]
  · rw [links₄.groups, groups, links₂.groups, links₁.groups]
    rcases List.eq_nil_or_concat' low with rfl | ⟨front, last, rfl⟩
    · rfl
    · have same : (front ++ [last] ++ p :: high).head? = cts.groups index := by
        rw [group.head]
        cases front <;> rfl
      rw [List.getLast?_concat, same, Function.update_eq_self]
      rfl
  · rw [links₄.allocated, allocated, links₂.allocated, links₁.allocated]

theorem personInsert_ok (group : Group cts index (low ++ high)) (live : cts.heap p = some person)
    (below : ∀ node ∈ low, cts.nameOf node < person.name)
    (above : ∀ node ∈ high, person.name ≤ cts.nameOf node)
    (enough : (low ++ high).length ≤ cts.allocated) :
    ∃ cts', personInsert cts index (some p) = .ok (0, cts') ∧
      Placed cts cts' index p low high := by
  by_cases empty : cts.groups index = none
  · exact personInsert_first group live empty
  · exact personInsert_between group live below above enough empty

end Insertion

section Removal

variable {cts cts' : Contacts} {index p : Nat} {low high nodes : List Nat}

/-- Where `LIST_REMOVE` leaves the pointers. -/
structure Removed (cts cts' : Contacts) (index p : Nat) (low high : List Nat) : Prop where
  next : cts'.next = Function.update (writeIf cts.next low.getLast? high.head?) p (some none)
  previous : cts'.previous =
    Function.update (writeIf cts.previous high.head? low.getLast?) p (some none)
  entry : cts'.entry = cts.entry
  groups : cts'.groups = Function.update cts.groups index (low ++ high).head?
  allocated : cts'.allocated = cts.allocated

theorem deref_pointers {n m : Option Nat} (next : cts.next p = some n)
    (previous : cts.previous p = some m) :
    ∃ person, cts.deref p = .ok person ∧ cts.heap p = some person ∧ person.next = n ∧
      person.previous = m := by
  obtain ⟨person, live, isNext⟩ := live_next next
  rw [previous_live live] at previous
  exact ⟨person, deref_live live, live, isNext, Option.some.inj previous⟩

theorem writeIf_other {link : Nat → Option (Option Nat)} {q value : Option Nat}
    (other : q ≠ some p) : writeIf link q value p = link p := by
  cases q with
  | none => rfl
  | some q => exact Function.update_of_ne (fun same => other (congrArg some same.symm)) ..

/-- `if (list == item) { list = item->next; }` -/
theorem unlinkHead (group : Group cts index (low ++ p :: high)) {second : Contacts}
    (groups : second.groups = cts.groups) :
    (if second.groups index = some p then second.setGroup index high.head? else second) =
      { second with groups := Function.update cts.groups index (low ++ high).head? } := by
  have head := group.head
  rw [groups]
  cases low with
  | nil =>
      have isHead : cts.groups index = some p := head
      rw [if_pos isHead, Contacts.setGroup, groups]
      rfl
  | cons node rest =>
      have differs : cts.groups index ≠ some p := by
        rw [head]
        rintro ⟨⟩
        exact (List.nodup_cons.mp group.doubly.nodup).1
          (List.mem_append_right _ List.mem_cons_self)
      have same : (node :: rest ++ high).head? = cts.groups index := head.symm
      rw [if_neg differs, same, Function.update_eq_self, ← groups]

theorem listRemove_ok (group : Group cts index (low ++ p :: high)) :
    ∃ cts', listRemove cts p index = .ok cts' ∧ Removed cts cts' index p low high := by
  have distinct := List.nodup_append.mp group.doubly.nodup
  have notLow : p ∉ low := fun member => distinct.2.2 p member p List.mem_cons_self rfl
  have notHigh : p ∉ high := (List.nodup_cons.mp distinct.2.1).1
  have notLast : low.getLast? ≠ some p := fun isLast => notLow (List.mem_of_getLast? isLast)
  have notFirst : high.head? ≠ some p := fun isFirst => notHigh (List.mem_of_mem_head? isFirst)
  have lastLive : ∀ node, low.getLast? = some node → ∃ person, cts.heap node = some person :=
    fun node isLast => group.live (List.mem_append_left _ (List.mem_of_getLast? isLast))
  have firstLive : ∀ node, high.head? = some node → ∃ person, cts.heap node = some person := by
    intro node isFirst
    have member := List.mem_of_mem_head? isFirst
    exact group.live (List.mem_append_right _ (List.mem_cons_of_mem _ member))
  have next := group.doubly.next_eq
  have previous := group.doubly.previous_eq
  obtain ⟨first, ran₁, links₁⟩ := setNextIf_ok lastLive high.head?
  have next₁ : first.next p = some high.head? := by
    rw [links₁.next, writeIf_other notLast, next]
  have previous₁ : first.previous p = some low.getLast? := by
    rw [links₁.previous, previous]
  obtain ⟨second, ran₂, links₂⟩ := setPreviousIf_ok
    (fun node same => (live_entry links₁.entry).mpr (firstLive node same)) low.getLast?
  have next₂ : second.next p = some high.head? := by
    rw [links₂.next, next₁]
  have previous₂ : second.previous p = some low.getLast? := by
    rw [links₂.previous, writeIf_other notFirst, previous₁]
  obtain ⟨item, read, -, isNext, isPrevious⟩ := deref_pointers next previous
  obtain ⟨item₁, read₁, -, isNext₁, isPrevious₁⟩ := deref_pointers next₁ previous₁
  obtain ⟨item₂, read₂, live₂, isNext₂, isPrevious₂⟩ := deref_pointers next₂ previous₂
  have groups := links₂.groups.trans links₁.groups
  let third : Contacts :=
    { second with groups := Function.update cts.groups index (low ++ high).head? }
  have live₃ : third.heap p = some item₂ := live₂
  obtain ⟨last, ran₃, links₃⟩ := clear_ok live₃
  refine ⟨last, ?_, ?_, ?_, ?_, links₃.groups, ?_⟩
  · unfold listRemove
    rw [read, ok_bind, ok_bind, isPrevious, isNext, ran₁, ok_bind, read₁, ok_bind, ok_bind,
      isNext₁, isPrevious₁, ran₂, ok_bind, read₂, ok_bind]
    simp only
    rw [isNext₂, unlinkHead group groups]
    exact ran₃
  · rw [links₃.next]
    show Function.update second.next p (some none) = _
    rw [links₂.next, links₁.next]
  · rw [links₃.previous]
    show Function.update second.previous p (some none) = _
    rw [links₂.previous, links₁.previous]
  · exact links₃.entry.trans (links₂.entry.trans links₁.entry)
  · exact links₃.allocated.trans (links₂.allocated.trans links₁.allocated)

end Removal

end LinuxCpp.AddressBook
