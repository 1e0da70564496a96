import LinuxCpp.Kvstore.RbtreeDelete

set_option autoImplicit false

namespace LinuxCpp.Kvstore

open C RedBlack RedBlack.ColorTree Rbtree

section Del

variable {T : Rbtree} {A : Allocator} {t : RbTree} {key : CStr} {fuel : Nat}

theorem kvsRbtreeDel_absent (inv : RbInv T A t) (absent : lookup RbItem.key key t = none)
    (enough : t.size < fuel) : kvsRbtreeDel fuel T (some key) A = .ok ((1, T), A) := by
  have atEnd := (lookup_eq_none_iff inv.sorted).mp absent
  simp only [kvsRbtreeDel]
  rw [lift_bind_ok (rbtreeSearch_holds inv.holds enough), atEnd, ptr, if_pos rfl]
  rfl

/-- The unlinked node goes back to the allocator. -/
theorem Holds.drop {y : Nat} (holds : Holds T t) (apart : Apart T t y) : Holds (T.drop y) t := by
  have others : ∀ q, q ≠ y → (T.drop y).heap q = T.heap q := fun q different =>
    Function.update_of_ne different ..
  refine ⟨holds.root, holds.rep.congr fun q member => others q ?_, holds.distinct, ?_,
    holds.nilFree, ?_⟩
  · rintro rfl
    exact apart.outside member
  · obtain ⟨n, present, black⟩ := holds.sentinel
    exact ⟨n, (others _ apart.notNil.symm).trans present, black⟩
  · rw [others 0 apart.notNull.symm, holds.null]

/-- Keys are distinct, so removing an item is filtering its key. -/
theorem filter_eq_of_split {z : RbItem} {smaller larger : List RbItem}
    (sorted : ((smaller ++ z :: larger).map RbItem.key).Pairwise (· < ·)) :
    ((smaller ++ z :: larger).map fun x => (x.key, x.value)).filter (fun e => e.1 ≠ z.key) =
      (smaller ++ larger).map fun x => (x.key, x.value) := by
  simp only [List.map_append, List.map_cons, List.pairwise_append, List.pairwise_cons,
    List.mem_map, List.mem_cons, forall_exists_index, and_imp, forall_apply_eq_imp_iff₂,
    forall_eq_or_imp] at sorted
  rw [List.map_append, List.map_cons, List.filter_append, List.filter_cons,
    if_neg (by simp), List.map_append]
  congr 1
  · rw [List.filter_eq_self]
    simpa using fun x member => (sorted.2.2 x member).1.ne
  · rw [List.filter_eq_self]
    simpa using fun x member => (sorted.2.1.1 x member).ne'

theorem seek_of_present (inv : RbInv T A t) (present : lookup RbItem.key key t ≠ none) :
    ∃ fs color l z r, seek RbItem.key z.key [] t = (fs, node color l z r) ∧ z.key = key ∧
      z.addr ≠ T.nil := by
  rcases seek_end RbItem.key key [] t with absent | ⟨color, l, z, r, found, rfl⟩
  · exact absurd ((lookup_eq_none_iff inv.sorted).mpr absent) present
  · exact ⟨_, color, l, z, r, by rw [← found], rfl,
      Holds.addr_ne_nil (d := .left) (found ▸ inv.holds.at_seek)⟩

/-- The tree around the node with the key. -/
theorem split_of_present (inv : RbInv T A t) (present : lookup RbItem.key key t ≠ none) :
    ∃ fs color l z r, t = plug fs (node color l z r) ∧
      seek RbItem.key z.key [] (plug fs (node color l z r)) = (fs, node color l z r) ∧
      z.key = key ∧ z.addr ≠ T.nil := by
  obtain ⟨fs, color, l, z, r, found, isKey, notNil⟩ := seek_of_present inv present
  have whole := plug_seek RbItem.key z.key [] t
  rw [found] at whole
  have shape : t = plug fs (node color l z r) := whole.symm
  exact ⟨fs, color, l, z, r, shape, shape ▸ found, isKey, notNil⟩

theorem kvsRbtreeDel_present (inv : RbInv T A t) (present : lookup RbItem.key key t ≠ none)
    (easy : splicesBlackLeaf RbItem.key key t = false) (enough : t.size + 1 ≤ fuel) :
    ∃ T' B t', kvsRbtreeDel fuel T (some key) A = .ok ((0, T'), B) ∧ RbInv T' B t' ∧
      entries t' = (entries t).filter (fun e => e.1 ≠ key) ∧ A.Later B := by
  obtain ⟨fuel, rfl⟩ : ∃ m, fuel = m + 1 := ⟨fuel - 1, by omega⟩
  obtain ⟨fs, color, l, z, r, found, rfl, notNil⟩ := seek_of_present inv present
  obtain ⟨T₁, gs, color', l', r', y, ran, spliced, plan⟩ := rbtreeDelete_splice inv found
    (show _ ≤ fuel + 1 by omega)
  have easy' : color' = .black → l' = leaf → r' = leaf → gs = [] := by
    intro black left right
    by_contra inner
    rw [plan.hard.mpr ⟨black, left, right, inner⟩] at easy
    cases easy
  obtain ⟨T', finished, holds', apart', frame⟩ := spliced.finish fuel plan.one plan.red easy'
  obtain ⟨smaller, larger, old, new⟩ := plan.removed
  refine ⟨T'.drop y, { A with freed := y :: A.freed }, _, ?_,
    ⟨holds'.drop apart', plan.valid easy', ?_, ?_⟩, ?_, ⟨rfl, rfl, Nat.le_refl _⟩⟩
  · simp only [kvsRbtreeDel]
    rw [lift_bind_ok (rbtreeSearch_holds inv.holds (by omega)), found, ptr, if_neg notNil,
      lift_bind_ok (ran.trans finished)]
    rfl
  · have keys : (plug gs (spliceOut color' l' r')).toList.map RbItem.key =
        (smaller ++ larger).map RbItem.key := by
      have := congrArg (List.map Prod.fst) new
      simpa [entries, List.map_map, Function.comp_def] using this
    rw [Sorted, keys]
    have order := inv.sorted
    rw [Sorted, old] at order
    exact order.sublist ((List.sublist_cons_self z larger).append_left smaller |>.map RbItem.key)
  · intro a later
    have unmapped : T.heap a = none := inv.fresh a later
    by_cases same : a = y
    · rw [same]
      exact Function.update_self ..
    · apply (Function.update_of_ne same ..).trans
      rw [frame a ?_ (fun member => inv.holds.mapped member unmapped), unmapped]
      rintro rfl
      obtain ⟨n, present, -⟩ := inv.holds.sentinel
      rw [unmapped] at present
      cases present
  · rw [new, entries, old, filter_eq_of_split]
    have order := inv.sorted
    rwa [Sorted, old] at order

/-- A black leaf below another node, and a sentinel whose parent field is NULL. -/
theorem kvsRbtreeDel_fault {n : RbNode} (inv : RbInv T A t)
    (present : lookup RbItem.key key t ≠ none)
    (hard : splicesBlackLeaf RbItem.key key t = true) (sentinel : T.heap T.nil = some n)
    (unset : n.parent = 0) (enough : t.size + 1 ≤ fuel) :
    kvsRbtreeDel fuel T (some key) A = .error .nullDeref := by
  obtain ⟨fuel, rfl⟩ : ∃ m, fuel = m + 1 := ⟨fuel - 1, by omega⟩
  obtain ⟨fs, color, l, z, r, found, rfl, notNil⟩ := seek_of_present inv present
  obtain ⟨T₁, gs, color', l', r', y, ran, spliced, plan⟩ := rbtreeDelete_splice inv found
    (show _ ≤ fuel + 1 by omega)
  obtain ⟨rfl, rfl, rfl, inner⟩ := plan.hard.mp hard
  have black : n.color = .black := by
    obtain ⟨m, isSome, black⟩ := inv.holds.sentinel
    rw [sentinel] at isSome
    cases isSome
    exact black
  have fault := spliced.fault fuel inner inv.holds.nilFree sentinel black unset
  simp only [kvsRbtreeDel]
  rw [lift_bind_ok (rbtreeSearch_holds inv.holds (by omega)), found, ptr, if_neg notNil,
    ran, join, fault]
  rfl

end Del

/-- The same tree with other link fields in the sentinel. -/
def Rbtree.withSentinelLinks (T : Rbtree) (left right parent : Nat) : Rbtree :=
  ⟨T.root, T.nil, Function.update T.heap T.nil
    ((T.heap T.nil).map fun n => { n with left := left, right := right, parent := parent })⟩

/-- `kvs_rbtree_del` terminates, leaves the tree alone if the key is absent, and
otherwise removes exactly its pair and keeps the invariant. -/
def DelMeets (T : Rbtree) (A : Allocator) (t : RbTree) (key : CStr) : Prop :=
  ∃ bound, ∀ fuel, bound ≤ fuel →
    (key ∉ (entries t).map Prod.fst → kvsRbtreeDel fuel T (some key) A = .ok ((1, T), A)) ∧
    (key ∈ (entries t).map Prod.fst → ∃ T' B t',
      kvsRbtreeDel fuel T (some key) A = .ok ((0, T'), B) ∧ RbInv T' B t' ∧
        entries t' = (entries t).filter (fun e => e.1 ≠ key))

section Sentinel

variable {T : Rbtree} {A : Allocator} {t : RbTree} {key : CStr}

/-- The invariant says nothing about the links of the sentinel. -/
theorem RbInv.withSentinelLinks (inv : RbInv T A t) (left right parent : Nat) :
    RbInv (T.withSentinelLinks left right parent) A t := by
  obtain ⟨n, present, black⟩ := inv.holds.sentinel
  have others : ∀ q, q ≠ T.nil → (T.withSentinelLinks left right parent).heap q = T.heap q :=
    fun q different => Function.update_of_ne different ..
  have atNil : (T.withSentinelLinks left right parent).heap T.nil =
      some { n with left := left, right := right, parent := parent } := by
    simp [Rbtree.withSentinelLinks, present]
  have unmapped : ∀ q, T.heap q = none → q ≠ T.nil := by
    rintro q none rfl
    rw [present] at none
    cases none
  refine ⟨⟨inv.holds.root, inv.holds.rep.congr fun q member => others q ?_, inv.holds.distinct,
    ⟨_, atNil, black⟩, inv.holds.nilFree, ?_⟩, inv.valid, inv.sorted, fun a later => ?_⟩
  · rintro rfl
    exact inv.holds.nilFree member
  · rw [others 0 (unmapped 0 inv.holds.null), inv.holds.null]
  · rw [others a (unmapped a (inv.fresh a later)), inv.fresh a later]

theorem DelMeets.of_easy (inv : RbInv T A t) (easy : splicesBlackLeaf RbItem.key key t = false) :
    DelMeets T A t key := by
  refine ⟨t.size + 1, fun fuel enough => ⟨fun absent => ?_, fun present => ?_⟩⟩
  · rw [mem_keys_iff, not_not] at absent
    exact kvsRbtreeDel_absent inv absent enough
  · obtain ⟨T', B, t', ran, inv', removed, -⟩ :=
      kvsRbtreeDel_present inv (mem_keys_iff.mp present) easy enough
    exact ⟨T', B, t', ran, inv', removed⟩

theorem present_of_splicesBlackLeaf (inv : RbInv T A t)
    (hard : splicesBlackLeaf RbItem.key key t = true) : lookup RbItem.key key t ≠ none := by
  intro absent
  have atEnd := (lookup_eq_none_iff inv.sorted).mp absent
  have point : splicePoint RbItem.key key t = ((seek RbItem.key key [] t).1, leaf) := by
    unfold splicePoint
    rw [show seek RbItem.key key [] t = ((seek RbItem.key key [] t).1, leaf) by rw [← atEnd]]
  rw [splicesBlackLeaf, point] at hard
  cases path : (seek RbItem.key key [] t).1 <;> simp [path] at hard

/-- Deletion meets its contract for every content of the sentinel's links
exactly when the node it unlinks is not a black leaf below another node. -/
theorem kvsRbtreeDel_correct_iff (T : Rbtree) (A : Allocator) (t : RbTree) (inv : RbInv T A t)
    (key : CStr) :
    (∀ left right parent, DelMeets (T.withSentinelLinks left right parent) A t key) ↔
      splicesBlackLeaf RbItem.key key t = false := by
  constructor
  · intro meets
    by_contra notFalse
    have hard : splicesBlackLeaf RbItem.key key t = true := by simpa using notFalse
    have present := present_of_splicesBlackLeaf inv hard
    obtain ⟨n, sentinel, -⟩ := inv.holds.sentinel
    obtain ⟨bound, runs⟩ := meets 0 0 0
    obtain ⟨T', B, t', ran, -⟩ :=
      (runs (bound + t.size + 1) (by omega)).2 (mem_keys_iff.mpr present)
    rw [kvsRbtreeDel_fault (n := { n with left := 0, right := 0, parent := 0 })
      (inv.withSentinelLinks 0 0 0) present hard
      (by simp [Rbtree.withSentinelLinks, sentinel]) rfl (by omega)] at ran
    cases ran
  · exact fun easy left right parent => .of_easy (inv.withSentinelLinks left right parent) easy

end Sentinel

/-- Keys `a`, `b`, `c` at the blocks 2, 3, 4; `b` is the root, and the two
leaves share a colour. -/
def threeKeys (color : Color) : RbTree :=
  node .black (node color leaf ⟨2, 5, ⟨[97], by decide⟩, 6, ⟨[49], by decide⟩⟩ leaf)
    ⟨3, 7, ⟨[98], by decide⟩, 8, ⟨[50], by decide⟩⟩
    (node color leaf ⟨4, 9, ⟨[99], by decide⟩, 10, ⟨[51], by decide⟩⟩ leaf)

/-- The heap of `threeKeys`, with the sentinel in block 1 of zeroed memory. -/
def threeKeysHeap (color : Color) : Rbtree :=
  ⟨3, 1, fun a => match a with
    | 1 => some ⟨.black, 0, 0, 0, .null, .null⟩
    | 2 => some ⟨color, 1, 1, 3, .live 5 ⟨[97], by decide⟩, .live 6 ⟨[49], by decide⟩⟩
    | 3 => some ⟨.black, 4, 2, 1, .live 7 ⟨[98], by decide⟩, .live 8 ⟨[50], by decide⟩⟩
    | 4 => some ⟨color, 1, 1, 3, .live 9 ⟨[99], by decide⟩, .live 10 ⟨[51], by decide⟩⟩
    | _ => none⟩

theorem threeKeys_inv (color : Color) :
    RbInv (threeKeysHeap color) { Allocator.plentiful with calls := 10 } (threeKeys color) := by
  refine ⟨⟨rfl, ⟨rfl, ⟨rfl, trivial, trivial⟩, rfl, trivial, trivial⟩, by simp [threeKeys, addrs],
    ⟨_, rfl, rfl⟩, by simp [threeKeys, addrs, threeKeysHeap], rfl⟩, ⟨rfl, ?_, ?_⟩, ?_, ?_⟩
  · simp [threeKeys, NoRedRed, rootColor]
  · exact ⟨_, _, rfl, ⟨0, rfl, rfl, rfl⟩, ⟨0, rfl, rfl, rfl⟩⟩
  · simp only [Sorted, threeKeys, toList, List.nil_append, List.cons_append, List.map_cons,
      List.map_nil]
    decide
  · intro a later
    simp only at later
    obtain ⟨b, rfl⟩ : ∃ b, a = b + 5 := ⟨a - 5, by omega⟩
    rfl

/-- A red leaf is deleted. -/
theorem kvsRbtreeDel_red_leaf :
    RbInv (threeKeysHeap .red) { Allocator.plentiful with calls := 10 } (threeKeys .red) ∧
      ∀ left right parent, DelMeets ((threeKeysHeap .red).withSentinelLinks left right parent)
        { Allocator.plentiful with calls := 10 } (threeKeys .red) ⟨[97], by decide⟩ :=
  ⟨threeKeys_inv .red, (kvsRbtreeDel_correct_iff _ _ _ (threeKeys_inv .red) _).mpr (by decide)⟩

/-- The deletion of a black leaf follows the NULL parent of the sentinel. -/
theorem kvsRbtreeDel_black_leaf :
    RbInv (threeKeysHeap .black) { Allocator.plentiful with calls := 10 } (threeKeys .black) ∧
      ¬ DelMeets (threeKeysHeap .black) { Allocator.plentiful with calls := 10 } (threeKeys .black)
        ⟨[97], by decide⟩ := by
  refine ⟨threeKeys_inv .black, ?_⟩
  rintro ⟨bound, runs⟩
  obtain ⟨T', B, t', ran, -⟩ := (runs (bound + 4) (by omega)).2 (by decide)
  rw [kvsRbtreeDel_fault (n := ⟨.black, 0, 0, 0, .null, .null⟩) (threeKeys_inv .black) (by decide)
    (by decide) rfl rfl (by simp [threeKeys, size])] at ran
  cases ran

end LinuxCpp.Kvstore
