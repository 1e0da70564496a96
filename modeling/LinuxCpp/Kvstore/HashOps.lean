import LinuxCpp.Kvstore.HashSpec

set_option autoImplicit false

namespace LinuxCpp.Kvstore

open C

section Update

variable {h : HashTable} {chains : Chains} {key : CStr} {s : Nat} {items items' : List HashItem}

/-- Only the length of one chain changes in the total. -/
theorem total_update (items' : List HashItem) (below : s < maxTableSize)
    (chain : chains s = some items) :
    Chains.total (Function.update chains s (some items')) + items.length =
      chains.total + items'.length := by
  have member : s ∈ Finset.range maxTableSize := Finset.mem_range.mpr below
  unfold Chains.total
  rw [← Finset.add_sum_erase _ _ member,
    ← Finset.add_sum_erase _ (fun t => ((chains t).getD []).length) member, chain,
    Function.update_self]
  have same : ∀ t ∈ (Finset.range maxTableSize).erase s,
      ((Function.update chains s (some items') t).getD []).length =
        ((chains t).getD []).length := by
    intro t inside
    rw [Function.update_of_ne (Finset.ne_of_mem_erase inside)]
  rw [Finset.sum_congr rfl same]
  simp only [Option.getD_some]
  omega

/-- One chain replaced by another that belongs to its slot. -/
theorem HashInv.store {count' : Int} (inv : HashInv h chains) (items' : List HashItem)
    (slot : HashSlot key s) (chain : chains s = some items)
    (placed : ∀ x ∈ items', HashSlot x.key s)
    (distinct : (items'.map HashItem.key).Nodup)
    (count : count' + items.length = h.count + items'.length) (small : count' < 2 ^ 31) :
    HashInv { h.store (s : Int) (items'.map HashItem.node) with count := count' }
      (Function.update chains s (some items')) := by
  obtain ⟨table, isTable, holds⟩ := inv.table
  refine ⟨⟨Function.update table s (.chain (items'.map HashItem.node)), ?_, ?_⟩, ?_, ?_, ?_, small⟩
  · simp [HashTable.store, isTable]
  · intro t below
    by_cases same : t = s
    · subst same
      rw [Function.update_self, Function.update_self]
      rfl
    · rw [Function.update_of_ne same, Function.update_of_ne same]
      exact holds t below
  · intro t list below isChain
    by_cases same : t = s
    · subst same
      rw [Function.update_self] at isChain
      cases isChain
      exact placed
    · rw [Function.update_of_ne same] at isChain
      exact inv.placed t list below isChain
  · intro t list below isChain
    by_cases same : t = s
    · subst same
      rw [Function.update_self] at isChain
      cases isChain
      exact distinct
    · rw [Function.update_of_ne same] at isChain
      exact inv.distinct t list below isChain
  · have total := total_update items' slot.lt chain
    rw [inv.count] at count
    simp only
    omega

/-- Lookups in other slots do not see the new chain. -/
theorem hashLookup_update (k : CStr) (chain : chains s = some items)
    (other : HashSlot k s → (items'.find? fun x => x.key = k) = items.find? fun x => x.key = k) :
    hashLookup (Function.update chains s (some items')) k = hashLookup chains k := by
  unfold hashLookup
  split
  · rename_i t slot
    by_cases same : t = s
    · subst same
      rw [Function.update_self, chain]
      exact other slot
    · rw [Function.update_of_ne same]
  · rfl

end Update

section Set

variable {h : HashTable} {chains : Chains} {A : Allocator} {key : CStr} {s : Nat}
  {items : List HashItem}

theorem createNode_run (granted : A.AllSucceed) (key value : CStr) :
    createNode key value A = .ok (some (HashItem.node
      ⟨A.calls + 1, A.calls + 2, key, A.calls + 3, value⟩), A.next.next.next) := by
  have later := (Allocator.Later.next A).allSucceed granted
  have later' := (Allocator.Later.next A.next).allSucceed later
  rw [createNode, bind_ok (malloc_run granted)]
  simp only
  rw [bind_ok (strdup_run later key), if_neg (by simp), bind_ok (strdup_run later' value),
    if_neg (by simp)]
  rfl

theorem addInt_ok {a b : Int} (low : -2 ^ 31 ≤ a + b) (high : a + b < 2 ^ 31) :
    addInt a b = .ok (a + b) := if_pos ⟨low, high⟩

theorem kvsHashSet_present (value : CStr) (inv : HashInv h chains) (slot : HashSlot key s)
    (chain : chains s = some items) (present : hashLookup chains key ≠ none) :
    kvsHashSet h (some key) (some value) A = .ok ((1, h), A) := by
  have isSlot : hash (some key) maxTableSize = .ok (s : Int) := slot
  simp only [kvsHashSet]
  rw [lift_bind_ok isSlot, lift_bind_ok (inv.load slot chain), Bucket.walk, lift_bind_ok rfl]
  rcases chain_cases key items with absent | ⟨pre, x, post, rfl, here, before⟩
  · exact absurd (hashLookup_absent slot chain absent) present
  · rw [lift_bind_ok (findNode_present here before), if_pos (by simp)]
    rfl

/-- The chains after a successful `kvs_hash_set`. -/
theorem kvsHashSet_absent (value : CStr) (inv : HashInv h chains) (granted : A.AllSucceed)
    (slot : HashSlot key s) (chain : chains s = some items)
    (absent : hashLookup chains key = none) (room : h.count + 1 < 2 ^ 31) :
    ∃ h' B x, kvsHashSet h (some key) (some value) A = .ok ((0, h'), B) ∧ x.key = key ∧
      x.value = value ∧ HashInv h' (Function.update chains s (some (x :: items))) ∧ A.Later B ∧
      h'.count = h.count + 1 ∧
      ∀ k, hashLookup (Function.update chains s (some (x :: items))) k =
        if k = key then some x else hashLookup chains k := by
  have isSlot : hash (some key) maxTableSize = .ok (s : Int) := slot
  have notIn : ∀ x ∈ items, x.key ≠ key := by
    rw [hashLookup_slot slot chain, List.find?_eq_none] at absent
    simpa using absent
  have nonneg : 0 ≤ h.count := by rw [inv.count]; omega
  have inv' := inv.store (⟨A.calls + 1, A.calls + 2, key, A.calls + 3, value⟩ :: items) slot chain
    (by
      rintro x (_ | ⟨_, member⟩)
      · exact slot
      · exact inv.placed s items slot.lt chain x member)
    (by
      rw [List.map_cons, List.nodup_cons]
      refine ⟨?_, inv.distinct s items slot.lt chain⟩
      simpa using notIn)
    (by simp only [List.length_cons]; omega) room
  refine ⟨_, A.next.next.next, ⟨A.calls + 1, A.calls + 2, key, A.calls + 3, value⟩, ?_, rfl, rfl,
    inv', ((Allocator.Later.next A).trans (Allocator.Later.next _)).trans (Allocator.Later.next _),
    rfl, fun k => ?_⟩
  · simp only [kvsHashSet]
    rw [lift_bind_ok isSlot, lift_bind_ok (inv.load slot chain), Bucket.walk, lift_bind_ok rfl,
      lift_bind_ok (findNode_absent notIn), if_neg (by simp),
      bind_ok (createNode_run granted key value)]
    simp only
    exact lift_bind_ok (addInt_ok (a := h.count) (b := 1) (by omega) room)
  · by_cases same : k = key
    · subst same
      rw [if_pos rfl]
      let x : HashItem := ⟨A.calls + 1, A.calls + 2, k, A.calls + 3, value⟩
      have head : Function.update chains s (some (x :: items)) s = some ([] ++ x :: items) :=
        Function.update_self ..
      exact hashLookup_present slot head rfl (by simp)
    · rw [if_neg same]
      refine hashLookup_update k chain fun _ => ?_
      rw [List.find?_cons_of_neg (by simpa using Ne.symm same)]

end Set

section Create

variable {A : Allocator}

theorem total_empty {chains : Chains}
    (empty : ∀ s items, chains s = some items → items = []) : chains.total = 0 := by
  apply Finset.sum_eq_zero
  intro s _
  cases chain : chains s with
  | none => rfl
  | some items => exact congrArg List.length (empty s items chain)

/-- The table over the words that the allocator left. -/
def newTable (words : Nat → Nat) : HashTable :=
  ⟨some fun i => if words i = 0 then .chain [] else .wild (words i), maxTableSize, 0⟩

/-- The chains of a new table. -/
def newChains (words : Nat → Nat) : Chains := fun s => if words s = 0 then some [] else none

theorem kvsHashCreate_run (granted : A.AllSucceed) :
    kvsHashCreate A = .ok ((0, newTable (A.junk A.calls)), A.next) := by
  rw [kvsHashCreate, bind_ok (malloc_run granted)]
  rfl

theorem newChains_empty {words : Nat → Nat} (s : Nat) (items : List HashItem)
    (chain : newChains words s = some items) : items = [] := by
  unfold newChains at chain
  split at chain <;> cases chain
  rfl

theorem newTable_inv (words : Nat → Nat) : HashInv (newTable words) (newChains words) := by
  have empty := @newChains_empty words
  refine ⟨⟨_, rfl, fun s _ => ?_⟩, ?_, ?_, ?_, show (0 : Int) < 2 ^ 31 by decide⟩
  · unfold newChains
    split
    · rfl
    · exact ⟨_, rfl⟩
  · intro s items _ chain x member
    rw [empty s items chain] at member
    cases member
  · intro s items _ chain
    rw [empty s items chain]
    exact List.nodup_nil
  · rw [total_empty empty]
    rfl

end Create

section Mod

variable {h : HashTable} {chains : Chains} {A : Allocator} {key : CStr} {s : Nat}
  {items : List HashItem}

theorem kvsHashMod_absent (value : CStr) (inv : HashInv h chains) (slot : HashSlot key s)
    (chain : chains s = some items) (absent : hashLookup chains key = none) :
    kvsHashMod h (some key) (some value) A = .ok ((1, h), A) := by
  have isSlot : hash (some key) maxTableSize = .ok (s : Int) := slot
  have notIn : ∀ x ∈ items, x.key ≠ key := by
    rw [hashLookup_slot slot chain, List.find?_eq_none] at absent
    simpa using absent
  simp only [kvsHashMod]
  rw [lift_bind_ok isSlot, lift_bind_ok (inv.load slot chain), Bucket.walk, lift_bind_ok rfl,
    lift_bind_ok (findNode_absent notIn)]
  rfl

theorem modify_middle {α : Type} (f : α → α) (pre : List α) (x : α) (post : List α) :
    (pre ++ x :: post).modify pre.length f = pre ++ f x :: post := by
  induction pre with
  | nil => rfl
  | cons y pre ih => simp [ih]

theorem kvsHashMod_present (value : CStr) (inv : HashInv h chains) (granted : A.AllSucceed)
    (slot : HashSlot key s) (chain : chains s = some items)
    (present : hashLookup chains key ≠ none) :
    ∃ h' B x items', kvsHashMod h (some key) (some value) A = .ok ((0, h'), B) ∧ x.key = key ∧
      x.value = value ∧ HashInv h' (Function.update chains s (some items')) ∧ A.Later B ∧
      h'.count = h.count ∧
      ∀ k, hashLookup (Function.update chains s (some items')) k =
        if k = key then some x else hashLookup chains k := by
  have isSlot : hash (some key) maxTableSize = .ok (s : Int) := slot
  rcases chain_cases key items with absent | ⟨pre, x, post, rfl, here, before⟩
  · exact absurd (hashLookup_absent slot chain absent) present
  have placed := inv.placed s _ slot.lt chain
  have distinct := inv.distinct s _ slot.lt chain
  let x' : HashItem := { x with valueBlock := A.calls + 1, value := value }
  have inv' := inv.store (pre ++ x' :: post) slot chain
    (by
      intro y member
      rcases List.mem_append.mp member with inPre | (_ | ⟨_, inPost⟩)
      · exact placed y (by simp [inPre])
      · exact placed x (by simp)
      · exact placed y (List.mem_append_right _ (List.mem_cons_of_mem _ inPost)))
    (by simpa [x'] using distinct) (by simp) inv.small
  let freed : Allocator := { A with freed := x.valueBlock :: A.freed }
  have granted' : freed.AllSucceed := granted
  refine ⟨_, freed.next, x', _, ?_, here, rfl, inv', ⟨rfl, rfl, Nat.le_succ _⟩, rfl, fun k => ?_⟩
  · simp only [kvsHashMod]
    rw [lift_bind_ok isSlot, lift_bind_ok (inv.load slot chain), Bucket.walk, lift_bind_ok rfl,
      lift_bind_ok (findNode_present here before)]
    have nodes : (pre ++ x :: post).map HashItem.node =
        pre.map HashItem.node ++ x.node :: post.map HashItem.node := by simp
    have atNode : (pre.map HashItem.node ++ x.node :: post.map HashItem.node)[pre.length]? =
        some x.node := by simp
    have replaced := modify_middle
      (fun n : HashNode => { n with value := .live (A.calls + 1) value }) (pre.map HashItem.node)
      x.node (post.map HashItem.node)
    rw [List.length_map] at replaced
    simp only [nodes, atNode, Option.map_some, Option.getD_some]
    have freeRun : free x.node.value A = .ok ((), freed) := rfl
    rw [bind_ok freeRun, bind_ok (strdup_run granted' value),
      if_neg (by simp), replaced]
    simp [x', HashItem.node]
    rfl
  · by_cases same : k = key
    · subst same
      rw [if_pos rfl]
      exact hashLookup_present slot (Function.update_self ..) here before
    · rw [if_neg same]
      refine hashLookup_update k chain fun _ => ?_
      have notX : x.key ≠ k := by rw [here]; exact Ne.symm same
      simp [List.find?_append, x', notX]

end Mod

section Del

variable {h : HashTable} {chains : Chains} {A : Allocator} {key : CStr} {s : Nat}
  {items : List HashItem}

theorem kvsHashDel_absent (inv : HashInv h chains) (slot : HashSlot key s)
    (chain : chains s = some items) (absent : hashLookup chains key = none) :
    kvsHashDel h (some key) A = .ok ((-1, h), A) := by
  have isSlot : hash (some key) maxTableSize = .ok (s : Int) := slot
  have notIn : ∀ x ∈ items, x.key ≠ key := by
    rw [hashLookup_slot slot chain, List.find?_eq_none] at absent
    simpa using absent
  simp only [kvsHashDel]
  rw [lift_bind_ok isSlot, lift_bind_ok (inv.load slot chain), Bucket.walk, lift_bind_ok rfl]
  cases items with
  | nil => rfl
  | cons x items =>
      have different : x.key ≠ key := notIn x (by simp)
      simp only [List.map_cons]
      rw [HashItem.node, lift_bind_ok (CPtr.deref_live ..),
        if_neg (mt (strcmp_eq_zero _ _).mp different),
        lift_bind_ok (unlinkNext_absent fun y member => notIn y (List.mem_cons_of_mem _ member))]
      rfl

/-- The blocks that the unlinking of `x` frees: at the head of a chain the node
alone. -/
def unlinkFrees (pre : List HashItem) (x : HashItem) : List Nat :=
  if pre.isEmpty then [x.addr] else [x.addr, x.valueBlock, x.keyBlock]

/-- Both unlink paths remove the node and nothing else. -/
theorem kvsHashDel_frees {pre post : List HashItem} {x : HashItem} (inv : HashInv h chains)
    (slot : HashSlot key s) (chain : chains s = some (pre ++ x :: post)) (here : x.key = key)
    (before : ∀ y ∈ pre, y.key ≠ key) :
    kvsHashDel h (some key) A = .ok ((0, { h.store (s : Int) ((pre ++ post).map HashItem.node)
      with count := h.count - 1 }), { A with freed := unlinkFrees pre x ++ A.freed }) := by
  have isSlot : hash (some key) maxTableSize = .ok (s : Int) := slot
  have nonneg : 0 ≤ h.count := by rw [inv.count]; omega
  have small := inv.small
  have fewer : addInt h.count (-1) = .ok (h.count - 1) := addInt_ok (by omega) (by omega)
  simp only [kvsHashDel]
  rw [lift_bind_ok isSlot, lift_bind_ok (inv.load slot chain), Bucket.walk, lift_bind_ok rfl]
  cases pre with
  | nil =>
      simp only [List.nil_append, List.map_cons]
      rw [HashItem.node, lift_bind_ok (CPtr.deref_live ..), if_pos ((strcmp_eq_zero _ _).mpr here)]
      rw [bind_ok (freeBlock_run ..)]
      exact lift_bind_ok fewer
  | cons y pre =>
      have different : y.key ≠ key := before y (by simp)
      simp only [List.cons_append, List.map_cons]
      have key' : y.node.key.deref = .ok y.key := rfl
      rw [lift_bind_ok key', if_neg (mt (strcmp_eq_zero _ _).mp different),
        lift_bind_ok (unlinkNext_present here fun z member =>
          before z (List.mem_cons_of_mem _ member))]
      simp only [HashItem.node]
      rw [bind_ok (free_live ..), bind_ok (free_live ..), bind_ok (freeBlock_run ..)]
      exact lift_bind_ok fewer

theorem kvsHashDel_run {pre post : List HashItem} {x : HashItem} (inv : HashInv h chains)
    (slot : HashSlot key s) (chain : chains s = some (pre ++ x :: post)) (here : x.key = key)
    (before : ∀ y ∈ pre, y.key ≠ key) :
    ∃ B, kvsHashDel h (some key) A = .ok ((0, { h.store (s : Int) ((pre ++ post).map HashItem.node)
      with count := h.count - 1 }), B) ∧ A.Later B :=
  ⟨_, kvsHashDel_frees inv slot chain here before, ⟨rfl, rfl, Nat.le_refl _⟩⟩

theorem kvsHashDel_present (inv : HashInv h chains) (slot : HashSlot key s)
    (chain : chains s = some items) (present : hashLookup chains key ≠ none) :
    ∃ h' B items', kvsHashDel h (some key) A = .ok ((0, h'), B) ∧
      HashInv h' (Function.update chains s (some items')) ∧ A.Later B ∧
      h'.count = h.count - 1 ∧
      ∀ k, hashLookup (Function.update chains s (some items')) k =
        if k = key then none else hashLookup chains k := by
  rcases chain_cases key items with absent | ⟨pre, x, post, rfl, here, before⟩
  · exact absurd (hashLookup_absent slot chain absent) present
  have placed := inv.placed s _ slot.lt chain
  have distinct := inv.distinct s _ slot.lt chain
  have shorter : (pre ++ post).Sublist (pre ++ x :: post) :=
    (List.sublist_cons_self x post).append_left pre
  obtain ⟨B, ran, later⟩ := kvsHashDel_run (A := A) inv slot chain here before
  have small := inv.small
  refine ⟨_, B, pre ++ post, ran, inv.store (pre ++ post) slot chain
    (fun y member => placed y (shorter.subset member)) (distinct.sublist (shorter.map _)) ?_
    (by omega), later, rfl, fun k => ?_⟩
  · simp only [List.length_append, List.length_cons]
    omega
  · by_cases same : k = key
    · subst same
      rw [if_pos rfl]
      refine hashLookup_absent slot (Function.update_self ..) fun y member => ?_
      rcases List.mem_append.mp member with inPre | inPost
      · exact before y inPre
      · intro twice
        rw [List.map_append, List.map_cons, List.nodup_append, List.nodup_cons] at distinct
        exact distinct.2.1.1 (by rw [here, ← twice]; exact List.mem_map_of_mem inPost)
    · rw [if_neg same]
      refine hashLookup_update k chain fun _ => ?_
      rw [List.find?_append, List.find?_append,
        List.find?_cons_of_neg (by simpa [here] using Ne.symm same)]

end Del

end LinuxCpp.Kvstore
