import LinuxCpp.Kvstore.Ledger
import Mathlib.Algebra.BigOperators.Intervals
import Mathlib.Order.Interval.Finset.Nat

set_option autoImplicit false

/- The ledger of the hash engine. The strings of a node are freed only when the
node is unlinked behind the head of its chain, so once a key was stored more blocks
are out than nodes are left. -/
namespace LinuxCpp.Kvstore

open C

section Calls

variable {h : HashTable} {chains : Chains} {A base : Allocator} {key value : CStr}

/-- A walk that returns has found the chain of the key. -/
theorem HashInv.walked (inv : HashInv h chains) {idx : Int} {b : Bucket} {nodes : List HashNode}
    (isIdx : hash (some key) maxTableSize = .ok idx) (loaded : h.load idx = .ok b)
    (walked : b.walk = .ok nodes) : ∃ s items, HashSlot key s ∧ chains s = some items := by
  rcases slot_or_unplaced key with ⟨s, slot⟩ | ⟨fault, sum | ⟨idx', sum, negative, -⟩⟩
  · cases chain : chains s with
    | some items => exact ⟨s, items, slot, chain⟩
    | none =>
        have isSlot : hash (some key) maxTableSize = .ok (s : Int) := slot
        rw [isSlot] at isIdx
        cases isIdx
        obtain ⟨table, isTable, holds⟩ := inv.table
        have held := holds s slot.lt
        rw [chain] at held
        obtain ⟨word, wild⟩ := held
        simp only [HashTable.load, isTable] at loaded
        rw [if_pos ⟨by omega, by exact_mod_cast slot.lt⟩, Int.toNat_natCast, wild] at loaded
        cases loaded
        cases walked
  · rw [sum] at isIdx
    cases isIdx
  · rw [sum] at isIdx
    cases isIdx
    rw [inv.load_negative negative] at loaded
    cases loaded

/-- A call that returns has found the chain of its key. -/
theorem HashInv.returned (inv : HashInv h chains) (update : Update) :
    Leaves (update.hash h) A fun _ _ =>
      ∃ s items, HashSlot update.key s ∧ chains s = some items := by
  cases update with
  | set key value =>
      exact .skip fun idx isIdx => .skip fun b loaded => .skip fun nodes walked =>
        ⟨fun _ _ _ => inv.walked isIdx loaded walked⟩
  | mod key value =>
      exact .skip fun idx isIdx => .skip fun b loaded => .skip fun nodes walked =>
        ⟨fun _ _ _ => inv.walked isIdx loaded walked⟩
  | del key =>
      exact .skip fun idx isIdx => .skip fun b loaded => .skip fun nodes walked =>
        ⟨fun _ _ _ => inv.walked isIdx loaded walked⟩

/-- A new node takes three blocks. -/
theorem kvsHashSet_takes (granted : A.AllSucceed) :
    Leaves (kvsHashSet h (some key) (some value)) A fun r B =>
      r.1 = 0 → B = A.next.next.next := by
  simp only [kvsHashSet]
  refine .skip fun idx _ => .skip fun b _ => .skip fun nodes _ => .skip fun found _ => ?_
  refine .ite (fun _ => .pure fun stored => by cases stored) fun _ => ?_
  refine .step (createNode_run granted key value) (.skip fun count _ => .pure fun _ => rfl)

/-- A new value takes one block and gives at most one back. -/
theorem kvsHashMod_takes (granted : A.AllSucceed) :
    Leaves (kvsHashMod h (some key) (some value)) A fun r B =>
      r.1 = 0 → B.AllSucceed ∧ B.calls = A.calls + 1 ∧
        ∃ gone, B.freed = gone ++ A.freed ∧ gone.length ≤ 1 := by
  simp only [kvsHashMod]
  refine .skip fun idx _ => .skip fun b _ => .skip fun nodes _ => .skip fun found _ => ?_
  cases found with
  | none => exact .pure fun stored => by cases stored
  | some i =>
      have freed : ∀ p, Leaves (free p) A fun _ B => B.AllSucceed ∧ B.calls = A.calls ∧
          ∃ gone, B.freed = gone ++ A.freed ∧ gone.length ≤ 1 := by
        intro p
        cases p with
        | null => exact .pure ⟨granted, rfl, [], rfl, by decide⟩
        | freed _ => exact .throw _
        | wild _ => exact .throw _
        | live block str =>
            refine ⟨fun _ B ran => ?_⟩
            cases ran
            exact ⟨granted, rfl, [block], rfl, Nat.le_refl _⟩
      refine (freed _).bind fun _ B after => ?_
      obtain ⟨granted', calls, gone⟩ := after
      refine .step (strdup_run granted' value) (.ite (fun isNull => by cases isNull) fun _ => ?_)
      exact .pure fun _ => ⟨(Allocator.Later.next B).allSucceed granted', by simp [calls], gone⟩

end Calls

/-- The blocks handed out since `base` outnumber the freed ones by three for each
node, and the freed ones and the nodes together by `extra`. -/
structure Surplus (base : Allocator) (extra : Nat) (h : HashTable) (A : Allocator) : Prop where
  granted : A.AllSucceed
  counts : ∃ chains gone, HashInv h chains ∧ A.freed = gone ++ base.freed ∧
    base.calls + gone.length + 3 * chains.total ≤ A.calls ∧
    base.calls + gone.length + chains.total + extra ≤ A.calls

section Runs

variable {h : HashTable} {A base : Allocator} {extra : Nat}

theorem chain_le_total {chains : Chains} {s : Nat} {items : List HashItem}
    (below : s < maxTableSize) (chain : chains s = some items) : items.length ≤ chains.total := by
  have part : ((chains s).getD []).length ≤ chains.total :=
    Finset.single_le_sum (f := fun s => ((chains s).getD []).length) (fun _ _ => Nat.zero_le _)
      (Finset.mem_range.mpr below)
  rwa [chain] at part

theorem Surplus.set (surplus : Surplus base extra h A) (small : extra ≤ 2) (key value : CStr) :
    Leaves (kvsHashSet h (some key) (some value)) A fun r B => Surplus base 2 r.2 B := by
  refine ⟨fun r B ran => ?_⟩
  obtain ⟨chains, gone, inv, freed, three, one⟩ := surplus.counts
  obtain ⟨s, items, slot, chain⟩ := (inv.returned (.set key value)).of_ok _ _ ran
  change HashSlot key s at slot
  by_cases absent : hashLookup chains key = none
  · by_cases room : h.count + 1 < 2 ^ 31
    · obtain ⟨h', B', x, ran', -, -, inv', later, count, -⟩ :=
        kvsHashSet_absent value inv surplus.granted slot chain absent room
      rw [ran'] at ran
      cases ran
      have blocks := (kvsHashSet_takes surplus.granted).of_ok _ _ ran' rfl
      subst blocks
      have total := inv'.count
      rw [count, inv.count] at total
      refine ⟨later.allSucceed surplus.granted, _, gone, inv', freed, ?_, ?_⟩ <;>
        simp only [Allocator.next_calls] <;> omega
    · rw [kvsHashSet_overflow value inv surplus.granted slot chain absent room] at ran
      cases ran
  · rw [kvsHashSet_present value inv slot chain absent] at ran
    cases ran
    have nonempty : items.length ≠ 0 := by
      intro isNil
      rw [hashLookup_slot slot chain, List.eq_nil_of_length_eq_zero isNil] at absent
      exact absent rfl
    have := chain_le_total slot.lt chain
    exact ⟨surplus.granted, chains, gone, inv, freed, three, by omega⟩

theorem Surplus.mod (surplus : Surplus base extra h A) (key value : CStr) :
    Leaves (kvsHashMod h (some key) (some value)) A fun r B => Surplus base extra r.2 B := by
  refine ⟨fun r B ran => ?_⟩
  obtain ⟨chains, gone, inv, freed, three, one⟩ := surplus.counts
  obtain ⟨s, items, slot, chain⟩ := (inv.returned (.mod key value)).of_ok _ _ ran
  change HashSlot key s at slot
  by_cases absent : hashLookup chains key = none
  · rw [kvsHashMod_absent value inv slot chain absent] at ran
    cases ran
    exact surplus
  · obtain ⟨h', B', x, items', ran', -, -, inv', -, count, -⟩ :=
      kvsHashMod_present value inv surplus.granted slot chain absent
    rw [ran'] at ran
    cases ran
    obtain ⟨granted, calls, more, freed', few⟩ :=
      (kvsHashMod_takes surplus.granted).of_ok _ _ ran' rfl
    have total := inv'.count
    rw [count, inv.count] at total
    rw [freed, ← List.append_assoc] at freed'
    refine ⟨granted, _, more ++ gone, inv', freed', ?_, ?_⟩ <;>
      simp only [List.length_append] <;> omega

theorem Surplus.del (surplus : Surplus base extra h A) (small : extra ≤ 2) (key : CStr) :
    Leaves (kvsHashDel h (some key)) A fun r B => Surplus base extra r.2 B := by
  refine ⟨fun r B ran => ?_⟩
  obtain ⟨chains, gone, inv, freed, three, one⟩ := surplus.counts
  obtain ⟨s, items, slot, chain⟩ := (inv.returned (.del key)).of_ok _ _ ran
  change HashSlot key s at slot
  rcases chain_cases key items with absent | ⟨pre, x, post, rfl, here, before⟩
  · rw [kvsHashDel_absent inv slot chain (hashLookup_absent slot chain absent)] at ran
    cases ran
    exact surplus
  · have present : hashLookup chains key ≠ none := by
      rw [hashLookup_present slot chain here before]
      simp
    obtain ⟨h', B', items', ran', inv', -, count, -⟩ :=
      kvsHashDel_present (A := A) inv slot chain present
    have exact_ := kvsHashDel_frees (A := A) inv slot chain here before
    rw [ran'] at ran exact_
    cases ran
    cases exact_
    have total := inv'.count
    rw [count, inv.count] at total
    have length := chain_le_total slot.lt chain
    rw [List.length_append, List.length_cons] at length
    refine ⟨surplus.granted, _, unlinkFrees pre x ++ gone, inv', by simp [freed], ?_, ?_⟩ <;>
      simp only [List.length_append, unlinkFrees] <;> split
    · simp only [List.length_singleton]
      omega
    · simp only [List.length_cons, List.length_nil]
      omega
    · simp only [List.length_singleton]
      omega
    · -- the head of the chain stays
      rename_i behind
      have : pre.length ≠ 0 := by simpa using behind
      simp only [List.length_cons, List.length_nil]
      omega

theorem Surplus.call (surplus : Surplus base extra h A) (small : extra ≤ 2) (update : Update) :
    Leaves (update.hash h) A fun r B =>
      Surplus base (if update.isSet then 2 else extra) r.2 B := by
  cases update with
  | set key value => exact surplus.set small key value
  | mod key value => exact surplus.mod key value
  | del key => exact surplus.del small key

theorem Surplus.run (updates : List Update) (surplus : Surplus base extra h A)
    (small : extra ≤ 2) :
    Leaves (runUpdates Update.hash h updates) A fun h B =>
      Surplus base (if updates.any Update.isSet then 2 else extra) h B := by
  induction updates generalizing h A extra with
  | nil => exact .pure surplus
  | cons update rest ih =>
      refine (surplus.call small update).bind fun r B surplus => ?_
      cases isSet : update.isSet with
      | true =>
          rw [isSet] at surplus
          simpa [isSet] using ih surplus (Nat.le_refl 2)
      | false =>
          rw [isSet] at surplus
          simpa [isSet] using ih surplus small

end Runs

section Destory

variable {h : HashTable} {A base : Allocator} {chains : Chains}

theorem freeChain_run (nodes : List HashNode) (A : Allocator) :
    freeChain nodes A =
      .ok ((), { A with freed := (nodes.map HashNode.addr).reverse ++ A.freed }) := by
  induction nodes generalizing A with
  | nil => rfl
  | cons node rest ih =>
      rw [freeChain, bind_ok (freeBlock_run A node.addr), ih]
      simp

/-- Every slot from `i` on stands for its chain. -/
def SlotsFrom (i : Nat) (h : HashTable) (chains : Chains) : Prop :=
  ∃ table, h.nodes = some table ∧ ∀ s, i ≤ s → s < maxTableSize → (table s).Holds (chains s)

theorem SlotsFrom.load {i : Nat} (slots : SlotsFrom i h chains) {b : Bucket}
    {nodes : List HashNode} (loaded : h.load i = .ok b) (walked : b.walk = .ok nodes) :
    i < maxTableSize ∧ ∃ items, chains i = some items ∧ nodes = items.map HashItem.node := by
  obtain ⟨table, isTable, holds⟩ := slots
  simp only [HashTable.load, isTable] at loaded
  split at loaded
  · rename_i inside
    have below : i < maxTableSize := by exact_mod_cast inside.2
    cases loaded
    have held := holds i (Nat.le_refl i) below
    rw [Int.toNat_natCast] at walked
    cases chain : chains i with
    | none =>
        rw [chain] at held
        obtain ⟨word, wild⟩ := held
        rw [wild] at walked
        cases walked
    | some items =>
        rw [chain] at held
        rw [show table i = _ from held] at walked
        cases walked
        exact ⟨below, items, rfl, rfl⟩
  · cases loaded

theorem SlotsFrom.cleared {i : Nat} (slots : SlotsFrom i h chains) :
    SlotsFrom (i + 1) (h.store i []) chains := by
  obtain ⟨table, isTable, holds⟩ := slots
  refine ⟨Function.update table i (.chain []), by simp [HashTable.store, isTable], ?_⟩
  intro s above below
  rw [Function.update_of_ne (by omega)]
  exact holds s (by omega) below

/-- `destory` frees one block for each node, and reads every slot. -/
theorem destorySlots_frees (n i : Nat) (slots : SlotsFrom i h chains) :
    Leaves (destorySlots h n i) A fun _ B => (∃ gone, B.freed = gone ++ A.freed ∧
      gone.length ≤ ∑ s ∈ Finset.Ico i maxTableSize, ((chains s).getD []).length) ∧
      ∀ s, i ≤ s → s < i + n → chains s ≠ none := by
  induction n generalizing i h A with
  | zero =>
      refine .pure ⟨⟨[], rfl, Nat.zero_le _⟩, ?_⟩
      intro s above below
      omega
  | succ n ih =>
      refine .skip fun b loaded => .skip fun nodes walked => ?_
      obtain ⟨below, items, chain, rfl⟩ := slots.load loaded walked
      refine .step (freeChain_run _ A) ⟨fun h' B ran => ?_⟩
      obtain ⟨⟨gone, freed, few⟩, read⟩ := (ih (i + 1) slots.cleared).of_ok h' B ran
      refine ⟨⟨gone ++ ((items.map HashItem.node).map HashNode.addr).reverse, ?_, ?_⟩, ?_⟩
      · rw [freed, List.append_assoc]
      · rw [Finset.sum_eq_sum_Ico_succ_bot below, chain]
        simp only [List.length_append, List.length_reverse, List.length_map, Option.getD_some]
        omega
      · intro s above under
        by_cases here : s = i
        · rw [here, chain]
          simp
        · exact read s (by omega) (by omega)

theorem HashInv.slotsFrom (inv : HashInv h chains) : SlotsFrom 0 h chains := by
  obtain ⟨table, isTable, holds⟩ := inv.table
  exact ⟨table, isTable, fun s _ below => holds s below⟩

theorem kvsHashDestory_frees (inv : HashInv h chains) (block : Nat) :
    Leaves (kvsHashDestory block h) A fun _ B => (∃ gone, B.freed ⊆ block :: gone ++ A.freed ∧
      gone.length ≤ chains.total) ∧ ∀ s, s < h.maxSlots.toNat → chains s ≠ none := by
  refine (destorySlots_frees _ 0 inv.slotsFrom).bind fun h' B ⟨⟨gone, freed, few⟩, read⟩ => ?_
  have few : gone.length ≤ chains.total := by
    rwa [← Finset.range_eq_Ico] at few
  refine .ite (fun _ => ⟨fun _ C ran => ?_⟩) fun _ => .pure ⟨⟨gone, ?_, few⟩, ?_⟩
  · cases ran
    refine ⟨⟨gone, ?_, few⟩, fun s below => read s (Nat.zero_le _) (by omega)⟩
    simp only [freed, List.cons_append]
    exact List.Subset.refl _
  · rw [freed]
    exact List.subset_cons_self _ _
  · intro s below
    exact read s (Nat.zero_le _) (by omega)

/-- So many blocks take as long a list. -/
theorem length_of_covers {low high : Nat} {blocks : List Nat}
    (covers : ∀ b, low < b → b ≤ high → b ∈ blocks) : high - low ≤ blocks.length := by
  have subset : Finset.Ioc low high ⊆ blocks.toFinset := by
    intro b member
    rw [Finset.mem_Ioc] at member
    exact List.mem_toFinset.mpr (covers b member.1 member.2)
  calc high - low = (Finset.Ioc low high).card := (Nat.card_Ioc low high).symm
    _ ≤ blocks.toFinset.card := Finset.card_le_card subset
    _ ≤ blocks.length := List.toFinset_card_le blocks

/-- Blocks are left over. -/
theorem Surplus.destory (surplus : Surplus base 2 h A) {block : Nat}
    (old : block ≤ base.calls) (fresh : ∀ b ∈ base.freed, b ≤ base.calls) :
    Leaves (kvsHashDestory block h) A fun _ B =>
      ∃ b, base.calls < b ∧ b ≤ A.calls ∧ b ∉ B.freed := by
  obtain ⟨chains, gone, inv, freed, -, one⟩ := surplus.counts
  refine ⟨fun _ B ran => ?_⟩
  obtain ⟨⟨last, inside, few⟩, -⟩ := (kvsHashDestory_frees inv block).of_ok _ _ ran
  by_contra none
  have covers : ∀ b, base.calls < b → b ≤ A.calls → b ∈ last ++ gone := by
    intro b above below
    have member : b ∈ B.freed := by
      by_contra missing
      exact none ⟨b, above, below, missing⟩
    have member := inside member
    rw [freed] at member
    simp only [List.cons_append, List.mem_cons, List.mem_append] at member ⊢
    rcases member with rfl | inLast | inGone | inBase
    · omega
    · exact .inl inLast
    · exact .inr inGone
    · have := fresh b inBase
      omega
  have long := length_of_covers covers
  rw [List.length_append] at long
  omega

end Destory

section New

variable {A : Allocator}

theorem newTable_surplus (granted : A.AllSucceed) (words : Nat → Nat) :
    Surplus A 0 (newTable words) A := by
  have total : (newChains words).total = 0 := by
    have counted := (newTable_inv words).count
    have zero : (newTable words).count = 0 := rfl
    omega
  refine ⟨granted, newChains words, [], newTable_inv words, rfl, ?_, ?_⟩ <;>
    simp only [List.length_nil, total] <;> omega

/-- In a table of empty chains `mod` and `del` find nothing. -/
theorem newTable_call {words : Nat → Nat} {s : Nat} {update : Update}
    (zero : words s = 0) (slot : HashSlot update.key s) (other : update.isSet = false) :
    ∃ code, update.hash (newTable words) A = .ok ((code, newTable words), A) := by
  have chain : newChains words s = some [] := if_pos zero
  have absent := hashLookup_absent slot chain (fun x member => by cases member)
  cases update with
  | set key value => cases other
  | mod key value => exact ⟨1, kvsHashMod_absent value (newTable_inv words) slot chain absent⟩
  | del key => exact ⟨-1, kvsHashDel_absent (newTable_inv words) slot chain absent⟩

/-- Calls that return and do not store leave a new table as it is. -/
theorem newTable_kept {words : Nat → Nat} (updates : List Update)
    (others : ∀ update ∈ updates, update.isSet = false) :
    Leaves (runUpdates Update.hash (newTable words) updates) A fun h B =>
      h = newTable words ∧ B = A ∧ ∀ update ∈ updates, ∃ s, HashSlot update.key s := by
  induction updates with
  | nil => exact .pure ⟨rfl, rfl, fun update member => by cases member⟩
  | cons update rest ih =>
      have called : Leaves (update.hash (newTable words)) A fun r B =>
          r.2 = newTable words ∧ B = A ∧ ∃ s, HashSlot update.key s := by
        refine ⟨fun r B ran => ?_⟩
        obtain ⟨s, items, slot, chain⟩ :=
          ((newTable_inv words).returned update).of_ok _ _ ran
        have zero : words s = 0 := by
          by_contra nonzero
          rw [newChains, if_neg nonzero] at chain
          cases chain
        obtain ⟨code, ran'⟩ := newTable_call (A := A) zero slot (others update (by simp))
        rw [ran'] at ran
        cases ran
        exact ⟨rfl, rfl, s, slot⟩
      refine called.bind fun (_, h) B after => ?_
      obtain ⟨same, unmoved, placed⟩ := after
      simp only at same
      rw [same, unmoved]
      refine ⟨fun h C ran => ?_⟩
      obtain ⟨kept, unmoved, restPlaced⟩ := (ih fun update member =>
        others update (List.mem_cons_of_mem _ member)).of_ok h C ran
      exact ⟨kept, unmoved, List.forall_mem_cons.mpr ⟨placed, restPlaced⟩⟩

theorem newTable_run {words : Nat → Nat} (zero : ∀ s, s < maxTableSize → words s = 0)
    (updates : List Update) (placed : ∀ update ∈ updates, ∃ s, HashSlot update.key s)
    (others : ∀ update ∈ updates, update.isSet = false) :
    runUpdates Update.hash (newTable words) updates A = .ok (newTable words, A) := by
  induction updates with
  | nil => rfl
  | cons update rest ih =>
      obtain ⟨s, slot⟩ := placed update (by simp)
      obtain ⟨code, ran⟩ := newTable_call (A := A) (zero s slot.lt) slot (others update (by simp))
      apply (bind_ok ran).trans
      exact ih (fun update member => placed update (List.mem_cons_of_mem _ member))
        fun update member => others update (List.mem_cons_of_mem _ member)

theorem destorySlots_empty {h : HashTable} {table : Nat → Bucket} (n i : Nat)
    (isTable : h.nodes = some table) (empty : ∀ s, s < maxTableSize → table s = .chain [])
    (within : i + n ≤ maxTableSize) :
    ∃ h', destorySlots h n i A = .ok (h', A) ∧ h'.nodes.isSome := by
  induction n generalizing h table i with
  | zero => exact ⟨h, rfl, by simp [isTable]⟩
  | succ n ih =>
      have loaded : h.load i = .ok (.chain []) := by
        simp only [HashTable.load, isTable]
        rw [if_pos ⟨by omega, by exact_mod_cast (show i < maxTableSize by omega)⟩,
          Int.toNat_natCast, empty i (by omega)]
      have stored : (h.store i []).nodes = some (Function.update table i (.chain [])) := by
        simp [HashTable.store, isTable]
      obtain ⟨h', ran, some⟩ := ih (i + 1) stored (fun s below => by
        rw [Function.update_apply]
        split
        · rfl
        · exact empty s below) (by omega)
      refine ⟨h', ?_, some⟩
      rw [destorySlots, lift_bind_ok loaded]
      exact ran

theorem newTable_owns_nothing (words : Nat → Nat) (block : Nat) :
    ¬ (newTable words).Owns block := by
  rintro ⟨table, s, nodes, isTable, -, chain, n, member, -⟩
  cases isTable
  simp only at chain
  split at chain
  · cases chain
    cases member
  · cases chain

/-- What a ledger of a new table says about its calls: none of them stored, every
key has a slot, and `destory` found the array zero. -/
theorem newTable_ledger_only {words : Nat → Nat} {block : Nat} {updates : List Update}
    (granted : A.AllSucceed) (fresh : ∀ b ∈ A.freed, b ≤ A.calls) (old : block ≤ A.calls)
    (ledger : Ledger Update.hash (kvsHashDestory block) HashTable.Owns (newTable words) A
      updates) :
    (∀ update ∈ updates, update.isSet = false ∧ ∃ s, HashSlot update.key s) ∧
      ∀ s, s < maxTableSize → words s = 0 := by
  obtain ⟨h, B, C, ran, gone, once⟩ := ledger.returned
  have others : ∀ update ∈ updates, update.isSet = false := by
    by_contra stored
    have surplus := ((newTable_surplus granted words).run updates (by omega)).of_ok _ _ ran
    have any : updates.any Update.isSet = true := by simpa using stored
    rw [if_pos any] at surplus
    obtain ⟨b, above, below, missing⟩ := (surplus.destory old fresh).of_ok _ _ gone
    have counted := once b above below
    rw [List.count_eq_zero_of_not_mem missing] at counted
    cases counted
  obtain ⟨rfl, rfl, placed⟩ := (newTable_kept updates others).of_ok _ _ ran
  refine ⟨fun update member => ⟨others update member, placed update member⟩, ?_⟩
  intro s below
  have read := ((kvsHashDestory_frees (newTable_inv words) block).of_ok _ _ gone).2 s below
  by_contra nonzero
  exact read (if_neg nonzero)

theorem newTable_ledger {words : Nat → Nat} {block : Nat} {updates : List Update}
    (others : ∀ update ∈ updates, update.isSet = false)
    (placed : ∀ update ∈ updates, ∃ s, HashSlot update.key s)
    (zero : ∀ s, s < maxTableSize → words s = 0) :
    Ledger Update.hash (kvsHashDestory block) HashTable.Owns (newTable words) A updates := by
  have runs : ∀ done, done <+: updates →
      runUpdates Update.hash (newTable words) done A = .ok (newTable words, A) :=
    fun done isPrefix => newTable_run zero done (fun u member => placed u (isPrefix.subset member))
      fun u member => others u (isPrefix.subset member)
  refine ⟨fun done isPrefix => ⟨_, A, runs done isPrefix, fun b => ?_⟩, ?_⟩
  · constructor
    · rintro ⟨above, below, -⟩
      omega
    · intro owned
      exact absurd owned (newTable_owns_nothing words b)
  · obtain ⟨h, ran, some⟩ := destorySlots_empty (A := A) (h := newTable words) maxTableSize 0 rfl
      (fun s below => if_pos (zero s below)) (Nat.le_of_eq (Nat.zero_add _))
    refine ⟨_, A, { A with freed := block :: A.freed }, runs updates List.prefix_rfl, ?_, ?_⟩
    · apply (bind_ok ran).trans
      rw [if_pos some]
      rfl
    · intro b above below
      omega

end New

/-- The tree and the hash engine, from their creation: the ledger balances exactly
when nothing was ever stored (and the calls on the hash table meet neither an
overflowing byte sum nor a bucket word that is not zero). -/
theorem ledger_balances_iff (A : Allocator) (granted : A.AllSucceed)
    (fresh : ∀ block ∈ A.freed, block ≤ A.calls) (fuel : Nat) (positive : 0 < fuel)
    (updates : List Update) (ascii : ∀ update ∈ updates, ∀ b ∈ update.key.bytes, b.toNat < 128) :
    (∃ T B, kvsRbtreeCreate A = .ok ((0, T), B) ∧
      (Ledger (Update.rbtree fuel) (kvsRbtreeDestory fuel) Rbtree.Owns T B updates ↔
        ∀ update ∈ updates, update.isSet = false)) ∧
    (∃ h B, kvsHashCreate A = .ok ((0, h), B) ∧
      (Ledger Update.hash (kvsHashDestory (A.calls + 1)) HashTable.Owns h B updates ↔
        (∀ update ∈ updates, update.isSet = false ∧ byteTotal update.key < 2 ^ 31) ∧
          ∀ s, s < maxTableSize → A.junk A.calls s = 0)) := by
  constructor
  · obtain ⟨T, B, ran, bare⟩ := kvsRbtreeCreate_bare granted fresh
    exact ⟨T, B, ran, bare.ledger_iff positive updates⟩
  · refine ⟨_, _, kvsHashCreate_run granted, ?_⟩
    have later := (Allocator.Later.next A).allSucceed granted
    have fresh' : ∀ b ∈ A.next.freed, b ≤ A.next.calls := fun b member =>
      Nat.le_succ_of_le (fresh b member)
    constructor
    · intro ledger
      obtain ⟨calls, zero⟩ := newTable_ledger_only later fresh' (Nat.le_refl _) ledger
      refine ⟨fun update member => ⟨(calls update member).1, ?_⟩, zero⟩
      by_contra large
      obtain ⟨s, slot⟩ := (calls update member).2
      rw [HashSlot, hash_overflow (ascii update member) (Nat.le_of_not_lt large)] at slot
      cases slot
    · rintro ⟨calls, zero⟩
      exact newTable_ledger (fun update member => (calls update member).1)
        (fun update member => ⟨_, hash_ascii (ascii update member) (calls update member).2⟩) zero

/-- Two keys stored, one value replaced and one key deleted. -/
def storing : List Update :=
  [.set ⟨[112], by decide⟩ ⟨[120], by decide⟩, .set ⟨[113], by decide⟩ ⟨[121], by decide⟩,
    .mod ⟨[113], by decide⟩ ⟨[122], by decide⟩, .del ⟨[112], by decide⟩]

/-- Calls on keys that are not there. -/
def unstored : List Update := [.del ⟨[112], by decide⟩, .mod ⟨[113], by decide⟩ ⟨[122], by decide⟩]

/-- Over cleared memory neither ledger balances where keys were stored, and both do where
none was. -/
theorem ledger_balances_iff_storing : ∃ T B h C,
    kvsRbtreeCreate .cleared = .ok ((0, T), B) ∧ kvsHashCreate .cleared = .ok ((0, h), C) ∧
      ¬ Ledger (Update.rbtree 4) (kvsRbtreeDestory 4) Rbtree.Owns T B storing ∧
      ¬ Ledger Update.hash (kvsHashDestory 1) HashTable.Owns h C storing ∧
      Ledger (Update.rbtree 4) (kvsRbtreeDestory 4) Rbtree.Owns T B unstored ∧
      Ledger Update.hash (kvsHashDestory 1) HashTable.Owns h C unstored := by
  have noneFreed : ∀ block ∈ Allocator.cleared.freed, block ≤ Allocator.cleared.calls := by
    intro block member
    cases member
  obtain ⟨⟨T, B, made, tree⟩, h, C, made', hash⟩ := ledger_balances_iff .cleared
    Allocator.cleared_allSucceed noneFreed 4 (by decide) storing (by simp [storing, Update.key])
  obtain ⟨⟨T', B', again, tree'⟩, h', C', again', hash'⟩ := ledger_balances_iff .cleared
    Allocator.cleared_allSucceed noneFreed 4 (by decide) unstored (by simp [unstored, Update.key])
  cases made.symm.trans again
  cases made'.symm.trans again'
  refine ⟨T, B, h, C, made, made', ?_, ?_, ?_, ?_⟩
  · exact mt tree.mp (by decide)
  · exact mt hash.mp fun balanced => absurd balanced.1 (by decide)
  · exact tree'.mpr (by decide)
  · exact hash'.mpr ⟨by decide, fun _ _ => rfl⟩

/-- After `set` of one key into a new tree `destory` returns and has freed the
sentinel only. -/
theorem destory_leaks_tree : ∃ T B T' C D, kvsRbtreeCreate .cleared = .ok ((0, T), B) ∧
    runUpdates (Update.rbtree 3) T [.set ⟨[97], by decide⟩ ⟨[49], by decide⟩] B = .ok (T', C) ∧
    kvsRbtreeDestory 3 T' C = .ok ((), D) ∧ B.calls = 1 ∧ C.calls = 4 ∧ D.freed = [1] :=
  ⟨_, _, _, _, _, rfl, rfl, rfl, rfl, rfl, rfl⟩

end LinuxCpp.Kvstore
