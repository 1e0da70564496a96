import LinuxCpp.Kvstore.Sendable

set_option autoImplicit false

/- Two runs of the same messages over different garbage memory. Only two reads
reach memory that nobody wrote: a bucket of the hash table that no `HSET` set,
and the parent field of the sentinel of the tree. -/
namespace LinuxCpp.Kvstore

open C RedBlack RedBlack.ColorTree

/-- The replies of a run, up to the fault that ends it. -/
def replies (fuel : Nat) : Store → Allocator → List (List UInt8) → List (Except Fault Reply)
  | _, _, [] => []
  | S, A, msg :: rest =>
      match request fuel S msg A with
      | .error fault => [.error fault]
      | .ok ((reply, S), B) => .ok reply :: replies fuel S B rest

/-- `init_kvengine` and the replies to the messages after it. -/
def session (fuel : Nat) (A : Allocator) (msgs : List (List UInt8)) : List (Except Fault Reply) :=
  match initKvengine A with
  | .error fault => [.error fault]
  | .ok (S, B) => replies fuel S B msgs

/-- The bucket of the key, if it has one, was zero or has been written. -/
def BucketWritten (h : HashTable) (key : CStr) : Prop :=
  ∀ s, HashSlot key s → ∃ table nodes, h.nodes = some table ∧ table s = .chain nodes

/-- The call reads only memory that was written: its bucket, and no parent field
of the sentinel, which the repair below an unlinked black leaf would read. -/
def ReadsWritten (S : Store) (key value : Option CStr) : Engine → Verb → Prop
  | .array, _ => True
  | .rbtree, verb => ∀ k t, verb = .del → key = some k → Holds S.rbtree t →
      splicesBlackLeaf RbItem.key k t = false
  | .hash, verb => ∀ k, key = some k → (verb = .set → value ≠ none) → BucketWritten S.hash k

def Guarded (S : Store) (msg : List UInt8) : Prop :=
  ∀ name args engine verb, kvsSplitToken (msg ++ [0]) = .ok (name :: args) →
    findCommand name = some (engine, verb) → ReadsWritten S args[0]? args[1]? engine verb

/-- Every message of the run is guarded in the state that it meets. -/
def GuardedRun : Store → Allocator → List (List UInt8) → Prop
  | _, _, [] => True
  | S, A, msg :: rest => Guarded S msg ∧
      ∀ fuel reply T B, request fuel S msg A = .ok ((reply, T), B) → GuardedRun T B rest

/-- A whole run from `init_kvengine` is guarded. -/
def GuardedSession (A : Allocator) (msgs : List (List UInt8)) : Prop :=
  ∀ S B, initKvengine A = .ok (S, B) → GuardedRun S B msgs

/-- Two stores that answer alike: the same cells of the array, and trees and
tables that stand for the same maps. -/
structure Agree (S : Store) (A : Allocator) (S' : Store) (A' : Allocator) : Prop where
  granted : A.AllSucceed
  granted' : A'.AllSucceed
  array : ∃ slots, Represents S.array slots ∧ Represents S'.array slots
  rbtree : ∃ t t', RbInv S.rbtree A t ∧ RbInv S'.rbtree A' t' ∧ rbView t = rbView t'
  hash : ∃ chains chains', HashInv S.hash chains ∧ HashInv S'.hash chains' ∧
    hashView chains = hashView chains' ∧ S.hash.count = S'.hash.count

/-- Under every large enough bound, both calls give the same reply and leave
stores that agree, or both end in the same fault. -/
def Same (A A' : Allocator) (call call' : Nat → CM (Reply × Store)) : Prop :=
  ∃ bound,
    (∃ reply T B T' B', Agree T B T' B' ∧ ∀ fuel, bound ≤ fuel →
      call fuel A = .ok ((reply, T), B) ∧ call' fuel A' = .ok ((reply, T'), B')) ∨
    (∃ fault, ∀ fuel, bound ≤ fuel →
      call fuel A = .error fault ∧ call' fuel A' = .error fault)

section Calls

variable {S S' : Store} {A A' : Allocator} {call call' : Nat → CM (Reply × Store)}

theorem Agree.same_stay (agree : Agree S A S' A') (reply : Reply)
    (first : ∀ fuel, call fuel A = .ok ((reply, S), A))
    (second : ∀ fuel, call' fuel A' = .ok ((reply, S'), A')) : Same A A' call call' :=
  ⟨0, .inl ⟨reply, S, A, S', A', agree, fun fuel _ => ⟨first fuel, second fuel⟩⟩⟩

theorem Same.fault (fault : Fault) (first : ∀ fuel, call fuel A = .error fault)
    (second : ∀ fuel, call' fuel A' = .error fault) : Same A A' call call' :=
  ⟨0, .inr ⟨fault, fun fuel _ => ⟨first fuel, second fuel⟩⟩⟩

theorem Same.congr {run run' : Nat → CM (Reply × Store)} (same : Same A A' call call')
    (first : ∀ fuel, run fuel A = call fuel A) (second : ∀ fuel, run' fuel A' = call' fuel A') :
    Same A A' run run' := by
  simpa only [Same, first, second] using same

theorem Same.answers {engine : Engine} {r : Request} {text : List UInt8} {T T' : Store}
    {B B' : Allocator} (first : Answers S A engine r text T B)
    (second : Answers S' A' engine r text T' B') (agree : Agree T B T' B') :
    Same A A' (fun fuel => r.exec fuel S engine) (fun fuel => r.exec fuel S' engine) := by
  obtain ⟨bound, ran⟩ := first
  obtain ⟨bound', ran'⟩ := second
  refine ⟨max bound bound', .inl ⟨sprintf text, T, B, T', B', agree, ?_⟩⟩
  intro fuel enough
  exact ⟨ran fuel (by omega), ran' fuel (by omega)⟩

/-- The command answers with one text in every store, and leaves the store as it is. -/
def Refused (key value : Option CStr) (engine : Engine) (verb : Verb) : Prop :=
  ∃ text, text ≠ [] ∧ ∀ fuel S A,
    runCommand fuel S key value engine verb A = .ok ((sprintf text, S), A)

/-- Without a key no engine is looked at. -/
theorem refused_keyless (value : Option CStr) (engine : Engine) (verb : Verb) :
    Refused none value engine verb := by
  cases verb with
  | set =>
      cases engine with
      | array | rbtree => exact ⟨setErrorText, by decide, fun _ _ _ => rfl⟩
      | hash => exact ⟨errorText, by decide, fun _ _ _ => rfl⟩
  | get | exist => cases engine <;> exact ⟨noExistText, by decide, fun _ _ _ => rfl⟩
  | del | mod => cases engine <;> exact ⟨errorText, by decide, fun _ _ _ => rfl⟩

theorem refused_set_valueless (key : CStr) (engine : Engine) :
    Refused (some key) none engine .set := by
  cases engine with
  | array | rbtree => exact ⟨setErrorText, by decide, fun _ _ _ => rfl⟩
  | hash => exact ⟨errorText, by decide, fun _ _ _ => rfl⟩

theorem refused_mod_valueless (key : CStr) {engine : Engine} (other : engine ≠ .hash) :
    Refused (some key) none engine .mod := by
  cases engine with
  | array | rbtree => exact ⟨errorText, by decide, fun _ _ _ => rfl⟩
  | hash => exact absurd rfl other

theorem Agree.refused (agree : Agree S A S' A') {key value : Option CStr} {engine : Engine}
    {verb : Verb} (refused : Refused key value engine verb) :
    Same A A' (fun fuel => runCommand fuel S key value engine verb)
      (fun fuel => runCommand fuel S' key value engine verb) := by
  obtain ⟨text, -, answered⟩ := refused
  exact agree.same_stay (sprintf text) (fun fuel => answered fuel S A)
    (fun fuel => answered fuel S' A')

end Calls

section Array

variable {S S' : Store} {A A' : Allocator}

theorem Agree.array_request (agree : Agree S A S' A') (r : Request) :
    Same A A' (fun fuel => r.exec fuel S .array) (fun fuel => r.exec fuel S' .array) := by
  obtain ⟨slots, rep, rep'⟩ := agree.array
  obtain ⟨t, t', tree, tree', views⟩ := agree.rbtree
  have totals : S'.array.total = S.array.total := rep'.total.trans rep.total.symm
  by_cases hole : ∃ key, r = .del key ∧ ¬ NoHoleBefore key (scanned slots)
  · obtain ⟨key, rfl, ahead⟩ := hole
    refine Same.fault .nullDeref ?_ ?_
    · intro fuel
      exact bind_error (bind_error (kvsArrayDel_hole rep.keyed key ahead))
    · intro fuel
      exact bind_error (bind_error (kvsArrayDel_hole rep'.keyed key ahead))
  · by_cases full : (∃ key value, r = .set key value) ∧ S.array.total = kvsArraySize
    · obtain ⟨⟨key, value, rfl⟩, full⟩ := full
      exact .answers (array_full full key value) (array_full (totals.trans full) key value) agree
    · have clear : r.ScanClear slots := by
        intro key isDel
        by_contra ahead
        exact hole ⟨key, isDel, ahead⟩
      have room : ∀ key value, r = .set key value → S.array.total ≠ kvsArraySize :=
        fun key value isSet isFull => full ⟨⟨key, value, isSet⟩, isFull⟩
      obtain ⟨inst, B, first, after, later⟩ := array_step rep agree.granted r clear room
      obtain ⟨inst', B', second, after', later'⟩ := array_step rep' agree.granted' r clear
        (totals.symm ▸ room)
      have texts : arrayMissing S'.array = arrayMissing S.array := by
        rw [arrayMissing, arrayMissing, totals]
      rw [texts] at second
      exact .answers first second ⟨later.allSucceed agree.granted,
        later'.allSucceed agree.granted', ⟨_, after, after'⟩,
        ⟨t, t', tree.later later, tree'.later later', views⟩, agree.hash⟩

/-- With an argument missing the array is not looked at. -/
theorem Agree.array_command (agree : Agree S A S' A') (key value : Option CStr) (verb : Verb) :
    Same A A' (fun fuel => runCommand fuel S key value .array verb)
      (fun fuel => runCommand fuel S' key value .array verb) := by
  cases key with
  | none => exact agree.refused (refused_keyless value _ verb)
  | some key =>
      cases verb with
      | get => exact agree.array_request (.get key)
      | del => exact agree.array_request (.del key)
      | exist => exact agree.array_request (.exist key)
      | set =>
          cases value with
          | none => exact agree.refused (refused_set_valueless key _)
          | some value => exact agree.array_request (.set key value)
      | mod =>
          cases value with
          | none => exact agree.refused (refused_mod_valueless key nofun)
          | some value => exact agree.array_request (.mod key value)

end Array

section Rbtree

variable {S S' : Store} {A A' : Allocator}

theorem Agree.rbtree_request (agree : Agree S A S' A') (r : Request)
    (spares : ∀ t, Holds S.rbtree t → r.SparesBlackLeaf t)
    (spares' : ∀ t, Holds S'.rbtree t → r.SparesBlackLeaf t) :
    Same A A' (fun fuel => r.exec fuel S .rbtree) (fun fuel => r.exec fuel S' .rbtree) := by
  obtain ⟨t, t', tree, tree', views⟩ := agree.rbtree
  obtain ⟨T, B, u, first, after, view, later⟩ :=
    rbtree_step tree agree.granted r (spares t tree.holds)
  obtain ⟨T', B', u', second, after', view', later'⟩ :=
    rbtree_step tree' agree.granted' r (spares' t' tree'.holds)
  rw [← views] at second view'
  exact .answers first second ⟨later.allSucceed agree.granted, later'.allSucceed agree.granted',
    agree.array, ⟨u, u', after, after', view.trans view'.symm⟩, agree.hash⟩

theorem Agree.rbtree_command (agree : Agree S A S' A') (key value : Option CStr) (verb : Verb)
    (reads : ReadsWritten S key value .rbtree verb)
    (reads' : ReadsWritten S' key value .rbtree verb) :
    Same A A' (fun fuel => runCommand fuel S key value .rbtree verb)
      (fun fuel => runCommand fuel S' key value .rbtree verb) := by
  have others : ∀ (T : Store) (r : Request), r.verb ≠ .del →
      ∀ t, Holds T.rbtree t → r.SparesBlackLeaf t := by
    intro T r notDel t _ key isDel
    rw [isDel] at notDel
    exact absurd rfl notDel
  cases key with
  | none => exact agree.refused (refused_keyless value _ verb)
  | some key =>
      cases verb with
      | get => exact agree.rbtree_request (.get key) (others S _ nofun) (others S' _ nofun)
      | del =>
          refine agree.rbtree_request (.del key) ?_ ?_
          · rintro t holds _ ⟨⟩
            exact reads key t rfl rfl holds
          · rintro t holds _ ⟨⟩
            exact reads' key t rfl rfl holds
      | exist => exact agree.rbtree_request (.exist key) (others S _ nofun) (others S' _ nofun)
      | set =>
          cases value with
          | none => exact agree.refused (refused_set_valueless key _)
          | some value =>
              exact agree.rbtree_request (.set key value) (others S _ nofun) (others S' _ nofun)
      | mod =>
          cases value with
          | none => exact agree.refused (refused_mod_valueless key nofun)
          | some value =>
              exact agree.rbtree_request (.mod key value) (others S _ nofun) (others S' _ nofun)

end Rbtree

section Hash

variable {S S' : Store} {A A' : Allocator} {chains : Chains} {key : CStr} {fault : Fault}

/-- The key has no bucket: the sum of its bytes leaves `int`, or the index is
negative. -/
def Unplaced (key : CStr) (fault : Fault) : Prop :=
  hash (some key) maxTableSize = .error fault ∨
    ∃ idx, hash (some key) maxTableSize = .ok idx ∧ idx < 0 ∧ fault = .outOfBounds

theorem slot_or_unplaced (key : CStr) : (∃ s, HashSlot key s) ∨ ∃ fault, Unplaced key fault := by
  cases sum : hash (some key) maxTableSize with
  | error fault => exact .inr ⟨fault, .inl sum⟩
  | ok idx =>
      by_cases negative : idx < 0
      · exact .inr ⟨.outOfBounds, .inr ⟨idx, sum, negative, rfl⟩⟩
      · exact .inl ⟨idx.toNat, by rw [HashSlot, sum, Int.toNat_of_nonneg (by omega)]⟩

theorem HashInv.load_negative {h : HashTable} (inv : HashInv h chains) {idx : Int}
    (negative : idx < 0) : h.load idx = .error .outOfBounds := by
  obtain ⟨table, isTable, -⟩ := inv.table
  simp only [HashTable.load, isTable]
  rw [if_neg (by omega)]

theorem HashInv.get_wild {h : HashTable} (inv : HashInv h chains) {s : Nat}
    (slot : HashSlot key s) (unwritten : chains s = none) :
    kvsHashGet h (some key) = .error .wildDeref := by
  obtain ⟨table, isTable, holds⟩ := inv.table
  have held := holds s slot.lt
  rw [unwritten] at held
  obtain ⟨word, wild⟩ := held
  have isSlot : hash (some key) maxTableSize = .ok (s : Int) := slot
  simp only [kvsHashGet, isSlot, ok_bind, HashTable.load, isTable]
  rw [if_pos ⟨by omega, by exact_mod_cast slot.lt⟩, Int.toNat_natCast, wild]
  rfl

theorem Unplaced.get (unplaced : Unplaced key fault) {h : HashTable} (inv : HashInv h chains) :
    kvsHashGet h (some key) = .error fault := by
  rcases unplaced with sum | ⟨idx, sum, negative, rfl⟩
  · simp only [kvsHashGet, sum]
    rfl
  · simp only [kvsHashGet, sum, ok_bind, inv.load_negative negative]
    rfl

theorem Unplaced.exist (unplaced : Unplaced key fault) {h : HashTable} (inv : HashInv h chains) :
    kvsHashExist h (some key) = .error fault := by
  simp only [kvsHashExist, unplaced.get inv]
  rfl

theorem Unplaced.set (unplaced : Unplaced key fault) {h : HashTable} (inv : HashInv h chains)
    (value : CStr) : kvsHashSet h (some key) (some value) A = .error fault := by
  simp only [kvsHashSet]
  rcases unplaced with sum | ⟨idx, sum, negative, rfl⟩
  · exact lift_bind_error sum
  · rw [lift_bind_ok sum]
    exact lift_bind_error (inv.load_negative negative)

theorem Unplaced.mod (unplaced : Unplaced key fault) {h : HashTable} (inv : HashInv h chains)
    (value : Option CStr) : kvsHashMod h (some key) value A = .error fault := by
  simp only [kvsHashMod]
  rcases unplaced with sum | ⟨idx, sum, negative, rfl⟩
  · exact lift_bind_error sum
  · rw [lift_bind_ok sum]
    exact lift_bind_error (inv.load_negative negative)

theorem Unplaced.del (unplaced : Unplaced key fault) {h : HashTable} (inv : HashInv h chains) :
    kvsHashDel h (some key) A = .error fault := by
  simp only [kvsHashDel]
  rcases unplaced with sum | ⟨idx, sum, negative, rfl⟩
  · exact lift_bind_error sum
  · rw [lift_bind_ok sum]
    exact lift_bind_error (inv.load_negative negative)

/-- Where `get` returns, the key has a chain. -/
theorem HashInv.get_ok {h : HashTable} (inv : HashInv h chains) {p : CPtr}
    (got : kvsHashGet h (some key) = .ok p) :
    ∃ s items, HashSlot key s ∧ chains s = some items ∧ p = hashAnswer chains key := by
  rcases slot_or_unplaced key with ⟨s, slot⟩ | ⟨fault, unplaced⟩
  · cases chain : chains s with
    | none =>
        rw [inv.get_wild slot chain] at got
        cases got
    | some items =>
        rw [kvsHashGet_slot inv slot chain] at got
        cases got
        exact ⟨s, items, slot, chain, rfl⟩
  · rw [unplaced.get inv] at got
    cases got

/-- A call on a key without a bucket ends in its fault. -/
theorem Unplaced.command (unplaced : Unplaced key fault) (inv : HashInv S.hash chains)
    (value : Option CStr) (verb : Verb) (reaches : verb = .set → value ≠ none) (fuel : Nat) :
    runCommand fuel S (some key) value .hash verb A = .error fault := by
  cases verb with
  | get => exact lift_bind_error (unplaced.get inv)
  | exist => exact lift_bind_error (unplaced.exist inv)
  | del => exact bind_error (bind_error (unplaced.del inv))
  | mod => exact bind_error (bind_error (unplaced.mod inv value))
  | set =>
      obtain ⟨value, rfl⟩ := Option.ne_none_iff_exists'.mp (reaches rfl)
      exact bind_error (bind_error (unplaced.set inv value))

/-- `HMOD` without a value frees the old one and reads a null pointer. -/
theorem kvsHashMod_valueless {h : HashTable} {s : Nat} {items : List HashItem}
    (inv : HashInv h chains) (slot : HashSlot key s) (chain : chains s = some items) :
    kvsHashMod h (some key) none A =
      if hashView chains key = none then .ok ((1, h), A) else .error .nullDeref := by
  have isSlot : hash (some key) maxTableSize = .ok (s : Int) := slot
  simp only [kvsHashMod]
  rw [lift_bind_ok isSlot, lift_bind_ok (inv.load slot chain)]
  simp only [Bucket.walk, hashView_eq_none]
  apply (lift_bind_ok rfl).trans
  rcases chain_cases key items with absent | ⟨pre, x, post, rfl, here, before⟩
  · rw [if_pos (hashLookup_absent slot chain absent)]
    exact lift_bind_ok (findNode_absent absent)
  · rw [if_neg (by simp [hashLookup_present slot chain here before])]
    apply (lift_bind_ok (findNode_present here before)).trans
    simp only [List.map_append, List.map_cons, List.getElem?_append_right, List.length_map,
      Nat.le_refl, Nat.sub_self]
    rfl

/-- `HSET` of a new key into a table that counts `INT_MAX` nodes. -/
theorem kvsHashSet_overflow {h : HashTable} {s : Nat} {items : List HashItem} (value : CStr)
    (inv : HashInv h chains) (granted : A.AllSucceed) (slot : HashSlot key s)
    (chain : chains s = some items) (absent : hashLookup chains key = none)
    (full : ¬ h.count + 1 < 2 ^ 31) :
    kvsHashSet h (some key) (some value) A = .error .overflow := by
  have isSlot : hash (some key) maxTableSize = .ok (s : Int) := slot
  have missing : ∀ x ∈ items, x.key ≠ key := by
    rw [hashLookup_slot slot chain, List.find?_eq_none] at absent
    simpa using absent
  simp only [kvsHashSet]
  rw [lift_bind_ok isSlot, lift_bind_ok (inv.load slot chain)]
  simp only [Bucket.walk]
  refine (lift_bind_ok rfl).trans ((lift_bind_ok (findNode_absent missing)).trans ?_)
  simp only [ne_eq, not_true_eq_false, if_false]
  rw [bind_ok (createNode_run granted key value)]
  have tooMany : addInt h.count 1 = .error .overflow := if_neg fun range => full range.2
  exact lift_bind_error tooMany

theorem BucketWritten.chain {h : HashTable} (written : BucketWritten h key)
    (inv : HashInv h chains) {s : Nat} (slot : HashSlot key s) :
    ∃ items, chains s = some items := by
  obtain ⟨table, nodes, isTable, isChain⟩ := written s slot
  obtain ⟨s', items, slot', chain⟩ := HasBucket.chain inv ⟨s, table, nodes, slot, isTable, isChain⟩
  rw [slot.unique slot']
  exact ⟨items, chain⟩

/-- `HSET` into a table that counts `INT_MAX` nodes. -/
theorem Agree.hash_full (agree : Agree S A S' A') {s : Nat} (value : CStr)
    (written : BucketWritten S.hash key) (written' : BucketWritten S'.hash key)
    (slot : HashSlot key s) (full : ¬ S.hash.count + 1 < 2 ^ 31) :
    Same A A' (fun fuel => (Request.set key value).exec fuel S .hash)
      (fun fuel => (Request.set key value).exec fuel S' .hash) := by
  obtain ⟨chains, chains', table, table', maps, counts⟩ := agree.hash
  obtain ⟨items, chain⟩ := written.chain table slot
  obtain ⟨items', chain'⟩ := written'.chain table' slot
  by_cases absent : hashView chains key = none
  · refine Same.fault .overflow ?_ ?_
    · intro fuel
      exact bind_error (bind_error (kvsHashSet_overflow value table agree.granted slot chain
        (hashView_eq_none.mp absent) full))
    · intro fuel
      exact bind_error (bind_error (kvsHashSet_overflow value table' agree.granted' slot chain'
        (hashView_eq_none.mp (maps ▸ absent)) (counts ▸ full)))
  · refine agree.same_stay (sprintf existText) ?_ ?_
    · intro fuel
      have called : kvsSet fuel S (some key) (some value) .hash A = _ :=
        bind_ok (kvsHashSet_present value table slot chain (mt hashView_eq_none.mpr absent))
      exact Request.exec_set called
    · intro fuel
      have called : kvsSet fuel S' (some key) (some value) .hash A' = _ :=
        bind_ok (kvsHashSet_present value table' slot chain'
          (mt hashView_eq_none.mpr (maps ▸ absent)))
      exact Request.exec_set called

theorem Agree.hash_request (agree : Agree S A S' A') (r : Request)
    (written : BucketWritten S.hash r.key) (written' : BucketWritten S'.hash r.key) :
    Same A A' (fun fuel => r.exec fuel S .hash) (fun fuel => r.exec fuel S' .hash) := by
  obtain ⟨t, t', tree, tree', views⟩ := agree.rbtree
  obtain ⟨chains, chains', table, table', maps, counts⟩ := agree.hash
  rcases slot_or_unplaced r.key with ⟨s, slot⟩ | ⟨fault, unplaced⟩
  · by_cases full : (∃ key value, r = .set key value) ∧ ¬ S.hash.count + 1 < 2 ^ 31
    · obtain ⟨⟨key, value, rfl⟩, full⟩ := full
      exact agree.hash_full value written written' slot full
    · have room : ∀ key value, r = .set key value → S.hash.count + 1 < 2 ^ 31 := by
        intro key value isSet
        by_contra isFull
        exact full ⟨⟨key, value, isSet⟩, isFull⟩
      obtain ⟨items, chain⟩ := written.chain table slot
      obtain ⟨items', chain'⟩ := written'.chain table' slot
      obtain ⟨h, B, c, first, after, map, later, count, -⟩ :=
        hash_step table agree.granted r slot chain room
      obtain ⟨h', B', c', second, after', map', later', count', -⟩ :=
        hash_step table' agree.granted' r slot chain' (counts ▸ room)
      rw [← maps] at second map' count'
      rw [← counts] at count'
      exact .answers first second ⟨later.allSucceed agree.granted,
        later'.allSucceed agree.granted', agree.array,
        ⟨t, t', tree.later later, tree'.later later', views⟩,
        ⟨c, c', after, after', map.trans map'.symm, count.trans count'.symm⟩⟩
  · refine Same.fault fault ?_ ?_
    · intro fuel
      exact unplaced.command table _ _ (by cases r <;> simp [Request.verb, Request.value]) fuel
    · intro fuel
      exact unplaced.command table' _ _ (by cases r <;> simp [Request.verb, Request.value]) fuel

theorem Agree.hash_mod_valueless (agree : Agree S A S' A')
    (written : BucketWritten S.hash key) (written' : BucketWritten S'.hash key) :
    Same A A' (fun fuel => runCommand fuel S (some key) none .hash .mod)
      (fun fuel => runCommand fuel S' (some key) none .hash .mod) := by
  obtain ⟨chains, chains', table, table', maps, counts⟩ := agree.hash
  rcases slot_or_unplaced key with ⟨s, slot⟩ | ⟨fault, unplaced⟩
  · obtain ⟨items, chain⟩ := written.chain table slot
    obtain ⟨items', chain'⟩ := written'.chain table' slot
    have first := kvsHashMod_valueless (A := A) table slot chain
    have second := kvsHashMod_valueless (A := A') table' slot chain'
    rw [← maps] at second
    by_cases absent : hashView chains key = none
    · rw [if_pos absent] at first second
      refine agree.same_stay (sprintf noExistText) ?_ ?_
      · intro fuel
        have called : kvsMod fuel S (some key) none .hash A = _ := bind_ok first
        exact bind_ok called
      · intro fuel
        have called : kvsMod fuel S' (some key) none .hash A' = _ := bind_ok second
        exact bind_ok called
    · rw [if_neg absent] at first second
      exact Same.fault .nullDeref (fun _ => bind_error (bind_error first))
        (fun _ => bind_error (bind_error second))
  · refine Same.fault fault ?_ ?_
    · intro fuel
      exact unplaced.command table none .mod nofun fuel
    · intro fuel
      exact unplaced.command table' none .mod nofun fuel

theorem Agree.hash_command (agree : Agree S A S' A') (key value : Option CStr) (verb : Verb)
    (reads : ReadsWritten S key value .hash verb) (reads' : ReadsWritten S' key value .hash verb) :
    Same A A' (fun fuel => runCommand fuel S key value .hash verb)
      (fun fuel => runCommand fuel S' key value .hash verb) := by
  cases key with
  | none => exact agree.refused (refused_keyless value .hash verb)
  | some key =>
      cases verb with
      | get => exact agree.hash_request (.get key) (reads key rfl nofun) (reads' key rfl nofun)
      | del => exact agree.hash_request (.del key) (reads key rfl nofun) (reads' key rfl nofun)
      | exist =>
          exact agree.hash_request (.exist key) (reads key rfl nofun) (reads' key rfl nofun)
      | set =>
          cases value with
          | none => exact agree.refused (refused_set_valueless key _)
          | some value =>
              exact agree.hash_request (.set key value) (reads key rfl fun _ => by simp)
                (reads' key rfl fun _ => by simp)
      | mod =>
          cases value with
          | none => exact agree.hash_mod_valueless (reads key rfl nofun) (reads' key rfl nofun)
          | some value =>
              exact agree.hash_request (.mod key value) (reads key rfl nofun)
                (reads' key rfl nofun)

end Hash

section Sessions

variable {S S' : Store} {A A' : Allocator}

theorem Agree.message (agree : Agree S A S' A') {msg : List UInt8} (guarded : Guarded S msg)
    (guarded' : Guarded S' msg) :
    Same A A' (fun fuel => request fuel S msg) (fun fuel => request fuel S' msg) := by
  unfold request kvsProtocol
  by_cases empty : (msg.length : Int) ≤ 0
  · simp only [if_pos empty]
    exact agree.same_stay ⟨-1, none⟩ (fun _ => rfl) (fun _ => rfl)
  · simp only [if_neg empty]
    cases split : kvsSplitToken (msg ++ [0]) with
    | error fault => exact Same.fault fault (fun _ => rfl) (fun _ => rfl)
    | ok tokens =>
        cases tokens with
        | nil => exact agree.same_stay ⟨-1, none⟩ (fun _ => rfl) (fun _ => rfl)
        | cons name args =>
            cases known : findCommand name with
            | none =>
                refine Same.fault .abort ?_ ?_ <;>
                · intro fuel
                  apply (lift_bind_ok rfl).trans
                  rw [kvsFilterProtocol, known]
                  rfl
            | some hit =>
                obtain ⟨engine, verb⟩ := hit
                have reads := guarded name args engine verb split known
                have reads' := guarded' name args engine verb split known
                have runs : ∀ (T : Store) (C : Allocator) (fuel : Nat),
                    ((liftM (Except.ok (name :: args) : Except Fault (List CStr)) :
                      CM (List CStr)) >>= kvsFilterProtocol fuel T) C =
                      runCommand fuel T args[0]? args[1]? engine verb C := by
                  intro T C fuel
                  apply (lift_bind_ok rfl).trans
                  rw [kvsFilterProtocol, known]
                have same : Same A A'
                    (fun fuel => runCommand fuel S args[0]? args[1]? engine verb)
                    (fun fuel => runCommand fuel S' args[0]? args[1]? engine verb) := by
                  cases engine with
                  | array => exact agree.array_command args[0]? args[1]? verb
                  | rbtree => exact agree.rbtree_command args[0]? args[1]? verb reads reads'
                  | hash => exact agree.hash_command args[0]? args[1]? verb reads reads'
                exact same.congr (runs S A) (runs S' A')

theorem hashLookup_empty {chains : Chains}
    (empty : ∀ s items, chains s = some items → items = []) (key : CStr) :
    hashLookup chains key = none := by
  have noItems : ∀ s, (chains s).getD [] = [] := by
    intro s
    cases chain : chains s with
    | none => rfl
    | some items => exact empty s items chain
  unfold hashLookup
  split
  · rw [noItems]
    rfl
  · rfl

theorem hashView_empty {chains : Chains}
    (empty : ∀ s items, chains s = some items → items = []) (key : CStr) :
    hashView chains key = none :=
  hashView_eq_none.mpr (hashLookup_empty empty key)

/-- Three engines that agree whatever the memory held. -/
theorem initKvengine_agree (granted : A.AllSucceed) (granted' : A'.AllSucceed) :
    ∃ S B S' B', initKvengine A = .ok (S, B) ∧ initKvengine A' = .ok (S', B') ∧
      Agree S B S' B' := by
  obtain ⟨S, B, chains, made, grantedB, rep, tree, table, empty⟩ := initKvengine_run granted
  obtain ⟨S', B', chains', made', grantedB', rep', tree', table', empty'⟩ :=
    initKvengine_run granted'
  refine ⟨S, B, S', B', made, made', grantedB, grantedB', ⟨[], rep, rep'⟩,
    ⟨.leaf, .leaf, tree, tree', rfl⟩, ⟨chains, chains', table, table', ?_, ?_⟩⟩
  · funext key
    rw [hashView_empty empty, hashView_empty empty']
  · rw [table.count, table'.count, total_empty empty, total_empty empty']

theorem Agree.replies (msgs : List (List UInt8)) (agree : Agree S A S' A')
    (guarded : GuardedRun S A msgs) (guarded' : GuardedRun S' A' msgs) :
    ∃ bound, ∀ fuel, bound ≤ fuel → replies fuel S A msgs = replies fuel S' A' msgs := by
  induction msgs generalizing S A S' A' with
  | nil => exact ⟨0, fun _ _ => rfl⟩
  | cons msg rest ih =>
      obtain ⟨bound, ⟨reply, T, B, T', B', after, ran⟩ | ⟨fault, ran⟩⟩ :=
        agree.message guarded.1 guarded'.1
      · have first := (ran bound (Nat.le_refl _)).1
        have second := (ran bound (Nat.le_refl _)).2
        obtain ⟨more, same⟩ := ih after (guarded.2 bound reply T B first)
          (guarded'.2 bound reply T' B' second)
        refine ⟨max bound more, ?_⟩
        intro fuel enough
        obtain ⟨ran, ran'⟩ := ran fuel (by omega)
        simp only [Kvstore.replies, ran, ran']
        rw [same fuel (by omega)]
      · refine ⟨bound, ?_⟩
        intro fuel enough
        obtain ⟨ran, ran'⟩ := ran fuel enough
        simp only [Kvstore.replies, ran, ran']

end Sessions

section Fresh

variable {A A' : Allocator}

/-- In three new engines every key is absent, if the word of its bucket is zero. -/
theorem initKvengine_absent (granted : A.AllSucceed) :
    ∃ S B, initKvengine A = .ok (S, B) ∧ ∀ key,
      kvsArrayGet S.array (some key) = .ok .null ∧
      (∀ fuel, 0 < fuel → kvsRbtreeGet fuel S.rbtree (some key) = .ok .null) ∧
      ∀ s, HashSlot key s →
        (kvsHashGet S.hash (some key) = .ok .null ↔ BucketWritten S.hash key) := by
  obtain ⟨S, B, chains, made, -, rep, tree, table, empty⟩ := initKvengine_run granted
  refine ⟨S, B, made, fun key => ⟨?_, ?_, ?_⟩⟩
  · obtain ⟨p, got, held⟩ := kvsArrayGet_spec rep key
    rw [got, show p = .null from held]
  · intro fuel positive
    exact kvsRbtreeGet_holds tree.holds tree.sorted positive
  · intro s slot
    constructor
    · intro got s' slot'
      obtain ⟨words, isTable, holds⟩ := table.table
      have held := holds s' slot'.lt
      cases chain : chains s' with
      | some items =>
          rw [chain] at held
          exact ⟨words, _, isTable, held⟩
      | none =>
          rw [table.get_wild slot' chain] at got
          cases got
    · intro written
      obtain ⟨items, chain⟩ := written.chain table slot
      rw [kvsHashGet_slot table slot chain, hashAnswer, hashLookup_empty empty]

/-- Two runs of the same messages whose calls read only memory that was written
give the same replies; and new engines are empty. -/
theorem replies_agree (granted : A.AllSucceed) (granted' : A'.AllSucceed)
    (msgs : List (List UInt8)) (guarded : GuardedSession A msgs)
    (guarded' : GuardedSession A' msgs) :
    (∃ bound, ∀ fuel, bound ≤ fuel → session fuel A msgs = session fuel A' msgs) ∧
    ∃ S B, initKvengine A = .ok (S, B) ∧ ∀ key,
      kvsArrayGet S.array (some key) = .ok .null ∧
      (∀ fuel, 0 < fuel → kvsRbtreeGet fuel S.rbtree (some key) = .ok .null) ∧
      ∀ s, HashSlot key s →
        (kvsHashGet S.hash (some key) = .ok .null ↔ BucketWritten S.hash key) := by
  refine ⟨?_, initKvengine_absent granted⟩
  obtain ⟨S, B, S', B', made, made', agree⟩ := initKvengine_agree granted granted'
  obtain ⟨bound, same⟩ := agree.replies msgs (guarded S B made) (guarded' S' B' made')
  refine ⟨bound, ?_⟩
  intro fuel enough
  simp only [session, made, made']
  exact same fuel enough

theorem Guarded.of_split {S : Store} {msg : List UInt8} {name : CStr} {args : List CStr}
    {engine : Engine} {verb : Verb} (split : kvsSplitToken (msg ++ [0]) = .ok (name :: args))
    (known : findCommand name = some (engine, verb))
    (reads : ReadsWritten S args[0]? args[1]? engine verb) : Guarded S msg := by
  intro name' args' engine' verb' split' known'
  rw [split] at split'
  cases split'
  rw [known] at known'
  cases known'
  exact reads

/-- `HGET a` and `RSET a 1` on a new server whose bucket array happens to be
zero, over cleared memory and over memory that is not zero elsewhere. -/
theorem replies_agree_zero_buckets :
    let A : Allocator := ⟨fun _ => true, fun call _ => if call = 2 then 0 else 1, 0, []⟩
    let msgs := [ascii ['H', 'G', 'E', 'T', ' ', 'a'],
      ascii ['R', 'S', 'E', 'T', ' ', 'a', ' ', '1']]
    ∃ bound, ∀ fuel, bound ≤ fuel → session fuel A msgs = session fuel .cleared msgs := by
  intro A msgs
  have guarded : ∀ (S : Store) (B : Allocator) (table : Nat → Bucket), S.hash.nodes = some table →
      (∀ s, table s = .chain []) → GuardedRun S B msgs := by
    intro S B table isTable empty
    refine ⟨Guarded.of_split (by rfl) (by rfl) ?_, fun fuel reply T D _ =>
      ⟨Guarded.of_split (by rfl) (by rfl) ?_, fun _ _ _ _ _ => trivial⟩⟩
    · intro key isKey _ s slot
      exact ⟨table, [], isTable, empty s⟩
    · intro key t isDel
      cases isDel
  refine (replies_agree (fun _ => rfl) Allocator.cleared_allSucceed msgs ?_ ?_).1
  · intro S B made
    cases made
    exact guarded _ _ _ rfl fun _ => rfl
  · intro S B made
    cases made
    exact guarded _ _ _ rfl fun _ => rfl

/-- `HGET a` on a new server follows whatever word the allocator left in the
bucket. -/
theorem replies_depend_on_garbage :
    Allocator.plentiful.AllSucceed ∧ Allocator.cleared.AllSucceed ∧ ∀ fuel,
      session fuel .plentiful [ascii ['H', 'G', 'E', 'T', ' ', 'a']] = [.error .wildDeref] ∧
      session fuel .cleared [ascii ['H', 'G', 'E', 'T', ' ', 'a']] =
        [.ok (sprintf noExistText)] := by
  refine ⟨Allocator.plentiful_allSucceed, Allocator.cleared_allSucceed, ?_⟩
  intro fuel
  exact ⟨rfl, rfl⟩

end Fresh

end LinuxCpp.Kvstore
