import LinuxCpp.Kvstore.Interchange
import Mathlib.Order.Interval.Finset.Nat

set_option autoImplicit false

/- The three engines behind one process, each as a finite map of its own. A
request to one of them leaves the other two as they are. -/
namespace LinuxCpp.Kvstore

open C RedBlack

section Bound

variable {T : Rbtree} {A : Allocator} {t : RbTree}

/-- Every node of the tree lies in a block of its own. -/
theorem RbInv.size_le (inv : RbInv T A t) : t.size ≤ A.calls := by
  have distinct := inv.holds.distinct
  rw [addrs_eq_coe, Multiset.coe_nodup] at distinct
  have inside : (t.toList.map RbItem.addr).toFinset ⊆ Finset.Icc 1 A.calls := by
    intro a member
    rw [List.mem_toFinset] at member
    have here : a ∈ addrs t := by
      rwa [addrs_eq_coe, Multiset.mem_coe]
    have positive : a ≠ 0 := by
      rintro rfl
      exact inv.holds.zero_not_mem here
    have below : a ≤ A.calls := by
      by_contra above
      exact inv.holds.mapped here (inv.fresh a (by omega))
    exact Finset.mem_Icc.mpr ⟨by omega, below⟩
  have few := Finset.card_le_card inside
  rw [List.toFinset_card_of_nodup distinct, List.length_map, ← size_eq_length,
    Nat.card_Icc] at few
  omega

end Bound

/-- What the engines hold. -/
abbrev Views := Engine → View

/-- A request changes the map of its own engine. -/
def Views.after (maps : Views) (engine : Engine) (r : Request) : Views :=
  Function.update maps engine (r.update (maps engine))

/-- What an engine says to the deletion of a key it does not hold. -/
def Engine.missing : Engine → List UInt8
  | .array => noExistText
  | .rbtree => noExistText
  | .hash => errorText

/-- The newest key, which stands in the last scanned cell. -/
def NewestKey (inst : KvsArray) (key : CStr) : Prop :=
  0 < inst.total ∧ ∃ cell, inst.item (inst.total - 1) = .ok cell ∧ cell.key.str? = some key

/-- No scanned cell holds the key, and there is one. -/
def MissedKey (inst : KvsArray) (key : CStr) : Prop :=
  0 < inst.total ∧ ∀ i cell, i < inst.total → inst.item i = .ok cell → cell.key.str? ≠ some key

/-- The request stays where each engine is a map: the array has room, and loses
no key but its newest; the tree loses no black leaf below another node; the hash
bucket lies in the table and was written before. -/
def Orderly (S : Store) (r : Request) : Engine → Prop
  | .array => (∀ key, r = .del key → NewestKey S.array key ∨ MissedKey S.array key) ∧
      ∀ key value, r = .set key value → S.array.total < kvsArraySize
  | .rbtree => ∀ t, Holds S.rbtree t → r.SparesBlackLeaf t
  | .hash => HasBucket S.hash r.key ∧ ∀ key value, r = .set key value → S.hash.count + 1 < 2 ^ 31

/-- Each engine holds its map. -/
structure Mapped (S : Store) (A : Allocator) (maps : Views) : Prop where
  granted : A.AllSucceed
  array : ∃ entries, Dense S.array entries ∧ entries.view = maps .array
  rbtree : ∃ t, RbInv S.rbtree A t ∧ rbView t = maps .rbtree
  hash : ∃ chains, HashInv S.hash chains ∧ hashView chains = maps .hash

section Array

variable {inst : KvsArray} {entries : Entries} {key : CStr}

theorem Dense.newest (dense : Dense inst entries) (newest : NewestKey inst key) :
    ∃ front value, entries = front ++ [(key, value)] := by
  obtain ⟨some_, cell, loaded, isKey⟩ := newest
  rw [dense.total] at some_ loaded
  have inside : entries.length - 1 < entries.length := by omega
  obtain ⟨cell', loaded', isEntry⟩ := dense.item (List.getElem?_eq_getElem inside)
  rw [loaded] at loaded'
  cases loaded'
  rw [isKey, Option.some.injEq] at isEntry
  have nonempty : entries ≠ [] := List.ne_nil_of_length_pos some_
  refine ⟨entries.dropLast, (entries.getLast nonempty).2, ?_⟩
  rw [isEntry, ← List.getLast_eq_getElem nonempty]
  exact (List.dropLast_append_getLast nonempty).symm

theorem Dense.missed (dense : Dense inst entries) (missed : MissedKey inst key) :
    entries.view key = none := by
  refine entries.slotsGet_eq_none key fun member => ?_
  obtain ⟨i, inside, here⟩ := List.mem_iff_getElem.mp member
  rw [List.length_map] at inside
  rw [List.getElem_map] at here
  obtain ⟨cell, loaded, isEntry⟩ := dense.item (List.getElem?_eq_getElem inside)
  rw [here] at isEntry
  exact missed.2 i cell (by rw [dense.total]; exact inside) loaded isEntry

/-- A request that the array serves as a map. -/
theorem array_map {S : Store} {A : Allocator} (dense : Dense S.array entries)
    (granted : A.AllSucceed) {r : Request} (orderly : Orderly S r .array) :
    ∃ inst' B entries', Answers S A .array r (r.answer noExistText entries.view)
        { S with array := inst' } B ∧ Dense inst' entries' ∧
      entries'.view = r.update entries.view ∧ A.Later B := by
  have clear : r.ScanClear entries.slots := fun key _ => by
    rw [Entries.scanned_slots]
    exact entries.noHoleBefore_slots key
  have room : ∀ key value, r = .set key value → S.array.total ≠ kvsArraySize :=
    fun key value isSet => Nat.ne_of_lt (orderly.2 key value isSet)
  obtain ⟨inst', B, answers, rep, later⟩ := array_step dense.rep granted r clear room
  rw [scannedView_slots] at answers
  by_cases missed : ∃ key, r = .del key ∧ MissedKey S.array key
  · obtain ⟨key, rfl, missed⟩ := missed
    have absent := dense.missed missed
    have text : arrayMissing S.array = noExistText := if_neg (Nat.ne_of_gt missed.1)
    rw [text] at answers
    rw [slotsStep, Entries.scanned_slots, slotsIndex_eq_none_iff.mpr absent] at rep
    exact ⟨inst', B, entries, answers, ⟨rep, dense.distinct⟩,
      (Request.update_del_absent absent).symm, later⟩
  · have newest : entries.Newest r := by
      rintro key rfl
      rcases orderly.1 key rfl with newest | absent
      · exact dense.newest newest
      · exact absurd ⟨key, rfl, absent⟩ missed
    rw [Request.answer_newest newest] at answers
    exact ⟨inst', B, entries.after r, answers, dense.after rep newest, entries.view_after r, later⟩

end Array

section Step

variable {S : Store} {A : Allocator} {maps : Views} {engine : Engine} {r : Request}

/-- The array and the hash table loop over what they have. -/
theorem exec_bounded (notTree : engine ≠ .rbtree) (fuel more : Nat) :
    r.exec fuel S engine = r.exec more S engine := by
  cases engine with
  | rbtree => exact absurd rfl notTree
  | array => cases r <;> rfl
  | hash => cases r <;> rfl

theorem Answers.run {text : List UInt8} {S' : Store} {B : Allocator}
    (answers : Answers S A engine r text S' B) (notTree : engine ≠ .rbtree) (fuel : Nat) :
    r.exec fuel S engine A = .ok ((sprintf text, S'), B) := by
  obtain ⟨bound, answers⟩ := answers
  rw [exec_bounded notTree fuel bound]
  exact answers bound (Nat.le_refl _)

/-- An orderly request gets the answer of the map of its engine. -/
theorem Mapped.step (mapped : Mapped S A maps) (orderly : Orderly S r engine) {fuel : Nat}
    (enough : A.calls + 2 ≤ fuel) :
    ∃ S' B, r.exec fuel S engine A =
        .ok ((sprintf (r.answer engine.missing (maps engine)), S'), B) ∧
      Mapped S' B (maps.after engine r) := by
  obtain ⟨granted, array, rbtree, hash⟩ := mapped
  cases engine with
  | array =>
      obtain ⟨entries, dense, view⟩ := array
      obtain ⟨t, tree, treeView⟩ := rbtree
      obtain ⟨inst', B, entries', answers, dense', view', later⟩ := array_map dense granted orderly
      rw [view] at answers view'
      refine ⟨_, B, answers.run (by decide) fuel, later.allSucceed granted, ?_, ?_, ?_⟩
      · exact ⟨entries', dense', by simpa [Views.after] using view'⟩
      · exact ⟨t, tree.later later, by simpa [Views.after] using treeView⟩
      · simpa [Views.after] using hash
  | rbtree =>
      obtain ⟨t, tree, view⟩ := rbtree
      have size := tree.size_le
      obtain ⟨T', B, t', ran, tree', view', later⟩ := rbtree_run tree granted r
        (orderly t tree.holds) (show t.size + 2 ≤ fuel by omega)
      rw [view] at ran view'
      refine ⟨_, B, ran, later.allSucceed granted, ?_, ?_, ?_⟩
      · simpa [Views.after] using array
      · exact ⟨t', tree', by simpa [Views.after] using view'⟩
      · simpa [Views.after] using hash
  | hash =>
      obtain ⟨chains, table, view⟩ := hash
      obtain ⟨t, tree, treeView⟩ := rbtree
      obtain ⟨s, items, slot, chain⟩ := orderly.1.chain table
      obtain ⟨h', B, chains', answers, table', view', later, -⟩ := hash_step table granted r slot
        chain orderly.2
      rw [view] at answers view'
      refine ⟨_, B, answers.run (by decide) fuel, later.allSucceed granted, ?_, ?_, ?_⟩
      · simpa [Views.after] using array
      · exact ⟨t, tree.later later, by simpa [Views.after] using treeView⟩
      · exact ⟨chains', table', by simpa [Views.after] using view'⟩

/-- Fresh engines hold nothing. -/
theorem initKvengine_mapped (granted : A.AllSucceed) :
    ∃ S B, initKvengine A = .ok (S, B) ∧ Mapped S B fun _ _ => none := by
  have fresh := fun engine =>
    @mirrors_fresh A granted engine (fun _ => False) (fun _ never => never.elim)
  obtain ⟨S, B, created, granted', array⟩ := fresh .array
  obtain ⟨_, _, again, -, rbtree⟩ := fresh .rbtree
  obtain ⟨_, _, also, -, hash⟩ := fresh .hash
  rw [created] at again also
  cases again
  cases also
  obtain ⟨chains, table, view, -⟩ := hash
  exact ⟨S, B, created, granted', ⟨[], array, rfl⟩, rbtree, chains, table, view⟩

end Step

end LinuxCpp.Kvstore
