import LinuxCpp.Kvstore.FreshMemory

set_option autoImplicit false

/- Requests without a key, or without the value that SET and MOD need. Every engine tests
its arguments first, but for `kvs_hash_mod`, which looks at the value only when it has
found the key. -/
namespace LinuxCpp.Kvstore

open C

/-- The arguments behind the name do not reach. -/
def Lacks (verb : Verb) (args : List CStr) : Prop :=
  args = [] ∨ (∃ key, args = [key]) ∧ (verb = .set ∨ verb = .mod)

/-- The request is answered with a text and its length, and nothing else happens. -/
def Harmless (fuel : Nat) (S : Store) (tokens : List CStr) (A : Allocator) : Prop :=
  ∃ text, text ≠ [] ∧ kvsFilterProtocol fuel S tokens A = .ok ((⟨text.length, some text⟩, S), A)

/-- The search of the hash engine goes through the chain of the key and does not find it. -/
def HashTable.Misses (h : HashTable) (key : CStr) : Prop :=
  ∃ idx bucket nodes, hash (some key) maxTableSize = .ok idx ∧ h.load idx = .ok bucket ∧
    bucket.walk = .ok nodes ∧ findNode key nodes = .ok none

section Commands

variable {fuel : Nat} {S : Store} {A : Allocator} {key : CStr} {engine : Engine} {verb : Verb}

/-- `kvs_hash_mod` without a value returns only where it does not find the key. -/
theorem kvsHashMod_valueless_iff {h : HashTable} {ret : Int} {h' : HashTable} {B : Allocator} :
    kvsHashMod h (some key) none A = .ok ((ret, h'), B) ↔
      h.Misses key ∧ ret = 1 ∧ h' = h ∧ B = A := by
  constructor
  · intro ran
    obtain ⟨idx, C, step₁, ran₁⟩ := run_of_bind ran
    obtain ⟨placed, rfl⟩ := run_of_lift step₁
    obtain ⟨bucket, C, step₂, ran₂⟩ := run_of_bind ran₁
    obtain ⟨loaded, rfl⟩ := run_of_lift step₂
    obtain ⟨nodes, C, step₃, ran₃⟩ := run_of_bind ran₂
    obtain ⟨walked, rfl⟩ := run_of_lift step₃
    obtain ⟨found, C, step₄, ran₄⟩ := run_of_bind ran₃
    obtain ⟨searched, rfl⟩ := run_of_lift step₄
    cases found with
    | none =>
        cases ran₄
        exact ⟨⟨idx, bucket, nodes, placed, loaded, walked, searched⟩, rfl, rfl, rfl⟩
    | some i =>
        obtain ⟨done, C, -, rest⟩ := run_of_bind ran₄
        cases rest
  · rintro ⟨⟨idx, bucket, nodes, placed, loaded, walked, searched⟩, rfl, rfl, rfl⟩
    simp only [kvsHashMod]
    rw [lift_bind_ok placed, lift_bind_ok loaded, lift_bind_ok walked, lift_bind_ok searched]
    rfl

end Commands

/-- A request that lacks an argument is harmless, unless it is `HMOD` with a key that the
table has. -/
theorem missing_args_harmless_iff {fuel : Nat} {S : Store} {A : Allocator} {name : CStr}
    {args : List CStr} {engine : Engine} {verb : Verb}
    (named : findCommand name = some (engine, verb)) (lacks : Lacks verb args) :
    Harmless fuel S (name :: args) A ↔
      (engine = .hash → verb = .mod → ∀ key, args = [key] → S.hash.Misses key) := by
  have runs : kvsFilterProtocol fuel S (name :: args) =
      runCommand fuel S args[0]? args[1]? engine verb := by
    rw [kvsFilterProtocol, named]
  have answered (refused : Refused args[0]? args[1]? engine verb) :
      Harmless fuel S (name :: args) A := by
    obtain ⟨text, some_, ran⟩ := refused
    refine ⟨text, some_, ?_⟩
    rw [runs]
    exact ran fuel S A
  rcases lacks with rfl | ⟨⟨key, rfl⟩, rfl | rfl⟩
  · refine iff_of_true (answered (refused_keyless none engine verb)) ?_
    rintro - - key ⟨⟩
  · refine iff_of_true (answered (refused_set_valueless key engine)) ?_
    rintro - ⟨⟩
  · by_cases other : engine = .hash
    · subst other
      constructor
      · rintro ⟨text, -, ran⟩ - - _ ⟨⟩
        rw [runs] at ran
        obtain ⟨⟨ret, T⟩, B, modified, -⟩ := run_of_bind ran
        obtain ⟨⟨ret', h⟩, C, modified, -⟩ := run_of_bind modified
        exact (kvsHashMod_valueless_iff.mp modified).1
      · intro missing
        have modified := kvsHashMod_valueless_iff (A := A).mpr
          ⟨missing rfl rfl key rfl, rfl, rfl, rfl⟩
        refine ⟨noExistText, by decide, ?_⟩
        rw [runs]
        have called : kvsMod fuel S (some key) none .hash A = _ := bind_ok modified
        exact bind_ok called
    · refine iff_of_true (answered (refused_mod_valueless key other)) ?_
      exact fun hash => absurd hash other

/-- In the states of a run: the chain of the key was written and does not hold the key. -/
theorem HashInv.misses_iff {h : HashTable} {chains : Chains} {key : CStr}
    (inv : HashInv h chains) :
    h.Misses key ↔ (∃ s items, HashSlot key s ∧ chains s = some items) ∧
      hashView chains key = none := by
  constructor
  · rintro ⟨idx, bucket, nodes, placed, loaded, walked, searched⟩
    have got : kvsHashGet h (some key) = .ok .null := by
      simp only [kvsHashGet, placed, loaded, walked, searched, ok_bind]
      rfl
    obtain ⟨s, items, slot, chain, -⟩ := inv.get_ok got
    refine ⟨⟨s, items, slot, chain⟩, hashView_eq_none.mpr ?_⟩
    have isSlot : hash (some key) maxTableSize = .ok (s : Int) := slot
    cases placed.symm.trans isSlot
    cases loaded.symm.trans (inv.load slot chain)
    cases walked
    rcases chain_cases key items with absent | ⟨pre, x, post, rfl, here, before⟩
    · exact hashLookup_absent slot chain absent
    · cases searched.symm.trans (findNode_present here before)
  · rintro ⟨⟨s, items, slot, chain⟩, absent⟩
    refine ⟨s, _, _, slot, inv.load slot chain, rfl, findNode_absent ?_⟩
    rcases chain_cases key items with missing | ⟨pre, x, post, rfl, here, before⟩
    · exact missing
    · have found := hashLookup_present slot chain here before
      rw [hashView_eq_none.mp absent] at found
      cases found

/-- `HMOD a` in new engines over cleared memory. -/
theorem missing_args_harmless_fresh :
    ∃ S B, initKvengine .cleared = .ok (S, B) ∧
      (Harmless 0 S [⟨ascii ['H', 'M', 'O', 'D'], by decide⟩, ⟨[97], by decide⟩] B ↔
        (Engine.hash = .hash → Verb.mod = .mod → ∀ key,
          [(⟨[97], by decide⟩ : CStr)] = [key] → S.hash.Misses key)) :=
  ⟨_, _, rfl, missing_args_harmless_iff rfl (.inr ⟨⟨_, rfl⟩, .inr rfl⟩)⟩

/-- `HSET a 1`, and then `HMOD a`. -/
theorem hmod_valueless_faults :
    ∃ S B reply T C, initKvengine .cleared = .ok (S, B) ∧
      kvsFilterProtocol 0 S [⟨ascii ['H', 'S', 'E', 'T'], by decide⟩, ⟨[97], by decide⟩,
        ⟨[49], by decide⟩] B = .ok ((reply, T), C) ∧
      ¬ Harmless 0 T [⟨ascii ['H', 'M', 'O', 'D'], by decide⟩, ⟨[97], by decide⟩] C := by
  refine ⟨_, _, _, _, _, rfl, rfl, ?_⟩
  rintro ⟨text, -, ran⟩
  cases ran

end LinuxCpp.Kvstore
