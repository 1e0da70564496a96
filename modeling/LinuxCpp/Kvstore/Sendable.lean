import LinuxCpp.Kvstore.EngineSteps
import LinuxCpp.Kvstore.ReplyBound

set_option autoImplicit false

/- When a message gets a reply that `send_cb` can hand to `send`. -/
namespace LinuxCpp.Kvstore

open C RedBlack

section Safe

/-- The delete scan meets the key before any hole. -/
def NoHoleAhead (inst : KvsArray) (key : CStr) : Prop :=
  ∀ i cell, i < inst.total → inst.item i = .ok cell → cell.key = .null →
    ∃ j cell', j < i ∧ inst.item j = .ok cell' ∧ cell'.key.str? = some key

/-- The bucket of the key lies in the table and was written before. -/
def HasBucket (h : HashTable) (key : CStr) : Prop :=
  ∃ s table nodes, HashSlot key s ∧ h.nodes = some table ∧ table s = .chain nodes

/-- The request stays out of the code that can fault: the delete scan of the
array at a hole, the repair below a black leaf, and the hash buckets that a
negative or unset index reaches. -/
def Safe (S : Store) (r : Request) : Engine → Prop
  | .array => ∀ key, r = .del key → NoHoleAhead S.array key
  | .rbtree => ∀ t, Holds S.rbtree t → r.SparesBlackLeaf t
  | .hash => HasBucket S.hash r.key ∧ ∀ key value, r = .set key value → S.hash.count + 1 < 2 ^ 31

/-- The message names a command, with its arguments, that is safe here. -/
def Serviceable (S : Store) (msg : List UInt8) : Prop :=
  Message msg ∧ ∃ engine r, asked msg = some (engine, r) ∧ Safe S r engine

theorem noHoleBefore_of {key : CStr} {slots : List Slot}
    (ahead : ∀ i : Nat, slots[i]? = some none →
      ∃ j value, j < i ∧ slots[j]? = some (some (key, value))) :
    NoHoleBefore key slots := by
  induction slots with
  | nil => trivial
  | cons slot rest ih =>
      cases slot with
      | none =>
          obtain ⟨j, value, below, -⟩ := ahead 0 rfl
          omega
      | some entry =>
          by_cases same : entry.1 = key
          · exact Or.inl same
          · refine Or.inr (ih fun i hole => ?_)
            obtain ⟨j, value, below, here⟩ := ahead (i + 1) hole
            cases j with
            | zero =>
                cases here
                exact absurd rfl same
            | succ j => exact ⟨j, value, by omega, here⟩

theorem NoHoleAhead.scan {inst : KvsArray} {slots : List Slot} {key : CStr}
    (ahead : NoHoleAhead inst key) (rep : Represents inst slots) :
    NoHoleBefore key (scanned slots) := by
  refine noHoleBefore_of fun i hole => ?_
  have seen : ∀ j, j < inst.total → (scanned slots)[j]? = slots[j]? := fun j below => by
    rw [scanned, List.getElem?_take_of_lt (by rwa [← rep.total])]
  have below : i < inst.total := by
    have inside := (List.getElem?_eq_some_iff.mp hole).1
    rw [scanned, List.length_take, ← rep.total] at inside
    omega
  rw [seen i below] at hole
  obtain ⟨cell, loaded, isNull, -⟩ := rep.item hole
  obtain ⟨j, cell', before, loaded', isKey⟩ := ahead i cell below loaded isNull
  have inside : j < slots.length := by
    have := rep.total_le
    omega
  obtain ⟨other, same, held, -⟩ := rep.item (List.getElem?_eq_getElem inside)
  rw [loaded'] at same
  cases same
  rw [held.str?, Option.map_eq_some_iff] at isKey
  obtain ⟨entry, isEntry, rfl⟩ := isKey
  refine ⟨j, entry.2, before, ?_⟩
  rw [seen j (by omega), List.getElem?_eq_getElem inside, isEntry]

theorem HasBucket.chain {h : HashTable} {chains : Chains} {key : CStr} (inv : HashInv h chains)
    (bucket : HasBucket h key) : ∃ s items, HashSlot key s ∧ chains s = some items := by
  obtain ⟨s, table, nodes, slot, isTable, isChain⟩ := bucket
  obtain ⟨table', isTable', holds⟩ := inv.table
  rw [isTable] at isTable'
  cases isTable'
  have held := holds s slot.lt
  cases found : chains s with
  | some items => exact ⟨s, items, slot, found⟩
  | none =>
      rw [found] at held
      obtain ⟨word, isWild⟩ := held
      rw [isChain] at isWild
      cases isWild

end Safe

/-- What holds between the calls of a run. -/
structure StoreInv (S : Store) (A : Allocator) : Prop where
  granted : A.AllSucceed
  array : ∃ slots, Represents S.array slots
  rbtree : ∃ t, RbInv S.rbtree A t
  hash : ∃ chains, HashInv S.hash chains

section Run

variable {S : Store} {A : Allocator}

theorem Request.answer_ne_nil {missing : List UInt8} (nonempty : missing ≠ []) (m : View)
    (r : Request) : r.answer missing m ≠ [] := by
  cases r <;> simp only [Request.answer] <;> split
  all_goals first | exact nonempty | decide | simp [ascii]

/-- A safe request is answered, and keeps the engines in order. -/
theorem StoreInv.step (inv : StoreInv S A) {engine : Engine} {r : Request}
    (safe : Safe S r engine) :
    ∃ text S' B, Answers S A engine r text S' B ∧ text ≠ [] ∧ StoreInv S' B := by
  obtain ⟨slots, rep⟩ := inv.array
  obtain ⟨t, tree⟩ := inv.rbtree
  obtain ⟨chains, table⟩ := inv.hash
  cases engine with
  | rbtree =>
      obtain ⟨T', B, t', answers, tree', -, later⟩ := rbtree_step tree inv.granted r
        (safe t tree.holds)
      exact ⟨_, _, B, answers, Request.answer_ne_nil (by decide) _ r,
        ⟨later.allSucceed inv.granted, ⟨slots, rep⟩, ⟨t', tree'⟩, ⟨chains, table⟩⟩⟩
  | hash =>
      obtain ⟨s, items, slot, chain⟩ := safe.1.chain table
      obtain ⟨h', B, chains', answers, table', -, later, -⟩ := hash_step table inv.granted r slot
        chain safe.2
      exact ⟨_, _, B, answers, Request.answer_ne_nil (by decide) _ r,
        ⟨later.allSucceed inv.granted, ⟨slots, rep⟩, ⟨t, tree.later later⟩, ⟨chains', table'⟩⟩⟩
  | array =>
      by_cases refused : (∃ key value, r = .set key value) ∧ S.array.total = kvsArraySize
      · obtain ⟨⟨key, value, rfl⟩, full⟩ := refused
        exact ⟨_, S, A, array_full full key value, by decide, inv⟩
      · have clear : r.ScanClear slots := fun key isDel => (safe key isDel).scan rep
        obtain ⟨inst', B, answers, rep', later⟩ := array_step rep inv.granted r clear
          fun key value isSet full => refused ⟨⟨key, value, isSet⟩, full⟩
        have missing : arrayMissing S.array ≠ [] := by
          unfold arrayMissing
          split <;> decide
        exact ⟨_, _, B, answers, Request.answer_ne_nil missing _ r,
          ⟨later.allSucceed inv.granted, ⟨_, rep'⟩, ⟨t, tree.later later⟩, ⟨chains, table⟩⟩⟩

theorem kvsHashCreate_inv (granted : A.AllSucceed) :
    ∃ h chains, kvsHashCreate A = .ok ((0, h), A.next) ∧ HashInv h chains ∧
      ∀ s items, chains s = some items → items = [] :=
  ⟨newTable _, newChains _, kvsHashCreate_run granted, newTable_inv _, newChains_empty⟩

theorem initKvengine_run (granted : A.AllSucceed) :
    ∃ S B chains, initKvengine A = .ok (S, B) ∧ B.AllSucceed ∧ Represents S.array [] ∧
      RbInv S.rbtree B .leaf ∧ HashInv S.hash chains ∧
      ∀ s items, chains s = some items → items = [] := by
  obtain ⟨array, made₁, rep⟩ := kvsArrayCreate_run granted
  have granted₁ := (Allocator.Later.next A).allSucceed granted
  obtain ⟨T, B, made₂, tree, later⟩ := kvsRbtreeCreate_inv granted₁
  have granted₂ := later.allSucceed granted₁
  obtain ⟨h, chains, made₃, table, empty⟩ := kvsHashCreate_inv granted₂
  have next := Allocator.Later.next B
  refine ⟨⟨array, T, h⟩, B.next, chains, ?_, next.allSucceed granted₂, rep, tree.later next, table,
    empty⟩
  rw [initKvengine, bind_ok made₁]
  simp only
  rw [bind_ok made₂]
  simp only
  rw [bind_ok made₃]
  rfl

/-- Whatever bound a call returned under, it left the engines in order. -/
theorem reachable_inv (reachable : Reachable Serviceable S A) : StoreInv S A := by
  induction reachable with
  | start granted created =>
      obtain ⟨S, B, chains, created', granted', rep, tree, table, -⟩ := initKvengine_run granted
      rw [created] at created'
      cases created'
      exact ⟨granted', ⟨_, rep⟩, ⟨_, tree⟩, ⟨_, table⟩⟩
  | @step A B S S' msg fuel reply _ served returned inv =>
      obtain ⟨message, engine, r, named, safe⟩ := served
      obtain ⟨text, S'', B', ⟨bound, answers⟩, -, inv'⟩ := inv.step safe
      have larger := ((kvsProtocol_extends _ _ (Nat.le_max_left fuel bound)).run A).of_ok _ returned
      have answered := answers (max fuel bound) (Nat.le_max_right fuel bound)
      rw [← request_asked message.received message.few named, request, larger] at answered
      cases answered
      exact inv'

/-- In every run of serviceable messages, every call returns and its value is a
length that `send` accepts. -/
theorem reply_sendable {msg : List UInt8} (reachable : Reachable Serviceable S A)
    (served : Serviceable S msg) :
    ∃ bound, ∀ fuel, bound ≤ fuel → ∃ reply S' B, request fuel S msg A = .ok ((reply, S'), B) ∧
      1 ≤ reply.ret ∧ reply.ret ≤ bufferLength := by
  obtain ⟨message, engine, r, named, safe⟩ := served
  obtain ⟨text, S', B, ⟨bound, answers⟩, nonempty, -⟩ := (reachable_inv reachable).step safe
  refine ⟨bound, fun fuel enough => ?_⟩
  have returned := answers fuel enough
  rw [← request_asked message.received message.few named] at returned
  have short := reachable_short (fun _ _ served => served.1) reachable
  have fits := ((request_bound message fuel short).of_ok returned).2 text rfl
  have positive := List.length_pos_of_ne_nil nonempty
  refine ⟨_, S', B, returned, ?_, ?_⟩
  · change (1 : Int) ≤ text.length
    omega
  · change (text.length : Int) ≤ bufferLength
    omega

end Run

/-- `DEL a` after `SET a 1`. -/
theorem reply_sendable_del : ∃ S A, Reachable Serviceable S A ∧ ∃ bound, ∀ fuel, bound ≤ fuel →
    ∃ reply S' B, request fuel S (ascii ['D', 'E', 'L', ' ', 'a']) A = .ok ((reply, S'), B) ∧
      1 ≤ reply.ret ∧ reply.ret ≤ bufferLength := by
  have start : Reachable Serviceable _ _ := .start Allocator.plentiful_allSucceed rfl
  have set : ∀ S, Serviceable S (ascii ['S', 'E', 'T', ' ', 'a', ' ', '1']) := fun S =>
    ⟨by decide, .array, .set ⟨[97], by decide⟩ ⟨[49], by decide⟩, by rfl, fun _ isDel => by
      cases isDel⟩
  have stored := start.step (set _) (show request 0 _ _ _ = _ from rfl)
  refine ⟨_, _, stored, reply_sendable stored
    ⟨by decide, .array, .del ⟨[97], by decide⟩, by rfl, ?_⟩⟩
  intro key isDel i cell below loaded isNull
  obtain rfl : i = 0 := Nat.lt_one_iff.mp below
  cases loaded
  cases isNull

/-- A fresh server: a line of blanks makes the length -1, and a word that is no
command stops the process. -/
theorem blank_and_unknown_unanswered : ∃ S A, Reachable (fun _ msg => Message msg) S A ∧
    Message (ascii [' ']) ∧ (∀ fuel, request fuel S (ascii [' ']) A = .ok ((⟨-1, none⟩, S), A)) ∧
    Message (ascii ['F', 'O', 'O']) ∧
      ∀ fuel, request fuel S (ascii ['F', 'O', 'O']) A = .error .abort := by
  obtain ⟨S, B, chains, created, -⟩ := initKvengine_run Allocator.plentiful_allSucceed
  refine ⟨S, B, .start Allocator.plentiful_allSucceed created, by decide, fun fuel => ?_, by decide,
    fun fuel => ?_⟩
  · rw [request_tokens (by decide) (by decide)]
    rfl
  · rw [request_tokens (by decide) (by decide)]
    rfl

end LinuxCpp.Kvstore
