import LinuxCpp.Kvstore.RequestHistory
import LinuxCpp.Kvstore.Sendable

set_option autoImplicit false

/- One sequence of requests through the three engines. -/
namespace LinuxCpp.Kvstore

open C RedBlack

section Runs

variable (fuel : Nat) (engine : Engine)

def runRequests : List Request → Store → CM (List Reply × Store)
  | [], S => return ([], S)
  | r :: rs, S => do
      let (reply, S) ← request fuel S (r.message engine)
      let (replies, S) ← runRequests rs S
      return (reply :: replies, S)

/-- The requests under the names of one engine, from `init_kvengine` on. -/
def feed (rs : List Request) : CM (List Reply × Store) := do
  let S ← initKvengine
  runRequests fuel engine rs S

end Runs

/-- The bindings that a sequence of requests leaves. -/
def history (rs : List Request) : Entries := rs.foldl Entries.after []

/-- The replies of a map. -/
def expectedFrom (entries : Entries) : List Request → List Reply
  | [] => []
  | r :: rs => sprintf (r.answer noExistText entries.view) :: expectedFrom (entries.after r) rs

theorem expectedFrom_snoc (entries : Entries) (rs : List Request) (r : Request) :
    expectedFrom entries (rs ++ [r]) = expectedFrom entries rs ++
      [sprintf (r.answer noExistText (rs.foldl Entries.after entries).view)] := by
  induction rs generalizing entries with
  | nil => rfl
  | cons first rs ih => rw [List.cons_append, expectedFrom, ih, expectedFrom]; rfl

theorem runRequests_snoc {fuel : Nat} {engine : Engine} {rs : List Request} {r : Request}
    {S S' S'' : Store} {A B C : Allocator} {replies : List Reply} {reply : Reply}
    (before : runRequests fuel engine rs S A = .ok ((replies, S'), B))
    (last : request fuel S' (r.message engine) B = .ok ((reply, S''), C)) :
    runRequests fuel engine (rs ++ [r]) S A = .ok ((replies ++ [reply], S''), C) := by
  induction rs generalizing S A replies with
  | nil =>
      cases before
      rw [List.nil_append, runRequests, bind_ok last]
      rfl
  | cons first rs ih =>
      rw [runRequests] at before
      obtain ⟨⟨firstReply, S₁⟩, A₁, start, before⟩ := run_of_bind before
      obtain ⟨⟨more, S₂⟩, A₂, middle, returned⟩ := run_of_bind before
      cases returned
      rw [List.cons_append, runRequests, bind_ok start]
      simp only
      rw [bind_ok (ih middle)]
      rfl

theorem feed_snoc {fuel : Nat} {engine : Engine} {rs : List Request} {r : Request}
    {S' S'' : Store} {A B C : Allocator} {replies : List Reply} {reply : Reply}
    (before : feed fuel engine rs A = .ok ((replies, S'), B))
    (last : request fuel S' (r.message engine) B = .ok ((reply, S''), C)) :
    feed fuel engine (rs ++ [r]) A = .ok ((replies ++ [reply], S''), C) := by
  unfold feed at before ⊢
  obtain ⟨S, B', created, before⟩ := run_of_bind before
  rw [bind_ok created]
  exact runRequests_snoc before last

section Mirror

variable {S : Store} {A : Allocator} {entries : Entries} {usable : CStr → Prop}

/-- The engine holds exactly these bindings; `usable` keys have their bucket. -/
def Mirrors (engine : Engine) (usable : CStr → Prop) (S : Store) (A : Allocator)
    (entries : Entries) : Prop :=
  match engine with
  | .array => Dense S.array entries
  | .rbtree => ∃ t, RbInv S.rbtree A t ∧ rbView t = entries.view
  | .hash => ∃ chains, HashInv S.hash chains ∧ hashView chains = entries.view ∧
      S.hash.count = entries.length ∧
      ∀ key, usable key → ∃ s, HashSlot key s ∧ chains s ≠ none

/-- An answer to a request that deletes no absent key. -/
theorem Request.answer_newest {r : Request} (newest : entries.Newest r) (missing : List UInt8) :
    r.answer missing entries.view = r.answer noExistText entries.view := by
  cases r with
  | del key =>
      obtain ⟨front, value, rfl⟩ := newest key rfl
      have present : Entries.view (front ++ [(key, value)]) key ≠ none := by
        rw [Entries.view_snoc]
        simp
      rw [Request.answer, Request.answer, if_neg present, if_neg present]
  | set key value => rfl
  | get key => rfl
  | mod key value => rfl
  | exist key => rfl

theorem Mirrors.step {engine : Engine} (mirrors : Mirrors engine usable S A entries)
    (granted : A.AllSucceed) (distinct : (entries.map Prod.fst).Nodup) {r : Request}
    (newest : entries.Newest r) (few : entries.length ≤ 1023) (bucket : usable r.key)
    (spares : engine = .rbtree → ∀ t, Holds S.rbtree t → r.SparesBlackLeaf t) :
    ∃ S' B, Answers S A engine r (r.answer noExistText entries.view) S' B ∧
      Mirrors engine usable S' B (entries.after r) ∧ B.AllSucceed := by
  cases engine with
  | array =>
      have dense : Dense S.array entries := mirrors
      have clear : r.ScanClear entries.slots := fun key _ => by
        rw [Entries.scanned_slots]
        exact entries.noHoleBefore_slots key
      have room : ∀ key value, r = .set key value → S.array.total ≠ kvsArraySize := by
        intro key value _
        rw [dense.total]
        unfold kvsArraySize
        omega
      obtain ⟨inst', B, answers, rep, later⟩ := array_step dense.rep granted r clear room
      rw [scannedView_slots, Request.answer_newest newest] at answers
      exact ⟨_, B, answers, dense.after rep newest, later.allSucceed granted⟩
  | rbtree =>
      obtain ⟨t, inv, view⟩ := mirrors
      obtain ⟨T', B, t', answers, inv', view', later⟩ := rbtree_step inv granted r
        (spares rfl t inv.holds)
      rw [view] at answers view'
      exact ⟨_, B, answers, ⟨t', inv', view'.trans (entries.view_after r).symm⟩,
        later.allSucceed granted⟩
  | hash =>
      obtain ⟨chains, inv, view, count, buckets⟩ := mirrors
      obtain ⟨s, slot, isSet⟩ := buckets r.key bucket
      obtain ⟨items, chain⟩ := Option.ne_none_iff_exists'.mp isSet
      obtain ⟨h', B, chains', answers, inv', view', later, count', kept⟩ := hash_step inv granted r
        slot chain fun _ _ _ => by omega
      rw [view, Request.answer_newest newest] at answers
      rw [view] at view' count'
      refine ⟨_, B, answers, ⟨chains', inv', view'.trans (entries.view_after r).symm, ?_, ?_⟩,
        later.allSucceed granted⟩
      · rw [Entries.length_after distinct newest, ← count]
        exact count'
      · intro key isUsable
        obtain ⟨s, slot, isSet⟩ := buckets key isUsable
        exact ⟨s, slot, kept s isSet⟩

end Mirror

/-- The three runs return, with the same list of replies. -/
def Interchangeable (A : Allocator) (rs : List Request) : Prop :=
  ∃ replies bound, ∀ fuel, bound ≤ fuel → ∀ engine, ∃ S B,
    feed fuel engine rs A = .ok ((replies, S), B)

/-- Every deletion names the newest live key, and in the run of the red-black
engine takes out no black leaf below another node; the hash buckets of all keys
lie in the table and were zero in fresh memory. -/
structure Uniform (A : Allocator) (rs : List Request) : Prop where
  newest : ∀ n r, rs[n]? = some r → (history (rs.take n)).Newest r
  spares : ∀ n r, rs[n]? = some r → ∀ fuel replies S B,
    feed fuel .rbtree (rs.take n) A = .ok ((replies, S), B) →
      ∀ t, Holds S.rbtree t → r.SparesBlackLeaf t
  buckets : ∀ r ∈ rs, ∀ S B, initKvengine A = .ok (S, B) → HasBucket S.hash r.key

section Agreement

variable {A : Allocator} {rs : List Request}

/-- Fresh engines hold no binding. -/
theorem mirrors_fresh (granted : A.AllSucceed) (engine : Engine) {usable : CStr → Prop}
    (buckets : ∀ key, usable key → ∀ S B, initKvengine A = .ok (S, B) → HasBucket S.hash key) :
    ∃ S B, initKvengine A = .ok (S, B) ∧ B.AllSucceed ∧ Mirrors engine usable S B [] := by
  obtain ⟨S, B, chains, created, granted', rep, tree, table, empty⟩ := initKvengine_run granted
  refine ⟨S, B, created, granted', ?_⟩
  have lengths : ∀ s, ((chains s).getD []) = [] := fun s => by
    cases chain : chains s with
    | none => rfl
    | some items => exact empty s items chain
  cases engine with
  | array => exact ⟨rep, List.nodup_nil⟩
  | rbtree => exact ⟨_, tree, rfl⟩
  | hash =>
      refine ⟨chains, table, ?_, ?_, ?_⟩
      · funext key
        rw [hashView, hashLookup]
        split
        · rw [lengths]
          rfl
        · rfl
      · rw [table.count, Chains.total]
        simp [lengths]
      · intro key isUsable
        obtain ⟨s, items, slot, chain⟩ := (buckets key isUsable S B created).chain table
        exact ⟨s, slot, by rw [chain]; simp⟩

/-- Every prefix of the run returns what the map answers. -/
theorem feed_expected (granted : A.AllSucceed) (sayable : ∀ r ∈ rs, r.Sayable)
    (few : ∀ n, (history (rs.take n)).length ≤ 1023) (uniform : Uniform A rs) (engine : Engine)
    (n : Nat) (inside : n ≤ rs.length) :
    ∃ bound S B, (∀ fuel, bound ≤ fuel →
        feed fuel engine (rs.take n) A = .ok ((expectedFrom [] (rs.take n), S), B)) ∧
      B.AllSucceed ∧ ((history (rs.take n)).map Prod.fst).Nodup ∧
      Mirrors engine (fun key => ∃ r ∈ rs, r.key = key) S B (history (rs.take n)) := by
  induction n with
  | zero =>
      have buckets : ∀ key, (∃ r ∈ rs, r.key = key) → ∀ S B, initKvengine A = .ok (S, B) →
          HasBucket S.hash key := by
        rintro key ⟨r, member, rfl⟩
        exact uniform.buckets r member
      obtain ⟨S, B, created, granted', mirrors⟩ := mirrors_fresh granted engine buckets
      refine ⟨0, S, B, fun fuel _ => ?_, granted', List.nodup_nil, mirrors⟩
      rw [List.take_zero, feed, bind_ok created]
      rfl
  | succ n ih =>
      obtain ⟨bound, S, B, runs, granted', distinct, mirrors⟩ := ih (by omega)
      have here : rs[n]? = some rs[n] := List.getElem?_eq_getElem (by omega)
      have next : rs.take (n + 1) = rs.take n ++ [rs[n]] := by
        rw [List.take_succ_eq_append_getElem]
      have grown : history (rs.take (n + 1)) = (history (rs.take n)).after rs[n] := by
        rw [next, history, List.foldl_append]
        rfl
      have newest := uniform.newest n _ here
      obtain ⟨S', C, ⟨bound', answers⟩, mirrors', granted''⟩ := mirrors.step granted' distinct
        newest (few n) ⟨rs[n], List.getElem_mem _, rfl⟩ (by
          rintro rfl
          exact uniform.spares n _ here _ _ _ _ (runs bound (Nat.le_refl _)))
      refine ⟨max bound bound', S', C, fun fuel enough => ?_, granted'', ?_, ?_⟩
      · have last := answers fuel (by omega)
        rw [← request_message engine (sayable rs[n] (List.getElem_mem _))] at last
        rw [next, expectedFrom_snoc]
        exact feed_snoc (runs fuel (by omega)) last
      · rw [grown]
        exact Entries.nodup_after distinct _
      · rw [grown]
        exact mirrors'

/-- Under the condition, the engines cannot be told apart at the protocol. -/
theorem engines_interchangeable (granted : A.AllSucceed) (sayable : ∀ r ∈ rs, r.Sayable)
    (few : ∀ n, (history (rs.take n)).length ≤ 1023) (uniform : Uniform A rs) :
    Interchangeable A rs := by
  have runs := fun engine =>
    feed_expected granted sayable few uniform engine rs.length (Nat.le_refl _)
  simp only [List.take_length] at runs
  obtain ⟨bound₁, S₁, B₁, array, -⟩ := runs .array
  obtain ⟨bound₂, S₂, B₂, rbtree, -⟩ := runs .rbtree
  obtain ⟨bound₃, S₃, B₃, hash, -⟩ := runs .hash
  refine ⟨expectedFrom [] rs, max bound₁ (max bound₂ bound₃), fun fuel enough engine => ?_⟩
  cases engine with
  | array => exact ⟨S₁, B₁, array fuel (by omega)⟩
  | rbtree => exact ⟨S₂, B₂, rbtree fuel (by omega)⟩
  | hash => exact ⟨S₃, B₃, hash fuel (by omega)⟩

end Agreement

/-- `SET s 5`, `SET t 6`, `DEL t`, `MOD s 9`, `GET s`. -/
def delNewest : List Request :=
  [.set ⟨[115], by decide⟩ ⟨[53], by decide⟩, .set ⟨[116], by decide⟩ ⟨[54], by decide⟩,
    .del ⟨[116], by decide⟩, .mod ⟨[115], by decide⟩ ⟨[57], by decide⟩, .get ⟨[115], by decide⟩]

/-- The tree that the `DEL` meets: the black `s` with the red `t` below it. -/
def twoKeys : RbTree :=
  .node .black .leaf ⟨4, 5, ⟨[115], by decide⟩, 6, ⟨[53], by decide⟩⟩
    (.node .red .leaf ⟨7, 8, ⟨[116], by decide⟩, 9, ⟨[54], by decide⟩⟩ .leaf)

theorem delNewest_run (fuel : Nat) : ∃ replies S B,
    feed (fuel + 2) .rbtree (delNewest.take 2) .cleared = .ok ((replies, S), B) ∧
      S.rbtree.root = 4 ∧ S.rbtree.nil = 2 ∧ Rep S.rbtree.heap 2 twoKeys 2 ∧
      (∃ n, S.rbtree.heap 2 = some n ∧ n.color = .black) ∧ S.rbtree.heap 0 = none :=
  ⟨_, _, _, rfl, rfl, rfl, ⟨rfl, trivial, rfl, trivial, trivial⟩, ⟨_, rfl, rfl⟩, rfl⟩

theorem delNewest_twoKeys {fuel : Nat} {replies : List Reply} {S : Store} {B : Allocator}
    (ran : feed fuel .rbtree (delNewest.take 2) .cleared = .ok ((replies, S), B)) :
    Holds S.rbtree twoKeys := by
  -- two rounds are enough for every loop, and with fewer the run fails
  match fuel with
  | 0 => cases ran
  | 1 => cases ran
  | fuel + 2 =>
      obtain ⟨_, T, _, run, root, nil, rep, sentinel, null⟩ := delNewest_run fuel
      cases run.symm.trans ran
      refine ⟨?_, ?_, by simp [twoKeys, addrs], ?_, ?_, null⟩
      · rw [root]
        rfl
      · rw [nil]
        exact rep
      · rw [nil]
        exact sentinel
      · rw [nil]
        simp [twoKeys, addrs]

theorem engines_interchangeable_delNewest : Interchangeable .cleared delNewest := by
  refine engines_interchangeable Allocator.cleared_allSucceed ?_ ?_ ⟨?_, ?_, ?_⟩
  · simp [delNewest, Request.Sayable, IsToken, Request.key, Request.value]
  · intro n
    rcases n with _ | _ | _ | _ | _ | n
    · decide
    · decide
    · decide
    · decide
    · decide
    · simp [delNewest]
      decide
  · intro n r here key isDel
    subst isDel
    rcases n with _ | _ | _ | _ | _ | n <;> cases here
    exact ⟨[(⟨[115], by decide⟩, ⟨[53], by decide⟩)], ⟨[54], by decide⟩, by decide⟩
  · intro n r here fuel replies S B ran t holds key isDel
    subst isDel
    rcases n with _ | _ | _ | _ | _ | n <;> cases here
    rw [holds.unique (delNewest_twoKeys ran)]
    decide
  · intro r member S B created
    have run : initKvengine .cleared = .ok (_, _) := rfl
    rw [run] at created
    cases created
    have keys : r.key = ⟨[115], by decide⟩ ∨ r.key = ⟨[116], by decide⟩ := by
      simp only [delNewest, List.mem_cons, List.not_mem_nil, or_false] at member
      rcases member with rfl | rfl | rfl | rfl | rfl <;> simp [Request.key]
    rcases keys with same | same
    · exact ⟨115, _, [], by rw [same]; rfl, rfl, rfl⟩
    · exact ⟨116, _, [], by rw [same]; rfl, rfl, rfl⟩

/-- The deletion of a key that was never set: "ok" from the array, "no exist"
from the tree, "error" from the hash table. -/
theorem del_absent_told_apart : (Request.del ⟨[107], by decide⟩).Sayable ∧
    (∀ n, (history (List.take n [.del ⟨[107], by decide⟩])).length ≤ 1023) ∧
    ¬ Interchangeable .cleared [.del ⟨[107], by decide⟩] := by
  refine ⟨by simp [Request.Sayable, IsToken, Request.key, Request.value], fun n => ?_, ?_⟩
  · cases n with
    | zero => decide
    | succ n =>
        simp
        decide
  · rintro ⟨replies, bound, agree⟩
    obtain ⟨S, B, array⟩ := agree bound (Nat.le_refl _) .array
    obtain ⟨S', B', hash⟩ := agree bound (Nat.le_refl _) .hash
    have ok : feed bound .array [.del ⟨[107], by decide⟩] .cleared =
        .ok (([sprintf okText], _), _) := rfl
    have error : feed bound .hash [.del ⟨[107], by decide⟩] .cleared =
        .ok (([sprintf errorText], _), _) := rfl
    rw [ok] at array
    rw [error] at hash
    cases array
    cases hash

end LinuxCpp.Kvstore
