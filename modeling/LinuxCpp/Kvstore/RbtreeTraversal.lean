import LinuxCpp.Kvstore.Engines
import LinuxCpp.RedBlack.Height
import LinuxCpp.Trace.Along

set_option autoImplicit false

/- `rbtree_traversal`, which prints what the red-black engine holds. -/
namespace LinuxCpp.Kvstore

open C RedBlack RedBlack.ColorTree Rbtree Trace

/-- `printf("key:%s, value:%s\n", ..)` -/
def printed (entry : CStr × CStr) : List UInt8 :=
  ascii ['k', 'e', 'y', ':'] ++ entry.1.bytes ++
    ascii [',', ' ', 'v', 'a', 'l', 'u', 'e', ':'] ++ entry.2.bytes ++ ascii ['\n']

/-- What is printed; `depth` is how many calls may be open at once. -/
def rbtreeTraversal (T : Rbtree) : Nat → Nat → Except Fault (List UInt8)
  | 0, _ => .error .fuel
  | depth + 1, x => do
      if x ≠ T.nil then
        let smaller ← rbtreeTraversal T depth (← T.child .left x)
        let key ← (← T.key x).deref
        let value ← (← T.value x).deref
        let larger ← rbtreeTraversal T depth (← T.child .right x)
        return smaller ++ printed (key, value) ++ larger
      else return []

section Traversal

variable {T : Rbtree} {t : RbTree} {A : Allocator} {parent depth : Nat} {key value : CStr}

/-- The nodes are printed in order, with one open call for each level and one more. -/
theorem rbtreeTraversal_rep (rep : Rep T.heap T.nil t parent) (apart : T.nil ∉ addrs t)
    (deep : t.height < depth) :
    rbtreeTraversal T depth (ptr T.nil t) = .ok ((entries t).flatMap printed) := by
  induction t generalizing parent depth with
  | leaf =>
      obtain ⟨depth, rfl⟩ := Nat.exists_eq_add_of_lt deep
      simp only [rbtreeTraversal, ptr, ne_eq, not_true_eq_false, ↓reduceIte]
      rfl
  | node color left x right ihl ihr =>
      obtain ⟨depth, rfl⟩ : ∃ below, depth = below + 1 := ⟨depth - 1, by omega⟩
      obtain ⟨cell, repLeft, repRight⟩ := rep
      rw [addrs, Multiset.mem_cons, Multiset.mem_add, not_or, not_or] at apart
      obtain ⟨notNil, apartLeft, apartRight⟩ := apart
      rw [height] at deep
      have smaller := @ihl x.addr depth repLeft apartLeft (by omega)
      have larger := @ihr x.addr depth repRight apartRight (by omega)
      have here : ptr T.nil (node color left x right) ≠ T.nil := Ne.symm notNil
      rw [rbtreeTraversal, if_pos here]
      simp only [ptr, child_of cell, key_of cell, value_of cell, ok_bind, cellOf_key, cellOf_value,
        CPtr.deref_live]
      rw [show RbNode.child _ .left = ptr T.nil left from rfl,
        show RbNode.child _ .right = ptr T.nil right from rfl, smaller, larger]
      simp only [ok_bind, entries, toList, List.map_append, List.map_cons, List.flatMap_append,
        List.flatMap_cons, List.append_assoc]
      rfl

/-- In a list without repeated keys the first pair of a key is the only one. -/
theorem find?_key_iff {pairs : List (CStr × CStr)} (distinct : (pairs.map Prod.fst).Nodup) :
    (pairs.find? fun pair => pair.1 = key).map Prod.snd = some value ↔ (key, value) ∈ pairs := by
  constructor
  · intro found
    obtain ⟨pair, isFirst, rfl⟩ := Option.map_eq_some_iff.mp found
    have isKey := List.find?_some isFirst
    rw [decide_eq_true_eq] at isKey
    exact isKey ▸ List.mem_of_find?_eq_some isFirst
  · intro member
    cases found : pairs.find? fun pair => pair.1 = key with
    | none =>
        have other := List.find?_eq_none.mp found _ member
        exact absurd (decide_eq_true_eq.mpr rfl) other
    | some pair =>
        have isKey := List.find?_some found
        rw [decide_eq_true_eq] at isKey
        have isIn := List.mem_of_find?_eq_some found
        have same := List.inj_on_of_nodup_map distinct isIn member isKey
        rw [same]
        rfl

theorem entries_sorted (sorted : Sorted RbItem.key t) :
    (entries t).Pairwise fun first second => strcmp first.1 second.1 < 0 := by
  rw [entries, List.pairwise_map]
  rw [Sorted, List.pairwise_map] at sorted
  exact sorted.imp fun below => (strcmp_neg _ _).mpr below

theorem mem_entries (sorted : Sorted RbItem.key t) :
    (key, value) ∈ entries t ↔ rbView t key = some value := by
  rw [rbView_entries, find?_key_iff]
  rw [entries, List.map_map]
  exact List.Pairwise.imp (fun below => ne_of_lt below) sorted

/-- A run of the traversal from the root of the tree. -/
theorem RbInv.printed (inv : RbInv T A t) (deep : 2 * Nat.log 2 ((entries t).length + 1) < depth) :
    rbtreeTraversal T depth T.root = .ok ((entries t).flatMap printed) := by
  rw [inv.holds.root]
  refine rbtreeTraversal_rep inv.holds.rep inv.holds.nilFree ?_
  have tall := inv.valid.height_le
  rw [size_eq_length] at tall
  rw [entries, List.length_map] at deep
  omega

end Traversal

section Runs

variable {S : Store} {A B : Allocator}

/-- A request to the tree; what it answers is left out. No loop takes more rounds than blocks
were handed out, and two. -/
def serve (state : Store × Allocator) (r : Request) : Except Fault (Store × Allocator) := do
  let ((_, S), A) ← r.exec (state.2.calls + 2) state.1 .rbtree state.2
  return (S, A)

/-- The request unlinks no black leaf below another node. -/
def Spares (state : Store × Allocator) (r : Request) : Prop :=
  ∀ t, Holds state.1.rbtree t → r.SparesBlackLeaf t

theorem RbInv.serves {t : RbTree} {requests : List Request} (inv : RbInv S.rbtree A t)
    (granted : A.AllSucceed) (spares : Along serve Spares (S, A) requests) :
    ∃ S' A' t', runs serve (S, A) requests = .ok (S', A') ∧ RbInv S'.rbtree A' t' ∧
      rbView t' = viewAfter (rbView t) requests := by
  induction requests generalizing S A t with
  | nil => exact ⟨S, A, t, rfl, inv, rfl⟩
  | cons r requests ih =>
      obtain ⟨first, rest⟩ := spares
      have size := inv.size_le
      obtain ⟨T', B, t', ran, inv', view, later⟩ :=
        rbtree_run inv granted r (first t inv.holds) (show t.size + 2 ≤ A.calls + 2 by omega)
      have stepped : serve (S, A) r = .ok ({ S with rbtree := T' }, B) := by
        rw [serve, ran]
        rfl
      obtain ⟨S', A', t'', ran', inv'', view'⟩ :=
        ih (S := { S with rbtree := T' }) inv' (later.allSucceed granted) (rest _ stepped)
      refine ⟨S', A', t'', (runs_cons stepped).trans ran', inv'', ?_⟩
      rw [view', view]
      rfl

/-- After any requests to the tree the traversal prints every key with its value, once and in
the order of `strcmp`, and its calls are nested no deeper than twice the logarithm. -/
theorem traversal_prints (granted : A.AllSucceed) (created : initKvengine A = .ok (S, B))
    {requests : List Request} (spares : Along serve Spares (S, B) requests) :
    ∃ S' B', ∃ pairs : List (CStr × CStr),
      runs serve (S, B) requests = .ok (S', B') ∧
      (pairs.Pairwise fun first second => strcmp first.1 second.1 < 0) ∧
      (∀ key value, (key, value) ∈ pairs ↔
        viewAfter (fun _ => none) requests key = some value) ∧
      ∀ depth, 2 * Nat.log 2 (pairs.length + 1) < depth →
        rbtreeTraversal S'.rbtree depth S'.rbtree.root = .ok (pairs.flatMap printed) := by
  obtain ⟨S₀, B₀, made, mapped⟩ := initKvengine_mapped granted
  cases created.symm.trans made
  obtain ⟨t₀, inv₀, empty⟩ := mapped.rbtree
  obtain ⟨S', B', t, ran, inv, view⟩ := inv₀.serves mapped.granted spares
  refine ⟨S', B', entries t, ran, entries_sorted inv.sorted, fun key value => ?_,
    fun depth deep => inv.printed deep⟩
  rw [mem_entries inv.sorted, view, empty]

/-- Three keys for the tree, and a new value for the second. -/
def treeRequests : List Request :=
  [.set (.upToNul [98]) (.upToNul [50]), .set (.upToNul [97]) (.upToNul [49]),
    .set (.upToNul [99]) (.upToNul [52]), .mod (.upToNul [97]) (.upToNul [51])]

theorem spares_of {state : Store × Allocator} {r : Request} (keeps : ∀ key, r ≠ .del key) :
    Spares state r :=
  fun _ _ key isDel => absurd isDel (keeps key)

theorem spares_del {state : Store × Allocator} {t : RbTree} {key : CStr}
    (holds : Holds state.1.rbtree t) (easy : splicesBlackLeaf RbItem.key key t = false) :
    Spares state (.del key) := by
  rintro t' holds' other ⟨⟩
  rw [← holds.unique holds']
  exact easy

/-- The tree behind these requests. -/
def lastTree : RbTree :=
  node .black (node .red leaf ⟨7, 8, .upToNul [97], 13, .upToNul [51]⟩ leaf)
    ⟨4, 5, .upToNul [98], 6, .upToNul [50]⟩
    (node .red leaf ⟨10, 11, .upToNul [99], 12, .upToNul [52]⟩ leaf)

theorem treeRequests_cells : ((initKvengine .cleared).bind fun made =>
    (runs serve made treeRequests).map fun s => (s.1.rbtree.root, s.1.rbtree.nil,
      [0, 2, 4, 7, 10].map s.1.rbtree.heap)) =
    .ok (4, 2, [none, some ⟨.black, 0, 0, 0, .null, .null⟩,
      some (cellOf .left .black 7 10 2 ⟨4, 5, .upToNul [98], 6, .upToNul [50]⟩),
      some (cellOf .left .red 2 2 4 ⟨7, 8, .upToNul [97], 13, .upToNul [51]⟩),
      some (cellOf .left .red 2 2 4 ⟨10, 11, .upToNul [99], 12, .upToNul [52]⟩)]) := by
  decide +kernel

theorem lastTree_holds {last : Store × Allocator} (created : initKvengine .cleared = .ok (S, B))
    (ran : runs serve (S, B) treeRequests = .ok last) : Holds last.1.rbtree lastTree := by
  have cells := treeRequests_cells
  rw [created] at cells
  simp only [Except.bind, ran, Except.map, Except.ok.injEq, Prod.mk.injEq, List.map_cons,
    List.map_nil, List.cons.injEq, and_true] at cells
  obtain ⟨root, nil, null, sentinel, at4, at7, at10⟩ := cells
  refine ⟨root, ?_, by decide, ?_, ?_, null⟩
  · rw [nil]
    exact ⟨at4, ⟨at7, trivial, trivial⟩, at10, trivial, trivial⟩
  · rw [nil]
    exact ⟨_, sentinel, rfl⟩
  · rw [nil]
    decide

/-- Behind the four requests the key `c` is deleted, whose node is red. -/
theorem traversal_prints_two : ∃ S B, initKvengine .cleared = .ok (S, B) ∧
    ∃ S' B', ∃ pairs : List (CStr × CStr),
      runs serve (S, B) (treeRequests ++ [.del (.upToNul [99])]) = .ok (S', B') ∧
      (pairs.Pairwise fun first second => strcmp first.1 second.1 < 0) ∧
      (∀ key value, (key, value) ∈ pairs ↔ viewAfter (fun _ => none)
        (treeRequests ++ [.del (.upToNul [99])]) key = some value) ∧
      ∀ depth, 2 * Nat.log 2 (pairs.length + 1) < depth →
        rbtreeTraversal S'.rbtree depth S'.rbtree.root = .ok (pairs.flatMap printed) := by
  have created : initKvengine .cleared = .ok (_, _) := rfl
  refine ⟨_, _, created, traversal_prints Allocator.cleared_allSucceed created ?_⟩
  refine ⟨spares_of nofun, fun s₁ ran₁ => ⟨spares_of nofun, fun s₂ ran₂ => ⟨spares_of nofun,
    fun s₃ ran₃ => ⟨spares_of nofun, fun s₄ ran₄ => ⟨?_, fun _ _ => trivial⟩⟩⟩⟩⟩
  refine spares_del (t := lastTree) (lastTree_holds created ?_) (by decide)
  rw [treeRequests, runs_cons ran₁, runs_cons ran₂, runs_cons ran₃, runs_cons ran₄]
  rfl

end Runs

end LinuxCpp.Kvstore
