import LinuxCpp.C.Decimal
import LinuxCpp.Kvstore.Interchange

set_option autoImplicit false

/- The test client `testcase.c` against the engines. A test sends a message and
compares the reply with a pattern; the tests of one connection follow one
another. -/
namespace LinuxCpp.Kvstore

open C RedBlack RedBlack.ColorTree

section Client

structure TestCase where
  msg : List UInt8
  pattern : List UInt8

/-- Whether the test prints PASS. The reply arrives whole in a cleared buffer. -/
def testcase (fuel : Nat) (S : Store) (case : TestCase) : CM (Bool × Store) := do
  let (reply, S) ← request fuel S case.msg
  let result := CStr.upToNul (reply.text.getD [])
  return (strcmp result (CStr.upToNul case.pattern) = 0, S)

def runTestcases (fuel : Nat) : List TestCase → Store → CM (List Bool × Store)
  | [], S => return ([], S)
  | case :: cases, S => do
      let (passed, S) ← testcase fuel S case
      let (rest, S) ← runTestcases fuel cases S
      return (passed :: rest, S)

/-- The bytes that `snprintf` leaves in front of its NUL. -/
def snprintf (size : Nat) (text : List UInt8) : List UInt8 := text.take (size - 1)

/-- A message to an engine; its commands differ in their first letter. -/
def say (engine : Engine) (text : List Char) : List UInt8 := ascii (engine.mark ++ text)

/-- The nine lines that `array_testcase_1w`, `rbtree_testcase`, `rbtree_testcase_1w`
and `hash_testcase` have in common. -/
def nineCases (engine : Engine) : List TestCase :=
  [⟨say engine ['S', 'E', 'T', ' ', 'T', 'e', 'a', 'c', 'h', 'e', 'r', ' ', 'L', 'H', 'Y'], okText⟩,
    ⟨say engine ['G', 'E', 'T', ' ', 'T', 'e', 'a', 'c', 'h', 'e', 'r'],
      ascii ['L', 'H', 'Y', '\r', '\n']⟩,
    ⟨say engine ['M', 'O', 'D', ' ', 'T', 'e', 'a', 'c', 'h', 'e', 'r', ' ',
      'L', 'i', 'l', 'i', 'l', 'i', 'h', 'y'], okText⟩,
    ⟨say engine ['G', 'E', 'T', ' ', 'T', 'e', 'a', 'c', 'h', 'e', 'r'],
      ascii ['L', 'i', 'l', 'i', 'l', 'i', 'h', 'y', '\r', '\n']⟩,
    ⟨say engine ['E', 'X', 'I', 'S', 'T', ' ', 'T', 'e', 'a', 'c', 'h', 'e', 'r'], existText⟩,
    ⟨say engine ['D', 'E', 'L', ' ', 'T', 'e', 'a', 'c', 'h', 'e', 'r'], okText⟩,
    ⟨say engine ['G', 'E', 'T', ' ', 'T', 'e', 'a', 'c', 'h', 'e', 'r'], noExistText⟩,
    ⟨say engine ['M', 'O', 'D', ' ', 'T', 'e', 'a', 'c', 'h', 'e', 'r', ' ', 'l', 'h', 'y'],
      noExistText⟩,
    ⟨say engine ['E', 'X', 'I', 'S', 'T', ' ', 'T', 'e', 'a', 'c', 'h', 'e', 'r'], noExistText⟩]

def rsetCase (i : Nat) : TestCase :=
  ⟨snprintf 128 (ascii ['R', 'S', 'E', 'T', ' ', 'T', 'e', 'a', 'c', 'h', 'e', 'r'] ++ decimal i ++
    ascii [' ', 'K', 'i', 'n', 'g'] ++ decimal i), okText⟩

def rgetCase (i : Nat) : TestCase :=
  ⟨snprintf 128 (ascii ['R', 'G', 'E', 'T', ' ', 'T', 'e', 'a', 'c', 'h', 'e', 'r'] ++ decimal i),
    snprintf 128 (ascii ['K', 'i', 'n', 'g'] ++ decimal i ++ ascii ['\r', '\n'])⟩

def rmodCase (i : Nat) : TestCase :=
  ⟨snprintf 128 (ascii ['R', 'M', 'O', 'D', ' ', 'T', 'e', 'a', 'c', 'h', 'e', 'r'] ++ decimal i ++
    ascii [' ', 'L', 'i', 'l', 'i', 'l', 'i', 'h', 'y'] ++ decimal i), okText⟩

/-- The three loops of `rbtree_testcase_3w_0_mix`. -/
def mixCases (count : Nat) : List TestCase :=
  (List.range count).map rsetCase ++ (List.range count).map rgetCase ++
    (List.range count).map rmodCase

/-- What `main` runs; `count` is 10000 in all loops. -/
def testcases (mode : Int) (count : Nat) : List TestCase :=
  if mode = 0 then (List.replicate count (nineCases .rbtree)).flatten
  else if mode = 1 then (List.replicate count (nineCases .array)).flatten
  else if mode = 2 then mixCases count
  else if mode = 3 then nineCases .hash
  else []

end Client

section Passes

/-- Every large enough bound on the loops lets all tests pass, and leaves this state. -/
def Passes (cases : List TestCase) (S : Store) (A : Allocator) (S' : Store) (B : Allocator) :
    Prop :=
  ∃ bound, ∀ fuel, bound ≤ fuel →
    runTestcases fuel cases S A = .ok ((cases.map fun _ => true, S'), B)

variable {S S₁ S' : Store} {A A₁ B : Allocator} {engine : Engine} {r : Request}
  {cases more : List TestCase}

theorem Passes.nil : Passes [] S A S A := ⟨0, fun _ _ => rfl⟩

theorem Passes.cons (sayable : r.Sayable) {text : List UInt8}
    (answers : Answers S A engine r text S₁ A₁) (rest : Passes cases S₁ A₁ S' B) :
    Passes (⟨r.message engine, text⟩ :: cases) S A S' B := by
  obtain ⟨bound, answers⟩ := answers
  obtain ⟨bound', rest⟩ := rest
  refine ⟨max bound bound', fun fuel enough => ?_⟩
  have answered := answers fuel (by omega)
  rw [← request_message engine sayable] at answered
  have tested : testcase fuel S ⟨r.message engine, text⟩ A = .ok ((true, S₁), A₁) := by
    rw [testcase, bind_ok answered]
    simp only [sprintf, Option.getD_some, strcmp_eq_zero]
    rfl
  rw [runTestcases, bind_ok tested]
  simp only
  rw [bind_ok (rest fuel (by omega))]
  rfl

theorem Passes.append (first : Passes cases S A S₁ A₁) (second : Passes more S₁ A₁ S' B) :
    Passes (cases ++ more) S A S' B := by
  obtain ⟨bound, first⟩ := first
  obtain ⟨bound', second⟩ := second
  refine ⟨max bound bound', fun fuel enough => ?_⟩
  have ran := first fuel (by omega)
  have later := second fuel (by omega)
  clear first second enough
  induction cases generalizing S A with
  | nil =>
      cases ran
      exact later
  | cons case cases ih =>
      rw [runTestcases] at ran
      obtain ⟨⟨passed, S₂⟩, A₂, tested, ran⟩ := run_of_bind ran
      obtain ⟨⟨rest, S₃⟩, A₃, tail, returned⟩ := run_of_bind ran
      cases returned
      rw [List.cons_append, runTestcases, bind_ok tested]
      simp only
      rw [bind_ok (ih tail)]
      rfl

/-- The tests that a map passes by definition. -/
def casesOf (engine : Engine) : View → List Request → List TestCase
  | _, [] => []
  | m, r :: rs => ⟨r.message engine, r.answer noExistText m⟩ :: casesOf engine (r.update m) rs

theorem casesOf_append (m : View) (first second : List Request) :
    casesOf engine m (first ++ second) =
      casesOf engine m first ++ casesOf engine (viewAfter m first) second := by
  induction first generalizing m with
  | nil => rfl
  | cons r first ih =>
      rw [List.cons_append, casesOf, ih]
      rfl

theorem viewAfter_append (m : View) (first second : List Request) :
    viewAfter m (first ++ second) = viewAfter (viewAfter m first) second :=
  List.foldl_append

end Passes

section Tree

variable {S : Store} {A : Allocator} {t : RbTree} {m : View}

/-- Only the one key there is gets deleted. -/
def Sole (m : View) (r : Request) : Prop := ∀ key, r = .del key → ∀ k, m k ≠ none → k = key

def SoleAll : View → List Request → Prop
  | _, [] => True
  | m, r :: rs => Sole m r ∧ SoleAll (r.update m) rs

theorem mem_view {x : RbItem} (member : x ∈ t.toList) : rbView t x.key ≠ none := by
  rw [rbView_entries, ne_eq, Option.map_eq_none_iff, List.find?_eq_none]
  intro nowhere
  have here : (x.key, x.value) ∈ entries t := List.mem_map_of_mem member
  exact nowhere _ here (by simp)

/-- A tree with one key is a root without children. -/
theorem sole_spares {r : Request} (sorted : Sorted RbItem.key t) (sole : Sole (rbView t) r) :
    r.SparesBlackLeaf t := by
  intro key isDel
  have only : ∀ x ∈ t.toList, x.key = key := fun x member => sole key isDel _ (mem_view member)
  cases t with
  | leaf => rfl
  | node c l x r' =>
      rw [Sorted, toList, List.map_append, List.map_cons, List.pairwise_append] at sorted
      obtain ⟨-, tail, cross⟩ := sorted
      have isKey : x.key = key := only x (by simp [toList])
      have noLeft : l.toList = [] := by
        by_contra nonempty
        obtain ⟨y, member⟩ := List.exists_mem_of_ne_nil _ nonempty
        have below := cross y.key (List.mem_map_of_mem member) x.key List.mem_cons_self
        rw [only y (by simp [toList, member]), isKey] at below
        exact lt_irrefl _ below
      have noRight : r'.toList = [] := by
        by_contra nonempty
        obtain ⟨y, member⟩ := List.exists_mem_of_ne_nil _ nonempty
        have above := (List.pairwise_cons.mp tail).1 y.key (List.mem_map_of_mem member)
        rw [only y (by simp [toList, member]), isKey] at above
        exact lt_irrefl _ above
      have leaf_of : ∀ t : RbTree, t.toList = [] → t = leaf := by
        intro t empty
        cases t with
        | leaf => rfl
        | node c l x r => simp [toList] at empty
      rw [leaf_of l noLeft, leaf_of r' noRight]
      simp [splicesBlackLeaf, splicePoint, seek, isKey]

/-- The tree passes what its map passes. -/
theorem tree_passes {rs : List Request} (inv : RbInv S.rbtree A t) (granted : A.AllSucceed)
    (sayable : ∀ r ∈ rs, r.Sayable) (sole : SoleAll (rbView t) rs) :
    ∃ S' B t', Passes (casesOf .rbtree (rbView t) rs) S A S' B ∧ RbInv S'.rbtree B t' ∧
      rbView t' = viewAfter (rbView t) rs ∧ B.AllSucceed := by
  induction rs generalizing S A t with
  | nil => exact ⟨S, A, t, .nil, inv, rfl, granted⟩
  | cons r rs ih =>
      obtain ⟨T₁, A₁, t₁, answers, inv₁, view₁, later⟩ := rbtree_step inv granted r
        (sole_spares inv.sorted sole.1)
      obtain ⟨S', B, t', passes, inv', view', granted'⟩ :=
        @ih { S with rbtree := T₁ } A₁ t₁ inv₁ (later.allSucceed granted)
          (fun r member => sayable r (List.mem_cons_of_mem _ member))
          (by rw [view₁]; exact sole.2)
      rw [view₁] at passes view'
      exact ⟨S', B, t', passes.cons (sayable r List.mem_cons_self) answers, inv', view', granted'⟩

end Tree

section Lists

variable {S : Store} {A : Allocator} {engine : Engine} {usable : CStr → Prop} {entries : Entries}

/-- Every request meets few bindings and deletes only the newest. -/
def TameAll (usable : CStr → Prop) : Entries → List Request → Prop
  | _, [] => True
  | entries, r :: rs => entries.Newest r ∧ entries.length ≤ 1023 ∧ usable r.key ∧
      TameAll usable (entries.after r) rs

/-- The array and the hash table pass what their map passes. -/
theorem list_passes {rs : List Request} (notTree : engine ≠ .rbtree)
    (mirrors : Mirrors engine usable S A entries) (granted : A.AllSucceed)
    (distinct : (entries.map Prod.fst).Nodup) (sayable : ∀ r ∈ rs, r.Sayable)
    (tame : TameAll usable entries rs) :
    ∃ S' B, Passes (casesOf engine entries.view rs) S A S' B ∧
      Mirrors engine usable S' B (rs.foldl Entries.after entries) ∧ B.AllSucceed := by
  induction rs generalizing S A entries with
  | nil => exact ⟨S, A, .nil, mirrors, granted⟩
  | cons r rs ih =>
      obtain ⟨newest, few, bucket, rest⟩ := tame
      obtain ⟨S₁, A₁, answers, mirrors₁, granted₁⟩ := mirrors.step granted distinct newest few
        bucket fun isTree => absurd isTree notTree
      obtain ⟨S', B, passes, mirrors', granted'⟩ := ih mirrors₁ granted₁
        (Entries.nodup_after distinct r)
        (fun r member => sayable r (List.mem_cons_of_mem _ member)) rest
      rw [entries.view_after] at passes
      exact ⟨S', B, passes.cons (sayable r List.mem_cons_self) answers, mirrors', granted'⟩

end Lists

section Nine

def teacher : CStr := CStr.upToNul (ascii ['T', 'e', 'a', 'c', 'h', 'e', 'r'])
def lhy : CStr := CStr.upToNul (ascii ['L', 'H', 'Y'])
def lililihy : CStr := CStr.upToNul (ascii ['L', 'i', 'l', 'i', 'l', 'i', 'h', 'y'])
def smallLhy : CStr := CStr.upToNul (ascii ['l', 'h', 'y'])

/-- The requests of the nine lines. -/
def nineRequests : List Request :=
  [.set teacher lhy, .get teacher, .mod teacher lililihy, .get teacher, .exist teacher,
    .del teacher, .get teacher, .mod teacher smallLhy, .exist teacher]

/-- The patterns are what a map answers. -/
theorem nineCases_eq (engine : Engine) :
    nineCases engine = casesOf engine (fun _ => none) nineRequests := by
  cases engine <;> rfl

theorem nineRequests_sayable : ∀ r ∈ nineRequests, r.Sayable := by
  have teacherToken : IsToken teacher := ⟨by decide, by decide⟩
  have lhyToken : IsToken lhy := ⟨by decide, by decide⟩
  have lililihyToken : IsToken lililihy := ⟨by decide, by decide⟩
  have smallLhyToken : IsToken smallLhy := ⟨by decide, by decide⟩
  simp [nineRequests, Request.Sayable, Request.key, Request.value, teacherToken, lhyToken,
    lililihyToken, smallLhyToken]

theorem nineRequests_sole : SoleAll (fun _ => none) nineRequests := by
  simp only [SoleAll, nineRequests, Sole, Request.update]
  simp [Function.update_apply]
  intro k present
  by_contra different
  simp [different] at present

theorem nineRequests_tame {usable : CStr → Prop} (bucket : usable teacher) :
    TameAll usable [] nineRequests := by
  have newest : Entries.Newest [(teacher, lililihy)] (.del teacher) := by
    rintro key ⟨⟩
    exact ⟨[], lililihy, rfl⟩
  have keep : ∀ {entries : Entries} {r : Request} {rs : List Request}, (∀ key, r ≠ .del key) →
      entries.length ≤ 1023 → usable r.key → TameAll usable (entries.after r) rs →
        TameAll usable entries (r :: rs) := fun noDel few bucket rest =>
    ⟨fun key isDel => absurd isDel (noDel key), few, bucket, rest⟩
  refine keep (by simp) (by decide) bucket ?_
  refine keep (by simp) (by decide) bucket ?_
  refine keep (by simp) (by decide) bucket ?_
  refine keep (by simp) (by decide) bucket ?_
  refine keep (by simp) (by decide) bucket ?_
  refine ⟨newest, by decide, bucket, ?_⟩
  refine keep (by simp) (by decide) bucket ?_
  refine keep (by simp) (by decide) bucket ?_
  exact keep (by simp) (by decide) bucket trivial

theorem nineRequests_nothing : viewAfter (fun _ => none) nineRequests = fun _ => none := by
  funext key
  simp [viewAfter, nineRequests, Request.update]

theorem nineRequests_empty : nineRequests.foldl Entries.after [] = [] := by
  rfl

end Nine

section Mix

/-- A name with a number behind it. -/
def numbered (name : List Char) (i : Nat) : CStr := CStr.upToNul (ascii name ++ decimal i)

def teacherName : List Char := ['T', 'e', 'a', 'c', 'h', 'e', 'r']
def kingName : List Char := ['K', 'i', 'n', 'g']
def lililihyName : List Char := ['L', 'i', 'l', 'i', 'l', 'i', 'h', 'y']

def rset (i : Nat) : Request := .set (numbered teacherName i) (numbered kingName i)
def rget (i : Nat) : Request := .get (numbered teacherName i)
def rmod (i : Nat) : Request := .mod (numbered teacherName i) (numbered lililihyName i)

def mixRequests (count : Nat) : List Request :=
  (List.range count).map rset ++ (List.range count).map rget ++ (List.range count).map rmod

theorem numbered_bytes {name : List Char} (noNul : (0 : UInt8) ∉ ascii name) (i : Nat) :
    (numbered name i).bytes = ascii name ++ decimal i := by
  have free : (0 : UInt8) ∉ ascii name ++ decimal i := by
    rw [List.mem_append, not_or]
    exact ⟨noNul, not_mem_decimal (.inl (by decide))⟩
  rw [numbered, CStr.upToNul_bytes free]

theorem numbered_token {name : List Char} (noNul : (0 : UInt8) ∉ ascii name)
    (noBlank : (32 : UInt8) ∉ ascii name) (i : Nat) : IsToken (numbered name i) := by
  rw [IsToken, numbered_bytes noNul]
  refine ⟨by simp [decimal_ne_nil], ?_⟩
  rw [List.mem_append, not_or]
  exact ⟨noBlank, not_mem_decimal (.inl (by decide))⟩

theorem numbered_injective {name : List Char} (noNul : (0 : UInt8) ∉ ascii name) :
    Function.Injective (numbered name) := by
  intro i j same
  have bytes := congrArg CStr.bytes same
  rw [numbered_bytes noNul, numbered_bytes noNul] at bytes
  exact decimal_injective (List.append_cancel_left bytes)

theorem teacher_injective : Function.Injective (numbered teacherName) :=
  numbered_injective (by decide)

theorem mixRequests_sayable (count : Nat) : ∀ r ∈ mixRequests count, r.Sayable := by
  have teacherToken := @numbered_token teacherName (by decide) (by decide)
  have kingToken := @numbered_token kingName (by decide) (by decide)
  have lililihyToken := @numbered_token lililihyName (by decide) (by decide)
  intro r member
  simp only [mixRequests, List.mem_append, List.mem_map] at member
  rcases member with (⟨i, -, rfl⟩ | ⟨i, -, rfl⟩) | ⟨i, -, rfl⟩
  · simp [rset, Request.Sayable, Request.key, Request.value, teacherToken, kingToken]
  · simp [rget, Request.Sayable, Request.key, Request.value, teacherToken]
  · simp [rmod, Request.Sayable, Request.key, Request.value, teacherToken, lililihyToken]

theorem soleAll_of {m : View} {rs : List Request} (noDel : ∀ r ∈ rs, ∀ key, r ≠ .del key) :
    SoleAll m rs := by
  induction rs generalizing m with
  | nil => trivial
  | cons r rs ih =>
      refine ⟨fun key isDel => absurd isDel (noDel r List.mem_cons_self key), ih ?_⟩
      exact fun r member => noDel r (List.mem_cons_of_mem _ member)

variable {engine : Engine} {m : View} {l : List Nat}

theorem casesOf_rset (distinct : l.Nodup) (absent : ∀ i ∈ l, m (numbered teacherName i) = none) :
    casesOf engine m (l.map rset) = l.map (fun i => ⟨(rset i).message engine, okText⟩) ∧
      ∀ j, viewAfter m (l.map rset) (numbered teacherName j) =
        if j ∈ l then some (numbered kingName j) else m (numbered teacherName j) := by
  induction l generalizing m with
  | nil => exact ⟨rfl, fun j => rfl⟩
  | cons i l ih =>
      obtain ⟨notLater, distinct⟩ := List.nodup_cons.mp distinct
      have new := absent i List.mem_cons_self
      have update : (rset i).update m =
          Function.update m (numbered teacherName i) (some (numbered kingName i)) := if_pos new
      have others : ∀ j, j ≠ i →
          (rset i).update m (numbered teacherName j) = m (numbered teacherName j) := by
        intro j different
        rw [update, Function.update_of_ne (teacher_injective.ne different)]
      obtain ⟨cases_, view⟩ := @ih ((rset i).update m) distinct fun j later => by
        rw [others j (by rintro rfl; exact notLater later)]
        exact absent j (List.mem_cons_of_mem _ later)
      constructor
      · rw [List.map_cons, casesOf, cases_, List.map_cons]
        rw [show (rset i).answer noExistText m = okText from if_pos new]
      · intro j
        rw [List.map_cons, viewAfter, List.foldl_cons, ← viewAfter, view]
        by_cases same : j = i
        · subst same
          simp [notLater, update]
        · simp [others j same, same]

theorem casesOf_rget : casesOf engine m (l.map rget) =
    l.map fun i => ⟨(rget i).message engine, (rget i).answer noExistText m⟩ := by
  induction l with
  | nil => rfl
  | cons i l ih => rw [List.map_cons, casesOf, List.map_cons, rget, Request.update, ih]

theorem casesOf_rmod (present : ∀ i ∈ l, m (numbered teacherName i) ≠ none) :
    casesOf engine m (l.map rmod) = l.map fun i => ⟨(rmod i).message engine, okText⟩ := by
  induction l generalizing m with
  | nil => rfl
  | cons i l ih =>
      have here := present i List.mem_cons_self
      have update : (rmod i).update m =
          Function.update m (numbered teacherName i) (some (numbered lililihyName i)) := if_neg here
      have rest := @ih ((rmod i).update m) fun j later => by
        rw [update, Function.update_apply]
        split
        · simp
        · exact present j (List.mem_cons_of_mem _ later)
      rw [List.map_cons, casesOf, rest, List.map_cons]
      rw [show (rmod i).answer noExistText m = okText from if_neg here]

theorem snprintf_fits {text : List UInt8} (short : text.length < 128) : snprintf 128 text = text :=
  List.take_of_length_le (by omega)

theorem rsetCase_eq {i : Nat} (int : i < 2 ^ 31) :
    rsetCase i = ⟨(rset i).message .rbtree, okText⟩ := by
  have digits := decimal_length int
  rw [rsetCase, snprintf_fits (by simp [ascii]; omega)]
  simp only [rset, Request.message, Request.key, Request.value]
  rw [numbered_bytes (by decide), numbered_bytes (by decide)]
  simp [ascii, Engine.mark, Verb.name, Request.verb, teacherName, kingName]

theorem rmodCase_eq {i : Nat} (int : i < 2 ^ 31) :
    rmodCase i = ⟨(rmod i).message .rbtree, okText⟩ := by
  have digits := decimal_length int
  rw [rmodCase, snprintf_fits (by simp [ascii]; omega)]
  simp only [rmod, Request.message, Request.key, Request.value]
  rw [numbered_bytes (by decide), numbered_bytes (by decide)]
  simp [ascii, Engine.mark, Verb.name, Request.verb, teacherName, lililihyName]

theorem rgetCase_eq {i : Nat} (int : i < 2 ^ 31)
    (bound : m (numbered teacherName i) = some (numbered kingName i)) :
    rgetCase i = ⟨(rget i).message .rbtree, (rget i).answer noExistText m⟩ := by
  have digits := decimal_length int
  rw [rgetCase, snprintf_fits (by simp [ascii]; omega), snprintf_fits (by simp [ascii]; omega)]
  simp only [rget, Request.message, Request.key, Request.value, Request.answer, bound]
  rw [numbered_bytes (by decide), numbered_bytes (by decide)]
  simp [ascii, Engine.mark, Verb.name, Request.verb, teacherName, kingName]

/-- The patterns of the mixed test are what a map answers. -/
theorem mixCases_eq {count : Nat} (int : count < 2 ^ 31) :
    mixCases count = casesOf .rbtree (fun _ => none) (mixRequests count) := by
  have small : ∀ i ∈ List.range count, i < 2 ^ 31 := fun i member =>
    Nat.lt_trans (List.mem_range.mp member) int
  obtain ⟨sets, bound⟩ := @casesOf_rset .rbtree (fun _ => none) (List.range count)
    List.nodup_range fun _ _ => rfl
  have kept : viewAfter (viewAfter (fun _ => none) ((List.range count).map rset))
      ((List.range count).map rget) = viewAfter (fun _ => none) ((List.range count).map rset) := by
    generalize viewAfter (fun _ => none) ((List.range count).map rset) = m
    induction List.range count with
    | nil => rfl
    | cons i l ih => exact ih
  have present : ∀ i ∈ List.range count, viewAfter (fun _ => none)
      ((List.range count).map rset) (numbered teacherName i) = some (numbered kingName i) := by
    intro i member
    rw [bound, if_pos member]
  rw [mixCases, mixRequests, List.append_assoc, casesOf_append, casesOf_append, sets, casesOf_rget,
    viewAfter_append, kept, casesOf_rmod fun i member => by simp [present i member],
    List.append_assoc]
  congr 1
  · exact List.map_congr_left fun i member => rsetCase_eq (small i member)
  · congr 1
    · exact List.map_congr_left fun i member => rgetCase_eq (small i member) (present i member)
    · exact List.map_congr_left fun i member => rmodCase_eq (small i member)

end Mix

section Modes

variable {S : Store} {A : Allocator}

/-- Fresh engines and the tests of a mode. -/
def testRun (fuel : Nat) (mode : Int) (count : Nat) : CM (List Bool × Store) := do
  let S ← initKvengine
  runTestcases fuel (testcases mode count) S

/-- The nine lines leave the tree as empty as they found it. -/
theorem tree_repeats {t : RbTree} (inv : RbInv S.rbtree A t) (empty : rbView t = fun _ => none)
    (granted : A.AllSucceed) (count : Nat) :
    ∃ S' B, Passes (List.replicate count (nineCases .rbtree)).flatten S A S' B := by
  induction count generalizing S A t with
  | zero => exact ⟨S, A, .nil⟩
  | succ count ih =>
      have sole : SoleAll (rbView t) nineRequests := by
        rw [empty]
        exact nineRequests_sole
      obtain ⟨S₁, A₁, t₁, first, inv₁, view₁, granted₁⟩ := tree_passes inv granted
        nineRequests_sayable sole
      rw [empty, ← nineCases_eq] at first
      rw [empty, nineRequests_nothing] at view₁
      obtain ⟨S', B, rest⟩ := ih inv₁ view₁ granted₁
      rw [List.replicate_succ, List.flatten_cons]
      exact ⟨S', B, first.append rest⟩

theorem list_nine {engine : Engine} {usable : CStr → Prop} (notTree : engine ≠ .rbtree)
    (mirrors : Mirrors engine usable S A []) (granted : A.AllSucceed) (bucket : usable teacher) :
    ∃ S' B, Passes (nineCases engine) S A S' B ∧ Mirrors engine usable S' B [] ∧
      B.AllSucceed := by
  obtain ⟨S', B, passes, mirrors', granted'⟩ := list_passes notTree mirrors granted List.nodup_nil
    nineRequests_sayable (nineRequests_tame bucket)
  rw [nineRequests_empty] at mirrors'
  rw [Entries.view_nil, ← nineCases_eq] at passes
  exact ⟨S', B, passes, mirrors', granted'⟩

theorem array_repeats (dense : Dense S.array []) (granted : A.AllSucceed) (count : Nat) :
    ∃ S' B, Passes (List.replicate count (nineCases .array)).flatten S A S' B := by
  induction count generalizing S A with
  | zero => exact ⟨S, A, .nil⟩
  | succ count ih =>
      have mirrors : Mirrors .array (fun _ => True) S A [] := dense
      obtain ⟨S₁, A₁, first, dense₁, granted₁⟩ := list_nine (by decide) mirrors granted trivial
      obtain ⟨S', B, rest⟩ := ih dense₁ granted₁
      rw [List.replicate_succ, List.flatten_cons]
      exact ⟨S', B, first.append rest⟩

/-- In every mode, however often its loops run, every test passes. -/
theorem testcases_pass (granted : A.AllSucceed) (mode : Int) {count : Nat} (int : count < 2 ^ 31)
    (bucket : mode = 3 → ∀ S B, initKvengine A = .ok (S, B) → HasBucket S.hash teacher) :
    ∃ bound, ∀ fuel, bound ≤ fuel → ∃ S B, testRun fuel mode count A =
      .ok (((testcases mode count).map fun _ => true, S), B) := by
  suffices passed : ∃ S A', initKvengine A = .ok (S, A') ∧
      ∃ S' B, Passes (testcases mode count) S A' S' B by
    obtain ⟨S, A', created, S', B, bound, passes⟩ := passed
    refine ⟨bound, fun fuel enough => ⟨S', B, ?_⟩⟩
    rw [testRun, bind_ok created]
    exact passes fuel enough
  have fresh := fun engine => @mirrors_fresh A granted engine
    (fun key => mode = 3 ∧ key = teacher) (by rintro key ⟨isHash, rfl⟩; exact bucket isHash)
  unfold testcases
  by_cases tree : mode = 0
  · rw [if_pos tree]
    obtain ⟨S, A', created, granted', t, inv, empty⟩ := fresh .rbtree
    exact ⟨S, A', created, tree_repeats inv empty granted' count⟩
  by_cases array : mode = 1
  · rw [if_neg tree, if_pos array]
    obtain ⟨S, A', created, granted', dense⟩ := fresh .array
    exact ⟨S, A', created, array_repeats dense granted' count⟩
  by_cases mix : mode = 2
  · rw [if_neg tree, if_neg array, if_pos mix]
    obtain ⟨S, A', created, granted', t, inv, empty⟩ := fresh .rbtree
    have noDel : ∀ r ∈ mixRequests count, ∀ key, r ≠ .del key := by
      intro r member key
      simp only [mixRequests, List.mem_append, List.mem_map] at member
      rcases member with (⟨i, -, rfl⟩ | ⟨i, -, rfl⟩) | ⟨i, -, rfl⟩ <;> simp [rset, rget, rmod]
    obtain ⟨S', B, t', passes, -⟩ := tree_passes inv granted' (mixRequests_sayable count)
      (soleAll_of noDel)
    rw [empty, Entries.view_nil, ← mixCases_eq int] at passes
    exact ⟨S, A', created, S', B, passes⟩
  rw [if_neg tree, if_neg array, if_neg mix]
  by_cases hash : mode = 3
  · rw [if_pos hash]
    obtain ⟨S, A', created, granted', mirrors⟩ := fresh .hash
    obtain ⟨S', B, passes, -⟩ := list_nine (by decide) mirrors granted' ⟨hash, rfl⟩
    exact ⟨S, A', created, S', B, passes⟩
  · rw [if_neg hash]
    obtain ⟨S, A', created, -⟩ := fresh .array
    exact ⟨S, A', created, S, A', .nil⟩

/-- `testcase <ip> <port> 3` on cleared memory. -/
theorem testcases_pass_hash : ∃ bound, ∀ fuel, bound ≤ fuel → ∃ S B,
    testRun fuel 3 10000 .cleared = .ok (((testcases 3 10000).map fun _ => true, S), B) := by
  refine testcases_pass Allocator.cleared_allSucceed 3 (by decide) fun _ S B created => ?_
  have run : initKvengine .cleared = .ok (_, _) := rfl
  rw [run] at created
  cases created
  exact ⟨700, _, [], by rfl, rfl, rfl⟩

end Modes

end LinuxCpp.Kvstore
