import LinuxCpp.C.Bytes
import LinuxCpp.C.Strtok

set_option autoImplicit false

/- What the tokens of a string are, the maximal runs of bytes other than the delimiter,
and `strtok` on the memory that it writes into. -/
namespace LinuxCpp.C

/-- A maximal run of bytes other than the delimiter begins at `i`. -/
def IsRun (delim : UInt8) (p : List UInt8) (i : Nat) (run : List UInt8) : Prop :=
  ∃ pre post, p = pre ++ (run ++ post) ∧ pre.length = i ∧ run ≠ [] ∧ delim ∉ run ∧
    (pre = [] ∨ [delim] <:+ pre) ∧ (post = [] ∨ [delim] <+: post)

/-- All the runs, each with its start, in order. -/
structure Runs (delim : UInt8) (p : List UInt8) (rs : List (Nat × List UInt8)) : Prop where
  mem_iff : ∀ i run, (i, run) ∈ rs ↔ IsRun delim p i run
  increasing : rs.Pairwise fun r r' => r.1 < r'.1

section Shape

variable {delim : UInt8} {p blanks word rest : List UInt8} {rs rs' : List (Nat × List UInt8)}

theorem mem_of_begins {b : UInt8} {xs ys : List UInt8} (first : [b] <+: xs ++ ys)
    (nonempty : xs ≠ []) : b ∈ xs := by
  cases xs with
  | nil => exact absurd rfl nonempty
  | cons x xs =>
      rw [List.cons_append, List.cons_prefix_cons] at first
      rw [first.1]
      exact List.mem_cons_self

theorem suffix_of_append {b : UInt8} {xs ys : List UInt8} (last : [b] <:+ xs ++ ys)
    (nonempty : ys ≠ []) : [b] <:+ ys :=
  List.suffix_of_suffix_length_le last (List.suffix_append xs ys)
    (List.length_pos_of_ne_nil nonempty)

theorem isRun_blank (blank : ∀ b ∈ p, b = delim) (i : Nat) (run : List UInt8) :
    ¬ IsRun delim p i run := by
  rintro ⟨pre, post, rfl, -, nonempty, free, -⟩
  obtain ⟨b, inside⟩ := List.exists_mem_of_ne_nil run nonempty
  obtain rfl := blank b (by simp [inside])
  exact free inside

/-- A delimiter in front is no part of a run. -/
theorem isRun_delim {i : Nat} {run : List UInt8} :
    IsRun delim (delim :: p) i run ↔ ∃ j, i = 1 + j ∧ IsRun delim p j run := by
  constructor
  · rintro ⟨pre, post, whole, rfl, nonempty, free, before, behind⟩
    cases pre with
    | nil =>
        have first : [delim] <+: run ++ post := ⟨p, whole⟩
        exact absurd (mem_of_begins first nonempty) free
    | cons b pre =>
        rw [List.cons_append, List.cons.injEq] at whole
        refine ⟨pre.length, Nat.add_comm _ _, pre, post, whole.2, rfl, nonempty, free, ?_, behind⟩
        have last := before.resolve_left (List.cons_ne_nil b pre)
        exact (List.suffix_cons_iff.mp last).imp (fun same => (List.cons.inj same).2.symm) id
  · rintro ⟨j, rfl, pre, post, rfl, rfl, nonempty, free, before, behind⟩
    refine ⟨delim :: pre, post, rfl, Nat.add_comm _ _, nonempty, free, .inr ?_, behind⟩
    rcases before with rfl | last
    · exact List.suffix_rfl
    · exact last.trans (List.suffix_cons delim pre)

theorem isRun_blanks (blank : ∀ b ∈ blanks, b = delim) {i : Nat} {run : List UInt8} :
    IsRun delim (blanks ++ p) i run ↔ ∃ j, i = blanks.length + j ∧ IsRun delim p j run := by
  induction blanks generalizing i with
  | nil => simp
  | cons b blanks ih =>
      obtain rfl := blank b List.mem_cons_self
      have later := fun {i} => ih (fun c member => blank c (List.mem_cons_of_mem _ member)) (i := i)
      rw [List.cons_append, isRun_delim]
      constructor
      · rintro ⟨j, rfl, behind⟩
        obtain ⟨k, rfl, found⟩ := later.mp behind
        exact ⟨k, by rw [List.length_cons]; omega, found⟩
      · rintro ⟨k, rfl, found⟩
        exact ⟨blanks.length + k, by rw [List.length_cons]; omega, later.mpr ⟨k, rfl, found⟩⟩

/-- A word in front is the first run, if a delimiter or the end follows it. -/
theorem isRun_word (nonempty : word ≠ []) (free : delim ∉ word)
    (boundary : rest = [] ∨ [delim] <+: rest) {i : Nat} {run : List UInt8} :
    IsRun delim (word ++ rest) i run ↔
      (i = 0 ∧ run = word) ∨ ∃ j, i = word.length + j ∧ IsRun delim rest j run := by
  constructor
  · rintro ⟨pre, post, whole, rfl, some_, free', before, behind⟩
    rcases List.append_eq_append_iff.mp whole with ⟨as, rfl, tail⟩ | ⟨as, rfl, tail⟩
    · -- the run begins behind the word
      refine .inr ⟨as.length, List.length_append, as, post, tail, rfl, some_, free', ?_, behind⟩
      by_cases empty : as = []
      · exact .inl empty
      · have last := before.resolve_left (by simp [nonempty])
        exact .inr (suffix_of_append last empty)
    · -- or in it, and then in front
      have front : pre = [] := by
        rcases before with empty | last
        · exact empty
        · exact absurd (List.mem_append_left as (last.subset List.mem_cons_self)) free
      subst front
      refine .inl ⟨rfl, ?_⟩
      rw [List.nil_append] at free ⊢
      rcases List.append_eq_append_iff.mp tail with ⟨bs, rfl, seam⟩ | ⟨bs, rfl, seam⟩
      · by_cases empty : bs = []
        · rw [empty, List.append_nil]
        · subst seam
          have first := behind.resolve_left (by simp [empty])
          exact absurd (List.mem_append_right run (mem_of_begins first empty)) free
      · by_cases empty : bs = []
        · rw [empty, List.append_nil]
        · subst seam
          have first := boundary.resolve_left (by simp [empty])
          exact absurd (List.mem_append_right as (mem_of_begins first empty)) free'
  · rintro (⟨rfl, rfl⟩ | ⟨j, rfl, pre, post, rfl, rfl, some_, free', before, behind⟩)
    · exact ⟨[], rest, rfl, rfl, nonempty, free, .inl rfl, boundary⟩
    · refine ⟨word ++ pre, post, (List.append_assoc _ _ _).symm, List.length_append, some_, free',
        .inr ?_, behind⟩
      rcases before with rfl | last
      · have first : [delim] <+: run ++ post := boundary.resolve_left (by simp [some_])
        exact absurd (mem_of_begins first some_) free'
      · exact last.trans (List.suffix_append word pre)

theorem Runs.unique (runs : Runs delim p rs) (runs' : Runs delim p rs') : rs = rs' := by
  have same : ∀ r, r ∈ rs ↔ r ∈ rs' := fun r =>
    (runs.mem_iff r.1 r.2).trans (runs'.mem_iff r.1 r.2).symm
  have nodup {ts : List (Nat × List UInt8)} (ts_ : ts.Pairwise fun r r' => r.1 < r'.1) : ts.Nodup :=
    ts_.imp fun below same => absurd (congrArg Prod.fst same) below.ne
  have perm : rs.Perm rs' :=
    (List.perm_ext_iff_of_nodup (nodup runs.increasing) (nodup runs'.increasing)).mpr same
  exact perm.eq_of_pairwise (fun r r' _ _ below above => absurd below above.asymm)
    runs.increasing runs'.increasing

theorem Runs.subset (runs : Runs delim p rs) {r : Nat × List UInt8} (member : r ∈ rs) :
    r.2 ⊆ p := by
  obtain ⟨pre, post, rfl, -⟩ := (runs.mem_iff r.1 r.2).mp member
  intro b inside
  simp [inside]

theorem Runs.blank (blank : ∀ b ∈ p, b = delim) : Runs delim p [] where
  mem_iff i run := by simp [isRun_blank blank i run]
  increasing := .nil

theorem Runs.last (blank : ∀ b ∈ blanks, b = delim) (nonempty : word ≠ []) (free : delim ∉ word) :
    Runs delim (blanks ++ word) [(blanks.length, word)] where
  mem_iff i run := by
    have nothing (j : Nat) : ¬ IsRun delim [] j run := isRun_blank (by simp) j run
    have alone {i : Nat} : IsRun delim word i run ↔ i = 0 ∧ run = word := by
      have first : IsRun delim (word ++ []) i run ↔ _ := isRun_word nonempty free (.inl rfl)
      simpa only [List.append_nil, nothing, and_false, exists_false, or_false] using first
    rw [isRun_blanks blank, List.mem_singleton, Prod.mk.injEq]
    constructor
    · rintro ⟨rfl, rfl⟩
      exact ⟨0, rfl, alone.mpr ⟨rfl, rfl⟩⟩
    · rintro ⟨j, rfl, found⟩
      obtain ⟨rfl, same⟩ := alone.mp found
      exact ⟨rfl, same⟩
  increasing := List.pairwise_singleton _ _

theorem Runs.ended (blank : ∀ b ∈ blanks, b = delim) (nonempty : word ≠ []) (free : delim ∉ word)
    (runs : Runs delim rest rs) :
    Runs delim (blanks ++ (word ++ delim :: rest))
      ((blanks.length, word) :: rs.map fun r => (blanks.length + word.length + 1 + r.1, r.2)) where
  mem_iff i run := by
    have boundary : delim :: rest = [] ∨ [delim] <+: delim :: rest := .inr ⟨rest, rfl⟩
    rw [isRun_blanks blank, List.mem_cons, Prod.mk.injEq, List.mem_map]
    constructor
    · rintro (⟨rfl, rfl⟩ | ⟨⟨j, run'⟩, member, moved⟩)
      · exact ⟨0, rfl, (isRun_word nonempty free boundary).mpr (.inl ⟨rfl, rfl⟩)⟩
      · obtain ⟨rfl, rfl⟩ := Prod.mk.inj moved
        have found := isRun_delim.mpr ⟨j, rfl, (runs.mem_iff j run').mp member⟩
        refine ⟨word.length + (1 + j), by omega, ?_⟩
        exact (isRun_word nonempty free boundary).mpr (.inr ⟨_, rfl, found⟩)
    · rintro ⟨j, rfl, found⟩
      rcases (isRun_word nonempty free boundary).mp found with ⟨rfl, same⟩ | ⟨k, rfl, behind⟩
      · exact .inl ⟨rfl, same⟩
      · obtain ⟨l, rfl, later⟩ := isRun_delim.mp behind
        refine .inr ⟨(l, run), (runs.mem_iff l run).mpr later, Prod.ext ?_ rfl⟩
        simp only
        omega
  increasing := by
    rw [List.pairwise_cons, List.pairwise_map]
    constructor
    · intro r member
      obtain ⟨r', -, rfl⟩ := List.mem_map.mp member
      have := List.length_pos_of_ne_nil nonempty
      simp only
      omega
    · exact runs.increasing.imp fun below => Nat.add_lt_add_left below _

/-- The runs are the words, each at its place. -/
theorem exists_runs (delim : UInt8) (p : List UInt8) :
    ∃ rs, Runs delim p rs ∧ rs.map Prod.snd = words delim p := by
  induction p using word_induction delim with
  | blank p blank => exact ⟨[], .blank blank, (words_blank blank).symm⟩
  | last blanks word blank nonempty free =>
      exact ⟨_, .last blank nonempty free, (words_last blank nonempty free).symm⟩
  | ended blanks word rest blank nonempty free ih =>
      obtain ⟨rs, runs, same⟩ := ih
      refine ⟨_, .ended blank nonempty free runs, ?_⟩
      rw [words_ended blank nonempty free, ← same, List.map_cons, List.map_map]
      rfl

theorem Runs.map_snd (runs : Runs delim p rs) : rs.map Prod.snd = words delim p := by
  obtain ⟨rs', runs', same⟩ := exists_runs delim p
  rw [runs.unique runs', same]

theorem Runs.length (runs : Runs delim p rs) : rs.length = (words delim p).length := by
  rw [← runs.map_snd, List.length_map]

end Shape

section Memory

/-- How many bytes stand in front of the first one that stops the scan. -/
def spanTo (stop : UInt8 → Bool) : List UInt8 → Except Fault Nat
  | [] => .error .unterminated
  | b :: rest => if stop b then .ok 0 else (spanTo stop rest).map (· + 1)

def strspn (delim : UInt8) : List UInt8 → Except Fault Nat := spanTo fun b => b ≠ delim

def strcspn (delim : UInt8) : List UInt8 → Except Fault Nat :=
  spanTo fun b => b = 0 ∨ b = delim

/-- `strtok` with the pointer that it has saved: the memory with the token ended by a NUL,
the pointer saved for the next call, and the token's place. -/
def strtokAt (delim : UInt8) (mem : List UInt8) (save : Nat) :
    Except Fault (List UInt8 × Nat × Option Nat) := do
  let start := save + (← strspn delim (mem.drop save))
  if mem[start]? = some 0 then return (mem, start, none)
  let stop := start + (← strcspn delim (mem.drop start))
  if mem[stop]? = some 0 then return (mem, stop, some start)
  let mem ← storeAt mem stop [0]
  return (mem, stop + 1, some start)

variable {delim b : UInt8} {pre blanks word rest : List UInt8}

theorem spanTo_stop {stop : UInt8 → Bool} {front : List UInt8}
    (on : ∀ c ∈ front, stop c = false) (off : stop b = true) :
    spanTo stop (front ++ b :: rest) = .ok front.length := by
  induction front with
  | nil =>
      rw [List.nil_append, spanTo, if_pos off]
      rfl
  | cons c front ih =>
      rw [List.cons_append, spanTo, if_neg (by simp [on c List.mem_cons_self]),
        ih fun d member => on d (List.mem_cons_of_mem _ member)]
      rfl

theorem strspn_blanks (blank : ∀ c ∈ blanks, c = delim) (other : b ≠ delim) :
    strspn delim (blanks ++ b :: rest) = .ok blanks.length :=
  spanTo_stop (fun c member => by simp [blank c member]) (by simp [other])

theorem strcspn_word (free : delim ∉ word) (noNul : (0 : UInt8) ∉ word) (ends : b = 0 ∨ b = delim) :
    strcspn delim (word ++ b :: rest) = .ok word.length := by
  refine spanTo_stop (fun c member => ?_) (by simpa using ends)
  have notNul : c ≠ 0 := fun same => noNul (same ▸ member)
  have notDelim : c ≠ delim := fun same => free (same ▸ member)
  simp [notNul, notDelim]

theorem strtokAt_blank (blank : ∀ c ∈ blanks, c = delim) (notNul : delim ≠ 0) :
    strtokAt delim (pre ++ (blanks ++ 0 :: rest)) pre.length =
      .ok (pre ++ (blanks ++ 0 :: rest), pre.length + blanks.length, none) := by
  simp only [strtokAt, List.drop_left]
  rw [strspn_blanks blank notNul.symm, ok_bind, if_pos (by simp)]
  rfl

/-- A word is ended by a NUL, wherever it ends. -/
theorem strtokAt_word (blank : ∀ c ∈ blanks, c = delim) (nonempty : word ≠ []) (free : delim ∉ word)
    (noNul : (0 : UInt8) ∉ word) (ends : b = 0 ∨ b = delim) :
    strtokAt delim (pre ++ (blanks ++ (word ++ b :: rest))) pre.length =
      .ok (pre ++ (blanks ++ (word ++ 0 :: rest)),
        pre.length + blanks.length + word.length + (if b = 0 then 0 else 1),
        some (pre.length + blanks.length)) := by
  obtain ⟨c, word, rfl⟩ := List.exists_cons_of_ne_nil nonempty
  have other : c ≠ delim := fun same => free (by simp [same])
  have notNul : c ≠ 0 := fun same => noNul (by simp [same])
  have front : (pre ++ blanks).length = pre.length + blanks.length := List.length_append
  have inside : (pre ++ blanks ++ c :: word).length =
      pre.length + blanks.length + (c :: word).length := by rw [List.length_append, front]
  rw [← List.append_assoc pre, ← List.append_assoc pre]
  have first : (pre ++ blanks ++ (c :: word ++ b :: rest))[pre.length + blanks.length]? =
      some c := by
    rw [← front]
    simp
  have last : (pre ++ blanks ++ (c :: word ++ b :: rest))[
      pre.length + blanks.length + (c :: word).length]? = some b := by
    rw [← inside, ← List.append_assoc]
    simp
  have spaces : (pre ++ blanks ++ (c :: word ++ b :: rest)).drop pre.length =
      blanks ++ (c :: word ++ b :: rest) := by simp
  have token : (pre ++ blanks ++ (c :: word ++ b :: rest)).drop (pre.length + blanks.length) =
      c :: word ++ b :: rest := by rw [← front, List.drop_left]
  simp only [strtokAt]
  rw [spaces, List.cons_append, strspn_blanks blank other, ok_bind, ← List.cons_append, first,
    if_neg (by simpa using notNul), token, strcspn_word free noNul ends, ok_bind, last]
  by_cases nul : b = 0
  · rw [nul, if_pos rfl, if_pos rfl]
    rfl
  · rw [if_neg (by simpa using nul), if_neg nul, ← List.append_assoc, ← List.append_assoc]
    have written : storeAt (pre ++ blanks ++ c :: word ++ ([b] ++ rest))
        (pre.length + blanks.length + (c :: word).length) [0] =
        .ok (pre ++ blanks ++ c :: word ++ ([0] ++ rest)) := storeAt_append inside rfl
    rw [List.singleton_append] at written
    rw [written]
    rfl

/-- The word at the end of the string: the next call begins at its NUL. -/
theorem strtokAt_last (blank : ∀ c ∈ blanks, c = delim) (nonempty : word ≠ []) (free : delim ∉ word)
    (noNul : (0 : UInt8) ∉ word) :
    strtokAt delim (pre ++ (blanks ++ word ++ 0 :: rest)) pre.length =
      .ok (pre ++ blanks ++ word ++ ([] ++ 0 :: rest), (pre ++ blanks ++ word).length,
        some (pre.length + blanks.length)) := by
  rw [List.append_assoc blanks, strtokAt_word blank nonempty free noNul (.inl rfl), if_pos rfl]
  simp only [List.append_assoc, List.nil_append, List.length_append, Nat.add_assoc, Nat.add_zero]

/-- A word in front of a delimiter: the next call begins behind the NUL written over it. -/
theorem strtokAt_ended (blank : ∀ c ∈ blanks, c = delim) (nonempty : word ≠ [])
    (free : delim ∉ word) (noNul : (0 : UInt8) ∉ word) (notNul : delim ≠ 0) :
    strtokAt delim (pre ++ (blanks ++ (word ++ delim :: rest))) pre.length =
      .ok (pre ++ blanks ++ word ++ [0] ++ rest, (pre ++ blanks ++ word ++ [0]).length,
        some (pre.length + blanks.length)) := by
  rw [strtokAt_word blank nonempty free noNul (.inr rfl), if_neg notNul]
  simp only [List.append_assoc, List.singleton_append, List.length_append, List.length_singleton,
    Nat.add_assoc]

end Memory

end LinuxCpp.C
