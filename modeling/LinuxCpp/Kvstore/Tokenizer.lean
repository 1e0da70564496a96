import LinuxCpp.C.Tokens
import LinuxCpp.Kvstore.ProtocolSplit

set_option autoImplicit false

/- `kvs_split_token` with the message that `strtok` writes into and the array that takes
the tokens. Nothing compares the index with the size of the array. -/
namespace LinuxCpp.Kvstore

open C

/-- The message, the pointers to its tokens and their number. -/
structure Split where
  mem : List UInt8
  tokens : List (Option Nat)
  count : Nat
deriving DecidableEq, Repr

/-- `char *tokens[KVS_MAX_TOKENS] = {0}`; a pointer is an index of the message. -/
def noTokens : List (Option Nat) := List.replicate kvsMaxTokens none

/-- The loop of `kvs_split_token` from `tokens[idx]` on. -/
def splitLoopAt : Nat → List UInt8 → Nat → List (Option Nat) → Nat → Except Fault Split
  | 0, _, _, _, _ => .error .fuel
  | fuel + 1, mem, save, tokens, idx => do
      match ← strtokAt 32 mem save with
      | (mem, _, none) => return ⟨mem, tokens, idx⟩
      | (mem, save, some token) =>
          if idx < tokens.length then
            splitLoopAt fuel mem save (tokens.set idx (some token)) (idx + 1)
          else
            throw .outOfBounds

def kvsSplitTokenAt (msg : List UInt8) (tokens : List (Option Nat)) : Except Fault Split :=
  splitLoopAt (msg.length + 1) msg 0 tokens 0

/-- The strings that the pointers point to. -/
def Split.strings (s : Split) : List CStr :=
  (s.tokens.take s.count).filterMap fun token => token.map fun i => CStr.upToNul (s.mem.drop i)

/-- The array holds the maximal runs of the message, in order and nothing else, and each of
its pointers points to its run. -/
def Tokenized (msg : CStr) (s : Split) : Prop :=
  ∃ rs, Runs 32 msg.bytes rs ∧ s.count = rs.length ∧
    s.tokens = rs.map (fun r => some r.1) ++ noTokens.drop rs.length ∧
    ∀ r ∈ rs, (CStr.upToNul (s.mem.drop r.1)).bytes = r.2

section Loop

variable {fuel save save' token : Nat} {mem mem' pre p : List UInt8}
  {stored left : List (Option Nat)} {rs : List (Nat × List UInt8)}

theorem splitLoopAt_stop (next : strtokAt 32 mem save = .ok (mem', save', none))
    (tokens : List (Option Nat)) (idx : Nat) :
    splitLoopAt (fuel + 1) mem save tokens idx = .ok ⟨mem', tokens, idx⟩ := by
  rw [splitLoopAt, next]
  rfl

theorem splitLoopAt_step (next : strtokAt 32 mem save = .ok (mem', save', some token))
    (cell : Option Nat) : splitLoopAt (fuel + 1) mem save (stored ++ cell :: left) stored.length =
      splitLoopAt fuel mem' save' (stored ++ [some token] ++ left)
        (stored ++ [some token]).length := by
  have inside : stored.length < (stored ++ cell :: left).length := by simp
  rw [splitLoopAt, next, ok_bind]
  simp only [inside, if_true]
  simp

theorem splitLoopAt_over (next : strtokAt 32 mem save = .ok (mem', save', some token)) :
    splitLoopAt (fuel + 1) mem save stored stored.length = .error .outOfBounds := by
  rw [splitLoopAt, next, ok_bind]
  simp only [lt_irrefl, if_false]
  rfl

/-- The loop from a place of the message on: every run of the rest gets its cell. -/
theorem splitLoopAt_runs (noNul : (0 : UInt8) ∉ p) (behind : List UInt8) (runs : Runs 32 p rs)
    (enough : p.length + 1 < fuel) (room : rs.length ≤ left.length) :
    ∃ p', p'.length = p.length ∧
      splitLoopAt fuel (pre ++ (p ++ 0 :: behind)) pre.length (stored ++ left) stored.length =
        .ok ⟨pre ++ (p' ++ 0 :: behind),
          stored ++ (rs.map (fun r => some (pre.length + r.1)) ++ left.drop rs.length),
          stored.length + rs.length⟩ ∧
      ∀ r ∈ rs, ∃ tail, (p' ++ 0 :: behind).drop r.1 = r.2 ++ 0 :: tail := by
  obtain ⟨fuel, rfl⟩ : ∃ m, fuel = m + 2 := ⟨fuel - 2, by omega⟩
  induction p using word_induction 32 generalizing pre fuel stored left rs with
  | blank p blank =>
      obtain rfl := runs.unique (.blank blank)
      refine ⟨p, rfl, ?_, by simp⟩
      rw [splitLoopAt_stop (strtokAt_blank blank (by decide))]
      simp
  | last blanks word blank nonempty free =>
      have wordNoNul : (0 : UInt8) ∉ word := fun member => noNul (by simp [member])
      obtain rfl := runs.unique (.last blank nonempty free)
      obtain ⟨cell, left, rfl⟩ := List.exists_cons_of_ne_nil (List.ne_nil_of_length_pos room)
      refine ⟨blanks ++ word, rfl, ?_, by simp⟩
      rw [splitLoopAt_step (strtokAt_last blank nonempty free wordNoNul),
        splitLoopAt_stop (strtokAt_blank (by simp) (by decide))]
      simp
  | ended blanks word rest blank nonempty free ih =>
      have wordNoNul : (0 : UInt8) ∉ word := fun member => noNul (by simp [member])
      have restNoNul : (0 : UInt8) ∉ rest := fun member => noNul (by simp [member])
      obtain ⟨rs', runs', -⟩ := exists_runs 32 rest
      obtain rfl := runs.unique (.ended blank nonempty free runs')
      obtain ⟨cell, left, rfl⟩ := List.exists_cons_of_ne_nil
        (List.ne_nil_of_length_pos (Nat.lt_of_lt_of_le Nat.succ_pos' room))
      simp only [List.length_append, List.length_cons, List.length_map] at enough room
      obtain ⟨fuel, rfl⟩ : ∃ m, fuel = m + 1 := ⟨fuel - 1, by omega⟩
      obtain ⟨rest', same, ran, found⟩ := @ih (pre ++ blanks ++ word ++ [0])
        (stored ++ [some (pre.length + blanks.length)]) left rs' restNoNul runs' (by omega) fuel
        (by omega)
      refine ⟨blanks ++ (word ++ 0 :: rest'), ?_, ?_, ?_⟩
      · simp only [List.length_append, List.length_cons, same]
      · rw [List.append_assoc blanks, List.append_assoc word, List.cons_append,
          splitLoopAt_step (strtokAt_ended blank nonempty free wordNoNul (by decide)), ran]
        simp [Function.comp_def, Nat.add_assoc, Nat.add_comm 1]
      · intro r member
        rcases List.mem_cons.mp member with rfl | behind_
        · exact ⟨rest' ++ 0 :: behind, by simp⟩
        · obtain ⟨r', member', rfl⟩ := List.mem_map.mp behind_
          obtain ⟨tail, here⟩ := found r' member'
          refine ⟨tail, ?_⟩
          have shape : blanks ++ (word ++ 0 :: rest') ++ 0 :: behind =
              blanks ++ word ++ [0] ++ (rest' ++ 0 :: behind) := by simp
          have front : (blanks ++ word ++ [0]).length = blanks.length + word.length + 1 := by
            simp only [List.length_append, List.length_singleton]
          rw [shape, ← front, ← List.drop_drop, List.drop_left, here]

/-- One run more than there are cells. -/
theorem splitLoopAt_full (noNul : (0 : UInt8) ∉ p) (behind : List UInt8) (runs : Runs 32 p rs)
    (enough : p.length < fuel) (many : left.length < rs.length) :
    splitLoopAt fuel (pre ++ (p ++ 0 :: behind)) pre.length (stored ++ left) stored.length =
      .error .outOfBounds := by
  obtain ⟨fuel, rfl⟩ : ∃ m, fuel = m + 1 := ⟨fuel - 1, by omega⟩
  induction p using word_induction 32 generalizing pre fuel stored left rs with
  | blank p blank =>
      obtain rfl := runs.unique (.blank blank)
      cases many
  | last blanks word blank nonempty free =>
      have wordNoNul : (0 : UInt8) ∉ word := fun member => noNul (by simp [member])
      obtain rfl := runs.unique (.last blank nonempty free)
      obtain rfl := List.length_eq_zero_iff.mp (Nat.lt_one_iff.mp many)
      rw [List.append_nil, splitLoopAt_over (strtokAt_last blank nonempty free wordNoNul)]
  | ended blanks word rest blank nonempty free ih =>
      have wordNoNul : (0 : UInt8) ∉ word := fun member => noNul (by simp [member])
      have restNoNul : (0 : UInt8) ∉ rest := fun member => noNul (by simp [member])
      obtain ⟨rs', runs', -⟩ := exists_runs 32 rest
      obtain rfl := runs.unique (.ended blank nonempty free runs')
      simp only [List.length_append, List.length_cons, List.length_map] at enough many
      obtain ⟨fuel, rfl⟩ : ∃ m, fuel = m + 1 := ⟨fuel - 1, by omega⟩
      rw [List.append_assoc blanks, List.append_assoc word, List.cons_append]
      cases left with
      | nil =>
          rw [List.append_nil, splitLoopAt_over
            (strtokAt_ended blank nonempty free wordNoNul (by decide))]
      | cons cell left =>
          rw [splitLoopAt_step (strtokAt_ended blank nonempty free wordNoNul (by decide))]
          rw [List.length_cons] at many
          exact ih restNoNul runs' (by omega) fuel (by omega)

end Loop

section Message

variable {msg : CStr} {rs : List (Nat × List UInt8)}

theorem kvsSplitTokenAt_runs (behind : List UInt8) (runs : Runs 32 msg.bytes rs)
    (room : rs.length ≤ kvsMaxTokens) :
    ∃ s, kvsSplitTokenAt (msg.bytes ++ 0 :: behind) noTokens = .ok s ∧ s.count = rs.length ∧
      s.tokens = rs.map (fun r => some r.1) ++ noTokens.drop rs.length ∧
      ∀ r ∈ rs, (CStr.upToNul (s.mem.drop r.1)).bytes = r.2 := by
  obtain ⟨mem, -, ran, found⟩ := @splitLoopAt_runs ((msg.bytes ++ 0 :: behind).length + 1) []
    msg.bytes [] noTokens rs msg.noNul behind runs
    (by simp only [List.length_append, List.length_cons]; omega)
    (by rw [noTokens, List.length_replicate]; exact room)
  refine ⟨_, ran, Nat.zero_add _, by simp, fun r member => ?_⟩
  obtain ⟨tail, here⟩ := found r member
  have noNul : (0 : UInt8) ∉ r.2 := fun inside => msg.noNul (runs.subset member inside)
  exact (congrArg (fun p => (CStr.upToNul p).bytes) here).trans (CStr.upToNul_terminated noNul tail)

theorem kvsSplitTokenAt_full (behind : List UInt8) (runs : Runs 32 msg.bytes rs)
    (many : kvsMaxTokens < rs.length) :
    kvsSplitTokenAt (msg.bytes ++ 0 :: behind) noTokens = .error .outOfBounds :=
  @splitLoopAt_full _ [] msg.bytes [] noTokens rs msg.noNul behind runs
    (by simp only [List.length_append, List.length_cons]; omega)
    (by rw [noTokens, List.length_replicate]; exact many)

/-- The tokens of a message are its maximal runs exactly if the array can hold them; if it
cannot, the loop writes behind the array. -/
theorem kvsSplitTokenAt_tokenized_iff (msg : CStr) (behind : List UInt8) :
    (∃ s, kvsSplitTokenAt (msg.bytes ++ 0 :: behind) noTokens = .ok s ∧ Tokenized msg s) ↔
      (words 32 msg.bytes).length ≤ kvsMaxTokens := by
  obtain ⟨rs, runs, -⟩ := exists_runs 32 msg.bytes
  rw [← runs.length]
  constructor
  · rintro ⟨s, ran, -⟩
    by_contra many
    rw [kvsSplitTokenAt_full behind runs (not_le.mp many)] at ran
    cases ran
  · intro room
    obtain ⟨s, ran, tokenized⟩ := kvsSplitTokenAt_runs behind runs room
    exact ⟨s, ran, rs, runs, tokenized⟩

end Message

/-- The list of tokens that `kvs_filter_protocol` is given is what the pointers point to. -/
theorem kvsSplitToken_refines (msg : CStr) (behind : List UInt8) :
    kvsSplitToken (msg.bytes ++ 0 :: behind) =
      (kvsSplitTokenAt (msg.bytes ++ 0 :: behind) noTokens).map Split.strings := by
  obtain ⟨rs, runs, same⟩ := exists_runs 32 msg.bytes
  rw [kvsSplitToken_words msg.noNul, ← same, List.length_map, List.map_map]
  by_cases room : rs.length ≤ kvsMaxTokens
  · obtain ⟨s, ran, count, tokens, found⟩ := kvsSplitTokenAt_runs behind runs room
    rw [if_pos room, ran]
    have taken : s.tokens.take s.count = rs.map fun r => some r.1 := by
      rw [count, tokens, List.take_left' (List.length_map _)]
    have strings : s.strings = rs.map fun r => CStr.upToNul (s.mem.drop r.1) := by
      rw [Split.strings, taken, List.filterMap_map]
      exact congrFun (List.filterMap_eq_map (f := fun r => CStr.upToNul (s.mem.drop r.1))) rs
    rw [Except.map, strings]
    refine congrArg Except.ok (List.map_congr_left fun r member => CStr.ext ?_)
    rw [found r member]
    exact CStr.upToNul_bytes fun inside => msg.noNul (runs.subset member inside)
  · rw [if_neg room, kvsSplitTokenAt_full behind runs (not_le.mp room)]
    rfl

/-- 129 one-letter words, in 258 bytes. -/
def manyWords : CStr := ⟨filler 129, noNul_filler 129⟩

theorem filler_length (n : Nat) : (filler n).length = 2 * n := by
  induction n with
  | zero => rfl
  | succ n ih =>
      rw [filler, List.length_cons, List.length_cons, ih]
      omega

theorem words_filler (n : Nat) : (words 32 (filler n)).length = n := by
  induction n with
  | zero => rfl
  | succ n ih =>
      have step : words 32 ([] ++ ([120] ++ 32 :: filler n)) = [120] :: words 32 (filler n) :=
        words_ended (by simp) (by simp) (by decide) (filler n)
      have length := congrArg List.length step
      rwa [List.length_cons, ih] at length

theorem manyWords_overrun : manyWords.length ≤ 1024 ∧
    ¬ ∃ s, kvsSplitTokenAt (manyWords.bytes ++ [0]) noTokens = .ok s ∧ Tokenized manyWords s := by
  refine ⟨?_, ?_⟩
  · rw [CStr.length, manyWords, filler_length]
    decide
  rintro ⟨s, ran, -⟩
  obtain ⟨rs, runs, -⟩ := exists_runs 32 manyWords.bytes
  have many : kvsMaxTokens < rs.length := by
    rw [runs.length, manyWords, words_filler]
    decide
  rw [kvsSplitTokenAt_full [] runs many] at ran
  cases ran

end LinuxCpp.Kvstore
