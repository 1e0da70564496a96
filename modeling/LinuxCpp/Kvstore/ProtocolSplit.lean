import LinuxCpp.Kvstore.Protocol

set_option autoImplicit false

namespace LinuxCpp.Kvstore

open C

section Split

variable {p : List UInt8}

theorem splitLoop_step {fuel idx : Nat} {bytes rest : List UInt8} {token : CStr}
    (next : strtok 32 bytes = .ok (some (token, rest))) :
    splitLoop (fuel + 1) idx bytes = if idx < kvsMaxTokens then
      (splitLoop fuel (idx + 1) rest).map (token :: ·) else .error .outOfBounds := by
  rw [splitLoop, next, ok_bind]
  simp only
  split
  · cases splitLoop fuel (idx + 1) rest <;> rfl
  · rfl

theorem splitLoop_stop {fuel idx : Nat} {bytes : List UInt8} (none : strtok 32 bytes = .ok none) :
    splitLoop (fuel + 1) idx bytes = .ok [] := by
  rw [splitLoop, none]
  rfl

/-- The loop on a NUL-terminated string: its words, if `tokens` can hold them. -/
theorem splitLoop_words {fuel idx : Nat} (noNul : (0 : UInt8) ∉ p) (behind : List UInt8)
    (enough : p.length + 1 < fuel) (bound : idx ≤ kvsMaxTokens) :
    splitLoop fuel idx (p ++ 0 :: behind) =
      if idx + (words 32 p).length ≤ kvsMaxTokens then .ok ((words 32 p).map CStr.upToNul)
      else .error .outOfBounds := by
  obtain ⟨fuel, rfl⟩ : ∃ m, fuel = m + 2 := ⟨fuel - 2, by omega⟩
  induction p using word_induction 32 generalizing fuel idx with
  | blank p blank =>
      rw [splitLoop_stop (strtok_blank blank (by decide) behind), words_blank blank,
        if_pos (by simpa using bound)]
      rfl
  | last blanks word blank nonempty free =>
      have wordNoNul : (0 : UInt8) ∉ word := fun member => noNul (by simp [member])
      have stop : strtok 32 (0 :: behind) = .ok none :=
        List.nil_append (0 :: behind) ▸ strtok_blank (by simp) (by decide) behind
      rw [List.append_assoc, splitLoop_step (strtok_last blank nonempty free wordNoNul behind),
        splitLoop_stop stop, words_last blank nonempty free]
      simp only [List.length_cons, List.length_nil, Nat.zero_add]
      split <;> split
      · rfl
      · omega
      · omega
      · rfl
  | ended blanks word rest blank nonempty free ih =>
      have wordNoNul : (0 : UInt8) ∉ word := fun member => noNul (by simp [member])
      have restNoNul : (0 : UInt8) ∉ rest := fun member => noNul (by simp [member])
      have shape : blanks ++ (word ++ 32 :: rest) ++ 0 :: behind =
          blanks ++ (word ++ 32 :: (rest ++ 0 :: behind)) := by simp
      simp only [List.length_append, List.length_cons] at enough
      obtain ⟨fuel, rfl⟩ : ∃ m, fuel = m + 1 := ⟨fuel - 1, by omega⟩
      rw [shape, splitLoop_step (strtok_ended blank nonempty free wordNoNul (by decide) _),
        words_ended blank nonempty free]
      simp only [List.length_cons]
      by_cases room : idx < kvsMaxTokens
      · rw [if_pos room, ih restNoNul room fuel (by omega)]
        split <;> split
        · rfl
        · omega
        · omega
        · rfl
      · rw [if_neg room, if_neg (by omega)]

/-- More words than `tokens` can hold end inside `p`: what follows is not read. -/
theorem splitLoop_full {fuel idx : Nat} (noNul : (0 : UInt8) ∉ p) (behind : List UInt8)
    (enough : p.length < fuel) (many : kvsMaxTokens < idx + endedWords 32 p)
    (bound : idx ≤ kvsMaxTokens) :
    splitLoop fuel idx (p ++ behind) = .error .outOfBounds := by
  obtain ⟨fuel, rfl⟩ : ∃ m, fuel = m + 1 := ⟨fuel - 1, by omega⟩
  induction p using word_induction 32 generalizing fuel idx with
  | blank p blank =>
      have none : endedWords 32 (p ++ []) = 0 := endedWords_open blank (by simp)
      rw [List.append_nil] at none
      omega
  | last blanks word blank nonempty free =>
      rw [endedWords_open blank free] at many
      omega
  | ended blanks word rest blank nonempty free ih =>
      have wordNoNul : (0 : UInt8) ∉ word := fun member => noNul (by simp [member])
      have restNoNul : (0 : UInt8) ∉ rest := fun member => noNul (by simp [member])
      have shape : blanks ++ (word ++ 32 :: rest) ++ behind =
          blanks ++ (word ++ 32 :: (rest ++ behind)) := by simp
      simp only [List.length_append, List.length_cons] at enough
      obtain ⟨fuel, rfl⟩ : ∃ m, fuel = m + 1 := ⟨fuel - 1, by omega⟩
      rw [endedWords_ended blank nonempty free] at many
      rw [shape, splitLoop_step (strtok_ended blank nonempty free wordNoNul (by decide) _)]
      by_cases room : idx < kvsMaxTokens
      · rw [if_pos room, ih restNoNul (by omega) room fuel (by omega)]
        rfl
      · rw [if_neg room]

/-- A buffer without a NUL is read to its end and beyond. -/
theorem splitLoop_open {fuel idx : Nat} (noNul : (0 : UInt8) ∉ p) (enough : p.length < fuel)
    (few : idx + endedWords 32 p ≤ kvsMaxTokens) :
    splitLoop fuel idx p = .error .unterminated := by
  obtain ⟨fuel, rfl⟩ : ∃ m, fuel = m + 1 := ⟨fuel - 1, by omega⟩
  induction p using word_induction 32 generalizing fuel idx with
  | blank p blank =>
      have none : strtok 32 (p ++ []) = _ := strtok_open blank (by simp) (by simp)
      rw [List.append_nil] at none
      rw [splitLoop, none]
      rfl
  | last blanks word blank nonempty free =>
      have wordNoNul : (0 : UInt8) ∉ word := fun member => noNul (by simp [member])
      rw [splitLoop, strtok_open blank free wordNoNul]
      rfl
  | ended blanks word rest blank nonempty free ih =>
      have wordNoNul : (0 : UInt8) ∉ word := fun member => noNul (by simp [member])
      have restNoNul : (0 : UInt8) ∉ rest := fun member => noNul (by simp [member])
      simp only [List.length_append, List.length_cons] at enough
      obtain ⟨fuel, rfl⟩ : ∃ m, fuel = m + 1 := ⟨fuel - 1, by omega⟩
      rw [endedWords_ended blank nonempty free] at few
      rw [splitLoop_step (strtok_ended blank nonempty free wordNoNul (by decide) _),
        if_pos (by omega), ih restNoNul (by omega) fuel (by omega)]
      rfl

/-- `kvs_split_token` on a message whose string ends inside its buffer. -/
theorem kvsSplitToken_words (noNul : (0 : UInt8) ∉ p) (behind : List UInt8) :
    kvsSplitToken (p ++ 0 :: behind) =
      if (words 32 p).length ≤ kvsMaxTokens then .ok ((words 32 p).map CStr.upToNul)
      else .error .outOfBounds := by
  rw [kvsSplitToken, splitLoop_words noNul behind
    (by simp only [List.length_append, List.length_cons]; omega) (Nat.zero_le _), Nat.zero_add]

theorem kvsSplitToken_full (noNul : (0 : UInt8) ∉ p) (behind : List UInt8)
    (many : kvsMaxTokens < endedWords 32 p) :
    kvsSplitToken (p ++ behind) = .error .outOfBounds :=
  splitLoop_full noNul behind (by simp only [List.length_append]; omega) (by omega) (Nat.zero_le _)

theorem kvsSplitToken_open (noNul : (0 : UInt8) ∉ p) (few : endedWords 32 p ≤ kvsMaxTokens) :
    kvsSplitToken p = .error .unterminated :=
  splitLoop_open noNul (by omega) (by omega)

end Split

section Leftover

/-- `kvs_protocol` answers alike, whatever stands in the buffer behind `p`. -/
def IgnoresLeftover (S : Store) (A : Allocator) (p : List UInt8) : Prop :=
  ∀ fuel behind behind', kvsProtocol fuel S (p ++ behind) p.length A =
    kvsProtocol fuel S (p ++ behind') p.length A

theorem kvsProtocol_congr {msg msg' : List UInt8} (same : kvsSplitToken msg = kvsSplitToken msg')
    (fuel : Nat) (S : Store) (length : Int) (A : Allocator) :
    kvsProtocol fuel S msg length A = kvsProtocol fuel S msg' length A := by
  simp only [kvsProtocol, same]

theorem kvsProtocol_splitFault {msg : List UInt8} {fault : Fault} {length : Int}
    (failed : kvsSplitToken msg = .error fault) (positive : 0 < length) (fuel : Nat) (S : Store)
    (A : Allocator) : kvsProtocol fuel S msg length A = .error fault := by
  rw [kvsProtocol, if_neg (not_le.mpr positive), failed]
  rfl

/-- A buffer of `n` one-letter tokens. -/
def filler : Nat → List UInt8
  | 0 => []
  | n + 1 => 120 :: 32 :: filler n

theorem endedWords_filler (n : Nat) : endedWords 32 (filler n) = n := by
  induction n with
  | zero => rfl
  | succ n ih =>
      have step : endedWords 32 ([] ++ ([120] ++ 32 :: filler n)) = endedWords 32 (filler n) + 1 :=
        endedWords_ended (by simp) (by simp) (by decide) (filler n)
      rw [ih] at step
      exact step

theorem noNul_filler (n : Nat) : (0 : UInt8) ∉ filler n := by
  induction n with
  | zero => simp [filler]
  | succ n ih => simpa [filler] using ih

/-- A request is exactly its first bytes if they hold a NUL, or more ended
tokens than the array can take. -/
theorem ignoresLeftover_iff (S : Store) (A : Allocator) (p : List UInt8) (received : p ≠ []) :
    IgnoresLeftover S A p ↔ (0 : UInt8) ∈ p ∨ kvsMaxTokens < endedWords 32 p := by
  have positive : (0 : Int) < p.length := by
    have := List.length_pos_of_ne_nil received
    omega
  constructor
  · intro ignores
    by_contra neither
    obtain ⟨noNul, few⟩ := not_or.mp neither
    -- the bare buffer is left, the same start with a filler overruns the array
    have alone := kvsProtocol_splitFault (kvsSplitToken_open noNul (not_lt.mp few)) positive 0 S A
    have followed := kvsProtocol_splitFault (by
      have noNul' : (0 : UInt8) ∉ p ++ filler (kvsMaxTokens + 1) := fun member =>
        (List.mem_append.mp member).elim noNul (noNul_filler _)
      have more := endedFrom_append 32 false p (filler (kvsMaxTokens + 1))
      have count := endedWords_filler (kvsMaxTokens + 1)
      have full := kvsSplitToken_full noNul' [] (by unfold endedWords at *; omega)
      rwa [List.append_nil] at full) positive 0 S A
    have same := ignores 0 [] (filler (kvsMaxTokens + 1))
    rw [List.append_nil, alone, followed] at same
    cases same
  · intro condition fuel behind behind'
    by_cases hasNul : (0 : UInt8) ∈ p
    · obtain ⟨start, rest, rfl, noNul⟩ := List.eq_append_cons_of_mem hasNul
      refine kvsProtocol_congr ?_ fuel S _ A
      rw [List.append_assoc, List.append_assoc, List.cons_append, List.cons_append,
        kvsSplitToken_words noNul, kvsSplitToken_words noNul]
    · have many := condition.resolve_left hasNul
      exact kvsProtocol_congr ((kvsSplitToken_full hasNul behind many).trans
        (kvsSplitToken_full hasNul behind' many).symm) fuel S _ A

theorem noNul_keyA : (0 : UInt8) ∉ [97] := by decide

theorem noNul_valueOne : (0 : UInt8) ∉ [49] := by decide

/-- The array engine with the one binding `a` to `1`. -/
def oneBinding : Store :=
  ⟨⟨some fun _ => ⟨.live 1 ⟨[97], noNul_keyA⟩, .live 2 ⟨[49], noNul_valueOne⟩⟩, 1⟩,
    ⟨0, 0, fun _ => none⟩, ⟨none, 0, 0⟩⟩

/-- `GET a` with its terminator. -/
theorem ignoresLeftover_terminated : ascii ['G', 'E', 'T', ' ', 'a', '\x00'] ≠ [] ∧
    IgnoresLeftover oneBinding .plentiful (ascii ['G', 'E', 'T', ' ', 'a', '\x00']) :=
  ⟨by decide, (ignoresLeftover_iff oneBinding .plentiful _ (by decide)).mpr (by decide)⟩

/-- `GET a` before the rest of an older request `GET ab`. -/
theorem leftover_read :
    ¬ IgnoresLeftover oneBinding .plentiful (ascii ['G', 'E', 'T', ' ', 'a']) := by
  intro ignores
  have same := ignores 0 [0] [98, 0]
  have first : kvsProtocol 0 oneBinding (ascii ['G', 'E', 'T', ' ', 'a'] ++ [0])
      (ascii ['G', 'E', 'T', ' ', 'a']).length .plentiful =
      .ok ((⟨3, some [49, 13, 10]⟩, oneBinding), .plentiful) := by rfl
  have second : kvsProtocol 0 oneBinding (ascii ['G', 'E', 'T', ' ', 'a'] ++ [98, 0])
      (ascii ['G', 'E', 'T', ' ', 'a']).length .plentiful =
      .ok ((⟨10, some noExistText⟩, oneBinding), .plentiful) := by rfl
  rw [first, second] at same
  have texts := congrArg (fun r => r.toOption.map fun v => v.1.1.ret) same
  cases texts

end Leftover

end LinuxCpp.Kvstore
