import LinuxCpp.C.Strings
import Mathlib.Data.List.TakeWhile

set_option autoImplicit false

/- `strtok` with one delimiter, on the bytes from the saved pointer on. A scan
that leaves the list has left the buffer. The NUL that `strtok` writes over the
delimiter behind a token is not read again, so the bytes behind it are enough. -/
namespace LinuxCpp.C

/-- The string at the start of these bytes. -/
def CStr.upToNul (bytes : List UInt8) : CStr :=
  ⟨bytes.takeWhile (· ≠ 0), fun member => by
    simpa using List.mem_takeWhile_imp member⟩

theorem CStr.upToNul_bytes {bytes : List UInt8} (noNul : (0 : UInt8) ∉ bytes) :
    (CStr.upToNul bytes).bytes = bytes := by
  refine List.takeWhile_eq_self_iff.mpr fun b member => ?_
  simp only [ne_eq, decide_eq_true_eq]
  rintro rfl
  exact noNul member

theorem CStr.upToNul_self (s : CStr) : CStr.upToNul s.bytes = s :=
  CStr.ext (CStr.upToNul_bytes s.noNul)

/-- What stands behind the NUL does not belong to the string. -/
theorem CStr.upToNul_terminated {bytes : List UInt8} (noNul : (0 : UInt8) ∉ bytes)
    (rest : List UInt8) : (CStr.upToNul (bytes ++ 0 :: rest)).bytes = bytes := by
  have all : ∀ b ∈ bytes, decide (b ≠ 0) = true := fun b member => by
    simp only [ne_eq, decide_eq_true_eq]
    rintro rfl
    exact noNul member
  change (bytes ++ 0 :: rest).takeWhile _ = bytes
  rw [List.takeWhile_append_of_pos all, List.takeWhile_cons_of_neg (by simp), List.append_nil]

section Scan

variable (delim : UInt8)

def skipDelim : List UInt8 → Except Fault (List UInt8)
  | [] => .error .unterminated
  | b :: rest => if b = delim then skipDelim rest else .ok (b :: rest)

/-- The bytes of the token, and what is left behind its end. -/
def scanToken : List UInt8 → Except Fault (List UInt8 × List UInt8)
  | [] => .error .unterminated
  | b :: rest =>
      if b = 0 then .ok ([], b :: rest)
      else if b = delim then .ok ([], rest)
      else do
        let (token, left) ← scanToken rest
        return (b :: token, left)

def strtok (bytes : List UInt8) : Except Fault (Option (CStr × List UInt8)) := do
  let bytes ← skipDelim delim bytes
  if bytes.head? = some 0 then return none
  let (token, left) ← scanToken delim bytes
  return some (CStr.upToNul token, left)

/-- The words of a string, `current` being the one under way. -/
def wordsFrom (current : List UInt8) : List UInt8 → List (List UInt8)
  | [] => if current = [] then [] else [current]
  | b :: rest =>
      if b = delim then
        if current = [] then wordsFrom [] rest else current :: wordsFrom [] rest
      else wordsFrom (current ++ [b]) rest

def words (bytes : List UInt8) : List (List UInt8) := wordsFrom delim [] bytes

/-- The words of a string that end at a delimiter inside it. -/
def endedFrom (inWord : Bool) : List UInt8 → Nat
  | [] => 0
  | b :: rest =>
      if b = delim then (if inWord then 1 else 0) + endedFrom false rest
      else endedFrom true rest

def endedWords (bytes : List UInt8) : Nat := endedFrom delim false bytes

end Scan

section Shape

variable {delim : UInt8}

/-- A string is blank, or blanks before a word, or blanks before a word that
ends inside. -/
theorem word_cases (delim : UInt8) (p : List UInt8) :
    (∀ b ∈ p, b = delim) ∨
    (∃ blanks word, p = blanks ++ word ∧ (∀ b ∈ blanks, b = delim) ∧ word ≠ [] ∧ delim ∉ word) ∨
    ∃ blanks word rest, p = blanks ++ (word ++ delim :: rest) ∧ (∀ b ∈ blanks, b = delim) ∧
      word ≠ [] ∧ delim ∉ word := by
  have blank : ∀ b ∈ p.takeWhile (· = delim), b = delim := fun b member => by
    simpa using List.mem_takeWhile_imp member
  have split : p.takeWhile (· = delim) ++ p.dropWhile (· = delim) = p :=
    List.takeWhile_append_dropWhile
  cases tail : p.dropWhile (· = delim) with
  | nil =>
      rw [tail, List.append_nil] at split
      exact Or.inl (split ▸ blank)
  | cons c q =>
      have notDelim : c ≠ delim := by
        have head := List.head_dropWhile_not (fun b => decide (b = delim))
          (show p.dropWhile (fun b => decide (b = delim)) ≠ [] by simp [tail])
        simpa [tail] using head
      have free : delim ∉ (c :: q).takeWhile (· ≠ delim) := fun member => by
        simpa using List.mem_takeWhile_imp member
      have nonempty : (c :: q).takeWhile (· ≠ delim) ≠ [] := by simp [notDelim]
      have split' : (c :: q).takeWhile (· ≠ delim) ++ (c :: q).dropWhile (· ≠ delim) = c :: q :=
        List.takeWhile_append_dropWhile
      rw [tail, ← split'] at split
      apply Or.inr
      cases behind : (c :: q).dropWhile (· ≠ delim) with
      | nil =>
          rw [behind, List.append_nil] at split
          exact Or.inl ⟨_, _, split.symm, blank, nonempty, free⟩
      | cons d rest =>
          have isDelim : d = delim := by
            have head := List.head_dropWhile_not (fun b => decide (b ≠ delim))
              (show (c :: q).dropWhile (fun b => decide (b ≠ delim)) ≠ [] by rw [behind]; simp)
            simp only [behind, List.head_cons] at head
            simpa using head
          rw [behind, isDelim] at split
          exact Or.inr ⟨_, _, rest, split.symm, blank, nonempty, free⟩

/-- Induction over the words of a string: what is left behind the delimiter of a word is
shorter. -/
theorem word_induction (delim : UInt8) {motive : List UInt8 → Prop}
    (blank : ∀ p, (∀ b ∈ p, b = delim) → motive p)
    (last : ∀ blanks word, (∀ b ∈ blanks, b = delim) → word ≠ [] → delim ∉ word →
      motive (blanks ++ word))
    (ended : ∀ blanks word rest, (∀ b ∈ blanks, b = delim) → word ≠ [] → delim ∉ word →
      motive rest → motive (blanks ++ (word ++ delim :: rest))) (p : List UInt8) : motive p := by
  induction size : p.length using Nat.strong_induction_on generalizing p with
  | _ n ih =>
      rcases word_cases delim p with free | ⟨blanks, word, rfl, free, nonempty, solid⟩ |
        ⟨blanks, word, rest, rfl, free, nonempty, solid⟩
      · exact blank p free
      · exact last blanks word free nonempty solid
      · simp only [List.length_append, List.length_cons] at size
        exact ended blanks word rest free nonempty solid (ih rest.length (by omega) rest rfl)

theorem skipDelim_blanks {blanks : List UInt8} (blank : ∀ b ∈ blanks, b = delim)
    (bytes : List UInt8) : skipDelim delim (blanks ++ bytes) = skipDelim delim bytes := by
  induction blanks with
  | nil => rfl
  | cons b blanks ih =>
      rw [List.cons_append, skipDelim, if_pos (blank b (by simp)),
        ih fun c member => blank c (List.mem_cons_of_mem _ member)]

theorem skipDelim_stop {b : UInt8} (other : b ≠ delim) (bytes : List UInt8) :
    skipDelim delim (b :: bytes) = .ok (b :: bytes) := by
  rw [skipDelim, if_neg other]

/-- The scan of a token runs over bytes that are neither NUL nor delimiter. -/
theorem scanToken_word {word : List UInt8} (free : delim ∉ word) (noNul : (0 : UInt8) ∉ word)
    (bytes : List UInt8) :
    scanToken delim (word ++ bytes) =
      (scanToken delim bytes).map fun (token, left) => (word ++ token, left) := by
  induction word with
  | nil =>
      rw [List.nil_append]
      cases scanToken delim bytes <;> rfl
  | cons b word ih =>
      simp only [List.mem_cons, not_or] at free noNul
      rw [List.cons_append, scanToken, if_neg (Ne.symm noNul.1), if_neg (Ne.symm free.1),
        ih free.2 noNul.2]
      cases scanToken delim bytes <;> rfl

section Strtok

variable {blanks word : List UInt8}

/-- `strtok` at a word, as far as the byte behind the word decides. -/
theorem strtok_word (blank : ∀ b ∈ blanks, b = delim) (nonempty : word ≠ []) (free : delim ∉ word)
    (noNul : (0 : UInt8) ∉ word) (bytes : List UInt8) :
    strtok delim (blanks ++ (word ++ bytes)) =
      (scanToken delim bytes).map fun (token, left) =>
        some (CStr.upToNul (word ++ token), left) := by
  cases word with
  | nil => exact absurd rfl nonempty
  | cons b word =>
      have other : b ≠ delim := by rintro rfl; simp at free
      have notNul : b ≠ 0 := by rintro rfl; simp at noNul
      rw [strtok, skipDelim_blanks blank, List.cons_append, skipDelim_stop other]
      change (do
        if (b :: (word ++ bytes)).head? = some 0 then return none
        let (token, left) ← scanToken delim (b :: (word ++ bytes))
        return some (CStr.upToNul token, left)) = _
      rw [if_neg (by simpa using notNul), ← List.cons_append, scanToken_word free noNul]
      cases scanToken delim bytes <;> rfl

/-- A word that ends at a delimiter; the bytes behind it do not matter. -/
theorem strtok_ended (blank : ∀ b ∈ blanks, b = delim) (nonempty : word ≠ []) (free : delim ∉ word)
    (noNul : (0 : UInt8) ∉ word) (notNul : delim ≠ 0) (bytes : List UInt8) :
    strtok delim (blanks ++ (word ++ delim :: bytes)) = .ok (some (CStr.upToNul word, bytes)) := by
  rw [strtok_word blank nonempty free noNul, scanToken, if_neg notNul, if_pos rfl]
  simp [Except.map]

/-- A word that ends at the end of the string. -/
theorem strtok_last (blank : ∀ b ∈ blanks, b = delim) (nonempty : word ≠ []) (free : delim ∉ word)
    (noNul : (0 : UInt8) ∉ word) (bytes : List UInt8) :
    strtok delim (blanks ++ (word ++ 0 :: bytes)) =
      .ok (some (CStr.upToNul word, 0 :: bytes)) := by
  rw [strtok_word blank nonempty free noNul, scanToken, if_pos rfl]
  simp [Except.map]

theorem strtok_blank (blank : ∀ b ∈ blanks, b = delim) (notNul : delim ≠ 0) (bytes : List UInt8) :
    strtok delim (blanks ++ 0 :: bytes) = .ok none := by
  rw [strtok, skipDelim_blanks blank, skipDelim_stop (Ne.symm notNul)]
  rfl

/-- The buffer ends before the string does. -/
theorem strtok_open (blank : ∀ b ∈ blanks, b = delim) (free : delim ∉ word)
    (noNul : (0 : UInt8) ∉ word) : strtok delim (blanks ++ word) = .error .unterminated := by
  cases word with
  | nil =>
      rw [strtok, skipDelim_blanks blank, skipDelim]
      rfl
  | cons b word =>
      rw [← List.append_nil (b :: word), strtok_word blank (by simp) free noNul, scanToken]
      rfl

end Strtok

section Words

variable {blanks word : List UInt8}

theorem wordsFrom_blanks (blank : ∀ b ∈ blanks, b = delim) (bytes : List UInt8) :
    wordsFrom delim [] (blanks ++ bytes) = wordsFrom delim [] bytes := by
  induction blanks with
  | nil => rfl
  | cons b blanks ih =>
      rw [List.cons_append, wordsFrom, if_pos (blank b (by simp)), if_pos rfl,
        ih fun c member => blank c (List.mem_cons_of_mem _ member)]

theorem wordsFrom_word (free : delim ∉ word) (current bytes : List UInt8) :
    wordsFrom delim current (word ++ bytes) = wordsFrom delim (current ++ word) bytes := by
  induction word generalizing current with
  | nil => rw [List.nil_append, List.append_nil]
  | cons b word ih =>
      simp only [List.mem_cons, not_or] at free
      rw [List.cons_append, wordsFrom, if_neg (Ne.symm free.1), ih free.2, List.append_assoc]
      rfl

theorem words_blank (blank : ∀ b ∈ blanks, b = delim) : words delim blanks = [] := by
  have skipped := wordsFrom_blanks blank []
  rwa [List.append_nil] at skipped

theorem words_last (blank : ∀ b ∈ blanks, b = delim) (nonempty : word ≠ []) (free : delim ∉ word) :
    words delim (blanks ++ word) = [word] := by
  have whole := wordsFrom_word free [] []
  rw [List.append_nil, List.nil_append, wordsFrom, if_neg nonempty] at whole
  rw [words, wordsFrom_blanks blank, whole]

theorem words_ended (blank : ∀ b ∈ blanks, b = delim) (nonempty : word ≠ []) (free : delim ∉ word)
    (bytes : List UInt8) :
    words delim (blanks ++ (word ++ delim :: bytes)) = word :: words delim bytes := by
  rw [words, wordsFrom_blanks blank, wordsFrom_word free, List.nil_append, wordsFrom, if_pos rfl,
    if_neg nonempty]
  rfl

/-- The words and one delimiter behind each fit into the string and its NUL. -/
theorem wordsFrom_length (delim : UInt8) (current bytes : List UInt8) :
    ((wordsFrom delim current bytes).map fun word => word.length + 1).sum ≤
      current.length + bytes.length + 1 := by
  induction bytes generalizing current with
  | nil =>
      rw [wordsFrom]
      split <;> simp
  | cons b rest ih =>
      have fresh := ih []
      have longer := ih (current ++ [b])
      simp only [List.length_append, List.length_cons, List.length_nil] at fresh longer
      rw [wordsFrom, List.length_cons]
      split
      · split
        · omega
        · rw [List.map_cons, List.sum_cons]
          omega
      · omega

theorem wordsFrom_nonempty {delim : UInt8} {current bytes word : List UInt8}
    (member : word ∈ wordsFrom delim current bytes) : word ≠ [] := by
  induction bytes generalizing current with
  | nil =>
      rw [wordsFrom] at member
      split at member
      · cases member
      · rwa [List.mem_singleton.mp member]
  | cons b rest ih =>
      rw [wordsFrom] at member
      split at member
      · split at member
        · exact ih member
        · rcases List.mem_cons.mp member with rfl | behind
          · assumption
          · exact ih behind
      · exact ih member

theorem modifyHead_same (parts : List (List UInt8)) : parts.modifyHead (fun part => part) = parts :=
  congrFun List.modifyHead_id parts

theorem wordsFrom_eq_splitOn (delim : UInt8) (current bytes : List UInt8) :
    wordsFrom delim current bytes =
      ((bytes.splitOn delim).modifyHead (current ++ ·)).filter (· ≠ []) := by
  induction bytes generalizing current with
  | nil =>
      rw [wordsFrom]
      split <;> simp [*]
  | cons b rest ih =>
      rw [wordsFrom, List.splitOn_cons_eq_if_modifyHead]
      by_cases isDelim : b = delim
      · have fresh := ih []
        simp only [List.nil_append, modifyHead_same] at fresh
        simp only [isDelim, ↓reduceIte, BEq.rfl, List.modifyHead_cons, List.append_nil,
          List.filter_cons, fresh]
        by_cases empty : current = [] <;> simp [empty]
      · rw [if_neg isDelim, ih, beq_eq_false_iff_ne.mpr isDelim]
        simp [Function.comp_def]

/-- The words are the parts between the delimiters, without the empty ones. -/
theorem words_eq_splitOn (delim : UInt8) (bytes : List UInt8) :
    words delim bytes = (bytes.splitOn delim).filter (· ≠ []) := by
  have same := wordsFrom_eq_splitOn delim [] bytes
  simp only [List.nil_append, modifyHead_same] at same
  exact same

/-- Parts with a delimiter between any two of them. -/
theorem intercalate_length (delim : UInt8) {parts : List (List UInt8)} (some_ : parts ≠ []) :
    ([delim].intercalate parts).length + 1 = (parts.map fun part => part.length + 1).sum := by
  induction parts with
  | nil => exact absurd rfl some_
  | cons part parts ih =>
      by_cases alone : parts = []
      · subst alone
        simp
      · rw [List.intercalate_cons_of_ne_nil alone, List.map_cons, List.sum_cons, ← ih alone]
        simp only [List.length_append, List.length_singleton]
        omega

theorem mem_of_mem_intercalate {delim b : UInt8} {parts : List (List UInt8)}
    (member : b ∈ [delim].intercalate parts) : b = delim ∨ ∃ part ∈ parts, b ∈ part := by
  induction parts with
  | nil => simp at member
  | cons part parts ih =>
      by_cases alone : parts = []
      · subst alone
        simp only [List.intercalate_singleton] at member
        exact .inr ⟨part, List.mem_cons_self, member⟩
      · rw [List.intercalate_cons_of_ne_nil alone, List.mem_append, List.mem_append,
          List.mem_singleton] at member
        rcases member with (inside | between) | behind
        · exact .inr ⟨part, List.mem_cons_self, inside⟩
        · exact .inl between
        · rcases ih behind with between | ⟨other, later, inside⟩
          · exact .inl between
          · exact .inr ⟨other, List.mem_cons_of_mem _ later, inside⟩

/-- The words with one byte for each, and the empty parts, make up the text. -/
theorem words_total (delim : UInt8) (bytes : List UInt8) :
    ((words delim bytes).map fun word => word.length + 1).sum + (bytes.splitOn delim).count [] =
      bytes.length + 1 := by
  have whole := intercalate_length delim (List.splitOn_ne_nil delim bytes)
  rw [List.intercalate_splitOn] at whole
  rw [whole, words_eq_splitOn]
  generalize bytes.splitOn delim = parts
  induction parts with
  | nil => rfl
  | cons part parts ih =>
      by_cases empty : part = []
      · subst empty
        simp only [List.filter_cons, ne_eq, not_true_eq_false, decide_false, Bool.false_eq_true,
          ↓reduceIte, List.count_cons_self, List.map_cons, List.sum_cons, List.length_nil] at ih ⊢
        omega
      · simp only [List.filter_cons, ne_eq, empty, not_false_eq_true, decide_true, ↓reduceIte,
          List.count_cons_of_ne empty, List.map_cons, List.sum_cons] at ih ⊢
        omega

/-- The words of a text that is put together from them. -/
theorem words_intercalate {delim : UInt8} {parts : List (List UInt8)} (some_ : parts ≠ [])
    (solid : ∀ part ∈ parts, part ≠ [] ∧ delim ∉ part) :
    words delim ([delim].intercalate parts) = parts := by
  rw [words_eq_splitOn, List.splitOn_intercalate delim (fun part member => (solid part member).2)
    some_, List.filter_eq_self.mpr]
  intro part member
  simpa using (solid part member).1

theorem endedFrom_blanks (blank : ∀ b ∈ blanks, b = delim) (bytes : List UInt8) :
    endedFrom delim false (blanks ++ bytes) = endedFrom delim false bytes := by
  induction blanks with
  | nil => rfl
  | cons b blanks ih =>
      rw [List.cons_append, endedFrom, if_pos (blank b (by simp)), if_neg (by simp), Nat.zero_add,
        ih fun c member => blank c (List.mem_cons_of_mem _ member)]

theorem endedFrom_word (nonempty : word ≠ []) (free : delim ∉ word) (inWord : Bool)
    (bytes : List UInt8) : endedFrom delim inWord (word ++ bytes) = endedFrom delim true bytes := by
  induction word generalizing inWord with
  | nil => exact absurd rfl nonempty
  | cons b word ih =>
      simp only [List.mem_cons, not_or] at free
      rw [List.cons_append, endedFrom, if_neg (Ne.symm free.1)]
      cases word with
      | nil => rfl
      | cons c word => exact ih (by simp) free.2 true

theorem endedWords_ended (blank : ∀ b ∈ blanks, b = delim) (nonempty : word ≠ [])
    (free : delim ∉ word) (bytes : List UInt8) :
    endedWords delim (blanks ++ (word ++ delim :: bytes)) = endedWords delim bytes + 1 := by
  rw [endedWords, endedFrom_blanks blank, endedFrom_word nonempty free, endedFrom, if_pos rfl,
    if_pos rfl, Nat.add_comm]
  rfl

theorem endedWords_open (blank : ∀ b ∈ blanks, b = delim) (free : delim ∉ word) :
    endedWords delim (blanks ++ word) = 0 := by
  rw [endedWords, endedFrom_blanks blank]
  cases word with
  | nil => rfl
  | cons b word =>
      have whole := endedFrom_word (by simp) free false []
      rwa [List.append_nil] at whole

/-- What ends inside a string still ends there behind another one. -/
theorem endedFrom_append (delim : UInt8) (inWord : Bool) (p q : List UInt8) :
    endedFrom delim false q ≤ endedFrom delim inWord (p ++ q) := by
  induction p generalizing inWord with
  | nil =>
      cases q with
      | nil => exact Nat.le_refl _
      | cons b q =>
          simp only [List.nil_append, endedFrom]
          split
          · simp
          · exact Nat.le_refl _
  | cons b p ih =>
      simp only [List.cons_append, endedFrom]
      split
      · exact Nat.le_add_left_of_le (ih false)
      · exact ih true

end Words

end Shape

end LinuxCpp.C
