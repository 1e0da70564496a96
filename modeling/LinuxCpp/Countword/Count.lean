import LinuxCpp.Kvstore.Hash
import LinuxCpp.Scan.Runs

set_option autoImplicit false

/- The word counter of count.c. A file is the bytes that `fgetc` hands out, or
none where `fopen` fails. -/
namespace LinuxCpp.Countword

open C Scan
open Kvstore (addInt signedByte)

/-- `OUT` and `IN` -/
inductive Status where
  | outside
  | inside
deriving DecidableEq, Repr

def eof : Int := -1

/-- The loop with its `status` and `word`. The result of `fgetc` goes into a
`char c` before it is compared with `EOF`. -/
def countLoop : Status → Int → List UInt8 → Except Fault Int
  | _, word, [] => return word
  | status, word, b :: bytes => do
      let c := signedByte b
      if c = eof then
        return word
      else if c = 32 ∨ c = 10 ∨ c = 9 then
        countLoop .outside word bytes
      else if status = .outside then
        countLoop .inside (← addInt word 1) bytes
      else
        countLoop status word bytes

def countWord (fp : Option (List UInt8)) : Except Fault Int :=
  match fp with
  | none => return -1
  | some bytes => countLoop .outside 0 bytes

/-- The bytes of words: neither space, newline nor tab. -/
def inWord (b : UInt8) : Bool := b ≠ 32 && b ≠ 10 && b ≠ 9

/-- The first byte 0xFF, if there is one, stands in the last word of the file,
and a byte of that word stands in front of it. -/
def LateEof (bytes : List UInt8) : Prop :=
  255 ∈ bytes →
    (∃ b, (bytes.takeWhile (· ≠ 255)).getLast? = some b ∧ inWord b = true) ∧
      ∀ b ∈ (bytes.dropWhile (· ≠ 255)).dropWhile inWord, inWord b = false

section Loop

variable {s : Progress UInt8} {bytes front behind : List UInt8} {b : UInt8}

theorem addInt_one (n : Nat) :
    addInt n 1 = if n + 1 < 2 ^ 31 then .ok ((n + 1 : Nat) : Int) else .error .overflow := by
  unfold addInt
  by_cases room : n + 1 < 2 ^ 31
  · rw [if_pos room, if_pos (by omega)]
    rfl
  · rw [if_neg room, if_neg (by omega)]

theorem signedByte_eof : signedByte b = eof ↔ b = 255 := by
  have small := b.toNat_lt
  rw [← UInt8.toNat_inj]
  unfold signedByte eof
  split <;> simp <;> omega

theorem signedByte_separator : (signedByte b = 32 ∨ signedByte b = 10 ∨ signedByte b = 9) ↔
    inWord b = false := by
  have small := b.toNat_lt
  simp only [inWord, ← UInt8.toNat_inj, ne_eq, decide_not, Bool.and_eq_false_iff,
    Bool.not_eq_false', decide_eq_true_eq]
  unfold signedByte
  split <;> simp <;> omega

/-- The state of the loop, as the scan for words has it. -/
def statusOf (s : Progress UInt8) : Status := if s.current = [] then .outside else .inside

/-- One byte other than 0xFF. -/
theorem countLoop_step (small : s.runs.length < 2 ^ 31) (more : b ≠ 255) (bytes : List UInt8) :
    countLoop (statusOf s) s.runs.length (b :: bytes) =
      if (s.step inWord b).runs.length < 2 ^ 31 then
        countLoop (statusOf (s.step inWord b)) (s.step inWord b).runs.length bytes
      else .error .overflow := by
  have other : signedByte b ≠ eof := fun same => more (signedByte_eof.mp same)
  simp only [countLoop, if_neg other, signedByte_separator]
  cases on : inWord b with
  | false =>
      rw [step_off on, if_pos rfl, if_pos (by rwa [runs_closed _ rfl])]
      rfl
  | true =>
      have open_ : s.current ++ [b] ≠ [] := by simp
      rw [step_on on, if_neg (by simp), runs_open ⟨s.ended, s.current ++ [b]⟩ open_,
        List.length_append, List.length_singleton, statusOf, statusOf, if_neg open_]
      by_cases closed : s.current = []
      · rw [if_pos closed, if_pos rfl, runs_closed s closed, addInt_one]
        split <;> rfl
      · rw [runs_open s closed, List.length_append, List.length_singleton] at small ⊢
        rw [if_neg closed, if_neg (by simp), if_pos small]

/-- The loop counts the words, as long as an `int` has room for them. -/
theorem countLoop_scan (small : s.runs.length < 2 ^ 31) (more : 255 ∉ bytes) :
    countLoop (statusOf s) s.runs.length bytes =
      if (scan inWord s bytes).runs.length < 2 ^ 31 then
        .ok ((scan inWord s bytes).runs.length : Int)
      else .error .overflow := by
  induction bytes generalizing s with
  | nil =>
      rw [scan_nil, if_pos small]
      rfl
  | cons b bytes ih =>
      simp only [List.mem_cons, not_or] at more
      rw [countLoop_step small (Ne.symm more.1), scan_cons]
      by_cases room : (s.step inWord b).runs.length < 2 ^ 31
      · rw [if_pos room, ih room more.2]
      · have later := runs_length_scan (p := inWord) (s.step inWord b) bytes
        rw [if_neg room, if_neg (by omega)]

/-- A byte 0xFF ends the loop. -/
theorem countLoop_eof (status : Status) (word : Int) (more : 255 ∉ front) (behind : List UInt8) :
    countLoop status word (front ++ 255 :: behind) = countLoop status word front := by
  induction front generalizing status word with
  | nil => rfl
  | cons b front ih =>
      simp only [List.mem_cons, not_or] at more
      rw [List.cons_append, countLoop, countLoop]
      simp only [ih _ _ more.2]

end Loop

theorem countWord_scan (bytes : List UInt8) (more : 255 ∉ bytes) :
    countWord (some bytes) =
      if (runs inWord bytes).length < 2 ^ 31 then .ok ((runs inWord bytes).length : Int)
      else .error .overflow :=
  countLoop_scan (s := .start) (by decide) more

theorem bounded_eq_ok_iff (n m : Nat) :
    (if n < 2 ^ 31 then .ok (n : Int) else .error .overflow : Except Fault Int) = .ok (m : Int) ↔
      n < 2 ^ 31 ∧ n = m := by
  split
  · rename_i room
    simp only [room, true_and, Except.ok.injEq, Int.natCast_inj]
  · rename_i full
    simp only [full, false_and, reduceCtorEq]

/-- What the words behind the first byte 0xFF are to the whole. -/
theorem runs_length_eof (front behind : List UInt8) :
    (runs inWord (front ++ 255 :: behind)).length =
      (scan inWord .start front).ended.length + 1 +
        (runs inWord (behind.dropWhile inWord)).length := by
  rw [runs, scan_append]
  exact runs_length_on _ (by decide) behind

theorem lateEof_iff {front : List UInt8} (first : 255 ∉ front) (behind : List UInt8) :
    LateEof (front ++ 255 :: behind) ↔
      (scan inWord .start front).current ≠ [] ∧ runs inWord (behind.dropWhile inWord) = [] := by
  have others : ∀ b ∈ front, decide (b ≠ 255) = true := fun b member =>
    decide_eq_true fun same => first (same ▸ member)
  have member : 255 ∈ front ++ 255 :: behind := by simp
  have seen : (front ++ 255 :: behind).takeWhile (· ≠ 255) = front := by
    rw [List.takeWhile_append_of_pos others, List.takeWhile_cons_of_neg (by simp), List.append_nil]
  have unseen : (front ++ 255 :: behind).dropWhile (· ≠ 255) = 255 :: behind := by
    rw [List.dropWhile_append_of_pos others, List.dropWhile_cons_of_neg (by simp)]
  rw [LateEof, seen, unseen, List.dropWhile_cons_of_pos (by decide), current_ne_nil_iff,
    runs_eq_nil_iff]
  exact ⟨fun late => late member, fun late _ => late⟩

theorem countWord_runs_iff (bytes : List UInt8) :
    countWord (some bytes) = .ok ((runs inWord bytes).length : Int) ↔
      (runs inWord bytes).length < 2 ^ 31 ∧ LateEof bytes := by
  by_cases member : 255 ∈ bytes
  · obtain ⟨front, behind, rfl, first⟩ := List.eq_append_cons_of_mem member
    have counted : countWord (some (front ++ 255 :: behind)) = countWord (some front) :=
      countLoop_eof .outside 0 first behind
    have whole := runs_length_eof front behind
    have seen : (runs inWord front).length = _ := runs_length_eq (scan inWord .start front)
    rw [counted, countWord_scan front first, bounded_eq_ok_iff, lateEof_iff first,
      ← List.length_eq_zero_iff]
    by_cases closed : (scan inWord .start front).current = []
    · rw [if_pos closed] at seen
      simp only [closed, ne_eq, not_true, false_and, and_false, iff_false]
      omega
    · rw [if_neg closed] at seen
      simp only [closed, ne_eq, not_false_eq_true, true_and]
      omega
  · have late : LateEof bytes := fun inside => absurd inside member
    rw [countWord_scan bytes member, bounded_eq_ok_iff]
    simp only [late, and_true]

/-- `count_word` returns the number of the words of a file exactly when an `int`
has room for it, and the first byte 0xFF takes no word away. -/
theorem countWord_counts_iff (bytes : List UInt8) :
    ∃ words, Places inWord bytes words ∧
      (countWord (some bytes) = .ok (words.length : Int) ↔
        words.length < 2 ^ 31 ∧ LateEof bytes) := by
  obtain ⟨words, all, -⟩ := exists_places inWord bytes
  exact ⟨words, all, all.length ▸ countWord_runs_iff bytes⟩

/-- The Latin-1 text of the three words `a`, `ÿ` and `b`. -/
def latin1 : List UInt8 := [97, 32, 255, 32, 98]

theorem countWord_latin1 :
    countWord (some latin1) = .ok 1 ∧ ∀ words, Places inWord latin1 words → words.length = 3 :=
  ⟨by decide, fun _ all => all.length.trans (by decide)⟩

end LinuxCpp.Countword
