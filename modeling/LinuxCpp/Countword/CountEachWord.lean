import LinuxCpp.C.Block
import LinuxCpp.C.Scanf
import LinuxCpp.Countword.Count
import LinuxCpp.Scan.Tally

set_option autoImplicit false

/- The word frequencies of count_each_word.c. The dictionary is the part of
`dict` below `dict_size`. -/
namespace LinuxCpp.Countword.EachWord

open C Scan
open Kvstore (addInt)

def maxWordLen : Nat := 24

def maxWords : Nat := 1024

structure WordEntry where
  word : CStr
  count : Int
deriving DecidableEq, Repr

/-- The string in an array of characters. -/
def stringIn {size : Nat} (b : Block size) : Except Fault CStr :=
  if 0 ∈ b.bytes then .ok (CStr.upToNul b.bytes) else .error .unterminated

/-- `find_word` from index `i` on. -/
def findFrom (word : CStr) (i : Nat) : List WordEntry → Int
  | [] => -1
  | entry :: rest => if strcmp entry.word word = 0 then i else findFrom word (i + 1) rest

def findWord (dict : List WordEntry) (word : CStr) : Int := findFrom word 0 dict

def addWord (dict : List WordEntry) (word : CStr) : Except Fault (List WordEntry) := do
  let idx := findWord dict word
  if idx ≠ -1 then
    match dict[idx.toNat]? with
    | none => .error .outOfBounds
    | some entry => return dict.set idx.toNat { entry with count := ← addInt entry.count 1 }
  else if dict.length < maxWords then
    return dict ++ [⟨← storeText maxWordLen word.bytes, 1⟩]
  else
    .error .outOfBounds

/-- `isalpha` of the C locale. -/
def isalpha (c : UInt8) : Bool := (65 ≤ c && c ≤ 90) || (97 ≤ c && c ≤ 122)

/-- `tolower` of the C locale. -/
def tolower (c : UInt8) : UInt8 := if 65 ≤ c && c ≤ 90 then c + 32 else c

/-- The variables of the loop in `count_word`, and the dictionary. -/
structure Reading where
  status : Status
  word : Block maxWordLen
  pos : Nat
  dict : List WordEntry

/-- `word[pos] = '\\0'; add_word(word);` -/
def endWord (r : Reading) : Except Fault Reading := do
  let word ← r.word.store r.pos [0]
  return { r with word := word, dict := ← addWord r.dict (← stringIn word) }

def readByte (r : Reading) (c : UInt8) : Except Fault Reading := do
  if isalpha c then
    let r ←
      if r.pos < maxWordLen - 1 then
        pure { r with word := ← r.word.store r.pos [tolower c], pos := r.pos + 1 }
      else
        pure r
    return { r with status := .inside }
  else if r.status = .inside ∧ 0 < r.pos then
    let r ← endWord r
    return { r with pos := 0, status := .outside }
  else
    return r

def readBytes (r : Reading) : List UInt8 → Except Fault Reading
  | [] => return r
  | c :: bytes => do readBytes (← readByte r c) bytes

/-- The last word, if nothing behind it has ended it. -/
def lastWord (r : Reading) : Except Fault Reading :=
  if r.status = .inside ∧ 0 < r.pos then endWord r else return r

/-- What `word` holds at the start is left open. -/
def countWord (fp : Option (List UInt8)) (word : Block maxWordLen) (dict : List WordEntry) :
    Except Fault (Int × List WordEntry) := do
  match fp with
  | none => return (-1, dict)
  | some bytes =>
      let r ← lastWord (← readBytes ⟨.outside, word, 0, dict⟩ bytes)
      return (0, r.dict)

/-- The word of a run of letters, in lower case and cut off. -/
def wordOf (run : List UInt8) : CStr := CStr.upToNul ((run.map tolower).take (maxWordLen - 1))

/-- The words of a file, in order. -/
def wordsOf (bytes : List UInt8) : List CStr := (runs isalpha bytes).map wordOf

/-- The dictionary of these words: an entry for each, by first occurrence. -/
def frequencies (words : List CStr) : List WordEntry :=
  words.eraseDups.map fun w => ⟨w, words.count w⟩

section Reading

variable {r : Reading} {cur : List UInt8} {c : UInt8}

theorem tolower_ne_zero (letter : isalpha c = true) : tolower c ≠ 0 := by
  unfold isalpha at letter
  unfold tolower
  grind

theorem zero_not_mem_lower (letters : ∀ c ∈ cur, isalpha c = true) (n : Nat) :
    0 ∉ (cur.map tolower).take n := by
  intro member
  obtain ⟨c, inside, zero⟩ := List.mem_map.mp (List.mem_of_mem_take member)
  exact tolower_ne_zero (letters c inside) zero

theorem wordOf_bytes (letters : ∀ c ∈ cur, isalpha c = true) :
    (wordOf cur).bytes = (cur.map tolower).take (maxWordLen - 1) :=
  CStr.upToNul_bytes (zero_not_mem_lower letters _)

theorem wordOf_length (run : List UInt8) : (wordOf run).length < maxWordLen := by
  have short := CStr.upToNul_length_le ((run.map tolower).take (maxWordLen - 1))
  rw [List.length_take] at short
  unfold wordOf maxWordLen at *
  omega

/-- The variables, while the letters `cur` are those of the open word. -/
structure Matches (r : Reading) (cur : List UInt8) : Prop where
  letters : ∀ c ∈ cur, isalpha c = true
  status : r.status = if cur = [] then .outside else .inside
  pos : r.pos = ((cur.map tolower).take (maxWordLen - 1)).length
  word : ∃ rest, r.word.bytes = (cur.map tolower).take (maxWordLen - 1) ++ rest

theorem Matches.fresh (word : Block maxWordLen) (dict : List WordEntry) :
    Matches ⟨.outside, word, 0, dict⟩ [] := ⟨by simp, rfl, rfl, _, rfl⟩

theorem Matches.ends_iff (same : Matches r cur) :
    (r.status = .inside ∧ 0 < r.pos) ↔ cur ≠ [] := by
  rw [same.status, same.pos, List.length_take, List.length_map]
  cases cur with
  | nil => simp
  | cons c cur => simp [maxWordLen]

/-- The letters read, and the terminator behind them. -/
theorem endWord_adds (same : Matches r cur) :
    ∃ word, endWord r = (do
      let dict ← addWord r.dict (wordOf cur)
      return { r with word := word, dict := dict }) := by
  obtain ⟨rest, bytes⟩ := same.word
  have length := congrArg List.length bytes
  rw [r.word.length, List.length_append, List.length_take] at length
  cases rest with
  | nil =>
      unfold maxWordLen at length
      rw [List.length_nil] at length
      omega
  | cons b rest =>
      obtain ⟨word, stored, content⟩ := Block.store_split [0]
        (show r.word.bytes = _ ++ ([b] ++ rest) from bytes) same.pos.symm rfl
      have read : stringIn word = .ok (wordOf cur) := by
        have zero : 0 ∈ word.bytes := by
          rw [content]
          simp
        rw [stringIn, if_pos zero, content]
        congr 1
        refine CStr.ext ?_
        rw [wordOf_bytes same.letters]
        exact CStr.upToNul_terminated (zero_not_mem_lower same.letters _) rest
      refine ⟨word, ?_⟩
      simp only [endWord, stored, read, ok_bind]

theorem take_lower_short (short : cur.length < maxWordLen - 1) (c : UInt8) :
    ((cur ++ [c]).map tolower).take (maxWordLen - 1) = cur.map tolower ++ [tolower c] := by
  rw [List.map_append, List.take_of_length_le]
  · rfl
  · rw [List.length_append, List.length_map]
    exact short

theorem take_lower_full (full : maxWordLen - 1 ≤ cur.length) (c : UInt8) :
    ((cur ++ [c]).map tolower).take (maxWordLen - 1) =
      (cur.map tolower).take (maxWordLen - 1) := by
  rw [List.map_append, List.take_append_of_le_length (by rwa [List.length_map])]

theorem Matches.room_iff (same : Matches r cur) :
    r.pos < maxWordLen - 1 ↔ cur.length < maxWordLen - 1 := by
  rw [same.pos, List.length_take, List.length_map]
  omega

theorem Matches.letters_concat (same : Matches r cur) (letter : isalpha c = true) :
    ∀ d ∈ cur ++ [c], isalpha d = true :=
  List.forall_mem_append.mpr ⟨same.letters, List.forall_mem_singleton.mpr letter⟩

/-- One of the first 23 letters joins the word. -/
theorem readByte_joins (same : Matches r cur) (letter : isalpha c = true)
    (short : cur.length < maxWordLen - 1) :
    ∃ r', readByte r c = .ok r' ∧ Matches r' (cur ++ [c]) ∧ r'.dict = r.dict := by
  have room := same.room_iff.mpr short
  have whole : (cur.map tolower).take (maxWordLen - 1) = cur.map tolower :=
    List.take_of_length_le (by rw [List.length_map]; omega)
  have pos := same.pos
  obtain ⟨rest, bytes⟩ := same.word
  rw [whole] at pos bytes
  have length := congrArg List.length bytes
  rw [r.word.length, List.length_append, ← pos] at length
  cases rest with
  | nil =>
      rw [List.length_nil] at length
      omega
  | cons b rest =>
      obtain ⟨word, stored, content⟩ := Block.store_split [tolower c]
        (show r.word.bytes = _ ++ ([b] ++ rest) from bytes) pos.symm rfl
      refine ⟨⟨.inside, word, r.pos + 1, r.dict⟩, ?_,
        ⟨same.letters_concat letter, by simp, ?_, rest, ?_⟩, rfl⟩
      · simp only [readByte, letter, if_true, room, stored, ok_bind]
        rfl
      · rw [take_lower_short short, List.length_append, ← pos]
        rfl
      · rw [take_lower_short short, content, List.append_assoc]

/-- Behind the first 23 letters the word stays. -/
theorem readByte_drops (same : Matches r cur) (letter : isalpha c = true)
    (full : maxWordLen - 1 ≤ cur.length) :
    ∃ r', readByte r c = .ok r' ∧ Matches r' (cur ++ [c]) ∧ r'.dict = r.dict := by
  have noRoom : ¬ r.pos < maxWordLen - 1 := fun room => by
    have := same.room_iff.mp room
    omega
  refine ⟨{ r with status := .inside }, ?_, ⟨same.letters_concat letter, by simp, ?_, ?_⟩, rfl⟩
  · simp only [readByte, letter, if_true, noRoom, if_false]
    rfl
  · rw [take_lower_full full]
    exact same.pos
  · rw [take_lower_full full]
    exact same.word

theorem readByte_letter (same : Matches r cur) (letter : isalpha c = true) :
    ∃ r', readByte r c = .ok r' ∧ Matches r' (cur ++ [c]) ∧ r'.dict = r.dict := by
  rcases Nat.lt_or_ge cur.length (maxWordLen - 1) with short | full
  · exact readByte_joins same letter short
  · exact readByte_drops same letter full

/-- Any other byte ends the open word. -/
theorem readByte_other (same : Matches r cur) (other : isalpha c = false) (some_ : cur ≠ []) :
    ∃ word, readByte r c = (do
      let dict ← addWord r.dict (wordOf cur)
      return ⟨.outside, word, 0, dict⟩) := by
  obtain ⟨word, ended⟩ := endWord_adds same
  refine ⟨word, ?_⟩
  simp only [readByte, other, Bool.false_eq_true, if_false, same.ends_iff.mpr some_, and_self,
    if_true, ended]
  cases addWord r.dict (wordOf cur) <;> rfl

theorem readByte_outside (same : Matches r []) (other : isalpha c = false) :
    readByte r c = .ok r := by
  have none : ¬ (r.status = .inside ∧ 0 < r.pos) := fun ends => same.ends_iff.mp ends rfl
  simp only [readByte, other, Bool.false_eq_true, if_false, none]
  rfl

theorem lastWord_adds (same : Matches r cur) :
    (do return (← lastWord r).dict) =
      ((⟨[], cur⟩ : Progress UInt8).runs.map wordOf).foldlM addWord r.dict := by
  by_cases some_ : cur = []
  · have none : ¬ (r.status = .inside ∧ 0 < r.pos) := fun ends => same.ends_iff.mp ends some_
    rw [runs_closed ⟨[], cur⟩ some_, lastWord, if_neg none]
    rfl
  · obtain ⟨word, ended⟩ := endWord_adds same
    rw [runs_open ⟨[], cur⟩ some_, lastWord, if_pos (same.ends_iff.mpr some_), ended]
    simp only [List.nil_append, List.map_cons, List.map_nil, List.foldlM_cons, List.foldlM_nil]
    cases addWord r.dict (wordOf cur) <;> rfl

/-- The loop hands the words of the file to `add_word`, in order. -/
theorem readBytes_adds (same : Matches r cur) (bytes : List UInt8) :
    (do return (← lastWord (← readBytes r bytes)).dict) =
      ((scan isalpha ⟨[], cur⟩ bytes).runs.map wordOf).foldlM addWord r.dict := by
  induction bytes generalizing r cur with
  | nil => exact lastWord_adds same
  | cons c bytes ih =>
      rw [scan_cons]
      cases letter : isalpha c with
      | true =>
          obtain ⟨r', read, same', dict⟩ := readByte_letter same letter
          rw [step_on letter, ← dict, ← ih same', readBytes, read]
          rfl
      | false =>
          rw [step_off letter]
          by_cases closed : cur = []
          · subst closed
            rw [runs_closed ⟨[], []⟩ rfl, ← ih same, readBytes, readByte_outside same letter]
            rfl
          · obtain ⟨word, read⟩ := readByte_other same letter closed
            rw [runs_open ⟨[], cur⟩ closed, runs_scan_closed, List.nil_append, List.map_append,
              List.map_cons, List.map_nil, List.singleton_append, List.foldlM_cons, readBytes, read]
            cases added : addWord r.dict (wordOf cur) with
            | error fault => rfl
            | ok dict =>
                exact ih (.fresh word dict)

theorem countWord_adds (bytes : List UInt8) (word : Block maxWordLen) (dict : List WordEntry) :
    countWord (some bytes) word dict = (do
      let dict ← (wordsOf bytes).foldlM addWord dict
      return (0, dict)) := by
  have read := readBytes_adds (.fresh word dict) bytes
  have whole : countWord (some bytes) word dict = (do
      let dict ← (do return (← lastWord (← readBytes ⟨.outside, word, 0, dict⟩ bytes)).dict)
      return (0, dict)) := by
    simp only [countWord, bind_assoc, pure_bind]
  rw [whole, read]
  rfl

end Reading

section Dictionary

variable {w : CStr} {front dict : List WordEntry} {words : List CStr}

theorem findFrom_absent (absent : ∀ e ∈ dict, e.word ≠ w) (i : Nat) : findFrom w i dict = -1 := by
  induction dict generalizing i with
  | nil => rfl
  | cons e dict ih =>
      rw [findFrom, if_neg (by simpa using absent e List.mem_cons_self),
        ih fun f member => absent f (List.mem_cons_of_mem e member)]

theorem findFrom_first (absent : ∀ e ∈ front, e.word ≠ w) (i : Nat) (n : Int)
    (back : List WordEntry) :
    findFrom w i (front ++ ⟨w, n⟩ :: back) = ((i + front.length : Nat) : Int) := by
  induction front generalizing i with
  | nil => rw [List.nil_append, findFrom, if_pos (by simp), List.length_nil, Nat.add_zero]
  | cons e front ih =>
      rw [List.cons_append, findFrom, if_neg (by simpa using absent e List.mem_cons_self),
        ih fun f member => absent f (List.mem_cons_of_mem e member), List.length_cons,
        Nat.add_right_comm, Nat.add_assoc]

theorem addWord_known (absent : ∀ e ∈ front, e.word ≠ w) (n : Int) (back : List WordEntry) :
    addWord (front ++ ⟨w, n⟩ :: back) w = (do
      return front ++ ⟨w, ← addInt n 1⟩ :: back) := by
  have found : findWord (front ++ ⟨w, n⟩ :: back) w = (front.length : Int) := by
    rw [findWord, findFrom_first absent, Nat.zero_add]
  have entry : (front ++ ⟨w, n⟩ :: back)[front.length]? = some ⟨w, n⟩ := by simp
  simp only [addWord, found, Int.toNat_natCast, entry]
  rw [if_pos (by omega)]
  cases addInt n 1 with
  | error fault => rfl
  | ok m =>
      simp only [ok_bind]
      rw [List.set_append_right _ _ (Nat.le_refl _), Nat.sub_self]
      rfl

theorem addWord_new (absent : ∀ e ∈ dict, e.word ≠ w) (room : dict.length < maxWords)
    (short : w.length < maxWordLen) : addWord dict w = .ok (dict ++ [⟨w, 1⟩]) := by
  have copied : storeText maxWordLen w.bytes = .ok w := by
    rw [storeText_ok short, CStr.upToNul_self]
  simp only [addWord, findWord, findFrom_absent absent, ne_eq, not_true, if_false, room, if_true,
    copied]
  rfl

def entryOf (e : CStr × Nat) : WordEntry := ⟨e.1, e.2⟩

theorem entries_ne {table : List (CStr × Nat)} (absent : ∀ e ∈ table, e.1 ≠ w) :
    ∀ e ∈ table.map entryOf, e.word ≠ w := List.forall_mem_map.mpr absent

theorem frequencies_eq_tally (words : List CStr) :
    frequencies words = (tally words).map entryOf := by
  rw [tally, List.map_map]
  rfl

/-- One more word: its entry is the one the count calls for. -/
theorem addWord_frequencies (few : w ∈ words ∨ words.eraseDups.length < maxWords)
    (short : w.length < maxWordLen) :
    addWord (frequencies words) w =
      if words.count w + 1 < 2 ^ 31 then .ok (frequencies (words ++ [w]))
      else .error .overflow := by
  rw [frequencies_eq_tally, frequencies_eq_tally, tally_concat]
  by_cases known : w ∈ words
  · obtain ⟨front, back, shape, before, -⟩ := exists_split known
    have absent : ∀ e ∈ front.map fun v => (v, words.count v), e.1 ≠ w :=
      List.forall_mem_map.mpr fun v inside same => before (same ▸ inside)
    rw [tally_split shape, bump_old absent, List.map_append, List.map_append, List.map_cons,
      List.map_cons]
    have added := addWord_known (entries_ne absent) (words.count w)
      ((back.map fun v => (v, words.count v)).map entryOf)
    rw [addInt_one] at added
    refine added.trans ?_
    split <;> rfl
  · have room : words.eraseDups.length < maxWords := few.resolve_left known
    rw [bump_new (not_mem_tally known), List.map_append, List.count_eq_zero_of_not_mem known,
      if_pos (by decide), addWord_new (entries_ne (not_mem_tally known)) _ short]
    · rfl
    · rwa [List.length_map, length_tally]

/-- The words one by one, while there is room for their entries and counts. -/
theorem foldlM_addWord (few : words.eraseDups.length ≤ maxWords)
    (small : ∀ w, words.count w < 2 ^ 31) (short : ∀ w ∈ words, w.length < maxWordLen) :
    words.foldlM addWord [] = .ok (frequencies words) := by
  induction words using List.reverseRecOn with
  | nil => rfl
  | append_singleton words w ih =>
      rw [eraseDups_concat] at few
      have before : words.eraseDups.length ≤ maxWords := by
        split at few
        · exact few
        · rw [List.length_append] at few
          omega
      have room : w ∈ words ∨ words.eraseDups.length < maxWords := by
        by_cases known : w ∈ words
        · exact .inl known
        · rw [if_neg known, List.length_append, List.length_singleton] at few
          exact .inr few
      have counts : ∀ v, words.count v ≤ (words ++ [w]).count v := fun v => by
        rw [List.count_append]
        exact Nat.le_add_right _ _
      have fits := small w
      rw [List.count_append, List.count_singleton_self] at fits
      rw [List.foldlM_append, ih before (fun v => Nat.lt_of_le_of_lt (counts v) (small v))
        fun v member => short v (List.mem_append_left _ member), ok_bind, List.foldlM_cons,
        addWord_frequencies room (short w (by simp)), if_pos fits]
      rfl

end Dictionary

/-- `count_word` on an empty dictionary: one entry for each distinct word, by
first occurrence, with the number of its occurrences. -/
theorem countWord_frequencies (bytes : List UInt8) (word : Block maxWordLen)
    (few : (wordsOf bytes).eraseDups.length ≤ maxWords)
    (small : ∀ w, (wordsOf bytes).count w < 2 ^ 31) :
    ∃ places, Places isalpha bytes places ∧
      wordsOf bytes = (places.map fun place => wordOf (between bytes place)) ∧
      countWord (some bytes) word [] = .ok (0, frequencies (wordsOf bytes)) := by
  obtain ⟨places, all, texts⟩ := exists_places isalpha bytes
  have short : ∀ w ∈ wordsOf bytes, w.length < maxWordLen :=
    List.forall_mem_map.mpr fun run _ => wordOf_length run
  refine ⟨places, all, ?_, ?_⟩
  · rw [wordsOf, ← texts, List.map_map]
    rfl
  · rw [countWord_adds, foldlM_addWord few small short]
    rfl

/-- `The the cat`, where the end of the file ends the last word. -/
def theTheCat : List UInt8 := [84, 104, 101, 32, 116, 104, 101, 32, 99, 97, 116]

theorem countWord_theTheCat :
    (wordsOf theTheCat).eraseDups.length = 2 ∧
      ∃ places, Places isalpha theTheCat places ∧
        wordsOf theTheCat = (places.map fun place => wordOf (between theTheCat place)) ∧
        countWord (some theTheCat) (.zeroed maxWordLen) [] =
          .ok (0, frequencies (wordsOf theTheCat)) := by
  have distinct : (wordsOf theTheCat).eraseDups.length = 2 := by decide
  have length : (wordsOf theTheCat).length = 3 := by decide
  refine ⟨distinct, countWord_frequencies theTheCat (.zeroed maxWordLen) ?_ fun w => ?_⟩
  · rw [distinct]
    decide
  · have bound := List.count_le_length (a := w) (l := wordsOf theTheCat)
    omega

section Repeated

/-- The word `a` and a space, `n` times. -/
def repeated (n : Nat) : List UInt8 := (List.replicate n [97, 32]).flatten

theorem noNul_wordA : (0 : UInt8) ∉ [97] := by decide

def wordA : CStr := ⟨[97], noNul_wordA⟩

theorem wordsOf_repeated (n : Nat) : wordsOf (repeated n) = List.replicate n wordA := by
  induction n with
  | zero => rfl
  | succ n ih =>
      have first : runs isalpha (repeated (n + 1)) = [97] :: runs isalpha (repeated n) := by
        rw [repeated, List.replicate_succ, List.flatten_cons, List.cons_append, List.cons_append,
          runs, scan_cons, scan_cons, step_on (x := 97) (by decide),
          step_off (x := 32) (by decide)]
        exact runs_scan_closed [[97]] _
      rw [wordsOf, first, List.map_cons, List.replicate_succ, ← ih]
      rfl

theorem eraseDups_repeated (n : Nat) :
    (wordsOf (repeated (n + 1))).eraseDups = [wordA] := by
  rw [wordsOf_repeated, List.replicate_succ, List.eraseDups_cons]
  simp

/-- Behind the last occurrence that an `int` can count there is one more. -/
theorem countWord_repeated {n : Nat} (full : n + 1 = 2 ^ 31) (word : Block maxWordLen) :
    countWord (some (repeated (n + 1))) word [] = .error .overflow := by
  have counts : ∀ v, (List.replicate n wordA).count v ≤ n := fun v => by
    have bound := List.count_le_length (a := v) (l := List.replicate n wordA)
    rwa [List.length_replicate] at bound
  have known : wordA ∈ List.replicate n wordA :=
    List.mem_replicate.mpr ⟨by omega, rfl⟩
  have few : (List.replicate n wordA).eraseDups.length ≤ maxWords := by
    obtain ⟨m, rfl⟩ : ∃ m, n = m + 1 := ⟨n - 1, by omega⟩
    rw [← wordsOf_repeated, eraseDups_repeated]
    decide
  have before := foldlM_addWord few (fun v => Nat.lt_of_le_of_lt (counts v) (by omega))
    fun v member => by
      rw [List.eq_of_mem_replicate member]
      decide
  have last := addWord_frequencies (.inl known) (by decide)
  rw [List.count_replicate_self, if_neg (by omega)] at last
  rw [countWord_adds, wordsOf_repeated, List.replicate_succ', List.foldlM_append, before, ok_bind,
    List.foldlM_cons, last]
  rfl

theorem countWord_overflow :
    (wordsOf (repeated (2 ^ 31))).eraseDups.length = 1 ∧
      countWord (some (repeated (2 ^ 31))) (.zeroed maxWordLen) [] = .error .overflow := by
  obtain ⟨n, full⟩ : ∃ n, n + 1 = 2 ^ 31 := ⟨2 ^ 31 - 1, by omega⟩
  rw [← full, eraseDups_repeated]
  exact ⟨rfl, countWord_repeated full _⟩

end Repeated

end LinuxCpp.Countword.EachWord
