import LinuxCpp.C.Strtok

set_option autoImplicit false

/- `scanf` for ordinary characters, white space, `%[^c]` and `%s`. -/
namespace LinuxCpp.C

/-- `isspace` of the C locale. -/
def isSpace (b : UInt8) : Bool := b = 32 || (9 ≤ b && b ≤ 13)

def charBytes (text : List Char) : List UInt8 := text.map fun c => c.toNat.toUInt8

inductive Directive where
  | char (b : UInt8)
  | space
  | notIn (stop : UInt8)
  | word
deriving DecidableEq, Repr

/-- The directives for ordinary characters. -/
def literal (text : List Char) : List Directive := (charBytes text).map .char

/-- The texts of the conversions made, and what was not read. The call returns the number
of these texts, or EOF in place of 0. -/
def scanf : List Directive → List UInt8 → List (List UInt8) × List UInt8
  | [], bytes => ([], bytes)
  | .char b :: format, bytes =>
      match bytes with
      | [] => ([], [])
      | c :: rest => if c = b then scanf format rest else ([], c :: rest)
  | .space :: format, bytes => scanf format (bytes.dropWhile isSpace)
  | .notIn stop :: format, bytes =>
      let text := bytes.takeWhile (· ≠ stop)
      if text = [] then ([], bytes)
      else
        let (texts, rest) := scanf format (bytes.dropWhile (· ≠ stop))
        (text :: texts, rest)
  | .word :: format, bytes =>
      let bytes := bytes.dropWhile isSpace
      let text := bytes.takeWhile fun b => !isSpace b
      if text = [] then ([], bytes)
      else
        let (texts, rest) := scanf format (bytes.dropWhile fun b => !isSpace b)
        (text :: texts, rest)

/-- An array of `size` bytes with room for the text and its terminator. -/
def storeText (size : Nat) (text : List UInt8) : Except Fault CStr :=
  if text.length < size then .ok (CStr.upToNul text) else .error .overflow

/-- `strncpy(dest, src, n); dest[n] = '\0';` -/
def strncpy (src : CStr) (n : Nat) : CStr :=
  ⟨src.bytes.take n, fun member => src.noNul (List.mem_of_mem_take member)⟩

theorem storeText_ok {size : Nat} {text : List UInt8} (fits : text.length < size) :
    storeText size text = .ok (CStr.upToNul text) := if_pos fits

theorem storeText_fits {size : Nat} {text : List UInt8} {str : CStr}
    (stored : storeText size text = .ok str) : text.length < size := by
  unfold storeText at stored
  split at stored
  · assumption
  · cases stored

theorem strncpy_short {src : CStr} {n : Nat} (fits : src.length ≤ n) : strncpy src n = src :=
  CStr.ext (List.take_of_length_le fits)

theorem CStr.upToNul_length_le (bytes : List UInt8) : (CStr.upToNul bytes).length ≤ bytes.length :=
  List.Sublist.length_le (List.takeWhile_sublist _)

theorem strncpy_upToNul {text : List UInt8} {size : Nat} (fits : text.length < size) :
    strncpy (CStr.upToNul text) (size - 1) = CStr.upToNul text := by
  have short := CStr.upToNul_length_le text
  exact strncpy_short (by omega)

section Directives

variable {format : List Directive} {rest text : List UInt8}

theorem scanf_literal (chars : List Char) (rest : List UInt8) :
    scanf (literal chars ++ format) (charBytes chars ++ rest) = scanf format rest := by
  induction chars with
  | nil => rfl
  | cons c chars ih =>
      show (if c.toNat.toUInt8 = c.toNat.toUInt8 then
        scanf (literal chars ++ format) (charBytes chars ++ rest) else _) = _
      rw [if_pos rfl, ih]

/-- A conversion behind a literal means that the literal was there. -/
theorem scanf_literal_made {chars : List Char} {bytes : List UInt8}
    (made : (scanf (literal chars ++ format) bytes).1 ≠ []) :
    ∃ rest, bytes = charBytes chars ++ rest := by
  induction chars generalizing bytes with
  | nil => exact ⟨bytes, rfl⟩
  | cons c chars ih =>
      cases bytes with
      | nil => exact absurd rfl made
      | cons b bytes =>
          change (if b = c.toNat.toUInt8 then scanf (literal chars ++ format) bytes
            else ([], b :: bytes)).1 ≠ [] at made
          split at made
          · rename_i same
            obtain ⟨rest, rfl⟩ := ih made
            exact ⟨rest, same ▸ rfl⟩
          · exact absurd rfl made

theorem scanf_space {blanks : List UInt8} (blank : ∀ b ∈ blanks, isSpace b = true)
    (solid : ∀ b, rest.head? = some b → isSpace b = false) :
    scanf (.space :: format) (blanks ++ rest) = scanf format rest := by
  have stop : rest.dropWhile isSpace = rest := by
    cases rest with
    | nil => rfl
    | cons b rest =>
        have isSolid := solid b rfl
        exact List.dropWhile_cons_of_neg (by simp [isSolid])
  rw [scanf, List.dropWhile_append_of_pos blank, stop]

theorem scanf_notIn {stop : UInt8} (nonempty : text ≠ []) (free : stop ∉ text) :
    scanf (.notIn stop :: format) (text ++ stop :: rest) =
      (text :: (scanf format (stop :: rest)).1, (scanf format (stop :: rest)).2) := by
  have all : ∀ b ∈ text, decide (b ≠ stop) = true := by
    intro b member
    exact decide_eq_true fun same => free (same ▸ member)
  have taken : (text ++ stop :: rest).takeWhile (· ≠ stop) = text := by
    rw [List.takeWhile_append_of_pos all, List.takeWhile_cons_of_neg (by simp), List.append_nil]
  have left : (text ++ stop :: rest).dropWhile (· ≠ stop) = stop :: rest := by
    rw [List.dropWhile_append_of_pos all, List.dropWhile_cons_of_neg (by simp)]
  simp only [scanf, taken, left, if_neg nonempty]

/-- The text of `%[^c]` does not have the character. -/
theorem scanf_notIn_free {stop : UInt8} {bytes first : List UInt8} {texts : List (List UInt8)}
    (read : (scanf (.notIn stop :: format) bytes).1 = first :: texts) : stop ∉ first := by
  simp only [scanf] at read
  split at read
  · cases read
  · obtain ⟨rfl, -⟩ := List.cons.inj read
    intro member
    simpa using List.mem_takeWhile_imp member

theorem scanf_word {blank : UInt8} (nonempty : text ≠ [])
    (solid : ∀ b ∈ text, isSpace b = false) (isBlank : isSpace blank = true) :
    scanf (.word :: format) (text ++ blank :: rest) =
      (text :: (scanf format (blank :: rest)).1, (scanf format (blank :: rest)).2) := by
  have all : ∀ b ∈ text, (!isSpace b) = true := by
    intro b member
    rw [solid b member]
    rfl
  have start : (text ++ blank :: rest).dropWhile isSpace = text ++ blank :: rest := by
    cases text with
    | nil => exact absurd rfl nonempty
    | cons b text =>
        have isSolid := solid b List.mem_cons_self
        exact List.dropWhile_cons_of_neg (by simp [isSolid])
  have taken : (text ++ blank :: rest).takeWhile (fun b => !isSpace b) = text := by
    rw [List.takeWhile_append_of_pos all, List.takeWhile_cons_of_neg (by simp [isBlank]),
      List.append_nil]
  have left : (text ++ blank :: rest).dropWhile (fun b => !isSpace b) = blank :: rest := by
    rw [List.dropWhile_append_of_pos all, List.dropWhile_cons_of_neg (by simp [isBlank])]
  simp only [scanf, start, taken, left, if_neg nonempty]

end Directives

/-- A call reads forward. -/
theorem scanf_length_le (format : List Directive) (bytes : List UInt8) :
    (scanf format bytes).2.length ≤ bytes.length := by
  induction format generalizing bytes with
  | nil => exact Nat.le_refl _
  | cons directive format ih =>
      cases directive with
      | char b =>
          cases bytes with
          | nil => exact Nat.le_refl _
          | cons c rest =>
              simp only [scanf]
              split
              · exact Nat.le_succ_of_le (ih rest)
              · exact Nat.le_refl _
      | space =>
          have shorter := (List.dropWhile_sublist isSpace (l := bytes)).length_le
          exact Nat.le_trans (ih _) shorter
      | notIn stop =>
          simp only [scanf]
          split
          · exact Nat.le_refl _
          · have shorter := (List.dropWhile_sublist (· ≠ stop) (l := bytes)).length_le
            exact Nat.le_trans (ih _) shorter
      | word =>
          have blank := (List.dropWhile_sublist isSpace (l := bytes)).length_le
          simp only [scanf]
          split
          · exact blank
          · have shorter := (List.dropWhile_sublist (fun b => !isSpace b)
              (l := bytes.dropWhile isSpace)).length_le
            exact Nat.le_trans (ih _) (Nat.le_trans shorter blank)

/-- A conversion behind an ordinary character means that this was read. -/
theorem scanf_char_lt {b : UInt8} {format : List Directive} {bytes : List UInt8}
    (made : (scanf (.char b :: format) bytes).1 ≠ []) :
    (scanf (.char b :: format) bytes).2.length < bytes.length := by
  cases bytes with
  | nil => exact absurd rfl made
  | cons c rest =>
      simp only [scanf] at made ⊢
      split at made
      · rename_i same
        rw [if_pos same]
        exact Nat.lt_succ_of_le (scanf_length_le format rest)
      · exact absurd rfl made

end LinuxCpp.C
