import LinuxCpp.C.Scanf
import LinuxCpp.Websocket.Packet

set_option autoImplicit false

/- `handshark` of websocket.c, and the line of the request that it answers. What OpenSSL
computes is a parameter. -/
namespace LinuxCpp.Websocket

open C

structure Openssl where
  sha1 : List UInt8 → List UInt8
  base64 : List UInt8 → List UInt8

def guid : List UInt8 :=
  charBytes ['2', '5', '8', 'E', 'A', 'F', 'A', '5', '-', 'E', '9', '1', '4', '-', '4', '7', 'D',
    'A', '-', '9', '5', 'C', 'A', '-', 'C', '5', 'A', 'B', '0', 'D', 'C', '8', '5', 'B', '1', '1']

def keyName : List UInt8 :=
  charBytes ['S', 'e', 'c', '-', 'W', 'e', 'b', 'S', 'o', 'c', 'k', 'e', 't', '-', 'K', 'e', 'y']

def keyHeader : List UInt8 := keyName ++ charBytes [':', ' ']

def switchingProtocols (accept : List UInt8) : List UInt8 :=
  charBytes ['H', 'T', 'T', 'P', '/', '1', '.', '1', ' ', '1', '0', '1', ' ', 'S', 'w', 'i', 't',
    'c', 'h', 'i', 'n', 'g', ' ', 'P', 'r', 'o', 't', 'o', 'c', 'o', 'l', 's', '\r', '\n', 'U',
    'p', 'g', 'r', 'a', 'd', 'e', ':', ' ', 'w', 'e', 'b', 's', 'o', 'c', 'k', 'e', 't', '\r',
    '\n', 'C', 'o', 'n', 'n', 'e', 'c', 't', 'i', 'o', 'n', ':', ' ', 'U', 'p', 'g', 'r', 'a',
    'd', 'e', '\r', '\n', 'S', 'e', 'c', '-', 'W', 'e', 'b', 'S', 'o', 'c', 'k', 'e', 't', '-',
    'A', 'c', 'c', 'e', 'p', 't', ':', ' '] ++ accept ++ [13, 10, 13, 10]

/-- The text in the buffer. -/
def text {size : Nat} (b : Block size) : List UInt8 := b.bytes.takeWhile (· ≠ 0)

def strlen {size : Nat} (b : Block size) : Except Fault Nat :=
  if (text b).length < size then .ok (text b).length else .error .unterminated

/-- What stands from the first `needle` on. -/
def strstr (needle : List UInt8) : List UInt8 → Option (List UInt8)
  | [] => if needle = [] then some [] else none
  | b :: rest => if needle.isPrefixOf (b :: rest) then some (b :: rest) else strstr needle rest

/-- The loop of `readline` over the remaining `n` bytes from `level`. Both reads are in front of
the terminator or at it, and a line, shorter than the text, has room in `linebuf`. -/
def readlineLoop (allbuf : Block bufferLength) :
    Nat → Nat → List UInt8 → Except Fault (Option Nat × List UInt8)
  | 0, _, line => .ok (none, line)
  | n + 1, level, line => do
      let a ← load8 allbuf.bytes level
      let b ← load8 allbuf.bytes (level + 1)
      if a = 13 ∧ b = 10 then return (some (level + 2), line)
      else readlineLoop allbuf n (level + 1) (line ++ [a])

/-- The next level, where the code has -1 for `none`, and the line. -/
def readline (allbuf : Block bufferLength) (level : Nat) :
    Except Fault (Option Nat × List UInt8) := do
  let len ← strlen allbuf
  readlineLoop allbuf (len - level) level []

/-- What `handshark` does with the key it found. -/
def answerKey (ssl : Openssl) (c : Conn) (key : List UInt8) : Except Fault Conn :=
  let secAccept := ssl.base64 (ssl.sha1 (key ++ guid))
  let response := switchingProtocols secAccept
  -- `combined[256]` and `sec_accept[64]`
  if 256 ≤ (key ++ guid).length ∨ 64 ≤ secAccept.length then .error .overflow
  else if fits : response.length < bufferLength then
    .ok { c with wbuffer := .holding response (Nat.le_of_lt fits), wlength := response.length }
  else .error .overflow

/-- The loop of `handshark`. With `idx == -1` it ends, whatever stands in `rbuffer[-1]`. -/
def handsharkLoop (ssl : Openssl) (c : Conn) : Nat → Nat → Except Fault (Int × Conn)
  | 0, _ => .error .fuel
  | fuel + 1, idx => do
      let (idx, linebuf) ← readline c.rbuffer idx
      if (strstr keyName linebuf).isSome then
        match strstr keyHeader linebuf with
        | none => return (-1, c)
        | some keyStart => return (0, ← answerKey ssl c (keyStart.drop 19))
      else
        match idx with
        | none => return (0, c)
        | some idx =>
            let a ← load8 c.rbuffer.bytes idx
            if a ≠ 13 then handsharkLoop ssl c fuel idx
            else
              let b ← load8 c.rbuffer.bytes (idx + 1)
              if b ≠ 10 then handsharkLoop ssl c fuel idx else return (0, c)

def handshark (ssl : Openssl) (c : Conn) : Except Fault (Int × Conn) :=
  handsharkLoop ssl c (bufferLength + 1) 0

/-- The first line, and the text behind its end. -/
def cutLine : List UInt8 → List UInt8 × Option (List UInt8)
  | [] => ([], none)
  | a :: rest =>
      if a = 13 ∧ rest.head? = some 10 then ([], some rest.tail)
      else (a :: (cutLine rest).1, (cutLine rest).2)

/-- The first line with the name of the key, among the first `n` and before an empty one. -/
def keyLine : Nat → List UInt8 → Option (List UInt8)
  | 0, _ => none
  | n + 1, request =>
      if (strstr keyName (cutLine request).1).isSome then some (cutLine request).1
      else
        match (cutLine request).2 with
        | none => none
        | some rest => if [13, 10].isPrefixOf rest then none else keyLine n rest

/-- The first line with the name of the key has the whole header, with a blank. -/
def NamesKey (request : List UInt8) : Prop :=
  ∃ line, keyLine (bufferLength + 1) request = some line ∧ (strstr keyHeader line).isSome

section Lines

variable {size : Nat} {front tail rest line : List UInt8} {a b : UInt8}

/-- The byte behind a terminated text is its terminator. -/
theorem text_split {buffer : Block size} (short : (text buffer).length < size) :
    ∃ rest, buffer.bytes = text buffer ++ 0 :: rest := by
  have whole := List.takeWhile_append_dropWhile (p := (· ≠ (0 : UInt8))) (l := buffer.bytes)
  have length := buffer.length
  cases left : buffer.bytes.dropWhile (· ≠ (0 : UInt8)) with
  | nil =>
      rw [left, List.append_nil] at whole
      rw [← whole] at length
      exact absurd length (Nat.ne_of_lt short)
  | cons b rest =>
      have isNul : b = 0 := by
        have head := List.head?_dropWhile_not (· ≠ (0 : UInt8)) buffer.bytes
        rw [left] at head
        simpa using head
      rw [left, isNul] at whole
      exact ⟨rest, whole.symm⟩

theorem cutLine_split {more : List UInt8} (ends : (cutLine tail).2 = some more) :
    tail = (cutLine tail).1 ++ 13 :: 10 :: more := by
  induction tail with
  | nil => cases ends
  | cons a tail ih =>
      rw [cutLine] at ends ⊢
      by_cases isEnd : a = 13 ∧ tail.head? = some 10
      · rw [if_pos isEnd] at ends ⊢
        obtain ⟨rfl, first⟩ := isEnd
        obtain ⟨tail, rfl⟩ := List.head?_eq_some_iff.mp first
        cases ends
        rfl
      · rw [if_neg isEnd] at ends ⊢
        exact congrArg (a :: ·) (ih ends)

theorem readlineLoop_eq {buffer : Block bufferLength}
    (split : buffer.bytes = front ++ (tail ++ 0 :: rest)) (line : List UInt8) :
    readlineLoop buffer tail.length front.length line =
      .ok ((cutLine tail).2.map fun _ => front.length + (cutLine tail).1.length + 2,
        line ++ (cutLine tail).1) := by
  induction tail generalizing front line with
  | nil => simp [readlineLoop, cutLine]
  | cons a tail ih =>
      have split' : buffer.bytes = (front ++ [a]) ++ (tail ++ 0 :: rest) := by
        rw [split]
        simp
      have next : load8 buffer.bytes (front.length + 1) = .ok (tail.head?.getD 0) := by
        have length : front.length + 1 = (front ++ [a]).length := by simp
        rw [length]
        cases tail with
        | nil => exact load8_at split'
        | cons b tail => exact load8_at split'
      rw [List.length_cons, readlineLoop, load8_at split, ok_bind, next, ok_bind]
      have same : tail.head?.getD 0 = 10 ↔ tail.head? = some 10 := by
        cases tail <;> simp
      rw [cutLine]
      by_cases isEnd : a = 13 ∧ tail.head? = some 10
      · have isEnd' : a = 13 ∧ tail.head?.getD 0 = 10 := ⟨isEnd.1, same.mpr isEnd.2⟩
        rw [if_pos isEnd', if_pos isEnd]
        simp
        rfl
      · have notEnd : ¬ (a = 13 ∧ tail.head?.getD 0 = 10) := fun ends =>
          isEnd ⟨ends.1, same.mp ends.2⟩
        rw [if_neg notEnd, if_neg isEnd]
        have ran := ih split' (line ++ [a])
        rw [List.length_append, List.length_singleton] at ran
        rw [ran]
        simp [Nat.add_assoc, Nat.add_comm]

/-- What stands at a place of the text, or the terminator behind it. -/
theorem load8_next {buffer : Block bufferLength}
    (split : buffer.bytes = front ++ (tail ++ 0 :: rest)) :
    load8 buffer.bytes front.length = .ok (tail.head?.getD 0) := by
  cases tail with
  | nil => exact load8_at split
  | cons a tail => exact load8_at split

/-- The test for an empty line, which ends the loop of `handshark`. -/
theorem loopTest {α : Type} {buffer : Block bufferLength} {next stop : Except Fault α}
    (split : buffer.bytes = front ++ (tail ++ 0 :: rest)) :
    (do
      let a ← load8 buffer.bytes front.length
      if a ≠ 13 then next
      else
        let b ← load8 buffer.bytes (front.length + 1)
        if b ≠ 10 then next else stop) =
      if [13, 10].isPrefixOf tail then stop else next := by
  rw [load8_next split, ok_bind]
  cases tail with
  | nil => rfl
  | cons a tail =>
      have behind : buffer.bytes = (front ++ [a]) ++ (tail ++ 0 :: rest) := by
        rw [split]
        simp
      have second := load8_next behind
      rw [List.length_append, List.length_singleton] at second
      show (if a ≠ 13 then next else _) = _
      by_cases isCr : a = 13
      · rw [if_neg (not_not_intro isCr), second, ok_bind, isCr]
        cases tail with
        | nil => rfl
        | cons b tail =>
            by_cases isLf : b = 10
            · subst isLf
              rfl
            · have other : ([13, 10] : List UInt8).isPrefixOf (13 :: b :: tail) = false := by
                simpa [List.isPrefixOf] using Ne.symm isLf
              rw [other]
              exact if_pos isLf
      · rw [if_pos isCr, if_neg]
        simpa [List.isPrefixOf] using fun same => absurd same.symm isCr

/-- The text behind the end of a line. -/
theorem behind_line {buffer : Block bufferLength} {more : List UInt8}
    (split : buffer.bytes = front ++ (tail ++ 0 :: rest)) (whole : text buffer = front ++ tail)
    (ends : (cutLine tail).2 = some more) :
    ∃ done, buffer.bytes = done ++ (more ++ 0 :: rest) ∧ text buffer = done ++ more ∧
      front.length + (cutLine tail).1.length + 2 = done.length ∧
      (cutLine tail).1.length + 2 + more.length = tail.length := by
  have parts := cutLine_split ends
  generalize (cutLine tail).1 = first at parts
  refine ⟨front ++ (first ++ [13, 10]), ?_, ?_, ?_, ?_⟩
  · rw [split, parts]
    simp
  · rw [whole, parts]
    simp
  · simp [Nat.add_assoc]
  · rw [parts]
    simp only [List.length_append, List.length_cons]
    omega

/-- What `handshark` answers to a request with this first line for the key. -/
def outcome (ssl : Openssl) (c : Conn) : Option (List UInt8) → Except Fault (Int × Conn)
  | none => .ok (0, c)
  | some line =>
      match strstr keyHeader line with
      | none => .ok (-1, c)
      | some keyStart => do return (0, ← answerKey ssl c (keyStart.drop 19))

theorem handsharkLoop_eq (ssl : Openssl) {c : Conn} {fuel : Nat}
    (split : c.rbuffer.bytes = front ++ (tail ++ 0 :: rest))
    (whole : text c.rbuffer = front ++ tail) (enough : tail.length < fuel) :
    handsharkLoop ssl c fuel front.length = outcome ssl c (keyLine fuel tail) := by
  induction fuel generalizing front tail with
  | zero => omega
  | succ fuel ih =>
      have length := congrArg List.length split
      rw [c.rbuffer.length] at length
      simp only [List.length_append, List.length_cons] at length
      have short : (text c.rbuffer).length < bufferLength := by
        rw [whole, List.length_append]
        omega
      have read : readline c.rbuffer front.length =
          .ok ((cutLine tail).2.map fun _ => front.length + (cutLine tail).1.length + 2,
            (cutLine tail).1) := by
        have remaining : (text c.rbuffer).length - front.length = tail.length := by
          rw [whole, List.length_append]
          omega
        rw [readline, strlen, if_pos short, ok_bind, remaining, readlineLoop_eq split,
          List.nil_append]
      rw [handsharkLoop, read, ok_bind, keyLine]
      dsimp only
      by_cases named : (strstr keyName (cutLine tail).1).isSome
      · rw [if_pos named, if_pos named]
        rfl
      · rw [if_neg named, if_neg named]
        cases ends : (cutLine tail).2 with
        | none => rfl
        | some more =>
            obtain ⟨done, split', whole', level, parts⟩ := behind_line split whole ends
            simp only [Option.map_some]
            rw [level, loopTest split']
            by_cases isEmpty : [13, 10].isPrefixOf more = true
            · rw [if_pos isEmpty, if_pos isEmpty]
              rfl
            · rw [if_neg isEmpty, if_neg isEmpty]
              exact ih split' whole' (by omega)

/-- The loops find the line, if the request ends inside the buffer. -/
theorem handshark_eq (ssl : Openssl) {c : Conn} (short : (text c.rbuffer).length < bufferLength) :
    handshark ssl c = outcome ssl c (keyLine (bufferLength + 1) (text c.rbuffer)) := by
  obtain ⟨rest, split⟩ := text_split short
  have split' : c.rbuffer.bytes = [] ++ (text c.rbuffer ++ 0 :: rest) := split
  exact handsharkLoop_eq ssl split' rfl (Nat.lt_succ_of_lt short)

theorem handshark_unterminated (ssl : Openssl) {c : Conn}
    (full : ¬ (text c.rbuffer).length < bufferLength) :
    handshark ssl c = .error .unterminated := by
  have read : readline c.rbuffer 0 = .error .unterminated := by
    rw [readline, strlen, if_neg full]
    rfl
  rw [handshark, handsharkLoop, read]
  rfl

theorem answerKey_ok {ssl : Openssl} {c c' : Conn} {key : List UInt8}
    (answered : answerKey ssl c key = .ok c') :
    c'.status = c.status ∧
      ∃ accept fits, c'.wbuffer = .holding (switchingProtocols accept) fits := by
  simp only [answerKey] at answered
  split at answered
  · cases answered
  · split at answered
    · rename_i fits
      cases answered
      exact ⟨rfl, _, Nat.le_of_lt fits, rfl⟩
    · cases answered

/-- A request that names the key is answered. -/
theorem handshark_answers {ssl : Openssl} {c c' : Conn} {code : Int}
    (names : NamesKey (text c.rbuffer)) (ran : handshark ssl c = .ok (code, c')) :
    ∃ accept fits, c'.wbuffer = .holding (switchingProtocols accept) fits := by
  by_cases short : (text c.rbuffer).length < bufferLength
  · obtain ⟨line, isLine, header⟩ := names
    obtain ⟨keyStart, found⟩ := Option.isSome_iff_exists.mp header
    rw [handshark_eq ssl short, isLine] at ran
    simp only [outcome, found] at ran
    obtain ⟨next, answered, returned⟩ := ok_of_map ran
    cases returned
    exact (answerKey_ok answered).2
  · rw [handshark_unterminated ssl short] at ran
    cases ran

end Lines

end LinuxCpp.Websocket
