import LinuxCpp.Websocket.Greeting

set_option autoImplicit false

/- `handshark` with its arrays. `linebuf` and `combined` are memory, and a read of
`rbuffer[-1]` is outside of the buffer. -/
namespace LinuxCpp.Websocket

open C

def linebufSize : Nat := 1024

/-- The loop of `readline`: the byte at `level` goes to `linebuf[k]`. -/
def readlineAtLoop (allbuf : Block bufferLength) :
    Nat → Nat → Nat → Block linebufSize → Except Fault (Option Nat × Block linebufSize)
  | 0, _, _, linebuf => .ok (none, linebuf)
  | n + 1, level, k, linebuf => do
      let a ← load8 allbuf.bytes level
      let b ← if a = 13 then load8 allbuf.bytes (level + 1) else pure 0
      if a = 13 ∧ b = 10 then return (some (level + 2), linebuf)
      else readlineAtLoop allbuf n (level + 1) (k + 1) (← linebuf.store k [a])

def readlineAt (allbuf : Block bufferLength) (level : Nat) (linebuf : Block linebufSize) :
    Except Fault (Option Nat × Block linebufSize) := do
  let len ← strlen allbuf
  readlineAtLoop allbuf (len - level) level 0 linebuf

/-- `base64_encode(in_str, 20, out_str)` with the two arrays of `handshark`. -/
def base64Encode (ssl : Openssl) (inStr : Block 128) (outStr : Block 64) :
    Except Fault (Block 64) := do
  outStr.store 0 (ssl.base64 (← inStr.load 0 20) ++ [0])

/-- What `handshark` does with the key that stands at `keyStart` in `linebuf`. -/
def answerKeyAt (ssl : Openssl) (c : Conn) (keyStart : List UInt8) : Except Fault Conn := do
  let combined ← (Block.zeroed 256).store 0 (keyStart ++ [0])
  let combined ← combined.store (← strlen combined) (guid ++ [0])
  let _ ← strlen combined
  let secData ← (Block.zeroed 128).store 0 (ssl.sha1 (text combined))
  let secAccept ← base64Encode ssl secData (.zeroed 64)
  let _ ← strlen secAccept
  let response := switchingProtocols (text secAccept)
  let wbuffer ← (Block.zeroed bufferLength).store 0 (response ++ [0])
  return { c with wbuffer := wbuffer, wlength := response.length }

def handsharkAtLoop (ssl : Openssl) (c : Conn) : Nat → Nat → Except Fault (Int × Conn)
  | 0, _ => .error .fuel
  | fuel + 1, idx => do
      let (idx, linebuf) ← readlineAt c.rbuffer idx (.zeroed _)
      let _ ← strlen linebuf
      if (strstr keyName (text linebuf)).isSome then
        match strstr keyHeader (text linebuf) with
        | none => return (-1, c)
        | some keyStart => return (0, ← answerKeyAt ssl c (keyStart.drop 19))
      else
        match idx with
        | none => throw .outOfBounds
        | some idx =>
            let a ← load8 c.rbuffer.bytes idx
            if a ≠ 13 then handsharkAtLoop ssl c fuel idx
            else
              let b ← load8 c.rbuffer.bytes (idx + 1)
              if b ≠ 10 then handsharkAtLoop ssl c fuel idx else return (0, c)

def handsharkAt (ssl : Openssl) (c : Conn) : Except Fault (Int × Conn) :=
  handsharkAtLoop ssl c (bufferLength + 1) 0

/-- What is promised of OpenSSL: a digest has 20 bytes, and 28 printable ones encode them. -/
structure Openssl.Documented (ssl : Openssl) : Prop where
  digest : ∀ bytes, (ssl.sha1 bytes).length = 20
  encoded : ∀ bytes : List UInt8, bytes.length = 20 → (ssl.base64 bytes).length = 28
  printable : ∀ bytes, (0 : UInt8) ∉ ssl.base64 bytes

/-- The request has a line with the name of the key, with at most 219 bytes behind its
header, or else an empty line. -/
def EndsInside (request : List UInt8) : Prop :=
  match keyLine (bufferLength + 1) request with
  | none => [13, 10, 13, 10] <:+: request
  | some line => ∀ header, strstr keyHeader line = some header → (header.drop 19).length ≤ 219

section Lines

/-- An empty line stands behind a line end. -/
theorem infix_cutLine {request : List UInt8} : [13, 10, 13, 10] <:+: request ↔
    ∃ more, (cutLine request).2 = some more ∧
      ([13, 10] <+: more ∨ [13, 10, 13, 10] <:+: more) := by
  induction request with
  | nil => simp [cutLine]
  | cons a rest ih =>
      rw [List.infix_cons_iff, cutLine]
      by_cases isEnd : a = 13 ∧ rest.head? = some 10
      · rw [if_pos isEnd]
        obtain ⟨rfl, first⟩ := isEnd
        obtain ⟨more, rfl⟩ := List.head?_eq_some_iff.mp first
        simp [List.cons_prefix_cons, List.infix_cons_iff (a := (10 : UInt8))]
      · rw [if_neg isEnd, ← ih]
        refine or_iff_right fun begins => isEnd ?_
        obtain ⟨behind, whole⟩ := begins
        cases whole
        exact ⟨rfl, rfl⟩

theorem text_of_line {size : Nat} {b : Block size} {line back : List UInt8}
    (split : b.bytes = line ++ 0 :: back) (noNul : (0 : UInt8) ∉ line) : text b = line := by
  unfold text
  rw [split]
  exact CStr.upToNul_terminated noNul back

variable {front tail rest line : List UInt8} {n : Nat}

/-- The loop copies the line behind what `linebuf` already has. -/
theorem readlineAtLoop_ok {buffer : Block bufferLength} {linebuf : Block linebufSize}
    (split : buffer.bytes = front ++ (tail ++ 0 :: rest))
    (filled : linebuf.bytes = line ++ List.replicate n 0) (room : tail.length < n) :
    ∃ linebuf' m, readlineAtLoop buffer tail.length front.length line.length linebuf =
        .ok ((cutLine tail).2.map fun _ => front.length + (cutLine tail).1.length + 2, linebuf') ∧
      linebuf'.bytes = line ++ (cutLine tail).1 ++ List.replicate (m + 1) 0 := by
  induction tail generalizing front line n linebuf with
  | nil =>
      obtain ⟨m, rfl⟩ := Nat.exists_eq_succ_of_ne_zero (Nat.ne_of_gt room)
      exact ⟨linebuf, m, rfl, by simpa [cutLine] using filled⟩
  | cons a tail ih =>
      have split' : buffer.bytes = (front ++ [a]) ++ (tail ++ 0 :: rest) := by
        rw [split]
        simp
      have next := load8_next split'
      rw [List.length_append, List.length_singleton] at next
      have same : tail.head?.getD 0 = 10 ↔ tail.head? = some 10 := by
        cases tail <;> simp
      rw [List.length_cons] at room
      obtain ⟨n, rfl⟩ : ∃ k, n = k + 1 := ⟨n - 1, by omega⟩
      rw [List.length_cons, readlineAtLoop, load8_at split, ok_bind, cutLine]
      by_cases isEnd : a = 13 ∧ tail.head? = some 10
      · refine ⟨linebuf, n, ?_, by simpa [isEnd] using filled⟩
        rw [if_pos isEnd, if_pos isEnd.1, next, ok_bind]
        dsimp only
        rw [if_pos ⟨isEnd.1, same.mpr isEnd.2⟩]
        rfl
      · have first : linebuf.bytes = line ++ ([0] ++ List.replicate n 0) := filled
        obtain ⟨linebuf₁, stored, filled₁⟩ :=
          Block.store_split [a] first rfl rfl
        have filled' : linebuf₁.bytes = (line ++ [a]) ++ List.replicate n 0 := by
          rw [filled₁]
          simp
        obtain ⟨linebuf', m, ran, content⟩ :=
          ih split' filled' (Nat.lt_of_succ_lt_succ room)
        refine ⟨linebuf', m, ?_, by rw [if_neg isEnd, content]; simp⟩
        simp only [List.length_append, List.length_singleton] at ran
        have goesOn (b : UInt8) (notEnd : ¬ (a = 13 ∧ b = 10)) :
            (if a = 13 ∧ b = 10 then pure (some (front.length + 2), linebuf)
            else do
              readlineAtLoop buffer tail.length (front.length + 1) (line.length + 1)
                (← linebuf.store line.length [a])) = .ok ((cutLine tail).2.map fun _ =>
                  front.length + 1 + (cutLine tail).1.length + 2, linebuf') := by
          rw [if_neg notEnd, stored, ok_bind, ran]
        have length : front.length + (a :: (cutLine tail).1).length + 2 =
            front.length + 1 + (cutLine tail).1.length + 2 := by
          rw [List.length_cons]
          omega
        rw [if_neg isEnd, length]
        by_cases isCr : a = 13
        · rw [if_pos isCr, next, ok_bind]
          exact goesOn _ fun both => isEnd ⟨isCr, same.mp both.2⟩
        · rw [if_neg isCr]
          exact goesOn 0 fun both => isCr both.1

theorem cutLine_begins (request : List UInt8) : (cutLine request).1 <+: request := by
  induction request with
  | nil => exact List.prefix_refl []
  | cons a rest ih =>
      rw [cutLine]
      split
      · exact List.nil_prefix
      · exact List.cons_prefix_cons.mpr ⟨rfl, ih⟩

theorem text_noNul {size : Nat} (b : Block size) : (0 : UInt8) ∉ text b := by
  intro member
  simpa using List.mem_takeWhile_imp member

/-- A line of the request has room in `linebuf`, and its terminator behind it. -/
theorem readlineAt_ok {buffer : Block bufferLength}
    (split : buffer.bytes = front ++ (tail ++ 0 :: rest)) (whole : text buffer = front ++ tail) :
    ∃ linebuf, readlineAt buffer front.length (.zeroed _) =
        .ok ((cutLine tail).2.map fun _ => front.length + (cutLine tail).1.length + 2, linebuf) ∧
      text linebuf = (cutLine tail).1 ∧ strlen linebuf = .ok (cutLine tail).1.length := by
  have length := congrArg List.length split
  rw [buffer.length] at length
  simp only [List.length_append, List.length_cons] at length
  have limit : bufferLength = linebufSize := rfl
  have empty : (Block.zeroed linebufSize).bytes = [] ++ List.replicate linebufSize 0 := rfl
  obtain ⟨linebuf, m, ran, content⟩ := readlineAtLoop_ok split empty (by omega)
  have noNul : (0 : UInt8) ∉ (cutLine tail).1 := by
    intro member
    apply text_noNul buffer
    rw [whole]
    exact List.mem_append_right _ ((cutLine_begins tail).subset member)
  rw [List.nil_append] at content
  have isLine : text linebuf = (cutLine tail).1 := text_of_line content noNul
  refine ⟨linebuf, ?_, isLine, ?_⟩
  · have short : (text buffer).length < bufferLength := by
      rw [whole, List.length_append]
      omega
    have remaining : (text buffer).length - front.length = tail.length := by
      rw [whole, List.length_append]
      omega
    rw [readlineAt, strlen, if_pos short, ok_bind, remaining]
    exact ran
  · have filled := congrArg List.length content
    rw [linebuf.length] at filled
    simp only [List.length_append, List.length_replicate] at filled
    rw [strlen, isLine, if_pos (by omega)]

/-- What `handshark` does at the first line for the key, or without one. -/
def outcomeAt (ssl : Openssl) (c : Conn) (request : List UInt8) :
    Option (List UInt8) → Except Fault (Int × Conn)
  | none => if [13, 10, 13, 10] <:+: request then .ok (0, c) else .error .outOfBounds
  | some line =>
      match strstr keyHeader line with
      | none => .ok (-1, c)
      | some keyStart => do return (0, ← answerKeyAt ssl c (keyStart.drop 19))

theorem outcomeAt_behind (ssl : Openssl) (c : Conn) {request more : List UInt8}
    (ends : (cutLine request).2 = some more) (goesOn : ¬ [13, 10] <+: more)
    (line : Option (List UInt8)) : outcomeAt ssl c request line = outcomeAt ssl c more line := by
  have same : [13, 10, 13, 10] <:+: request ↔ [13, 10, 13, 10] <:+: more := by
    rw [infix_cutLine]
    constructor
    · rintro ⟨more', ends', begins | behind⟩
      · cases ends.symm.trans ends'
        exact absurd begins goesOn
      · cases ends.symm.trans ends'
        exact behind
    · exact fun behind => ⟨more, ends, .inr behind⟩
  cases line with
  | none => simp only [outcomeAt, same]
  | some line => rfl

theorem handsharkAtLoop_eq (ssl : Openssl) {c : Conn} {fuel : Nat}
    (split : c.rbuffer.bytes = front ++ (tail ++ 0 :: rest))
    (whole : text c.rbuffer = front ++ tail) (enough : tail.length < fuel) :
    handsharkAtLoop ssl c fuel front.length = outcomeAt ssl c tail (keyLine fuel tail) := by
  induction fuel generalizing front tail with
  | zero => omega
  | succ fuel ih =>
      obtain ⟨linebuf, read, isLine, ended⟩ := readlineAt_ok split whole
      rw [handsharkAtLoop, read, ok_bind, keyLine]
      dsimp only
      rw [ended, ok_bind, isLine]
      by_cases named : (strstr keyName (cutLine tail).1).isSome
      · rw [if_pos named, if_pos named]
        rfl
      · rw [if_neg named, if_neg named]
        cases ends : (cutLine tail).2 with
        | none =>
            have noEnd : ¬ [13, 10, 13, 10] <:+: tail := by
              rw [infix_cutLine]
              rintro ⟨more, ends', -⟩
              cases ends.symm.trans ends'
            show _ = outcomeAt ssl c tail none
            rw [outcomeAt, if_neg noEnd]
            rfl
        | some more =>
            obtain ⟨done, split', whole', level, parts⟩ := behind_line split whole ends
            simp only [Option.map_some]
            rw [level, loopTest split']
            by_cases isEmpty : [13, 10].isPrefixOf more = true
            · have begins : [13, 10] <+: more := List.isPrefixOf_iff_prefix.mp isEmpty
              have found : [13, 10, 13, 10] <:+: tail :=
                infix_cutLine.mpr ⟨more, ends, .inl begins⟩
              rw [if_pos isEmpty, if_pos isEmpty]
              show _ = outcomeAt ssl c tail none
              rw [outcomeAt, if_pos found]
              rfl
            · have goesOn : ¬ [13, 10] <+: more := fun begins =>
                isEmpty (List.isPrefixOf_iff_prefix.mpr begins)
              rw [if_neg isEmpty, if_neg isEmpty, outcomeAt_behind ssl c ends goesOn]
              exact ih split' whole' (by omega)

theorem handsharkAt_eq (ssl : Openssl) {c : Conn} (short : (text c.rbuffer).length < bufferLength) :
    handsharkAt ssl c =
      outcomeAt ssl c (text c.rbuffer) (keyLine (bufferLength + 1) (text c.rbuffer)) := by
  obtain ⟨rest, split⟩ := text_split short
  have split' : c.rbuffer.bytes = [] ++ (text c.rbuffer ++ 0 :: rest) := split
  exact handsharkAtLoop_eq ssl split' rfl (Nat.lt_succ_of_lt short)

theorem strstr_suffix {needle found : List UInt8} (holds : strstr needle line = some found) :
    found <:+ line := by
  induction line with
  | nil =>
      rw [strstr] at holds
      split at holds
      · cases holds
        exact List.suffix_refl _
      · cases holds
  | cons a rest ih =>
      rw [strstr] at holds
      split at holds
      · cases holds
        exact List.suffix_refl _
      · exact (ih holds).trans (List.suffix_cons a rest)

theorem keyLine_noNul {request : List UInt8} (noNul : (0 : UInt8) ∉ request)
    (found : keyLine n request = some line) : (0 : UInt8) ∉ line := by
  induction n generalizing request with
  | zero => cases found
  | succ n ih =>
      rw [keyLine] at found
      split at found
      · cases found
        exact fun member => noNul ((cutLine_begins request).subset member)
      · split at found
        · cases found
        · rename_i more ends
          split at found
          · cases found
          · refine ih (fun member => noNul ?_) found
            rw [cutLine_split ends]
            simp [member]

theorem key_noNul {request header : List UInt8} (noNul : (0 : UInt8) ∉ request)
    (found : keyLine n request = some line) (named : strstr keyHeader line = some header) :
    (0 : UInt8) ∉ header.drop 19 := fun member =>
  keyLine_noNul noNul found ((strstr_suffix named).subset (List.mem_of_mem_drop member))

end Lines

section Key

variable {size n : Nat} {line : List UInt8}

/-- `strcpy` or `strcat` to the end of what an array of zeros begins with. -/
theorem store_text {b : Block size} {front : List UInt8}
    (split : b.bytes = front ++ List.replicate (line.length + (n + 1)) 0)
    (noNul : (0 : UInt8) ∉ front ++ line) :
    ∃ b', b.store front.length (line ++ [0]) = .ok b' ∧
      b'.bytes = front ++ line ++ List.replicate (n + 1) 0 ∧ text b' = front ++ line ∧
      strlen b' = .ok (front ++ line).length := by
  have parts : b.bytes =
      front ++ (List.replicate (line ++ [0]).length 0 ++ List.replicate n 0) := by
    rw [split, List.replicate_append_replicate, List.length_append, List.length_singleton]
    simp only [Nat.add_assoc, Nat.add_comm 1 n]
  obtain ⟨b', stored, content⟩ := Block.store_split (line ++ [0]) parts rfl (by simp)
  have whole : b'.bytes = (front ++ line) ++ 0 :: List.replicate n 0 := by
    rw [content]
    simp
  have isText := text_of_line whole noNul
  have length := congrArg List.length whole
  rw [b'.length, List.length_append, List.length_cons] at length
  refine ⟨b', stored, whole, isText, ?_⟩
  rw [strlen, isText, if_pos (by omega)]

theorem store_zeroed (room : line.length < size) (noNul : (0 : UInt8) ∉ line) :
    ∃ b, (Block.zeroed size).store 0 (line ++ [0]) = .ok b ∧
      b = .holding line (Nat.le_of_lt room) ∧ text b = line ∧ strlen b = .ok line.length := by
  obtain ⟨n, rfl⟩ : ∃ n, size = line.length + (n + 1) := ⟨size - line.length - 1, by omega⟩
  have split : (Block.zeroed (line.length + (n + 1))).bytes =
      [] ++ List.replicate (line.length + (n + 1)) 0 := rfl
  obtain ⟨b, stored, content, isText, ended⟩ := store_text split noNul
  refine ⟨b, stored, ?_, isText, ended⟩
  obtain ⟨bytes, length⟩ := b
  simp only [List.nil_append] at content
  simp [Block.holding, content]

theorem guid_length : guid.length = 36 := rfl

theorem guid_noNul : (0 : UInt8) ∉ guid := by decide

theorem switchingProtocols_length (accept : List UInt8) :
    (switchingProtocols accept).length = 97 + accept.length + 4 := by
  unfold switchingProtocols
  rw [List.length_append, List.length_append]
  rfl

theorem switchingProtocols_noNul {accept : List UInt8} (noNul : (0 : UInt8) ∉ accept) :
    (0 : UInt8) ∉ switchingProtocols accept := by
  unfold switchingProtocols
  simp only [List.mem_append, not_or]
  exact ⟨⟨by decide, noNul⟩, by decide⟩

/-- The other arrays have room for what OpenSSL gives. -/
theorem response_fits {ssl : Openssl} (documented : ssl.Documented) (key : List UInt8) :
    (switchingProtocols (ssl.base64 (ssl.sha1 (key ++ guid)))).length < bufferLength := by
  rw [switchingProtocols_length, documented.encoded _ (documented.digest _)]
  decide

theorem answerKey_fits {ssl : Openssl} (documented : ssl.Documented) (c : Conn)
    (short : line.length ≤ 219) : answerKey ssl c line =
      .ok { c with
        wbuffer := .holding (switchingProtocols (ssl.base64 (ssl.sha1 (line ++ guid))))
          (Nat.le_of_lt (response_fits documented line))
        wlength := (switchingProtocols (ssl.base64 (ssl.sha1 (line ++ guid)))).length } := by
  have inside : ¬ (256 ≤ (line ++ guid).length ∨
      64 ≤ (ssl.base64 (ssl.sha1 (line ++ guid))).length) := by
    rw [documented.encoded _ (documented.digest _), List.length_append, guid_length]
    omega
  rw [answerKey, if_neg inside, dif_pos (response_fits documented line)]

/-- `combined` has room for 219 bytes of a key. -/
theorem answerKeyAt_eq {ssl : Openssl} (documented : ssl.Documented) (c : Conn)
    (noNul : (0 : UInt8) ∉ line) : answerKeyAt ssl c line =
      if line.length ≤ 219 then answerKey ssl c line else .error .outOfBounds := by
  by_cases short : line.length < 256
  · obtain ⟨copied, stored, holds, -, ended⟩ := store_zeroed short noNul
    by_cases shorter : line.length ≤ 219
    · obtain ⟨n, level⟩ : ∃ n, 256 - line.length = guid.length + (n + 1) :=
        ⟨219 - line.length, by rw [guid_length]; omega⟩
      have filled : copied.bytes = line ++ List.replicate (guid.length + (n + 1)) 0 := by
        rw [holds, ← level]
        rfl
      obtain ⟨combined, stored₁, -, isText, ended₁⟩ :=
        store_text filled (by simp [noNul, guid_noNul])
      have digest := documented.digest (line ++ guid)
      obtain ⟨secData, stored₂⟩ := (Block.zeroed 128).store_inside (i := 0)
        (ssl.sha1 (line ++ guid)) (by rw [digest]; decide)
      have loaded := Block.load_store stored₂
      rw [digest] at loaded
      have encoded := documented.encoded _ digest
      have printable := documented.printable (ssl.sha1 (line ++ guid))
      have room₃ : (ssl.base64 (ssl.sha1 (line ++ guid))).length < 64 := by
        rw [encoded]
        decide
      obtain ⟨secAccept, stored₃, -, isText₃, ended₃⟩ := store_zeroed room₃ printable
      obtain ⟨wbuffer, stored₄, holds₄, -⟩ := store_zeroed (response_fits documented line)
        (switchingProtocols_noNul printable)
      have written : base64Encode ssl secData (.zeroed 64) = .ok secAccept := by
        rw [base64Encode, loaded, ok_bind, stored₃]
      rw [if_pos shorter, answerKey_fits documented c shorter, answerKeyAt, stored, ok_bind, ended,
        ok_bind, stored₁, ok_bind, ended₁, ok_bind, isText, stored₂, ok_bind, written, ok_bind,
        ended₃, ok_bind, isText₃]
      dsimp only
      rw [stored₄, ok_bind, holds₄]
      rfl
    · rw [if_neg shorter, answerKeyAt, stored, ok_bind, ended, ok_bind, Block.store_beyond]
      · rfl
      · rw [List.length_append, guid_length]
        simp only [List.length_singleton]
        omega
  · rw [if_neg (by omega), answerKeyAt, Block.store_beyond]
    · rfl
    · rw [List.length_append, List.length_singleton]
      omega

variable {ssl : Openssl} {c : Conn} {request : List UInt8}

/-- Where no fault ends it, the memory of the other functions is not missed. -/
theorem outcomeAt_ok (documented : ssl.Documented) (noNul : (0 : UInt8) ∉ request)
    {r : Int × Conn} :
    outcomeAt ssl c request (keyLine (bufferLength + 1) request) = .ok r ↔
      EndsInside request ∧ outcome ssl c (keyLine (bufferLength + 1) request) = .ok r := by
  unfold EndsInside
  cases found : keyLine (bufferLength + 1) request with
  | none =>
      dsimp only [outcomeAt, outcome]
      by_cases ends : [13, 10, 13, 10] <:+: request
      · simp [ends]
      · simp [ends]
  | some line =>
      dsimp only [outcomeAt, outcome]
      cases named : strstr keyHeader line with
      | none => simp
      | some header =>
          simp only [Option.some.injEq, forall_eq']
          rw [answerKeyAt_eq documented c (key_noNul noNul found named)]
          by_cases short : (header.drop 19).length ≤ 219
          · rw [if_pos short]
            exact (and_iff_right short).symm
          · rw [if_neg short]
            exact ⟨fun ran => (nomatch ran), fun both => absurd both.1 short⟩

theorem outcomeAt_fuel (documented : ssl.Documented) (noNul : (0 : UInt8) ∉ request) :
    outcomeAt ssl c request (keyLine (bufferLength + 1) request) ≠ .error .fuel := by
  cases found : keyLine (bufferLength + 1) request with
  | none =>
      dsimp only [outcomeAt]
      split
      · exact nofun
      · exact nofun
  | some line =>
      dsimp only [outcomeAt]
      cases named : strstr keyHeader line with
      | none => exact nofun
      | some header =>
          dsimp only
          rw [answerKeyAt_eq documented c (key_noNul noNul found named)]
          by_cases short : (header.drop 19).length ≤ 219
          · rw [if_pos short, answerKey_fits documented c short]
            exact nofun
          · rw [if_neg short]
            exact nofun

theorem answerKey_returns (documented : ssl.Documented) (ends : EndsInside request) :
    ∃ r, outcome ssl c (keyLine (bufferLength + 1) request) = .ok r := by
  unfold EndsInside at ends
  cases found : keyLine (bufferLength + 1) request with
  | none => exact ⟨_, rfl⟩
  | some line =>
      rw [found] at ends
      dsimp only [outcome]
      cases named : strstr keyHeader line with
      | none => exact ⟨_, rfl⟩
      | some header =>
          dsimp only
          rw [answerKey_fits documented c (ends header named)]
          exact ⟨_, rfl⟩

/-- What `handshark` does without leaving an array, it does with lists for its arrays. -/
theorem handsharkAt_refines (documented : ssl.Documented)
    (short : (text c.rbuffer).length < bufferLength) {r : Int × Conn}
    (ran : handsharkAt ssl c = .ok r) : handshark ssl c = .ok r := by
  rw [handshark_eq ssl short]
  rw [handsharkAt_eq ssl short] at ran
  exact ((outcomeAt_ok documented (text_noNul _)).mp ran).2

end Key

/-- The loop ends. It stays inside the arrays exactly if it does not come to the end of the
request, and a key has room in `combined`. -/
theorem handsharkAt_inside (ssl : Openssl) (documented : ssl.Documented) (c : Conn)
    (short : (text c.rbuffer).length < bufferLength) :
    handsharkAt ssl c ≠ .error .fuel ∧
      ((∃ r, handsharkAt ssl c = .ok r) ↔ EndsInside (text c.rbuffer)) := by
  rw [handsharkAt_eq ssl short]
  refine ⟨outcomeAt_fuel documented (text_noNul _), ?_, ?_⟩
  · rintro ⟨r, ran⟩
    exact ((outcomeAt_ok documented (text_noNul _)).mp ran).1
  · intro ends
    obtain ⟨r, ran⟩ := answerKey_returns (c := c) documented ends
    exact ⟨r, (outcomeAt_ok documented (text_noNul _)).mpr ⟨ends, ran⟩⟩

theorem sampleSsl_documented : sampleSsl.Documented where
  digest := fun _ => rfl
  encoded := fun _ _ => rfl
  printable := fun _ => by
    show (0 : UInt8) ∉ charBytes _
    decide

/-- The sample request. -/
theorem handsharkAt_inside_sample :
    handsharkAt sampleSsl (Conn.zeroed.received sampleRequest (by decide)) ≠ .error .fuel ∧
      ((∃ r, handsharkAt sampleSsl (Conn.zeroed.received sampleRequest (by decide)) = .ok r) ↔
        EndsInside (text (Conn.zeroed.received sampleRequest (by decide)).rbuffer)) :=
  handsharkAt_inside sampleSsl sampleSsl_documented _ (by
    rw [Conn.received, text_holding]
    decide)

/-- A request of one letter: the loop goes on to look at `rbuffer[-1]`. -/
theorem letter_leaves_rbuffer :
    ¬ ∃ r, handsharkAt sampleSsl (Conn.zeroed.received [97] (by decide)) = .ok r := by
  have isText : text (Conn.zeroed.received [97] (by decide)).rbuffer = [97] :=
    text_holding (by decide)
  rintro ⟨r, ran⟩
  rw [handsharkAt_eq sampleSsl (by rw [isText]; decide), isText] at ran
  have noEnd : ¬ [13, 10, 13, 10] <:+: ([97] : List UInt8) := by decide
  have noKey : keyLine (bufferLength + 1) [97] = none := rfl
  rw [noKey, outcomeAt, if_neg noEnd] at ran
  cases ran

end LinuxCpp.Websocket
