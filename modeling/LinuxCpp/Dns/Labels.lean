import LinuxCpp.Dns.Client

set_option autoImplicit false

/- What the loop over the tokens leaves in the block for the name, and how the request is put
together from it. -/
namespace LinuxCpp.Dns

open C

/-- A label behind its length. -/
def wireLabel (label : List UInt8) : List UInt8 := .ofNat label.length :: label

/-- What the loop writes for these labels; for none it writes nothing. -/
def encoded (labels : List (List UInt8)) : List UInt8 :=
  if labels = [] then [] else labels.flatMap wireLabel ++ [0]

section Encoding

variable {label : List UInt8} {labels : List (List UInt8)} {front old : List UInt8}

@[simp] theorem wireLabel_length (label : List UInt8) :
    (wireLabel label).length = label.length + 1 := List.length_cons

theorem encoded_nil : encoded [] = [] := if_pos rfl

theorem encoded_cons (label : List UInt8) (labels : List (List UInt8)) :
    encoded (label :: labels) = wireLabel label ++ (labels.flatMap wireLabel ++ [0]) := by
  rw [encoded, if_neg (List.cons_ne_nil _ _), List.flatMap_cons, List.append_assoc]

theorem encoded_length (some_ : labels ≠ []) :
    (encoded labels).length = (labels.map fun label => label.length + 1).sum + 1 := by
  rw [encoded, if_neg some_, List.length_append, List.length_flatMap]
  simp only [wireLabel_length, List.length_singleton]

/-- The NUL behind a label is where the next length goes. -/
theorem encoded_step (label : List UInt8) (labels : List (List UInt8)) (old : List UInt8) :
    wireLabel label ++ (encoded labels ++
      (0 :: old.drop (label.length + 2)).drop (encoded labels).length) =
    encoded (label :: labels) ++ old.drop (encoded (label :: labels)).length := by
  by_cases none_ : labels = []
  · subst none_
    simp [encoded_nil, encoded_cons]
  · have length : (encoded labels).length = (labels.flatMap wireLabel).length + 1 := by
      rw [encoded, if_neg none_, List.length_append, List.length_singleton]
    have whole : encoded (label :: labels) = wireLabel label ++ encoded labels := by
      rw [encoded_cons, encoded, if_neg none_]
    have behind : label.length + 2 + (labels.flatMap wireLabel).length =
        label.length + 1 + ((labels.flatMap wireLabel).length + 1) := by omega
    rw [length, List.drop_succ_cons, List.drop_drop, whole, List.length_append, wireLabel_length,
      length, List.append_assoc, behind]

/-- The two writes of one round. -/
theorem storeLabel (front : List UInt8) {old label : List UInt8}
    (room : label.length + 2 ≤ old.length) :
    ∃ name, storeAt (front ++ old) front.length [.ofNat label.length] = .ok name ∧
      storeAt name (front.length + 1) (label ++ [0]) =
        .ok (front ++ wireLabel label ++ 0 :: old.drop (label.length + 2)) := by
  obtain ⟨b, old, rfl⟩ := List.exists_cons_of_length_pos (show 0 < old.length by omega)
  rw [List.length_cons] at room
  refine ⟨front ++ ([.ofNat label.length] ++ old), ?_, ?_⟩
  · have split : front ++ b :: old = front ++ ([b] ++ old) := rfl
    rw [split]
    exact storeAt_append rfl rfl
  · have split : front ++ ([.ofNat label.length] ++ old) =
        (front ++ [.ofNat label.length]) ++
          (old.take (label.length + 1) ++ old.drop (label.length + 1)) := by
      rw [List.take_append_drop, List.append_assoc]
    rw [split, storeAt_append (by simp) (by simp; omega)]
    simp [wireLabel]

/-- The labels of the name, with what stood behind them before. -/
theorem encodeLabels_eq {p : List UInt8} {fuel : Nat} {front old : List UInt8}
    (noNul : (0 : UInt8) ∉ p) (enough : p.length < fuel) (room : p.length + 2 ≤ old.length) :
    encodeLabels fuel (p ++ [0]) (front ++ old) front.length =
      .ok (front ++ (encoded (words 46 p) ++ old.drop (encoded (words 46 p)).length)) := by
  induction p using word_induction 46 generalizing fuel front old with
  | blank p blank =>
      obtain ⟨fuel, rfl⟩ : ∃ n, fuel = n + 1 := ⟨fuel - 1, by omega⟩
      rw [encodeLabels, strtok_blank blank (by decide), words_blank blank, encoded_nil]
      rfl
  | last blanks word blank nonempty free =>
      have positive := List.length_pos_of_ne_nil nonempty
      simp only [List.length_append, List.mem_append, not_or] at enough room noNul
      obtain ⟨fuel, rfl⟩ : ∃ n, fuel = n + 2 := ⟨fuel - 2, by omega⟩
      have fits : word.length + 2 ≤ old.length := by omega
      obtain ⟨name, first, second⟩ := storeLabel front fits
      have ended : strtok 46 [0] = .ok none := rfl
      rw [encodeLabels, List.append_assoc, strtok_last blank nonempty free noNul.2, ok_bind]
      simp only [CStr.length, CStr.upToNul_bytes noNul.2, first, ok_bind, second]
      rw [encodeLabels, ended, words_last blank nonempty free, ← encoded_step, encoded_nil,
        ← List.append_assoc]
      rfl
  | ended blanks word rest blank nonempty free ih =>
      simp only [List.length_append, List.length_cons, List.mem_append, List.mem_cons, not_or]
        at enough room noNul
      obtain ⟨fuel, rfl⟩ : ∃ n, fuel = n + 1 := ⟨fuel - 1, by omega⟩
      have fits : word.length + 2 ≤ old.length := by omega
      obtain ⟨name, first, second⟩ := storeLabel front fits
      rw [encodeLabels, List.append_assoc, List.append_assoc, List.cons_append,
        strtok_ended blank nonempty free noNul.2.1 (by decide), ok_bind]
      simp only [CStr.length, CStr.upToNul_bytes noNul.2.1, first, ok_bind, second]
      have behind : rest.length + 2 ≤ (0 :: old.drop (word.length + 2)).length := by
        rw [List.length_cons, List.length_drop]
        omega
      have shorter : rest.length < fuel := by omega
      have later := @ih fuel (front ++ wireLabel word) _ noNul.2.2.2 shorter behind
      rw [List.length_append, wireLabel_length, ← Nat.add_assoc] at later
      rw [Nat.add_right_comm, later, words_ended blank nonempty free, ← encoded_step,
        List.append_assoc]

end Encoding

section Question

/-- A size that an `int` holds is counted as it is, and no other one is counted. -/
theorem byteCount_int {size n : Nat} :
    byteCount (BitVec.ofNat 32 size).toInt = .ok n ↔ n = size % 2 ^ 32 ∧ n < 2 ^ 31 := by
  rw [BitVec.toInt_eq_toNat_cond, BitVec.toNat_ofNat, byteCount]
  have small : size % 2 ^ 32 < 2 ^ 32 := Nat.mod_lt _ (by decide)
  generalize size % 2 ^ 32 = k at small ⊢
  by_cases positive : 2 * k < 2 ^ 32
  · rw [if_pos positive, if_neg (by omega), Int.toNat_natCast, Except.ok.injEq]
    omega
  · rw [if_neg positive, if_pos (by omega)]
    simp only [reduceCtorEq, false_iff]
    omega

variable {memory : Memory} {hostname : CStr}

theorem encoded_fits (hostname : CStr) :
    (encoded (words 46 hostname.bytes)).length ≤ hostname.length + 2 := by
  by_cases none_ : words 46 hostname.bytes = []
  · simp [none_, encoded_nil]
  · have total := wordsFrom_length 46 [] hostname.bytes
    rw [List.length_nil, Nat.zero_add] at total
    rw [encoded_length none_]
    exact Nat.succ_le_succ total

/-- The block that the question ends up with: the labels, and behind them what stood there. -/
def nameBlock (hostname : CStr) (junk : Nat → UInt8) : List UInt8 :=
  encoded (words 46 hostname.bytes) ++
    ((List.range (hostname.length + 2)).map junk).drop (encoded (words 46 hostname.bytes)).length

theorem nameBlock_length (hostname : CStr) (junk : Nat → UInt8) :
    (nameBlock hostname junk).length = hostname.length + 2 := by
  have fits := encoded_fits hostname
  simp only [nameBlock, List.length_append, List.length_drop, List.length_map, List.length_range]
  omega

/-- The question that the host name turns into. -/
def questionOf (hostname : CStr) (junk : Nat → UInt8) : DnsQuestion where
  length := (BitVec.ofNat 32 (hostname.length + 2)).toInt
  qtype := htons 1
  qclass := htons 1
  name := some (nameBlock hostname junk)

theorem dnsCreateQuestion_eq (granted : memory.granted = true) (copied : memory.copied = true)
    (question : DnsQuestion) (hostname : CStr) :
    dnsCreateQuestion memory (some question) (some hostname) =
      .ok (some (questionOf hostname memory.junk), none) := by
  have room : hostname.bytes.length + 2 ≤
      ((List.range (hostname.length + 2)).map memory.junk).length := by
    rw [List.length_map, List.length_range, CStr.length]
  have ran : encodeLabels (hostname.length + 1) (hostname.bytes ++ [0])
      ([] ++ (List.range (hostname.length + 2)).map memory.junk) [].length =
        .ok ([] ++ nameBlock hostname memory.junk) :=
    encodeLabels_eq hostname.noNul (Nat.lt_succ_self _) room
  simp only [List.nil_append, List.length_nil] at ran
  simp only [dnsCreateQuestion, granted, copied, not_true_eq_false, ↓reduceIte, ran, ok_bind]
  rfl

end Question

section Request

variable {header : DnsHeader} {question : DnsQuestion} {request part : List UInt8} {rlen : Int}
  {n : Nat}

@[simp] theorem header_length (header : DnsHeader) : header.bytes.length = 12 := by
  simp [DnsHeader.bytes]

theorem source_length {block : Option (List UInt8)} (read : source block n = .ok part) :
    part.length = n := by
  unfold source at read
  split at read
  · cases read
    exact Eq.symm ‹n = 0›
  · cases block with
    | none => cases read
    | some block =>
        obtain ⟨inside, rfl⟩ := loadAt_ok read
        simp only [List.length_take, List.length_drop]
        omega

theorem source_whole (block : List UInt8) : source (some block) block.length = .ok block := by
  cases block with
  | nil => rfl
  | cons b block =>
      rw [source, if_neg (by simp)]
      exact (loadAt_eq (by rw [Nat.zero_add])).trans (congrArg _ (List.take_length))

theorem byteCount_eq (n : Nat) : byteCount n = .ok n := by
  rw [byteCount, if_neg (by omega), Int.toNat_natCast]

theorem advance_ok {offset next : Nat} (moved : advance offset n = .ok next) :
    next = offset + n := by
  unfold advance at moved
  split at moved
  · exact (Except.ok.inj moved).symm
  · cases moved

/-- The parts of a request: the header, so many bytes of the name, type and class. -/
def packet (header : DnsHeader) (question : DnsQuestion) (part : List UInt8) : List UInt8 :=
  header.bytes ++ part ++ bytesOf 2 question.qtype.toNat ++ bytesOf 2 question.qclass.toNat

theorem packet_length (header : DnsHeader) (question : DnsQuestion) (part : List UInt8) :
    (packet header question part).length = 12 + part.length + 4 := by
  simp only [packet, List.length_append, header_length, bytesOf_length]

/-- `htons(1)` is sent as the number 1 in network order. -/
theorem packet_questionOf (header : DnsHeader) (hostname : CStr) (junk : Nat → UInt8)
    (part : List UInt8) :
    packet header (questionOf hostname junk) part = header.bytes ++ (part ++ [0, 1, 0, 1]) := by
  have one : bytesOf 2 (htons 1).toNat = [0, 1] := by decide
  simp only [packet, questionOf, one, List.append_assoc]
  rfl

/-- A request that is built fits into its buffer and begins with its parts. -/
theorem dnsBuildRequestion_ok {built : Option (List UInt8)} {length : Int}
    (ran : dnsBuildRequestion (some header) (some question) (some request) rlen =
      .ok (built, length)) :
    ∃ n part bytes, byteCount question.length = .ok n ∧ source question.name n = .ok part ∧
      built = some bytes ∧ length = (12 + n + 4 : Nat) ∧ 12 + n + 4 ≤ request.length ∧
      bytes.take (12 + n + 4) = packet header question part := by
  unfold dnsBuildRequestion at ran
  obtain ⟨size, -, ran⟩ := ok_of_bind ran
  obtain ⟨cleared, stored₀, ran⟩ := ok_of_bind ran
  obtain ⟨headed, stored₁, ran⟩ := ok_of_bind ran
  obtain ⟨n, counted, ran⟩ := ok_of_bind ran
  obtain ⟨part, read, ran⟩ := ok_of_bind ran
  obtain ⟨named, stored₂, ran⟩ := ok_of_bind ran
  obtain ⟨offset, moved, ran⟩ := ok_of_bind ran
  obtain rfl := advance_ok moved
  obtain ⟨typed, stored₃, ran⟩ := ok_of_bind ran
  obtain ⟨offset, moved, ran⟩ := ok_of_bind ran
  obtain rfl := advance_ok moved
  obtain ⟨classed, stored₄, ran⟩ := ok_of_bind ran
  obtain ⟨offset, moved, ran⟩ := ok_of_bind ran
  obtain rfl := advance_ok moved
  cases ran
  have width := source_length read
  have inside := (storeAt_ok stored₄).1
  rw [storeAt_length stored₃, storeAt_length stored₂, storeAt_length stored₁,
    storeAt_length stored₀, bytesOf_length] at inside
  have front₁ := take_storeAt stored₁
  have front₂ := take_storeAt stored₂
  have front₃ := take_storeAt stored₃
  have front₄ := take_storeAt stored₄
  rw [header_length, Nat.zero_add, List.take_zero, List.nil_append] at front₁
  rw [width, front₁] at front₂
  rw [bytesOf_length, front₂] at front₃
  rw [bytesOf_length, front₃] at front₄
  exact ⟨n, part, classed, counted, read, rfl, rfl, inside, front₄⟩

/-- A request that fits into its buffer is built. -/
theorem dnsBuildRequestion_runs (counted : byteCount question.length = .ok n)
    (read : source question.name n = .ok part) (nonneg : 0 ≤ rlen)
    (within : rlen ≤ request.length) (room : 12 + n + 4 ≤ request.length)
    (range : 12 + n + 4 < 2 ^ 31) :
    ∃ built, dnsBuildRequestion (some header) (some question) (some request) rlen = .ok built := by
  have width := source_length read
  obtain ⟨size, rfl⟩ := Int.eq_ofNat_of_zero_le nonneg
  obtain ⟨cleared, stored₀⟩ : ∃ b, storeAt request 0 (List.replicate size 0) = .ok b :=
    ⟨_, storeAt_eq (by rw [List.length_replicate]; omega)⟩
  have length₀ := storeAt_length stored₀
  obtain ⟨headed, stored₁⟩ : ∃ b, storeAt cleared 0 header.bytes = .ok b :=
    ⟨_, storeAt_eq (by rw [header_length]; omega)⟩
  have length₁ := storeAt_length stored₁
  obtain ⟨named, stored₂⟩ : ∃ b, storeAt headed 12 part = .ok b := ⟨_, storeAt_eq (by omega)⟩
  have length₂ := storeAt_length stored₂
  obtain ⟨typed, stored₃⟩ :
      ∃ b, storeAt named (12 + n) (bytesOf 2 question.qtype.toNat) = .ok b :=
    ⟨_, storeAt_eq (by rw [bytesOf_length]; omega)⟩
  have length₃ := storeAt_length stored₃
  obtain ⟨classed, stored₄⟩ :
      ∃ b, storeAt typed (12 + n + 2) (bytesOf 2 question.qclass.toNat) = .ok b :=
    ⟨_, storeAt_eq (by rw [bytesOf_length]; omega)⟩
  have moved₁ : advance 12 n = .ok (12 + n) := if_pos (by omega)
  have moved₂ : advance (12 + n) 2 = .ok (12 + n + 2) := if_pos (by omega)
  have moved₃ : advance (12 + n + 2) 2 = .ok (12 + n + 2 + 2) := if_pos (by omega)
  refine ⟨(some classed, ((12 + n + 2 + 2 : Nat) : Int)), ?_⟩
  simp only [dnsBuildRequestion, byteCount_eq, ok_bind, stored₀, stored₁, counted, read, stored₂,
    moved₁, stored₃, moved₂, stored₄, moved₃]
  rfl

end Request

end LinuxCpp.Dns
