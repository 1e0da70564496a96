import LinuxCpp.Websocket.Echo

set_option autoImplicit false

/- The frames of `encode_packet`, read by `decode_packet`. Without a mask the extended
lengths are not looked at. -/
namespace LinuxCpp.Websocket

open C

/-- The payload is encoded into the buffer, and decoded to its length and bytes. -/
def OwnFrameDecodes {size size' : Nat} (buffer : Block size) (block : Block size') (stream : Nat)
    (mask : Block 4) (payload : List UInt8) : Prop :=
  ∃ n frame packet,
    encodePacket buffer block stream payload.length = .ok (n, frame) ∧
    decodePacket frame mask = .ok packet ∧
    packet.ret = payload.length ∧
    packet.stream.load packet.start payload.length = .ok payload

/-- What stands in the seven bits for a payload of `n` bytes. -/
def announced (n : Nat) : Nat := if n < 126 then n else if n < 65535 then 126 else 127

def headerSize (n : Nat) : Nat := if n < 126 then 2 else if n < 65535 then 8 else 14

/-- The header behind its first two bytes. -/
def extendedHeader (n : Nat) : List UInt8 :=
  if n < 126 then []
  else if n < 65535 then bytesOf 2 (htons n) ++ [0, 0, 0, 0]
  else bytesOf 8 n ++ [0, 0, 0, 0]

/-- A list that goes on with itself behind `word` consists of copies of it. -/
theorem eq_take_append_iff (word : List UInt8) (k : Nat) {xs : List UInt8}
    (length : xs.length = k * word.length) :
    (word ++ xs).take xs.length = xs ↔ xs = (List.replicate k word).flatten := by
  induction k generalizing xs with
  | zero =>
      rw [Nat.zero_mul] at length
      have empty := List.length_eq_zero_iff.mp length
      subst empty
      simp
  | succ k ih =>
      rw [Nat.succ_mul] at length
      obtain ⟨first, rest, rfl, width⟩ : ∃ first rest, xs = first ++ rest ∧
          first.length = word.length := by
        refine ⟨xs.take word.length, xs.drop word.length, (List.take_append_drop ..).symm, ?_⟩
        exact List.length_take_of_le (by omega)
      rw [List.length_append, width] at length
      have step : (word ++ (first ++ rest)).take (first ++ rest).length =
          word ++ (first ++ rest).take rest.length := by
        rw [List.length_append, width, List.take_length_add_append]
      rw [step, List.replicate_succ, List.flatten_cons]
      constructor
      · intro same
        obtain ⟨rfl, behind⟩ := List.append_inj same width.symm
        rw [(ih (by omega)).mp behind]
      · intro same
        obtain ⟨rfl, behind⟩ := List.append_inj same width
        rw [(ih (by omega)).mpr behind]

section Frames

variable {size size' : Nat} {buffer : Block size} {block : Block size'} {n : Nat}

theorem ofInt_small : ∀ n : Nat, n < 126 → UInt8.ofInt ((n : Int) % 128) = .ofNat n := by decide

/-- The second byte of a header. -/
def announcing (n : Nat) : UInt8 := (0 : UInt8) ||| UInt8.ofNat n <<< (1 : UInt8)

theorem textHead_length (n : UInt8) : (textHead n).bytes.length = 2 := rfl

theorem announcing_fields : ∀ n < 128, (Ophdr.ofBytes 0x11 (announcing n)).mask = 0 ∧
    (Ophdr.ofBytes 0x11 (announcing n)).payloadLength.toNat = n := by
  decide

/-- The two bytes of the header, and what stands behind them. -/
theorem stores_header (buffer : Block size) {first : List UInt8} (second : List UInt8)
    (two : first.length = 2)
    (room : 2 + second.length ≤ size) :
    ∃ between frame, buffer.store 0 first = .ok between ∧ between.store 2 second = .ok frame ∧
      frame.load 0 (2 + second.length) = .ok (first ++ second) := by
  obtain ⟨between, stored⟩ := buffer.store_inside (i := 0) first (by omega)
  obtain ⟨frame, stored'⟩ := between.store_inside (i := 2) second room
  refine ⟨between, frame, stored, stored', ?_⟩
  have both := Block.load_stores stored (by rw [two]; exact stored')
  rwa [two] at both

theorem writeHeader_ok (buffer : Block size) (room : headerSize n ≤ size) :
    ∃ frame, writeHeader buffer n = .ok (headerSize n, frame) ∧
      frame.load 0 (headerSize n) =
        .ok ((textHead (.ofNat (announced n))).bytes ++ extendedHeader n) := by
  unfold writeHeader
  simp only [headerSize, announced, extendedHeader] at room ⊢
  by_cases short : n < 126
  · simp only [if_pos short] at room ⊢
    rw [if_pos (by omega)]
    obtain ⟨frame, stored⟩ := buffer.store_inside (i := 0) (textHead (.ofNat n)).bytes room
    have same : UInt8.ofInt ((n : Int) % 128) = .ofNat n := ofInt_small n short
    refine ⟨frame, ?_, ?_⟩
    · show (do
        let buffer ← buffer.store 0 (textHead (.ofInt ((n : Int) % 128))).bytes
        return (2, buffer)) = _
      rw [same, stored]
      rfl
    · rw [List.append_nil]
      exact Block.load_store stored
  · simp only [if_neg short] at room ⊢
    rw [if_neg (by omega)]
    by_cases medium : n < 65535
    · simp only [if_pos medium] at room ⊢
      rw [if_pos (by omega)]
      obtain ⟨between, frame, stored, stored', whole⟩ := stores_header buffer
        (bytesOf 2 (htons n) ++ [0, 0, 0, 0]) (textHead_length 126) (by simpa using room)
      refine ⟨frame, ?_, by simpa using whole⟩
      show (do
        let buffer ← buffer.store 0 (textHead 126).bytes
        let buffer ← buffer.store 2 (bytesOf 2 (htons n) ++ [0, 0, 0, 0])
        return (8, buffer)) = _
      rw [stored, ok_bind, stored']
      rfl
    · simp only [if_neg medium] at room ⊢
      rw [if_neg (by omega)]
      obtain ⟨between, frame, stored, stored', whole⟩ := stores_header buffer
        (bytesOf 8 n ++ [0, 0, 0, 0]) (textHead_length 127) (by simpa using room)
      refine ⟨frame, ?_, by simpa using whole⟩
      show (do
        let buffer ← buffer.store 0 (textHead 127).bytes
        let buffer ← buffer.store 2 (bytesOf 8 n ++ [0, 0, 0, 0])
        return (14, buffer)) = _
      rw [stored, ok_bind, stored']
      rfl

theorem encodePacket_ok {stream : Nat} {payload : List UInt8} (buffer : Block size)
    (read : block.load stream payload.length = .ok payload)
    (room : headerSize payload.length + payload.length ≤ size) :
    ∃ frame, encodePacket buffer block stream payload.length =
        .ok ((headerSize payload.length : Int) + payload.length, frame) ∧
      frame.load 0 (headerSize payload.length + payload.length) =
        .ok ((textHead (.ofNat (announced payload.length))).bytes ++
          extendedHeader payload.length ++ payload) := by
  obtain ⟨header, wrote, begins⟩ :=
    writeHeader_ok (n := payload.length) buffer (Nat.le_of_add_right_le room)
  obtain ⟨frame, stored⟩ := header.store_inside payload room
  refine ⟨frame, ?_, ?_⟩
  · unfold encodePacket
    rw [wrote, ok_bind]
    dsimp only
    rw [if_neg (by omega), Int.toNat_natCast, read, ok_bind, stored]
    rfl
  · apply loadAt_join
    · exact (Block.load_store_apart stored (.inl (by omega))).trans begins
    · rw [Nat.zero_add]
      exact Block.load_store stored

/-- Of a frame without a mask only the first two bytes are read. -/
theorem decodePacket_unmasked {frame : Block size} (mask : Block 4) (small : n < 128)
    (begins : frame.load 0 2 = .ok (textHead (.ofNat n)).bytes) :
    decodePacket frame mask = .ok ⟨2, n, frame, mask⟩ := by
  rw [textHead_bytes, ← announcing] at begins
  have first : load8 frame.bytes 0 = .ok 0x11 := load8_of_load (loadAt_part begins (Nat.le_succ 1))
  have second : load8 frame.bytes 1 = .ok (announcing n) := by
    apply load8_of_load
    exact (loadAt_within begins (j := 1) (k := 1) (by decide)).symm
  obtain ⟨noMask, length⟩ := announcing_fields n small
  have header : readHeader frame mask (.ofBytes 0x11 (announcing n)) =
      .ok (n, 2, mask) := by
    unfold readHeader
    rw [if_neg (not_not_intro noMask), length]
    rfl
  unfold decodePacket
  rw [first, ok_bind, second, ok_bind]
  dsimp only
  rw [header, ok_bind]
  dsimp only
  rw [if_neg fun both => both.1 noMask]
  rfl

theorem extendedHeader_length (n : Nat) :
    2 + (extendedHeader n).length = headerSize n := by
  simp only [extendedHeader, headerSize]
  split
  · rfl
  · split <;> simp

/-- What the returned pointer points to. -/
theorem load_behind {frame : Block size} {header extended payload : List UInt8}
    (two : header.length = 2)
    (whole : frame.load 0 (2 + extended.length + payload.length) =
      .ok (header ++ extended ++ payload)) :
    frame.load 2 payload.length = .ok ((extended ++ payload).take payload.length) := by
  have part := loadAt_within whole (j := 2) (k := payload.length) (by omega)
  have inside : 2 + payload.length ≤ (header ++ extended ++ payload).length := by
    simp only [List.length_append]
    omega
  rw [Nat.zero_add, loadAt_eq inside, List.append_assoc, List.drop_left' two] at part
  exact part.symm

theorem announced_lt (n : Nat) : announced n < 128 := by
  unfold announced
  split
  · omega
  · split <;> omega

/-- The length that is reported, and the bytes behind the first two. -/
theorem ownFrameDecodes_exact {stream : Nat} {payload : List UInt8} (buffer : Block size)
    (mask : Block 4) (read : block.load stream payload.length = .ok payload)
    (room : headerSize payload.length + payload.length ≤ size) :
    OwnFrameDecodes buffer block stream mask payload ↔
      announced payload.length = payload.length ∧
        (extendedHeader payload.length ++ payload).take payload.length = payload := by
  obtain ⟨frame, encoded, whole⟩ := encodePacket_ok buffer read room
  have two := textHead_length (.ofNat (announced payload.length))
  rw [← extendedHeader_length] at whole
  have begins : frame.load 0 2 = .ok (textHead (.ofNat (announced payload.length))).bytes := by
    have part := loadAt_part whole (k := 2) (by omega)
    rwa [List.append_assoc, List.take_left' two] at part
  have decoded := decodePacket_unmasked mask (announced_lt _) begins
  have behind := load_behind two whole
  constructor
  · rintro ⟨n', frame', packet, encoded', decoded', ret, read'⟩
    cases encoded.symm.trans encoded'
    cases decoded.symm.trans decoded'
    exact ⟨Int.ofNat_inj.mp ret, Except.ok.inj (behind.symm.trans read')⟩
  · rintro ⟨length, same⟩
    refine ⟨_, frame, _, encoded, decoded, congrArg Int.ofNat length, ?_⟩
    rwa [same] at behind

end Frames

/-- The two longer headers of a frame are taken for the beginning of its payload, and its
length for 126 or 127. -/
theorem ownFrameDecodes_iff {size size' : Nat} (buffer : Block size) (block : Block size')
    (stream : Nat) (mask : Block 4) (payload : List UInt8)
    (read : block.load stream payload.length = .ok payload)
    (room : headerSize payload.length + payload.length ≤ size) :
    OwnFrameDecodes buffer block stream mask payload ↔
      payload.length < 126 ∨ payload = (List.replicate 21 [0, 126, 0, 0, 0, 0]).flatten := by
  rw [ownFrameDecodes_exact buffer mask read room]
  by_cases short : payload.length < 126
  · simp [announced, extendedHeader, short]
  · rw [or_iff_right short]
    by_cases medium : payload.length = 126
    · have same : announced payload.length = payload.length := by
        rw [medium]
        decide
      have period : extendedHeader payload.length = [0, 126, 0, 0, 0, 0] := by
        rw [medium]
        decide
      rw [and_iff_right same, period]
      exact eq_take_append_iff _ 21 medium
    · have other : announced payload.length ≠ payload.length := by
        unfold announced
        rw [if_neg short]
        split <;> omega
      refine iff_of_false (fun both => other both.1) ?_
      rintro rfl
      exact medium rfl

/-- The text "hi". -/
theorem ownFrameDecodes_hi :
    OwnFrameDecodes (.zeroed 16) (⟨[104, 105], rfl⟩ : Block 2) 0 (.zeroed 4) [104, 105] :=
  (ownFrameDecodes_iff _ _ _ _ _ rfl (by decide)).mpr (.inl (by decide))

/-- Two hundred bytes are reported as 126. -/
theorem ownFrame_not_decoded : ¬ OwnFrameDecodes (.zeroed 208) ⟨List.replicate 200 97, rfl⟩ 0
    (.zeroed 4) (List.replicate 200 97) := by
  have length : (List.replicate 200 (97 : UInt8)).length = 200 := List.length_replicate
  rw [ownFrameDecodes_exact _ _ (Block.load_whole _) (by rw [length]; decide), length]
  intro both
  exact absurd both.1 (by decide)

end LinuxCpp.Websocket
