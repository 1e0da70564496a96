import LinuxCpp.Websocket.OwnFrames

set_option autoImplicit false

/- What `ws_request` reads of the bytes that were received, its prints included, and the
echo that `ws_response` makes of them. The length that `decode_packet` is given is not
looked at. -/
namespace LinuxCpp.Websocket

open C

/-- `printf` with `%s`: the text at this place is read up to its NUL. -/
def printText {size : Nat} (b : Block size) (i : Nat) : Except Fault Unit :=
  if 0 ∈ b.bytes.drop i then .ok () else .error .unterminated

/-- `ws_request` in status 1 on a buffer that has the received bytes and no others. -/
def wsRequestData {size : Nat} (rbuffer : Block size) (mask : Block 4) :
    Except Fault (Decoded size) := do
  printText rbuffer 0
  let packet ← decodePacket rbuffer mask
  if 0 < packet.ret then printText packet.stream packet.start
  return packet

/-- Nothing behind the received bytes is read or written, and the echo has room. -/
def StaysInside (handshark : Conn → Except Fault Conn) (c : Conn) (data : List UInt8)
    (fits : data.length ≤ bufferLength) : Prop :=
  (∃ packet, wsRequestData (⟨data, rfl⟩ : Block data.length) c.mask = .ok packet) ∧
  ∃ c₁ c₂, wsRequest handshark (c.received data fits) = .ok c₁ ∧ wsResponse c₁ = .ok c₂ ∧
    (c₁.status = 2 → c₂.wlength ≤ bufferLength)

section Frames

/-- The bit for the mask, and the seven bits of the length. -/
def HasMask (data : List UInt8) : Prop := data.getD 1 0 &&& 1 ≠ 0

instance (data : List UInt8) : Decidable (HasMask data) := inferInstanceAs (Decidable (_ ≠ _))

def lengthBits (data : List UInt8) : UInt8 := data.getD 1 0 >>> 1

/-- The size of the header with its mask. -/
def payloadStart (data : List UInt8) : Nat :=
  if HasMask data then
    if lengthBits data = 126 then 8 else if lengthBits data = 127 then 14 else 6
  else 2

/-- The length that the frame claims. -/
def payloadSize (data : List UInt8) : Int :=
  if HasMask data ∧ lengthBits data = 126 then numberOf ((data.drop 2).take 2).reverse
  else if HasMask data ∧ lengthBits data = 127 then
    (BitVec.ofNat 32 (numberOf ((data.drop 2).take 8))).toInt
  else (lengthBits data).toNat

def maskKey (data : List UInt8) : List UInt8 := (data.drop (payloadStart data - 4)).take 4

/-- The payload from its byte `i` on, without its mask. -/
def unmask (key : List UInt8) : Nat → List UInt8 → List UInt8
  | _, [] => []
  | i, byte :: rest => (byte ^^^ key.getD (i % 4) 0) :: unmask key (i + 1) rest

/-- What stands from the payload on when it is printed. -/
def decodedText (data : List UInt8) : List UInt8 :=
  if HasMask data then
    unmask (maskKey data) 0 ((data.drop (payloadStart data)).take (payloadSize data).toNat) ++
      data.drop (payloadStart data + (payloadSize data).toNat)
  else data.drop 2

/-- A masked frame has its header and its payload among these bytes, and what is printed
ends among them. -/
structure Contained (data : List UInt8) : Prop where
  ended : 0 ∈ data
  header : payloadStart data ≤ data.length
  payload : HasMask data → payloadStart data + payloadSize data ≤ data.length
  decoded : 0 < payloadSize data → 0 ∈ decodedText data

end Frames

section Header

variable {size : Nat} {data back : List UInt8} {stream : Block size}

/-- The word behind the header, in network order. -/
theorem ntohs_word {bytes : List UInt8} (two : bytes.length = 2) :
    ntohs (UInt16.ofNat (numberOf bytes)).toNat = numberOf bytes.reverse := by
  have bound := numberOf_lt bytes
  have back := bytesOf_numberOf bytes
  rw [two] at bound back
  rw [UInt16.toNat_ofNat', Nat.mod_eq_of_lt (by exact bound), ntohs, swapBytes, back]

theorem part_length {data : List UInt8} {i n : Nat}
    (inside : i + n ≤ data.length) :
    ((data.drop i).take n).length = n :=
  List.length_take_of_le (by rw [List.length_drop]; omega)

/-- The header, where it is among the bytes. -/
theorem readHeader_ok (whole : stream.bytes = data ++ back) (mask : Block 4)
    (header : payloadStart data ≤ data.length) :
    ∃ key : Block 4, readHeader stream mask (.ofBytes (data.getD 0 0) (data.getD 1 0)) =
      .ok (payloadSize data, payloadStart data, key) ∧
        (HasMask data → key.bytes = maskKey data) := by
  have load {i n : Nat} (inside : i + n ≤ data.length) :
      stream.load i n = .ok ((data.drop i).take n) := by
    unfold Block.load
    rw [whole]
    exact loadAt_left inside back
  unfold readHeader
  by_cases has : HasMask data
  · rw [if_pos (show (Ophdr.ofBytes (data.getD 0 0) (data.getD 1 0)).mask ≠ 0 from has)]
    simp only [payloadStart, payloadSize, maskKey, has, true_and, if_true] at header ⊢
    change ∃ key : Block 4, (if lengthBits data = 126 then _ else if lengthBits data = 127 then _
      else _) = _ ∧ _
    by_cases two : lengthBits data = 126
    · simp only [if_pos two] at header ⊢
      have word : load16 stream.bytes 2 = .ok (.ofNat (numberOf ((data.drop 2).take 2))) :=
        congrArg (Except.map fun bytes => UInt16.ofNat (numberOf bytes)) (load (by omega))
      have four := part_length (show 4 + 4 ≤ data.length by omega)
      refine ⟨⟨_, four⟩, ?_, fun _ => rfl⟩
      rw [word, ok_bind, load (by omega), ok_bind, mask.store_whole four, ok_bind,
        ntohs_word (part_length (by omega))]
      rfl
    · simp only [if_neg two] at header ⊢
      by_cases eight : lengthBits data = 127
      · simp only [if_pos eight] at header ⊢
        have four := part_length (show 10 + 4 ≤ data.length by omega)
        refine ⟨⟨_, four⟩, ?_, fun _ => rfl⟩
        rw [load (by omega), ok_bind, load (by omega), ok_bind, mask.store_whole four, ok_bind]
        rfl
      · simp only [if_neg eight] at header ⊢
        have four := part_length (show 2 + 4 ≤ data.length by omega)
        refine ⟨⟨_, four⟩, ?_, fun _ => rfl⟩
        rw [load (by omega), ok_bind, mask.store_whole four, ok_bind]
        rfl
  · rw [if_neg (show ¬ (Ophdr.ofBytes (data.getD 0 0) (data.getD 1 0)).mask ≠ 0 from has)]
    simp only [payloadStart, payloadSize, has, false_and, if_false]
    exact ⟨mask, rfl, fun yes => absurd yes id⟩

/-- What `readHeader` has read is there. -/
theorem readHeader_inside {mask : Block 4} {done : Int × Nat × Block 4}
    (two : 2 ≤ stream.bytes.length) (ran : readHeader stream mask
      (.ofBytes (stream.bytes.getD 0 0) (stream.bytes.getD 1 0)) = .ok done) :
    payloadStart stream.bytes ≤ stream.bytes.length := by
  have loaded {i n : Nat} {bytes : List UInt8} (read : stream.load i n = .ok bytes) :
      i + n ≤ stream.bytes.length := (loadAt_ok read).1
  unfold readHeader at ran
  unfold payloadStart
  split
  · rename_i has
    rw [if_pos (show (Ophdr.ofBytes (stream.bytes.getD 0 0)
      (stream.bytes.getD 1 0)).mask ≠ 0 from has)] at ran
    change (if lengthBits stream.bytes = 126 then _ else if lengthBits stream.bytes = 127 then _
      else _) = _ at ran
    split
    · rename_i short
      rw [if_pos short] at ran
      obtain ⟨word, -, ran⟩ := ok_of_bind ran
      obtain ⟨four, read, ran⟩ := ok_of_bind ran
      exact loaded read
    · rename_i long
      rw [if_neg long] at ran
      split
      · rename_i eight
        rw [if_pos eight] at ran
        obtain ⟨word, -, ran⟩ := ok_of_bind ran
        obtain ⟨four, read, ran⟩ := ok_of_bind ran
        exact loaded read
      · rename_i seven
        rw [if_neg seven] at ran
        obtain ⟨four, read, ran⟩ := ok_of_bind ran
        exact loaded read
  · exact two

end Header

section Demask

variable {size data i : Nat} {stream : Block size} {mask : Block 4}
  {front payload back : List UInt8}

/-- The loop from byte `i` on. -/
theorem demaskLoop_ok (split : stream.bytes = front ++ (payload ++ back))
    (before : front.length = data + i) :
    ∃ stream', demaskLoop data mask payload.length i stream = .ok stream' ∧
      stream'.bytes = front ++ (unmask mask.bytes i payload ++ back) := by
  induction payload generalizing front i stream with
  | nil => exact ⟨stream, rfl, split⟩
  | cons byte rest ih =>
      have read : load8 stream.bytes (data + i) = .ok byte := by
        rw [← before]
        exact load8_at split
      have key : load8 mask.bytes (i % 4) = .ok (mask.bytes.getD (i % 4) 0) := by
        apply load8_inside
        rw [mask.length]
        exact Nat.mod_lt i (by decide)
      have parts : stream.bytes = front ++ ([byte] ++ (rest ++ back)) := split
      obtain ⟨next, stored, split'⟩ :=
        Block.store_split [byte ^^^ mask.bytes.getD (i % 4) 0] parts before rfl
      have split'' : next.bytes =
          (front ++ [byte ^^^ mask.bytes.getD (i % 4) 0]) ++ (rest ++ back) := by
        rw [split', List.append_assoc]
      have before' : (front ++ [byte ^^^ mask.bytes.getD (i % 4) 0]).length = data + (i + 1) := by
        rw [List.length_append, List.length_singleton, before, Nat.add_assoc]
      obtain ⟨stream', ran, result⟩ := ih split'' before'
      refine ⟨stream', ?_, by simp [result, unmask]⟩
      rw [List.length_cons, demaskLoop, read, ok_bind, key, ok_bind, stored, ok_bind]
      exact ran

theorem demaskLoop_inside {rounds : Nat} {stream' : Block size} (some_ : 0 < rounds)
    (ran : demaskLoop data mask rounds i stream = .ok stream') : data + i + rounds ≤ size := by
  induction rounds generalizing i stream with
  | zero => cases some_
  | succ rounds ih =>
      rw [demaskLoop] at ran
      obtain ⟨byte, read, ran⟩ := ok_of_bind ran
      obtain ⟨key, -, ran⟩ := ok_of_bind ran
      obtain ⟨next, -, ran⟩ := ok_of_bind ran
      rcases Nat.eq_zero_or_pos rounds with rfl | more
      · by_contra outside
        rw [load8_beyond (by rw [stream.length]; omega)] at read
        cases read
      · have rest := ih more ran
        omega

end Demask

section Decoding

variable {size : Nat} {data back : List UInt8} {stream : Block size}

/-- The payload and what is behind it. -/
theorem drop_payload (data : List UInt8) (start n : Nat) :
    data = data.take start ++ ((data.drop start).take n ++ data.drop (start + n)) := by
  rw [← List.drop_drop, List.take_append_drop, List.take_append_drop]

theorem decodePacket_unfold (whole : stream.bytes = data ++ back) (two : 2 ≤ data.length)
    (mask : Block 4) :
    decodePacket stream mask = (do
      let (ret, start, mask) ← readHeader stream mask (.ofBytes (data.getD 0 0) (data.getD 1 0))
      if HasMask data ∧ 0 < ret then
        return ⟨start, ret, ← demask stream start ret mask, mask⟩
      return ⟨start, ret, stream, mask⟩) := by
  have at_ {i : Nat} (inside : i < data.length) :
      load8 stream.bytes i = .ok (data.getD i 0) := by
    rw [whole, load8_inside (by rw [List.length_append]; omega), List.getD_eq_getElem?_getD,
      List.getElem?_append_left inside, List.getD_eq_getElem?_getD]
  unfold decodePacket
  rw [at_ (by omega), ok_bind, at_ (by omega), ok_bind]
  rfl

theorem decodePacket_ok (whole : stream.bytes = data ++ back) (two : 2 ≤ data.length)
    (mask : Block 4) (header : payloadStart data ≤ data.length)
    (payload : HasMask data → payloadStart data + payloadSize data ≤ data.length) :
    ∃ packet, decodePacket stream mask = .ok packet ∧ packet.start = payloadStart data ∧
      packet.ret = payloadSize data ∧
      packet.stream.bytes.drop (payloadStart data) = decodedText data ++ back := by
  obtain ⟨key, read, isKey⟩ := readHeader_ok whole mask header
  rw [decodePacket_unfold whole two, read, ok_bind]
  dsimp only
  by_cases masked : HasMask data ∧ 0 < payloadSize data
  · obtain ⟨has, positive⟩ := masked
    have inside : payloadStart data + (payloadSize data).toNat ≤ data.length := by
      have := payload has
      omega
    have front : (data.take (payloadStart data)).length = payloadStart data :=
      List.length_take_of_le header
    have split : stream.bytes = data.take (payloadStart data) ++
        ((data.drop (payloadStart data)).take (payloadSize data).toNat ++
          (data.drop (payloadStart data + (payloadSize data).toNat) ++ back)) := by
      rw [whole]
      conv_lhs => rw [drop_payload data (payloadStart data) (payloadSize data).toNat]
      simp only [List.append_assoc]
    have before : (data.take (payloadStart data)).length = payloadStart data + 0 := front
    obtain ⟨stream', ran, result⟩ : ∃ stream', demaskLoop (payloadStart data) key _ 0 stream =
        .ok stream' ∧ _ := demaskLoop_ok split before
    rw [part_length inside] at ran
    refine ⟨⟨payloadStart data, payloadSize data, stream', key⟩, ?_, rfl, rfl, ?_⟩
    · rw [if_pos ⟨has, positive⟩, demask, ran]
      rfl
    · rw [result, List.drop_left' front, isKey has, decodedText, if_pos has, List.append_assoc]
  · refine ⟨⟨payloadStart data, payloadSize data, stream, key⟩, by rw [if_neg masked]; rfl, rfl,
      rfl, ?_⟩
    have same : decodedText data = data.drop (payloadStart data) := by
      unfold decodedText
      split
      · rename_i has
        have none_ : (payloadSize data).toNat = 0 := by
          have : ¬ 0 < payloadSize data := fun positive => masked ⟨has, positive⟩
          omega
        rw [none_, List.take_zero, Nat.add_zero]
        rfl
      · rename_i no
        rw [payloadStart, if_neg no]
    show stream.bytes.drop (payloadStart data) = _
    rw [whole, List.drop_append_of_le_length header, same]

/-- A frame that is decoded without an access behind the bytes has its parts among them. -/
theorem decodePacket_inside {mask : Block 4} {packet : Decoded size}
    (two : 2 ≤ stream.bytes.length) (ran : decodePacket stream mask = .ok packet) :
    payloadStart stream.bytes ≤ stream.bytes.length ∧ (HasMask stream.bytes →
      payloadStart stream.bytes + payloadSize stream.bytes ≤ stream.bytes.length) := by
  have whole : stream.bytes = stream.bytes ++ [] := (List.append_nil _).symm
  rw [decodePacket_unfold whole two] at ran
  obtain ⟨done, read, ran⟩ := ok_of_bind ran
  have header := readHeader_inside two read
  obtain ⟨key, read', -⟩ := readHeader_ok whole mask header
  cases read.symm.trans read'
  refine ⟨header, fun has => ?_⟩
  by_cases positive : 0 < payloadSize stream.bytes
  · dsimp only at ran
    rw [if_pos ⟨has, positive⟩] at ran
    obtain ⟨stream', unmasked, -⟩ := ok_of_bind ran
    have inside := demaskLoop_inside (by omega) unmasked
    rw [stream.length]
    omega
  · omega

theorem lengthBits_lt (data : List UInt8) : (lengthBits data).toNat < 128 := by
  have bound := (data.getD 1 0).toNat_lt
  have half : (lengthBits data).toNat = (data.getD 1 0).toNat / 2 := by
    rw [lengthBits, UInt8.toNat_shiftRight]
    exact Nat.shiftRight_eq_div_pow _ 1
  omega

theorem payloadStart_le (data : List UInt8) : payloadStart data ≤ 14 := by
  unfold payloadStart
  split
  · split
    · decide
    · split <;> decide
  · decide

theorem headerSize_le {n : Nat} (short : n < 65535) : headerSize n ≤ 8 := by
  simp only [headerSize, if_pos short]
  split <;> decide

/-- The header of the echo is not longer than the one that was received, or the payload is
short. -/
theorem echo_fits (contained : Contained data) (fits : data.length ≤ bufferLength) :
    payloadStart data + (payloadSize data).toNat ≤ bufferLength ∧
      headerSize (payloadSize data).toNat + (payloadSize data).toNat ≤ bufferLength := by
  have limit : bufferLength = 1024 := rfl
  have header := contained.header
  have most := payloadStart_le data
  by_cases long : HasMask data ∧ (lengthBits data = 126 ∨ lengthBits data = 127)
  · have start : 8 ≤ payloadStart data := by
      unfold payloadStart
      rw [if_pos long.1]
      rcases long.2 with two | eight
      · rw [if_pos two]
      · rw [eight]
        decide
    have inside := contained.payload long.1
    have small := headerSize_le (n := (payloadSize data).toNat) (by omega)
    omega
  · have short : payloadSize data = (lengthBits data).toNat := by
      unfold payloadSize
      rw [if_neg fun both => long ⟨both.1, .inl both.2⟩,
        if_neg fun both => long ⟨both.1, .inr both.2⟩]
    have bound := lengthBits_lt data
    have small := headerSize_le (n := (payloadSize data).toNat) (by omega)
    omega

theorem printText_ok {size i : Nat} {b : Block size} :
    printText b i = .ok () ↔ 0 ∈ b.bytes.drop i := by
  unfold printText
  split
  · exact iff_of_true rfl ‹_›
  · exact iff_of_false nofun ‹_›

/-- `ws_request` keeps to the received bytes just for these. -/
theorem wsRequestData_iff (two : 2 ≤ data.length) (mask : Block 4) :
    (∃ packet, wsRequestData (⟨data, rfl⟩ : Block data.length) mask = .ok packet) ↔
      Contained data := by
  have whole : (⟨data, rfl⟩ : Block data.length).bytes = data ++ [] := (List.append_nil _).symm
  constructor
  · rintro ⟨packet, ran⟩
    unfold wsRequestData at ran
    obtain ⟨_, printed, ran⟩ := ok_of_bind ran
    obtain ⟨packet', decoded, ran⟩ := ok_of_bind ran
    obtain ⟨header, payload⟩ := decodePacket_inside two decoded
    obtain ⟨packet'', decoded', start, ret, text⟩ := decodePacket_ok whole two mask header payload
    cases decoded.symm.trans decoded'
    refine ⟨printText_ok.mp printed, header, payload, fun positive => ?_⟩
    rw [if_pos (by rw [ret]; exact positive)] at ran
    obtain ⟨_, printed', -⟩ := ok_of_bind ran
    have ends := printText_ok.mp printed'
    rwa [start, text, List.append_nil] at ends
  · intro contained
    obtain ⟨packet, decoded, start, ret, text⟩ :=
      decodePacket_ok whole two mask contained.header contained.payload
    refine ⟨packet, ?_⟩
    unfold wsRequestData
    have begins : printText (⟨data, rfl⟩ : Block data.length) 0 = .ok () :=
      printText_ok.mpr contained.ended
    rw [begins, ok_bind, decoded, ok_bind]
    by_cases positive : 0 < payloadSize data
    · have ends : printText packet.stream packet.start = .ok () := by
        rw [printText_ok, start, text, List.append_nil]
        exact contained.decoded positive
      rw [if_pos (by rw [ret]; exact positive), ends]
      rfl
    · rw [if_neg (by rw [ret]; exact positive)]
      rfl

/-- The echo of such bytes is written. -/
theorem echo_ok {handshark : Conn → Except Fault Conn} {c : Conn} (status : c.status = 1)
    (two : 2 ≤ data.length) (fits : data.length ≤ bufferLength) (contained : Contained data) :
    ∃ c₁ c₂, wsRequest handshark (c.received data fits) = .ok c₁ ∧ wsResponse c₁ = .ok c₂ ∧
      (c₁.status = 2 → c₂.wlength ≤ bufferLength) := by
  have whole : (c.received data fits).rbuffer.bytes =
      data ++ List.replicate (bufferLength - data.length) 0 := rfl
  obtain ⟨packet, decoded, start, ret, -⟩ :=
    decodePacket_ok whole two c.mask contained.header contained.payload
  rw [wsRequest_decodes handshark status fits, decoded, ok_bind]
  dsimp only
  by_cases positive : 0 < packet.ret
  · rw [if_pos positive]
    obtain ⟨inside, room⟩ := echo_fits contained fits
    rw [← start, ← ret] at inside
    rw [← ret] at room
    obtain ⟨payload, read⟩ := packet.stream.load_inside inside
    have length : payload.length = packet.ret.toNat := by
      obtain ⟨within, rfl⟩ := loadAt_ok read
      exact part_length within
    rw [← length] at read room
    obtain ⟨frame, encoded, -⟩ := encodePacket_ok (c.received data fits).wbuffer read room
    have natural : (payload.length : Int) = packet.ret := by omega
    rw [natural] at encoded
    refine ⟨_, { c.received data fits with
      rbuffer := packet.stream, mask := packet.mask, payload := some packet.start,
      wlength := (headerSize payload.length : Int) + packet.ret, wbuffer := frame, status := 1 },
      rfl, ?_, fun _ => ?_⟩
    · simp only [wsResponse, ↓reduceIte]
      rw [encoded]
      rfl
    · dsimp only
      omega
  · rw [if_neg positive]
    refine ⟨_, { c.received data fits with
      rbuffer := packet.stream, mask := packet.mask, payload := some packet.start }, rfl, ?_, ?_⟩
    · unfold wsResponse
      rw [if_neg (by simp [status])]
      rfl
    · intro two
      simp [status] at two

end Decoding

/-- The reads, the unmasking and the echo stay inside exactly if the received bytes have in
them what the frame claims, and an end for what is printed. -/
theorem staysInside_iff (handshark : Conn → Except Fault Conn) (c : Conn) (status : c.status = 1)
    (data : List UInt8) (two : 2 ≤ data.length) (fits : data.length ≤ bufferLength) :
    StaysInside handshark c data fits ↔ Contained data := by
  constructor
  · intro inside
    exact (wsRequestData_iff two c.mask).mp inside.1
  · intro contained
    exact ⟨(wsRequestData_iff two c.mask).mpr contained, echo_ok status two fits contained⟩

/-- The letter h under the mask 1, 2, 3, 4, and a NUL behind it. -/
theorem staysInside_letter :
    StaysInside .ok (sampleConn [] (by decide)) [0x81, 3, 1, 2, 3, 4, 105, 0] (by decide) :=
  (staysInside_iff .ok _ rfl _ (by decide) (by decide)).mpr
    ⟨by decide, by decide, by decide, by decide⟩

/-- Two bytes with the bit for the mask: its key is read behind them. -/
theorem key_behind_received :
    ¬ StaysInside .ok (sampleConn [] (by decide)) [0, 1] (by decide) := by
  intro inside
  have two : 2 ≤ ([0, 1] : List UInt8).length := by decide
  have contained := (wsRequestData_iff two _).mp inside.1
  exact absurd contained.header (by decide)

end LinuxCpp.Websocket
