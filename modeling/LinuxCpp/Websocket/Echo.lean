import LinuxCpp.C.Returns
import LinuxCpp.Websocket.Packet

set_option autoImplicit false

/- The echo on the wire. With its bit-fields in this order the header is not the one of
RFC 6455: what the server reads as flags and length are other bits of the frame, and
what it writes begins with 0x11. -/
namespace LinuxCpp.Websocket

open C

section Rfc6455

/-- The second byte of a frame, below the bit for the mask, and the extended length. -/
def lengthBytes (bit : UInt8) (n : Nat) : List UInt8 :=
  if n < 126 then [bit ||| .ofNat n]
  else if n < 65536 then (bit ||| 126) :: (bytesOf 2 n).reverse
  else (bit ||| 127) :: (bytesOf 8 n).reverse

def masked (key : Vector UInt8 4) (payload : List UInt8) : List UInt8 :=
  payload.mapIdx fun i byte => byte ^^^ key.get ⟨i % 4, Nat.mod_lt i (by decide)⟩

/-- The final text frame of a client. -/
def maskedTextFrame (key : Vector UInt8 4) (payload : List UInt8) : List UInt8 :=
  0x81 :: lengthBytes 0x80 payload.length ++ key.toList ++ masked key payload

/-- The final text frame of a server. -/
def textFrame (payload : List UInt8) : List UInt8 :=
  0x81 :: lengthBytes 0 payload.length ++ payload

variable {key : Vector UInt8 4} {payload : List UInt8}

theorem lengthBytes_length (bit : UInt8) {n : Nat} (small : n < 65536) :
    (lengthBytes bit n).length = if n < 126 then 1 else 3 := by
  unfold lengthBytes
  split
  · rfl
  · simp

theorem maskedTextFrame_fits (short : payload.length ≤ 1016) :
    (maskedTextFrame key payload).length ≤ bufferLength := by
  have length := lengthBytes_length 0x80 (n := payload.length) (by omega)
  simp only [maskedTextFrame, masked, List.length_append, List.length_cons, List.length_mapIdx,
    Vector.length_toList, length, bufferLength]
  split <;> omega

theorem textFrame_fits (short : payload.length ≤ 1016) :
    (textFrame payload).length ≤ bufferLength := by
  have length := lengthBytes_length 0 (n := payload.length) (by omega)
  simp only [textFrame, List.length_append, List.length_cons, length, bufferLength]
  split <;> omega

end Rfc6455

/-- The request and the response for one frame leave its echo. -/
def Echoes (handshark : Conn → Except Fault Conn) (c : Conn) (key : Vector UInt8 4)
    (payload : List UInt8) (short : payload.length ≤ 1016) : Prop :=
  ∃ c₁ c₂,
    wsRequest handshark (c.received (maskedTextFrame key payload) (maskedTextFrame_fits short)) =
      .ok c₁ ∧
    wsResponse c₁ = .ok c₂ ∧ c₂.wbuffer.load 0 c₂.wlength.toNat = .ok (textFrame payload)

section Response

variable {size size' : Nat} {buffer buffer' : Block size} {block : Block size'}

/-- The header of a final text frame, by the length it announces. -/
def textHead (payloadLength : UInt8) : Ophdr :=
  { Ophdr.zeroed with fin := 1, opcode := 1, payloadLength := payloadLength }

theorem textHead_bytes (payloadLength : UInt8) :
    (textHead payloadLength).bytes = [0x11, (0 : UInt8) ||| payloadLength <<< (1 : UInt8)] := by
  have first : (1 : UInt8) ||| (0 : UInt8) <<< 1 ||| (0 : UInt8) <<< 2 ||| (0 : UInt8) <<< 3 |||
      (1 : UInt8) <<< 4 = 0x11 := by decide
  exact congrArg (fun first => [first, _]) first

theorem load_textHead {payloadLength : UInt8}
    (stored : buffer.store 0 (textHead payloadLength).bytes = .ok buffer') :
    buffer'.load 0 1 = .ok [0x11] := by
  rw [textHead_bytes] at stored
  exact loadAt_part (Block.load_store stored) (Nat.le_succ 1)

theorem writeHeader_first (buffer : Block size) (length : Int) :
    Returns (writeHeader buffer length) fun done => done.2.load 0 1 = .ok [0x11] ∧ 1 ≤ done.1 := by
  have head (payloadLength : UInt8) : Returns (buffer.store 0 (textHead payloadLength).bytes)
      fun buffer => buffer.load 0 1 = .ok [0x11] := ⟨fun _ stored => load_textHead stored⟩
  have rest {buffer : Block size} (bytes : List UInt8) (first : buffer.load 0 1 = .ok [0x11]) :
      Returns (buffer.store 2 bytes) fun buffer => buffer.load 0 1 = .ok [0x11] :=
    ⟨fun _ stored => (Block.load_store_apart stored (.inl (by decide))).trans first⟩
  unfold writeHeader
  refine .ite ?_ (.ite ?_ ?_)
  · apply (head _).bind
    intro buffer first
    exact .pure ⟨first, by simp⟩
  · apply (head _).bind
    intro buffer first
    apply (rest _ first).bind
    intro buffer first
    exact .pure ⟨first, by simp⟩
  · apply (head _).bind
    intro buffer first
    apply (rest _ first).bind
    intro buffer first
    exact .pure ⟨first, by simp⟩

theorem encodePacket_first (buffer : Block size) (block : Block size') (stream : Nat)
    (length : Int) :
    Returns (encodePacket buffer block stream length) fun done => done.2.load 0 1 = .ok [0x11] := by
  unfold encodePacket
  apply (writeHeader_first buffer length).bind
  intro header first
  refine .ite (.error _) (.skip fun bytes => ?_)
  have apart : Returns (header.2.store header.1 bytes) fun buffer => buffer.load 0 1 = .ok [0x11] :=
    ⟨fun _ stored => (Block.load_store_apart stored (.inl first.2)).trans first.1⟩
  apply apart.bind
  intro buffer first
  exact .pure first

/-- A response that is sent begins with 0x11. -/
theorem wsResponse_first {c : Conn} (status : c.status = 2) :
    Returns (wsResponse c) fun c' => c'.wbuffer.load 0 1 = .ok [0x11] := by
  unfold wsResponse
  rw [if_pos status]
  cases c.payload with
  | none => exact .error _
  | some payload =>
      apply (encodePacket_first _ _ _ _).bind
      intro packet first
      exact .pure first

theorem load_textFrame {b : Block size} {n : Nat} {payload : List UInt8}
    (read : b.load 0 n = .ok (textFrame payload)) : b.load 0 1 = .ok [0x81] := by
  obtain ⟨inside, taken⟩ := loadAt_ok read
  have length := congrArg List.length taken
  simp only [textFrame, List.length_append, List.length_cons, List.length_take] at length
  exact loadAt_part read (by omega)

end Response

section Request

variable {size : Nat} {key : Vector UInt8 4} {payload : List UInt8}

/-- What `decode_packet` reports, if the length is not one of eight bytes. -/
def reported (hdr : Ophdr) (extended : Nat) : Int :=
  if hdr.mask ≠ 0 ∧ hdr.payloadLength = 126 then ntohs extended else hdr.payloadLength.toNat

theorem readHeader_reports (stream : Block size) (mask : Block 4) (hdr : Ophdr) (extended : UInt16)
    (load : load16 stream.bytes 2 = .ok extended) (short : hdr.mask ≠ 0 → hdr.payloadLength ≠ 127) :
    Returns (readHeader stream mask hdr) fun done => done.1 = reported hdr extended.toNat := by
  unfold readHeader reported
  split
  · rename_i has_mask
    split
    · rename_i two
      rw [load, ok_bind, if_pos ⟨has_mask, two⟩]
      exact .skip fun bytes => .skip fun mask => .pure rfl
    · rename_i other
      rw [if_neg (short has_mask), if_neg fun both => other both.2]
      exact .skip fun bytes => .skip fun mask => .pure rfl
  · rename_i no_mask
    rw [if_neg fun both => no_mask both.1]
    exact .pure rfl

theorem decodePacket_reports (stream : Block size) (mask : Block 4) (first second : UInt8)
    (extended : UInt16) (load₀ : load8 stream.bytes 0 = .ok first)
    (load₁ : load8 stream.bytes 1 = .ok second) (load₂ : load16 stream.bytes 2 = .ok extended)
    (short : second &&& 1 ≠ 0 → second >>> 1 ≠ 127) :
    Returns (decodePacket stream mask) fun packet =>
      packet.ret = reported (.ofBytes first second) extended.toNat := by
  unfold decodePacket
  rw [load₀, ok_bind, load₁, ok_bind]
  apply (readHeader_reports stream mask _ extended load₂ short).bind
  intro header same
  exact .ite (.skip fun stream => .pure same) (.pure same)

/-- The second byte of the frame of a client. -/
def secondByte (n : Nat) : UInt8 := if n < 126 then 0x80 ||| .ofNat n else 0xFE

theorem secondByte_short (n : Nat) : secondByte n &&& 1 ≠ 0 → secondByte n >>> 1 ≠ 127 := by
  have small : ∀ n < 126, ((0x80 : UInt8) ||| .ofNat n) >>> 1 ≠ 127 := by decide
  unfold secondByte
  split
  · rename_i short
    exact fun _ => small n short
  · decide

/-- Something is reported, except where the length is read from a mask of zeros. -/
theorem reported_pos (n extended : Nat) :
    0 < reported (.ofBytes 0x81 (secondByte n)) extended ∨ (n = 125 ∧ ntohs extended = 0) := by
  have low : ∀ n < 126, 0 < (((0x80 : UInt8) ||| .ofNat n) >>> 1).toNat ∧
      (((0x80 : UInt8) ||| .ofNat n) &&& 1 ≠ 0 ∧ ((0x80 : UInt8) ||| .ofNat n) >>> 1 = 126 →
        n = 125) := by decide
  unfold reported secondByte
  simp only [Ophdr.ofBytes]
  split
  · rename_i short
    obtain ⟨positive, only⟩ := low n short
    split
    · rename_i two
      have single := only two
      rcases Nat.eq_zero_or_pos (ntohs extended) with zero | more
      · exact .inr ⟨single, zero⟩
      · exact .inl (by exact_mod_cast more)
    · exact .inl (by exact_mod_cast positive)
  · rw [if_neg (by decide)]
    exact .inl (by decide)

theorem key_toList (key : Vector UInt8 4) : key.toList = [key[0], key[1], key[2], key[3]] := by
  obtain ⟨⟨bytes⟩, length⟩ := key
  match bytes, length with
  | [_, _, _, _], _ => rfl

theorem lengthBytes_masked (small : payload.length ≤ 1016) :
    ∃ extended, lengthBytes 0x80 payload.length = secondByte payload.length :: extended ∧
      (payload.length < 126 → extended = []) := by
  unfold lengthBytes secondByte
  split
  · exact ⟨[], rfl, fun _ => rfl⟩
  · rename_i long
    rw [if_pos (by omega)]
    exact ⟨_, rfl, fun short => absurd short long⟩

/-- The two bytes behind the header of a frame without extended length. -/
def keyLength (key : Vector UInt8 4) : Nat := numberOf [key[0], key[1]]

theorem keyLength_lt (key : Vector UInt8 4) : keyLength key < 65536 := by
  have bound := numberOf_lt [key[0], key[1]]
  simpa [keyLength] using bound

theorem frame_head (small : payload.length ≤ 1016)
    (fits : (maskedTextFrame key payload).length ≤ bufferLength) :
    load8 (Block.holding (maskedTextFrame key payload) fits).bytes 0 = .ok 0x81 ∧
    load8 (Block.holding (maskedTextFrame key payload) fits).bytes 1 =
      .ok (secondByte payload.length) ∧
    ∃ extended, load16 (Block.holding (maskedTextFrame key payload) fits).bytes 2 = .ok extended ∧
      (payload.length < 126 → extended.toNat = keyLength key) := by
  obtain ⟨extended, length, none_⟩ := lengthBytes_masked small
  have frame : maskedTextFrame key payload =
      0x81 :: secondByte payload.length :: (extended ++ key.toList ++ masked key payload) := by
    simp [maskedTextFrame, length]
  refine ⟨load8_of_load ?_, load8_of_load ?_, ?_⟩
  · exact Block.load_holding fits [] [0x81] _ frame rfl rfl
  · exact Block.load_holding fits [0x81] [secondByte payload.length] _ frame rfl rfl
  · have word {bytes : List UInt8}
        (read : (Block.holding (maskedTextFrame key payload) fits).load 2 2 = .ok bytes) :
        load16 (Block.holding (maskedTextFrame key payload) fits).bytes 2 =
          .ok (.ofNat (numberOf bytes)) :=
      congrArg (Except.map fun bytes => UInt16.ofNat (numberOf bytes)) read
    by_cases short : payload.length < 126
    · rw [none_ short, key_toList] at frame
      have read := word (Block.load_holding fits [0x81, secondByte payload.length] [key[0], key[1]]
        ([key[2], key[3]] ++ masked key payload) frame rfl rfl)
      refine ⟨_, read, fun _ => ?_⟩
      rw [UInt16.toNat_ofNat']
      exact Nat.mod_eq_of_lt (keyLength_lt key)
    · obtain ⟨bytes, read⟩ := Block.load_inside
        (b := Block.holding (maskedTextFrame key payload) fits) (i := 2) (n := 2) (by decide)
      exact ⟨_, word read, fun yes => absurd yes short⟩

/-- A number of two bytes is not zero in the other order unless it is zero. -/
theorem ntohs_eq_zero {n : Nat} (small : n < 65536) (zero : ntohs n = 0) : n = 0 := by
  have back := swapBytes_swapBytes 2 n
  rw [ntohs] at zero
  rw [zero, Nat.mod_eq_of_lt (by exact small)] at back
  exact back.symm

theorem keyLength_eq_zero : keyLength key = 0 ↔ key[0] = 0 ∧ key[1] = 0 := by
  simp only [keyLength, numberOf, ← UInt8.toNat_inj, UInt8.toNat_zero]
  omega

/-- Behind the handshake the bytes received are decoded. -/
theorem wsRequest_decodes (handshark : Conn → Except Fault Conn) {c : Conn} (status : c.status = 1)
    {data : List UInt8} (fits : data.length ≤ bufferLength) :
    wsRequest handshark (c.received data fits) = (do
      let packet ← decodePacket (c.received data fits).rbuffer c.mask
      let c := { c.received data fits with
        rbuffer := packet.stream, mask := packet.mask, payload := some packet.start }
      if 0 < packet.ret then
        return { c with wlength := packet.ret, status := 2 }
      return c) := by
  unfold wsRequest
  rw [Conn.received_status, if_neg (by rw [status]; decide), if_pos status]
  rfl

/-- Unless the size is read from zeros of the mask, the server goes on to answer. -/
theorem wsRequest_answers (handshark : Conn → Except Fault Conn) {c : Conn} (status : c.status = 1)
    (short : payload.length ≤ 1016) (other : ¬ (payload.length = 125 ∧ key[0] = 0 ∧ key[1] = 0)) :
    Returns (wsRequest handshark (c.received (maskedTextFrame key payload)
      (maskedTextFrame_fits short))) fun c₁ => c₁.status = 2 := by
  obtain ⟨load₀, load₁, extended, load₂, same⟩ := frame_head short (maskedTextFrame_fits short)
  have positive : 0 < reported (.ofBytes 0x81 (secondByte payload.length)) extended.toNat := by
    rcases reported_pos payload.length extended.toNat with positive | ⟨length, zero⟩
    · exact positive
    · have none_ := ntohs_eq_zero extended.toNat_lt zero
      rw [same (by omega)] at none_
      exact absurd ⟨length, keyLength_eq_zero.mp none_⟩ other
  rw [wsRequest_decodes handshark status]
  apply (decodePacket_reports _ _ _ _ _ load₀ load₁ load₂ (secondByte_short _)).bind
  intro packet ret
  rw [if_pos (by rw [ret]; exact positive)]
  exact .pure rfl

/-- A size read from zeros leaves the response as it is. -/
theorem wsRequest_silent (handshark : Conn → Except Fault Conn) {c : Conn} (status : c.status = 1)
    (short : payload.length ≤ 1016) (length : payload.length = 125) (zeros : keyLength key = 0) :
    ∃ c₁, wsRequest handshark (c.received (maskedTextFrame key payload)
      (maskedTextFrame_fits short)) = .ok c₁ ∧ c₁.status = 1 ∧ c₁.wbuffer = c.wbuffer ∧
        c₁.wlength = c.wlength := by
  obtain ⟨load₀, load₁, extended, load₂, same⟩ := frame_head short (maskedTextFrame_fits short)
  have none_ : extended.toNat = 0 := (same (by omega)).trans zeros
  have second : secondByte payload.length = 0xFD := by
    rw [length]
    decide
  obtain ⟨bytes, read⟩ := Block.load_inside
    (b := .holding (maskedTextFrame key payload) (maskedTextFrame_fits short)) (i := 4) (n := 4)
    (by decide)
  have four : bytes.length = 4 := by
    obtain ⟨inside, rfl⟩ := loadAt_ok read
    rw [List.length_take, List.length_drop]
    omega
  obtain ⟨mask, stored⟩ := c.mask.store_inside (i := 0) bytes (by omega)
  have header : readHeader (.holding (maskedTextFrame key payload) (maskedTextFrame_fits short))
      c.mask (.ofBytes 0x81 0xFD) = .ok (0, 8, mask) := by
    unfold readHeader
    rw [if_pos (by decide), if_pos (by decide), load₂, ok_bind, read, ok_bind, stored, ok_bind,
      none_]
    rfl
  have decoded : decodePacket (.holding (maskedTextFrame key payload) (maskedTextFrame_fits short))
      c.mask = .ok ⟨8, 0, .holding (maskedTextFrame key payload) (maskedTextFrame_fits short),
        mask⟩ := by
    unfold decodePacket
    rw [load₀, ok_bind, load₁, ok_bind, second]
    dsimp only
    rw [header]
    rfl
  rw [wsRequest_decodes handshark status]
  simp only [Conn.received, decoded, ok_bind]
  exact ⟨_, rfl, status, rfl, rfl⟩

end Request

/-- What the server writes is not the echo. -/
theorem not_echoes (handshark : Conn → Except Fault Conn) {c : Conn} (status : c.status = 1)
    {key : Vector UInt8 4} {payload : List UInt8} (short : payload.length ≤ 1016)
    (other : ¬ (payload.length = 125 ∧ key[0] = 0 ∧ key[1] = 0)) :
    ¬ Echoes handshark c key payload short := by
  intro echoes
  obtain ⟨c₁, c₂, requested, responded, read⟩ := echoes
  have status₁ := (wsRequest_answers handshark status short other).of_ok c₁ requested
  have first := (wsResponse_first status₁).of_ok c₂ responded
  cases first.symm.trans (load_textFrame read)

/-- The echo is on the wire just if the server writes none and it was there before: only
with 125 bytes and a mask that begins with two zeros. -/
theorem echoes_iff (handshark : Conn → Except Fault Conn) (c : Conn) (status : c.status = 1)
    (key : Vector UInt8 4) (payload : List UInt8) (short : payload.length ≤ 1016) :
    Echoes handshark c key payload short ↔
      payload.length = 125 ∧ key[0] = 0 ∧ key[1] = 0 ∧
        c.wbuffer.load 0 c.wlength.toNat = .ok (textFrame payload) := by
  by_cases silent : payload.length = 125 ∧ key[0] = 0 ∧ key[1] = 0
  · obtain ⟨length, zeros⟩ := silent
    obtain ⟨c₁, requested, status₁, wbuffer, wlength⟩ :=
      wsRequest_silent handshark status short length (keyLength_eq_zero.mpr zeros)
    have responded : wsResponse c₁ = .ok c₁ := by
      unfold wsResponse
      rw [if_neg (by rw [status₁]; decide)]
      rfl
    constructor
    · intro echoes
      obtain ⟨c₁', c₂, requested', responded', read⟩ := echoes
      cases requested.symm.trans requested'
      cases responded.symm.trans responded'
      rw [wbuffer, wlength] at read
      exact ⟨length, zeros.1, zeros.2, read⟩
    · intro before
      refine ⟨c₁, c₁, requested, responded, ?_⟩
      rw [wbuffer, wlength]
      exact before.2.2.2
  · apply iff_of_false (not_echoes handshark status short silent)
    intro before
    exact silent ⟨before.1, before.2.1, before.2.2.1⟩

/-- A connection after its handshake, with these bytes to be sent. -/
def sampleConn (bytes : List UInt8) (fits : bytes.length ≤ bufferLength) : Conn :=
  ⟨.zeroed _, 0, .holding bytes fits, bytes.length, none, .zeroed _, 1⟩

theorem sampleConn_load (bytes : List UInt8) (fits : bytes.length ≤ bufferLength) :
    (sampleConn bytes fits).wbuffer.load 0 (sampleConn bytes fits).wlength.toNat = .ok bytes :=
  Block.load_holding fits [] bytes [] (List.append_nil bytes).symm rfl rfl

theorem sample_short : (List.replicate 125 (97 : UInt8)).length ≤ 1016 := by
  rw [List.length_replicate]
  decide

/-- The reply is in the buffer already, and the mask is zero. -/
theorem echoes_iff_silent : Echoes .ok (sampleConn (textFrame (List.replicate 125 97))
    (textFrame_fits sample_short)) (.replicate 4 0) (List.replicate 125 97) sample_short := by
  refine (echoes_iff .ok _ rfl _ _ _).mpr ⟨List.length_replicate, rfl, rfl, ?_⟩
  exact sampleConn_load _ _

/-- The text "hi" with the mask 1, 2, 3, 4. -/
theorem hi_not_echoed : ¬ Echoes .ok (sampleConn [] (by decide)) #v[1, 2, 3, 4] [104, 105]
    (by decide) :=
  not_echoes .ok rfl _ (by decide)

end LinuxCpp.Websocket
