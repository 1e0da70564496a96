import LinuxCpp.C.Block

set_option autoImplicit false

/- The packets of websocket.c. Bit-fields are laid out from the least significant bit of
each byte on, numbers are little-endian; what is printed is left out. -/
namespace LinuxCpp.Websocket

open C

def bufferLength : Nat := 1024

/-- `struct _nty_ophdr` -/
structure Ophdr where
  fin : UInt8
  rsv1 : UInt8
  rsv2 : UInt8
  rsv3 : UInt8
  opcode : UInt8
  mask : UInt8
  payloadLength : UInt8
deriving DecidableEq, Repr

namespace Ophdr

/-- `nty_ophdr head = {0}` -/
def zeroed : Ophdr := ⟨0, 0, 0, 0, 0, 0, 0⟩

/-- The two bytes of the header as its fields. -/
def ofBytes (first second : UInt8) : Ophdr where
  fin := first &&& 1
  rsv1 := first >>> 1 &&& 1
  rsv2 := first >>> 2 &&& 1
  rsv3 := first >>> 3 &&& 1
  opcode := first >>> 4
  mask := second &&& 1
  payloadLength := second >>> 1

def bytes (h : Ophdr) : List UInt8 :=
  [h.fin ||| h.rsv1 <<< 1 ||| h.rsv2 <<< 2 ||| h.rsv3 <<< 3 ||| h.opcode <<< 4,
    h.mask ||| h.payloadLength <<< 1]

end Ophdr

variable {size size' : Nat}

/-- `ntohs` and `htons` on a little-endian host. -/
def ntohs (n : Nat) : Nat := swapBytes 2 n

def htons (n : Nat) : Nat := swapBytes 2 n

/-- The rounds `i`, `i + 1`, .. of the loop of `demask`, so many of them. -/
def demaskLoop (data : Nat) (mask : Block 4) : Nat → Nat → Block size → Except Fault (Block size)
  | 0, _, stream => .ok stream
  | rounds + 1, i, stream => do
      let byte ← load8 stream.bytes (data + i)
      let key ← load8 mask.bytes (i % 4)
      demaskLoop data mask rounds (i + 1) (← stream.store (data + i) [byte ^^^ key])

/-- `data` is an offset into the stream. -/
def demask (stream : Block size) (data : Nat) (len : Int) (mask : Block 4) :
    Except Fault (Block size) :=
  demaskLoop data mask len.toNat 0 stream

/-- What `decode_packet` leaves: the offset it returns, `*ret`, and the two buffers. -/
structure Decoded (size : Nat) where
  start : Nat
  ret : Int
  stream : Block size
  mask : Block 4
deriving DecidableEq, Repr

/-- The payload size, its offset, and the mask. -/
def readHeader (stream : Block size) (mask : Block 4) (hdr : Ophdr) :
    Except Fault (Int × Nat × Block 4) := do
  if hdr.mask ≠ 0 then
    if hdr.payloadLength = 126 then
      let payloadLength ← load16 stream.bytes 2
      let mask ← mask.store 0 (← stream.load 4 4)
      return (ntohs payloadLength.toNat, 8, mask)
    else if hdr.payloadLength = 127 then
      -- the lower half of the eight bytes, in host order
      let payloadLength ← stream.load 2 8
      let mask ← mask.store 0 (← stream.load 10 4)
      return ((BitVec.ofNat 32 (numberOf payloadLength)).toInt, 14, mask)
    else
      let mask ← mask.store 0 (← stream.load 2 4)
      return (hdr.payloadLength.toNat, 6, mask)
  else
    return (hdr.payloadLength.toNat, 2, mask)

def decodePacket (stream : Block size) (mask : Block 4) : Except Fault (Decoded size) := do
  let hdr := Ophdr.ofBytes (← load8 stream.bytes 0) (← load8 stream.bytes 1)
  let (ret, start, mask) ← readHeader stream mask hdr
  if hdr.mask ≠ 0 ∧ 0 < ret then
    return ⟨start, ret, ← demask stream start ret mask, mask⟩
  return ⟨start, ret, stream, mask⟩

/-- The header that `encode_packet` writes, and its size. The two longer headers have
room for a mask, which stays zero. -/
def writeHeader (buffer : Block size) (length : Int) : Except Fault (Nat × Block size) := do
  let head := { Ophdr.zeroed with fin := 1, opcode := 1 }
  if length < 126 then
    let buffer ← buffer.store 0 { head with payloadLength := .ofInt (length % 128) }.bytes
    return (2, buffer)
  else if length < 0xffff then
    let buffer ← buffer.store 0 { head with payloadLength := 126 }.bytes
    let buffer ← buffer.store 2 (bytesOf 2 (htons length.toNat) ++ [0, 0, 0, 0])
    return (8, buffer)
  else
    let buffer ← buffer.store 0 { head with payloadLength := 127 }.bytes
    let buffer ← buffer.store 2 (bytesOf 8 length.toNat ++ [0, 0, 0, 0])
    return (14, buffer)

/-- `stream` is an offset into the block that holds the payload. A negative length is a
huge one for `memcpy`. -/
def encodePacket (buffer : Block size) (block : Block size') (stream : Nat) (length : Int) :
    Except Fault (Int × Block size) := do
  let (size, buffer) ← writeHeader buffer length
  if length < 0 then throw .outOfBounds
  let buffer ← buffer.store size (← block.load stream length.toNat)
  return (size + length, buffer)

/-- The fields of `struct conn` that the protocol uses; `payload` points into `rbuffer`. -/
structure Conn where
  rbuffer : Block bufferLength
  rlength : Int
  wbuffer : Block bufferLength
  wlength : Int
  payload : Option Nat
  mask : Block 4
  status : Int
deriving DecidableEq, Repr

/-- `recv_cb` up to the request: the buffer is cleared and one read goes into it. -/
def Conn.received (c : Conn) (data : List UInt8) (fits : data.length ≤ bufferLength) : Conn :=
  { c with rbuffer := .holding data fits, rlength := data.length }

@[simp] theorem Conn.received_status (c : Conn) (data : List UInt8)
    (fits : data.length ≤ bufferLength) : (c.received data fits).status = c.status := rfl

/-- The handshake is a parameter. -/
def wsRequest (handshark : Conn → Except Fault Conn) (c : Conn) : Except Fault Conn := do
  if c.status = 0 then
    let c ← handshark c
    return { c with status := 1 }
  else if c.status = 1 then
    let packet ← decodePacket c.rbuffer c.mask
    let c := { c with rbuffer := packet.stream, mask := packet.mask, payload := some packet.start }
    if 0 < packet.ret then
      return { c with wlength := packet.ret, status := 2 }
    return c
  return c

def wsResponse (c : Conn) : Except Fault Conn := do
  if c.status = 2 then
    match c.payload with
    | none => throw .nullDeref
    | some payload =>
        let (wlength, wbuffer) ← encodePacket c.wbuffer c.rbuffer payload c.wlength
        return { c with wlength := wlength, wbuffer := wbuffer, status := 1 }
  return c

end LinuxCpp.Websocket
