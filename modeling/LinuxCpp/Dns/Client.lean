import LinuxCpp.C.Bytes
import LinuxCpp.C.Strtok

set_option autoImplicit false

/- The request of dns.c, from the host name to the bytes that are sent. The socket, the
answer and what is printed are left out. -/
namespace LinuxCpp.Dns

open C

/-- `htons` on a little-endian host. -/
def htons (n : UInt16) : UInt16 := .ofNat (swapBytes 2 n.toNat)

/-- `struct dns_header` -/
structure DnsHeader where
  id : UInt16
  flags : UInt16
  questions : UInt16
  answer : UInt16
  authority : UInt16
  additional : UInt16
deriving DecidableEq, Repr

namespace DnsHeader

def zeroed : DnsHeader := ⟨0, 0, 0, 0, 0, 0⟩

def bytes (h : DnsHeader) : List UInt8 :=
  [h.id, h.flags, h.questions, h.answer, h.authority, h.additional].flatMap fun field =>
    bytesOf 2 field.toNat

end DnsHeader

/-- `struct dns_question`, with the block that `name` points to. -/
structure DnsQuestion where
  length : Int
  qtype : UInt16
  qclass : UInt16
  name : Option (List UInt8)
deriving DecidableEq, Repr

def DnsQuestion.zeroed : DnsQuestion := ⟨0, 0, 0, none⟩

/-- What `malloc` and `strdup` do in one call: the block for the name comes with the bytes
that stood there before. -/
structure Memory where
  granted : Bool
  junk : Nat → UInt8
  copied : Bool

/-- `random` is what `random()` returns. -/
def dnsCreateHeader (random : Nat) (header : Option DnsHeader) : Option DnsHeader × Int :=
  match header with
  | none => (none, -1)
  | some _ =>
      (some { DnsHeader.zeroed with
        id := .ofNat random
        flags := htons 0x0100
        questions := htons 1 }, 0)

/-- The loop over the tokens: `bytes` is what `strtok` has not read, `qname` the offset of the
pointer in the block. -/
def encodeLabels : Nat → List UInt8 → List UInt8 → Nat → Except Fault (List UInt8)
  | 0, _, _, _ => .error .fuel
  | fuel + 1, bytes, name, qname => do
      match ← strtok 46 bytes with
      | none => return name
      | some (token, bytes) =>
          let name ← storeAt name qname [.ofNat token.length]
          let qname := qname + 1
          -- `strncpy(qname, token, len + 1)` copies the NUL, too
          let name ← storeAt name qname (token.bytes ++ [0])
          encodeLabels fuel bytes name (qname + token.length)

/-- The second value is what the call returns; it ends without a `return` after the loop. -/
def dnsCreateQuestion (memory : Memory) (question : Option DnsQuestion)
    (hostname : Option CStr) : Except Fault (Option DnsQuestion × Option Int) := do
  match question, hostname with
  | some _, some hostname =>
      if ¬ memory.granted then return (some DnsQuestion.zeroed, some (-2))
      let size := hostname.length + 2
      let name := (List.range size).map memory.junk
      -- `strtok(NULL, delim)`, and no string is saved yet
      if ¬ memory.copied then throw .nullDeref
      let name ← encodeLabels (hostname.length + 1) (hostname.bytes ++ [0]) name 0
      return (some {
        length := (BitVec.ofNat 32 size).toInt
        qtype := htons 1
        qclass := htons 1
        name := some name }, none)
  | _, _ => return (question, some (-1))

/-- An `int` as the number of bytes of `memset` or `memcpy`. No block is as large as a negative
one is then. -/
def byteCount (n : Int) : Except Fault Nat :=
  if n < 0 then .error .outOfBounds else .ok n.toNat

/-- What `memcpy` reads for `n` bytes; for none it does not read. -/
def source (block : Option (List UInt8)) (n : Nat) : Except Fault (List UInt8) :=
  if n = 0 then .ok []
  else match block with
    | none => .error .nullDeref
    | some block => loadAt block 0 n

/-- `offset += n`, with `offset` an `int` -/
def advance (offset n : Nat) : Except Fault Nat :=
  if offset + n < 2 ^ 31 then .ok (offset + n) else .error .overflow

def dnsBuildRequestion (header : Option DnsHeader) (question : Option DnsQuestion)
    (request : Option (List UInt8)) (rlen : Int) : Except Fault (Option (List UInt8) × Int) := do
  match header, question, request with
  | some header, some question, some request =>
      let request ← storeAt request 0 (List.replicate (← byteCount rlen) 0)
      let request ← storeAt request 0 header.bytes
      let offset := 12
      let length ← byteCount question.length
      let request ← storeAt request offset (← source question.name length)
      let offset ← advance offset length
      let request ← storeAt request offset (bytesOf 2 question.qtype.toNat)
      let offset ← advance offset 2
      let request ← storeAt request offset (bytesOf 2 question.qclass.toNat)
      let offset ← advance offset 2
      return (some request, (offset : Int))
  | _, _, _ => return (request, -1)

/-- `dns_client_commit`, as far as `sendto`: the length and the bytes sent. -/
def dnsClientCommit (random : Nat) (memory : Memory) (domain : CStr) :
    Except Fault (Int × List UInt8) := do
  let (header, _) := dnsCreateHeader random (some DnsHeader.zeroed)
  let (question, _) ← dnsCreateQuestion memory (some DnsQuestion.zeroed) (some domain)
  let (request, length) ← dnsBuildRequestion header question (some (List.replicate 1024 0)) 1024
  let sent ← source request (← byteCount length)
  return (length, sent)

end LinuxCpp.Dns
