import LinuxCpp.C.OnesComplement
import LinuxCpp.Ustack.PktProcess

set_option autoImplicit false

/- `ng_checksum` of ustack/tcp.c and the echo reply that carries such a sum. The `long`
that sums up is a natural number; `ngChecksum_long` is why. -/
namespace LinuxCpp.Ustack

open C

@[simp] def icmpCode : Nat := 35
@[simp] def icmpCksum : Nat := 36

def rteIpIcmpEchoReply : UInt8 := 0

/-- `sizeof(struct rte_icmp_hdr)` -/
def icmpHdrSize : Nat := 8

/-- The loop of `ng_checksum` over the words, and the byte that may be left. -/
def sumWords (mem : List UInt8) (addr sum : Nat) : Nat → Except Fault Nat
  | 0 => return sum
  | 1 => do
      let byte ← load8 mem addr
      return sum + byte.toNat
  | count + 2 => do
      let word ← load16 mem addr
      sumWords mem (addr + 2) (sum + word.toNat) count

/-- `while (sum >> 16)` -/
def foldCarries (sum : Nat) : Nat :=
  if sum >>> 16 = 0 then sum else foldCarries ((sum &&& 0xffff) + (sum >>> 16))
termination_by sum
decreasing_by
  rename_i high
  have large : 2 ^ 16 ≤ sum := by
    rw [Nat.shiftRight_eq_div_pow] at high
    omega
  have masked : sum &&& 0xffff = sum % 2 ^ 16 := Nat.and_two_pow_sub_one_eq_mod sum 16
  rw [masked, Nat.shiftRight_eq_div_pow]
  exact carry_lt (by decide) large

def ngChecksum (mem : List UInt8) (addr : Nat) (count : Int) : Except Fault UInt16 := do
  let sum ← sumWords mem addr 0 count.toNat
  return ~~~ .ofNat (foldCarries sum)

/-- The assignments of `ng_encode_icmp_pkt` to the header of ICMP. -/
def icmpWrites (id seqnb : UInt16) : List (Nat × List UInt8) := [
  (icmpType, [rteIpIcmpEchoReply]),
  (icmpCode, [0]),
  (icmpIdent, bytesOf 2 id.toNat),
  (icmpSeqNb, bytesOf 2 seqnb.toNat),
  (icmpCksum, bytesOf 2 0)]

def ngEncodeIcmpPkt (K : Cksums) (msg : List UInt8) (srcmac dstmac : Mac) (sip dip : UInt32)
    (id seqnb : UInt16) : Except Fault (List UInt8) := do
  let msg ← encodeIpv4 K msg srcmac dstmac ipprotoIcmp (.ofNat (20 + icmpHdrSize)) sip dip
  let msg ← storeAll msg (icmpWrites id seqnb)
  let cksum ← ngChecksum msg l4Hdr icmpHdrSize
  storeAt msg icmpCksum (bytesOf 2 cksum.toNat)

theorem sumWords_eq {mem bytes : List UInt8} {addr sum count : Nat}
    (loaded : loadAt mem addr count = .ok bytes) :
    sumWords mem addr sum count = .ok (sum + wordSum bytes) := by
  induction count using Nat.twoStepInduction generalizing addr sum bytes with
  | zero =>
      obtain ⟨-, rfl⟩ := loadAt_ok loaded
      rw [List.take_zero]
      rfl
  | one =>
      obtain ⟨front, back, -, -, length⟩ := loadAt_parts loaded
      obtain ⟨byte, rfl⟩ := List.length_eq_one_iff.mp length
      have read : load8 mem addr = .ok byte := by
        apply load8_eq
        rw [loaded, bytesOf_one]
      rw [sumWords, read, ok_bind, wordSum_one]
      rfl
  | more count ih _ =>
      obtain ⟨front, back, rfl, before, length⟩ := loadAt_parts loaded
      obtain ⟨low, high, rest, rfl⟩ : ∃ low high rest, bytes = low :: high :: rest := by
        match bytes, length with
        | low :: high :: rest, _ => exact ⟨low, high, rest, rfl⟩
      have length : rest.length = count := by
        simpa only [List.length_cons, Nat.add_right_cancel_iff] using length
      have split : front ++ (low :: high :: rest ++ back) =
          front ++ ([low, high] ++ (rest ++ back)) := rfl
      have word : loadAt (front ++ (low :: high :: rest ++ back)) addr 2 = .ok [low, high] := by
        rw [split]
        exact loadAt_append before rfl
      have tail : loadAt (front ++ (low :: high :: rest ++ back)) (addr + 2) count =
          .ok rest := by
        rw [split, ← List.append_assoc]
        exact loadAt_append (by rw [List.length_append, before]; rfl) length
      rw [sumWords, load16, word, Except.map, ok_bind, ih tail, wordSum_cons,
        UInt16.toNat_ofNat_of_lt' (numberOf_pair_lt low high), Nat.add_assoc]

/-- The sum of a buffer whose size is an `int` is one that a `long` holds. -/
theorem ngChecksum_long {mem : List UInt8} {addr count sum : Nat} (size : count < 2 ^ 31)
    (inside : addr + count ≤ mem.length) (summed : sumWords mem addr 0 count = .ok sum) :
    sum < 2 ^ 63 := by
  have bound := wordSum_le ((mem.drop addr).take count)
  have length : ((mem.drop addr).take count).length = count :=
    List.length_take_of_le (by rw [List.length_drop]; omega)
  rw [sumWords_eq (loadAt_eq inside)] at summed
  cases summed
  rw [length] at bound
  omega

theorem foldCarries_eq (sum : Nat) : foldCarries sum = residue 0xffff sum := by
  induction sum using foldCarries.induct with
  | case1 sum small =>
      rw [foldCarries, if_pos small, residue_of_le]
      rw [Nat.shiftRight_eq_div_pow] at small
      omega
  | case2 sum large ih =>
      have masked : sum &&& 0xffff = sum % 2 ^ 16 := Nat.and_two_pow_sub_one_eq_mod sum 16
      rw [foldCarries, if_neg large, ih, masked, Nat.shiftRight_eq_div_pow]
      exact residue_carry 0xffff sum

/-- The sum as a number. -/
theorem ngChecksum_eq {mem bytes : List UInt8} {addr count : Nat}
    (loaded : loadAt mem addr count = .ok bytes) :
    ngChecksum mem addr count = .ok (.ofNat (0xffff - residue 0xffff (wordSum bytes))) := by
  have bound := residue_le (m := 0xffff) (by decide) (wordSum bytes)
  have complement : ~~~ UInt16.ofNat (residue 0xffff (wordSum bytes)) =
      UInt16.ofNat (0xffff - residue 0xffff (wordSum bytes)) := by
    have small : residue 0xffff (wordSum bytes) < 65536 := Nat.lt_succ_of_le bound
    have rest : 0xffff - residue 0xffff (wordSum bytes) < 65536 :=
      Nat.lt_succ_of_le (Nat.sub_le _ _)
    rw [← UInt16.toNat_inj, UInt16.toNat_not, UInt16.toNat_ofNat_of_lt' small,
      UInt16.toNat_ofNat_of_lt' rest]
    rfl
  have summed : sumWords mem addr 0 count = .ok (wordSum bytes) := by
    rw [sumWords_eq loaded, Nat.zero_add]
  rw [ngChecksum, Int.toNat_natCast, summed, ok_bind, foldCarries_eq, complement]
  rfl

/-- A field of zeros at an even offset, with the sum in it instead. -/
theorem wordSum_store {buf stored : List UInt8} {field : Nat} {sum : UInt16} (even : 2 ∣ field)
    (zero : loadAt buf field 2 = .ok [0, 0])
    (written : storeAt buf field (bytesOf 2 sum.toNat) = .ok stored) :
    wordSum stored = wordSum buf + sum.toNat := by
  obtain ⟨front, back, rfl, rfl, -⟩ := loadAt_parts zero
  rw [storeAt_append rfl (bytesOf_length 2 sum.toNat)] at written
  cases written
  have pair : 2 ∣ (bytesOf 2 sum.toNat).length := by rw [bytesOf_length]
  have blank : 2 ∣ ([0, 0] : List UInt8).length := Nat.dvd_refl 2
  have none : wordSum ([0, 0] : List UInt8) = 0 := rfl
  rw [wordSum_append even, wordSum_append even, wordSum_append pair, wordSum_append blank,
    wordSum_bytesOf, none]
  omega

theorem ngChecksum_store {mem buf : List UInt8} {addr count field : Nat}
    (loaded : loadAt mem addr count = .ok buf) (even : 2 ∣ field)
    (zero : loadAt buf field 2 = .ok [0, 0]) :
    ∃ sum stored, ngChecksum mem addr count = .ok sum ∧
      storeAt mem (addr + field) (bytesOf 2 sum.toNat) = .ok stored ∧
      ngChecksum stored addr count = .ok 0 := by
  have summed := ngChecksum_eq loaded
  have bound := residue_le (m := 0xffff) (by decide) (wordSum buf)
  have number : (UInt16.ofNat (0xffff - residue 0xffff (wordSum buf))).toNat =
      0xffff - residue 0xffff (wordSum buf) :=
    UInt16.toNat_ofNat_of_lt' (by exact Nat.lt_succ_of_le (Nat.sub_le _ _))
  generalize UInt16.ofNat (0xffff - residue 0xffff (wordSum buf)) = sum at summed number
  obtain ⟨inside, -⟩ := loadAt_ok zero
  obtain ⟨buf', within⟩ : ∃ buf', storeAt buf field (bytesOf 2 sum.toNat) = .ok buf' :=
    ⟨_, storeAt_eq (by rwa [bytesOf_length])⟩
  obtain ⟨stored, written, loaded'⟩ := loadAt_storeAt_within loaded within
  refine ⟨sum, stored, summed, written, ?_⟩
  rw [ngChecksum_eq loaded', wordSum_store even zero within, number,
    residue_complement (by decide)]
  rfl

/-- A sum stored in its own field makes the sum of the whole buffer zero, and the order of
the aligned words does not count. -/
theorem ngChecksum_verifies {mem buf : List UInt8} {addr count : Nat}
    (loaded : loadAt mem addr count = .ok buf) :
    (∀ field, 2 ∣ field → loadAt buf field 2 = .ok [0, 0] →
      ∃ sum stored, ngChecksum mem addr count = .ok sum ∧
        storeAt mem (addr + field) (bytesOf 2 sum.toNat) = .ok stored ∧
        ngChecksum stored addr count = .ok 0) ∧
    ∀ mem' buf', loadAt mem' addr count = .ok buf' → (wordsOf buf').Perm (wordsOf buf) →
      oddByte buf' = oddByte buf → ngChecksum mem' addr count = ngChecksum mem addr count := by
  constructor
  · intro field even zero
    exact ngChecksum_store loaded even zero
  · intro mem' buf' loaded' words odd
    rw [ngChecksum_eq loaded, ngChecksum_eq loaded', wordSum_perm words odd]

theorem ngChecksum_verifies_odd :
    ∃ sum stored, ngChecksum [0x45, 8, 0, 0, 0, 7] 1 5 = .ok sum ∧
      storeAt [0x45, 8, 0, 0, 0, 7] 3 (bytesOf 2 sum.toNat) = .ok stored ∧
      ngChecksum stored 1 5 = .ok 0 := by
  have loaded : loadAt [0x45, 8, 0, 0, 0, 7] 1 5 = .ok [8, 0, 0, 0, 7] := rfl
  exact (ngChecksum_verifies loaded).1 2 (by decide) rfl

/-- The receiver of an echo reply finds the sum right. -/
theorem ngEncodeIcmpPkt_verifies (K : Cksums) (msg : List UInt8) (srcmac dstmac : Mac)
    (sip dip : UInt32) (id seqnb : UInt16) (room : 42 ≤ msg.length) :
    ∃ pkt, ngEncodeIcmpPkt K msg srcmac dstmac sip dip id seqnb = .ok pkt ∧
      ngChecksum pkt l4Hdr icmpHdrSize = .ok 0 := by
  have fits : 34 ≤ msg.length := by omega
  obtain ⟨headers, encoded, length, -⟩ := encodeIpv4_ok K srcmac dstmac ipprotoIcmp
    (.ofNat (20 + icmpHdrSize)) sip dip fits
  obtain ⟨reply, ran, length'⟩ : ∃ reply, storeAll headers (icmpWrites id seqnb) = .ok reply ∧
      reply.length = headers.length := by
    apply storeAll_inside
    simp [icmpWrites]
    omega
  have loaded : loadAt reply l4Hdr icmpHdrSize = .ok ((reply.drop l4Hdr).take icmpHdrSize) :=
    loadAt_eq (by simp only [l4Hdr, icmpHdrSize]; omega)
  have zero : loadAt ((reply.drop l4Hdr).take icmpHdrSize) 2 2 = .ok [0, 0] := by
    rw [loadAt_within loaded (by decide)]
    exact loadAt_storeAll (k := 4) ran rfl (by simp [icmpWrites])
  obtain ⟨sum, pkt, summed, written, verified⟩ := ngChecksum_store loaded (by decide) zero
  refine ⟨pkt, ?_, verified⟩
  rw [ngEncodeIcmpPkt, encoded, ok_bind, ran, ok_bind, summed, ok_bind]
  exact written

end LinuxCpp.Ustack
