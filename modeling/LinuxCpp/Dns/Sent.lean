import LinuxCpp.Dns.Labels

set_option autoImplicit false

/- What is sent for a host name, and how much of it was written. The block for the name is
larger than what is written into it when the name has an empty part, and the size of the
request is not compared with the length of the name. -/
namespace LinuxCpp.Dns

open C

/-- The header of a request. -/
def headerOf (random : Nat) : DnsHeader :=
  { DnsHeader.zeroed with
    id := .ofNat random
    flags := htons 0x0100
    questions := htons 1 }

/-- The length fits into the request, and every byte below it was written: the bytes sent are
the same ones whatever stood in the block for the name. -/
def FullyWritten (random : Nat) (granted copied : Bool) (domain : CStr) : Prop :=
  ∃ length sent, length ≤ 1024 ∧
    ∀ junk, dnsClientCommit random ⟨granted, junk, copied⟩ domain = .ok (length, sent)

/-- `question->length`, if it is not negative. -/
def sentBytes (domain : CStr) : Nat := (domain.length + 2) % 2 ^ 32

/-- The bytes of the labels with their lengths, and of the zero byte behind the last one. -/
def labelBytes (domain : CStr) : Nat :=
  let labels := (domain.bytes.splitOn 46).filter (· ≠ [])
  if labels = [] then 0 else (labels.map fun label => label.length + 1).sum + 1

section Commit

variable {random : Nat} {domain : CStr}

theorem labelBytes_eq (domain : CStr) :
    (encoded (words 46 domain.bytes)).length = labelBytes domain := by
  rw [labelBytes, ← words_eq_splitOn]
  by_cases none_ : words 46 domain.bytes = []
  · rw [none_, encoded_nil]
    rfl
  · rw [encoded_length none_, if_neg none_]

/-- No byte of the block is left over if and only if no part of the name is empty. -/
theorem labelBytes_full (domain : CStr) :
    domain.length + 2 ≤ labelBytes domain ↔ [] ∉ domain.bytes.splitOn 46 := by
  have total := words_total 46 domain.bytes
  rw [words_eq_splitOn] at total
  rw [← List.count_eq_zero, labelBytes]
  by_cases none_ : (domain.bytes.splitOn 46).filter (· ≠ []) = []
  · rw [none_] at total ⊢
    simp only [List.map_nil, List.sum_nil, ↓reduceIte, CStr.length] at total ⊢
    omega
  · rw [if_neg none_, CStr.length]
    omega

/-- What is copied from the block does not depend on its old bytes if and only if the labels
reach that far. -/
theorem take_nameBlock {n : Nat} (written : n ≤ labelBytes domain) (junk : Nat → UInt8) :
    (nameBlock domain junk).take n = (encoded (words 46 domain.bytes)).take n :=
  List.take_append_of_le_length (labelBytes_eq domain ▸ written)

theorem nameBlock_behind {n : Nat} (beyond : labelBytes domain ≤ n) (inside : n < domain.length + 2)
    (junk : Nat → UInt8) : (nameBlock domain junk)[n]? = some (junk n) := by
  rw [← labelBytes_eq] at beyond
  rw [nameBlock, List.getElem?_append_right beyond, List.getElem?_drop, Nat.add_sub_cancel' beyond,
    List.getElem?_map, List.getElem?_range inside]
  rfl

theorem written_of_same {n : Nat} (within : n ≤ domain.length + 2)
    (same : ∀ junk junk' : Nat → UInt8,
      (nameBlock domain junk).take n = (nameBlock domain junk').take n) :
    n ≤ labelBytes domain := by
  by_contra beyond
  have last : n - 1 < n := by omega
  have byte (junk : Nat → UInt8) :
      ((nameBlock domain junk).take n)[n - 1]? = some (junk (n - 1)) := by
    rw [List.getElem?_take_of_lt last]
    exact nameBlock_behind (by omega) (by omega) junk
  have equal : some (0 : UInt8) = some 1 := by
    rw [← byte fun _ => 0, ← byte fun _ => 1, same (fun _ => 0) fun _ => 1]
  exact absurd equal (by decide)

theorem sentBytes_le (domain : CStr) : sentBytes domain ≤ domain.length + 2 := Nat.mod_le _ _

theorem source_questionOf (domain : CStr) (junk : Nat → UInt8) :
    source (questionOf domain junk).name (sentBytes domain) =
      .ok ((nameBlock domain junk).take (sentBytes domain)) := by
  have inside : 0 + sentBytes domain ≤ (nameBlock domain junk).length := by
    rw [nameBlock_length, Nat.zero_add]
    exact sentBytes_le domain
  unfold source
  split
  · simp [*]
  · exact loadAt_eq inside

variable {memory : Memory} {question : DnsQuestion} {ret : Option Int} {n : Nat}
  {part : List UInt8}

/-- A name that fits into the request is sent. -/
theorem dnsClientCommit_sends
    (created : dnsCreateQuestion memory (some DnsQuestion.zeroed) (some domain) =
      .ok (some question, ret))
    (counted : byteCount question.length = .ok n) (read : source question.name n = .ok part)
    (room : n ≤ 1008) :
    dnsClientCommit random memory domain =
      .ok ((12 + n + 4 : Nat), packet (headerOf random) question part) := by
  have size : (List.replicate 1024 (0 : UInt8)).length = 1024 := List.length_replicate
  obtain ⟨⟨built, length⟩, ran⟩ : ∃ result, dnsBuildRequestion (some (headerOf random))
      (some question) (some (List.replicate 1024 0)) 1024 = .ok result :=
    dnsBuildRequestion_runs counted read (by decide) (by rw [size]; decide)
      (by rw [size]; omega) (by omega)
  obtain ⟨n', part', bytes, counted', read', rfl, rfl, -, front⟩ := dnsBuildRequestion_ok ran
  obtain rfl := Except.ok.inj (counted.symm.trans counted')
  obtain rfl := Except.ok.inj (read.symm.trans read')
  have inside : 0 + (12 + n + 4) ≤ bytes.length := by
    have whole := congrArg List.length front
    rw [packet_length, source_length read, List.length_take] at whole
    omega
  have sent : source (some bytes) (12 + n + 4) = .ok (packet (headerOf random) question part) := by
    rw [source, if_neg (by omega), loadAt_eq inside, List.drop_zero, front]
  rw [dnsClientCommit, created]
  simp only [dnsCreateHeader, ok_bind]
  rw [← headerOf, ran, ok_bind, byteCount_eq, ok_bind, sent]
  rfl

/-- No other one is sent. -/
theorem dnsClientCommit_room {result : Int × List UInt8}
    (created : dnsCreateQuestion memory (some DnsQuestion.zeroed) (some domain) =
      .ok (some question, ret))
    (ran : dnsClientCommit random memory domain = .ok result) :
    ∃ n, byteCount question.length = .ok n ∧ n ≤ 1008 := by
  rw [dnsClientCommit, created] at ran
  obtain ⟨_, created_, ran⟩ := ok_of_bind ran
  cases created_
  obtain ⟨⟨built, length⟩, built_, -⟩ := ok_of_bind ran
  obtain ⟨n, -, -, counted, -, -, -, room, -⟩ := dnsBuildRequestion_ok built_
  rw [List.length_replicate] at room
  exact ⟨n, counted, by omega⟩

/-- The request for a name in granted memory. -/
theorem dnsClientCommit_eq (room : sentBytes domain ≤ 1008) (junk : Nat → UInt8) :
    dnsClientCommit random ⟨true, junk, true⟩ domain =
      .ok ((12 + sentBytes domain + 4 : Nat), (headerOf random).bytes ++
        ((nameBlock domain junk).take (sentBytes domain) ++ [0, 1, 0, 1])) := by
  have counted : byteCount (questionOf domain junk).length = .ok (sentBytes domain) :=
    byteCount_int.mpr ⟨rfl, by omega⟩
  rw [dnsClientCommit_sends (dnsCreateQuestion_eq rfl rfl _ domain) counted
    (source_questionOf domain junk) room, packet_questionOf]

/-- The bytes that are sent are the same ones for all old contents of the block. -/
theorem FullyWritten.same (written : FullyWritten random true true domain) :
    sentBytes domain ≤ 1008 ∧ ∀ junk junk' : Nat → UInt8,
      (nameBlock domain junk).take (sentBytes domain) =
        (nameBlock domain junk').take (sentBytes domain) := by
  obtain ⟨length, sent, -, all⟩ := written
  have room : sentBytes domain ≤ 1008 := by
    obtain ⟨n, counted, room⟩ :=
      dnsClientCommit_room (dnsCreateQuestion_eq rfl rfl _ domain) (all fun _ => 0)
    rwa [(byteCount_int.mp counted).1] at room
  refine ⟨room, fun junk junk' => ?_⟩
  have equal := (dnsClientCommit_eq room junk).symm.trans
    ((all junk).trans ((all junk').symm.trans (dnsClientCommit_eq room junk')))
  rw [Except.ok.injEq, Prod.mk.injEq] at equal
  exact List.append_cancel_right (List.append_cancel_left equal.2)

/-- `malloc` refuses the name: an empty question is sent. -/
theorem fullyWritten_refused (random : Nat) (copied : Bool) (domain : CStr) :
    FullyWritten random false copied domain :=
  ⟨16, packet (headerOf random) DnsQuestion.zeroed [], by decide, fun junk =>
    dnsClientCommit_sends rfl (byteCount_eq 0) rfl (Nat.zero_le _)⟩

theorem not_fullyWritten_uncopied (random : Nat) (domain : CStr) :
    ¬ FullyWritten random true false domain := by
  rintro ⟨length, sent, -, all⟩
  exact nomatch all fun _ => 0

end Commit

section Condition

variable {random : Nat} {domain : CStr}

/-- A name without empty parts, that the request has room for. -/
def Plain (domain : CStr) : Prop :=
  domain.length ≤ 1006 ∧ [] ∉ domain.bytes.splitOn 46

/-- A name of four gigabytes and more, the length of which is cut down to bytes that the
labels reach. -/
def CutDown (domain : CStr) : Prop :=
  2 ^ 32 ≤ domain.length + 2 ∧ sentBytes domain ≤ 1008 ∧ sentBytes domain ≤ labelBytes domain

theorem plain_or_cutDown (domain : CStr) :
    Plain domain ∨ CutDown domain ↔
      sentBytes domain ≤ 1008 ∧ sentBytes domain ≤ labelBytes domain := by
  by_cases large : 2 ^ 32 ≤ domain.length + 2
  · have notPlain : ¬ Plain domain := fun plain => by
      have short := plain.1
      omega
    simp only [notPlain, CutDown, large, true_and, false_or]
  · have exact_ : sentBytes domain = domain.length + 2 := Nat.mod_eq_of_lt (by omega)
    simp only [CutDown, large, false_and, or_false, Plain, exact_, labelBytes_full]
    exact and_congr_left fun _ => by omega

/-- A request is bounded and fully written if and only if there is no memory for the name, or
the name has no empty part and at most 1006 bytes. -/
theorem fullyWritten_iff (random : Nat) (granted copied : Bool) (domain : CStr) :
    FullyWritten random granted copied domain ↔
      granted = false ∨ copied = true ∧ (Plain domain ∨ CutDown domain) := by
  cases granted with
  | false => exact iff_of_true (fullyWritten_refused random copied domain) (.inl rfl)
  | true =>
      cases copied with
      | false =>
          refine iff_of_false (not_fullyWritten_uncopied random domain) ?_
          rintro (refused | ⟨copied, -⟩)
          · exact absurd refused (by decide)
          · exact absurd copied (by decide)
      | true =>
          simp only [Bool.true_eq_false, true_and, false_or, plain_or_cutDown]
          constructor
          · intro written
            exact ⟨written.same.1, written_of_same (sentBytes_le domain) written.same.2⟩
          · rintro ⟨room, reached⟩
            refine ⟨(12 + sentBytes domain + 4 : Nat), (headerOf random).bytes ++
              ((encoded (words 46 domain.bytes)).take (sentBytes domain) ++ [0, 1, 0, 1]),
              by omega, fun junk => ?_⟩
            rw [dnsClientCommit_eq room, take_nameBlock reached]

/-- "a.": the byte behind the zero byte of the name is sent as it was. -/
theorem trailing_dot_unwritten : ¬ FullyWritten 0 true true ⟨[97, 46], by decide⟩ := by
  intro written
  have same := written.same.2 (fun _ => 0) fun _ => 1
  exact absurd same (by decide)

end Condition

end LinuxCpp.Dns
