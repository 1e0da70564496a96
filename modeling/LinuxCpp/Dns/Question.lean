import LinuxCpp.Dns.Labels

set_option autoImplicit false

/- What a name server reads in the request. -/
namespace LinuxCpp.Dns

open C

/-- One label of a host name. -/
structure Label where
  bytes : List UInt8
  nonempty : bytes ≠ []
  short : bytes.length ≤ 63
  noDot : (46 : UInt8) ∉ bytes
  noNul : (0 : UInt8) ∉ bytes

/-- The labels with single dots between them. -/
def hostnameOf (labels : List Label) : CStr where
  bytes := [46].intercalate (labels.map Label.bytes)
  noNul := by
    intro member
    rcases mem_of_mem_intercalate member with between | ⟨part, among, inside⟩
    · exact absurd between (by decide)
    · obtain ⟨label, -, rfl⟩ := List.mem_map.mp among
      exact label.noNul inside

/-- What a question asks for, and the bytes behind it. -/
structure Question where
  labels : List (List UInt8)
  qtype : Nat
  qclass : Nat
  rest : List UInt8
deriving DecidableEq, Repr

/-- Labels behind their lengths, up to a zero byte. -/
def parseName : Nat → List UInt8 → Option (List (List UInt8) × List UInt8)
  | 0, _ => none
  | _, [] => none
  | fuel + 1, length :: bytes =>
      if length = 0 then some ([], bytes)
      else if 63 < length.toNat ∨ bytes.length < length.toNat then none
      else do
        let (labels, rest) ← parseName fuel (bytes.drop length.toNat)
        return (bytes.take length.toNat :: labels, rest)

/-- Type and class are in network order. -/
def parseQuestion (bytes : List UInt8) : Option Question :=
  match parseName bytes.length bytes with
  | some (labels, t₁ :: t₀ :: c₁ :: c₀ :: rest) =>
      some ⟨labels, t₁.toNat * 256 + t₀.toNat, c₁.toNat * 256 + c₀.toNat, rest⟩
  | _ => none

section Parsing

variable {labels : List Label}

theorem words_hostnameOf (some_ : labels ≠ []) :
    words 46 (hostnameOf labels).bytes = labels.map Label.bytes := by
  refine words_intercalate (by simpa using some_) fun part member => ?_
  obtain ⟨label, -, rfl⟩ := List.mem_map.mp member
  exact ⟨label.nonempty, label.noDot⟩

/-- Every label takes its bytes and one more, and the block has no byte left. -/
theorem encoded_fills (some_ : labels ≠ []) :
    (encoded (labels.map Label.bytes)).length = (hostnameOf labels).length + 2 := by
  have nonempty : labels.map Label.bytes ≠ [] := by simpa using some_
  rw [encoded_length nonempty, ← intercalate_length 46 nonempty]
  rfl

theorem parseName_label (label : Label) (fuel : Nat) (bytes : List UInt8) :
    parseName (fuel + 1) (wireLabel label.bytes ++ bytes) =
      (parseName fuel bytes).map fun (labels, rest) => (label.bytes :: labels, rest) := by
  have short := label.short
  have positive := List.length_pos_of_ne_nil label.nonempty
  have width : (UInt8.ofNat label.bytes.length).toNat = label.bytes.length := by
    rw [UInt8.toNat_ofNat', Nat.mod_eq_of_lt (by omega)]
  have notEnd : UInt8.ofNat label.bytes.length ≠ 0 := by
    intro zero
    rw [zero] at width
    exact absurd width.symm positive.ne'
  rw [wireLabel, List.cons_append, parseName, if_neg notEnd, width,
    if_neg (by rw [List.length_append]; omega), List.drop_left' rfl, List.take_left' rfl]
  cases parseName fuel bytes <;> rfl

theorem parseName_encoded (labels : List Label) {fuel : Nat}
    (enough : ((labels.map Label.bytes).flatMap wireLabel).length < fuel) (rest : List UInt8) :
    parseName fuel ((labels.map Label.bytes).flatMap wireLabel ++ 0 :: rest) =
      some (labels.map Label.bytes, rest) := by
  induction labels generalizing fuel with
  | nil =>
      obtain ⟨fuel, rfl⟩ := Nat.exists_eq_add_of_lt enough
      rfl
  | cons label labels ih =>
      rw [List.map_cons, List.flatMap_cons, List.length_append, wireLabel_length] at enough
      obtain ⟨fuel, rfl⟩ : ∃ n, fuel = n + 1 := ⟨fuel - 1, by omega⟩
      rw [List.map_cons, List.flatMap_cons, List.append_assoc, parseName_label,
        ih (Nat.lt_of_succ_lt_succ (by omega))]
      rfl

theorem parseQuestion_encoded (some_ : labels ≠ []) :
    parseQuestion (encoded (labels.map Label.bytes) ++ [0, 1, 0, 1]) =
      some ⟨labels.map Label.bytes, 1, 1, []⟩ := by
  have nonempty : labels.map Label.bytes ≠ [] := by simpa using some_
  have whole : encoded (labels.map Label.bytes) ++ [0, 1, 0, 1] =
      (labels.map Label.bytes).flatMap wireLabel ++ 0 :: [0, 1, 0, 1] := by
    rw [encoded, if_neg nonempty, List.append_assoc]
    rfl
  rw [parseQuestion, whole, parseName_encoded labels (by simp)]
  rfl

end Parsing

section Requests

variable {request : List UInt8} {rlen : Int}

/-- The question behind the header holds exactly the labels, type 1 and class 1. -/
theorem request_parses {labels : List Label} (some_ : labels ≠ []) (old : DnsQuestion)
    (header : DnsHeader) (junk : Nat → UInt8) (fits : 12 + (hostnameOf labels).length + 6 ≤ rlen)
    (range : rlen < 2 ^ 31) (within : rlen ≤ request.length) :
    ∃ question built,
      dnsCreateQuestion ⟨true, junk, true⟩ (some old) (some (hostnameOf labels)) =
        .ok (some question, none) ∧
      dnsBuildRequestion (some header) (some question) (some request) rlen =
        .ok (some built, 12 + (hostnameOf labels).length + 6) ∧
      parseQuestion ((built.take (12 + (hostnameOf labels).length + 6)).drop 12) =
        some ⟨labels.map Label.bytes, 1, 1, []⟩ := by
  obtain ⟨size, all⟩ : ∃ n, n = (hostnameOf labels).length + 2 := ⟨_, rfl⟩
  have whole : nameBlock (hostnameOf labels) junk = encoded (labels.map Label.bytes) := by
    rw [nameBlock, words_hostnameOf some_, List.drop_eq_nil_of_le, List.append_nil]
    rw [List.length_map, List.length_range, encoded_fills some_]
  have counted : byteCount (questionOf (hostnameOf labels) junk).length = .ok size :=
    byteCount_int.mpr (by omega)
  have read : source (questionOf (hostnameOf labels) junk).name size =
      .ok (encoded (labels.map Label.bytes)) := by
    rw [questionOf, whole, all, ← encoded_fills some_]
    exact source_whole _
  have runs : ∃ result, dnsBuildRequestion (some header)
      (some (questionOf (hostnameOf labels) junk)) (some request) rlen = .ok result :=
    dnsBuildRequestion_runs counted read (by omega) within (by omega) (by omega)
  obtain ⟨⟨built, offset⟩, ran⟩ := runs
  obtain ⟨n, part, bytes, counted', read', rfl, rfl, -, front⟩ := dnsBuildRequestion_ok ran
  obtain rfl := Except.ok.inj (counted.symm.trans counted')
  obtain rfl := Except.ok.inj (read.symm.trans read')
  refine ⟨_, bytes, dnsCreateQuestion_eq rfl rfl old (hostnameOf labels), ?length, ?bytes⟩
  case length =>
    have total : ((12 + size + 4 : Nat) : Int) = 12 + (hostnameOf labels).length + 6 := by omega
    rw [ran, total]
  case bytes =>
    have total : 12 + (hostnameOf labels).length + 6 = 12 + size + 4 := by omega
    rw [total, front, packet_questionOf, List.drop_left' (header_length header)]
    exact parseQuestion_encoded some_

/-- "a.bc", into a buffer of exactly its size. -/
theorem request_parses_two : ∃ question built,
    dnsCreateQuestion ⟨true, fun _ => 0xff, true⟩ (some DnsQuestion.zeroed)
      (some ⟨[97, 46, 98, 99], by decide⟩) = .ok (some question, none) ∧
    dnsBuildRequestion (some DnsHeader.zeroed) (some question) (some (List.replicate 22 0xff)) 22 =
      .ok (some built, 22) ∧
    parseQuestion ((built.take 22).drop 12) = some ⟨[[97], [98, 99]], 1, 1, []⟩ :=
  have some_ : [(⟨[97], by decide, by decide, by decide, by decide⟩ : Label),
      ⟨[98, 99], by decide, by decide, by decide, by decide⟩] ≠ [] := List.cons_ne_nil _ _
  request_parses some_ DnsQuestion.zeroed DnsHeader.zeroed (fun _ => 0xff) (by decide) (by decide)
    (by decide)

end Requests

end LinuxCpp.Dns
