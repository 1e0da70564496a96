import LinuxCpp.Kvstore.ProtocolSplit

set_option autoImplicit false

/- Whole runs of the protocol: `init_kvengine`, then one call of `kvs_protocol`
for each message received. A message ends at its length, as it does in the
cleared buffer of a connection. -/
namespace LinuxCpp.Kvstore

open C

/-- `BUFFER_LENGTH`, the size of `rbuffer` and of `wbuffer`. -/
def bufferLength : Nat := 1024

/-- The tokens of a message, as `kvs_split_token` finds them. -/
def messageTokens (msg : List UInt8) : List CStr :=
  (words 32 (CStr.upToNul msg).bytes).map CStr.upToNul

/-- What one `recv` may deliver, with no more tokens than the array holds. -/
structure Message (msg : List UInt8) : Prop where
  received : 0 < msg.length
  fits : msg.length ≤ bufferLength
  few : (messageTokens msg).length ≤ kvsMaxTokens

instance (msg : List UInt8) : Decidable (Message msg) :=
  decidable_of_iff (0 < msg.length ∧ msg.length ≤ bufferLength ∧
      (messageTokens msg).length ≤ kvsMaxTokens)
    ⟨fun ⟨received, fits, few⟩ => ⟨received, fits, few⟩, fun m => ⟨m.received, m.fits, m.few⟩⟩

/-- The call for one received message. -/
def request (fuel : Nat) (S : Store) (msg : List UInt8) : CM (Reply × Store) :=
  kvsProtocol fuel S (msg ++ [0]) msg.length

/-- The states between the calls of a run in which every call returned and
every message was `allowed` in the state it met. -/
inductive Reachable (allowed : Store → List UInt8 → Prop) : Store → Allocator → Prop
  | start {A B : Allocator} {S : Store} : A.AllSucceed → initKvengine A = .ok (S, B) →
      Reachable allowed S B
  | step {A B : Allocator} {S S' : Store} {msg : List UInt8} {fuel : Nat} {reply : Reply} :
      Reachable allowed S A → allowed S msg → request fuel S msg A = .ok ((reply, S'), B) →
      Reachable allowed S' B

/-- A message in memory is its string, a NUL and something behind it. -/
theorem message_shape (msg : List UInt8) :
    ∃ behind, msg ++ [0] = (CStr.upToNul msg).bytes ++ 0 :: behind := by
  by_cases hasNul : (0 : UInt8) ∈ msg
  · obtain ⟨start, rest, rfl, noNul⟩ := List.eq_append_cons_of_mem hasNul
    refine ⟨rest ++ [0], ?_⟩
    rw [CStr.upToNul_terminated noNul, List.append_assoc, List.cons_append]
  · exact ⟨[], by rw [CStr.upToNul_bytes hasNul]⟩

/-- A call for a message acts on its tokens. -/
theorem request_tokens {msg : List UInt8} (received : 0 < msg.length)
    (few : (messageTokens msg).length ≤ kvsMaxTokens) (fuel : Nat) (S : Store) (A : Allocator) :
    request fuel S msg A = kvsFilterProtocol fuel S (messageTokens msg) A := by
  obtain ⟨behind, shape⟩ := message_shape msg
  rw [messageTokens, List.length_map] at few
  have positive : ¬ (msg.length : Int) ≤ 0 := by omega
  rw [request, kvsProtocol, if_neg positive, shape,
    kvsSplitToken_words (CStr.upToNul msg).noNul, if_pos few]
  rfl

end LinuxCpp.Kvstore
