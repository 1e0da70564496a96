import LinuxCpp.Kvstore.Session
import LinuxCpp.Trace.Course

set_option autoImplicit false

/- The exchange of a front end with one client: chunks received, calls of the
handler, replies sent. The handler is the `msg_handler` a front end is started
with; its state is the store behind it. -/
namespace LinuxCpp.Net

open Kvstore (bufferLength)
open Trace

/-- `char [BUFFER_LENGTH]`. -/
abbrev Buffer := Vector UInt8 bufferLength

namespace Buffer

def zeroed : Buffer := Vector.replicate bufferLength 0

/-- Bytes written from the start of a buffer; what lies behind them stays. -/
def write (b : Buffer) (bytes : List UInt8) : Buffer :=
  Vector.ofFn fun i => bytes.getD i b[i]

/-- The first `n` bytes. -/
def front (b : Buffer) (n : Nat) : List UInt8 := b.toList.take n

theorem write_front (b : Buffer) {bytes : List UInt8} (fits : bytes.length ≤ bufferLength) :
    (b.write bytes).front bytes.length = bytes := by
  apply List.ext_getElem
  · simp [front, fits]
  · intro i inBuffer inBytes
    simp [front, write, inBytes]

end Buffer

section Handlers

variable {σ : Type}

/-- What a call of the handler leaves in the store, in `msg` and in `response`,
and what it returns. -/
structure Answered (σ : Type) where
  store : σ
  msg : Buffer
  response : Buffer
  returned : Int

/-- `int (*msg_handler)(char *msg, int length, char *response)`. -/
abbrev Handler (σ : Type) := σ → Buffer → Int → Buffer → Answered σ

/-- The arguments of one call, with the store that it meets. -/
structure Call (σ : Type) where
  store : σ
  msg : Buffer
  length : Int
  response : Buffer

def Call.run (handler : Handler σ) (call : Call σ) : Answered σ :=
  handler call.store call.msg call.length call.response

/-- The text that a call computes: as many bytes of `response` as it returns. -/
def Call.reply (handler : Handler σ) (call : Call σ) : List UInt8 :=
  (call.run handler).response.front (call.run handler).returned.toNat

/-- The bytes of the message that a call is about. -/
def Call.bytes (call : Call σ) : List UInt8 := call.msg.front call.length.toNat

/-- The call is about the bytes of a chunk; other bytes may lie behind them. -/
structure Call.Takes (call : Call σ) (chunk : List UInt8) : Prop where
  length : call.length = chunk.length
  bytes : call.msg.front chunk.length = chunk

/-- The call is about a chunk with nothing but zeros behind it. -/
structure Call.TakesOnly (call : Call σ) (chunk : List UInt8) : Prop where
  length : call.length = chunk.length
  message : call.msg = Buffer.zeroed.write chunk

theorem Call.TakesOnly.takes {call : Call σ} {chunk : List UInt8} (only : call.TakesOnly chunk)
    (fits : chunk.length ≤ bufferLength) : call.Takes chunk :=
  ⟨only.length, by rw [only.message, Buffer.write_front _ fits]⟩

theorem Call.Takes.bytes_eq {call : Call σ} {chunk : List UInt8} (takes : call.Takes chunk) :
    Call.bytes call = chunk := by
  rw [Call.bytes, takes.length, Int.toNat_natCast, takes.bytes]

/-- The handler returns the length of a text that fits its `response`. -/
def ReturnsLength (handler : Handler σ) : Prop :=
  ∀ call : Call σ, 0 < call.length → call.length ≤ bufferLength →
    0 < (call.run handler).returned ∧ (call.run handler).returned ≤ bufferLength

/-- A handler that sends back what it receives. -/
def echo : Handler Unit := fun store msg length _ => ⟨store, msg, msg, length⟩

theorem echo_returns : ReturnsLength echo := fun _ positive fits => ⟨positive, fits⟩

end Handlers

/-- What happens on one connection. -/
inductive Event (σ : Type) where
  | accepted
  | received (chunk : List UInt8)
  | handled (call : Call σ)
  | sent (bytes : List UInt8)
  | dropped
  | closed

/-- The chunks received on all connections, in order. -/
def receivedChunks {σ : Type} (trace : List (Nat × Event σ)) : List (Nat × List UInt8) :=
  trace.filterMap fun
    | (peer, .received chunk) => some (peer, chunk)
    | _ => none

/-- The messages that the handler was called with, in order. -/
def handedChunks {σ : Type} (trace : List (Nat × Event σ)) : List (Nat × List UInt8) :=
  trace.filterMap fun
    | (peer, .handled call) => some (peer, call.bytes)
    | _ => none

/-- Where a connection stands between two of its events. -/
inductive Phase where
  | unborn
  | waiting
  | reading (chunk : List UInt8)
  | answering (bytes : List UInt8)
  | over

section Phases

variable {σ : Type} {handler : Handler σ} {takes : Call σ → List UInt8 → Prop} {lossy : Prop}

/-- One round is a chunk, a call that `takes` it, and the reply of that call,
which may get lost if sends are `lossy`. -/
inductive Next (handler : Handler σ) (takes : Call σ → List UInt8 → Prop) (lossy : Prop) :
    Phase → Event σ → Phase → Prop
  | accept : Next handler takes lossy .unborn .accepted .waiting
  | receive {chunk : List UInt8} :
      Next handler takes lossy .waiting (.received chunk) (.reading chunk)
  | handle {chunk : List UInt8} {call : Call σ} : takes call chunk →
      Next handler takes lossy (.reading chunk) (.handled call) (.answering (call.reply handler))
  | send {bytes : List UInt8} :
      Next handler takes lossy (.answering bytes) (.sent bytes) .waiting
  | drop {bytes : List UInt8} : lossy →
      Next handler takes lossy (.answering bytes) .dropped .waiting
  | close : Next handler takes lossy .waiting .closed .over

variable {events : List (Event σ)} {phase : Phase}

theorem course_unborn (course : Course (Next handler takes lossy) .unborn events .unborn) :
    events = [] := by
  cases course with
  | empty => rfl
  | snoc earlier step => cases step

theorem course_reading {chunk : List UInt8}
    (course : Course (Next handler takes lossy) .unborn events (.reading chunk)) :
    ∃ earlier, events = earlier ++ [.received chunk] ∧
      Course (Next handler takes lossy) .unborn earlier .waiting := by
  obtain ⟨earlier, before, event, rfl, start, step⟩ := course.into (by simp)
  cases step with
  | receive => exact ⟨earlier, rfl, start⟩

theorem course_answering {bytes : List UInt8}
    (course : Course (Next handler takes lossy) .unborn events (.answering bytes)) :
    ∃ earlier chunk call, events = earlier ++ [.handled call] ∧ takes call chunk ∧
      bytes = call.reply handler ∧
      Course (Next handler takes lossy) .unborn earlier (.reading chunk) := by
  obtain ⟨earlier, before, event, rfl, start, step⟩ := course.into (by simp)
  cases step with
  | handle fits => exact ⟨earlier, _, _, rfl, fits, rfl, start⟩

theorem course_waiting (course : Course (Next handler takes False) .unborn events .waiting) :
    events = [.accepted] ∨ ∃ earlier bytes, events = earlier ++ [.sent bytes] ∧
      Course (Next handler takes False) .unborn earlier (.answering bytes) := by
  obtain ⟨earlier, before, event, rfl, start, step⟩ := course.into (by simp)
  cases step with
  | accept =>
      rw [course_unborn start]
      exact .inl rfl
  | send => exact .inr ⟨earlier, _, rfl, start⟩
  | drop lost => exact lost.elim

/-- A text that is sent is the reply of the call just before, which took the
chunk received just before that. -/
theorem course_sent {before after : List (Event σ)} {bytes : List UInt8}
    (course : Course (Next handler takes lossy) .unborn (before ++ .sent bytes :: after) phase) :
    ∃ earlier chunk call, before = earlier ++ [.received chunk, .handled call] ∧
      takes call chunk ∧ bytes = call.reply handler := by
  rw [List.append_cons] at course
  obtain ⟨reached, upToSend⟩ := course.beginning
  obtain ⟨pending, upToCall, step⟩ := upToSend.last
  cases step with
  | send =>
      obtain ⟨upToChunk, chunk, call, rfl, fits, same, reading⟩ := course_answering upToCall
      obtain ⟨earlier, rfl, -⟩ := course_reading reading
      exact ⟨earlier, chunk, call, by simp, fits, same⟩

/-- The last receive of a list of events and what follows it are determined. -/
private theorem last_receive {before between earlier rest : List (Event σ)}
    {first chunk : List UInt8}
    (same : before ++ .received first :: between = earlier ++ .received chunk :: rest)
    (noReceive : ∀ other, .received other ∉ between) (noLater : ∀ other, .received other ∉ rest) :
    first = chunk ∧ between = rest := by
  rcases List.append_eq_append_iff.mp same with ⟨extra, -, tail⟩ | ⟨extra, -, tail⟩
  · cases extra with
    | nil => simpa using tail
    | cons event extra =>
        simp only [List.cons_append, List.cons.injEq] at tail
        exact absurd (by simp [tail.2]) (noReceive chunk)
  · cases extra with
    | nil => simpa [eq_comm] using tail
    | cons event extra =>
        simp only [List.cons_append, List.cons.injEq] at tail
        exact absurd (by simp [tail.2]) (noLater first)

/-- Where no reply gets lost, between two receives that follow each other stand
the call that takes the first chunk and the sending of its reply. -/
theorem course_between {before between after : List (Event σ)} {first second : List UInt8}
    (course : Course (Next handler takes False) .unborn
      (before ++ .received first :: (between ++ .received second :: after)) phase)
    (noReceive : ∀ chunk, .received chunk ∉ between) :
    ∃ call, takes call first ∧ between = [.handled call, .sent (call.reply handler)] := by
  have regroup : before ++ .received first :: (between ++ .received second :: after) =
      ((before ++ .received first :: between) ++ [.received second]) ++ after := by simp
  rw [regroup] at course
  obtain ⟨reached, upToSecond⟩ := course.beginning
  obtain ⟨idle, upToRound, step⟩ := upToSecond.last
  cases step with
  | receive =>
      rcases course_waiting upToRound with young | ⟨withCall, bytes, atSend, answering⟩
      · have sizes := congrArg List.length young
        rcases before with - | ⟨event, before⟩
        · simp at young
        · simp at sizes
      · obtain ⟨withChunk, chunk, call, atCall, fits, same, reading⟩ := course_answering answering
        obtain ⟨earlier, atChunk, -⟩ := course_reading reading
        rw [atCall, atChunk] at atSend
        have ends : before ++ .received first :: between =
            earlier ++ .received chunk :: [.handled call, .sent bytes] := by
          simpa using atSend
        obtain ⟨sameChunk, sameRest⟩ := last_receive ends noReceive (by simp)
        rw [sameChunk, sameRest, same]
        exact ⟨call, fits, rfl⟩

end Phases

end LinuxCpp.Net
