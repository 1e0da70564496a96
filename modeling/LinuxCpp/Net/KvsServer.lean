import LinuxCpp.Kvstore.Engines
import LinuxCpp.Kvstore.Tokenizer
import LinuxCpp.Net.Handled

set_option autoImplicit false

/- The key-value server: `kvs_protocol` as the `msg_handler` of the epoll front
end, over the engines that `init_kvengine` has made. -/
namespace LinuxCpp.Net

open C Kvstore Trace

section Handler

/-- `sprintf` of a text into `response`. -/
def putText (response : Buffer) : Option (List UInt8) → Except Fault Buffer
  | none => .ok response
  | some text =>
      if text.length < bufferLength then .ok (response.write (text ++ [0]))
      else .error .outOfBounds

/-- What the tokenizer leaves of the message. -/
def splitMessage (msg : Buffer) (length : Int) : Buffer :=
  if length ≤ 0 then msg
  else
    match kvsSplitTokenAt msg.toList noTokens with
    | .ok split => msg.write split.mem
    | .error _ => msg

def kvsCall (fuel : Nat) (S : Store) (msg : Buffer) (length : Int) (response : Buffer) :
    CM (Answered Store) := do
  let (reply, S) ← kvsProtocol fuel S msg.toList length
  let response ← putText response reply.text
  return ⟨S, splitMessage msg length, response, reply.ret⟩

/-- The engines of a process, or the fault that ended it. -/
abbrev Process := Except Fault (Store × Allocator)

/-- No loop of the tree takes more rounds than blocks were handed out, and two.
Behind a fault nothing returns; what stands there for it answers nothing. -/
def kvsHandler : Handler Process := fun process msg length response =>
  match process with
  | .error fault => ⟨.error fault, msg, response, 0⟩
  | .ok (S, A) =>
      match kvsCall (A.calls + 2) S msg length response A with
      | .error fault => ⟨.error fault, msg, response, 0⟩
      | .ok (answered, B) =>
          ⟨.ok (answered.store, B), answered.msg, answered.response, answered.returned⟩

end Handler

section Message

variable {S : Store} {chunk : List UInt8}

/-- The tokenizer does not look behind the first NUL. -/
theorem kvsSplitToken_behind (msg behind : List UInt8) :
    kvsSplitToken (msg ++ 0 :: behind) = kvsSplitToken (msg ++ [0]) := by
  obtain ⟨after, shape⟩ := message_shape msg
  have longer : msg ++ 0 :: behind = (CStr.upToNul msg).bytes ++ 0 :: (after ++ behind) := by
    rw [← List.cons_append, ← List.append_assoc, ← shape, List.append_assoc]
    rfl
  rw [longer, shape, kvsSplitToken_words (CStr.upToNul msg).noNul,
    kvsSplitToken_words (CStr.upToNul msg).noNul]

theorem zeroed_write (short : chunk.length < bufferLength) :
    ∃ behind, (Buffer.zeroed.write chunk).toList = chunk ++ 0 :: behind := by
  refine ⟨List.replicate (bufferLength - chunk.length - 1) 0, ?_⟩
  apply List.ext_getElem
  · simp
    omega
  · intro i inBuffer inChunk
    by_cases front : i < chunk.length
    · simp [Buffer.write, front]
    · have atEnd : i - chunk.length = 0 ∨ ∃ m, i - chunk.length = m + 1 := by
        cases i - chunk.length with
        | zero => exact .inl rfl
        | succ m => exact .inr ⟨m, rfl⟩
      rcases atEnd with zero | ⟨m, succ⟩
      · simp [Buffer.write, Buffer.zeroed, List.getElem_append, front, zero]
      · simp [Buffer.write, Buffer.zeroed, List.getElem_append, front, succ]

/-- A call for a chunk in a cleared buffer is a request. -/
theorem kvsProtocol_request (short : chunk.length < bufferLength) (fuel : Nat) :
    kvsProtocol fuel S (Buffer.zeroed.write chunk).toList chunk.length =
      request fuel S chunk := by
  obtain ⟨behind, shape⟩ := zeroed_write short
  rw [request, kvsProtocol, kvsProtocol, shape, kvsSplitToken_behind]

end Message

section Answer

variable {S : Store} {A : Allocator} {maps : Views} {chunk : List UInt8} {call : Call Process}

theorem write_front_append {b : Buffer} {bytes more : List UInt8}
    (fits : (bytes ++ more).length ≤ bufferLength) :
    (b.write (bytes ++ more)).front bytes.length = bytes := by
  have whole := Buffer.write_front b fits
  have shorter : bytes.length ≤ (bytes ++ more).length := by simp
  have taken := congrArg (List.take bytes.length) whole
  rwa [Buffer.front, List.take_take, Nat.min_eq_left shorter, List.take_left] at taken

/-- A message that the engines serve as maps, with room for a NUL behind it. -/
structure OrderlyMessage (S : Store) (msg : List UInt8) : Prop where
  message : Message msg
  ends : msg.length < bufferLength
  asks : ∃ engine r, asked msg = some (engine, r) ∧ Orderly S r engine

/-- What the engines hold after a message. -/
def heed (maps : Views) (msg : List UInt8) : Views :=
  match asked msg with
  | none => maps
  | some (engine, r) => maps.after engine r

/-- What the engines hold after these messages, from fresh engines on. -/
def heldAfter (msgs : List (List UInt8)) : Views := msgs.foldl heed fun _ _ => none

/-- What the maps say to a message. -/
def mapAnswer (maps : Views) (msg : List UInt8) : Option (List UInt8) :=
  (asked msg).map fun (engine, r) => r.answer engine.missing (maps engine)

/-- What holds of the process between two calls. -/
structure Serves (process : Process) (maps : Views) : Prop where
  alive : ∃ S A, process = .ok (S, A) ∧ Mapped S A maps ∧ S.ValuesIn Short

/-- One call for an orderly message. -/
theorem kvsHandler_step (serves : Serves call.store maps) (only : call.TakesOnly chunk)
    (orderly : ∀ S A, call.store = .ok (S, A) → OrderlyMessage S chunk) :
    mapAnswer maps chunk = some (call.reply kvsHandler) ∧
      Serves (call.run kvsHandler).store (heed maps chunk) ∧
      0 < (call.run kvsHandler).returned ∧ (call.run kvsHandler).returned ≤ bufferLength := by
  obtain ⟨S, A, isStore, mapped, short⟩ := serves.alive
  obtain ⟨message, ends, engine, r, named, safe⟩ := orderly S A isStore
  obtain ⟨S', B, ran, mapped'⟩ := mapped.step safe (Nat.le_refl _)
  have requested : request (A.calls + 2) S chunk A = _ :=
    (request_asked message.received message.few named _ S A).trans ran
  obtain ⟨short', fits⟩ := (request_bound message _ short).of_ok requested
  have fits := fits _ rfl
  have room : (r.answer engine.missing (maps engine)).length < bufferLength := fits
  have missing : engine.missing ≠ [] := by
    cases engine <;> decide
  have nonempty := List.length_pos_of_ne_nil (r.answer_ne_nil missing (maps engine))
  have called : kvsCall (A.calls + 2) S call.msg call.length call.response A =
      .ok (⟨S', splitMessage call.msg call.length,
        call.response.write (r.answer engine.missing (maps engine) ++ [0]),
        (r.answer engine.missing (maps engine)).length⟩, B) := by
    have protocol := (congrFun (kvsProtocol_request (S := S) ends (A.calls + 2)) A).trans requested
    rw [only.message, only.length, kvsCall, bind_ok protocol]
    simp only [sprintf, putText, if_pos room]
    rfl
  have result : call.run kvsHandler = ⟨.ok (S', B), splitMessage call.msg call.length,
      call.response.write (r.answer engine.missing (maps engine) ++ [0]),
      (r.answer engine.missing (maps engine)).length⟩ := by
    rw [Call.run, isStore]
    simp only [kvsHandler, called]
  rw [Call.reply, result]
  refine ⟨?_, ⟨S', B, rfl, ?_, short'⟩, ?_, ?_⟩
  · simp only [Int.toNat_natCast]
    rw [write_front_append (by simpa using fits), mapAnswer, named]
    rfl
  · rw [heed, named]
    exact mapped'
  · simpa using nonempty
  · simpa using Nat.le_of_lt room

end Answer

section Server

variable {A B : Allocator} {S : Store} {L : Reactor.Loop Process}

/-- Every message that the handler gets meets the engines as an orderly one. -/
def OrderlyCall (call : Call Process) : Prop :=
  ∀ S A, call.store = .ok (S, A) → OrderlyMessage S call.bytes

/-- The messages of the calls, in order. -/
def messages (calls : List (Nat × Call Process)) : List (List UInt8) :=
  calls.map fun entry => entry.2.bytes

/-- What the clients of the server get, over all that has happened so far. -/
structure KvsServed (S : Reactor.Server Process) : Prop where
  /-- Every chunk is handled once, and answered once on its own connection. -/
  served : Reactor.Served kvsHandler S
  /-- No call has faulted. -/
  alive : ∃ S' A, S.store = .ok (S', A)
  /-- A reply is the answer of the maps that all messages before it have left, whatever
  connections they came on. -/
  linear : ∀ earlier peer call later,
    handledCalls S.trace = earlier ++ (peer, call) :: later →
      mapAnswer (heldAfter (messages earlier)) call.bytes = some (call.reply kvsHandler)

theorem Reactor.Fine.bytes {inv : Process → Prop} {call : Call Process}
    (fine : Reactor.Fine inv OrderlyCall call) : call.TakesOnly call.bytes := by
  obtain ⟨chunk, only, -, fits⟩ := fine.chunk
  rwa [(only.takes fits).bytes_eq]

theorem answers_along {inv : Process → Prop} {process last : Process} {msgs : List (List UInt8)}
    (serves : Serves process (heldAfter msgs)) {calls : List (Nat × Call Process)}
    (threads : Threads kvsHandler process calls last)
    (fine : ∀ peer call, (peer, call) ∈ calls → Reactor.Fine inv OrderlyCall call)
    {earlier later : List (Nat × Call Process)} {peer : Nat} {call : Call Process}
    (split : calls = earlier ++ (peer, call) :: later) :
    mapAnswer (heldAfter (msgs ++ messages earlier)) call.bytes = some (call.reply kvsHandler) := by
  induction earlier generalizing process calls msgs with
  | nil =>
      subst split
      obtain ⟨meets, -⟩ := threads
      have isFine := fine peer call List.mem_cons_self
      rw [← meets] at serves
      have step := kvsHandler_step serves isFine.bytes isFine.allowed
      simpa [messages] using step.1
  | cons first earlier ih =>
      subst split
      obtain ⟨meets, rest⟩ := threads
      have isFine := fine first.1 first.2 List.mem_cons_self
      rw [← meets] at serves
      have step := kvsHandler_step serves isFine.bytes isFine.allowed
      have heard : heed (heldAfter msgs) first.2.bytes = heldAfter (msgs ++ [first.2.bytes]) := by
        rw [heldAfter, heldAfter, List.foldl_append]
        rfl
      rw [heard] at step
      have later := ih step.2.1 rest
        (fun peer call member => fine peer call (List.mem_cons_of_mem _ member)) rfl
      rwa [List.append_assoc] at later

/-- The process is up and its engines hold some maps. -/
def Up (process : Process) : Prop := ∃ maps, Serves process maps

theorem kvsHandler_keeps (call : Call Process) (fine : Reactor.Fine Up OrderlyCall call) :
    0 < (call.run kvsHandler).returned ∧ (call.run kvsHandler).returned ≤ bufferLength ∧
      Up (call.run kvsHandler).store := by
  obtain ⟨maps, serves⟩ := fine.store
  obtain ⟨-, serves', positive, fits⟩ := kvsHandler_step serves fine.bytes fine.allowed
  exact ⟨positive, fits, _, serves'⟩

/-- As long as every message is orderly in the state it meets, the server stays up,
and its clients see one map for each engine. -/
theorem kvs_serves (granted : A.AllSucceed) (created : initKvengine A = .ok (S, B))
    (run : Reactor.From kvsHandler (.ok (S, B)) L)
    (orderly : ∀ peer call, (peer, call) ∈ handledCalls L.server.trace → OrderlyCall call) :
    KvsServed L.server := by
  obtain ⟨S', B', created', mapped⟩ := initKvengine_mapped granted
  rw [created] at created'
  cases created'
  have start : Serves (.ok (S, B)) (heldAfter []) :=
    ⟨S, B, rfl, mapped, (initKvengine_values short_admits).of_ok created⟩
  have up : Up (.ok (S, B)) := ⟨_, start⟩
  obtain ⟨carried, ⟨maps, S', A', isStore, -⟩, fine⟩ := run.carried up kvsHandler_keeps orderly
  exact ⟨carried.served, ⟨S', A', isStore⟩, fun earlier peer call later split =>
    answers_along start carried.threads fine split⟩

/-- A call for a message of the array that needs nothing but room. -/
theorem orderlyCall_of {call : Call Process} {msg : List UInt8} (only : call.TakesOnly msg)
    (message : Message msg) (ends : msg.length < bufferLength)
    (asks : ∀ S A, call.store = .ok (S, A) →
      ∃ engine r, asked msg = some (engine, r) ∧ Orderly S r engine) : OrderlyCall call := by
  intro S A isStore
  rw [(only.takes message.fits).bytes_eq]
  exact ⟨message, ends, asks S A isStore⟩

def setMessage : List UInt8 := ascii ['S', 'E', 'T', ' ', 'a', ' ', '1']

def getMessage : List UInt8 := ascii ['G', 'E', 'T', ' ', 'a']

/-- One client sets a key and another one reads it. -/
theorem kvs_serves_two : ∃ L : Reactor.Loop Process,
    receivedChunks L.server.trace = [(0, setMessage), (1, getMessage)] ∧ KvsServed L.server := by
  obtain ⟨S, B, chains, created, -, rep, -⟩ := initKvengine_run Allocator.plentiful_allSucceed
  have fits : ∀ msg, Message msg → ∀ chunk, Reactor.Recv.data msg = .data chunk →
      0 < chunk.length ∧ chunk.length ≤ bufferLength := by
    intro msg message chunk same
    cases same
    exact ⟨message.received, message.fits⟩
  have isSet : Message setMessage := by decide
  have isGet : Message getMessage := by decide
  have start : Reactor.From kvsHandler (.ok (S, B)) ⟨Reactor.reactorStart 3 (.ok (S, B)), []⟩ :=
    .start (by decide)
  have first := start.event 3 .readable ⟨5, .failed⟩ rfl
    (Reactor.admissible_accept rfl (by decide)) rfl
  have second := first.event 3 .readable ⟨6, .failed⟩ rfl
    (Reactor.admissible_accept rfl (by decide)) rfl
  have stored := second.event 5 .readable ⟨-1, .data setMessage⟩ rfl
    (Reactor.admissible_recv (fits _ isSet)) rfl
  have read := stored.event 6 .readable ⟨-1, .data getMessage⟩ rfl
    (Reactor.admissible_recv (fits _ isGet)) rfl
  refine ⟨_, rfl, kvs_serves Allocator.plentiful_allSucceed created read ?_⟩
  intro peer call member
  rcases List.mem_cons.mp member with isFirst | others
  · cases isFirst
    refine orderlyCall_of ⟨rfl, rfl⟩ isSet (by decide) fun S' A' isStore => ?_
    cases isStore
    refine ⟨.array, .set ⟨[97], by decide⟩ ⟨[49], by decide⟩, by rfl, ?_, ?_⟩
    · rintro key ⟨⟩
    · intro key value _
      rw [rep.total]
      decide
  · cases List.mem_singleton.mp others
    refine orderlyCall_of ⟨rfl, rfl⟩ isGet (by decide) fun S' A' isStore => ?_
    refine ⟨.array, .get ⟨[97], by decide⟩, by rfl, ?_, ?_⟩
    · rintro key ⟨⟩
    · rintro key value ⟨⟩

end Server

end LinuxCpp.Net
