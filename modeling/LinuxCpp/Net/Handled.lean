import LinuxCpp.Net.ReactorRounds

set_option autoImplicit false

/- Runs of the epoll front end over a store. The calls of the handler follow one
another through the store, whatever connections they are for; so a handler that
is well-behaved only on the calls it gets serves as one that always is. -/
namespace LinuxCpp.Net

open Kvstore (bufferLength)
open Trace

section Calls

variable {σ : Type}

/-- The calls of the handler, in order, with their connections. -/
def handledCalls (trace : List (Nat × Event σ)) : List (Nat × Call σ) :=
  trace.filterMap fun
    | (peer, .handled call) => some (peer, call)
    | _ => none

theorem handledCalls_append (first second : List (Nat × Event σ)) :
    handledCalls (first ++ second) = handledCalls first ++ handledCalls second :=
  List.filterMap_append

theorem mem_handledCalls {trace : List (Nat × Event σ)} {peer : Nat} {call : Call σ} :
    (peer, call) ∈ handledCalls trace ↔ .handled call ∈ eventsOf peer trace := by
  constructor
  · intro member
    obtain ⟨⟨other, event⟩, inside, found⟩ := List.mem_filterMap.mp member
    cases event with
    | handled call' =>
        cases found
        exact List.mem_filterMap.mpr ⟨_, inside, if_pos rfl⟩
    | accepted => cases found
    | received chunk => cases found
    | sent bytes => cases found
    | dropped => cases found
    | closed => cases found
  · intro member
    obtain ⟨⟨other, event⟩, inside, found⟩ := List.mem_filterMap.mp member
    by_cases own : other = peer
    · rw [if_pos own, Option.some.injEq] at found
      obtain rfl : event = .handled call := found
      subst own
      exact List.mem_filterMap.mpr ⟨_, inside, rfl⟩
    · rw [if_neg own] at found
      cases found

/-- Each call meets the store that the one before it left. -/
def Threads (handler : Handler σ) (store : σ) : List (Nat × Call σ) → σ → Prop
  | [], last => store = last
  | (_, call) :: rest, last =>
      call.store = store ∧ Threads handler (call.run handler).store rest last

theorem Threads.snoc {handler : Handler σ} {store last : σ} {calls : List (Nat × Call σ)}
    (threads : Threads handler store calls last) (peer : Nat) (call : Call σ)
    (meets : call.store = last) :
    Threads handler store (calls ++ [(peer, call)]) (call.run handler).store := by
  induction calls generalizing store with
  | nil => exact ⟨meets.trans threads.symm, rfl⟩
  | cons first rest ih => exact ⟨threads.1, ih threads.2⟩

theorem Threads.transfer {handler other : Handler σ} {store last : σ}
    {calls : List (Nat × Call σ)} (threads : Threads other store calls last)
    (agree : ∀ peer call, (peer, call) ∈ calls → call.run other = call.run handler) :
    Threads handler store calls last := by
  induction calls generalizing store with
  | nil => exact threads
  | cons first rest ih =>
      refine ⟨threads.1, ?_⟩
      rw [← agree first.1 first.2 List.mem_cons_self]
      exact ih threads.2 fun peer call member => agree peer call (List.mem_cons_of_mem _ member)

end Calls

namespace Reactor

section Grows

variable {σ : Type} {handler : Handler σ} {answers : Answers} {S S' : Server σ} {fd : Nat}

theorem note_grows (same : S'.trace = S.trace) (fd : Nat) (event : Event σ) :
    S.trace <+: (S'.note fd event).trace := by
  rw [← same, Server.note]
  split
  · exact List.prefix_append _ _
  · exact List.prefix_rfl

@[simp] theorem setConn_trace (S : Server σ) (fd : Nat) (c : Conn) :
    (S.setConn fd c).trace = S.trace := rfl

@[simp] theorem setEvent_trace (S : Server σ) (fd : Nat) (event : Mask) (flag : Bool) :
    (setEvent S fd event flag).trace = S.trace := by
  cases flag <;> rfl

theorem kvsRequest_grows (handler : Handler σ) (S : Server σ) (fd : Nat) :
    S.trace <+: (kvsRequest handler S fd).trace := by
  rw [kvsRequest]
  exact note_grows (by rfl) fd _

theorem recvCb_grows (handler : Handler σ) (S : Server σ) (fd : Nat) (result : Recv) :
    S.trace <+: (recvCb handler S fd result).trace := by
  cases result with
  | data chunk =>
      simp only [recvCb, setEvent_trace]
      refine List.IsPrefix.trans ?_ (kvsRequest_grows handler _ fd)
      rw [setConn_trace]
      exact note_grows (by rfl) fd (.received chunk)
  | disconnected => exact note_grows (by rfl) fd .closed
  | failed => exact note_grows (by rfl) fd .closed

theorem sendCb_grows (S : Server σ) (fd : Nat) : S.trace <+: (sendCb S fd).trace := by
  simp only [sendCb, setEvent_trace]
  split
  · exact note_grows (by rfl) fd _
  · exact List.prefix_rfl

theorem acceptCb_grows {clientfd : Int} (result : acceptCb S clientfd = some S') :
    S.trace <+: S'.trace := by
  rw [acceptCb] at result
  split at result
  · cases result
    exact List.prefix_rfl
  · rw [eventRegister] at result
    split at result
    · cases result
      exact note_grows (by rfl) _ _
    · split at result
      · cases result
        rw [setEvent_trace]
        exact note_grows (by rfl) _ _
      · cases result

theorem runCallback_grows {callback : Option Callback}
    (result : runCallback handler answers S fd callback = some S') : S.trace <+: S'.trace := by
  cases callback with
  | none => cases result
  | some callback =>
      cases callback with
      | acceptCb => exact acceptCb_grows result
      | recvCb =>
          cases result
          exact recvCb_grows handler S fd answers.recv
      | sendCb =>
          cases result
          exact sendCb_grows S fd

/-- What has happened stays in the trace. -/
theorem dispatch_grows {e : Ready} (result : dispatch handler answers S e = some S') :
    S.trace <+: S'.trace := by
  have tail : ∀ {mid : Server σ}, (if e.events.epollout then
      runCallback handler answers mid e.fd (mid.connList e.fd).sendCallback else some mid) =
        some S' → mid.trace <+: S'.trace := by
    intro mid second
    split at second
    · exact runCallback_grows second
    · cases second
      exact List.prefix_rfl
  rw [dispatch] at result
  split at result
  · cases result
  · dsimp only at result
    split at result
    · obtain ⟨mid, first, second⟩ := Option.bind_eq_some_iff.mp result
      exact (runCallback_grows first).trans (tail second)
    · exact tail result

end Grows

section Splits

variable {σ : Type} {handler : Handler σ} {S : Server σ} {e : Ready} {rest : List Ready}
  {answers : Answers}

/-- The event leaves the store alone, under every handler. -/
def Quiet (answers : Answers) (S : Server σ) (e : Ready) : Prop :=
  ∃ S' news, (∀ handler, dispatch handler answers S e = some S') ∧ S'.store = S.store ∧
    S'.trace = S.trace ++ news ∧ handledCalls news = []

/-- The event brings a chunk of a client. -/
def Brings (answers : Answers) (S : Server σ) (e : Ready) (peer : Nat) (chunk : List UInt8) :
    Prop :=
  S.kernel.sockets e.fd = some (.connected peer) ∧ (S.kernel.interest e.fd).isSome ∧
    0 < chunk.length ∧ chunk.length ≤ bufferLength ∧
    ∀ handler, dispatch handler answers S e = some (recvCb handler S e.fd (.data chunk))

theorem acceptCb_quiet (inv : Inv handler S (e :: rest)) (admissible : answers.Admissible S.kernel)
    (same : ∀ handler, dispatch handler answers S e = acceptCb S answers.accept) :
    Quiet answers S e := by
  by_cases valid : 0 ≤ answers.accept
  · obtain ⟨closed, inTable⟩ := admissible.accept valid
    exact ⟨_, [(S.kernel.accepted, .accepted)],
      fun handler => (same handler).trans (acceptCb_fd inv.sound valid closed inTable), rfl, rfl,
      rfl⟩
  · refine ⟨S, [], fun handler => ?_, rfl, (List.append_nil _).symm, rfl⟩
    rw [same, acceptCb, if_pos (by omega)]

/-- What one reported event does: nothing that the handler sees, or one call of it. -/
theorem dispatch_splits (inv : Inv handler S (e :: rest))
    (admissible : answers.Admissible S.kernel) :
    Quiet answers S e ∨ ∃ peer chunk, Brings answers S e peer chunk := by
  obtain ⟨mask, present, within⟩ := inv.registered e (by simp)
  have watched : (S.kernel.interest e.fd).isSome := by
    simp [present]
  have idle (small : e.fd < connectionSize) (noIn : e.events.epollin = false)
      (noOut : e.events.epollout = false) : Quiet answers S e := by
    refine ⟨S, [], fun handler => ?_, rfl, (List.append_nil _).symm, rfl⟩
    simp [dispatch, Nat.not_le.mpr small, noIn, noOut]
  cases here : S.kernel.sockets e.fd with
  | none => exact absurd here inv.reported.1
  | some socket =>
      cases socket with
      | listening =>
          obtain ⟨small, callback, readable⟩ := inv.listener here
          obtain rfl : Mask.readable = mask := Option.some.inj (readable.symm.trans present)
          have noOut : e.events.epollout = false := by
            simpa [Mask.readable] using within.2
          cases hasIn : e.events.epollin with
          | false => exact .inl (idle small hasIn noOut)
          | true =>
              refine .inl (acceptCb_quiet inv admissible fun handler => ?_)
              simp [dispatch, Nat.not_le.mpr small, hasIn, noOut, callback, runCallback]
      | connected peer =>
          have client : Client handler S e.fd peer := inv.client here
          have inTable := Nat.not_le.mpr client.small
          rcases client.stands with ⟨readable, -⟩ | ⟨writable, pending, -⟩
          · obtain rfl : Mask.readable = mask := Option.some.inj (readable.symm.trans present)
            have noOut : e.events.epollout = false := by
              simpa [Mask.readable] using within.2
            cases hasIn : e.events.epollin with
            | false => exact .inl (idle client.small hasIn noOut)
            | true =>
                have same : ∀ handler, dispatch handler answers S e =
                    some (recvCb handler S e.fd answers.recv) := fun handler => by
                  simp [dispatch, inTable, hasIn, noOut, client.recvCallback, runCallback]
                by_cases data : ∃ chunk, answers.recv = .data chunk
                · obtain ⟨chunk, isChunk⟩ := data
                  obtain ⟨received, fits⟩ := admissible.recv chunk isChunk
                  rw [isChunk] at same
                  exact .inr ⟨peer, chunk, here, watched, received, fits, same⟩
                · have ends := fun handler =>
                    @recvCb_end σ handler S e.fd peer here answers.recv (not_exists.mp data)
                  exact .inl ⟨_, [(peer, .closed)],
                    fun handler => (same handler).trans (congrArg some (ends handler)), rfl, rfl,
                    rfl⟩
          · obtain rfl : Mask.writable = mask := Option.some.inj (writable.symm.trans present)
            have noIn : e.events.epollin = false := by
              simpa [Mask.writable] using within.1
            cases hasOut : e.events.epollout with
            | false => exact .inl (idle client.small noIn hasOut)
            | true =>
                have same : ∀ handler, dispatch handler answers S e = some (sendCb S e.fd) :=
                  fun handler => by
                    simp [dispatch, inTable, hasOut, noIn, client.sendCallback, runCallback]
                have sends := sendCb_pending here watched (Int.ne_of_gt pending)
                exact .inl ⟨_, [(peer, .sent
                    ((S.connList e.fd).wbuffer.front (S.connList e.fd).wlength.toNat))],
                  fun handler => (same handler).trans (congrArg some sends), rfl, rfl, rfl⟩

end Splits

section Runs

variable {σ : Type} {handler : Handler σ} {store : σ} {L : Loop σ}

/-- The states of the main loop in the runs that begin with a store. -/
inductive From (handler : Handler σ) (store : σ) : Loop σ → Prop
  | start {sockfd : Nat} : sockfd < connectionSize →
      From handler store ⟨reactorStart sockfd store, []⟩
  | step {L L' : Loop σ} : From handler store L → Step handler L L' → From handler store L'

theorem From.reachable (run : From handler store L) : Reachable handler L := by
  induction run with
  | start small => exact .start small
  | step _ step ih => exact ih.step step

/-- One report of one event, and its handling. -/
theorem From.event {S S' : Server σ} (fd : Nat) (mask : Mask) (answers : Answers)
    (run : From handler store ⟨S, []⟩) (registered : S.kernel.interest fd = some mask)
    (admissible : answers.Admissible S.kernel)
    (result : dispatch handler answers S ⟨fd, mask⟩ = some S') :
    From handler store ⟨S', []⟩ := by
  have reported : Reported S.kernel [⟨fd, mask⟩] := by
    refine ⟨by simp [maxEvents], by simp, ?_⟩
    intro e member
    obtain rfl := List.mem_singleton.mp member
    exact ⟨mask, registered, id, id⟩
  exact (run.step (.wait reported)).step (.event admissible result)

/-- The handler on the calls that are `fine`; the others get back what they bring. -/
noncomputable def tamed (handler : Handler σ) (fine : Call σ → Prop) : Handler σ :=
  open Classical in fun store msg length response =>
    if fine ⟨store, msg, length, response⟩ then handler store msg length response
    else ⟨store, msg, msg, length⟩

theorem tamed_fine {fine : Call σ → Prop} {call : Call σ} (isFine : fine call) :
    call.run (tamed handler fine) = call.run handler :=
  if_pos isFine

theorem tamed_returns {fine : Call σ → Prop} (returns : ∀ call, fine call →
      0 < (call.run handler).returned ∧ (call.run handler).returned ≤ bufferLength) :
    ReturnsLength (tamed handler fine) := by
  intro call positive fits
  by_cases isFine : fine call
  · rw [tamed_fine isFine]
    exact returns call isFine
  · have same : call.run (tamed handler fine) = ⟨call.store, call.msg, call.msg, call.length⟩ :=
      if_neg isFine
    rw [same]
    exact ⟨positive, fits⟩

/-- What a run over a store owes: the clients are served, and the calls lead
from the store at the start to the store there is. -/
structure Carried (handler : Handler σ) (store : σ) (S : Server σ) : Prop where
  served : Served handler S
  threads : Threads handler store (handledCalls S.trace) S.store

end Runs

section Transfer

variable {σ : Type} {handler other : Handler σ} {store : σ} {S S' : Server σ} {e : Ready}
  {rest : List Ready} {answers : Answers} {inv : σ → Prop} {allowed : Call σ → Prop}

/-- The calls that a run can make: a chunk in a cleared buffer, in a good store,
with what the call is allowed to be. -/
structure Fine (inv : σ → Prop) (allowed : Call σ → Prop) (call : Call σ) : Prop where
  chunk : ∃ chunk, call.TakesOnly chunk ∧ 0 < chunk.length ∧ chunk.length ≤ bufferLength
  store : inv call.store
  allowed : allowed call

theorem Served.transfer (served : Served other S)
    (agree : ∀ peer call, (peer, call) ∈ handledCalls S.trace → call.run other = call.run handler) :
    Served handler S := by
  have same : ∀ {peer events call}, eventsOf peer S.trace = events → .handled call ∈ events →
      call.reply other = call.reply handler := by
    rintro peer events call rfl member
    rw [Call.reply, Call.reply, agree peer call (mem_handledCalls.mpr member)]
  constructor
  · exact served.handed
  · intro peer before first between second after split noReceive
    obtain ⟨call, only, isRound⟩ := served.between split noReceive
    refine ⟨call, only, ?_⟩
    rw [← same split (by simp [isRound])]
    exact isRound
  · intro peer before bytes after split
    obtain ⟨earlier, chunk, call, isRound, only, isReply⟩ := served.own split
    refine ⟨earlier, chunk, call, isRound, only, ?_⟩
    rw [← same split (by simp [isRound])]
    exact isReply
  · intro fd peer earlier call here last
    rw [← same last (by simp)]
    exact served.pending here last

/-- What is known of a run whose calls are all allowed. -/
structure Keeps (handler : Handler σ) (inv : σ → Prop) (allowed : Call σ → Prop) (init : σ)
    (L : Loop σ) : Prop where
  tame : From (tamed handler (Fine inv allowed)) init L
  store : inv L.server.store
  threads : Threads (tamed handler (Fine inv allowed)) init (handledCalls L.server.trace)
    L.server.store
  fine : ∀ peer call, (peer, call) ∈ handledCalls L.server.trace → Fine inv allowed call

/-- One event of the loop. -/
theorem Keeps.event (keeps : Keeps handler inv allowed store ⟨S, e :: rest⟩)
    (good : ∀ call, Fine inv allowed call → 0 < (call.run handler).returned ∧
      (call.run handler).returned ≤ bufferLength ∧ inv (call.run handler).store)
    (admissible : answers.Admissible S.kernel)
    (result : dispatch handler answers S e = some S')
    (all : ∀ peer call, (peer, call) ∈ handledCalls S'.trace → allowed call) :
    Keeps handler inv allowed store ⟨S', rest⟩ := by
  obtain ⟨tame, holds, threads, fine⟩ := keeps
  have returns : ReturnsLength (tamed handler (Fine inv allowed)) :=
    tamed_returns fun call isFine => ⟨(good call isFine).1, (good call isFine).2.1⟩
  rcases dispatch_splits (tame.reachable.inv returns) admissible with quiet | brings
  · obtain ⟨S'', news, same, sameStore, grown, none_⟩ := quiet
    obtain rfl : S' = S'' := Option.some.inj (result.symm.trans (same handler))
    have calls : handledCalls S'.trace = handledCalls S.trace := by
      rw [grown, handledCalls_append, none_, List.append_nil]
    refine ⟨tame.step (.event admissible (same _)), ?_, ?_, ?_⟩
    · exact sameStore ▸ holds
    · change Threads _ store (handledCalls S'.trace) S'.store
      rw [calls, sameStore]
      exact threads
    · change ∀ peer call, (peer, call) ∈ handledCalls S'.trace → _
      rw [calls]
      exact fine
  · obtain ⟨peer, chunk, here, watched, received, fits, same⟩ := brings
    have calls : handledCalls (recvCb handler S e.fd (.data chunk)).trace =
        handledCalls S.trace ++ [(peer, chunkCall S e.fd chunk)] := by
      rw [recvCb_data here watched, handledCalls_append]
      rfl
    obtain rfl := Option.some.inj (result.symm.trans (same handler))
    have allowedCall : allowed (chunkCall S e.fd chunk) := by
      apply all peer
      rw [calls]
      exact List.mem_append_right _ List.mem_cons_self
    have isFine : Fine inv allowed (chunkCall S e.fd chunk) :=
      ⟨⟨chunk, ⟨rfl, rfl⟩, received, fits⟩, holds, allowedCall⟩
    have agree : recvCb handler S e.fd (.data chunk) =
        recvCb (tamed handler (Fine inv allowed)) S e.fd (.data chunk) := by
      rw [recvCb_data here watched, recvCb_data here watched, tamed_fine isFine]
    refine ⟨tame.step (.event admissible ((same _).trans (congrArg some agree.symm))), ?_, ?_, ?_⟩
    · change inv (recvCb handler S e.fd (.data chunk)).store
      rw [recvCb_data here watched]
      exact (good _ isFine).2.2
    · change Threads _ store (handledCalls (recvCb handler S e.fd (.data chunk)).trace)
        (recvCb handler S e.fd (.data chunk)).store
      rw [calls, agree, recvCb_data here watched]
      exact threads.snoc peer _ rfl
    · change ∀ party call,
        (party, call) ∈ handledCalls (recvCb handler S e.fd (.data chunk)).trace → _
      rw [calls]
      intro party call member
      rcases List.mem_append.mp member with old | new
      · exact fine party call old
      · cases List.mem_singleton.mp new
        exact isFine

theorem From.keeps {L : Loop σ} (run : From handler store L) (start : inv store)
    (good : ∀ call, Fine inv allowed call → 0 < (call.run handler).returned ∧
      (call.run handler).returned ≤ bufferLength ∧ inv (call.run handler).store)
    (all : ∀ peer call, (peer, call) ∈ handledCalls L.server.trace → allowed call) :
    Keeps handler inv allowed store L := by
  induction run with
  | start small =>
      refine ⟨.start small, start, rfl, fun peer call member => ?_⟩
      cases member
  | step _ step ih =>
      cases step with
      | wait reported =>
          obtain ⟨tame, holds, threads, fine⟩ := ih all
          exact ⟨tame.step (.wait reported), holds, threads, fine⟩
      | event admissible result =>
          refine (ih fun peer call member => all peer call ?_).event good admissible result all
          exact ((dispatch_grows result).filterMap _).subset member

/-- In every run whose calls are all allowed, the clients are served, the calls
lead through the store, and the store stays good. -/
theorem From.carried {L : Loop σ} (run : From handler store L) (start : inv store)
    (good : ∀ call, Fine inv allowed call → 0 < (call.run handler).returned ∧
      (call.run handler).returned ≤ bufferLength ∧ inv (call.run handler).store)
    (all : ∀ peer call, (peer, call) ∈ handledCalls L.server.trace → allowed call) :
    Carried handler store L.server ∧ inv L.server.store ∧
      ∀ peer call, (peer, call) ∈ handledCalls L.server.trace → Fine inv allowed call := by
  obtain ⟨tame, holds, threads, fine⟩ := run.keeps start good all
  have returns : ReturnsLength (tamed handler (Fine inv allowed)) :=
    tamed_returns fun call isFine => ⟨(good call isFine).1, (good call isFine).2.1⟩
  have agree : ∀ peer call, (peer, call) ∈ handledCalls L.server.trace →
      call.run (tamed handler (Fine inv allowed)) = call.run handler :=
    fun peer call member => tamed_fine (fine peer call member)
  exact ⟨⟨(reactor_serves returns tame.reachable).transfer agree, threads.transfer agree⟩, holds,
    fine⟩

end Transfer

end Reactor

end LinuxCpp.Net
