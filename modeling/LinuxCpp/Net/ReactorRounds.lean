import LinuxCpp.Net.Reactor

set_option autoImplicit false

/- Runs of the epoll front end. The interest mask of a client says where its
exchange stands: `EPOLLIN` while a chunk is awaited, `EPOLLOUT` while a reply
lies in `wbuffer`. -/
namespace LinuxCpp.Net.Reactor

open Kvstore (bufferLength)
open Trace

section Effects

variable {σ : Type} {handler : Handler σ} {S : Server σ} {fd peer : Nat}

/-- The call that `recv_cb` makes for a chunk. -/
def chunkCall (S : Server σ) (fd : Nat) (chunk : List UInt8) : Call σ :=
  ⟨S.store, Buffer.zeroed.write chunk, chunk.length, (S.connList fd).wbuffer⟩

theorem recvCb_data (here : S.kernel.sockets fd = some (.connected peer))
    (watched : (S.kernel.interest fd).isSome) (chunk : List UInt8) :
    recvCb handler S fd (.data chunk) =
      { connList := Function.update S.connList fd
          { S.connList fd with
            rbuffer := ((chunkCall S fd chunk).run handler).msg
            rlength := chunk.length
            wbuffer := ((chunkCall S fd chunk).run handler).response
            wlength := ((chunkCall S fd chunk).run handler).returned }
        kernel :=
          { S.kernel with interest := Function.update S.kernel.interest fd (some .writable) }
        store := ((chunkCall S fd chunk).run handler).store
        trace := S.trace ++
          [(peer, .received chunk), (peer, .handled (chunkCall S fd chunk))] } := by
  simp [recvCb, kvsRequest, setEvent, Server.setConn, Server.note, here,
    Kernel.epollMod_eq _ watched, chunkCall]

theorem recvCb_end (here : S.kernel.sockets fd = some (.connected peer)) {result : Recv}
    (noData : ∀ chunk, result ≠ .data chunk) :
    recvCb handler S fd result =
      { S with
        connList := Function.update S.connList fd { S.connList fd with rbuffer := Buffer.zeroed }
        kernel := S.kernel.close fd
        trace := S.trace ++ [(peer, .closed)] } := by
  cases result with
  | data chunk => exact absurd rfl (noData chunk)
  | disconnected => simp [recvCb, Server.setConn, Server.note, here, Kernel.close_epollDel]
  | failed => simp [recvCb, Server.setConn, Server.note, here, Kernel.close_epollDel]

theorem sendCb_pending (here : S.kernel.sockets fd = some (.connected peer))
    (watched : (S.kernel.interest fd).isSome) (pending : (S.connList fd).wlength ≠ 0) :
    sendCb S fd =
      { S with
        kernel :=
          { S.kernel with interest := Function.update S.kernel.interest fd (some .readable) }
        trace := S.trace ++
          [(peer, .sent ((S.connList fd).wbuffer.front (S.connList fd).wlength.toNat))] } := by
  simp [sendCb, setEvent, pending, Server.note, here, Kernel.epollMod_eq _ watched]

/-- The entry that `event_register` leaves. -/
def freshConn : Conn :=
  { Conn.zeroed with recvCallback := some .recvCb, sendCallback := some .sendCb }

theorem acceptCb_fd (sound : S.kernel.Sound) {clientfd : Int} (valid : 0 ≤ clientfd)
    (closed : S.kernel.sockets clientfd.toNat = none) (small : clientfd.toNat < connectionSize) :
    acceptCb S clientfd = some
      { S with
        connList := Function.update S.connList clientfd.toNat freshConn
        kernel :=
          { S.kernel.accept clientfd.toNat with
            interest := Function.update S.kernel.interest clientfd.toNat (some .readable) }
        trace := S.trace ++ [(S.kernel.accepted, .accepted)] } := by
  have positive : ¬ clientfd < 0 := by omega
  have absent : (S.kernel.accept clientfd.toNat).interest clientfd.toNat = none :=
    sound.watched closed
  have isOpen : ((S.kernel.accept clientfd.toNat).sockets clientfd.toNat).isSome := by
    simp [Kernel.accept_self]
  simp only [acceptCb, if_neg positive, eventRegister, if_pos small]
  simp only [Server.note, Kernel.accept_self, Server.setConn, setEvent, if_true,
    Kernel.epollAdd_eq _ isOpen absent]
  rfl

end Effects

section Invariant

variable {σ : Type} {handler : Handler σ} {S S' : Server σ} {fd peer : Nat}

/-- The rounds that a connection goes through, up to a phase. -/
abbrev Rounds (handler : Handler σ) (S : Server σ) (peer : Nat) (phase : Phase) : Prop :=
  Course (Next handler Call.TakesOnly False) .unborn (eventsOf peer S.trace) phase

/-- A client is awaited or has its own reply in its own buffer, as its mask says. -/
structure Client (handler : Handler σ) (S : Server σ) (fd peer : Nat) : Prop where
  small : fd < connectionSize
  recvCallback : (S.connList fd).recvCallback = some .recvCb
  sendCallback : (S.connList fd).sendCallback = some .sendCb
  stands :
    (S.kernel.interest fd = some .readable ∧ Rounds handler S peer .waiting) ∨
    (S.kernel.interest fd = some .writable ∧ 0 < (S.connList fd).wlength ∧
      Rounds handler S peer
        (.answering ((S.connList fd).wbuffer.front (S.connList fd).wlength.toNat)))

structure Inv (handler : Handler σ) (S : Server σ) (batch : List Ready) : Prop where
  sound : S.kernel.Sound
  listener : ∀ {fd}, S.kernel.sockets fd = some .listening →
    fd < connectionSize ∧ (S.connList fd).recvCallback = some .acceptCb ∧
      S.kernel.interest fd = some .readable
  client : ∀ {fd peer}, S.kernel.sockets fd = some (.connected peer) →
    Client handler S fd peer
  rounds : ∀ peer, ∃ phase, Rounds handler S peer phase
  unborn : ∀ {peer}, S.kernel.accepted ≤ peer → eventsOf peer S.trace = []
  handed : receivedChunks S.trace = handedChunks S.trace
  once : (batch.map Ready.fd).Nodup
  registered : ∀ e ∈ batch, ∃ mask,
    S.kernel.interest e.fd = some mask ∧ e.events.Within mask

/-- What the handling of one event may do: it changes one descriptor and adds
events to one connection, which no other descriptor stands for. -/
structure Turn (handler : Handler σ) (S S' : Server σ) (fd peer : Nat)
    (news : List (Event σ)) : Prop where
  sound : S'.kernel.Sound
  sockets : ∀ {other}, other ≠ fd → S'.kernel.sockets other = S.kernel.sockets other
  interest : ∀ {other}, other ≠ fd → S'.kernel.interest other = S.kernel.interest other
  connList : ∀ {other}, other ≠ fd → S'.connList other = S.connList other
  trace : S'.trace = S.trace ++ news.map (Prod.mk peer)
  later : S.kernel.accepted ≤ S'.kernel.accepted
  counted : peer < S'.kernel.accepted
  alone : ∀ {other}, other ≠ fd → S.kernel.sockets other ≠ some (.connected peer)
  now : S'.kernel.sockets fd = none ∨
    (S'.kernel.sockets fd = some (.connected peer) ∧ Client handler S' fd peer)
  rounds : ∃ phase, Rounds handler S' peer phase
  handed : receivedChunks (news.map (Prod.mk peer)) = handedChunks (news.map (Prod.mk peer))

theorem Turn.events_other {news : List (Event σ)} (turn : Turn handler S S' fd peer news)
    {other : Nat} (differ : other ≠ peer) : eventsOf other S'.trace = eventsOf other S.trace := by
  have none : eventsOf other (news.map (Prod.mk peer)) = [] := by
    simp [eventsOf, differ.symm]
  rw [turn.trace, eventsOf_append, none, List.append_nil]

theorem Turn.client {news : List (Event σ)} (turn : Turn handler S S' fd peer news)
    {other party : Nat} (differ : other ≠ fd)
    (here : S.kernel.sockets other = some (.connected party))
    (client : Client handler S other party) : Client handler S' other party := by
  have stranger : party ≠ peer := by
    rintro rfl
    exact turn.alone differ here
  obtain ⟨small, recvCallback, sendCallback, stands⟩ := client
  constructor
  · exact small
  · rw [turn.connList differ, recvCallback]
  · rw [turn.connList differ, sendCallback]
  · rw [Rounds, Rounds, turn.connList differ, turn.interest differ, turn.events_other stranger]
    exact stands

theorem Turn.inv {news : List (Event σ)} {e : Ready} {rest : List Ready}
    (turn : Turn handler S S' fd peer news) (inv : Inv handler S (e :: rest))
    (untouched : ∀ later ∈ rest, later.fd ≠ fd) : Inv handler S' rest := by
  constructor
  · exact turn.sound
  · intro other listening
    have differ : other ≠ fd := by
      rintro rfl
      rcases turn.now with closed | ⟨connected, -⟩
      · simp [closed] at listening
      · simp [connected] at listening
    rw [turn.sockets differ] at listening
    rw [turn.connList differ, turn.interest differ]
    exact inv.listener listening
  · intro other party here
    by_cases same : other = fd
    · subst same
      rcases turn.now with closed | ⟨connected, client⟩
      · simp [closed] at here
      · rw [connected] at here
        cases here
        exact client
    · rw [turn.sockets same] at here
      exact turn.client same here (inv.client here)
  · intro party
    by_cases same : party = peer
    · rw [same]
      exact turn.rounds
    · obtain ⟨phase, rounds⟩ := inv.rounds party
      refine ⟨phase, ?_⟩
      rw [Rounds, turn.events_other same]
      exact rounds
  · intro party young
    have counted := turn.counted
    have later := turn.later
    rw [turn.events_other (by omega)]
    exact inv.unborn (Nat.le_trans later young)
  · have before := inv.handed
    rw [turn.trace, receivedChunks, handedChunks, List.filterMap_append, List.filterMap_append]
    exact congrArg₂ _ before turn.handed
  · have once := inv.once
    rw [List.map_cons, List.nodup_cons] at once
    exact once.2
  · intro later member
    rw [turn.interest (untouched later member)]
    exact inv.registered later (List.mem_cons_of_mem _ member)

end Invariant

section Turns

variable {σ : Type} {handler : Handler σ} {S : Server σ} {batch : List Ready} {fd peer : Nat}

theorem Inv.alone (inv : Inv handler S batch)
    (here : S.kernel.sockets fd = some (.connected peer)) {other : Nat} (differ : other ≠ fd) :
    S.kernel.sockets other ≠ some (.connected peer) :=
  fun there => differ (inv.sound.distinct there here)

theorem recvCb_data_turn (inv : Inv handler S batch) (returns : ReturnsLength handler)
    (here : S.kernel.sockets fd = some (.connected peer))
    (waiting : Rounds handler S peer .waiting) (watched : (S.kernel.interest fd).isSome)
    {chunk : List UInt8} (received : 0 < chunk.length) (fits : chunk.length ≤ bufferLength) :
    Turn handler S (recvCb handler S fd (.data chunk)) fd peer
      [.received chunk, .handled (chunkCall S fd chunk)] := by
  have client := inv.client here
  have only : (chunkCall S fd chunk).TakesOnly chunk := ⟨rfl, rfl⟩
  have length : (chunkCall S fd chunk).length = chunk.length := rfl
  obtain ⟨positive, -⟩ := returns (chunkCall S fd chunk) (by omega) (by omega)
  have rounds : Course (Next handler Call.TakesOnly False) .unborn
      (eventsOf peer S.trace ++ [.received chunk] ++ [.handled (chunkCall S fd chunk)])
      (.answering ((chunkCall S fd chunk).reply handler)) :=
    (waiting.snoc .receive).snoc (.handle only)
  have history : eventsOf peer (S.trace ++
      [(peer, .received chunk), (peer, .handled (chunkCall S fd chunk))]) =
      eventsOf peer S.trace ++ [.received chunk] ++ [.handled (chunkCall S fd chunk)] := by
    simp [eventsOf]
  rw [recvCb_data here watched]
  constructor
  · exact inv.sound.interest _ (by simp [here])
  · intro other differ
    rfl
  · intro other differ
    simp [Function.update_of_ne differ]
  · intro other differ
    simp [Function.update_of_ne differ]
  · rfl
  · exact Nat.le_refl _
  · exact inv.sound.numbered here
  · intro other differ
    exact inv.alone here differ
  · refine .inr ⟨here, client.small, ?_, ?_, .inr ⟨?_, ?_, ?_⟩⟩
    · simpa using client.recvCallback
    · simpa using client.sendCallback
    · simp
    · simpa using positive
    · simpa [Rounds, history, Call.reply] using rounds
  · rw [← history] at rounds
    exact ⟨_, rounds⟩
  · simp [receivedChunks, handedChunks, (only.takes fits).bytes_eq]

theorem recvCb_end_turn (inv : Inv handler S batch)
    (here : S.kernel.sockets fd = some (.connected peer))
    (waiting : Rounds handler S peer .waiting) {result : Recv}
    (noData : ∀ chunk, result ≠ .data chunk) :
    Turn handler S (recvCb handler S fd result) fd peer [.closed] := by
  rw [recvCb_end here noData]
  constructor
  · exact inv.sound.close
  · intro other differ
    simp [Kernel.close, Function.update_of_ne differ]
  · intro other differ
    simp [Kernel.close, Function.update_of_ne differ]
  · intro other differ
    simp [Function.update_of_ne differ]
  · rfl
  · exact Nat.le_refl _
  · exact inv.sound.numbered here
  · intro other differ
    exact inv.alone here differ
  · exact .inl (by simp [Kernel.close])
  · refine ⟨.over, ?_⟩
    rw [Rounds, eventsOf_own]
    exact waiting.snoc .close
  · rfl

theorem sendCb_turn (inv : Inv handler S batch)
    (here : S.kernel.sockets fd = some (.connected peer))
    (watched : (S.kernel.interest fd).isSome) (pending : 0 < (S.connList fd).wlength)
    (answering : Rounds handler S peer
      (.answering ((S.connList fd).wbuffer.front (S.connList fd).wlength.toNat))) :
    Turn handler S (sendCb S fd) fd peer
      [.sent ((S.connList fd).wbuffer.front (S.connList fd).wlength.toNat)] := by
  have client := inv.client here
  have rounds := answering.snoc Next.send
  rw [sendCb_pending here watched (by omega)]
  constructor
  · exact inv.sound.interest _ (by simp [here])
  · intro other differ
    rfl
  · intro other differ
    simp [Function.update_of_ne differ]
  · intro other differ
    rfl
  · rfl
  · exact Nat.le_refl _
  · exact inv.sound.numbered here
  · intro other differ
    exact inv.alone here differ
  · refine .inr ⟨here, client.small, client.recvCallback, client.sendCallback, .inl ⟨?_, ?_⟩⟩
    · simp
    · rw [Rounds, eventsOf_own]
      exact rounds
  · refine ⟨.waiting, ?_⟩
    rw [Rounds, eventsOf_own]
    exact rounds
  · rfl

theorem acceptCb_turn (inv : Inv handler S batch) {clientfd : Int} (valid : 0 ≤ clientfd)
    (closed : S.kernel.sockets clientfd.toNat = none) (small : clientfd.toNat < connectionSize) :
    ∃ S', acceptCb S clientfd = some S' ∧
      Turn handler S S' clientfd.toNat S.kernel.accepted [.accepted] := by
  have sound : S.kernel.Sound := inv.sound
  have rounds : Course (Next handler Call.TakesOnly False) .unborn
      (eventsOf S.kernel.accepted (S.trace ++ [(S.kernel.accepted, .accepted)])) .waiting := by
    rw [eventsOf_own, inv.unborn (Nat.le_refl _)]
    exact Course.empty.snoc .accept
  have connected : (S.kernel.accept clientfd.toNat).sockets clientfd.toNat =
      some (.connected S.kernel.accepted) := Kernel.accept_self
  refine ⟨_, acceptCb_fd sound valid closed small, ?_⟩
  constructor
  · exact sound.accept.interest _ (by simp [Kernel.accept_self])
  · intro other differ
    exact Kernel.accept_other differ
  · intro other differ
    simp [Function.update_of_ne differ]
  · intro other differ
    simp [Function.update_of_ne differ]
  · rfl
  · exact Nat.le_succ _
  · exact Nat.lt_succ_self _
  · intro other differ there
    exact absurd (sound.numbered there) (Nat.lt_irrefl _)
  · refine .inr ⟨connected, small, ?_, ?_, .inl ⟨?_, rounds⟩⟩
    · simp [freshConn]
    · simp [freshConn]
    · simp
  · exact ⟨.waiting, rounds⟩
  · rfl

end Turns

section Steps

variable {σ : Type} {handler : Handler σ} {S : Server σ} {e : Ready} {rest : List Ready}
  {answers : Answers}

/-- A reported descriptor is open, and nothing else of the report is about it. -/
theorem Inv.reported (inv : Inv handler S (e :: rest)) :
    S.kernel.sockets e.fd ≠ none ∧ ∀ later ∈ rest, later.fd ≠ e.fd := by
  obtain ⟨mask, present, -⟩ := inv.registered e (by simp)
  have once := inv.once
  rw [List.map_cons, List.nodup_cons] at once
  constructor
  · intro closed
    simp [inv.sound.watched closed] at present
  · intro later member same
    exact once.1 (same ▸ List.mem_map_of_mem member)

theorem Inv.skip (inv : Inv handler S (e :: rest)) : Inv handler S rest := by
  obtain ⟨sound, listener, client, rounds, unborn, handed, once, registered⟩ := inv
  rw [List.map_cons, List.nodup_cons] at once
  exact ⟨sound, listener, client, rounds, unborn, handed, once.2,
    fun later member => registered later (List.mem_cons_of_mem _ member)⟩

theorem dispatch_listener (inv : Inv handler S (e :: rest))
    (admissible : answers.Admissible S.kernel)
    (here : S.kernel.sockets e.fd = some .listening) :
    ∃ S', dispatch handler answers S e = some S' ∧ Inv handler S' rest := by
  obtain ⟨small, callback, readable⟩ := inv.listener here
  obtain ⟨mask, present, within⟩ := inv.registered e (by simp)
  obtain rfl : Mask.readable = mask := Option.some.inj (readable.symm.trans present)
  have noOut : e.events.epollout = false := by
    simpa [Mask.readable] using within.2
  cases hasIn : e.events.epollin with
  | false => exact ⟨S, by simp [dispatch, Nat.not_le.mpr small, hasIn, noOut], inv.skip⟩
  | true =>
      have same : dispatch handler answers S e = acceptCb S answers.accept := by
        simp [dispatch, Nat.not_le.mpr small, hasIn, noOut, callback, runCallback]
      rw [same]
      by_cases valid : 0 ≤ answers.accept
      · obtain ⟨closed, inTable⟩ := admissible.accept valid
        obtain ⟨S', result, turn⟩ := acceptCb_turn inv valid closed inTable
        refine ⟨S', result, turn.inv inv ?_⟩
        intro later member same
        obtain ⟨mask, watched, -⟩ := inv.registered later (List.mem_cons_of_mem _ member)
        simp [same, inv.sound.watched closed] at watched
      · refine ⟨S, ?_, inv.skip⟩
        rw [acceptCb, if_pos (by omega)]

theorem dispatch_client (returns : ReturnsLength handler) (inv : Inv handler S (e :: rest))
    (admissible : answers.Admissible S.kernel) {peer : Nat}
    (here : S.kernel.sockets e.fd = some (.connected peer)) :
    ∃ S', dispatch handler answers S e = some S' ∧ Inv handler S' rest := by
  have client : Client handler S e.fd peer := inv.client here
  obtain ⟨mask, present, within⟩ := inv.registered e (by simp)
  have inTable := Nat.not_le.mpr client.small
  have watched : (S.kernel.interest e.fd).isSome := by
    simp [present]
  rcases client.stands with ⟨readable, waiting⟩ | ⟨writable, pending, answering⟩
  · obtain rfl : Mask.readable = mask := Option.some.inj (readable.symm.trans present)
    have noOut : e.events.epollout = false := by
      simpa [Mask.readable] using within.2
    cases hasIn : e.events.epollin with
    | false => exact ⟨S, by simp [dispatch, inTable, hasIn, noOut], inv.skip⟩
    | true =>
        refine ⟨recvCb handler S e.fd answers.recv, ?_, ?_⟩
        · simp [dispatch, inTable, hasIn, noOut, client.recvCallback, runCallback]
        · by_cases data : ∃ chunk, answers.recv = .data chunk
          · obtain ⟨chunk, same⟩ := data
            obtain ⟨received, fits⟩ := admissible.recv chunk same
            rw [same]
            exact (recvCb_data_turn inv returns here waiting watched received fits).inv inv
              inv.reported.2
          · have noData : ∀ chunk, answers.recv ≠ .data chunk := not_exists.mp data
            exact (recvCb_end_turn inv here waiting noData).inv inv inv.reported.2
  · obtain rfl : Mask.writable = mask := Option.some.inj (writable.symm.trans present)
    have noIn : e.events.epollin = false := by
      simpa [Mask.writable] using within.1
    cases hasOut : e.events.epollout with
    | false => exact ⟨S, by simp [dispatch, inTable, hasOut, noIn], inv.skip⟩
    | true =>
        refine ⟨sendCb S e.fd, ?_, ?_⟩
        · simp [dispatch, inTable, hasOut, noIn, client.sendCallback, runCallback]
        · exact (sendCb_turn inv here watched pending answering).inv inv inv.reported.2

/-- Every reported event is handled without a fault, and the invariant stays. -/
theorem dispatch_inv (returns : ReturnsLength handler) (inv : Inv handler S (e :: rest))
    (admissible : answers.Admissible S.kernel) :
    ∃ S', dispatch handler answers S e = some S' ∧ Inv handler S' rest := by
  cases here : S.kernel.sockets e.fd with
  | none => exact absurd here inv.reported.1
  | some socket =>
      cases socket with
      | listening => exact dispatch_listener inv admissible here
      | connected peer => exact dispatch_client returns inv admissible here

theorem reactorStart_inv {sockfd : Nat} (store : σ) (small : sockfd < connectionSize) :
    Inv handler (reactorStart sockfd store) [] := by
  have only : ∀ {fd : Nat} {socket : Socket},
      (reactorStart sockfd store).kernel.sockets fd = some socket →
      fd = sockfd ∧ socket = .listening := by
    intro fd socket here
    by_cases same : fd = sockfd
    · exact ⟨same, by simpa [reactorStart, setEvent, Server.setConn, Kernel.epollAdd, same,
        eq_comm] using here⟩
    · simp [reactorStart, setEvent, Server.setConn, Kernel.epollAdd, same] at here
  constructor
  · constructor
    · intro fd peer here
      cases (only here).2
    · intro fd other peer here
      cases (only here).2
    · intro fd closed
      by_cases same : fd = sockfd
      · simp [reactorStart, setEvent, Server.setConn, Kernel.epollAdd, same] at closed
      · simp [reactorStart, setEvent, Server.setConn, Kernel.epollAdd, same]
  · intro fd here
    obtain ⟨rfl, -⟩ := only here
    refine ⟨small, ?_, ?_⟩ <;> simp [reactorStart, setEvent, Server.setConn, Kernel.epollAdd]
  · intro fd peer here
    cases (only here).2
  · intro peer
    exact ⟨.unborn, .empty⟩
  · intro peer young
    rfl
  · rfl
  · exact List.nodup_nil
  · intro e member
    cases member

theorem Step.inv {L L' : Loop σ} (returns : ReturnsLength handler)
    (inv : Inv handler L.server L.batch) (step : Step handler L L') :
    Inv handler L'.server L'.batch := by
  cases step with
  | wait reported =>
      obtain ⟨sound, listener, client, rounds, unborn, handed, -, -⟩ := inv
      exact ⟨sound, listener, client, rounds, unborn, handed, reported.once, reported.registered⟩
  | event admissible result =>
      obtain ⟨S', same, after⟩ := dispatch_inv returns inv admissible
      rw [result] at same
      cases same
      exact after

theorem Reachable.inv {L : Loop σ} (returns : ReturnsLength handler)
    (reachable : Reachable handler L) : Inv handler L.server L.batch := by
  induction reachable with
  | start small => exact reactorStart_inv _ small
  | step _ step ih => exact Step.inv returns ih step

end Steps

section Served

variable {σ : Type} {handler : Handler σ} {L : Loop σ}

/-- A reported event never meets a null callback or an entry outside the table. -/
theorem dispatch_defined (returns : ReturnsLength handler) (reachable : Reachable handler L)
    {e : Ready} {rest : List Ready} (next : L.batch = e :: rest) {answers : Answers}
    (admissible : answers.Admissible L.server.kernel) :
    (dispatch handler answers L.server e).isSome := by
  have inv := reachable.inv returns
  rw [next] at inv
  obtain ⟨S', result, -⟩ := dispatch_inv returns inv admissible
  rw [result]
  rfl

/-- What the front end owes its clients, over all that has happened so far. -/
structure Served (handler : Handler σ) (S : Server σ) : Prop where
  /-- Every chunk went to the handler once, in the order of the receives. -/
  handed : receivedChunks S.trace = handedChunks S.trace
  /-- Between two receives on one connection stands one send, of the first one's reply. -/
  between : ∀ {peer before first between second after},
    eventsOf peer S.trace = before ++ .received first :: (between ++ .received second :: after) →
    (∀ chunk, .received chunk ∉ between) →
    ∃ call, call.TakesOnly first ∧ between = [.handled call, .sent (call.reply handler)]
  /-- What is sent on a connection is the reply to the chunk last received on it. -/
  own : ∀ {peer before bytes after}, eventsOf peer S.trace = before ++ .sent bytes :: after →
    ∃ earlier chunk call, before = earlier ++ [.received chunk, .handled call] ∧
      call.TakesOnly chunk ∧ bytes = call.reply handler
  /-- A reply that is not sent yet lies in the connection's own buffer. -/
  pending : ∀ {fd peer earlier call}, S.kernel.sockets fd = some (.connected peer) →
    eventsOf peer S.trace = earlier ++ [.handled call] →
    S.kernel.interest fd = some .writable ∧
      (S.connList fd).wbuffer.front (S.connList fd).wlength.toNat = call.reply handler

theorem Inv.pending {S : Server σ} {batch : List Ready} (inv : Inv handler S batch)
    {fd peer : Nat} {earlier : List (Event σ)} {call : Call σ}
    (here : S.kernel.sockets fd = some (.connected peer))
    (last : eventsOf peer S.trace = earlier ++ [.handled call]) :
    S.kernel.interest fd = some .writable ∧
      (S.connList fd).wbuffer.front (S.connList fd).wlength.toNat = call.reply handler := by
  rcases (inv.client here).stands with ⟨-, waiting⟩ | ⟨writable, -, answering⟩
  · rw [Rounds, last] at waiting
    obtain ⟨before, -, step⟩ := waiting.last
    cases step
  · obtain ⟨prior, chunk, own, split, -, same, -⟩ := course_answering answering
    rw [last] at split
    obtain ⟨-, sameCall⟩ := List.append_inj' split rfl
    cases sameCall
    exact ⟨writable, same⟩

/-- In every run, each chunk is handled once and answered once. -/
theorem reactor_serves (returns : ReturnsLength handler) (reachable : Reachable handler L) :
    Served handler L.server := by
  have inv := reachable.inv returns
  constructor
  · exact inv.handed
  · intro peer before first between second after split noReceive
    obtain ⟨phase, rounds⟩ := inv.rounds peer
    rw [Rounds, split] at rounds
    exact course_between rounds noReceive
  · intro peer before bytes after split
    obtain ⟨phase, rounds⟩ := inv.rounds peer
    rw [Rounds, split] at rounds
    exact course_sent rounds
  · intro fd peer earlier call here last
    exact inv.pending here last

/-- One report of one event, and its handling. -/
theorem Reachable.event {S S' : Server σ} (fd : Nat) (mask : Mask) (answers : Answers)
    (reachable : Reachable handler ⟨S, []⟩) (registered : S.kernel.interest fd = some mask)
    (admissible : answers.Admissible S.kernel)
    (result : dispatch handler answers S ⟨fd, mask⟩ = some S') :
    Reachable handler ⟨S', []⟩ := by
  have reported : Reported S.kernel [⟨fd, mask⟩] := by
    refine ⟨by simp [maxEvents], by simp, ?_⟩
    intro e member
    obtain rfl := List.mem_singleton.mp member
    exact ⟨mask, registered, id, id⟩
  exact (reachable.step (.wait reported)).step (.event admissible result)

theorem admissible_accept {K : Kernel} {fd : Nat} (closed : K.sockets fd = none)
    (small : fd < connectionSize) : (⟨fd, .failed⟩ : Answers).Admissible K :=
  ⟨fun _ => ⟨closed, small⟩, fun chunk same => by cases same⟩

theorem admissible_recv {K : Kernel} {result : Recv}
    (fits : ∀ chunk, result = .data chunk → 0 < chunk.length ∧ chunk.length ≤ bufferLength) :
    (⟨-1, result⟩ : Answers).Admissible K :=
  ⟨fun valid => by simp at valid, fits⟩

/-- A client is served twice and leaves; another gets its descriptor. -/
theorem reactor_serves_echo : ∃ L : Loop Unit, Reachable echo L ∧
    receivedChunks L.server.trace = [(0, [65]), (0, [66]), (1, [67])] ∧
    Served echo L.server := by
  have short : ∀ letter : UInt8, ∀ chunk, Recv.data [letter] = .data chunk →
      0 < chunk.length ∧ chunk.length ≤ bufferLength := by
    intro letter chunk same
    cases same
    simp [bufferLength]
  have start : Reachable echo ⟨reactorStart 3 (), []⟩ := .start (by decide)
  have accepted := start.event 3 .readable ⟨5, .failed⟩ rfl
    (admissible_accept rfl (by decide)) rfl
  have first := accepted.event 5 .readable ⟨-1, .data [65]⟩ rfl
    (admissible_recv (short 65)) rfl
  have firstSent := first.event 5 .writable ⟨-1, .failed⟩ rfl (admissible_recv (by simp)) rfl
  have second := firstSent.event 5 .readable ⟨-1, .data [66]⟩ rfl
    (admissible_recv (short 66)) rfl
  have secondSent := second.event 5 .writable ⟨-1, .failed⟩ rfl (admissible_recv (by simp)) rfl
  have left := secondSent.event 5 .readable ⟨-1, .disconnected⟩ rfl
    (admissible_recv (by simp)) rfl
  have reused := left.event 3 .readable ⟨5, .failed⟩ rfl (admissible_accept rfl (by decide)) rfl
  have third := reused.event 5 .readable ⟨-1, .data [67]⟩ rfl (admissible_recv (short 67)) rfl
  exact ⟨_, third, rfl, reactor_serves echo_returns third⟩

end Served

end LinuxCpp.Net.Reactor
