import LinuxCpp.Trace.Descent
import LinuxCpp.Ustack.Sessions

set_option autoImplicit false

/- The course of visits to the echo server, one after another: where a visit can be, and
how many moves are left. -/
namespace LinuxCpp.Ustack

open C Trace

section Shapes

/-- Chunks that are not empty, and that one call of `nrecv` can read with a byte of the
buffer to spare. -/
def Session.Proper (s : Session) : Prop :=
  ∀ chunk ∈ s.chunks, chunk ≠ [] ∧ chunk.length < bufferSize

instance (s : Session) : Decidable s.Proper := by
  unfold Session.Proper
  infer_instance

/-- The moves that a visit takes: six to open and accept the connection, eight for each
chunk and nine to close. -/
def Session.cost (s : Session) : Nat := 15 + 8 * s.chunks.length

def costs (sessions : List Session) : Nat := (sessions.map Session.cost).sum

theorem costs_cons (s : Session) (later : List Session) :
    costs (s :: later) = 15 + 8 * s.chunks.length + costs later := by
  rw [costs, List.map_cons, List.sum_cons]
  rfl

/-- The visit before is over, or its last acknowledgement is under way. -/
inductive Departs (L : Stream) (n : Net) : List Segment → Nat → Prop
  | gone (free : Free L n) : Departs L n [] 0
  | last {s : Session} {sndNxt rcvNxt seq ack : UInt32}
      (linked : Linked L n s 4 false .lastAck sndNxt rcvNxt [] [] 0) :
      Departs L n [s.segment seq ack tcpAckFlag []] 1

/-- The application waits for the connection, or for its bytes. -/
inductive Attends : App → Int → Bool → Nat → Prop
  | accepting : Attends .accepting (-1) false 1
  | receiving {buff : List UInt8} (ended : Ended buff) : Attends (.receiving 4 buff) 4 true 0

/-- The acknowledgement of the handshake has arrived, or it is the first on its way. -/
inductive Shakes (s : Session) : Status → List Segment → Nat → Prop
  | done : Shakes s .established [] 0
  | pending (seq ack : UInt32) : Shakes s .synRcvd [s.segment seq ack tcpAckFlag []] 1

/-- In front of what is to come the acknowledgement is under way, or not any more. -/
inductive Acks (s : Session) (seq ack : UInt32) : List Fragment → Prop
  | done : Acks s seq ack []
  | pending : Acks s seq ack [answer s seq ack tcpAckFlag]

/-- A client that has sent its SYN. -/
structure Calls (c : Client) : Prop where
  phase : c.phase = .synSent
  proper : c.session.Proper
  todo : c.todo = c.session.chunks
  sent : c.sent = []
  got : c.got = []
  next : c.sndNxt = c.session.iss + 1

/-- A client with an open connection. -/
structure Opened (c : Client) : Prop where
  phase : c.phase = .opened
  whole : c.sent ++ c.todo.flatten = c.session.chunks.flatten
  proper : ∀ chunk ∈ c.todo, chunk ≠ [] ∧ chunk.length < bufferSize

/-- A client with an open connection that waits for a chunk to come back. -/
structure Owed (c : Client) (chunk : List UInt8) : Prop extends Opened c where
  some_ : chunk ≠ []
  fits : chunk.length < bufferSize
  owed : c.sent = c.got ++ chunk

/-- A client that has sent its FIN. -/
structure Parting (c : Client) : Prop where
  phase : c.phase = .finSent
  whole : c.got = c.session.chunks.flatten

/-- Where the visit is, with the moves left to it and to those to come. -/
inductive Stage (L : Stream) (n : Net) (left : Nat) : Prop
  | between {extra : Nat} (client : n.client = none) (app : n.app = .accepting)
      (departs : Departs L n n.toServer extra) (count : left = extra + costs n.later)
  | calling {c : Client} {before : List Segment} {extra : Nat} (client : n.client = some c)
      (calls : Calls c) (app : n.app = .accepting)
      (toServer : n.toServer = before ++ [c.session.segment c.session.iss 0 tcpSynFlag []])
      (departs : Departs L n before extra)
      (count : left = extra + 14 + 8 * c.todo.length + costs n.later)
  | answered {c : Client} {fd : Int} {taken : Bool} {asks moves : Nat} {isn : UInt32}
      (client : n.client = some c) (calls : Calls c) (toServer : n.toServer = [])
      (attends : Attends n.app fd taken asks)
      (linked : Linked L n c.session fd taken .synRcvd isn c.sndNxt
        [answer c.session isn c.sndNxt (tcpSynFlag ||| tcpAckFlag)] [] moves)
      (count : left = asks + moves + 10 + 8 * c.todo.length + costs n.later)
  | opened {c : Client} {fd : Int} {taken : Bool} {status : Status} {asks shake : Nat}
      {sndNxt : UInt32} (client : n.client = some c) (opened : Opened c) (back : c.got = c.sent)
      (shakes : Shakes c.session status n.toServer shake) (attends : Attends n.app fd taken asks)
      (linked : Linked L n c.session fd taken status sndNxt c.sndNxt [] [] 0)
      (count : left = asks + shake + 9 + 8 * c.todo.length + costs n.later)
  | chunkSent {c : Client} {fd : Int} {taken : Bool} {status : Status} {asks shake : Nat}
      {sndNxt rcvNxt seq : UInt32} {before : List Segment} {chunk : List UInt8}
      (client : n.client = some c) (owed : Owed c chunk)
      (next : c.sndNxt = rcvNxt + .ofNat chunk.length)
      (shakes : Shakes c.session status before shake)
      (toServer : n.toServer = before ++
        [c.session.segment seq c.rcvNxt (tcpPshFlag ||| tcpAckFlag) chunk])
      (attends : Attends n.app fd taken asks)
      (linked : Linked L n c.session fd taken status sndNxt rcvNxt [] [] 0)
      (count : left = asks + shake + 16 + 8 * c.todo.length + costs n.later)
  | chunkStored {c : Client} {fd : Int} {taken : Bool} {asks moves : Nat} {chunk : List UInt8}
      {out : List Fragment} (client : n.client = some c) (owed : Owed c chunk)
      (toServer : n.toServer = []) (attends : Attends n.app fd taken asks)
      (acks : Acks c.session c.rcvNxt c.sndNxt out)
      (linked : Linked L n c.session fd taken .established c.rcvNxt c.sndNxt out
        [stored c.session (some chunk) (.ofNat chunk.length)] moves)
      (count : left = asks + moves + 13 + 8 * c.todo.length + costs n.later)
  | chunkRead {c : Client} {moves : Nat} {chunk rest : List UInt8} {out : List Fragment}
      (client : n.client = some c) (owed : Owed c chunk) (toServer : n.toServer = [])
      (app : n.app = .sending 4 (chunk ++ rest) chunk.length) (ended : Ended (chunk ++ rest))
      (acks : Acks c.session c.rcvNxt c.sndNxt out)
      (linked : Linked L n c.session 4 true .established c.rcvNxt c.sndNxt out [] moves)
      (count : left = moves + 12 + 8 * c.todo.length + costs n.later)
  | chunkEchoed {c : Client} {moves : Nat} {chunk buff : List UInt8} {out : List Fragment}
      (client : n.client = some c) (owed : Owed c chunk) (toServer : n.toServer = [])
      (app : n.app = .receiving 4 buff) (ended : Ended buff)
      (acks : Acks c.session c.rcvNxt c.sndNxt out)
      (linked : Linked L n c.session 4 true .established c.rcvNxt c.sndNxt
        (out ++ [echo c.session c.rcvNxt c.sndNxt chunk]) [] moves)
      (count : left = moves + 9 + 8 * c.todo.length + costs n.later)
  | finSent {c : Client} {fd : Int} {taken : Bool} {status : Status} {asks shake : Nat}
      {sndNxt rcvNxt seq : UInt32} {before : List Segment}
      (client : n.client = some c) (parting : Parting c) (next : c.sndNxt = rcvNxt + 1)
      (shakes : Shakes c.session status before shake)
      (toServer : n.toServer = before ++
        [c.session.segment seq c.rcvNxt (tcpFinFlag ||| tcpAckFlag) []])
      (attends : Attends n.app fd taken asks)
      (linked : Linked L n c.session fd taken status sndNxt rcvNxt [] [] 0)
      (count : left = asks + shake + 8 + costs n.later)
  | finStored {c : Client} {fd : Int} {taken : Bool} {asks moves : Nat} {out : List Fragment}
      (client : n.client = some c) (parting : Parting c) (toServer : n.toServer = [])
      (attends : Attends n.app fd taken asks) (acks : Acks c.session c.rcvNxt c.sndNxt out)
      (linked : Linked L n c.session fd taken .closeWait c.rcvNxt c.sndNxt out
        [stored c.session none 0] moves)
      (count : left = asks + moves + 5 + costs n.later)
  | finRead {c : Client} {moves : Nat} {out : List Fragment}
      (client : n.client = some c) (parting : Parting c) (toServer : n.toServer = [])
      (app : n.app = .closing 4) (acks : Acks c.session c.rcvNxt c.sndNxt out)
      (linked : Linked L n c.session 4 true .closeWait c.rcvNxt c.sndNxt out [] moves)
      (count : left = moves + 4 + costs n.later)
  | closing {c : Client} {moves : Nat} {out : List Fragment}
      (client : n.client = some c) (parting : Parting c) (toServer : n.toServer = [])
      (app : n.app = .accepting) (acks : Acks c.session c.rcvNxt c.sndNxt out)
      (linked : Linked L n c.session 4 false .lastAck c.rcvNxt c.sndNxt
        (out ++ [answer c.session c.rcvNxt c.sndNxt (tcpFinFlag ||| tcpAckFlag)]) [] moves)
      (count : left = moves + 1 + costs n.later)

/-- Nobody is forgotten, and who has left got everything back. -/
structure Books (sessions : List Session) (n : Net) : Prop where
  all : n.finished.map Prod.fst ++ (n.client.toList.map Client.session ++ n.later) = sessions
  whole : ∀ visit ∈ n.finished, visit.2 = visit.1.chunks.flatten
  proper : ∀ s ∈ n.later, s.Proper
  refused : n.refused = 0

/-- The server is up, and the visits go their way. -/
structure Visits (L : Stream) (sessions : List Session) (n : Net) (left : Nat) : Prop where
  up : Up L n
  stage : Stage L n left
  books : Books sessions n

end Shapes

section Server

variable {L : Stream} {sessions : List Session} {n n' : Net} {left less : Nat}
  (mbufs : Nat) (entries : List ArpEntry)

theorem Books.current (books : Books sessions n) {c : Client} (client : n.client = some c) :
    c.session ∈ sessions := by
  rw [← books.all, client]
  simp

theorem Books.same (books : Books sessions n) (client : n'.client = n.client)
    (later : n'.later = n.later) (finished : n'.finished = n.finished)
    (refused : n'.refused = n.refused) : Books sessions n' where
  all := by
    rw [finished, client, later]
    exact books.all
  whole := by
    rw [finished]
    exact books.whole
  proper := by
    rw [later]
    exact books.proper
  refused := refused.trans books.refused

/-- Only the link has moved. -/
theorem Visits.passed (visits : Visits L sessions n left) (listenfd : n'.listenfd = n.listenfd)
    (heap : n'.heap = n.heap) (client : n'.client = n.client) (later : n'.later = n.later)
    (finished : n'.finished = n.finished) (refused : n'.refused = n.refused)
    (stage : Stage L n' less) : Visits L sessions n' less where
  up := visits.up.same listenfd heap
  stage := stage
  books := visits.books.same client later finished refused

theorem Visits.served (visits : Visits L sessions n left) {app : App} {toServer : List Segment}
    (serves : Serves n n' app toServer) (stage : Stage L n' less) : Visits L sessions n' less where
  up := visits.up.serves serves
  stage := stage
  books := visits.books.same serves.client serves.visits serves.finished serves.refused

theorem Acks.few {s : Session} {seq ack : UInt32} {out : List Fragment}
    (acks : Acks s seq ack out) : out.length < 2 := by
  cases acks with
  | done => exact Nat.zero_lt_two
  | pending => exact Nat.one_lt_two

theorem deliver_nothing (isn : UInt32) (nothing : n.toServer = []) :
    n.step mbufs entries (.deliver isn) = .ok n := by
  rw [Net.step]
  split
  case h_1 => rfl
  case h_2 way => cases nothing.symm.trans way

/-- A delivery takes the visit further, if there is one to make. -/
theorem Visits.deliver (visits : Visits L sessions n left) (isn : UInt32) :
    ∃ n', n.step mbufs entries (.deliver isn) = .ok n' ∧
      (n' = n ∧ n.toServer = [] ∨ ∃ less < left, Visits L sessions n' less) := by
  have up := visits.up
  cases visits.stage with
  | between client app departs count =>
      generalize way : n.toServer = segs at departs
      cases departs with
      | gone free => exact ⟨n, deliver_nothing mbufs entries isn way, .inl ⟨rfl, rfl⟩⟩
      | last linked =>
          obtain ⟨n', steps, serves, free⟩ := linked.takesLast mbufs entries isn way
          have departs : Departs L n' n'.toServer 0 := by
            rw [serves.toServer]
            exact .gone free
          refine ⟨n', steps, .inr ⟨_, ?_, visits.served serves (.between
            (serves.client.trans client) (serves.app.trans app) departs rfl)⟩⟩
          rw [serves.visits]
          omega
  | calling client calls app toServer departs count =>
      cases departs with
      | gone free =>
          obtain ⟨n', steps, serves, linked⟩ := free.takesSyn mbufs entries isn up toServer
          rw [← calls.next] at linked
          have attends : Attends n'.app (-1) false 1 := by
            rw [serves.app, app]
            exact .accepting
          refine ⟨n', steps, .inr ⟨_, ?_, visits.served serves (.answered
            (serves.client.trans client) calls serves.toServer attends linked rfl)⟩⟩
          rw [serves.visits]
          omega
      | last linked =>
          obtain ⟨n', steps, serves, free⟩ := linked.takesLast mbufs entries isn toServer
          refine ⟨n', steps, .inr ⟨_, ?_, visits.served serves (.calling
            (serves.client.trans client) calls (serves.app.trans app) serves.toServer
            (.gone free) rfl)⟩⟩
          rw [serves.visits]
          omega
  | opened client opened back shakes attends linked count =>
      generalize way : n.toServer = segs at shakes
      cases shakes with
      | done => exact ⟨n, deliver_nothing mbufs entries isn way, .inl ⟨rfl, rfl⟩⟩
      | pending seq ack =>
          obtain ⟨n', steps, serves, linked⟩ := linked.takesAck mbufs entries isn up way
          refine ⟨n', steps, .inr ⟨_, ?_, visits.served serves (.opened
            (serves.client.trans client) opened back (serves.toServer.symm ▸ Shakes.done)
            (serves.app ▸ attends) linked rfl)⟩⟩
          rw [serves.visits]
          omega
  | chunkSent client owed next shakes toServer attends linked count =>
      cases shakes with
      | done =>
          obtain ⟨n', steps, serves, linked⟩ := linked.takesData mbufs entries isn up (by decide)
            owed.some_ owed.fits.le toServer
          rw [← next] at linked
          refine ⟨n', steps, .inr ⟨_, ?_, visits.served serves (.chunkStored
            (serves.client.trans client) owed serves.toServer (serves.app ▸ attends) .pending
            linked rfl)⟩⟩
          rw [serves.visits]
          omega
      | pending seq ack =>
          obtain ⟨n', steps, serves, linked⟩ := linked.takesAck mbufs entries isn up toServer
          refine ⟨n', steps, .inr ⟨_, ?_, visits.served serves (.chunkSent
            (serves.client.trans client) owed next .done serves.toServer (serves.app ▸ attends)
            linked rfl)⟩⟩
          rw [serves.visits]
          omega
  | finSent client parting next shakes toServer attends linked count =>
      cases shakes with
      | done =>
          obtain ⟨n', steps, serves, linked⟩ := linked.takesFin mbufs entries isn up (by decide)
            toServer
          rw [← next] at linked
          refine ⟨n', steps, .inr ⟨_, ?_, visits.served serves (.finStored
            (serves.client.trans client) parting serves.toServer (serves.app ▸ attends) .pending
            linked rfl)⟩⟩
          rw [serves.visits]
          omega
      | pending seq ack =>
          obtain ⟨n', steps, serves, linked⟩ := linked.takesAck mbufs entries isn up toServer
          refine ⟨n', steps, .inr ⟨_, ?_, visits.served serves (.finSent
            (serves.client.trans client) parting next .done serves.toServer (serves.app ▸ attends)
            linked rfl)⟩⟩
          rw [serves.visits]
          omega
  | answered _ _ toServer | chunkStored _ _ toServer | chunkRead _ _ toServer
  | chunkEchoed _ _ toServer | finStored _ _ toServer | finRead _ _ toServer
  | closing _ _ toServer =>
      exact ⟨n, deliver_nothing mbufs entries isn toServer, .inl ⟨rfl, toServer⟩⟩

theorem Departs.waits {before : List Segment} {extra : Nat} (departs : Departs L n before extra)
    (up : Up L n) (app : n.app = .accepting) : n.step mbufs entries .app = .ok n := by
  cases departs with
  | gone free => exact free.waits mbufs entries up app
  | last linked => exact linked.waits mbufs entries up app

theorem Departs.still {before : List Segment} {extra : Nat} (departs : Departs L n before extra)
    (up : Up L n) : n.step mbufs entries .out = .ok n := by
  cases departs with
  | gone free => exact free.idles mbufs entries up
  | last linked => exact linked.still mbufs entries up

/-- Whoever waits for the connection has it after one call. -/
theorem Linked.attended {s : Session} {fd : Int} {taken : Bool} {status : Status}
    {sndNxt rcvNxt : UInt32} {out rcv : List Fragment} {moves asks : Nat}
    (linked : Linked L n s fd taken status sndNxt rcvNxt out rcv moves) (up : Up L n)
    (attends : Attends n.app fd taken asks) :
    (∃ buff, n.app = .receiving 4 buff ∧ Ended buff ∧ fd = 4 ∧ taken = true ∧ asks = 0) ∨
    ∃ n' buff, n.step mbufs entries .app = .ok n' ∧ Serves n n' (.receiving 4 buff) n.toServer ∧
      Attends n'.app 4 true 0 ∧ asks = 1 ∧
      Linked L n' s 4 true status sndNxt rcvNxt out rcv moves := by
  generalize app : n.app = doing at attends
  cases attends with
  | accepting =>
      obtain ⟨n', steps, serves, linked⟩ := linked.accepts mbufs entries up app
      have attends := serves.app.symm ▸ Attends.receiving ended_zeroed
      exact .inr ⟨n', _, steps, serves, attends, rfl, linked⟩
  | receiving ended => exact .inl ⟨_, rfl, ended, rfl, rfl, rfl⟩

/-- The application takes the visit further, or waits. -/
theorem Visits.app (visits : Visits L sessions n left) :
    ∃ n', n.step mbufs entries .app = .ok n' ∧
      (n' = n ∨ ∃ less < left, Visits L sessions n' less) := by
  have up := visits.up
  cases visits.stage with
  | between client app departs count => exact ⟨n, departs.waits mbufs entries up app, .inl rfl⟩
  | calling client calls app toServer departs count =>
      exact ⟨n, departs.waits mbufs entries up app, .inl rfl⟩
  | answered client calls toServer attends linked count =>
      obtain ⟨buff, app, ended, rfl, rfl, rfl⟩ | ⟨n', buff, steps, serves, attended, rfl, linked⟩ :=
        linked.attended mbufs entries up attends
      · exact ⟨n, linked.hungers mbufs entries app, .inl rfl⟩
      · refine ⟨n', steps, .inr ⟨_, ?_, visits.served serves (.answered
          (serves.client.trans client) calls (serves.toServer.trans toServer)
          attended linked rfl)⟩⟩
        rw [serves.visits]
        omega
  | opened client opened back shakes attends linked count =>
      obtain ⟨buff, app, ended, rfl, rfl, rfl⟩ | ⟨n', buff, steps, serves, attended, rfl, linked⟩ :=
        linked.attended mbufs entries up attends
      · exact ⟨n, linked.hungers mbufs entries app, .inl rfl⟩
      · refine ⟨n', steps, .inr ⟨_, ?_, visits.served serves (.opened
          (serves.client.trans client) opened back (serves.toServer.symm ▸ shakes)
          attended linked rfl)⟩⟩
        rw [serves.visits]
        omega
  | chunkSent client owed next shakes toServer attends linked count =>
      obtain ⟨buff, app, ended, rfl, rfl, rfl⟩ | ⟨n', buff, steps, serves, attended, rfl, linked⟩ :=
        linked.attended mbufs entries up attends
      · exact ⟨n, linked.hungers mbufs entries app, .inl rfl⟩
      · refine ⟨n', steps, .inr ⟨_, ?_, visits.served serves (.chunkSent
          (serves.client.trans client) owed next shakes (serves.toServer.trans toServer)
          attended linked rfl)⟩⟩
        rw [serves.visits]
        omega
  | chunkStored client owed toServer attends acks linked count =>
      obtain ⟨buff, app, ended, rfl, rfl, rfl⟩ | ⟨n', buff, steps, serves, attended, rfl, linked⟩ :=
        linked.attended mbufs entries up attends
      · obtain ⟨n', steps, serves, linked⟩ := linked.reads mbufs entries app ended owed.some_
          owed.fits
        refine ⟨n', steps, .inr ⟨_, ?_, visits.served serves (.chunkRead
          (serves.client.trans client) owed (serves.toServer.trans toServer) serves.app
          (ended.overwrite owed.fits) acks linked rfl)⟩⟩
        rw [serves.visits]
        omega
      · refine ⟨n', steps, .inr ⟨_, ?_, visits.served serves (.chunkStored
          (serves.client.trans client) owed (serves.toServer.trans toServer)
          attended acks linked rfl)⟩⟩
        rw [serves.visits]
        omega
  | chunkRead client owed toServer app ended acks linked count =>
      have few := acks.few
      obtain ⟨n', steps, serves, linked⟩ := linked.sends mbufs entries up
        app (by omega)
      rw [List.take_left] at linked
      refine ⟨n', steps, .inr ⟨_, ?_, visits.served serves (.chunkEchoed
        (serves.client.trans client) owed (serves.toServer.trans toServer) serves.app ended acks
        linked rfl)⟩⟩
      rw [serves.visits]
      omega
  | chunkEchoed client owed toServer app ended acks linked count =>
      exact ⟨n, linked.hungers mbufs entries app, .inl rfl⟩
  | finSent client parting next shakes toServer attends linked count =>
      obtain ⟨buff, app, ended, rfl, rfl, rfl⟩ | ⟨n', buff, steps, serves, attended, rfl, linked⟩ :=
        linked.attended mbufs entries up attends
      · exact ⟨n, linked.hungers mbufs entries app, .inl rfl⟩
      · refine ⟨n', steps, .inr ⟨_, ?_, visits.served serves (.finSent
          (serves.client.trans client) parting next shakes (serves.toServer.trans toServer)
          attended linked rfl)⟩⟩
        rw [serves.visits]
        omega
  | finStored client parting toServer attends acks linked count =>
      obtain ⟨buff, app, ended, rfl, rfl, rfl⟩ | ⟨n', buff, steps, serves, attended, rfl, linked⟩ :=
        linked.attended mbufs entries up attends
      · obtain ⟨n', steps, serves, linked⟩ := linked.ends mbufs entries app
        refine ⟨n', steps, .inr ⟨_, ?_, visits.served serves (.finRead
          (serves.client.trans client) parting (serves.toServer.trans toServer) serves.app acks
          linked rfl)⟩⟩
        rw [serves.visits]
        omega
      · refine ⟨n', steps, .inr ⟨_, ?_, visits.served serves (.finStored
          (serves.client.trans client) parting (serves.toServer.trans toServer)
          attended acks linked rfl)⟩⟩
        rw [serves.visits]
        omega
  | finRead client parting toServer app acks linked count =>
      have few := acks.few
      obtain ⟨n', steps, serves, linked⟩ := linked.closes mbufs entries up
        app (by omega)
      refine ⟨n', steps, .inr ⟨_, ?_, visits.served serves (.closing
        (serves.client.trans client) parting (serves.toServer.trans toServer) serves.app acks
        linked rfl)⟩⟩
      rw [serves.visits]
      omega
  | closing client parting toServer app acks linked count =>
      exact ⟨n, linked.waits mbufs entries up app, .inl rfl⟩

/-- A pass of the sender takes the visit further, or has nothing to pass on. -/
theorem Visits.out (visits : Visits L sessions n left) (room : 0 < mbufs)
    (known : ∀ s ∈ sessions, ngGetDstMacaddr entries s.ip ≠ none) :
    ∃ n', n.step mbufs entries .out = .ok n' ∧
      (n' = n ∨ ∃ less < left, Visits L sessions n' less) := by
  have up := visits.up
  have knows {c : Client} (client : n.client = some c) :
      ngGetDstMacaddr entries c.session.ip ≠ none := known _ (visits.books.current client)
  cases visits.stage with
  | between client app departs count => exact ⟨n, departs.still mbufs entries up, .inl rfl⟩
  | calling client calls app toServer departs count =>
      exact ⟨n, departs.still mbufs entries up, .inl rfl⟩
  | opened _ _ _ _ _ linked | chunkSent _ _ _ _ _ _ linked | finSent _ _ _ _ _ _ linked =>
      exact ⟨n, linked.still mbufs entries up, .inl rfl⟩
  | answered client calls toServer attends linked count =>
      obtain ⟨n', steps, ⟨rfl, -⟩ | ⟨w, link, rfl, -, fewer, rfl, passed⟩⟩ :=
        linked.passes mbufs entries up room (knows client)
      · exact ⟨n', steps, .inl rfl⟩
      · refine ⟨_, steps, .inr ⟨_, ?_, visits.passed rfl rfl rfl rfl rfl rfl
          (.answered client calls toServer attends passed rfl)⟩⟩
        dsimp only
        omega
  | chunkStored client owed toServer attends acks linked count =>
      obtain ⟨n', steps, ⟨rfl, -⟩ | ⟨w, link, rfl, -, fewer, rfl, passed⟩⟩ :=
        linked.passes mbufs entries up room (knows client)
      · exact ⟨n', steps, .inl rfl⟩
      · refine ⟨_, steps, .inr ⟨_, ?_, visits.passed rfl rfl rfl rfl rfl rfl
          (.chunkStored client owed toServer attends acks passed rfl)⟩⟩
        dsimp only
        omega
  | chunkRead client owed toServer app ended acks linked count =>
      obtain ⟨n', steps, ⟨rfl, -⟩ | ⟨w, link, rfl, -, fewer, rfl, passed⟩⟩ :=
        linked.passes mbufs entries up room (knows client)
      · exact ⟨n', steps, .inl rfl⟩
      · refine ⟨_, steps, .inr ⟨_, ?_, visits.passed rfl rfl rfl rfl rfl rfl
          (.chunkRead client owed toServer app ended acks passed rfl)⟩⟩
        dsimp only
        omega
  | chunkEchoed client owed toServer app ended acks linked count =>
      obtain ⟨n', steps, ⟨rfl, -⟩ | ⟨w, link, rfl, -, fewer, rfl, passed⟩⟩ :=
        linked.passes mbufs entries up room (knows client)
      · exact ⟨n', steps, .inl rfl⟩
      · refine ⟨_, steps, .inr ⟨_, ?_, visits.passed rfl rfl rfl rfl rfl rfl
          (.chunkEchoed client owed toServer app ended acks passed rfl)⟩⟩
        dsimp only
        omega
  | finStored client parting toServer attends acks linked count =>
      obtain ⟨n', steps, ⟨rfl, -⟩ | ⟨w, link, rfl, -, fewer, rfl, passed⟩⟩ :=
        linked.passes mbufs entries up room (knows client)
      · exact ⟨n', steps, .inl rfl⟩
      · refine ⟨_, steps, .inr ⟨_, ?_, visits.passed rfl rfl rfl rfl rfl rfl
          (.finStored client parting toServer attends acks passed rfl)⟩⟩
        dsimp only
        omega
  | finRead client parting toServer app acks linked count =>
      obtain ⟨n', steps, ⟨rfl, -⟩ | ⟨w, link, rfl, -, fewer, rfl, passed⟩⟩ :=
        linked.passes mbufs entries up room (knows client)
      · exact ⟨n', steps, .inl rfl⟩
      · refine ⟨_, steps, .inr ⟨_, ?_, visits.passed rfl rfl rfl rfl rfl rfl
          (.finRead client parting toServer app acks passed rfl)⟩⟩
        dsimp only
        omega
  | closing client parting toServer app acks linked count =>
      obtain ⟨n', steps, ⟨rfl, -⟩ | ⟨w, link, rfl, -, fewer, rfl, passed⟩⟩ :=
        linked.passes mbufs entries up room (knows client)
      · exact ⟨n', steps, .inl rfl⟩
      · refine ⟨_, steps, .inr ⟨_, ?_, visits.passed rfl rfl rfl rfl rfl rfl
          (.closing client parting toServer app acks passed rfl)⟩⟩
        dsimp only
        omega

end Server

end LinuxCpp.Ustack
