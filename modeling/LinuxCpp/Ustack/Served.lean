import LinuxCpp.Ustack.Stages

set_option autoImplicit false

/- What the clients do, and what comes of all moves together: every visitor gets back what
it sends, in whatever order the stack, the server and the clients take their turns. -/
namespace LinuxCpp.Ustack

open C Trace

section Clients

variable {L : Stream} {sessions : List Session} {n n' : Net} {c c' : Client} {left less : Nat}
  {chunk : List UInt8} (mbufs : Nat) (entries : List ArpEntry)

theorem Client.send_none (phase : c.phase ≠ .opened) : c.send = none :=
  if_neg fun ready => phase ready.1

theorem Owed.send (owed : Owed c chunk) : c.send = none := by
  refine if_neg fun ready => owed.some_ ?_
  have same := owed.owed
  rw [ready.2] at same
  exact List.self_eq_append_right.mp same

theorem client_nothing (client : n.client = some c) (waits : c.send = none) :
    n.step mbufs entries .client = .ok n := by
  rw [Net.step, client]
  simp only [waits]

theorem client_starts {s : Session} {rest : List Session} (client : n.client = none)
    (later : n.later = s :: rest) :
    n.step mbufs entries .client = .ok { n with
      client := some (Client.start s).1, toServer := n.toServer ++ [(Client.start s).2]
      later := rest } := by
  rw [Net.step, client]
  simp only [later]

theorem client_sends {seg : Segment} (client : n.client = some c)
    (sends : c.send = some (c', seg)) :
    n.step mbufs entries .client =
      .ok { n with client := some c', toServer := n.toServer ++ [seg] } := by
  rw [Net.step, client]
  simp only [sends]

theorem Departs.same {before : List Segment} {extra : Nat} (departs : Departs L n before extra)
    (world : n'.world = n.world) (toClient : n'.toClient = n.toClient) :
    Departs L n' before extra := by
  cases departs with
  | gone free => exact .gone (free.same world toClient)
  | last linked => exact .last (linked.same world toClient)

/-- The client sends when it is its turn to. -/
theorem Visits.client (visits : Visits L sessions n left) :
    ∃ n', n.step mbufs entries .client = .ok n' ∧
      (n' = n ∧ ¬ (n.client = none ∧ n.later ≠ []) ∧ (∀ c, n.client = some c → c.send = none) ∨
        ∃ less < left, Visits L sessions n' less) := by
  have waits {c : Client} (client : n.client = some c) (none_ : c.send = none) :
      ∃ n', n.step mbufs entries .client = .ok n' ∧
        (n' = n ∧ ¬ (n.client = none ∧ n.later ≠ []) ∧ (∀ c, n.client = some c → c.send = none) ∨
          ∃ less < left, Visits L sessions n' less) := by
    refine ⟨n, client_nothing mbufs entries client none_, .inl ⟨rfl, ?_, ?_⟩⟩
    · rintro ⟨nobody, -⟩
      cases client.symm.trans nobody
    · intro other same
      cases client.symm.trans same
      exact none_
  cases visits.stage with
  | between client app departs count =>
      cases later : n.later with
      | nil =>
          refine ⟨n, by rw [Net.step, client]; simp only [later], .inl ⟨rfl, ?_, ?_⟩⟩
          · rintro ⟨-, some_⟩
            exact some_ rfl
          · intro c same
            cases client.symm.trans same
      | cons s rest =>
          rw [later, costs_cons] at count
          have all := visits.books.all
          have proper := visits.books.proper
          rw [client, later] at all
          rw [later] at proper
          refine ⟨_, client_starts mbufs entries client later, .inr ⟨_, ?_,
            visits.up.same rfl rfl, .calling rfl ⟨rfl, proper s (List.mem_cons_self ..), rfl, rfl,
              rfl, rfl⟩ app rfl (departs.same rfl rfl) rfl,
            ⟨all, visits.books.whole, fun s isIn => proper s (List.mem_cons_of_mem _ isIn),
              visits.books.refused⟩⟩⟩
          simp only [Client.start]
          omega
  | opened client opened back shakes attends linked count =>
      rename_i c fd taken status asks shake sndNxt
      have all := visits.books.all
      rw [client] at all
      cases todo : c.todo with
      | nil =>
          have sends : c.send = some ({ c with phase := .finSent, sndNxt := c.sndNxt + 1 },
              c.segment (tcpFinFlag ||| tcpAckFlag) []) := by
            rw [Client.send, if_pos ⟨opened.phase, back⟩, todo]
          have whole : c.got = c.session.chunks.flatten := by
            rw [back, ← opened.whole, todo, List.flatten_nil, List.append_nil]
          refine ⟨_, client_sends mbufs entries client sends, .inr ⟨_, ?_,
            visits.up.same rfl rfl, .finSent rfl ⟨rfl, whole⟩ rfl shakes rfl attends
              (linked.same rfl rfl) rfl,
            ⟨all, visits.books.whole, visits.books.proper, visits.books.refused⟩⟩⟩
          dsimp only
          omega
      | cons chunk todo' =>
          have sends : c.send = some ({ c with
                todo := todo', sent := c.sent ++ chunk, sndNxt := c.sndNxt + .ofNat chunk.length },
              c.segment (tcpPshFlag ||| tcpAckFlag) chunk) := by
            rw [Client.send, if_pos ⟨opened.phase, back⟩, todo]
          have proper := opened.proper
          have whole := opened.whole
          rw [todo] at proper whole count
          rw [List.flatten_cons, ← List.append_assoc] at whole
          obtain ⟨some_, fits⟩ := proper chunk (List.mem_cons_self ..)
          refine ⟨_, client_sends mbufs entries client sends, .inr ⟨_, ?_,
            visits.up.same rfl rfl, .chunkSent rfl
              ⟨⟨opened.phase, whole, fun other isIn => proper other (List.mem_cons_of_mem _ isIn)⟩,
                some_, fits, congrArg (· ++ chunk) back.symm⟩ rfl shakes rfl attends
              (linked.same rfl rfl) rfl,
            ⟨all, visits.books.whole, visits.books.proper, visits.books.refused⟩⟩⟩
          rw [List.length_cons] at count
          dsimp only
          omega
  | calling client calls | answered client calls =>
      refine waits client (Client.send_none ?_)
      rw [calls.phase]
      decide
  | chunkSent client owed | chunkStored client owed | chunkRead client owed
  | chunkEchoed client owed => exact waits client owed.send
  | finSent client parting | finStored client parting | finRead client parting
  | closing client parting =>
      refine waits client (Client.send_none ?_)
      rw [parting.phase]
      decide

end Clients

section Receive

variable {L : Stream} {sessions : List Session} {n n' : Net} {c c' : Client} {left less : Nat}
  {chunk : List UInt8} {f : Fragment} {rest : List Fragment}
  (mbufs : Nat) (entries : List ArpEntry)

theorem receive_nothing (link : n.toClient = []) : n.step mbufs entries .receive = .ok n := by
  rw [Net.step]
  split
  case h_1 some_ _ => cases link.symm.trans some_
  case h_2 some_ _ => cases link.symm.trans some_
  case h_3 => rfl

theorem receive_takes {reply : Option Segment} (client : n.client = some c)
    (link : n.toClient = f :: rest) (takes : c.receive f = .takes c' reply) :
    n.step mbufs entries .receive = .ok { n with
      toClient := rest, client := some c', toServer := n.toServer ++ reply.toList } := by
  rw [Net.step, link, client]
  simp only [takes]

theorem receive_ends {reply : Segment} (client : n.client = some c)
    (link : n.toClient = f :: rest) (ends : c.receive f = .ends c' reply) :
    n.step mbufs entries .receive = .ok { n with
      toClient := rest, client := none, toServer := n.toServer ++ [reply]
      finished := n.finished ++ [(c'.session, c'.got)] } := by
  rw [Net.step, link, client]
  simp only [ends]

theorem Calls.receive (calls : Calls c) (isn : UInt32) :
    c.receive (answer c.session isn c.sndNxt (tcpSynFlag ||| tcpAckFlag)) =
      .takes { c with phase := .opened, rcvNxt := isn + 1 }
        (some (c.session.segment c.sndNxt (isn + 1) tcpAckFlag [])) := by
  rw [Client.receive, calls.phase]
  exact if_pos ⟨rfl, rfl⟩

theorem Client.receive_open (phase : c.phase ≠ .synSent) (next : f.seqnum = c.rcvNxt)
    (acks : f.acknum = c.sndNxt) (goes : f.tcpFlags &&& tcpFinFlag = 0) :
    c.receive f =
      .takes { c with rcvNxt := c.rcvNxt + f.length, got := c.got ++ f.bytes } none := by
  rw [Client.receive]
  split
  case h_1 same => exact absurd same phase
  case h_2 => rw [if_pos ⟨next, acks⟩, if_pos goes]

/-- An acknowledgement brings no bytes. -/
theorem Client.receive_ack (phase : c.phase ≠ .synSent) :
    c.receive (answer c.session c.rcvNxt c.sndNxt tcpAckFlag) = .takes c none := by
  have goes : (answer c.session c.rcvNxt c.sndNxt tcpAckFlag).tcpFlags &&& tcpFinFlag = 0 := by
    change tcpAckFlag &&& tcpFinFlag = 0
    decide
  rw [Client.receive_open phase rfl rfl goes]
  have none_ : (answer c.session c.rcvNxt c.sndNxt tcpAckFlag).bytes = [] := rfl
  have zero : c.rcvNxt + (answer c.session c.rcvNxt c.sndNxt tcpAckFlag).length = c.rcvNxt :=
    UInt32.add_zero _
  rw [none_, zero, List.append_nil]

theorem Owed.receive (owed : Owed c chunk) :
    c.receive (echo c.session c.rcvNxt c.sndNxt chunk) =
      .takes { c with rcvNxt := c.rcvNxt + .ofNat chunk.length, got := c.sent } none := by
  have goes : (echo c.session c.rcvNxt c.sndNxt chunk).tcpFlags &&& tcpFinFlag = 0 := by
    change (tcpAckFlag ||| tcpPshFlag) &&& tcpFinFlag = 0
    decide
  have phase : c.phase ≠ .synSent := by
    rw [owed.phase]
    decide
  rw [Client.receive_open phase rfl rfl goes, owed.owed]
  rfl

theorem Parting.receive (parting : Parting c) :
    c.receive (answer c.session c.rcvNxt c.sndNxt (tcpFinFlag ||| tcpAckFlag)) =
      .ends { c with rcvNxt := c.rcvNxt + 1 }
        (c.session.segment c.sndNxt (c.rcvNxt + 1) tcpAckFlag []) := by
  have bytes : (answer c.session c.rcvNxt c.sndNxt (tcpFinFlag ||| tcpAckFlag)).bytes = [] := rfl
  have length : c.rcvNxt + (answer c.session c.rcvNxt c.sndNxt (tcpFinFlag ||| tcpAckFlag)).length =
      c.rcvNxt := UInt32.add_zero _
  have fin : ¬ (answer c.session c.rcvNxt c.sndNxt (tcpFinFlag ||| tcpAckFlag)).tcpFlags &&&
      tcpFinFlag = 0 := by
    change ¬ (tcpFinFlag ||| tcpAckFlag) &&& tcpFinFlag = 0
    decide
  rw [Client.receive, parting.phase]
  simp only
  rw [if_pos ⟨rfl, rfl⟩, if_neg fin, length, bytes, List.append_nil]
  rfl

theorem Linked.none_left {s : Session} {fd : Int} {taken : Bool} {status : Status}
    {sndNxt rcvNxt : UInt32} {rcv : List Fragment} {moves : Nat}
    (linked : Linked L n s fd taken status sndNxt rcvNxt [] rcv moves) : moves = 0 := by
  obtain ⟨addr, block, table, snd, -, -, -, -, way, count⟩ := linked
  obtain ⟨link, rfl⟩ := List.append_eq_nil_iff.mp way
  rw [count, link]
  rfl

theorem Departs.toClient {before : List Segment} {extra : Nat}
    (departs : Departs L n before extra) :
    n.toClient = [] := by
  cases departs with
  | gone free => exact free.1
  | last linked => exact linked.empty

/-- What arrives is always what the client waits for. -/
theorem Visits.receive (visits : Visits L sessions n left) :
    ∃ n', n.step mbufs entries .receive = .ok n' ∧
      (n' = n ∧ n.toClient = [] ∨ ∃ less < left, Visits L sessions n' less) := by
  cases link : n.toClient with
  | nil => exact ⟨n, receive_nothing mbufs entries link, .inl ⟨rfl, rfl⟩⟩
  | cons f rest =>
  have opens {c : Client} (phase : c.phase = .opened) : c.phase ≠ .synSent := by
    rw [phase]
    decide
  have parts {c : Client} (phase : c.phase = .finSent) : c.phase ≠ .synSent := by
    rw [phase]
    decide
  cases visits.stage with
  | between client app departs => cases link.symm.trans departs.toClient
  | calling client calls app toServer departs => cases link.symm.trans departs.toClient
  | opened _ _ _ _ _ linked | chunkSent _ _ _ _ _ _ linked | finSent _ _ _ _ _ _ linked =>
      cases link.symm.trans linked.empty
  | @answered c fd taken asks moves isn client calls toServer attends linked count =>
      obtain ⟨fewer, out, rfl, way, linked⟩ := linked.arrives link
      cases way
      have books := visits.books
      have all := books.all
      rw [client] at all
      have arrived := linked { n with toClient := rest } rfl rfl
      obtain rfl := arrived.none_left
      have shakes : Shakes c.session .synRcvd
          (n.toServer ++ [c.session.segment c.sndNxt (isn + 1) tcpAckFlag []]) 1 := by
        rw [toServer]
        exact .pending _ _
      have whole : c.sent ++ c.todo.flatten = c.session.chunks.flatten := by
        rw [calls.sent, calls.todo, List.nil_append]
      refine ⟨_, receive_takes mbufs entries client link (calls.receive isn), .inr ⟨_, ?_,
        visits.up.same rfl rfl, .opened rfl ⟨rfl, whole, calls.todo ▸ calls.proper⟩
          (calls.got.trans calls.sent.symm) shakes attends (arrived.same rfl rfl) rfl,
        ⟨all, books.whole, books.proper, books.refused⟩⟩⟩
      dsimp only
      omega
  | chunkStored client owed toServer attends acks linked count =>
      obtain ⟨fewer, out, rfl, way, linked⟩ := linked.arrives link
      cases acks with
      | done => cases way
      | pending =>
          cases way
          refine ⟨_, receive_takes mbufs entries client link
            (Client.receive_ack (opens owed.phase)), .inr ⟨_, ?_,
            visits.passed rfl rfl client.symm rfl rfl rfl (.chunkStored rfl owed
              (by simp [toServer]) attends .done (linked _ rfl rfl) rfl)⟩⟩
          dsimp only
          omega
  | chunkRead client owed toServer app ended acks linked count =>
      obtain ⟨fewer, out, rfl, way, linked⟩ := linked.arrives link
      cases acks with
      | done => cases way
      | pending =>
          cases way
          refine ⟨_, receive_takes mbufs entries client link
            (Client.receive_ack (opens owed.phase)), .inr ⟨_, ?_,
            visits.passed rfl rfl client.symm rfl rfl rfl (.chunkRead rfl owed (by simp [toServer])
              app ended .done (linked _ rfl rfl) rfl)⟩⟩
          dsimp only
          omega
  | @chunkEchoed c moves chunk buff out client owed toServer app ended acks linked count =>
      obtain ⟨fewer, out, rfl, way, linked⟩ := linked.arrives link
      cases acks with
      | done =>
          cases way
          have books := visits.books
          have all := books.all
          rw [client] at all
          have arrived := linked { n with toClient := rest } rfl rfl
          obtain rfl := arrived.none_left
          have shakes : Shakes c.session .established (n.toServer ++ []) 0 := by
            rw [toServer]
            exact .done
          have attends : Attends n.app 4 true 0 := by
            rw [app]
            exact .receiving ended
          refine ⟨_, receive_takes mbufs entries client link owed.receive, .inr ⟨_, ?_,
            visits.up.same rfl rfl, .opened rfl ⟨owed.phase, owed.whole, owed.proper⟩ rfl shakes
              attends (arrived.same rfl rfl) rfl,
            ⟨all, books.whole, books.proper, books.refused⟩⟩⟩
          dsimp only
          omega
      | pending =>
          cases way
          refine ⟨_, receive_takes mbufs entries client link
            (Client.receive_ack (opens owed.phase)), .inr ⟨_, ?_,
            visits.passed rfl rfl client.symm rfl rfl rfl (.chunkEchoed rfl owed
              (by simp [toServer]) app ended .done (linked _ rfl rfl) rfl)⟩⟩
          dsimp only
          omega
  | finStored client parting toServer attends acks linked count =>
      obtain ⟨fewer, out, rfl, way, linked⟩ := linked.arrives link
      cases acks with
      | done => cases way
      | pending =>
          cases way
          refine ⟨_, receive_takes mbufs entries client link
            (Client.receive_ack (parts parting.phase)), .inr ⟨_, ?_,
            visits.passed rfl rfl client.symm rfl rfl rfl (.finStored rfl parting
              (by simp [toServer]) attends .done (linked _ rfl rfl) rfl)⟩⟩
          dsimp only
          omega
  | finRead client parting toServer app acks linked count =>
      obtain ⟨fewer, out, rfl, way, linked⟩ := linked.arrives link
      cases acks with
      | done => cases way
      | pending =>
          cases way
          refine ⟨_, receive_takes mbufs entries client link
            (Client.receive_ack (parts parting.phase)), .inr ⟨_, ?_,
            visits.passed rfl rfl client.symm rfl rfl rfl (.finRead rfl parting
              (by simp [toServer]) app .done (linked _ rfl rfl) rfl)⟩⟩
          dsimp only
          omega
  | @closing c moves out client parting toServer app acks linked count =>
      obtain ⟨fewer, out, rfl, way, linked⟩ := linked.arrives link
      cases acks with
      | done =>
          cases way
          have books := visits.books
          have all := books.all
          rw [client] at all
          have arrived := linked { n with toClient := rest } rfl rfl
          obtain rfl := arrived.none_left
          obtain ⟨n', steps, same⟩ : ∃ n', n.step mbufs entries .receive = .ok n' ∧ n' = { n with
              toClient := rest, client := none
              toServer := [c.session.segment c.sndNxt (c.rcvNxt + 1) tcpAckFlag []]
              finished := n.finished ++ [(c.session, c.got)] } := by
            refine ⟨_, receive_ends mbufs entries client link parting.receive, ?_⟩
            rw [toServer]
            rfl
          have departs : Departs L n' n'.toServer 1 := by
            rw [same]
            exact .last (arrived.same rfl rfl)
          subst same
          refine ⟨_, steps, .inr ⟨_, ?_, visits.up.same rfl rfl, .between rfl app departs rfl,
            ⟨?_, ?_, books.proper, books.refused⟩⟩⟩
          · dsimp only
            omega
          · simpa using all
          · intro visit isIn
            obtain isIn | isIn := List.mem_append.mp isIn
            · exact books.whole visit isIn
            · rw [List.mem_singleton.mp isIn]
              exact parting.whole
      | pending =>
          cases way
          refine ⟨_, receive_takes mbufs entries client link
            (Client.receive_ack (parts parting.phase)), .inr ⟨_, ?_,
            visits.passed rfl rfl client.symm rfl rfl rfl (.closing rfl parting
              (by simp [toServer]) app .done (linked _ rfl rfl) rfl)⟩⟩
          dsimp only
          omega

end Receive

section Progress

variable {L : Stream} {sessions : List Session} {n n' : Net} {left mbufs : Nat}
  {entries : List ArpEntry}

/-- Which part of the net has something to do. -/
def Net.Due (mbufs : Nat) (entries : List ArpEntry) (n : Net) : Part → Prop
  | .client => n.client = none ∧ n.later ≠ [] ∨ ∃ c, n.client = some c ∧ c.send ≠ none
  | .link => n.toServer ≠ []
  | .app => n.step mbufs entries .app ≠ .ok n
  | .stack => n.step mbufs entries .out ≠ .ok n
  | .wire => n.toClient ≠ []

theorem due_app {app : App} {toServer : List Segment} (steps : n.step mbufs entries .app = .ok n')
    (serves : Serves n n' app toServer) (other : n.app ≠ app) : n.Due mbufs entries .app := by
  intro same
  cases steps.symm.trans same
  exact other serves.app

theorem due_link {rest : List Segment} {seg : Segment} (toServer : n.toServer = rest ++ [seg]) :
    n.Due mbufs entries .link := by
  rw [Net.Due, toServer]
  exact List.append_ne_nil_of_right_ne_nil _ (List.cons_ne_nil _ _)

/-- What is under way is passed on or taken in. -/
theorem Linked.due {s : Session} {fd : Int} {taken : Bool} {status : Status}
    {sndNxt rcvNxt : UInt32} {out rcv : List Fragment} {moves : Nat}
    (linked : Linked L n s fd taken status sndNxt rcvNxt out rcv moves) (up : Up L n)
    (room : 0 < mbufs) (known : ngGetDstMacaddr entries s.ip ≠ none) (some_ : out ≠ []) :
    ∃ part, n.Due mbufs entries part := by
  by_cases link : n.toClient = []
  · obtain ⟨n', steps, ⟨-, all⟩ | ⟨w, link', rfl, other, -⟩⟩ :=
      linked.passes mbufs entries up room known
    · exact absurd (all.symm.trans link) some_
    · refine ⟨.stack, fun same => other ?_⟩
      exact congrArg Net.toClient (Except.ok.inj (steps.symm.trans same))
  · exact ⟨.wire, link⟩

/-- Before the end some part of the net has something to do. -/
theorem Visits.due (visits : Visits L sessions n left) (room : 0 < mbufs)
    (known : ∀ s ∈ sessions, ngGetDstMacaddr entries s.ip ≠ none) (positive : 0 < left) :
    ∃ part, n.Due mbufs entries part := by
  have up := visits.up
  have knows {c : Client} (client : n.client = some c) :
      ngGetDstMacaddr entries c.session.ip ≠ none := known _ (visits.books.current client)
  cases visits.stage with
  | between client app departs count =>
      generalize way : n.toServer = segs at departs
      cases departs with
      | gone free =>
          refine ⟨.client, .inl ⟨client, fun empty => ?_⟩⟩
          rw [count, empty] at positive
          exact absurd positive (by decide)
      | last linked =>
          refine ⟨.link, ?_⟩
          rw [Net.Due, way]
          exact List.cons_ne_nil _ _
  | calling client calls app toServer departs count => exact ⟨.link, due_link toServer⟩
  | answered client calls toServer attends linked count =>
      exact linked.due up room (knows client) (List.cons_ne_nil _ _)
  | opened client opened back shakes attends linked count =>
      refine ⟨.client, .inr ⟨_, client, ?_⟩⟩
      rw [Client.send, if_pos ⟨opened.phase, back⟩]
      split
      · exact Option.some_ne_none _
      · exact Option.some_ne_none _
  | chunkSent client owed next shakes toServer attends linked count =>
      exact ⟨.link, due_link toServer⟩
  | chunkStored client owed toServer attends acks linked count =>
      generalize app : n.app = doing at attends
      cases attends with
      | accepting =>
          obtain ⟨n', steps, serves, -⟩ := linked.accepts mbufs entries up app
          exact ⟨.app, due_app steps serves (by rw [app]; exact App.noConfusion)⟩
      | receiving ended =>
          obtain ⟨n', steps, serves, -⟩ := linked.reads mbufs entries app ended owed.some_ owed.fits
          exact ⟨.app, due_app steps serves (by rw [app]; exact App.noConfusion)⟩
  | chunkRead client owed toServer app ended acks linked count =>
      have few := acks.few
      obtain ⟨n', steps, serves, -⟩ := linked.sends mbufs entries up app (by omega)
      exact ⟨.app, due_app steps serves (by rw [app]; exact App.noConfusion)⟩
  | chunkEchoed client owed toServer app ended acks linked count =>
      exact linked.due up room (knows client) (by simp)
  | finSent client parting next shakes toServer attends linked count =>
      exact ⟨.link, due_link toServer⟩
  | finStored client parting toServer attends acks linked count =>
      generalize app : n.app = doing at attends
      cases attends with
      | accepting =>
          obtain ⟨n', steps, serves, -⟩ := linked.accepts mbufs entries up app
          exact ⟨.app, due_app steps serves (by rw [app]; exact App.noConfusion)⟩
      | receiving =>
          obtain ⟨n', steps, serves, -⟩ := linked.ends mbufs entries app
          exact ⟨.app, due_app steps serves (by rw [app]; exact App.noConfusion)⟩
  | finRead client parting toServer app acks linked count =>
      have few := acks.few
      obtain ⟨n', steps, serves, -⟩ := linked.closes mbufs entries up app (by omega)
      exact ⟨.app, due_app steps serves (by rw [app]; exact App.noConfusion)⟩
  | closing client parting toServer app acks linked count =>
      exact linked.due up room (knows client) (by simp)

/-- The moves count down to the end of all visits. -/
theorem visits_descend (L : Stream) (room : 0 < mbufs)
    (known : ∀ s ∈ sessions, ngGetDstMacaddr entries s.ip ≠ none) :
    Descends (Net.step mbufs entries) Move.part (Net.Due mbufs entries) (Visits L sessions) where
  goes n left move visits := by
    cases move with
    | client =>
        obtain ⟨n', steps, ⟨rfl, nobody, silent⟩ | less⟩ := visits.client mbufs entries
        · refine ⟨n', steps, .inl ⟨rfl, ?_⟩⟩
          rintro (starts | ⟨c, client, sends⟩)
          · exact nobody starts
          · exact sends (silent c client)
        · exact ⟨n', steps, .inr less⟩
    | deliver isn =>
        obtain ⟨n', steps, ⟨rfl, nothing⟩ | less⟩ := visits.deliver mbufs entries isn
        · exact ⟨n', steps, .inl ⟨rfl, fun due => due nothing⟩⟩
        · exact ⟨n', steps, .inr less⟩
    | app =>
        obtain ⟨n', steps, rfl | less⟩ := visits.app mbufs entries
        · exact ⟨n', steps, .inl ⟨rfl, fun due => due steps⟩⟩
        · exact ⟨n', steps, .inr less⟩
    | out =>
        obtain ⟨n', steps, rfl | less⟩ := visits.out mbufs entries room known
        · exact ⟨n', steps, .inl ⟨rfl, fun due => due steps⟩⟩
        · exact ⟨n', steps, .inr less⟩
    | receive =>
        obtain ⟨n', steps, ⟨rfl, nothing⟩ | less⟩ := visits.receive mbufs entries
        · exact ⟨n', steps, .inl ⟨rfl, fun due => due nothing⟩⟩
        · exact ⟨n', steps, .inr less⟩
  awake n left visits positive := visits.due room known positive

end Progress

section Runs

variable {A : Allocator} {sessions : List Session} {mbufs : Nat} {entries : List ArpEntry}

/-- The socket that the server has made, bound and put to listening. -/
def listener (calls : Nat) : Stream :=
  ⟨calls + 1, 3, 0, serverPort, 0, 0, 0, 0, .listen, some ⟨calls + 3, .tcpSendBuffer, []⟩,
    some ⟨calls + 2, .tcpRecvBuffer, []⟩⟩

theorem listener_listens (calls : Nat) : Listens (listener calls) where
  fd := rfl
  dport := rfl
  status := rfl
  quiet := ⟨_, rfl, rfl⟩

theorem nsocket_first (granted : A.AllSucceed) :
    nsocket World.empty .stream A =
      .ok ((3, idle { listener A.calls with dport := 0, status := .closed }
        (Function.update (fun _ => false) 3 true)), A.next.next.next) := by
  have first : getFdFrombitmap World.empty =
      (3, { World.empty with fdTable := Function.update (fun _ => false) 3 true }) := rfl
  have rcv := @ringCreate_run
    { World.empty with fdTable := Function.update (fun _ => false) 3 true } A.next Fragment
    .tcpRecvBuffer List.not_mem_nil (granted _)
  have snd := @ringCreate_run
    { World.empty with
      fdTable := Function.update (fun _ => false) 3 true, rings := [.tcpRecvBuffer] } A.next.next
    Fragment .tcpSendBuffer (by simp) (granted _)
  rw [nsocket, first]
  simp only
  rw [bind_ok (malloc_run granted)]
  simp only
  rw [bind_ok rcv]
  simp only
  exact bind_ok snd

theorem put_idle {L M : Stream} {table : Nat → Bool} (addr : L.addr = M.addr) :
    (idle L table).put M = idle M table := by
  simp [idle, World.put, addr]

/-- The server comes up where memory is granted. -/
theorem tcpServerStart_run (granted : A.AllSucceed) :
    tcpServerStart World.empty A = .ok ((3, idle (listener A.calls)
      (Function.update (fun _ => false) 3 true)), A.next.next.next) := by
  rw [tcpServerStart, bind_ok (nsocket_first granted)]
  simp only
  rw [if_neg (by decide)]
  have bound : nbind (idle { listener A.calls with dport := 0, status := .closed }
      (Function.update (fun _ => false) 3 true)) 3 serverPort 0 =
      (0, idle { listener A.calls with status := .closed }
        (Function.update (fun _ => false) 3 true)) := by
    rw [nbind, find_idle rfl]
    exact congrArg (Prod.mk 0) (put_idle rfl)
  have listening : nlisten (idle { listener A.calls with status := .closed }
      (Function.update (fun _ => false) 3 true)) 3 =
      (0, idle (listener A.calls) (Function.update (fun _ => false) 3 true)) := by
    rw [nlisten, find_idle rfl]
    exact congrArg (Prod.mk 0) (put_idle rfl)
  simp only [bound, listening]
  rfl

theorem visits_start (granted : A.AllSucceed) (cleared : ∀ call i, A.junk call i = 0)
    (proper : ∀ s ∈ sessions, s.Proper) :
    Visits (listener A.calls) sessions (Net.start 3 (idle (listener A.calls)
      (Function.update (fun _ => false) 3 true)) A.next.next.next sessions) (costs sessions) where
  up :=
    { listens := listener_listens A.calls
      listenfd := rfl
      granted := granted
      cleared := cleared
      old := Nat.le_add_right (A.calls + 1) 2 }
  stage := .between rfl rfl (.gone ⟨rfl, _, by simp, by simp, rfl⟩) (Nat.zero_add _).symm
  books := ⟨rfl, fun visit isIn => absurd isIn List.not_mem_nil, proper, rfl⟩

theorem map_eq_of_whole {finished : List (Session × List UInt8)}
    (whole : ∀ visit ∈ finished, visit.2 = visit.1.chunks.flatten) :
    finished = (finished.map Prod.fst).map fun s => (s, s.chunks.flatten) := by
  induction finished with
  | nil => rfl
  | cons visit rest ih =>
      rw [List.map_cons, List.map_cons, ← whole visit (List.mem_cons_self ..),
        ← ih fun other isIn => whole other (List.mem_cons_of_mem _ isIn)]

/-- Who has left came first, and got everything back. -/
theorem Books.finished {n : Net} (books : Books sessions n) :
    n.finished <+: sessions.map fun s => (s, s.chunks.flatten) := by
  refine ⟨(n.client.toList.map Client.session ++ n.later).map fun s => (s, s.chunks.flatten), ?_⟩
  rw [map_eq_of_whole books.whole, ← List.map_append, books.all]

theorem costs_zero {later : List Session} (zero : costs later = 0) : later = [] := by
  cases later with
  | nil => rfl
  | cons s later =>
      rw [costs_cons] at zero
      omega

/-- At the end everybody has come and left. -/
theorem Visits.over {L : Stream} {n : Net} (visits : Visits L sessions n 0) :
    n.finished = sessions.map fun s => (s, s.chunks.flatten) := by
  have nobody : n.client = none ∧ n.later = [] := by
    cases visits.stage with
    | between client app departs count => exact ⟨client, costs_zero (by omega)⟩
    | calling | answered | opened | chunkSent | chunkStored | chunkRead | chunkEchoed | finSent
    | finStored | finRead | closing => omega
  have all := visits.books.all
  rw [nobody.1, nobody.2] at all
  rw [map_eq_of_whole visits.books.whole, ← all]
  simp

/-- Where every call is one step, whatever the order of the moves, no call goes wrong and no
packet is one that the client does not wait for; who has left got back every byte, and as
long as some visit is not over there is a move that takes it further. -/
theorem visits_echoed (granted : A.AllSucceed) (cleared : ∀ call i, A.junk call i = 0)
    (room : 0 < mbufs) (proper : ∀ s ∈ sessions, s.Proper)
    (known : ∀ s ∈ sessions, ngGetDstMacaddr entries s.ip ≠ none) (moves : List Move) :
    ∃ listenfd w B n, tcpServerStart World.empty A = .ok ((listenfd, w), B) ∧
      runs (Net.step mbufs entries) (.start listenfd w B sessions) moves = .ok n ∧
      n.refused = 0 ∧ n.finished <+: sessions.map (fun s => (s, s.chunks.flatten)) ∧
      ((∀ move, n.step mbufs entries move = .ok n) →
        n.finished = sessions.map fun s => (s, s.chunks.flatten)) := by
  have descends := visits_descend (listener A.calls) room known
  obtain ⟨n, left, ran, -, visits⟩ := descends.runs (visits_start granted cleared proper) moves
  refine ⟨_, _, _, n, tcpServerStart_run granted, ran, visits.books.refused,
    visits.books.finished, fun still => ?_⟩
  have turns : Function.Surjective Move.part := by
    intro part
    cases part with
    | client => exact ⟨.client, rfl⟩
    | link => exact ⟨.deliver 0, rfl⟩
    | app => exact ⟨.app, rfl⟩
    | stack => exact ⟨.out, rfl⟩
    | wire => exact ⟨.receive, rfl⟩
  exact (descends.rests visits turns still).over

/-- Two visitors with three chunks, and the table that knows both. -/
def twoVisits : List Session :=
  [⟨0x6401A8C0, 0x4301A8C0, 0x1234, 7, [[104, 105], [33]]⟩, ⟨0x6501A8C0, 0x4301A8C0, 9, 0, [[10]]⟩]

def visitors : List ArpEntry :=
  [⟨0x6401A8C0, #v[0, 0, 0, 0, 0, 1]⟩, ⟨0x6501A8C0, #v[0, 0, 0, 0, 0, 2]⟩]

theorem visits_echoed_two : ∃ listenfd w B n,
    tcpServerStart World.empty .cleared = .ok ((listenfd, w), B) ∧
      runs (Net.step 1 visitors) (.start listenfd w B twoVisits)
        [.client, .deliver 5, .out, .app, .receive, .client, .deliver 5, .deliver 5] = .ok n ∧
      n.refused = 0 ∧ n.finished <+: twoVisits.map (fun s => (s, s.chunks.flatten)) ∧
      ((∀ move, n.step 1 visitors move = .ok n) →
        n.finished = twoVisits.map fun s => (s, s.chunks.flatten)) :=
  visits_echoed Allocator.cleared_allSucceed (fun _ _ => rfl) Nat.zero_lt_one (by decide)
    (by decide) _

/-- As long as everybody gets a turn again and again all visits come to their end: fifteen
rounds for each, and eight for each chunk. -/
theorem rounds_finish_visits (granted : A.AllSucceed) (cleared : ∀ call i, A.junk call i = 0)
    (room : 0 < mbufs) (proper : ∀ s ∈ sessions, s.Proper)
    (known : ∀ s ∈ sessions, ngGetDstMacaddr entries s.ip ≠ none) (rounds : List (List Move))
    (fair : ∀ round ∈ rounds, Round Move.part round)
    (enough : (sessions.map fun s => 15 + 8 * s.chunks.length).sum ≤ rounds.length) :
    ∃ listenfd w B n, tcpServerStart World.empty A = .ok ((listenfd, w), B) ∧
      runs (Net.step mbufs entries) (.start listenfd w B sessions) rounds.flatten = .ok n ∧
      n.refused = 0 ∧ n.finished = sessions.map fun s => (s, s.chunks.flatten) := by
  obtain ⟨n, ran, visits⟩ := (visits_descend (listener A.calls) room known).finishes
    (visits_start granted cleared proper) fair enough
  exact ⟨_, _, _, n, tcpServerStart_run granted, ran, visits.books.refused, visits.over⟩

theorem rounds_finish_visits_two : ∃ listenfd w B n,
    tcpServerStart World.empty .cleared = .ok ((listenfd, w), B) ∧
      runs (Net.step 1 visitors) (.start listenfd w B twoVisits)
        (List.replicate 54 [.receive, .out, .app, .deliver 5, .client]).flatten = .ok n ∧
      n.refused = 0 ∧ n.finished = twoVisits.map fun s => (s, s.chunks.flatten) := by
  refine rounds_finish_visits Allocator.cleared_allSucceed (fun _ _ => rfl) Nat.zero_lt_one
    (by decide) (by decide) _ (fun round isIn part => ?_) (by decide)
  rw [List.eq_of_mem_replicate isIn]
  cases part with
  | client => exact ⟨.client, by simp, rfl⟩
  | link => exact ⟨.deliver 5, by simp, rfl⟩
  | app => exact ⟨.app, by simp, rfl⟩
  | stack => exact ⟨.out, by simp, rfl⟩
  | wire => exact ⟨.receive, by simp, rfl⟩

end Runs

end LinuxCpp.Ustack
