import LinuxCpp.Ustack.Visit

set_option autoImplicit false

/- What the moves of the stack and of the server do to the connection of a visit, with
what is under way to the client taken together. -/
namespace LinuxCpp.Ustack

open C

section Shapes

/-- What does not change while the server runs. -/
structure Up (L : Stream) (n : Net) : Prop where
  listens : Listens L
  listenfd : n.listenfd = 3
  granted : n.heap.AllSucceed
  cleared : ∀ call i, n.heap.junk call i = 0
  old : L.addr ≤ n.heap.calls

/-- No connection. -/
def Free (L : Stream) (n : Net) : Prop :=
  n.toClient = [] ∧ ∃ table, table 3 = true ∧ table 4 = false ∧ n.world = idle L table

/-- The connection of a visit. `out` is under way to the client, on the link or still on
the send ring, and takes so many moves to get there. -/
def Linked (L : Stream) (n : Net) (s : Session) (fd : Int) (taken : Bool) (status : Status)
    (sndNxt rcvNxt : UInt32) (out rcv : List Fragment) (moves : Nat) : Prop :=
  ∃ addr block table snd, addr ≠ L.addr ∧ table 3 = true ∧ table 4 = taken ∧
    n.world = busy L (conn s addr block fd sndNxt rcvNxt status snd rcv) table ∧
    n.toClient ++ snd = out ∧ moves = 2 * snd.length + n.toClient.length

/-- A move of the stack or of the server touches nothing else. -/
structure Serves (n n' : Net) (app : App) (toServer : List Segment) : Prop where
  later : n.heap.Later n'.heap
  listenfd : n'.listenfd = n.listenfd
  app : n'.app = app
  toServer : n'.toServer = toServer
  toClient : n'.toClient = n.toClient
  client : n'.client = n.client
  visits : n'.later = n.later
  finished : n'.finished = n.finished
  refused : n'.refused = n.refused

end Shapes

section Links

variable {L : Stream} {n n' : Net} {s : Session} {fd : Int} {taken : Bool} {status : Status}
  {sndNxt rcvNxt : UInt32} {out rcv : List Fragment} {moves : Nat}

theorem Up.serves (up : Up L n) {app : App} {toServer : List Segment}
    (serves : Serves n n' app toServer) : Up L n' where
  listens := up.listens
  listenfd := serves.listenfd.trans up.listenfd
  granted := serves.later.allSucceed up.granted
  cleared := by
    rw [serves.later.junk]
    exact up.cleared
  old := up.old.trans serves.later.calls

/-- The client and the links to it are nothing to the server. -/
theorem Up.same (up : Up L n) (listenfd : n'.listenfd = n.listenfd) (heap : n'.heap = n.heap) :
    Up L n' where
  listens := up.listens
  listenfd := listenfd.trans up.listenfd
  granted := by
    rw [heap]
    exact up.granted
  cleared := by
    rw [heap]
    exact up.cleared
  old := by
    rw [heap]
    exact up.old

theorem Free.same (free : Free L n) (world : n'.world = n.world)
    (toClient : n'.toClient = n.toClient) : Free L n' := by
  rw [Free, world, toClient]
  exact free

theorem Linked.same (linked : Linked L n s fd taken status sndNxt rcvNxt out rcv moves)
    (world : n'.world = n.world) (toClient : n'.toClient = n.toClient) :
    Linked L n' s fd taken status sndNxt rcvNxt out rcv moves := by
  rw [Linked, world, toClient]
  exact linked

variable (mbufs : Nat) (entries : List ArpEntry)

section Deliver

variable (isn : UInt32) {seg : Segment} {rest : List Segment} {seq ack : UInt32} {data : List UInt8}

theorem deliver_step (way : n.toServer = seg :: rest) {w : World} {B : Allocator} {ret : Int}
    (ran : ngTcpProcess isn n.world seg n.heap = .ok ((ret, w), B)) (later : n.heap.Later B) :
    ∃ n', n.step mbufs entries (.deliver isn) = .ok n' ∧ n'.world = w ∧
      Serves n n' n.app rest := by
  refine ⟨{ n with world := w, heap := B, toServer := rest }, ?_, rfl,
    ⟨later, rfl, rfl, rfl, rfl, rfl, rfl, rfl, rfl⟩⟩
  rw [Net.step]
  split
  case h_1 empty => cases way.symm.trans empty
  case h_2 seg' rest' same =>
      cases way.symm.trans same
      rw [ran]
      rfl

/-- A SYN gets an answer. -/
theorem Free.takesSyn (free : Free L n) (up : Up L n)
    (way : n.toServer = s.segment seq ack tcpSynFlag [] :: rest) :
    ∃ n', n.step mbufs entries (.deliver isn) = .ok n' ∧ Serves n n' n.app rest ∧
      Linked L n' s (-1) false .synRcvd isn (seq + 1)
        [answer s isn (seq + 1) (tcpSynFlag ||| tcpAckFlag)] [] 2 := by
  obtain ⟨toClient, table, own, other, world⟩ := free
  obtain ⟨addr, block, B, ran, apart, later⟩ := @deliver_syn L table s n.heap up.listens up.granted
    up.old isn seq ack
  rw [← world] at ran
  obtain ⟨n', steps, world', serves⟩ := deliver_step mbufs entries isn way ran later
  refine ⟨n', steps, serves, addr, block, table, _, apart, own, other, world', ?_, ?_⟩
  · rw [serves.toClient, toClient]
    rfl
  · rw [serves.toClient, toClient]
    rfl

theorem Linked.takesAck (linked : Linked L n s fd taken .synRcvd sndNxt rcvNxt out rcv moves)
    (up : Up L n) (way : n.toServer = s.segment seq ack tcpAckFlag [] :: rest) :
    ∃ n', n.step mbufs entries (.deliver isn) = .ok n' ∧ Serves n n' n.app rest ∧
      Linked L n' s fd taken .established sndNxt rcvNxt out rcv moves := by
  obtain ⟨addr, block, table, snd, apart, own, other, world, link, count⟩ := linked
  have ran := @deliver_ack L table s n.heap addr block fd sndNxt rcvNxt snd rcv up.listens apart isn
    seq ack
  rw [← world] at ran
  obtain ⟨n', steps, world', serves⟩ := deliver_step mbufs entries isn way ran (.refl _)
  refine ⟨n', steps, serves, addr, block, table, snd, apart, own, other, world', ?_, ?_⟩
  · rw [serves.toClient, link]
  · rw [serves.toClient, count]

theorem Linked.empty (linked : Linked L n s fd taken status sndNxt rcvNxt [] rcv moves) :
    n.toClient = [] := by
  obtain ⟨addr, block, table, snd, -, -, -, -, link, -⟩ := linked
  exact (List.append_eq_nil_iff.mp link).1

theorem Linked.takesLast (linked : Linked L n s fd false .lastAck sndNxt rcvNxt [] rcv moves)
    (way : n.toServer = s.segment seq ack tcpAckFlag [] :: rest) :
    ∃ n', n.step mbufs entries (.deliver isn) = .ok n' ∧ Serves n n' n.app rest ∧ Free L n' := by
  have toClient := linked.empty
  obtain ⟨addr, block, table, snd, apart, own, other, world, link, count⟩ := linked
  obtain ⟨B, ran, later⟩ := @deliver_last L table s n.heap addr block fd sndNxt rcvNxt snd rcv apart
    isn seq ack
  rw [← world] at ran
  obtain ⟨n', steps, world', serves⟩ := deliver_step mbufs entries isn way ran later
  exact ⟨n', steps, serves, serves.toClient.trans toClient, table, own, other, world'⟩

theorem few_of_way {link snd : List Fragment} (way : link ++ snd = out) (few : out.length < 8) :
    snd.length < 8 := by
  have length := congrArg List.length way
  rw [List.length_append] at length
  omega

theorem Linked.takesData (linked : Linked L n s fd taken .established sndNxt rcvNxt out [] moves)
    (up : Up L n) (few : out.length < 8) (some_ : data ≠ []) (fits : data.length ≤ bufferSize)
    (way : n.toServer = s.segment seq ack (tcpPshFlag ||| tcpAckFlag) data :: rest) :
    ∃ n', n.step mbufs entries (.deliver isn) = .ok n' ∧ Serves n n' n.app rest ∧
      Linked L n' s fd taken .established ack (rcvNxt + .ofNat data.length)
        (out ++ [answer s ack (rcvNxt + .ofNat data.length) tcpAckFlag])
        [stored s (some data) (.ofNat data.length)] (moves + 2) := by
  obtain ⟨addr, block, table, snd, apart, own, other, world, link, count⟩ := linked
  obtain ⟨B, ran, later⟩ := @deliver_data L table s n.heap addr block fd sndNxt rcvNxt snd [] data
    up.granted apart some_ fits (few_of_way link few) (by decide) isn seq ack
  rw [← world] at ran
  obtain ⟨n', steps, world', serves⟩ := deliver_step mbufs entries isn way ran later
  refine ⟨n', steps, serves, addr, block, table, _, apart, own, other, world', ?_, ?_⟩
  · rw [serves.toClient, ← List.append_assoc, link]
  · rw [serves.toClient, List.length_append, List.length_singleton, count]
    omega

theorem Linked.takesFin (linked : Linked L n s fd taken .established sndNxt rcvNxt out [] moves)
    (up : Up L n) (few : out.length < 8)
    (way : n.toServer = s.segment seq ack (tcpFinFlag ||| tcpAckFlag) [] :: rest) :
    ∃ n', n.step mbufs entries (.deliver isn) = .ok n' ∧ Serves n n' n.app rest ∧
      Linked L n' s fd taken .closeWait ack (rcvNxt + 1)
        (out ++ [answer s ack (rcvNxt + 1) tcpAckFlag]) [stored s none 0] (moves + 2) := by
  obtain ⟨addr, block, table, snd, apart, own, other, world, link, count⟩ := linked
  obtain ⟨B, ran, later⟩ := @deliver_fin L table s n.heap addr block fd sndNxt rcvNxt snd []
    up.granted apart (few_of_way link few) (by decide) isn seq ack
  rw [← world] at ran
  obtain ⟨n', steps, world', serves⟩ := deliver_step mbufs entries isn way ran later
  refine ⟨n', steps, serves, addr, block, table, _, apart, own, other, world', ?_, ?_⟩
  · rw [serves.toClient, ← List.append_assoc, link]
  · rw [serves.toClient, List.length_append, List.length_singleton, count]
    omega

end Deliver

section Calls

theorem app_step {app : App} {w : World} {B : Allocator}
    (ran : tcpServerEntry n.listenfd n.world n.app n.heap = .ok ((app, w), B))
    (later : n.heap.Later B) :
    ∃ n', n.step mbufs entries .app = .ok n' ∧ n'.world = w ∧ Serves n n' app n.toServer := by
  refine ⟨{ n with world := w, heap := B, app := app }, ?_, rfl,
    ⟨later, rfl, rfl, rfl, rfl, rfl, rfl, rfl, rfl⟩⟩
  rw [Net.step, ran]
  rfl

/-- A call that waits leaves everything as it is. -/
theorem app_waits
    (ran : tcpServerEntry n.listenfd n.world n.app n.heap = .ok ((n.app, n.world), n.heap)) :
    n.step mbufs entries .app = .ok n := by
  rw [Net.step, ran]
  rfl

theorem Free.waits (free : Free L n) (up : Up L n) (app : n.app = .accepting) :
    n.step mbufs entries .app = .ok n := by
  obtain ⟨-, table, -, -, world⟩ := free
  refine app_waits mbufs entries ?_
  rw [app, world, up.listenfd, tcpServerEntry, accept_waits_idle up.listens]
  rfl

theorem Linked.waits (linked : Linked L n s 4 taken status sndNxt rcvNxt out rcv moves)
    (up : Up L n) (app : n.app = .accepting) : n.step mbufs entries .app = .ok n := by
  obtain ⟨addr, block, table, snd, -, -, -, world, -, -⟩ := linked
  refine app_waits mbufs entries ?_
  rw [app, world, up.listenfd, tcpServerEntry, accept_waits up.listens]
  rfl

theorem Linked.hungers (linked : Linked L n s 4 taken status sndNxt rcvNxt out [] moves)
    {buff : List UInt8} (app : n.app = .receiving 4 buff) : n.step mbufs entries .app = .ok n := by
  obtain ⟨addr, block, table, snd, -, -, -, world, -, -⟩ := linked
  refine app_waits mbufs entries ?_
  rw [app, world, tcpServerEntry, lift_bind_ok recv_waits]
  rfl

theorem Linked.accepts (linked : Linked L n s (-1) false status sndNxt rcvNxt out rcv moves)
    (up : Up L n) (app : n.app = .accepting) :
    ∃ n', n.step mbufs entries .app = .ok n' ∧
      Serves n n' (.receiving 4 (List.replicate bufferSize 0)) n.toServer ∧
      Linked L n' s 4 true status sndNxt rcvNxt out rcv moves := by
  obtain ⟨addr, block, table, snd, apart, own, other, world, link, count⟩ := linked
  have ran : tcpServerEntry n.listenfd n.world n.app n.heap =
      .ok ((.receiving 4 (List.replicate bufferSize 0),
        busy L (conn s addr block 4 sndNxt rcvNxt status snd rcv)
          (Function.update table 4 true)), n.heap) := by
    rw [app, world, up.listenfd, tcpServerEntry, accept_takes up.listens apart own other]
    rfl
  obtain ⟨n', steps, world', serves⟩ := app_step mbufs entries ran (.refl _)
  refine ⟨n', steps, serves, addr, block, _, snd, apart, ?_, ?_, world', ?_, ?_⟩
  · simpa using own
  · simp
  · rw [serves.toClient, link]
  · rw [serves.toClient, count]

/-- The last byte of the buffer is the NUL that `%s` finds at the latest. -/
structure Ended (buff : List UInt8) : Prop where
  length : buff.length = bufferSize
  last : buff.getLast? = some 0

theorem ended_zeroed : Ended (List.replicate bufferSize 0) where
  length := List.length_replicate
  last := by
    rw [List.getLast?_replicate]
    exact if_neg (by decide)

theorem Ended.nul {buff : List UInt8} (ended : Ended buff) : (0 : UInt8) ∈ buff :=
  List.mem_of_getLast? ended.last

/-- Bytes that do not fill the buffer leave its last one as it is. -/
theorem Ended.overwrite {data buff : List UInt8} (ended : Ended buff)
    (fits : data.length < bufferSize) : Ended (data ++ buff.drop data.length) where
  length := by
    rw [List.length_append, List.length_drop, ended.length]
    omega
  last := by
    have behind : ¬ buff.length ≤ data.length := by
      rw [ended.length]
      omega
    rw [List.getLast?_append, List.getLast?_drop, if_neg behind, ended.last]
    rfl

theorem Linked.reads {data buff : List UInt8}
    (linked : Linked L n s 4 taken status sndNxt rcvNxt out
      [stored s (some data) (.ofNat data.length)] moves)
    (app : n.app = .receiving 4 buff) (ended : Ended buff) (some_ : data ≠ [])
    (fits : data.length < bufferSize) :
    ∃ n', n.step mbufs entries .app = .ok n' ∧
      Serves n n' (.sending 4 (data ++ buff.drop data.length) data.length) n.toServer ∧
      Linked L n' s 4 taken status sndNxt rcvNxt out [] moves := by
  obtain ⟨addr, block, table, snd, apart, own, other, world, link, count⟩ := linked
  have positive := List.length_pos_of_ne_nil some_
  have ran : tcpServerEntry n.listenfd n.world n.app n.heap =
      .ok ((.sending 4 (data ++ buff.drop data.length) data.length,
        busy L (conn s addr block 4 sndNxt rcvNxt status snd []) table), n.heap) := by
    rw [app, world, tcpServerEntry, lift_bind_ok (recv_takes apart some_ fits.le)]
    simp only
    rw [if_pos (by omega), if_neg fun none_ => none_ (ended.overwrite fits).nul]
    rfl
  obtain ⟨n', steps, world', serves⟩ := app_step mbufs entries ran (.refl _)
  refine ⟨n', steps, serves, addr, block, table, snd, apart, own, other, world', ?_, ?_⟩
  · rw [serves.toClient, link]
  · rw [serves.toClient, count]

theorem Linked.ends {buff : List UInt8}
    (linked : Linked L n s 4 taken status sndNxt rcvNxt out [stored s none 0] moves)
    (app : n.app = .receiving 4 buff) :
    ∃ n', n.step mbufs entries .app = .ok n' ∧ Serves n n' (.closing 4) n.toServer ∧
      Linked L n' s 4 taken status sndNxt rcvNxt out [] moves := by
  obtain ⟨addr, block, table, snd, apart, own, other, world, link, count⟩ := linked
  have ran : tcpServerEntry n.listenfd n.world n.app n.heap =
      .ok ((.closing 4, busy L (conn s addr block 4 sndNxt rcvNxt status snd []) table),
        n.heap) := by
    rw [app, world, tcpServerEntry, lift_bind_ok (recv_eof apart)]
    rfl
  obtain ⟨n', steps, world', serves⟩ := app_step mbufs entries ran (.refl _)
  refine ⟨n', steps, serves, addr, block, table, snd, apart, own, other, world', ?_, ?_⟩
  · rw [serves.toClient, link]
  · rw [serves.toClient, count]

theorem Linked.sends {buff : List UInt8} {len : Nat}
    (linked : Linked L n s 4 taken status sndNxt rcvNxt out rcv moves) (up : Up L n)
    (app : n.app = .sending 4 buff len) (few : out.length < 8) :
    ∃ n', n.step mbufs entries .app = .ok n' ∧ Serves n n' (.receiving 4 buff) n.toServer ∧
      Linked L n' s 4 taken status sndNxt rcvNxt
        (out ++ [echo s sndNxt rcvNxt (buff.take len)]) rcv (moves + 2) := by
  obtain ⟨addr, block, table, snd, apart, own, other, world, link, count⟩ := linked
  obtain ⟨ret, B, sent, later⟩ := @send_run L table s n.heap addr block sndNxt rcvNxt status snd rcv
    up.granted apart (few_of_way link few) (buff.take len)
  have ran : tcpServerEntry n.listenfd n.world n.app n.heap =
      .ok ((.receiving 4 buff, busy L (conn s addr block 4 sndNxt rcvNxt status
        (snd ++ [echo s sndNxt rcvNxt (buff.take len)]) rcv) table), B) := by
    rw [app, world, tcpServerEntry, bind_ok sent]
    rfl
  obtain ⟨n', steps, world', serves⟩ := app_step mbufs entries ran later
  refine ⟨n', steps, serves, addr, block, table, _, apart, own, other, world', ?_, ?_⟩
  · rw [serves.toClient, ← List.append_assoc, link]
  · rw [serves.toClient, List.length_append, List.length_singleton, count]
    omega

theorem Linked.closes (linked : Linked L n s 4 taken .closeWait sndNxt rcvNxt out rcv moves)
    (up : Up L n) (app : n.app = .closing 4) (few : out.length < 8) :
    ∃ n', n.step mbufs entries .app = .ok n' ∧ Serves n n' .accepting n.toServer ∧
      Linked L n' s 4 false .lastAck sndNxt rcvNxt
        (out ++ [answer s sndNxt rcvNxt (tcpFinFlag ||| tcpAckFlag)]) rcv (moves + 2) := by
  obtain ⟨addr, block, table, snd, apart, own, other, world, link, count⟩ := linked
  obtain ⟨B, closed, later⟩ := @close_run L table s n.heap addr block sndNxt rcvNxt snd rcv
    up.granted up.cleared apart (few_of_way link few)
  have ran : tcpServerEntry n.listenfd n.world n.app n.heap =
      .ok ((.accepting, busy L (conn s addr block 4 sndNxt rcvNxt .lastAck
        (snd ++ [answer s sndNxt rcvNxt (tcpFinFlag ||| tcpAckFlag)]) rcv)
        (Function.update table 4 false)), B) := by
    rw [app, world, tcpServerEntry, bind_ok closed]
    rfl
  obtain ⟨n', steps, world', serves⟩ := app_step mbufs entries ran later
  refine ⟨n', steps, serves, addr, block, _, _, apart, ?_, ?_, world', ?_, ?_⟩
  · simpa using own
  · simp
  · rw [serves.toClient, ← List.append_assoc, link]
  · rw [serves.toClient, List.length_append, List.length_singleton, count]
    omega

end Calls

section Link

theorem Free.idles (free : Free L n) (up : Up L n) : n.step mbufs entries .out = .ok n := by
  obtain ⟨toClient, table, -, -, world⟩ := free
  rw [Net.step, world, out_idle up.listens]
  change Except.ok { n with world := idle L table, toClient := n.toClient ++ [] } = _
  rw [List.append_nil, ← world]

theorem Linked.still (linked : Linked L n s fd taken status sndNxt rcvNxt [] rcv moves)
    (up : Up L n) : n.step mbufs entries .out = .ok n := by
  obtain ⟨addr, block, table, snd, -, -, -, world, way, -⟩ := linked
  obtain ⟨-, rfl⟩ := List.append_eq_nil_iff.mp way
  rw [Net.step, world, out_still up.listens fd, ← world]
  change Except.ok { n with toClient := n.toClient ++ [] } = _
  rw [List.append_nil]

/-- A pass of the sender moves a fragment from the ring to the link, if one is there. -/
theorem Linked.passes (linked : Linked L n s fd taken status sndNxt rcvNxt out rcv moves)
    (up : Up L n) (room : 0 < mbufs) (known : ngGetDstMacaddr entries s.ip ≠ none) :
    ∃ n', n.step mbufs entries .out = .ok n' ∧ (n' = n ∧ n.toClient = out ∨ ∃ w link,
      n' = { n with world := w, toClient := link } ∧ link ≠ n.toClient ∧
      ∃ fewer, moves = fewer + 1 ∧
        Linked L n' s fd taken status sndNxt rcvNxt out rcv fewer) := by
  obtain ⟨addr, block, table, snd, apart, own, other, world, way, count⟩ := linked
  obtain ⟨packets, ran, built⟩ := @out_busy L table s addr block sndNxt rcvNxt status snd rcv
    entries mbufs up.listens room known fd
  refine ⟨_, by rw [Net.step, world, ran]; rfl, ?_⟩
  cases snd with
  | nil =>
      refine .inl ⟨?_, by rw [← way, List.append_nil]⟩
      rw [built, List.take_nil, List.drop_nil, List.append_nil, ← world]
  | cons f waiting =>
      refine .inr ⟨_, _, rfl, ?_, 2 * waiting.length + n.toClient.length + 1, ?_, ?_⟩
      · rw [built]
        simp
      · rw [count, List.length_cons]
        omega
      · refine ⟨addr, block, table, waiting, apart, own, other, rfl, ?_, ?_⟩
        · rw [built, ← way]
          simp
        · rw [built]
          simp
          omega

/-- What comes off the link is the next of what is under way. -/
theorem Linked.arrives (linked : Linked L n s fd taken status sndNxt rcvNxt out rcv moves)
    {f : Fragment} {rest : List Fragment} (link : n.toClient = f :: rest) :
    ∃ fewer out', moves = fewer + 1 ∧ out = f :: out' ∧
      ∀ n' : Net, n'.world = n.world → n'.toClient = rest →
        Linked L n' s fd taken status sndNxt rcvNxt out' rcv fewer := by
  obtain ⟨addr, block, table, snd, apart, own, other, world, way, count⟩ := linked
  rw [link] at way count
  refine ⟨2 * snd.length + rest.length, rest ++ snd, by rw [count]; rfl, way.symm, ?_⟩
  intro n' world' link'
  exact ⟨addr, block, table, snd, apart, own, other, world'.trans world, by rw [link'],
    by rw [link']⟩

end Link

end Links

end LinuxCpp.Ustack
