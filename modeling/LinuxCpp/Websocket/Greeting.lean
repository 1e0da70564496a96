import LinuxCpp.C.Returns
import LinuxCpp.Websocket.Connections

set_option autoImplicit false

/- Data and handshakes over the runs of the server. -/
namespace LinuxCpp.Websocket

open C Trace

section Invariant

variable {ssl : Openssl} {S S' : Server} {fd : Nat}

/-- A status other than 0 comes from a handshake on the same connection. -/
def Server.Greeted (S : Server) : Prop :=
  ∀ fd, S.interest fd ≠ none → (S.connList fd).status ≠ 0 → Shaken (S.requests fd)

theorem Server.Greeted.safe (greeted : S.Greeted) : S.Safe := by
  rintro fd ⟨isOpen, status⟩
  apply greeted fd
  · rw [isOpen]
    exact Option.some_ne_none _
  · rw [status]
    decide

theorem text_holding {size : Nat} {data : List UInt8} (fits : data.length ≤ size) :
    text (Block.holding data fits) = data.takeWhile (· ≠ 0) := by
  simp only [text, Block.holding]
  generalize size - data.length = n
  induction data with
  | nil => cases n <;> rfl
  | cons b data ih =>
      by_cases isNul : b = 0
      · simp [isNul]
      · simpa [isNul] using ih (Nat.le_of_succ_le fits)

theorem Shaken.more {requests more : List (Conn × Conn)} (shaken : Shaken requests) :
    Shaken (requests ++ more) := by
  obtain ⟨call, member, greeted⟩ := shaken
  exact ⟨call, List.mem_append_left _ member, greeted⟩

theorem Server.Greeted.put (greeted : S.Greeted) {c : Conn} {interest : Option Interest}
    {requests : List (Conn × Conn)}
    (here : interest ≠ none → c.status ≠ 0 → Shaken requests) :
    (S.put fd c interest requests).Greeted := by
  intro other isOpen status
  simp only [Server.put] at isOpen status ⊢
  by_cases same : other = fd
  · subst same
    rw [Function.update_self] at isOpen status ⊢
    exact here isOpen status
  · rw [Function.update_of_ne same] at isOpen status ⊢
    exact greeted other isOpen status

/-- `ws_request` leaves status 0 with a handshake, and decodes only in status 1. -/
theorem wsRequest_shakes {c c' : Conn} (names : c.status = 0 → NamesKey (text c.rbuffer))
    (ran : wsRequest (fun c => (handshark ssl c).map Prod.snd) c = .ok c') :
    c.status ≠ 0 ∨ Shaken [(c, c')] := by
  by_cases status : c.status = 0
  · right
    unfold wsRequest at ran
    rw [if_pos status] at ran
    obtain ⟨c₁, ran₁, returned⟩ := ok_of_bind ran
    obtain ⟨result, answered, rfl⟩ := ok_of_map ran₁
    cases returned
    have wrote := handshark_answers (names status) answered
    exact ⟨_, List.mem_singleton_self _, status, names status, wrote⟩
  · exact .inl status

theorem Server.Greeted.known (greeted : S.Greeted) {interest : Interest}
    (isOpen : S.interest fd = some interest) :
    (S.connList fd).status ≠ 0 → Shaken (S.requests fd) := by
  apply greeted fd
  rw [isOpen]
  exact Option.some_ne_none _

theorem step_greeted {event : Event} (greeted : S.Greeted) (meets : Meets S event)
    (stepped : step ssl S event = .ok S') : S'.Greeted := by
  cases step_cases stepped with
  | idle => exact greeted
  | accepted isClosed => exact greeted.put fun _ status => absurd (meets isClosed) status
  | closed => exact greeted.put fun isNone _ => absurd rfl isNone
  | @received fd data fits c' isOpen nonempty ran =>
      refine greeted.put fun _ _ => ?_
      have names : ((S.connList fd).received data fits).status = 0 →
          NamesKey (text ((S.connList fd).received data fits).rbuffer) := by
        intro status
        rw [Conn.received, text_holding]
        exact meets isOpen status nonempty
      rcases wsRequest_shakes names ran with status | ⟨call, member, shaken⟩
      · exact (greeted.known isOpen status).more
      · exact ⟨call, List.mem_append_right _ member, shaken⟩
  | @sent fd c isOpen ran =>
      by_cases status : (S.connList fd).status = 0
      · have same : wsResponse (S.connList fd) = .ok (S.connList fd) := by
          rw [wsResponse, if_neg (by rw [status]; decide)]
          rfl
        rw [same] at ran
        cases ran
        exact greeted.put fun _ other => greeted.known isOpen other
      · exact greeted.put fun _ _ => greeted.known isOpen status

end Invariant

section Defect

variable {ssl : Openssl} {S S' : Server} {fd : Nat} {c c' : Conn}

/-- A status that the code gives, with a payload in the buffer where one is to be sent. -/
def Ready (c : Conn) : Prop :=
  c.status = 0 ∨ c.status = 1 ∨ c.status = 2 ∧ ∃ p, c.payload = some p ∧ p ≤ bufferLength

/-- A connection in status 0 made no request yet. -/
def Server.Regular (S : Server) : Prop :=
  ∀ fd, Ready (S.connList fd) ∧
    (S.interest fd ≠ none → (S.connList fd).status = 0 → S.requests fd = [])

theorem Server.Regular.put (regular : S.Regular) {interest : Option Interest}
    {requests : List (Conn × Conn)} (ready : Ready c)
    (first : interest ≠ none → c.status = 0 → requests = []) :
    (S.put fd c interest requests).Regular := by
  intro other
  simp only [Server.put]
  by_cases same : other = fd
  · subst same
    rw [Function.update_self, Function.update_self, Function.update_self]
    exact ⟨ready, first⟩
  · rw [Function.update_of_ne same, Function.update_of_ne same, Function.update_of_ne same]
    exact regular other

/-- The payload begins behind one of the three headers. -/
theorem decodePacket_start {size : Nat} (stream : Block size) (mask : Block 4) :
    Returns (decodePacket stream mask) fun packet => packet.start ≤ 14 := by
  have header : ∀ hdr, Returns (readHeader stream mask hdr) fun read => read.2.1 ≤ 14 := by
    intro hdr
    unfold readHeader
    refine .ite ?_ (.pure (Nat.le_of_ble_eq_true rfl))
    refine .ite ?_ (.ite ?_ ?_)
    · exact .skip fun _ => .skip fun _ => .skip fun _ => .pure (Nat.le_of_ble_eq_true rfl)
    · exact .skip fun _ => .skip fun _ => .skip fun _ => .pure (Nat.le_of_ble_eq_true rfl)
    · exact .skip fun _ => .skip fun _ => .pure (Nat.le_of_ble_eq_true rfl)
  unfold decodePacket
  refine .skip fun _ => .skip fun _ => (header _).bind fun read start => ?_
  refine .ite (.skip fun _ => .pure start) (.pure start)

/-- Whatever the handshake found. -/
theorem wsRequest_first (handshark : Conn → Except Fault Conn) (status : c.status = 0) :
    Returns (wsRequest handshark c) fun c' => c'.status = 1 := by
  unfold wsRequest
  rw [if_pos status]
  exact .skip fun _ => .pure rfl

theorem wsRequest_ready (handshark : Conn → Except Fault Conn) (ready : Ready c) :
    Returns (wsRequest handshark c) fun c' => Ready c' ∧ c'.status ≠ 0 := by
  unfold wsRequest
  rcases ready with status | status | ⟨status, payload⟩
  · rw [if_pos status]
    exact .skip fun _ => .pure ⟨.inr (.inl rfl), (by decide : (1 : Int) ≠ 0)⟩
  · rw [if_neg (by rw [status]; decide), if_pos status]
    refine (decodePacket_start _ _).bind fun packet start => ?_
    have inside : packet.start ≤ bufferLength := Nat.le_trans start (by decide)
    refine .ite (.pure ⟨.inr (.inr ⟨rfl, _, rfl, inside⟩), ?_⟩) (.pure ⟨.inr (.inl status), ?_⟩)
    · exact (by decide : (2 : Int) ≠ 0)
    · exact fun isZero => absurd (status.symm.trans isZero) (by decide)
  · rw [if_neg (by rw [status]; decide), if_neg (by rw [status]; decide)]
    refine .pure ⟨.inr (.inr ⟨status, payload⟩), ?_⟩
    exact fun isZero => absurd (status.symm.trans isZero) (by decide)

theorem wsResponse_ready (ready : Ready c) :
    Returns (wsResponse c) fun c' => Ready c' ∧ (c'.status = 0 → c.status = 0) := by
  unfold wsResponse
  by_cases sends : c.status = 2
  · rw [if_pos sends]
    cases c.payload with
    | none => exact .error _
    | some p =>
        refine .skip fun _ => .pure ⟨.inr (.inl rfl), fun isZero => ?_⟩
        exact absurd isZero (by decide : (1 : Int) ≠ 0)
  · rw [if_neg sends]
    exact .pure ⟨ready, id⟩

theorem step_regular {event : Event} (regular : S.Regular)
    (stepped : step ssl S event = .ok S') : S'.Regular := by
  cases step_cases stepped with
  | idle => exact regular
  | accepted isClosed => exact regular.put (regular _).1 fun _ _ => rfl
  | closed => exact regular.put (regular _).1 fun isNone => absurd rfl isNone
  | @received fd data fits c' isOpen nonempty ran =>
      have ready : Ready ((S.connList fd).received data fits) := (regular fd).1
      obtain ⟨ready', other⟩ := (wsRequest_ready _ ready).of_ok c' ran
      exact regular.put ready' fun _ isZero => absurd isZero other
  | @sent fd c isOpen ran =>
      obtain ⟨ready, same⟩ := (wsResponse_ready (regular fd).1).of_ok c ran
      refine regular.put ready fun _ isZero => (regular fd).2 ?_ (same isZero)
      rw [isOpen]
      exact Option.some_ne_none _

/-- A connection in status 1 without a handshake is decoded. -/
theorem not_safe {requests : List (Conn × Conn)} (status : c.status = 1)
    (unshaken : ¬ Shaken requests) : ¬ (S.put fd c (some .epollin) requests).Safe := by
  intro safe
  have shaken := safe fd ⟨put_interest, by rw [put_connList, status]⟩
  rw [put_requests] at shaken
  exact unshaken shaken

/-- The answer is sent, and the connection is read again. -/
theorem send_put {requests : List (Conn × Conn)} (ran : wsResponse c = .ok c') :
    step ssl (S.put fd c (some .epollout) requests) (.send fd) =
      .ok ((S.put fd c (some .epollout) requests).put fd c' (some .epollin) requests) := by
  rw [step, put_interest, if_pos rfl, sendCb, put_connList, ran, put_requests]
  rfl

theorem encodePacket_empty {p : Nat} (buffer block : Block bufferLength)
    (inside : p ≤ bufferLength) : ∃ sent, encodePacket buffer block p 0 = .ok sent := by
  let head := { Ophdr.zeroed with fin := 1, opcode := 1 }
  have room : 0 + { head with payloadLength := .ofInt ((0 : Int) % 128) }.bytes.length ≤
      bufferLength := by decide
  obtain ⟨first, wrote⟩ := buffer.store_inside _ room
  have header : writeHeader buffer 0 = .ok (2, first) := by
    unfold writeHeader
    rw [if_pos (by decide), wrote]
    rfl
  have read : block.load p (0 : Int).toNat = .ok [] := by
    have inside' : p + 0 ≤ block.bytes.length := by
      rw [block.length]
      exact inside
    rw [Block.load, Int.toNat_zero, loadAt_eq inside', List.take_zero]
  obtain ⟨last, wrote'⟩ := first.store_inside [] (by decide : 2 + [].length ≤ bufferLength)
  unfold encodePacket
  rw [header, ok_bind]
  dsimp only
  rw [if_neg (by decide), read]
  exact ⟨(2 + 0, last), by rw [ok_bind, wrote']; rfl⟩

theorem wsResponse_status (status : c.status = 2) (empty : c.wlength = 0) {p : Nat}
    (payload : c.payload = some p) (inside : p ≤ bufferLength) :
    ∃ c', wsResponse c = .ok c' ∧ c'.status = 1 := by
  obtain ⟨⟨wlength, wbuffer⟩, ran⟩ := encodePacket_empty c.wbuffer c.rbuffer inside
  unfold wsResponse
  rw [if_pos status, payload]
  dsimp only
  rw [empty, ran]
  exact ⟨_, rfl, rfl⟩

/-- An accepted descriptor with a status decodes what comes first. -/
theorem accept_unsafe (ready : Ready c) (status : c.status ≠ 0) (empty : c.wlength = 0) :
    ∃ more last, runs (step ssl) (S.put fd c (some .epollin) []) more = .ok last ∧
      ¬ last.Safe := by
  have nobody : ¬ Shaken [] := by
    rintro ⟨call, member, -⟩
    exact List.not_mem_nil member
  rcases ready with isZero | isOne | ⟨isTwo, p, payload, inside⟩
  · exact absurd isZero status
  · exact ⟨[], _, rfl, not_safe isOne nobody⟩
  · -- a first message goes unread, and its answer is the old payload
    let c₁ := c.received [0] (by decide)
    have status₁ : c₁.status = 2 := isTwo
    have unread : wsRequest (fun c => (handshark ssl c).map Prod.snd) c₁ = .ok c₁ := by
      unfold wsRequest
      rw [if_neg (by rw [status₁]; decide), if_neg (by rw [status₁]; decide)]
      rfl
    obtain ⟨c₂, sent, status₂⟩ := wsResponse_status status₁ empty payload inside
    have received : step ssl (S.put fd c (some .epollin) []) (.receive fd [0] (by decide)) =
        .ok ((S.put fd c (some .epollin) []).put fd c₁ (some .epollout) [(c₁, c₁)]) := by
      rw [step, put_interest, if_pos rfl, recvCb, if_neg (List.cons_ne_nil _ _), put_connList,
        put_requests]
      dsimp only
      rw [unread]
      rfl
    refine ⟨[.receive fd [0] (by decide), .send fd], _,
      (runs_cons received).trans (runs_cons (send_put sent)), not_safe status₂ ?_⟩
    rintro ⟨call, member, isZero, -⟩
    rw [List.mem_singleton.mp member, status₁] at isZero
    exact absurd isZero (by decide)

/-- A first request without a key counts as a handshake. -/
theorem keyless_unsafe (status : c'.status = 1) (keyless : ¬ NamesKey (text c.rbuffer)) :
    ∃ more last, runs (step ssl) (S.put fd c' (some .epollout) [(c, c')]) more = .ok last ∧
      ¬ last.Safe := by
  have silent : wsResponse c' = .ok c' := by
    unfold wsResponse
    rw [if_neg (by rw [status]; decide)]
    rfl
  refine ⟨[.send fd], _, runs_cons (send_put silent), not_safe status ?_⟩
  rintro ⟨call, member, -, names, -⟩
  rw [List.mem_singleton.mp member] at names
  exact keyless names

theorem step_breaks {event : Event} (regular : S.Regular) (stepped : step ssl S event = .ok S')
    (broken : ¬ Meets S event) :
    ∃ more last, runs (step ssl) S' more = .ok last ∧ ¬ last.Safe := by
  cases event with
  | accept fd =>
      simp only [Meets, Classical.not_imp] at broken
      obtain ⟨isClosed, status⟩ := broken
      simp only [step, if_pos isClosed, eventRegister] at stepped
      split at stepped
      · cases stepped
        exact accept_unsafe (regular fd).1 status rfl
      · cases stepped
  | receive fd data fits =>
      simp only [Meets, Classical.not_imp] at broken
      obtain ⟨isOpen, status, nonempty, keyless⟩ := broken
      have first : S.requests fd = [] :=
        (regular fd).2 (by rw [isOpen]; exact Option.some_ne_none _) status
      simp only [step, if_pos isOpen, recvCb, if_neg nonempty, first, List.nil_append] at stepped
      have isFirst : ((S.connList fd).received data fits).status = 0 := status
      obtain ⟨c', ran, returned⟩ := ok_of_bind stepped
      cases returned
      refine keyless_unsafe ?_ ?_
      · exact (wsRequest_first _ isFirst).of_ok c' ran
      · rw [Conn.received, text_holding]
        exact keyless
  | send fd => exact absurd trivial broken
  | close fd => exact absurd trivial broken

end Defect

/-- In a run whose steps meet the condition nothing is decoded in front of a handshake. After
a step that does not meet it, something can be. -/
theorem data_after_handshake (ssl : Openssl) (events : List Event)
    (along : Along (step ssl) Meets .start events) :
    Throughout (step ssl) Server.Safe .start events ∧
      ∀ S event next, runs (step ssl) .start events = .ok S → step ssl S event = .ok next →
        ¬ Meets S event → ∃ more last, runs (step ssl) next more = .ok last ∧ ¬ last.Safe := by
  have greeted : Server.start.Greeted := fun fd isOpen => absurd rfl isOpen
  have regular : Server.start.Regular := fun fd => ⟨.inl rfl, fun isOpen => absurd rfl isOpen⟩
  refine ⟨?_, ?_⟩
  · rintro past later rfl S ran
    have kept : S.Greeted := along.beginning.invariant _ greeted
      (fun _ _ _ holds meets stepped => step_greeted holds meets stepped) ran
    exact kept.safe
  · intro S event next ran stepped broken
    have kept : S.Regular := along.invariant _ regular
      (fun _ _ _ holds _ stepped => step_regular holds stepped) ran
    exact step_breaks kept stepped broken

/-- OpenSSL on the key of the sample. -/
def sampleSsl : Openssl where
  sha1 := fun _ =>
    [179, 122, 79, 44, 192, 98, 79, 22, 144, 246, 70, 6, 207, 56, 89, 69, 178, 190, 196, 234]
  base64 := fun _ =>
    charBytes ['s', '3', 'p', 'P', 'L', 'M', 'B', 'i', 'T', 'x', 'a', 'Q', '9', 'k', 'Y', 'G', 'z',
      'z', 'h', 'Z', 'R', 'b', 'K', '+', 'x', 'O', 'o', '=']

def sampleRequest : List UInt8 :=
  charBytes ['G', 'E', 'T', ' ', '/', ' ', 'H', 'T', 'T', 'P', '/', '1', '.', '1', '\r', '\n',
    'S', 'e', 'c', '-', 'W', 'e', 'b', 'S', 'o', 'c', 'k', 'e', 't', '-', 'K', 'e',
    'y', ':', ' ', 'd', 'G', 'h', 'l', 'I', 'H', 'N', 'h', 'b', 'X', 'B', 's', 'Z',
    'S', 'B', 'u', 'b', '2', '5', 'j', 'Z', 'Q', '=', '=', '\r', '\n', '\r', '\n']

theorem data_after_handshake_sample :
    Throughout (step sampleSsl) Server.Safe .start
        [.accept 5, .receive 5 sampleRequest (by decide), .send 5] ∧
      ∀ S event next, runs (step sampleSsl) .start
          [.accept 5, .receive 5 sampleRequest (by decide), .send 5] = .ok S →
        step sampleSsl S event = .ok next → ¬ Meets S event →
        ∃ more last, runs (step sampleSsl) next more = .ok last ∧ ¬ last.Safe := by
  apply data_after_handshake
  refine ⟨fun _ => rfl, fun _ _ => ⟨fun _ _ _ => ?_, fun _ _ => ⟨trivial, fun _ _ => trivial⟩⟩⟩
  exact ⟨_, rfl, rfl⟩

def keylessRequest : List UInt8 :=
  charBytes ['G', 'E', 'T', ' ', '/', ' ', 'H', 'T', 'T', 'P', '/', '1', '.', '1', '\r',
    '\n', '\r', '\n']

/-- Behind a request without a key the next bytes are decoded. -/
theorem keyless_decodes :
    ∃ S, runs (step sampleSsl) .start
        [.accept 5, .receive 5 keylessRequest (by decide), .send 5] = .ok S ∧
      S.Decodes 5 ∧ ¬ Shaken (S.requests 5) := by
  have fits : keylessRequest.length ≤ bufferLength := by decide
  let c := Conn.zeroed.received keylessRequest fits
  have isText : text c.rbuffer = keylessRequest := text_holding fits
  have short : (text c.rbuffer).length < bufferLength := by
    rw [isText]
    decide
  have noKey : keyLine (bufferLength + 1) keylessRequest = none := rfl
  have nothing : handshark sampleSsl c = .ok (0, c) := by
    rw [handshark_eq sampleSsl short, isText, noKey]
    rfl
  have received : step sampleSsl (Server.start.put 5 .zeroed (some .epollin) [])
      (.receive 5 keylessRequest (by decide)) =
        .ok ((Server.start.put 5 .zeroed (some .epollin) []).put 5 { c with status := 1 }
          (some .epollout) [(c, { c with status := 1 })]) := by
    have request : wsRequest (fun c => (handshark sampleSsl c).map Prod.snd) c =
        .ok { c with status := 1 } := by
      have isFirst : c.status = 0 := rfl
      unfold wsRequest
      rw [if_pos isFirst]
      dsimp only
      rw [nothing]
      rfl
    have nonempty : keylessRequest ≠ [] := by decide
    rw [step, put_interest, if_pos rfl, recvCb, if_neg nonempty, put_connList, put_requests]
    dsimp only
    rw [request]
    rfl
  have silent : wsResponse { c with status := 1 } = .ok { c with status := 1 } := rfl
  have accepted : step sampleSsl .start (.accept 5) =
      .ok (Server.start.put 5 .zeroed (some .epollin) []) := rfl
  refine ⟨_, (runs_cons accepted).trans ((runs_cons received).trans
    (runs_cons (send_put silent))), ⟨put_interest, by rw [put_connList]⟩, ?_⟩
  rw [put_requests]
  rintro ⟨call, member, -, ⟨line, isLine, -⟩, -⟩
  rw [List.mem_singleton.mp member, isText, noKey] at isLine
  cases isLine

end LinuxCpp.Websocket
