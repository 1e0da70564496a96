import LinuxCpp.Ustack.Ownership

set_option autoImplicit false

/- The ARP table over runs of the stack: it is what the replies to the local address have
said, the first one for each address, whatever the other threads do in between. -/
namespace LinuxCpp.Ustack

open C Trace

/-- A hardware address in a frame. -/
def fieldMac (bytes : List UInt8) (i : Nat) : Mac :=
  .ofFn fun k => ((bytes.drop i).take 6).getD k 0

/-- The sender of an ARP packet of this kind for this address, as `pkt_process` reads it: the
Ethernet destination of the frame is not looked at. -/
def arpPacket (opcode : UInt16) (ip : UInt32) (bytes : List UInt8) : Option ArpEntry :=
  if field16 bytes etherType = ntohs rteEtherTypeArp ∧ field32 bytes arpTip = ip ∧
      field16 bytes arpOpcode = ntohs opcode then
    some ⟨field32 bytes arpSip, fieldMac bytes arpSha⟩
  else none

/-- The first answer for an address stays. -/
def hear (entries : List ArpEntry) (e : ArpEntry) : List ArpEntry :=
  if (ngGetDstMacaddr entries e.ip).isSome then entries else e :: entries

/-- The frames that a step hands to the body of `pkt_process`. -/
def Stack.takes (s : Stack) : Action → List (List UInt8)
  | .process _ _ => (s.mbufs.head?.map RxMbuf.bytes).toList
  | _ => []

/-- The frames that have gone through `pkt_process` in a run. -/
def processed (K : Cksums) (behind : Offload → List UInt8) :
    Stack → List Action → List (List UInt8)
  | _, [] => []
  | s, a :: later =>
      match s.step K behind a with
      | .error _ => []
      | .ok s' => s.takes a ++ processed K behind s' later

/-- The frames of a step that come from the device. -/
def Action.frames : Action → List (List UInt8)
  | .rx frames => frames
  | _ => []

/-- The frames that wait for `pkt_process`. -/
def Stack.waiting (s : Stack) : List (List UInt8) := (s.mbufs ++ s.inRing).map RxMbuf.bytes

section Lookup

variable (entries : List ArpEntry) (e : ArpEntry) (ip : UInt32)

theorem ngGetDstMacaddr_hear : ngGetDstMacaddr (hear entries e) ip =
    (ngGetDstMacaddr entries ip).or (if ip = e.ip then some e.hwaddr else none) := by
  unfold hear
  by_cases same : ip = e.ip
  · subst same
    rw [if_pos rfl]
    cases known : ngGetDstMacaddr entries e.ip with
    | some mac => exact known
    | none => simp [ngGetDstMacaddr]
  · rw [if_neg same, Option.or_none]
    split
    · rfl
    · simp [ngGetDstMacaddr, same]

theorem ngGetDstMacaddr_heard (heard : List ArpEntry) :
    ngGetDstMacaddr (heard.foldl hear entries) ip =
      (ngGetDstMacaddr entries ip).or ((heard.find? fun e => ip = e.ip).map ArpEntry.hwaddr) := by
  induction heard generalizing entries with
  | nil => exact (Option.or_none).symm
  | cons first rest ih =>
      rw [List.foldl_cons, ih, ngGetDstMacaddr_hear, Option.or_assoc, List.find?_cons]
      by_cases same : ip = first.ip <;> simp [same]

end Lookup

theorem arpReply_hears {entries entries' : List ArpEntry} {sip : UInt32} {sha : Mac}
    {A B : Allocator} (granted : A.AllSucceed)
    (ran : arpReply entries sip sha A = .ok (entries', B)) :
    entries' = hear entries ⟨sip, sha⟩ := by
  unfold arpReply at ran
  unfold hear
  cases known : ngGetDstMacaddr entries sip with
  | some mac =>
      rw [known] at ran
      cases ran
      rfl
  | none =>
      rw [known] at ran
      dsimp only at ran
      rw [bind_ok (malloc_run granted)] at ran
      cases ran
      rfl

section Reads

variable {α β : Type} {x : PM α} {f : α → PM β} {m : Mbuf} {A : Allocator} {i n : Nat}
  {done : (β × Mbuf) × Allocator}

theorem run_of_read {f : List UInt8 → PM β} (ran : (read i n >>= f) m A = .ok done) :
    f ((m.bytes.drop i).take n) m.seen A = .ok done := by
  cases loaded : loadAt m.bytes i n with
  | error fault =>
      have failed : (read i n >>= f) m A = .error fault := by
        show (read i n m A >>= fun done => f done.1.1 done.1.2 done.2) = _
        rw [read, loaded]
        rfl
      rw [failed] at ran
      cases ran
  | ok bytes =>
      obtain ⟨-, rfl⟩ := loadAt_ok loaded
      rwa [read_run loaded] at ran

theorem run_of_read16 {f : UInt16 → PM β} (ran : (read16 i >>= f) m A = .ok done) :
    f (field16 m.bytes i) m.seen A = .ok done := by
  rw [read16, bind_assoc] at ran
  simp only [pure_bind] at ran
  exact run_of_read ran

theorem run_of_read32 {f : UInt32 → PM β} (ran : (read32 i >>= f) m A = .ok done) :
    f (field32 m.bytes i) m.seen A = .ok done := by
  rw [read32, bind_assoc] at ran
  simp only [pure_bind] at ran
  exact run_of_read ran

theorem run_of_readMac {f : Mac → PM β} (ran : (readMac i >>= f) m A = .ok done) :
    f (fieldMac m.bytes i) m.seen A = .ok done := by
  rw [readMac, bind_assoc] at ran
  simp only [pure_bind] at ran
  exact run_of_read ran

/-- A step of code on a buffer. -/
theorem run_of_step (ran : (x >>= f) m A = .ok done) :
    ∃ a m' B, x m A = .ok ((a, m'), B) ∧ f a m' B = .ok done := by
  obtain ⟨⟨⟨a, m'⟩, B⟩, first, rest⟩ := ok_of_bind ran
  exact ⟨a, m', B, first, rest⟩

/-- Code that does not touch the buffer. -/
theorem run_of_code {x : CM α} (ran : ((liftM x : PM α) >>= f) m A = .ok done) :
    ∃ a B, x A = .ok (a, B) ∧ f a m B = .ok done := by
  obtain ⟨a, m', B, lifted, rest⟩ := run_of_step ran
  obtain ⟨⟨a', B'⟩, first, returned⟩ := ok_of_bind lifted
  cases returned
  exact ⟨a, B, first, rest⟩

end Reads

section Memory

variable {α β : Type} {x : PM α} {f : α → PM β}

theorem grows_bind (first : ∀ m, Grows (x m)) (next : ∀ a m, Grows (f a m)) (m : Mbuf) :
    Grows ((x >>= f) m) := (first m).bind fun done => next done.1 done.2

theorem grows_pure (a : α) (m : Mbuf) : Grows ((pure a : PM α) m) := .pure _

theorem grows_code {x : CM α} (grows : Grows x) (m : Mbuf) : Grows ((liftM x : PM α) m) := by
  show Grows (x >>= fun a => pure (a, m))
  exact grows.bind fun _ => .pure _

theorem grows_read (i n : Nat) (m : Mbuf) : Grows (read i n m) :=
  .bind (.lift _) fun _ => .pure _

theorem grows_read8 (i : Nat) : ∀ m, Grows (read8 i m) :=
  grows_bind (grows_read i 1) fun _ => grows_pure _

theorem grows_read16 (i : Nat) : ∀ m, Grows (read16 i m) :=
  grows_bind (grows_read i 2) fun _ => grows_pure _

theorem grows_read32 (i : Nat) : ∀ m, Grows (read32 i m) :=
  grows_bind (grows_read i 4) fun _ => grows_pure _

theorem grows_readMac (i : Nat) : ∀ m, Grows (readMac i m) :=
  grows_bind (grows_read i 6) fun _ => grows_pure _

theorem grows_free (m : Mbuf) : Grows (rtePktmbufFree m) := .pure _

theorem grows_ite {c : Prop} [Decidable c] {y : PM α} (yes : ∀ m, Grows (x m))
    (no : ∀ m, Grows (y m)) (m : Mbuf) : Grows ((if c then x else y) m) := by
  split
  · exact yes m
  · exact no m

theorem udpProcess_grows (w : World) : ∀ m, Grows (udpProcess w m) := by
  have freed {ret : Int} {w' : World} : ∀ m, Grows ((do
      rtePktmbufFree
      return (ret, w') : PM (Int × World)) m) := grows_bind grows_free fun _ => grows_pure _
  unfold udpProcess
  refine grows_bind (grows_read32 _) fun _ => grows_bind (grows_read16 _) fun _ =>
    grows_bind (grows_read32 _) fun dip => grows_bind (grows_read16 _) fun dport =>
    grows_bind (grows_read8 _) fun proto => ?_
  cases getHostinfoFromipPort w dip dport proto with
  | none => exact freed
  | some host =>
      refine grows_bind (grows_code .malloc) ?_
      rintro (_ | block)
      · exact freed
      · refine grows_bind (grows_read32 _) fun _ => grows_bind (grows_read32 _) fun _ =>
          grows_bind (grows_read16 _) fun _ => grows_bind (grows_read16 _) fun _ =>
          grows_bind (grows_read16 _) fun length => grows_bind (grows_code (rteMalloc_grows _)) ?_
        rintro (_ | block')
        · exact freed
        · exact grows_bind (grows_read _ _) fun _ => freed

theorem ngTcpProcessMbuf_grows (K : Cksums) (isn : UInt32) (w : World) :
    ∀ m, Grows (ngTcpProcessMbuf K isn w m) := by
  have segment (m : Mbuf) : Grows (readSegment K m) := .bind (.lift _) fun _ => .pure _
  exact grows_bind segment fun seg => grows_code (ngTcpProcess_grows isn w seg)

theorem sendReply_grows (free : Nat) (reply : Reply) (m : Mbuf) :
    Grows (sendReply free reply m) := by
  unfold sendReply
  split
  · exact .pure _
  · exact .throw _

theorem ifProto_grows {proto : UInt8} {w : World} {handler : PM World}
    (grows : ∀ m, Grows (handler m)) : ∀ m, Grows (ifProto proto w handler m) :=
  grows_bind (grows_read8 _) fun _ => grows_ite grows (grows_pure w)

theorem ipProcess_grows (K : Cksums) (isn : UInt32) (free : Nat) (w : World) :
    ∀ m, Grows (ipProcess K isn free w m) := by
  have second {α : Type} {x : PM (α × World)} (grows : ∀ m, Grows (x m)) :
      ∀ m, Grows ((Prod.snd <$> x) m) := by
    rw [← bind_pure_comp]
    exact grows_bind grows fun _ => grows_pure _
  have icmp : ∀ m, Grows (icmpProcess free m) := by
    unfold icmpProcess
    refine grows_bind (grows_read32 _) fun _ => grows_bind (grows_read8 _) fun _ =>
      grows_ite ?_ (grows_pure _)
    exact grows_bind (grows_read32 _) fun _ => grows_bind (grows_readMac _) fun _ =>
      grows_bind (grows_read16 _) fun _ => grows_bind (grows_read16 _) fun _ =>
      grows_bind (sendReply_grows _ _) fun _ => grows_bind grows_free fun _ => grows_pure _
  unfold ipProcess
  refine grows_bind (ifProto_grows (second (udpProcess_grows w))) fun w =>
    grows_bind (ifProto_grows (second (ngTcpProcessMbuf_grows K isn w))) fun w =>
    grows_bind (grows_read8 _) fun _ => grows_ite ?_ (grows_pure _)
  exact grows_bind icmp fun _ => grows_pure _

end Memory

section Process

variable {K : Cksums} {isn : UInt32} {free : Nat} {w w' : World} {entries entries' : List ArpEntry}
  {reply : Option Reply} {m m' : Mbuf} {A B : Allocator}

theorem arpReply_grows (sip : UInt32) (sha : Mac) : Grows (arpReply entries sip sha) := by
  unfold arpReply
  split
  · exact .pure _
  · refine .bind .malloc ?_
    rintro (_ | block) <;> exact .pure _

theorem sendReply_ran {reply reply' : Reply}
    (ran : sendReply free reply m A = .ok ((reply', m'), B)) :
    reply' = reply ∧ m' = m ∧ B = A := by
  unfold sendReply at ran
  split at ran
  · cases ran
    exact ⟨rfl, rfl, rfl⟩
  · cases ran

/-- What an ARP packet for the local address changes. -/
theorem arpProcess_hears (granted : A.AllSucceed) (arp : field16 m.bytes etherType =
      ntohs rteEtherTypeArp) (here : field32 m.bytes arpTip = gLocalIp)
    (ran : arpProcess free entries m A = .ok (((entries', reply), m'), B)) :
    A.Later B ∧
      entries' = (arpPacket rteArpOpReply gLocalIp m.bytes).toList.foldl hear entries := by
  have opcodes : ntohs rteArpOpRequest ≠ ntohs rteArpOpReply := by decide
  unfold arpProcess at ran
  have ran := run_of_read16 ran
  unfold arpPacket
  split at ran
  · rename_i request
    rw [if_neg fun told => opcodes (request.symm.trans told.2.2)]
    have ran := run_of_read32 (run_of_read32 (run_of_readMac ran))
    obtain ⟨sent, m₁, B₁, first, returned⟩ := run_of_step ran
    obtain ⟨-, -, same⟩ := sendReply_ran first
    cases returned
    exact ⟨same ▸ .refl _, rfl⟩
  · split at ran
    · rename_i other answer
      rw [if_pos ⟨arp, here, answer⟩]
      have ran := run_of_readMac (run_of_read32 ran)
      obtain ⟨table, B₁, first, ran⟩ := run_of_code ran
      cases ran
      exact ⟨(arpReply_grows _ _).later _ _ _ first, arpReply_hears granted first⟩
    · rename_i other neither
      rw [if_neg fun told => neither told.2.2]
      cases ran
      exact ⟨.refl _, rfl⟩

/-- What a frame makes of the ARP table. -/
theorem pktProcess_hears (granted : A.AllSucceed)
    (ran : pktProcess K isn free w entries m A = .ok (((w', entries', reply), m'), B)) :
    A.Later B ∧
      entries' = (arpPacket rteArpOpReply gLocalIp m.bytes).toList.foldl hear entries := by
  unfold pktProcess at ran
  have ran := run_of_read16 ran
  split at ran
  · rename_i arp
    have ran := run_of_read32 ran
    split at ran
    · rename_i here
      obtain ⟨table, m₁, B₁, first, ran⟩ := run_of_step ran
      cases ran
      exact arpProcess_hears (m := m.seen.seen) granted arp here first
    · rename_i elsewhere
      cases ran
      rw [arpPacket, if_neg fun told => elsewhere told.2.1]
      exact ⟨.refl _, rfl⟩
  · rename_i other
    rw [arpPacket, if_neg fun told => other told.1]
    split at ran
    · cases ran
      exact ⟨.refl _, rfl⟩
    · obtain ⟨done, m₁, B₁, first, ran⟩ := run_of_step ran
      cases ran
      exact ⟨(ipProcess_grows K isn free w _).later _ _ _ first, rfl⟩

end Process

section Steps

variable {K : Cksums} {behind : Offload → List UInt8} {s s' : Stack} {a : Action}

/-- What a step does with the frames that wait, with the table, and with the memory. -/
structure Stack.Turns (s s' : Stack) (a : Action) : Prop where
  later : s.heap.Later s'.heap
  queue : (s.takes a ++ s'.waiting).Sublist (s.waiting ++ a.frames)
  table : s'.arp =
    ((s.takes a).filterMap (arpPacket rteArpOpReply gLocalIp)).foldl hear s.arp

/-- A step that has nothing to do with received frames. -/
theorem Stack.Turns.aside (idle : s.takes a = []) (later : s.heap.Later s'.heap)
    (waiting : s'.waiting = s.waiting) (table : s'.arp = s.arp) : s.Turns s' a := by
  refine ⟨later, ?_, ?_⟩
  · rw [idle, waiting, List.nil_append]
    exact List.sublist_append_left _ _
  · rw [idle, table]
    rfl

/-- A packet of the stack's own. -/
theorem Stack.Turns.put {t : Stack} (turns : s.Turns t a) : s.Turns t.put a :=
  ⟨turns.later, turns.queue, turns.table⟩

theorem rx_turns {frames : List (List UInt8)} (ran : s.rx frames = .ok s') :
    s.Turns s' (.rx frames) := by
  unfold Stack.rx at ran
  split at ran
  · cases ran
  · cases ran
    refine ⟨.refl _, ?_, rfl⟩
    have bytes : (frames.zipIdx.map fun frame =>
        (⟨s.obtained + frame.2, frame.1⟩ : RxMbuf)).map RxMbuf.bytes = frames := by
      rw [List.map_map]
      exact List.zipIdx_map_fst 0 frames
    show ((s.mbufs ++ enqueueBurst s.inRing _).map RxMbuf.bytes).Sublist _
    rw [List.map_append, enqueueBurst_map, bytes, Stack.waiting, List.map_append,
      List.append_assoc]
    exact ((List.take_sublist _ _).append_left _).append_left _

theorem arpRequests_turns {i free : Nat} (idle : s.takes a = [])
    (ran : Stack.arpRequests i free s = .ok s') : s.Turns s' a := by
  have same : s'.heap = s.heap ∧ s'.waiting = s.waiting ∧ s'.arp = s.arp := by
    clear idle
    induction i generalizing free s with
    | zero =>
        cases ran
        exact ⟨rfl, rfl, rfl⟩
    | succ i ih =>
        obtain _ | free := free
        · cases ran
        · unfold Stack.arpRequests at ran
          split at ran
          · have rest := ih ran
            exact rest
          · have rest := ih ran
            exact rest
  exact .aside idle (same.1 ▸ .refl _) same.2.1 same.2.2

theorem dequeue_turns : s.Turns s.dequeue .dequeue := by
  apply Stack.Turns.aside rfl
  · unfold Stack.dequeue
    split <;> exact .refl _
  · unfold Stack.dequeue
    split
    · rename_i empty
      show (s.inRing.take burstSize ++ s.inRing.drop burstSize).map RxMbuf.bytes = _
      rw [List.take_append_drop, Stack.waiting, empty, List.nil_append]
    · rfl
  · unfold Stack.dequeue
    split <;> rfl

theorem process_turns (granted : s.heap.AllSucceed) {isn : UInt32} {free : Nat}
    (ran : s.process K isn free = .ok s') : s.Turns s' (.process isn free) := by
  unfold Stack.process at ran
  cases burst : s.mbufs with
  | nil =>
      rw [burst] at ran
      cases ran
      exact .aside (by rw [Stack.takes, burst]; rfl) (.refl _) rfl rfl
  | cons rx rest =>
      rw [burst] at ran
      dsimp only at ran
      obtain ⟨⟨⟨⟨w, arp, reply⟩, m⟩, heap⟩, run, ran⟩ := ok_of_bind ran
      obtain ⟨later, table⟩ := pktProcess_hears granted run
      have frame : s.takes (.process isn free) = [rx.bytes] := by
        rw [Stack.takes, burst]
        rfl
      have turns {world : World} {fates : Nat → Fate} : s.Turns { s with
          world := world
          heap := heap
          arp := arp
          mbufs := rest
          fates := fates } (.process isn free) := by
        refine ⟨later, ?_, ?_⟩
        · show (s.takes _ ++ (rest ++ s.inRing).map RxMbuf.bytes).Sublist
            ((s.mbufs ++ s.inRing).map RxMbuf.bytes ++ [])
          rw [frame, burst]
          exact List.sublist_append_left _ _
        · rw [frame, table, List.filterMap_cons]
          cases arpPacket rteArpOpReply gLocalIp rx.bytes <;> rfl
      cases reply with
      | none =>
          cases ran
          exact turns
      | some reply =>
          cases ran
          exact turns.put

theorem allocPut_turns {t : Stack} {free : Nat} (turns : s.Turns t a)
    (ran : t.allocPut free = .ok s') : s.Turns s' a := by
  unfold Stack.allocPut at ran
  split at ran
  · cases ran
  · cases ran
    exact turns.put

theorem udpOut_turns {host : Nat} {localmac : Mac} {room : List UInt8} {free : Nat}
    (ran : s.udpOut K behind host localmac room free = .ok s') :
    s.Turns s' (.udpOut host localmac room free) := by
  unfold Stack.udpOut at ran
  split at ran
  · cases ran
    exact .aside rfl (.refl _) rfl rfl
  · obtain ⟨⟨out, h⟩, -, ran⟩ := ok_of_bind ran
    have turns : s.Turns { s with world := s.world.putHost h } (.udpOut host localmac room free) :=
      .aside rfl (.refl _) rfl rfl
    cases out with
    | nothing =>
        cases ran
        exact turns
    | arpRequest sip dip => exact allocPut_turns turns ran
    | frame bytes => exact allocPut_turns turns ran

theorem tcpOut_turns {stream free : Nat} (ran : s.tcpOut stream free = .ok s') :
    s.Turns s' (.tcpOut stream free) := by
  unfold Stack.tcpOut at ran
  split at ran
  · cases ran
    exact .aside rfl (.refl _) rfl rfl
  · rename_i t found
    have turns : s.Turns { s with world := s.world.put (ngTcpOutStream s.arp t).2 }
        (.tcpOut stream free) := .aside rfl (.refl _) rfl rfl
    dsimp only at ran
    split at ran
    · cases ran
      exact turns
    · exact allocPut_turns turns ran

theorem call_turns {e : Event} (ran : s.call e = .ok s') : s.Turns s' (.call e) := by
  have stepped (ran : (do
      let m ← Machine.step ⟨s.world, s.heap⟩ e
      return { s with world := m.world, heap := m.heap } : Except Fault Stack) = .ok s') :
      s.Turns s' (.call e) := by
    obtain ⟨m, ran, returned⟩ := ok_of_bind ran
    obtain ⟨⟨ret, m'⟩, acted, rfl⟩ := ok_of_map ran
    cases returned
    exact .aside rfl (Machine.act_later acted) rfl rfl
  unfold Stack.call at ran
  split at ran
  · cases ran
    exact .aside rfl (.refl _) rfl rfl
  · cases ran
    exact .aside rfl (.refl _) rfl rfl
  · exact stepped ran

theorem step_turns (granted : s.heap.AllSucceed) (ran : s.step K behind a = .ok s') :
    s.Turns s' a := by
  cases a with
  | rx frames => exact rx_turns ran
  | tx accepted =>
      cases ran
      exact .aside rfl (.refl _) rfl rfl
  | timer free => exact arpRequests_turns rfl ran
  | dequeue =>
      cases ran
      exact dequeue_turns
  | process isn free => exact process_turns granted ran
  | udpOut host localmac room free => exact udpOut_turns ran
  | tcpOut stream free => exact tcpOut_turns ran
  | call e => exact call_turns ran

end Steps

section Runs

variable {K : Cksums} {behind : Offload → List UInt8} {s last : Stack} {actions : List Action}
  {A : Allocator}

theorem processed_cons {s' : Stack} {a : Action} {later : List Action}
    (stepped : s.step K behind a = .ok s') : processed K behind s (a :: later) =
      s.takes a ++ processed K behind s' later := by
  rw [processed, stepped]

theorem processed_queue (granted : s.heap.AllSucceed)
    (ran : runs (Stack.step K behind) s actions = .ok last) :
    (processed K behind s actions ++ last.waiting).Sublist
      (s.waiting ++ actions.flatMap Action.frames) := by
  induction actions generalizing s with
  | nil =>
      cases ran
      exact List.sublist_append_left _ _
  | cons a later ih =>
      obtain ⟨s', stepped, ran⟩ := runs_cons_ok ran
      have turns := step_turns granted stepped
      have rest := ih (turns.later.allSucceed granted) ran
      rw [processed_cons stepped, List.flatMap_cons, List.append_assoc,
        ← List.append_assoc s.waiting]
      refine (rest.append_left _).trans ?_
      rw [← List.append_assoc]
      exact turns.queue.append_right _

theorem arp_heard (granted : s.heap.AllSucceed)
    (ran : runs (Stack.step K behind) s actions = .ok last) :
    last.arp = ((processed K behind s actions).filterMap
      (arpPacket rteArpOpReply gLocalIp)).foldl hear s.arp := by
  induction actions generalizing s with
  | nil =>
      cases ran
      rfl
  | cons a later ih =>
      obtain ⟨s', stepped, ran⟩ := runs_cons_ok ran
      have turns := step_turns granted stepped
      rw [processed_cons stepped, List.filterMap_append, List.foldl_append, ← turns.table]
      exact ih (turns.later.allSucceed granted) ran

/-- In every run with enough memory the frames go through `pkt_process` in the order in which
they came in, each at most once, and the table says of an address what the first of them
that is an ARP reply to the local address from there has said. The table was made before the
threads started, and the pool hands out no mbuf that waits here. -/
theorem arp_table_told (granted : A.AllSucceed)
    (ran : runs (Stack.step K behind) (.start A) actions = .ok last) :
    (processed K behind (.start A) actions).Sublist (actions.flatMap Action.frames) ∧
      ∀ ip, ngGetDstMacaddr last.arp ip =
        (((processed K behind (.start A) actions).filterMap
          (arpPacket rteArpOpReply gLocalIp)).find? fun e => ip = e.ip).map ArpEntry.hwaddr := by
  refine ⟨(List.sublist_append_left _ _).trans (processed_queue granted ran), fun ip => ?_⟩
  rw [arp_heard granted ran, ngGetDstMacaddr_heard]
  exact Option.none_or

end Runs

/-- An ARP packet from a host whose hardware address ends so. -/
def arpFrameFrom (opcode last : UInt8) : List UInt8 := (arpFrame opcode).set 27 last

/-- A reply, a request, and another reply with another address. -/
theorem arp_table_told_once : ∃ last, runs (Stack.step internetSums fun _ => []) (.start .cleared)
    (exchange (arpFrameFrom 2 7) 0 ++ exchange (arpFrame 1) 0 ++ exchange (arpFrameFrom 2 9) 0) =
      .ok last ∧
    ngGetDstMacaddr last.arp (makeIpv4Addr 192 168 0 2) = some #v[0, 0, 0, 0, 0, 7] := by
  obtain ⟨last, ran⟩ : ∃ last, runs (Stack.step internetSums fun _ => []) (.start .cleared)
      (exchange (arpFrameFrom 2 7) 0 ++ exchange (arpFrame 1) 0 ++
        exchange (arpFrameFrom 2 9) 0) = .ok last := ⟨_, rfl⟩
  refine ⟨last, ran, ?_⟩
  rw [(arp_table_told Allocator.cleared_allSucceed ran).2]
  rfl

end LinuxCpp.Ustack
