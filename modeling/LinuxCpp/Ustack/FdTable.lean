import LinuxCpp.Ustack.AckGates

set_option autoImplicit false

/- The bitmap of the descriptors. `nsocket` takes a bit before it knows whether there will
be a socket, and `nclose` of a listener does not give one back. -/
namespace LinuxCpp.Ustack

open C Trace

/-- The bit of the descriptor is set. -/
def World.Taken (w : World) (fd : Int) : Prop := ∃ n : Nat, fd = n ∧ w.fdTable n = true

/-- The memory is granted and the names are free for an entry and its two rings. -/
structure World.Provides (w : World) (A : Allocator) (first second : RingName) : Prop where
  entry : A.grants A.calls = true
  first : first ∉ w.rings ∧ A.grants (A.calls + 1) = true
  second : second ∉ w.rings ∧ A.grants (A.calls + 2) = true

/-- `nsocket` makes a socket of this type. -/
def SockType.Made (w : World) (A : Allocator) : SockType → Prop
  | .dgram => w.Provides A .recvBuffer .sendBuffer
  | .stream => w.Provides A .tcpRecvBuffer .tcpSendBuffer
  | .other => False

/-- The descriptors of the sockets that are not closed yet. -/
def noteSockets (_ : Machine) (e : Event) (ret : Option Int) (_ : Machine) (held : List Int) :
    List Int :=
  match e, ret with
  | .socket type, some fd => if type ≠ .other ∧ 0 ≤ fd then fd :: held else held
  | .accept _, some fd => if 0 ≤ fd then fd :: held else held
  | .close fd, some 0 => held.filter fun other => other ≠ fd
  | _, _ => held

/-- The bits that are set are those of the sockets that are not closed yet; without a bit
left, every descriptor has its socket. -/
structure Balanced (d : Machine × List Int) : Prop where
  bits : ∀ fd, d.1.world.Taken fd ↔ fd ∈ d.2
  range : ∀ fd ∈ d.2, (defaultFdNum : Int) ≤ fd ∧ fd < maxFdCount
  room : d.1.world.freeFd = none →
    ∀ fd : Int, defaultFdNum ≤ fd → fd < maxFdCount → fd ∈ d.2

/-- A refused `nsocket` changes neither the bits nor the lists, and a descriptor that was
closed has its bit clear. -/
structure Settles (m : Machine) (e : Event) (ret : Option Int) (m' : Machine) : Prop where
  refused : ∀ type, e = .socket type → ret = some (-1) →
    m'.world.fdTable = m.world.fdTable ∧ m'.world.tcbSet = m.world.tcbSet ∧
      m'.world.lhost = m.world.lhost
  closed : ∀ fd, e = .close fd → ret = some 0 → ¬ m'.world.Taken fd

/-- The step settles and leaves the bits balanced. -/
def Fair (d : Machine × List Int) (e : Event) : Prop :=
  ∀ ret m', d.1.act e = .ok (ret, m') →
    Settles d.1 e ret m' ∧ Balanced (m', noteSockets d.1 e ret m' d.2)

/-- A socket is made exactly if there is a descriptor for it, and no listener is closed
whose bit is set. -/
def Steady (d : Machine × List Int) : Event → Prop
  | .socket type => type.Made d.1.world d.1.heap ↔ d.1.world.freeFd ≠ none
  | .close fd => ∀ s, getHostinfoFromfd d.1.world fd = some (.stream s) → s.status = .listen →
      ¬ d.1.world.Taken fd
  | _ => True

section Bits

variable {w w' : World} {n : Nat} {fd : Int}

theorem freeFd_some (free : w.freeFd = some n) :
    (defaultFdNum ≤ n ∧ n < maxFdCount) ∧ w.fdTable n = false := by
  have range := List.mem_range'_1.mp (List.mem_of_find?_eq_some free)
  refine ⟨?_, by simpa using List.find?_some free⟩
  simp only [defaultFdNum, maxFdCount] at range ⊢
  omega

theorem freeFd_none (full : w.freeFd = none) (low : defaultFdNum ≤ n) (high : n < maxFdCount) :
    w.fdTable n = true := by
  have all := List.find?_eq_none.mp full n (List.mem_range'_1.mpr (by
    simp only [defaultFdNum, maxFdCount] at low high ⊢
    omega))
  simpa using all

theorem taken_congr (same : w'.fdTable = w.fdTable) : w'.Taken fd ↔ w.Taken fd := by
  simp only [World.Taken, same]

theorem taken_set (written : w'.fdTable = Function.update w.fdTable n true) :
    w'.Taken fd ↔ fd = n ∨ w.Taken fd := by
  simp only [World.Taken, written]
  constructor
  · rintro ⟨k, rfl, bit⟩
    by_cases same : k = n
    · exact .inl (congrArg _ same)
    · rw [Function.update_of_ne same] at bit
      exact .inr ⟨k, rfl, bit⟩
  · rintro (rfl | ⟨k, rfl, bit⟩)
    · exact ⟨n, rfl, Function.update_self _ _ _⟩
    · by_cases same : k = n
      · exact ⟨k, rfl, by rw [same, Function.update_self]⟩
      · exact ⟨k, rfl, by rw [Function.update_of_ne same, bit]⟩

theorem taken_clear (written : w'.fdTable = Function.update w.fdTable n false) :
    w'.Taken fd ↔ w.Taken fd ∧ fd ≠ n := by
  simp only [World.Taken, written]
  constructor
  · rintro ⟨k, rfl, bit⟩
    by_cases same : k = n
    · rw [same, Function.update_self] at bit
      cases bit
    · rw [Function.update_of_ne same] at bit
      exact ⟨⟨k, rfl, bit⟩, fun equal => same (Int.natCast_inj.mp equal)⟩
  · rintro ⟨⟨k, rfl, bit⟩, other⟩
    have different : k ≠ n := fun same => other (congrArg _ same)
    exact ⟨k, rfl, by rw [Function.update_of_ne different, bit]⟩

/-- Where the bits are those of the list, none is free only if all are in it. -/
theorem Balanced.of_bits {m : Machine} {held : List Int}
    (bits : ∀ fd, m.world.Taken fd ↔ fd ∈ held)
    (range : ∀ fd ∈ held, (defaultFdNum : Int) ≤ fd ∧ fd < maxFdCount) : Balanced (m, held) := by
  refine ⟨bits, range, fun full fd low high => ?_⟩
  obtain ⟨n, rfl⟩ := Int.eq_ofNat_of_zero_le ((Int.natCast_nonneg _).trans low)
  exact (bits n).mp ⟨n, rfl, freeFd_none full (by omega) (by omega)⟩

end Bits

section Calls

variable {w w' : World} {A : Allocator} {fd : Int}

/-- A ring is created exactly if its name is free and the memory is granted. -/
theorem ringCreate_made (α : Type) (w : World) (name : RingName) (A : Allocator) :
    Leaves (ringCreate α w name) A fun done B =>
      (done = (none, w) ∧ ¬ (name ∉ w.rings ∧ A.grants A.calls = true)) ∨
      ∃ r, done = (some r, { w with rings := name :: w.rings }) ∧ B = A.next ∧
        name ∉ w.rings ∧ A.grants A.calls = true := by
  unfold ringCreate
  refine .ite (fun used => .pure (.inl ⟨rfl, fun free => free.1 used⟩)) fun free => ?_
  refine .malloc (fun refused => .pure (.inl ⟨rfl, fun both => ?_⟩)) fun granted => ?_
  · cases refused.symm.trans both.2
  · exact .pure (.inr ⟨_, rfl, rfl, free, granted⟩)

/-- What `nsocket` does to the bits and the lists: it makes a socket, or leaves the lists
alone. -/
theorem nsocket_table (type : SockType) : Leaves (nsocket w type) A fun done _ =>
    done.2.fdTable = (getFdFrombitmap w).2.fdTable ∧
    ((type.Made w A ∧ done.1 = (getFdFrombitmap w).1 ∧
        done.2.tcbSet.length + done.2.lhost.length = w.tcbSet.length + w.lhost.length + 1) ∨
      (¬ type.Made w A ∧ done.2.tcbSet = w.tcbSet ∧ done.2.lhost = w.lhost ∧
        done.1 = if type = .other then (getFdFrombitmap w).1 else -1)) := by
  have kept := getFdFrombitmap_streams w
  have rings : (getFdFrombitmap w).2.rings = w.rings := by
    unfold getFdFrombitmap
    split <;> rfl
  unfold nsocket
  cases taken : getFdFrombitmap w with
  | mk new v =>
      rw [taken] at kept rings
      dsimp only at kept rings
      obtain ⟨streams, hosts⟩ := kept
      cases type with
      | other => exact .pure ⟨rfl, .inr ⟨id, streams, hosts, rfl⟩⟩
      | dgram | stream =>
          refine .malloc (fun refused => .pure ⟨rfl, .inr ⟨fun made => ?_, streams, hosts, rfl⟩⟩)
            fun granted => ?_
          · cases refused.symm.trans made.entry
          refine .bind (ringCreate_made _ _ _ _) ?_
          rintro _ B (⟨rfl, refused⟩ | ⟨rcvbuf, rfl, rfl, free, granted₁⟩)
          · refine .step rfl (.pure ⟨rfl, .inr ⟨fun made => refused ?_, streams, hosts, rfl⟩⟩)
            exact ⟨rings ▸ made.first.1, made.first.2⟩
          refine .bind (ringCreate_made _ _ _ _) ?_
          rintro _ B (⟨rfl, refused⟩ | ⟨sndbuf, rfl, rfl, free', granted₂⟩)
          · refine .step rfl (.pure ⟨rfl, .inr ⟨fun made => refused ?_, streams, hosts, rfl⟩⟩)
            exact ⟨by simp [rings, made.second.1], made.second.2⟩
          · rw [rings] at free free'
            refine .pure ⟨rfl, .inl ⟨⟨granted, ⟨free, granted₁⟩, ?_, granted₂⟩, rfl, ?_⟩⟩
            · exact fun used => free' (List.mem_cons_of_mem _ used)
            · simp only [World.add, List.length_cons, streams, hosts]
              omega

/-- A bit that is cleared, where no bit behind the table is set. -/
theorem setFdFrombitmap_taken (range : ∀ other, w.Taken other → other < maxFdCount) :
    Returns (setFdFrombitmap w fd) fun w' =>
      ∀ other, w'.Taken other ↔ w.Taken other ∧ other ≠ fd := by
  unfold setFdFrombitmap
  split
  · exact .error _
  · rename_i proper
    obtain ⟨n, rfl⟩ := Int.eq_ofNat_of_zero_le (not_lt.mp proper)
    split
    · rename_i behind
      refine .pure fun other => (iff_self_and.mpr fun taken same => ?_)
      have inside := range other taken
      omega
    · exact .pure fun other => taken_clear rfl

/-- `nclose` fails and leaves the bits, or closes a listener and leaves the bits, or clears
the bit. -/
theorem nclose_taken (range : ∀ other, w.Taken other → other < maxFdCount) :
    Leaves (nclose w fd) A fun done _ =>
      ((∃ s, getHostinfoFromfd w fd = some (.stream s) ∧ s.status = .listen) ∧ done.1 = 0 ∧
        ∀ other, done.2.Taken other ↔ w.Taken other) ∨
      (∀ s, getHostinfoFromfd w fd = some (.stream s) → s.status ≠ .listen) ∧
        ((done.1 = -1 ∧ ∀ other, done.2.Taken other ↔ w.Taken other) ∨
          (done.1 = 0 ∧ ∀ other, done.2.Taken other ↔ w.Taken other ∧ other ≠ fd)) := by
  have same (h : Host) : ((({ w with lhost := w.lhost.filter fun g => g.addr ≠ h.addr } :
      World).ringFree (some h.rcvbuf)).ringFree (some h.sndbuf)).fdTable = w.fdTable := rfl
  unfold nclose
  split
  · rename_i nobody
    refine .pure (.inr ⟨fun s named => ?_, .inl ⟨rfl, fun _ => Iff.rfl⟩⟩)
    cases nobody.symm.trans named
  · rename_i host named
    refine .step rfl (.after (setFdFrombitmap_taken fun other taken => ?_) ?_)
    · exact range other ((taken_congr (same _)).mp taken)
    · intro w' cleared
      refine .pure (.inr ⟨fun s named' => ?_, .inr ⟨rfl, fun other => ?_⟩⟩)
      · cases named.symm.trans named'
      · rw [cleared, taken_congr (same _)]
  · rename_i stream named
    refine .ite (fun open_ => ?_) fun listens => ?_
    · have quiet : ∀ s, getHostinfoFromfd w fd = some (.stream s) → s.status ≠ .listen := by
        intro s named'
        cases named.symm.trans named'
        exact open_
      refine .ignore ?_
      rintro (_ | closing) B
      · exact .pure (.inr ⟨quiet, .inl ⟨rfl, fun _ => Iff.rfl⟩⟩)
      · refine .after (setFdFrombitmap_taken fun other taken => range other taken) ?_
        intro w' cleared
        exact .pure (.inr ⟨quiet, .inr ⟨rfl, cleared⟩⟩)
    · refine .step rfl (.pure (.inl ⟨⟨stream, named, not_not.mp listens⟩, rfl, fun _ => Iff.rfl⟩))

theorem ringFree_table {α : Type} (w : World) (r : Option (Ring α)) :
    (w.ringFree r).fdTable = w.fdTable := by
  cases r <;> rfl

theorem ringCreate_table (α : Type) (w : World) (name : RingName) :
    ReturnsM (ringCreate α w name) fun done => done.2.fdTable = w.fdTable := by
  unfold ringCreate
  refine .ite (.pure rfl) (.skip ?_)
  rintro (_ | block) <;> exact .pure rfl

theorem ngTcpProcess_table (isn : UInt32) (w : World) (seg : Segment) :
    ReturnsM (ngTcpProcess isn w seg) fun done => done.2.fdTable = w.fdTable := by
  have created (sip dip : UInt32) (sport dport : UInt16) :
      ReturnsM (ngTcpStreamCreate isn w sip dip sport dport) fun done =>
        done.2.fdTable = w.fdTable := by
    unfold ngTcpStreamCreate
    refine .skip ?_
    rintro (_ | block)
    · exact .pure rfl
    refine .skip fun words => .bind (ringCreate_table _ w .sndbuf) ?_
    rintro ⟨sndbuf, w₁⟩ same
    refine .bind (ringCreate_table _ w₁ .rcvbuf) ?_
    rintro ⟨rcvbuf, w₂⟩ same'
    exact .pure (same'.trans same)
  have listened (stream : Stream) :
      ReturnsM (ngTcpHandleListen isn w stream seg) fun done => done.2.fdTable = w.fdTable := by
    unfold ngTcpHandleListen
    refine .ite (.ite (.bind (created _ _ _ _) ?_) (.pure rfl)) (.pure rfl)
    rintro ⟨_ | syn, w₁⟩ same
    · exact .throw _
    refine .skip ?_
    rintro (_ | block)
    · exact .pure same
    · exact .skip fun _ => .pure same
  have acked (stream : Stream) :
      ReturnsM (ngTcpHandleLastAck w stream seg) fun done => done.2.fdTable = w.fdTable := by
    unfold ngTcpHandleLastAck
    refine .ite (.ite (.skip fun _ => .pure ?_) (.pure rfl)) (.pure rfl)
    simp only [ringFree_table]
    rfl
  unfold ngTcpProcess
  refine .ite (.pure rfl) ?_
  split
  · exact .pure rfl
  · rename_i stream found
    split
    · exact .bind (listened stream) fun _ same => .pure same
    · refine .bind (.lift (ngTcpHandleSynRcvd_returns stream)) ?_
      rintro ⟨ret, _⟩ (rfl | ⟨acks, rfl⟩) <;> exact .pure rfl
    · exact .skip fun _ => .pure rfl
    · exact .bind (acked stream) fun _ same => .pure same
    · exact .pure rfl

end Calls

section Steps

variable {m m' : Machine} {e : Event} {ret : Option Int} {d : Machine × List Int}

/-- Only the calls that open and close sockets touch the bits. -/
theorem act_table (ran : m.act e = .ok (ret, m')) (socket : ∀ type, e ≠ .socket type)
    (accept : ∀ fd, e ≠ .accept fd) (close : ∀ fd, e ≠ .close fd) :
    m'.world.fdTable = m.world.fdTable := by
  cases e with
  | socket type => exact absurd rfl (socket type)
  | accept fd => exact absurd rfl (accept fd)
  | close fd => exact absurd rfl (close fd)
  | segment isn seg =>
      obtain ⟨value, rfl, called⟩ := Machine.call_ok ran
      exact (ngTcpProcess_table isn m.world seg).of_ok called
  | bind fd port ip =>
      have same : (nbind m.world fd port ip).2.fdTable = m.world.fdTable := by
        unfold nbind
        split <;> rfl
      cases ran
      exact same
  | listen fd =>
      have same : (nlisten m.world fd).2.fdTable = m.world.fdTable := by
        unfold nlisten
        split <;> rfl
      cases ran
      exact same
  | send fd buf =>
      have same : ReturnsM (nsend m.world fd buf) fun done => done.2.fdTable = m.world.fdTable := by
        unfold nsend
        split
        · exact .pure rfl
        · exact .pure rfl
        · exact .skip fun _ => .pure rfl
      obtain ⟨value, rfl, called⟩ := Machine.call_ok ran
      exact same.of_ok called
  | recv fd len =>
      have same : Returns (nrecv m.world fd len) fun got =>
          ∀ ret copied w, got = some (ret, copied, w) → w.fdTable = m.world.fdTable := by
        unfold nrecv
        split
        · exact .pure (by rintro _ _ _ ⟨⟩; rfl)
        · exact .pure (by rintro _ _ _ ⟨⟩; rfl)
        · refine .skip ?_
          rintro (_ | got)
          · exact .pure (by rintro _ _ _ ⟨⟩)
          · exact .pure (by rintro _ _ _ ⟨⟩; rfl)
      rcases Machine.act_recv ran with ⟨rfl, rfl⟩ | ⟨value, copied, w, received, rfl, rfl⟩
      · rfl
      · exact same.of_ok _ received _ _ _ rfl
  | recvfrom fd len behind =>
      have same : ReturnsM (nrecvfrom (fun _ => behind) m.world fd len) fun got =>
          ∀ ret datagram w, got = some (ret, datagram, w) → w.fdTable = m.world.fdTable := by
        unfold nrecvfrom
        split
        · exact .pure (by rintro _ _ _ ⟨⟩; rfl)
        · exact .throw _
        · split
          · exact .pure fun _ _ _ none_ => nomatch none_
          · exact .skip fun _ => .pure (by rintro _ _ _ ⟨⟩; rfl)
      rcases Machine.act_recvfrom ran with ⟨rfl, rfl⟩ | ⟨value, datagram, received, rfl⟩
      · rfl
      · exact same.of_ok received _ _ _ rfl
  | sendto fd buf sinAddr sinPort =>
      have same : ReturnsM (nsendto m.world fd buf sinAddr sinPort) fun done =>
          done.2.fdTable = m.world.fdTable := by
        unfold nsendto
        split
        · exact .pure rfl
        · exact .throw _
        · refine .skip ?_
          rintro (_ | block)
          · exact .pure rfl
          · refine .skip ?_
            rintro (_ | block') <;> exact .pure rfl
      obtain ⟨value, rfl, called⟩ := Machine.call_ok ran
      exact same.of_ok called
  | out addr resolved =>
      rcases Machine.act_out ran with rfl | ⟨s, member, rfl⟩ <;>
      rfl

section Each

variable {held : List Int} {type : SockType} {fd : Int}

theorem Balanced.congr (balanced : Balanced (m, held))
    (same : ∀ fd, m'.world.Taken fd ↔ m.world.Taken fd) : Balanced (m', held) :=
  .of_bits (fun fd => (same fd).trans (balanced.bits fd)) balanced.range

theorem Balanced.inside (balanced : Balanced (m, held)) (taken : m.world.Taken fd) :
    fd < maxFdCount :=
  (balanced.range fd ((balanced.bits fd).mp taken)).2

/-- A descriptor that is taken from the bitmap and noted. -/
theorem Balanced.take {n : Nat} (balanced : Balanced (m, held)) (free : m.world.freeFd = some n)
    (written : m'.world.fdTable = Function.update m.world.fdTable n true) :
    Balanced (m', (n : Int) :: held) := by
  have range := (freeFd_some free).1
  refine .of_bits (fun fd => ?_) fun fd member => ?_
  · rw [taken_set written, List.mem_cons, balanced.bits]
  · rcases List.mem_cons.mp member with rfl | old
    · omega
    · exact balanced.range fd old

/-- A descriptor that is closed and noted. -/
theorem Balanced.give (balanced : Balanced (m, held))
    (cleared : ∀ other, m'.world.Taken other ↔ m.world.Taken other ∧ other ≠ fd) :
    Balanced (m', held.filter fun other => other ≠ fd) := by
  refine .of_bits (fun other => ?_) fun other member =>
    balanced.range other (List.mem_filter.mp member).1
  rw [cleared, List.mem_filter, decide_eq_true_iff, balanced.bits]

theorem getFdFrombitmap_none (full : m.world.freeFd = none) :
    getFdFrombitmap m.world = (-1, m.world) := by
  rw [getFdFrombitmap, full]

theorem getFdFrombitmap_some {n : Nat} (free : m.world.freeFd = some n) :
    getFdFrombitmap m.world =
      ((n : Int), { m.world with fdTable := Function.update m.world.fdTable n true }) := by
  rw [getFdFrombitmap, free]

/-- A call of `nsocket` is fair exactly if it makes a socket where a descriptor is free. -/
theorem socket_fair_iff (balanced : Balanced (m, held))
    (ran : m.act (.socket type) = .ok (ret, m')) :
    (Settles m (.socket type) ret m' ∧ Balanced (m', noteSockets m (.socket type) ret m' held)) ↔
      Steady (m, held) (.socket type) := by
  obtain ⟨value, rfl, called⟩ := Machine.call_ok ran
  obtain ⟨table, outcome⟩ := (nsocket_table type).of_ok _ _ called
  simp only at table outcome
  cases free : m.world.freeFd with
  | none =>
      rw [getFdFrombitmap_none free] at table outcome
      rcases outcome with ⟨made, rfl, longer⟩ | ⟨missing, streams, hosts, negative⟩
      · refine iff_of_false (fun fair => ?_) fun steady => steady.mp made free
        obtain ⟨-, streams, hosts⟩ := fair.1.refused type rfl rfl
        rw [streams, hosts] at longer
        omega
      · have refused : value = -1 := by simpa using negative
        subst refused
        have steady : Steady (m, held) (.socket type) :=
          iff_of_false missing fun some_ => some_ free
        refine iff_of_true ⟨⟨fun _ _ _ => ⟨table, streams, hosts⟩, fun _ call => nomatch call⟩, ?_⟩
          steady
        simpa [noteSockets] using balanced.congr fun fd => taken_congr table
  | some n =>
      rw [getFdFrombitmap_some free] at table outcome
      rcases outcome with ⟨made, rfl, -⟩ | ⟨missing, streams, hosts, rfl⟩
      · have known : type ≠ .other := by
          rintro rfl
          exact made
        have noted : noteSockets m (.socket type) (some (n : Int)) m' held = (n : Int) :: held := by
          simp [noteSockets, known]
        have steady : Steady (m, held) (.socket type) := iff_of_true made (by simp [free])
        refine iff_of_true ⟨⟨fun _ _ failed => ?_, fun _ call => nomatch call⟩, ?_⟩ steady
        · have negative := Option.some.inj failed
          omega
        · rw [noted]
          exact balanced.take free table
      · -- the bit is taken, and nobody holds the descriptor
        have clear : ¬ m.world.Taken n := by
          rintro ⟨k, same, bit⟩
          obtain rfl := Int.natCast_inj.mp same
          cases (freeFd_some free).2.symm.trans bit
        have taken : m'.world.Taken n := (taken_set table).mpr (.inl rfl)
        refine iff_of_false (fun fair => ?_) fun steady => missing (steady.mpr (by simp [free]))
        by_cases unknown : type = .other
        · subst unknown
          have there := (fair.2.bits n).mp taken
          exact clear ((balanced.bits n).mpr (by simpa [noteSockets] using there))
        · rw [if_neg unknown] at fair
          have same := (fair.1.refused type rfl rfl).1
          exact clear ((taken_congr same).mp taken)

/-- A call of `nclose` is fair unless it closes a listener whose bit is set. -/
theorem close_fair_iff (balanced : Balanced (m, held)) (ran : m.act (.close fd) = .ok (ret, m')) :
    (Settles m (.close fd) ret m' ∧ Balanced (m', noteSockets m (.close fd) ret m' held)) ↔
      Steady (m, held) (.close fd) := by
  obtain ⟨value, rfl, called⟩ := Machine.call_ok ran
  have range (other : Int) (taken : m.world.Taken other) : other < maxFdCount :=
    balanced.inside taken
  have outcome := (nclose_taken range).of_ok _ _ called
  simp only at outcome
  rcases outcome with ⟨⟨s, named, listens⟩, rfl, same⟩ | ⟨quiet, ⟨rfl, same⟩ | ⟨rfl, cleared⟩⟩
  · constructor
    · intro fair t _ _ taken
      exact fair.1.closed fd rfl rfl ((same fd).mpr taken)
    · intro steady
      have clear := steady s named listens
      refine ⟨⟨nofun, ?_⟩, balanced.give fun other => ?_⟩
      · rintro _ ⟨⟩ - taken
        exact clear ((same fd).mp taken)
      · rw [same]
        refine (and_iff_left_of_imp ?_).symm
        rintro taken rfl
        exact clear taken
  · refine iff_of_true ⟨⟨nofun, nofun⟩, ?_⟩
      fun s named listens => absurd listens (quiet s named)
    exact balanced.congr same
  · refine iff_of_true ⟨⟨nofun, ?_⟩, balanced.give cleared⟩
      fun s named listens => absurd listens (quiet s named)
    rintro _ ⟨⟩ - taken
    exact ((cleared fd).mp taken).2 rfl

/-- `naccept` keeps the bits balanced. -/
theorem accept_fair (balanced : Balanced (m, held)) (ran : m.act (.accept fd) = .ok (ret, m')) :
    Balanced (m', noteSockets m (.accept fd) ret m' held) := by
  rcases Machine.act_accept ran with ⟨rfl, rfl⟩ | ⟨value, peer, w, accepted, rfl, rfl⟩
  · exact balanced
  · unfold naccept at accepted
    split at accepted
    · cases accepted
      exact balanced
    · cases accepted
      exact balanced
    · split at accepted
      · cases accepted
      · cases free : m.world.freeFd with
        | none =>
            rw [getFdFrombitmap_none free] at accepted
            cases accepted
            exact balanced.congr fun _ => taken_congr rfl
        | some n =>
            rw [getFdFrombitmap_some free] at accepted
            cases accepted
            have noted (m' : Machine) :
                noteSockets m (.accept fd) (some (n : Int)) m' held = (n : Int) :: held := by
              simp [noteSockets]
            rw [noted]
            exact balanced.take free rfl

end Each

theorem fair_iff (balanced : Balanced d) (ran : d.1.act e = .ok (ret, m')) :
    Fair d e ↔ Steady d e := by
  obtain ⟨m, held⟩ := d
  have one : Fair (m, held) e ↔
      Settles m e ret m' ∧ Balanced (m', noteSockets m e ret m' held) := by
    constructor
    · exact fun fair => fair ret m' ran
    · rintro both _ _ again
      cases ran.symm.trans again
      exact both
  rw [one]
  cases e with
  | socket type => exact socket_fair_iff balanced ran
  | close fd => exact close_fair_iff balanced ran
  | accept fd => exact iff_of_true ⟨⟨nofun, nofun⟩, accept_fair balanced ran⟩ trivial
  | segment | bind | listen | send | recv | recvfrom | sendto | out =>
      have table := act_table ran nofun nofun nofun
      exact iff_of_true ⟨⟨nofun, nofun⟩, balanced.congr fun _ => taken_congr table⟩ trivial

end Steps

/-- In every run from the empty stack, all steps settle and leave the bits balanced exactly
if all of them are steady. -/
theorem fair_throughout_iff (A : Allocator) {events : List Event} {d : Machine × List Int}
    (ran : runs (Machine.recorded noteSockets) (⟨World.empty, A⟩, []) events = .ok d) :
    Along (Machine.recorded noteSockets) Fair (⟨World.empty, A⟩, []) events ↔
      Along (Machine.recorded noteSockets) Steady (⟨World.empty, A⟩, []) events := by
  have start : Balanced (⟨World.empty, A⟩, []) := by
    refine .of_bits (fun fd => ?_) fun _ member => absurd member List.not_mem_nil
    refine iff_of_false ?_ List.not_mem_nil
    rintro ⟨n, -, bit⟩
    cases bit
  refine along_iff Balanced (fun before event after balanced stepped => ?_)
    (fun before event after balanced steady stepped => ?_) start ran
  · obtain ⟨ret, acted, -⟩ := Machine.recorded_ok stepped
    exact fair_iff balanced acted
  · obtain ⟨ret, acted, record⟩ := Machine.recorded_ok stepped
    have fair := ((fair_iff balanced acted).mpr steady ret after.1 acted).2
    rwa [← record] at fair

/-- A TCP socket and a UDP socket, and both are closed. -/
theorem fair_throughout_two : ∃ d, runs (Machine.recorded noteSockets)
      (⟨World.empty, .plentiful⟩, []) [.socket .stream, .socket .dgram, .close 4, .close 3] =
        .ok d ∧
    Along (Machine.recorded noteSockets) Fair (⟨World.empty, .plentiful⟩, [])
      [.socket .stream, .socket .dgram, .close 4, .close 3] := by
  refine ⟨_, rfl, (fair_throughout_iff .plentiful rfl).mpr ?_⟩
  refine .cons (iff_of_true ⟨rfl, ⟨by decide, rfl⟩, by decide, rfl⟩ (by decide)) rfl ?_
  refine .cons (iff_of_true ⟨rfl, ⟨by decide, rfl⟩, by decide, rfl⟩ (by decide)) rfl ?_
  refine .cons (fun s named => nomatch named) rfl ?_
  refine ⟨fun s named listens => ?_, fun _ _ => trivial⟩
  cases named
  cases listens

/-- The ring of the second TCP socket has the name of the first one's. -/
theorem refused_socket_keeps_bit : ∃ d, runs (Machine.recorded noteSockets)
      (⟨World.empty, .plentiful⟩, []) [.socket .stream, .socket .stream] = .ok d ∧
    ¬ Along (Machine.recorded noteSockets) Fair (⟨World.empty, .plentiful⟩, [])
      [.socket .stream, .socket .stream] := by
  refine ⟨_, rfl, fun fair => ?_⟩
  have second := (fair.2 _ rfl).1 _ _ rfl
  have same := (second.1.refused .stream rfl rfl).1
  exact absurd (congrFun same 4) (by decide)

end LinuxCpp.Ustack
