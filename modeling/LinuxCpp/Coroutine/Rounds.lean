import LinuxCpp.Coroutine.Pass

set_option autoImplicit false

/- The rounds of the main loop: when each receive starts the handler. -/
namespace LinuxCpp.Coroutine

open C Trace

/-- What a round leaves behind. -/
structure Rounded (past opened : List Nat) (events : List Event) (A : Allocator)
    (d' : Server × Allocator) : Prop where
  handled : d'.1.handled = runnable past (received events)
  opened : d'.1.opened = closes (events.foldl Event.opens opened) (runnable past (received events))
  grants : d'.2.grants = A.grants
  calls : d'.2.calls = A.calls + mallocsAll past events
  mid : (∀ r ∈ received events, r.fd ∉ past) →
    Mid (past ++ (received events).map Handled.fd) [] d'.1 d'.2.calls

section Rounds

variable {past : List Nat} {s : Server} {A : Allocator} {events : List Event} {round : Round}

theorem received_fds (events : List Event) :
    ((received events).map Handled.fd).Sublist (events.filterMap Event.reported) := by
  induction events with
  | nil => exact .refl _
  | cons event rest ih =>
      cases event with
      | accept clientfd => exact ih
      | receive fd data => exact ih.cons_cons fd
      | disconnect fd => exact ih.cons fd

theorem mem_of_mem_closes {fd : Nat} {opened : List Nat} {executed : List Handled}
    (member : fd ∈ closes opened executed) : fd ∈ opened := by
  induction executed generalizing opened with
  | nil => exact member
  | cons r rest ih => exact List.mem_of_mem_erase (ih member)

theorem received_length (events : List Event) : (received events).length ≤ events.length :=
  List.length_filterMap_le ..

/-- The next round begins as this one did. -/
theorem Mid.next {got : List Handled} {s' : Server} {queued : List Nat} {calls : Nat}
    (mid : Mid past got s calls) (passed : Passed past got { s with handled := [] } s' queued)
    (cos : queued.map some = got.map fun r => (s.conns r.fd).co)
    (fresh : ∀ r ∈ got, r.fd ∉ past) : Mid (past ++ got.map Handled.fd) [] s' calls := by
  have conns : s'.conns = s.conns := passed.conns
  refine ⟨passed.idle, ⟨[], passed.queue, rfl⟩, ?_, fun r member => absurd member
    List.not_mem_nil, ?_, ?_, fun r member => absurd member List.not_mem_nil, ?_⟩
  · intro fd member
    rw [conns]
    rw [passed.opened] at member
    exact mid.named fd (mem_of_mem_closes member)
  · intro fd old _
    rw [List.mem_append, not_or] at old
    rw [conns]
    exact mid.without fd old.1 old.2
  · intro fd member
    by_cases now : fd ∈ got.map Handled.fd
    · obtain ⟨r, at_r, rfl⟩ := List.mem_map.mp now
      exact passed.spent r at_r (fresh r at_r)
    · have old : fd ∈ past := (List.mem_append.mp member).resolve_right now
      apply (mid.finished fd old).frame (congrArg (fun conns => (conns fd).co) conns)
      intro co has
      exact passed.apart co (mid.outside now (.inl has) cos)
  · intro co value live
    obtain ⟨before, lived⟩ := passed.lived co value live
    exact mid.issued co before lived

/-- What a round needs: the memory, the places in the table, and peers that take their
responses. -/
structure Carried (past : List Nat) (A : Allocator) (round : Round) : Prop where
  served : ServedAll past A round.events
  whole : Whole past (received round.events) round.answers

/-- The server gets through a round, or it falls. -/
theorem mainRound_run (mid : Mid past [] s A.calls) (offered : Offered (s, A) round) :
    (Carried past A round ∧ ∃ d', mainRound (s, A) round = .ok d' ∧
      Rounded past s.opened round.events A d') ∨
    (¬ Carried past A round ∧ ∃ fault, mainRound (s, A) round = .error fault) := by
  rcases dispatchAll_run mid offered.possible offered.once with
    ⟨served, ⟨s₁, B⟩, ran, mid₁, opened, grants, calls⟩ | ⟨refused, fault, failed⟩
  · rw [List.nil_append] at mid₁
    obtain ⟨queued, queue, cos⟩ := mid₁.queue
    have ready : Ready past (received round.events) { s₁ with handled := [] } queued :=
      ⟨mid₁.idle, ⟨queue.linked, queue.tail, queue.nodup⟩, cos,
        fun r member => mid₁.named r.fd (mid₁.kept r member).1,
        fun r member => (mid₁.kept r member).2,
        fun r _ old => (mid₁.finished r.fd old).frame rfl fun _ _ => rfl,
        fun r member fresh => (mid₁.waiting r member fresh).frame rfl fun _ _ => rfl⟩
    rcases executeReadyCoroutines_run (A := B) ready (received_length round.events) with
      ⟨whole, s', C, passes, grants', calls', passed⟩ | ⟨cut, fault, dies⟩
    · refine .inl ⟨⟨served, whole⟩, (s', C), (bind_ok ran).trans passes, ?_, ?_,
        grants'.trans grants, calls'.trans calls, ?_⟩
      · exact passed.handled.trans (List.nil_append _)
      · exact passed.opened.trans (congrArg (fun opened => closes opened _) opened)
      · intro fresh
        show Mid _ [] s' C.calls
        rw [calls']
        exact mid₁.next passed cos fresh
    · exact .inr ⟨fun carried => cut carried.whole, fault, (bind_ok ran).trans dies⟩
  · exact .inr ⟨fun carried => refused carried.served, fault, bind_error failed⟩

theorem mallocsAll_fresh (fresh : ∀ r ∈ received events, r.fd ∉ past) :
    mallocsAll past events = 2 * (received events).length := by
  induction events with
  | nil => rfl
  | cons event rest ih =>
      cases event with
      | accept clientfd =>
          rw [mallocsAll_cons, ih fresh]
          exact Nat.zero_add _
      | receive fd data =>
          have new : fd ∉ past := fresh _ List.mem_cons_self
          have first : (Event.receive fd data).mallocs past = 2 := if_neg new
          have more : (received (.receive fd data :: rest)).length = (received rest).length + 1 :=
            rfl
          rw [mallocsAll_cons, first, more,
            ih fun r member => fresh r (List.mem_cons_of_mem _ member)]
          omega
      | disconnect fd =>
          rw [mallocsAll_cons, ih fresh]
          exact Nat.zero_add _

/-- All receives of a round are handled if none is on a descriptor with an earlier one. -/
theorem executes_iff {d' : Server × Allocator} {opened : List Nat}
    (rounded : Rounded past opened events A d')
    (once : ((received events).map Handled.fd).Nodup) :
    Executes d'.1 events ↔ ∀ r ∈ received events, r.fd ∉ past := by
  unfold Executes
  rw [rounded.handled]
  unfold runnable
  constructor
  · intro all r member
    have found : r ∈ [r] := List.mem_singleton_self r
    rw [← all r member] at found
    simpa using (List.mem_filter.mp (List.mem_filter.mp found).1).2
  · intro fresh r member
    have all : (received events).filter (fun r => r.fd ∉ past) = received events :=
      List.filter_eq_self.mpr fun q at_q => by simpa using fresh q at_q
    have same (q : Handled) (at_q : q ∈ received events) :
        decide (q.fd = r.fd) = decide (q = r) := by
      rw [decide_eq_decide]
      exact ⟨List.inj_on_of_nodup_map once at_q member, congrArg Handled.fd⟩
    rw [all, List.filter_congr same, List.filter_eq, List.count_eq_one_of_mem once.of_map member]
    rfl

/-- The events of all rounds. -/
abbrev allEvents (rounds : List Round) : List Event := rounds.flatMap Round.events

/-- No descriptor has two receives, the server has the memory and the table for all, and
no response is cut. -/
structure Unused (past : List Nat) (A : Allocator) (rounds : List Round) : Prop where
  fresh : ∀ r ∈ received (allEvents rounds), r.fd ∉ past
  once : ((received (allEvents rounds)).map Handled.fd).Nodup
  inTable : ∀ event ∈ allEvents rounds, event.InTable
  granted : ∀ call < 2 * (received (allEvents rounds)).length, A.grants (A.calls + call) = true
  whole : ∀ round ∈ rounds, ∀ r ∈ received round.events, (round.answers r.fd).cut = false

theorem received_cons (round : Round) (rest : List Round) :
    received (allEvents (round :: rest)) = received round.events ++ received (allEvents rest) :=
  List.filterMap_append ..

theorem whole_fresh (fresh : ∀ r ∈ received events, r.fd ∉ past) (answers : Nat → Answer) :
    Whole past (received events) answers ↔
      ∀ r ∈ received events, (answers r.fd).cut = false := by
  have all : runnable past (received events) = received events :=
    List.filter_eq_self.mpr fun r member => by simpa using fresh r member
  rw [Whole, all]

theorem Unused.first {rest : List Round} (unused : Unused past A (round :: rest)) :
    (∀ r ∈ received round.events, r.fd ∉ past) ∧ Carried past A round := by
  have all := received_cons round rest
  have fresh (r : Handled) (member : r ∈ received round.events) : r.fd ∉ past := by
    apply unused.fresh
    rw [all]
    exact List.mem_append_left _ member
  refine ⟨fresh, ⟨fun event member => unused.inTable event (List.mem_append_left _ member),
    fun call below => unused.granted call ?_⟩, ?_⟩
  · rw [mallocsAll_fresh fresh] at below
    rw [all, List.length_append]
    omega
  · exact (whole_fresh fresh _).mpr (unused.whole round List.mem_cons_self)

theorem unused_cons {rest : List Round} {B : Allocator}
    (fresh : ∀ r ∈ received round.events, r.fd ∉ past) (carried : Carried past A round)
    (once : ((received round.events).map Handled.fd).Nodup) (grants : B.grants = A.grants)
    (calls : B.calls = A.calls + mallocsAll past round.events) :
    Unused past A (round :: rest) ↔
      Unused (past ++ (received round.events).map Handled.fd) B rest := by
  have all := received_cons round rest
  rw [mallocsAll_fresh fresh] at calls
  constructor
  · intro unused
    have once' := unused.once
    rw [all, List.map_append] at once'
    refine ⟨fun r member => ?_, (List.nodup_append.mp once').2.1,
      fun event member => unused.inTable event (List.mem_append_right _ member),
      fun call below => ?_, fun other member => unused.whole other (.tail _ member)⟩
    · rw [List.mem_append, not_or]
      refine ⟨unused.fresh r ?_, fun earlier => ?_⟩
      · rw [all]
        exact List.mem_append_right _ member
      · exact (List.nodup_append.mp once').2.2 r.fd earlier r.fd (List.mem_map_of_mem member) rfl
    · rw [grants, calls, Nat.add_assoc]
      apply unused.granted
      rw [all, List.length_append]
      omega
  · intro unused
    refine ⟨fun r member => ?_, ?_, fun event member => ?_, fun call below => ?_,
      List.forall_mem_cons.mpr ⟨(whole_fresh fresh _).mp carried.whole, unused.whole⟩⟩
    · rw [all] at member
      rcases List.mem_append.mp member with now | later
      · exact fresh r now
      · exact fun old => unused.fresh r later (List.mem_append_left _ old)
    · rw [all, List.map_append]
      refine List.nodup_append.mpr ⟨once, unused.once, fun fd now fd' later same => ?_⟩
      obtain ⟨r, member, rfl⟩ := List.mem_map.mp later
      exact unused.fresh r member (List.mem_append_right _ (same ▸ now))
    · rcases List.mem_append.mp member with now | later
      · exact carried.served.1 event now
      · exact unused.inTable event later
    · rw [all, List.length_append] at below
      by_cases first : call < 2 * (received round.events).length
      · apply carried.served.2
        rw [mallocsAll_fresh fresh]
        exact first
      · have granted := unused.granted (call - 2 * (received round.events).length) (by omega)
        rw [grants, calls, Nat.add_assoc, show 2 * (received round.events).length +
          (call - 2 * (received round.events).length) = call by omega] at granted
        exact granted

/-- The rounds from a state between two of them. -/
theorem runsEvery_iff {rounds : List Round} (mid : Mid past [] s A.calls)
    (offered : Along mainRound Offered (s, A) rounds) :
    RunsEvery (s, A) rounds ↔ Unused past A rounds := by
  induction rounds generalizing past s A with
  | nil =>
      refine ⟨fun _ => ⟨fun r member => ?_, List.nodup_nil, fun event member => ?_,
        fun call none_ => absurd none_ (Nat.not_lt_zero call), fun round member => ?_⟩,
        fun _ => trivial⟩
      · exact absurd member List.not_mem_nil
      · exact absurd member List.not_mem_nil
      · exact absurd member List.not_mem_nil
  | cons round rest ih =>
      have once := offered.1.once.sublist (received_fds round.events)
      rcases mainRound_run mid offered.1 with
        ⟨carried, ⟨s', B⟩, ran, rounded⟩ | ⟨refused, fault, failed⟩
      · have executes := executes_iff rounded once
        by_cases fresh : ∀ r ∈ received round.events, r.fd ∉ past
        · have later := ih (rounded.mid fresh) (offered.2 (s', B) ran)
          rw [unused_cons fresh carried once rounded.grants rounded.calls, ← later]
          constructor
          · rintro ⟨d', ran', -, runs⟩
            cases ran.symm.trans ran'
            exact runs
          · exact fun runs => ⟨(s', B), ran, executes.mpr fresh, runs⟩
        · constructor
          · rintro ⟨d', ran', all, -⟩
            cases ran.symm.trans ran'
            exact absurd (executes.mp all) fresh
          · exact fun unused => absurd unused.first.1 fresh
      · constructor
        · rintro ⟨d', ran', -⟩
          cases failed.symm.trans ran'
        · exact fun unused => absurd unused.first.2 refused

/-- A round of a server that gets all the memory it asks for, and whose clients take their
responses. -/
theorem mainRound_granted (round : Round) {opened : List Nat} (mid : Mid past [] s A.calls)
    (granted : A.AllSucceed) (same : s.opened = opened)
    (possible : PossibleAll opened round.events)
    (once : (round.events.filterMap Event.reported).Nodup)
    (inside : ∀ event ∈ round.events, event.InTable)
    (whole : ∀ r ∈ received round.events, (round.answers r.fd).cut = false) :
    Offered (s, A) round ∧ ∃ s' B, mainRound (s, A) round = .ok (s', B) ∧ B.AllSucceed ∧
      Rounded past opened round.events A (s', B) := by
  subst same
  have offered : Offered (s, A) round := ⟨possible, once⟩
  refine ⟨offered, ?_⟩
  rcases mainRound_run mid offered with ⟨-, ⟨s', B⟩, ran, rounded⟩ | ⟨refused, -⟩
  · exact ⟨s', B, ran, fun call => rounded.grants ▸ granted call, rounded⟩
  · refine absurd ⟨⟨inside, fun call _ => granted _⟩, fun r member => ?_⟩ refused
    exact whole r (List.mem_filter.mp member).1

theorem start_mid (A : Allocator) : Mid [] [] Server.start A.calls := by
  refine ⟨rfl, ⟨[], ⟨rfl, rfl, List.nodup_nil⟩, rfl⟩, ?_, ?_, fun _ _ _ => rfl, ?_, ?_, ?_⟩
  · exact fun fd member => absurd member List.not_mem_nil
  · exact fun r member => absurd member List.not_mem_nil
  · exact fun fd member => absurd member List.not_mem_nil
  · exact fun r member => absurd member List.not_mem_nil
  · intro co value live
    cases live

end Rounds

/-- The server goes on and every receive leads to one execution of the handler in its round
exactly if no descriptor has two receives, the table and the memory last, and no response is
cut by SIGPIPE or by a peer that never reads. -/
theorem runs_every_iff (A : Allocator) (rounds : List Round)
    (offered : Along mainRound Offered (Server.start, A) rounds) :
    RunsEvery (Server.start, A) rounds ↔
      ((received (allEvents rounds)).map Handled.fd).Nodup ∧
      (∀ clientfd, Event.accept clientfd ∈ allEvents rounds → clientfd < connectionSize) ∧
      (∀ call < 2 * (received (allEvents rounds)).length, A.grants (A.calls + call) = true) ∧
      ∀ round ∈ rounds, ∀ r ∈ received round.events, (round.answers r.fd).cut = false := by
  rw [runsEvery_iff (start_mid A) offered]
  constructor
  · intro unused
    exact ⟨unused.once, fun clientfd member => unused.inTable _ member, unused.granted,
      unused.whole⟩
  · rintro ⟨once, inside, granted, whole⟩
    refine ⟨fun r _ => List.not_mem_nil, once, fun event member => ?_, granted, whole⟩
    cases event with
    | accept clientfd => exact inside clientfd member
    | receive fd data => trivial
    | disconnect fd => trivial

/-- A request of one byte. -/
def letter : Data := ⟨[104], by decide, by decide⟩

/-- A round whose clients take the header, and as much of the picture as they want. -/
def took (events : List Event) : Round := ⟨events, fun fd => .picture (.sent 90) (.sent fd)⟩

/-- Two clients, the second on a descriptor of its own. The first does not wait for the
picture, and the second has gone before the header. -/
def twoClients : List Round :=
  [took [.accept 5], ⟨[.receive 5 letter, .accept 6], fun _ => .picture (.sent 90) .failed⟩,
    ⟨[.receive 6 letter], fun _ => .picture .failed .killed⟩]

/-- Two clients, the second on the descriptor of the first. -/
def reused : List Round :=
  [took [.accept 5], took [.receive 5 letter], took [.accept 5], took [.receive 5 letter]]

theorem offered_twoClients : Along mainRound Offered (Server.start, .plentiful) twoClients := by
  obtain ⟨offered, s, A, ran, granted, rounded⟩ := mainRound_granted (took [.accept 5])
    (start_mid .plentiful) Allocator.plentiful_allSucceed rfl (by decide) (by decide) (by decide)
    (by decide)
  refine .cons offered ran ?_
  obtain ⟨offered, s, A, ran, granted, rounded⟩ := mainRound_granted
    ⟨[.receive 5 letter, .accept 6], fun _ => .picture (.sent 90) .failed⟩
    (rounded.mid (by decide)) granted rounded.opened (by decide) (by decide) (by decide)
    (by decide)
  refine .cons offered ran ?_
  obtain ⟨offered, -⟩ := mainRound_granted
    ⟨[.receive 6 letter], fun _ => .picture .failed .killed⟩ (rounded.mid (by decide)) granted
    rounded.opened (by decide) (by decide) (by decide) (by decide)
  exact ⟨offered, fun _ _ => trivial⟩

theorem runs_every_two_clients : RunsEvery (Server.start, .plentiful) twoClients := by
  have inside : ∀ event ∈ allEvents twoClients, event.InTable := by decide
  exact (runs_every_iff .plentiful twoClients offered_twoClients).mpr
    ⟨by decide, fun clientfd member => inside _ member, fun _ _ => rfl, by decide⟩

/-- The second request leads to no execution, and nothing fails. -/
theorem reused_not_handled : Along mainRound Offered (Server.start, .plentiful) reused ∧
    ¬ RunsEvery (Server.start, .plentiful) reused ∧
    ∃ d, runs mainRound (Server.start, .plentiful) reused = .ok d ∧ d.1.handled = [] := by
  obtain ⟨first, s₁, A₁, ran₁, granted, rounded⟩ := mainRound_granted (took [.accept 5])
    (start_mid .plentiful) Allocator.plentiful_allSucceed rfl (by decide) (by decide) (by decide)
    (by decide)
  obtain ⟨second, s₂, A₂, ran₂, granted, rounded⟩ := mainRound_granted (took [.receive 5 letter])
    (rounded.mid (by decide)) granted rounded.opened (by decide) (by decide) (by decide)
    (by decide)
  obtain ⟨third, s₃, A₃, ran₃, granted, rounded⟩ := mainRound_granted (took [.accept 5])
    (rounded.mid (by decide)) granted rounded.opened (by decide) (by decide) (by decide)
    (by decide)
  obtain ⟨fourth, s₄, A₄, ran₄, -, rounded⟩ := mainRound_granted (took [.receive 5 letter])
    (rounded.mid (by decide)) granted rounded.opened (by decide) (by decide) (by decide)
    (by decide)
  have offered : Along mainRound Offered (Server.start, .plentiful) reused :=
    .cons first ran₁ (.cons second ran₂ (.cons third ran₃ (.cons fourth ran₄ trivial)))
  refine ⟨offered, fun all => ?_, (s₄, A₄), ?_, rounded.handled⟩
  · have unused := (runsEvery_iff (start_mid .plentiful) offered).mp all
    exact absurd unused.once (by decide)
  · exact (runs_cons ran₁).trans ((runs_cons ran₂).trans ((runs_cons ran₃).trans (runs_cons ran₄)))

end LinuxCpp.Coroutine
