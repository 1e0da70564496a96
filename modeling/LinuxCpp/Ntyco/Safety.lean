import LinuxCpp.Ntyco.Moves

set_option autoImplicit false

/- Runs of the scheduler under coroutines that wait for different descriptors. -/
namespace LinuxCpp.Ntyco

open C Trace

variable {s : Sched} {fd : Int} {id : Nat} {c : Co}

section Calls

theorem Inv.returned (inv : Inv s) (id : Nat) : Inv (returned s id) := by
  unfold Ntyco.returned
  split
  · split
    · exact inv.restage (by simp)
    · exact inv
  · exact inv

theorem Inv.current (inv : Inv s) (runs : s.curr = some id) :
    ∃ c, s.heap id = some c ∧ c.Idle ∧ c.status.new = false := by
  obtain ⟨c, here⟩ := Option.ne_none_iff_exists'.mp (inv.toHoused.curr_live runs)
  have home : id ∈ s.curr.toList ++ s.ready := by
    rw [runs]
    exact List.mem_cons_self
  exact ⟨c, here, inv.idle id c home here, inv.begun id c runs here⟩

theorem link_ok {members : List Nat} (apart : id ∉ members) : link members id = .ok () := by
  rw [link, if_neg apart]

/-- The processor is given up, and the coroutine comes back later. -/
theorem Inv.yieldReady (inv : Inv s) (runs : s.curr = some id) (here : s.heap id = some c)
    (awake : id ∉ s.sleeping.map Prod.snd) :
    ∃ t, yieldReady s id = .ok t ∧ Inv t := by
  obtain ⟨d, at_, idle, -⟩ := inv.current runs
  cases here.symm.trans at_
  have kept := inv.enqueue runs here
    (d := { c with ops := 0, point := .behind }) ⟨idle.calm, by simp⟩ rfl awake
  refine ⟨_, ?_, kept.returned id⟩
  rw [Ntyco.yieldReady, link_ok (inv.toHoused.curr_apart runs).1, ok_bind]
  have here : { s with ready := s.ready ++ [id] }.heap id = some c := here
  exact yieldAt_stays here idle.calm.exited

theorem epollAdd_fields (s : Sched) (fd : Int) (events : PollEvents) (added : Bool) :
    ∃ interest, epollAdd s fd events added = { s with interest := interest } ∧
      ∀ key, key ≠ fd → interest key = s.interest key := by
  rw [epollAdd]
  split
  · exact ⟨_, rfl, fun key apart => Function.update_of_ne apart ..⟩
  · exact ⟨s.interest, rfl, fun _ _ => rfl⟩

/-- What `nty_schedule_sched_wait` leaves in the record. -/
def Co.parked (c : Co) (fd : Int) (events : PollEvents) : Co :=
  { c with
    status := if events.pollin then c.status else { c.status with waitRead := true }
    fd := fd
    events := events }

theorem schedWait_ok {events : PollEvents} (here : s.heap id = some c) (calm : c.status.Calm)
    (some_ : events.pollin = true ∨ events.pollout = true)
    (free : fd ∉ s.waiting.map Prod.fst) (apart : id ∉ s.waiting.map Prod.snd) :
    schedWait s id fd events = .ok { s with
      waiting := (fd, id) :: s.waiting
      heap := Function.update s.heap id (some (c.parked fd events)) } := by
  have none_ : s.waiting.lookup fd = none := by
    rw [List.lookup_eq_none_iff]
    intro entry member
    have other : entry.1 ≠ fd := fun same => free (same ▸ List.mem_map_of_mem member)
    simpa using Ne.symm other
  rw [schedWait, co_ok here, ok_bind, calm.waitRead, calm.waitWrite]
  by_cases pollin : events.pollin = true
  · simp only [pollin, Bool.or_self, Bool.false_eq_true, if_false, if_true, Sched.setCo,
      Sched.waiter, none_, link_ok apart, Co.parked]
    rfl
  · simp only [pollin, some_.resolve_left pollin, Bool.or_self, Bool.false_eq_true, if_false,
      if_true, Sched.setCo, Sched.waiter, none_, link_ok apart, Co.parked]
    rfl

theorem Inv.poll (inv : Inv s) (runs : s.curr = some id) {events : PollEvents}
    (some_ : events.pollin = true ∨ events.pollout = true)
    (free : fd ∉ s.waiting.map Prod.fst) (added : Bool) :
    ∃ t, act s id (.poll fd events added) = .ok t ∧ Inv t := by
  obtain ⟨c, here, idle, begun⟩ := inv.current runs
  obtain ⟨interest, same, adds⟩ := epollAdd_fields s fd events added
  have started : (c.parked fd events).status.new = false := by
    rw [Co.parked]
    split <;> exact begun
  have stays : (c.parked fd events).status.exited = false := by
    rw [Co.parked]
    split <;> exact idle.calm.exited
  have kept := inv.park (d := { c.parked fd events with ops := 0, point := .polling fd }) runs here
    ⟨rfl, started⟩ rfl free adds
  refine ⟨_, ?_, kept.returned id⟩
  have here : { s with interest := interest }.heap id = some c := here
  rw [act, same, schedWait_ok here idle.calm some_ free (inv.toHoused.curr_apart runs).2,
    ok_bind, yieldAt_stays (Function.update_self ..) stays, Function.update_idem]

/-- Fewer keys than tries: some key is free. -/
theorem freeKey_finds (keys : List Nat) {fuel key : Nat}
    (fits : (keys.filter (key ≤ ·)).length < fuel) :
    ∃ found, freeKey keys fuel key = .ok found ∧ found ∉ keys := by
  induction fuel generalizing key with
  | zero => omega
  | succ fuel ih =>
      rw [freeKey]
      by_cases taken : key ∈ keys
      · rw [if_pos taken]
        apply ih
        have sub : (keys.filter (key + 1 ≤ ·)).Sublist (keys.filter (key ≤ ·)) := by
          refine List.monotone_filter_right keys fun other late => ?_
          simp only [decide_eq_true_eq] at late ⊢
          omega
        have strict : (keys.filter (key + 1 ≤ ·)).length ≠ (keys.filter (key ≤ ·)).length := by
          intro same
          have member : key ∈ keys.filter (key ≤ ·) := List.mem_filter.mpr ⟨taken, by simp⟩
          rw [← sub.eq_of_length same] at member
          have late := (List.mem_filter.mp member).2
          simp only [decide_eq_true_eq] at late
          omega
        have shorter := sub.length_le
        omega
      · exact ⟨key, if_neg taken, taken⟩

/-- The tree of the sleeping behind `nty_schedule_sched_sleepdown`. -/
def slept (sleeping : List (Nat × Nat)) (old key id : Nat) : List (Nat × Nat) :=
  (sleeping.filter fun member => member.1 ≠ old).orderedInsert (fun a b => a.1 ≤ b.1) (key, id)

theorem mem_slept {sleeping : List (Nat × Nat)} {old key : Nat} {entry : Nat × Nat} :
    entry ∈ slept sleeping old key id ↔
      entry = (key, id) ∨ entry ∈ sleeping ∧ entry.1 ≠ old := by
  rw [slept, List.mem_orderedInsert, List.mem_filter, decide_eq_true_eq]

theorem compareAll_ok (live : ∀ entry ∈ s.sleeping, ∃ c, s.heap entry.2 = some c) :
    s.compareAll = .ok () := by
  rw [Sched.compareAll]
  generalize s.sleeping = members at live
  induction members with
  | nil => rfl
  | cons entry rest ih =>
      obtain ⟨c, here⟩ := live entry List.mem_cons_self
      rw [List.forM_eq_forM, List.forM_cons, co_ok here, ok_bind]
      exact ih fun other member => live other (List.mem_cons_of_mem _ member)

theorem slept_keys {sleeping : List (Nat × Nat)} {old key : Nat}
    (keys : (sleeping.map Prod.fst).Nodup)
    (new : key ∉ (sleeping.filter fun member => member.1 ≠ old).map Prod.fst) :
    ((slept sleeping old key id).map Prod.fst).Nodup := by
  refine ((List.perm_orderedInsert _ _ _).map Prod.fst).nodup_iff.mpr ?_
  exact List.nodup_cons.mpr ⟨new, keys.sublist (List.filter_sublist.map _)⟩

theorem Inv.sleepdown (inv : Inv s) (runs : s.curr = some id) {msecs : Nat} (some_ : msecs ≠ 0)
    (now : Nat) : ∃ t, schedSleepdown s id msecs now = .ok t ∧ Inv t := by
  obtain ⟨c, here, idle, begun⟩ := inv.current runs
  have all := compareAll_ok fun entry member => (inv.sleeps entry.1 entry.2 member).imp
    fun _ found => found.1
  have own : ∀ key, (key, id) ∈ s.sleeping → key = c.sleepUsecs := by
    intro key sleeps
    obtain ⟨found, at_, until_⟩ := inv.sleeps key id sleeps
    cases here.symm.trans at_
    exact until_.symm
  let kept := s.sleeping.filter fun member => member.1 ≠ c.sleepUsecs
  have fits : ((kept.map Prod.fst).filter (now + msecs * 1000 ≤ ·)).length < kept.length + 1 := by
    have shorter := List.length_filter_le (now + msecs * 1000 ≤ ·) (kept.map Prod.fst)
    rw [List.length_map] at shorter
    omega
  obtain ⟨key, finds, new⟩ := freeKey_finds _ fits
  have apart : id ∉ kept.map Prod.snd := by
    intro member
    obtain ⟨⟨other, _⟩, entry, rfl⟩ := List.mem_map.mp member
    obtain ⟨sleeps, differs⟩ := List.mem_filter.mp entry
    simp [own _ sleeps] at differs
  let d := { c with sleepUsecs := key, status := { c.status with sleeping := true } }
  let t := { s with
    sleeping := slept s.sleeping c.sleepUsecs key id
    heap := Function.update s.heap id (some d) }
  refine ⟨t, ?_, ?_⟩
  · rw [schedSleepdown, all, ok_bind, co_ok here, ok_bind, if_neg some_, finds, ok_bind,
      link_ok apart]
    rfl
  · have calm : d.Idle := ⟨⟨idle.calm.1, idle.calm.2, idle.calm.3, idle.calm.4⟩, idle.point⟩
    refine inv.retime runs calm begun ?_ ?_ (slept_keys inv.sleepKeys new)
    · intro other queued member
      obtain ⟨entry, inside, rfl⟩ := List.mem_map.mp member
      obtain rfl | ⟨before, -⟩ := mem_slept.mp inside
      · exact (inv.toHoused.curr_apart runs).1 queued
      · exact inv.awake entry.2 queued (List.mem_map_of_mem before)
    · intro other who member
      obtain same | ⟨before, differs⟩ := mem_slept.mp member
      · cases same
        exact ⟨d, Function.update_self .., rfl⟩
      · obtain ⟨found, at_, until_⟩ := inv.sleeps other who before
        have apart : who ≠ id := by
          rintro rfl
          exact differs (own other before)
        exact ⟨found, (Function.update_of_ne apart ..).trans at_, until_⟩

theorem Inv.renice (inv : Inv s) (runs : s.curr = some id)
    (awake : id ∉ s.sleeping.map Prod.snd) : ∃ t, act s id .renice = .ok t ∧ Inv t := by
  obtain ⟨c, here, idle, begun⟩ := inv.current runs
  let d := { c with ops := c.ops + 1 }
  have touched : Inv (s.setCo id d) := inv.retouch runs here ⟨idle.calm, idle.point⟩ begun rfl
  rw [act, co_ok here, ok_bind]
  by_cases few : c.ops + 1 < 5
  · exact ⟨_, if_pos few, touched⟩
  · obtain ⟨t, yields, kept⟩ := touched.yieldReady runs (Function.update_self ..) awake
    exact ⟨t, (if_neg few).trans yields, kept⟩

theorem Inv.detach (inv : Inv s) (runs : s.curr = some id) :
    ∃ t, act s id .detach = .ok t ∧ Inv t := by
  obtain ⟨c, here, idle, begun⟩ := inv.current runs
  let d := { c with status := { c.status with detach := true } }
  have calm : d.Idle := ⟨⟨idle.calm.1, idle.calm.2, idle.calm.3, idle.calm.4⟩, idle.point⟩
  refine ⟨_, ?_, inv.retouch runs here calm begun rfl⟩
  rw [act, co_ok here]
  rfl

theorem Inv.exit (inv : Inv s) (runs : s.curr = some id)
    (awake : id ∉ s.sleeping.map Prod.snd) : ∃ t, act s id .exit = .ok t ∧ Inv t := by
  obtain ⟨c, here, -, -⟩ := inv.current runs
  refine ⟨_, ?_, (inv.leave runs awake).returned id⟩
  rw [act, co_ok here, ok_bind]
  simp only [Sched.setCo]
  rw [yieldAt_leaves (Function.update_self ..) rfl rfl, Function.update_idem]

end Calls

section Moves

theorem Inv.waiter_live (inv : Inv s) (waits : (fd, id) ∈ s.waiting) :
    ∃ c, s.heap id = some c ∧ c.Polls fd := by
  obtain ⟨c, here⟩ := Option.ne_none_iff_exists'.mp (inv.toHoused.waiting_live waits)
  exact ⟨c, here, inv.polls fd id c waits here⟩

theorem zero_idle (c : Co) : Co.Idle { c with status := .zero, point := .behind } :=
  ⟨⟨rfl, rfl, rfl, rfl⟩, by simp⟩

theorem Co.Idle.started (idle : c.Idle) :
    Co.Idle { c with status := c.status.started, point := .behind } := by
  refine ⟨?_, by simp⟩
  simp only [Status.started]
  split
  · exact ⟨rfl, rfl, rfl, rfl⟩
  · exact idle.calm

theorem started_new (status : Status) : status.started.new = false := by
  rw [Status.started]
  split
  · rfl
  · simp_all

/-- The first of the ready is resumed: none of them is at the end of its descriptor. -/
theorem Inv.serve (inv : Inv s) (idle : s.curr = none) {last : Option Nat}
    (stage : s.stage = .ready last) {rest : List Nat} (queue : s.ready = id :: rest) (now : Nat)
    (reported : List Report) :
    ∃ t, schedMove s now reported = .ok t ∧ Inv t ∧ t.curr = some id ∧ t.ready = rest ∧
      t.stage = s.stage ∧ t.resumed = s.resumed ++ [id] ∧ t.sleeping = s.sleeping := by
  have queued : id ∈ s.ready := by
    rw [queue]
    exact List.mem_cons_self
  obtain ⟨c, here⟩ := Option.ne_none_iff_exists'.mp (inv.toHoused.ready_live queued)
  have calm := inv.idle id c (List.mem_append_right _ queued) here
  refine ⟨_, ?_, inv.dequeue idle queue here calm.started (started_new _) rfl _, rfl, rfl, rfl, rfl,
    rfl⟩
  rw [Ntyco.schedMove, stage]
  simp only [queue, Sched.co, here, ok_bind, calm.calm.fdeof, Bool.false_eq_true, if_false]
  exact resume_idle here calm

/-- Whoever waits for the descriptor is resumed, whatever is reported of it. -/
theorem Inv.report (inv : Inv s) (idle : s.curr = none) {report : Report} {left : List Report}
    (stage : s.stage = .batch (report :: left)) (now : Nat) (reported : List Report) :
    ∃ t, schedMove s now reported = .ok t ∧ Inv t ∧
      ∃ id, (report.fd, id) ∈ s.waiting ∧ t.curr = some id ∧ t.stage = .batch left ∧
        t.ready = s.ready ∧ t.waiting = s.waiting.filter (fun entry => entry.1 ≠ report.fd) ∧
        t.resumed = s.resumed ++ [id] ∧ t.sleeping = s.sleeping := by
  obtain ⟨nodup, all⟩ := inv.batch _ stage
  obtain ⟨id, found⟩ := waiter_of_key (all report List.mem_cons_self)
  have waits := waiter_mem found
  obtain ⟨c, here, polls⟩ := inv.waiter_live waits
  have reports : ∀ rest, Stage.batch left = .batch rest → (rest.map Report.fd).Nodup ∧
      ∀ r ∈ rest, r.fd ≠ report.fd ∧ r.fd ∈ s.waiting.map Prod.fst := by
    rintro _ ⟨⟩
    obtain ⟨first, nodup⟩ := List.nodup_cons.mp nodup
    refine ⟨nodup, fun r member => ⟨?_, all r (List.mem_cons_of_mem _ member)⟩⟩
    rintro same
    exact first (same ▸ List.mem_map_of_mem member)
  refine ⟨_, ?_, inv.wake idle waits here (zero_idle c) rfl rfl (s.resumed ++ [id]) reports, id,
    waits, rfl, rfl, rfl, rfl, rfl, rfl⟩
  have found : s.waiting.lookup report.fd = some id := found
  rw [Ntyco.schedMove, stage]
  simp only [searchWait, Sched.waiter, found, Sched.setCo, Sched.co, here, ok_bind, pure_bind,
    Function.update_self, Function.update_idem]
  refine Eq.trans (@resume_polls _ report.fd id _ (Function.update_self ..) ?_ found) ?_
  · exact ⟨polls.point, rfl⟩
  · simp only [Function.update_idem]

/-- A coroutine whose time is over is one of the waiting. -/
theorem Inv.expire (inv : Inv s) (idle : s.curr = none) (stage : s.stage = .expiring)
    {entry : Nat × Nat} {rest : List (Nat × Nat)} (tree : s.sleeping = entry :: rest) {now : Nat}
    (late : entry.1 ≤ now) (reported : List Report) :
    ∃ t, schedMove s now reported = .ok t ∧ Inv t ∧ t.curr = some entry.2 ∧
      t.stage = .expiring := by
  obtain ⟨key, id⟩ := entry
  have sleeps : (key, id) ∈ s.sleeping := by
    rw [tree]
    exact List.mem_cons_self
  obtain ⟨c, here, -⟩ := inv.sleeps key id sleeps
  have home : id ∈ s.homes := (inv.live id).mpr (by rw [here]; exact Option.some_ne_none c)
  have waits : id ∈ s.waiting.map Prod.snd := by
    rw [Sched.homes, idle, Option.toList, List.nil_append] at home
    obtain queued | waits := List.mem_append.mp home
    · exact absurd (List.mem_map_of_mem sleeps) (inv.awake id queued)
    · exact waits
  obtain ⟨⟨fd, who⟩, member, same⟩ := List.mem_map.mp waits
  change who = id at same
  subst same
  have polls := inv.polls fd _ c member here
  have found := waiter_of_mem inv.keys member
  have roused := inv.rouse tree
  have noReports : ∀ left, s.stage = .batch left → (left.map Report.fd).Nodup ∧
      ∀ r ∈ left, r.fd ≠ fd ∧ r.fd ∈ s.waiting.map Prod.fst := by
    intro left at_
    rw [stage] at at_
    cases at_
  refine ⟨_, ?_, roused.wake idle member here (zero_idle c) rfl rfl
    (s.resumed ++ [who]) noReports, rfl, stage⟩
  rw [Ntyco.schedMove, stage]
  simp only [expired, tree, stage, Sched.co, here, ok_bind, pure_bind, if_pos late]
  exact resume_polls here polls found

theorem Sched.asleep_or (s : Sched) (now : Nat) :
    (∀ entry ∈ s.sleeping.head?, now < entry.1) ∨
      ∃ entry rest, s.sleeping = entry :: rest ∧ entry.1 ≤ now := by
  cases tree : s.sleeping with
  | nil => exact .inl (by simp)
  | cons entry rest =>
      by_cases late : entry.1 ≤ now
      · exact .inr ⟨entry, rest, rfl, late⟩
      · exact .inl (by simpa using late)

/-- No coroutine's time is over: the ready have their turn. -/
theorem Inv.settle (inv : Inv s) (stage : s.stage = .expiring) {now : Nat}
    (asleep : ∀ entry ∈ s.sleeping.head?, now < entry.1) (reported : List Report) :
    schedMove s now reported = .ok { s with stage := .ready s.ready.getLast? } := by
  rw [Ntyco.schedMove, stage]
  cases tree : s.sleeping with
  | nil =>
      simp only [expired, tree, ok_bind]
      rfl
  | cons entry rest =>
      obtain ⟨c, here, -⟩ := inv.sleeps entry.1 entry.2 (tree ▸ List.mem_cons_self)
      have later : ¬ entry.1 ≤ now := by
        have later := asleep entry (by rw [tree]; rfl)
        omega
      simp only [expired, tree, Sched.co, here, ok_bind, pure_bind, if_neg later]
      rfl

theorem Inv.minTimeout_ok (inv : Inv s) (now : Nat) : ∃ usecs, minTimeout s now = .ok usecs := by
  rw [minTimeout]
  cases tree : s.sleeping with
  | nil => exact ⟨_, rfl⟩
  | cons entry rest =>
      obtain ⟨key, id⟩ := entry
      obtain ⟨c, here, -⟩ := inv.sleeps key id (tree ▸ List.mem_cons_self)
      refine ⟨key - now, ?_⟩
      simp only [co_ok here]
      rfl

/-- The reports are asked for, or not. -/
theorem Inv.ask (inv : Inv s) (stage : s.stage = .polling) (now : Nat) (reported : List Report) :
    schedMove s now reported = .ok { s with stage := .batch reported.reverse } ∨
      schedMove s now reported = .ok { s with stage := .top } := by
  obtain ⟨usecs, waits⟩ := inv.minTimeout_ok now
  rw [Ntyco.schedMove, stage]
  simp only [waits, ok_bind]
  by_cases asks : usecs ≠ 0 ∧ s.ready = []
  · exact .inl (if_pos asks)
  · exact .inr (if_neg asks)

/-- The moves of the scheduler cannot fail, whatever `epoll_wait` says of the descriptors
that it watches. -/
theorem Inv.schedMove (inv : Inv s) (idle : s.curr = none) (now : Nat) {reported : List Report}
    (polled : s.stage = .polling → (reported.map Report.fd).Nodup ∧
      ∀ r ∈ reported, s.interest r.fd ≠ none) :
    ∃ t, schedMove s now reported = .ok t ∧ Inv t := by
  cases stage : s.stage with
  | top =>
      refine ⟨_, by rw [Ntyco.schedMove, stage], inv.restage fun left => ?_⟩
      split <;> simp
  | expiring =>
      obtain asleep | ⟨entry, rest, tree, late⟩ := s.asleep_or now
      · exact ⟨_, inv.settle stage asleep reported, inv.restage (by simp)⟩
      · obtain ⟨t, moves, kept, -⟩ := inv.expire idle stage tree late reported
        exact ⟨t, moves, kept⟩
  | ready last =>
      cases queue : s.ready with
      | nil =>
          refine ⟨_, ?_, @Inv.restage s inv .polling (by simp)⟩
          rw [Ntyco.schedMove, stage]
          simp only [queue]
      | cons id rest =>
          obtain ⟨t, moves, kept, -⟩ := inv.serve idle stage queue now reported
          exact ⟨t, moves, kept⟩
  | polling =>
      obtain ⟨nodup, watched⟩ := polled stage
      obtain asks | passes := inv.ask stage now reported
      · refine ⟨_, asks, inv.rebatch ?_ fun r member => ?_⟩
        · rw [List.map_reverse]
          exact List.nodup_reverse.mpr nodup
        · exact inv.watched r.fd (watched r (List.mem_reverse.mp member))
      · exact ⟨_, passes, inv.restage (by simp)⟩
  | batch left =>
      cases left with
      | nil =>
          refine ⟨_, ?_, @Inv.restage s inv .top (by simp)⟩
          rw [Ntyco.schedMove, stage]
      | cons report left =>
          obtain ⟨t, moves, kept, -⟩ := inv.report idle stage now reported
          exact ⟨t, moves, kept⟩
  | done => exact ⟨s, by rw [Ntyco.schedMove, stage], inv⟩

end Moves

end LinuxCpp.Ntyco
