import LinuxCpp.Ntyco.Invariant

set_option autoImplicit false

/- What the parts of a step make of the homes of the coroutines. -/
namespace LinuxCpp.Ntyco

variable {s t : Sched} {fd : Int} {id : Nat} {c d : Co}

section Homes

theorem updated_cases {heap : Nat → Option Co} {other : Nat}
    (here : Function.update heap id (some d) other = some c) :
    other = id ∧ c = d ∨ other ≠ id ∧ heap other = some c := by
  by_cases same : other = id
  · subst same
    rw [Function.update_self] at here
    exact .inl ⟨rfl, (Option.some.inj here).symm⟩
  · rw [Function.update_of_ne same] at here
    exact .inr ⟨same, here⟩

theorem removed_apart {heap : Nat → Option Co} {other : Nat}
    (here : Function.update heap id none other = some c) : other ≠ id ∧ heap other = some c := by
  by_cases same : other = id
  · rw [same, Function.update_self] at here
    cases here
  · exact ⟨same, (Function.update_of_ne same ..).symm.trans here⟩

theorem updated_ne_none {heap : Nat → Option Co} (here : heap id ≠ none) (other : Nat) :
    Function.update heap id (some d) other ≠ none ↔ heap other ≠ none := by
  by_cases same : other = id
  · subst same
    simp [here]
  · rw [Function.update_of_ne same]

theorem Housed.moved (housed : Housed s) (perm : t.homes.Perm s.homes)
    (heap : ∀ other, t.heap other ≠ none ↔ s.heap other ≠ none)
    (spawned : t.spawned = s.spawned) (created : t.created = s.created) : Housed t where
  nodup := perm.nodup_iff.mpr housed.nodup
  live other := by rw [perm.mem_iff, heap]; exact housed.live other
  counted := by rw [spawned, housed.counted, perm.length_eq]
  fresh other late := by
    by_contra here
    exact (heap other).mp here (housed.fresh other (created ▸ late))

theorem Housed.curr_live (housed : Housed s) (runs : s.curr = some id) : s.heap id ≠ none := by
  rw [← housed.live, Sched.homes, runs]
  exact List.mem_cons_self

theorem Housed.ready_live (housed : Housed s) (queued : id ∈ s.ready) : s.heap id ≠ none := by
  rw [← housed.live, Sched.homes]
  exact List.mem_append_left _ (List.mem_append_right _ queued)

theorem Housed.waiting_live (housed : Housed s) (waits : (fd, id) ∈ s.waiting) :
    s.heap id ≠ none := by
  rw [← housed.live, Sched.homes]
  exact List.mem_append_right _ (List.mem_map_of_mem waits)

theorem Housed.curr_apart (housed : Housed s) (runs : s.curr = some id) :
    id ∉ s.ready ∧ id ∉ s.waiting.map Prod.snd := by
  have nodup := housed.nodup
  rw [Sched.homes, runs, List.append_assoc] at nodup
  have apart : id ∉ s.ready ++ s.waiting.map Prod.snd := (List.nodup_cons.mp nodup).1
  exact ⟨fun queued => apart (List.mem_append_left _ queued),
    fun waits => apart (List.mem_append_right _ waits)⟩

theorem Housed.waiting_apart (housed : Housed s) (waits : (fd, id) ∈ s.waiting) :
    id ∉ s.curr.toList ++ s.ready := by
  intro here
  have nodup := housed.nodup
  rw [Sched.homes] at nodup
  exact List.disjoint_of_nodup_append nodup here (List.mem_map_of_mem waits)

theorem Housed.one_wait (housed : Housed s) {other : Int} (waits : (fd, id) ∈ s.waiting)
    (also : (other, id) ∈ s.waiting) : other = fd := by
  have nodup : (s.waiting.map Prod.snd).Nodup := (List.nodup_append.mp housed.nodup).2.1
  exact congrArg Prod.fst (List.inj_on_of_nodup_map nodup also waits rfl)

/-- A live coroutine whose record alone changes, and keeps the time it sleeps to. -/
theorem Inv.sleeps_updated (inv : Inv s) (here : s.heap id = some c)
    (time : d.sleepUsecs = c.sleepUsecs) {key other : Nat} (sleeps : (key, other) ∈ s.sleeping) :
    ∃ c, Function.update s.heap id (some d) other = some c ∧ c.sleepUsecs = key := by
  obtain ⟨found, at_, until_⟩ := inv.sleeps key other sleeps
  by_cases same : other = id
  · subst same
    cases here.symm.trans at_
    exact ⟨d, Function.update_self .., time.trans until_⟩
  · exact ⟨found, (Function.update_of_ne same ..).trans at_, until_⟩

end Homes

section Scheduler

theorem Inv.atStage (inv : Inv s) {stage : Stage} (reports : ∀ left, stage = .batch left →
      (left.map Report.fd).Nodup ∧ ∀ r ∈ left, r.fd ∈ s.waiting.map Prod.fst) :
    Inv { s with stage := stage } where
  toHoused := inv.toHoused.moved (.refl _) (fun _ => Iff.rfl) rfl rfl
  idle := inv.idle
  begun := inv.begun
  keys := inv.keys
  polls := inv.polls
  watched := inv.watched
  awake := inv.awake
  sleeps := inv.sleeps
  sleepKeys := inv.sleepKeys
  batch := reports

/-- A stage without reports. -/
theorem Inv.restage (inv : Inv s) {stage : Stage} (apart : ∀ left, stage ≠ .batch left) :
    Inv { s with stage := stage } :=
  inv.atStage fun left at_ => absurd at_ (apart left)

theorem Inv.rebatch (inv : Inv s) {left : List Report} (nodup : (left.map Report.fd).Nodup)
    (all : ∀ r ∈ left, r.fd ∈ s.waiting.map Prod.fst) : Inv { s with stage := .batch left } := by
  refine inv.atStage fun other at_ => ?_
  cases at_
  exact ⟨nodup, all⟩

/-- The first of the ready takes the processor. -/
theorem Inv.dequeue (inv : Inv s) (idle : s.curr = none) {rest : List Nat}
    (queue : s.ready = id :: rest) (here : s.heap id = some c) (runs : d.Idle)
    (begun : d.status.new = false) (time : d.sleepUsecs = c.sleepUsecs) (resumed : List Nat) :
    Inv { s with
      curr := some id
      ready := rest
      resumed := resumed
      heap := Function.update s.heap id (some d) } where
  toHoused := by
    refine inv.toHoused.moved ?_ (updated_ne_none (by rw [here]; exact Option.some_ne_none c))
      rfl rfl
    rw [Sched.homes, Sched.homes, idle, queue]
    exact .refl _
  idle other found home at_ := by
    obtain ⟨rfl, rfl⟩ | ⟨-, at_⟩ := updated_cases at_
    · exact runs
    · refine inv.idle other found ?_ at_
      rw [idle, queue]
      exact home
  begun other found home at_ := by
    cases home
    obtain ⟨-, rfl⟩ | ⟨apart, -⟩ := updated_cases at_
    · exact begun
    · exact absurd rfl apart
  keys := inv.keys
  polls key other found waits at_ := by
    obtain ⟨rfl, rfl⟩ | ⟨-, at_⟩ := updated_cases at_
    · refine absurd ?_ (inv.toHoused.waiting_apart waits)
      rw [idle, queue]
      exact List.mem_cons_self
    · exact inv.polls key other found waits at_
  watched := inv.watched
  awake other queued := inv.awake other (queue ▸ List.mem_cons_of_mem _ queued)
  sleeps _ _ sleeps := inv.sleeps_updated here time sleeps
  sleepKeys := inv.sleepKeys
  batch := inv.batch

/-- One of the waiting takes the processor, and is watched no longer. -/
theorem Inv.wake (inv : Inv s) (idle : s.curr = none) (waits : (fd, id) ∈ s.waiting)
    (here : s.heap id = some c) (runs : d.Idle) (begun : d.status.new = false)
    (time : d.sleepUsecs = c.sleepUsecs) (resumed : List Nat) {stage : Stage}
    (reports : ∀ left, stage = .batch left → (left.map Report.fd).Nodup ∧
      ∀ r ∈ left, r.fd ≠ fd ∧ r.fd ∈ s.waiting.map Prod.fst) :
    Inv { s with
      curr := some id
      resumed := resumed
      interest := Function.update s.interest fd none
      waiting := s.waiting.filter fun entry => entry.1 ≠ fd
      stage := stage
      heap := Function.update s.heap id (some d) } where
  toHoused := by
    refine inv.toHoused.moved ?_ (updated_ne_none (by rw [here]; exact Option.some_ne_none c))
      rfl rfl
    have perm := (waiting_perm inv.keys waits).map Prod.snd
    rw [Sched.homes, Sched.homes, idle]
    exact (List.perm_middle.symm.trans (perm.symm.append_left s.ready))
  idle other found home at_ := by
    obtain ⟨rfl, rfl⟩ | ⟨apart, at_⟩ := updated_cases at_
    · exact runs
    · refine inv.idle other found ?_ at_
      rw [idle]
      exact (List.mem_cons.mp home).resolve_left apart
  begun other found home at_ := by
    cases home
    obtain ⟨-, rfl⟩ | ⟨apart, -⟩ := updated_cases at_
    · exact begun
    · exact absurd rfl apart
  keys := inv.keys.sublist (List.filter_sublist.map _)
  polls key other found also at_ := by
    obtain ⟨before, apart⟩ := List.mem_filter.mp also
    obtain ⟨rfl, rfl⟩ | ⟨-, at_⟩ := updated_cases at_
    · exact absurd (inv.toHoused.one_wait waits before) (by simpa using apart)
    · exact inv.polls key other found before at_
  watched key watched := by
    change Function.update s.interest fd none key ≠ none at watched
    have apart : key ≠ fd := by
      rintro rfl
      exact watched (Function.update_self ..)
    rw [Function.update_of_ne apart] at watched
    obtain ⟨entry, member, rfl⟩ := List.mem_map.mp (inv.watched key watched)
    exact List.mem_map_of_mem (List.mem_filter.mpr ⟨member, by simpa using apart⟩)
  awake := inv.awake
  sleeps _ _ sleeps := inv.sleeps_updated here time sleeps
  sleepKeys := inv.sleepKeys
  batch left at_ := by
    obtain ⟨nodup, all⟩ := reports left at_
    refine ⟨nodup, fun r member => ?_⟩
    obtain ⟨apart, key⟩ := all r member
    obtain ⟨entry, member, same⟩ := List.mem_map.mp key
    rw [← same] at apart ⊢
    exact List.mem_map_of_mem (List.mem_filter.mpr ⟨member, by simpa using apart⟩)

/-- The first of the sleeping leaves the tree. -/
theorem Inv.rouse (inv : Inv s) {entry : Nat × Nat} {rest : List (Nat × Nat)}
    (tree : s.sleeping = entry :: rest) : Inv { s with sleeping := rest } where
  toHoused := inv.toHoused.moved (.refl _) (fun _ => Iff.rfl) rfl rfl
  idle := inv.idle
  begun := inv.begun
  keys := inv.keys
  polls := inv.polls
  watched := inv.watched
  awake other queued sleeps := by
    apply inv.awake other queued
    rw [tree]
    exact List.mem_cons_of_mem _ sleeps
  sleeps key other sleeps := inv.sleeps key other (tree ▸ List.mem_cons_of_mem _ sleeps)
  sleepKeys := by
    have keys := inv.sleepKeys
    rw [tree] at keys
    exact (List.nodup_cons.mp keys).2
  batch := inv.batch

end Scheduler

section Running

/-- Only the record of the running coroutine and the tree of the sleeping change. -/
theorem Inv.retime (inv : Inv s) (runs : s.curr = some id) (calm : d.Idle)
    (begun : d.status.new = false) {sleeping : List (Nat × Nat)}
    (awake : ∀ other ∈ s.ready, other ∉ sleeping.map Prod.snd)
    (sleeps : ∀ key other, (key, other) ∈ sleeping →
      ∃ c, Function.update s.heap id (some d) other = some c ∧ c.sleepUsecs = key)
    (sleepKeys : (sleeping.map Prod.fst).Nodup) :
    Inv { s with sleeping := sleeping, heap := Function.update s.heap id (some d) } where
  toHoused := inv.toHoused.moved (.refl _) (updated_ne_none (inv.toHoused.curr_live runs)) rfl rfl
  idle other found home at_ := by
    obtain ⟨rfl, rfl⟩ | ⟨-, at_⟩ := updated_cases at_
    · exact calm
    · exact inv.idle other found home at_
  begun other found home at_ := by
    cases home.symm.trans runs
    obtain ⟨-, rfl⟩ | ⟨apart, -⟩ := updated_cases at_
    · exact begun
    · exact absurd rfl apart
  keys := inv.keys
  polls key other found waits at_ := by
    obtain ⟨rfl, rfl⟩ | ⟨-, at_⟩ := updated_cases at_
    · exact absurd (List.mem_map_of_mem waits) (inv.toHoused.curr_apart runs).2
    · exact inv.polls key other found waits at_
  watched := inv.watched
  awake := awake
  sleeps := sleeps
  sleepKeys := sleepKeys
  batch := inv.batch

theorem Inv.retouch (inv : Inv s) (runs : s.curr = some id) (here : s.heap id = some c)
    (calm : d.Idle) (begun : d.status.new = false) (time : d.sleepUsecs = c.sleepUsecs) :
    Inv { s with heap := Function.update s.heap id (some d) } :=
  inv.retime runs calm begun inv.awake (fun _ _ sleeps => inv.sleeps_updated here time sleeps)
    inv.sleepKeys

theorem Inv.unwatch (inv : Inv s) (fd : Int) :
    Inv { s with interest := Function.update s.interest fd none } where
  toHoused := inv.toHoused.moved (.refl _) (fun _ => Iff.rfl) rfl rfl
  idle := inv.idle
  begun := inv.begun
  keys := inv.keys
  polls := inv.polls
  watched key watched := by
    change Function.update s.interest fd none key ≠ none at watched
    apply inv.watched
    intro none_
    by_cases same : key = fd
    · exact watched (same ▸ Function.update_self ..)
    · exact watched ((Function.update_of_ne same ..).trans none_)
  awake := inv.awake
  sleeps := inv.sleeps
  sleepKeys := inv.sleepKeys
  batch := inv.batch

/-- The running coroutine goes to the end of the queue. -/
theorem Inv.enqueue (inv : Inv s) (runs : s.curr = some id) (here : s.heap id = some c)
    (calm : d.Idle) (time : d.sleepUsecs = c.sleepUsecs)
    (awake : id ∉ s.sleeping.map Prod.snd) :
    Inv { s with
      curr := none
      ready := s.ready ++ [id]
      heap := Function.update s.heap id (some d) } where
  toHoused := by
    refine inv.toHoused.moved ?_ (updated_ne_none (by rw [here]; exact Option.some_ne_none c))
      rfl rfl
    rw [Sched.homes, Sched.homes, runs]
    exact (List.perm_append_singleton id s.ready).append_right _
  idle other found home at_ := by
    obtain ⟨rfl, rfl⟩ | ⟨apart, at_⟩ := updated_cases at_
    · exact calm
    · refine inv.idle other found ?_ at_
      have home : other ∈ s.ready ++ [id] := home
      obtain queued | last := List.mem_append.mp home
      · exact List.mem_append_right _ queued
      · exact absurd (List.mem_singleton.mp last) apart
  begun other found home := by cases home
  keys := inv.keys
  polls key other found waits at_ := by
    obtain ⟨rfl, rfl⟩ | ⟨-, at_⟩ := updated_cases at_
    · exact absurd (List.mem_map_of_mem waits) (inv.toHoused.curr_apart runs).2
    · exact inv.polls key other found waits at_
  watched := inv.watched
  awake other queued := by
    obtain queued | last := List.mem_append.mp queued
    · exact inv.awake other queued
    · exact List.mem_singleton.mp last ▸ awake
  sleeps _ _ sleeps := inv.sleeps_updated here time sleeps
  sleepKeys := inv.sleepKeys
  batch := inv.batch

/-- The running coroutine waits for a descriptor that nobody waits for, and the
poller may watch it from here on. -/
theorem Inv.park (inv : Inv s) (runs : s.curr = some id) (here : s.heap id = some c)
    (polls : d.Polls fd) (time : d.sleepUsecs = c.sleepUsecs)
    (free : fd ∉ s.waiting.map Prod.fst) {interest : Int → Option PollEvents}
    (adds : ∀ key, key ≠ fd → interest key = s.interest key) :
    Inv { s with
      curr := none
      waiting := (fd, id) :: s.waiting
      interest := interest
      heap := Function.update s.heap id (some d) } where
  toHoused := by
    refine inv.toHoused.moved ?_ (updated_ne_none (by rw [here]; exact Option.some_ne_none c))
      rfl rfl
    rw [Sched.homes, Sched.homes, runs]
    exact List.perm_middle
  idle other found home at_ := by
    obtain ⟨rfl, rfl⟩ | ⟨-, at_⟩ := updated_cases at_
    · exact absurd home (inv.toHoused.curr_apart runs).1
    · exact inv.idle other found (List.mem_append_right _ home) at_
  begun other found home := by cases home
  keys := List.nodup_cons.mpr ⟨free, inv.keys⟩
  polls key other found waits at_ := by
    obtain ⟨rfl, rfl⟩ | ⟨apart, at_⟩ := updated_cases at_
    · obtain same | before := List.mem_cons.mp waits
      · cases same
        exact polls
      · exact absurd (List.mem_map_of_mem before) (inv.toHoused.curr_apart runs).2
    · obtain same | before := List.mem_cons.mp waits
      · exact absurd (congrArg Prod.snd same) apart
      · exact inv.polls key other found before at_
  watched key watched := by
    by_cases same : key = fd
    · exact same ▸ List.mem_cons_self
    · exact List.mem_cons_of_mem _ (inv.watched key (adds key same ▸ watched))
  awake := inv.awake
  sleeps _ _ sleeps := inv.sleeps_updated here time sleeps
  sleepKeys := inv.sleepKeys
  batch left at_ := by
    obtain ⟨nodup, all⟩ := inv.batch left at_
    exact ⟨nodup, fun r member => List.mem_cons_of_mem _ (all r member)⟩

/-- The running coroutine is freed. -/
theorem Inv.leave (inv : Inv s) (runs : s.curr = some id) (awake : id ∉ s.sleeping.map Prod.snd) :
    Inv { s with
      curr := none
      spawned := s.spawned - 1
      heap := Function.update s.heap id none } where
  nodup := by
    have nodup := inv.nodup
    rw [Sched.homes, runs] at nodup
    exact (List.nodup_cons.mp nodup).2
  live other := by
    have live := inv.live other
    have apart := inv.toHoused.curr_apart runs
    rw [Sched.homes, runs] at live
    by_cases same : other = id
    · subst same
      simp [Sched.homes, apart.1, apart.2]
    · have kept : Function.update s.heap id none other = s.heap other :=
        Function.update_of_ne same ..
      refine Iff.trans ?_ (live.trans (kept ▸ Iff.rfl))
      exact ⟨List.mem_cons_of_mem _, fun home => (List.mem_cons.mp home).resolve_left same⟩
  counted := by
    have counted := inv.counted
    rw [Sched.homes, runs] at counted
    simp only [Sched.homes, Option.toList, List.nil_append, List.length_append,
      List.length_cons, List.length_nil] at counted ⊢
    omega
  fresh other late := by
    by_cases same : other = id
    · exact same ▸ Function.update_self ..
    · exact (Function.update_of_ne same ..).trans (inv.fresh other late)
  idle other found home at_ := by
    exact inv.idle other found (List.mem_append_right _ home) (removed_apart at_).2
  begun other found home := by cases home
  keys := inv.keys
  polls key other found waits at_ := by
    exact inv.polls key other found waits (removed_apart at_).2
  watched := inv.watched
  awake := inv.awake
  sleeps key other sleeps := by
    have apart : other ≠ id := by
      rintro rfl
      exact awake (List.mem_map_of_mem sleeps)
    obtain ⟨found, at_, until_⟩ := inv.sleeps key other sleeps
    exact ⟨found, (Function.update_of_ne apart ..).trans at_, until_⟩
  sleepKeys := inv.sleepKeys
  batch := inv.batch

theorem createCo_homes (s : Sched) : (createCo s).homes.Perm (s.created :: s.homes) := by
  rw [Sched.homes, Sched.homes, List.append_assoc, List.append_assoc]
  refine .trans ?_ List.perm_middle
  refine .append_left _ ?_
  exact (List.perm_append_singleton s.created s.ready).append_right _

/-- A coroutine more, at the end of the queue. -/
theorem Inv.createCo (inv : Inv s) : Inv (createCo s) := by
  have free := inv.fresh s.created (Nat.le_refl _)
  have new : s.created ∉ s.homes := fun home => (inv.live s.created).mp home free
  have perm := createCo_homes s
  have other_heap : ∀ other, other ∈ s.homes → (Ntyco.createCo s).heap other = s.heap other := by
    intro other home
    have apart : other ≠ s.created := by
      rintro rfl
      exact new home
    exact Function.update_of_ne apart ..
  have unslept : s.created ∉ s.sleeping.map Prod.snd := by
    intro sleeps
    obtain ⟨⟨key, _⟩, sleeps, rfl⟩ := List.mem_map.mp sleeps
    obtain ⟨found, at_, -⟩ := inv.sleeps key _ sleeps
    cases free.symm.trans at_
  refine { nodup := ?_, live := ?_, counted := ?_, fresh := ?_, idle := ?_, begun := ?_
           keys := inv.keys, polls := ?_, watched := inv.watched, awake := ?_, sleeps := ?_
           sleepKeys := inv.sleepKeys, batch := inv.batch }
  · exact perm.nodup_iff.mpr (List.nodup_cons.mpr ⟨new, inv.nodup⟩)
  · intro other
    rw [perm.mem_iff, List.mem_cons]
    by_cases same : other = s.created
    · subst same
      simp [Ntyco.createCo]
    · have kept : (Ntyco.createCo s).heap other = s.heap other := Function.update_of_ne same ..
      rw [or_iff_right same, inv.live, kept]
  · have counted := inv.counted
    rw [perm.length_eq, List.length_cons]
    change s.spawned + 1 = _
    omega
  · intro other late
    have late : s.created + 1 ≤ other := late
    exact (Function.update_of_ne (by omega) ..).trans (inv.fresh other (by omega))
  · intro other found home at_
    obtain ⟨rfl, rfl⟩ | ⟨apart, at_⟩ := updated_cases at_
    · exact ⟨⟨rfl, rfl, rfl, rfl⟩, by simp⟩
    · refine inv.idle other found ?_ at_
      have home : other ∈ s.curr.toList ++ (s.ready ++ [s.created]) := home
      simpa [apart] using home
  · intro other found home at_
    have home : s.curr = some other := home
    have lives : other ∈ s.homes := by
      rw [Sched.homes, home]
      exact List.mem_cons_self
    exact inv.begun other found home ((other_heap other lives).symm.trans at_)
  · intro key other found waits at_
    have home : other ∈ s.homes := List.mem_append_right _ (List.mem_map_of_mem waits)
    exact inv.polls key other found waits ((other_heap other home).symm.trans at_)
  · intro other queued
    obtain queued | last := List.mem_append.mp queued
    · exact inv.awake other queued
    · exact List.mem_singleton.mp last ▸ unslept
  · intro key other sleeps
    obtain ⟨found, at_, until_⟩ := inv.sleeps key other sleeps
    have home : other ∈ s.homes := (inv.live other).mpr (by rw [at_]; exact Option.some_ne_none _)
    exact ⟨found, (other_heap other home).trans at_, until_⟩

end Running

end LinuxCpp.Ntyco
