import Mathlib.Data.List.Perm.Subperm
import LinuxCpp.Dns.Async
import LinuxCpp.Linked.Segment

set_option autoImplicit false

/- Runs of the threads of dns_async.c. A task is in the list, in the hands of `main`, or
reported and freed; the last line of a worker can come too late, and one worker can get hold of
what `strtok` remembers for another. -/
namespace LinuxCpp.Dns

open C Linked Trace

/-- The worker has set the status. -/
def WorkerPc.settled : WorkerPc → Bool
  | .printing | .ended => true
  | _ => false

/-- The task that `main` has taken out of the list or not yet put there. -/
def MainPc.hand : MainPc → List Nat
  | .inserting task _ => [task]
  | .reporting task _ _ => [task]
  | .freeing task _ _ => [task]
  | _ => []

/-- The domains that `main` has not come to. -/
def MainPc.rest : MainPc → List CStr
  | .adding domains | .inserting _ domains => domains
  | _ => []

/-- The two counters of `main`. -/
def MainPc.counts : MainPc → Nat × Nat
  | .findCompleted _ _ success fail | .reporting _ success fail | .freeing _ success fail
  | .ended success fail => (success, fail)
  | _ => (0, 0)

/-- The response begins with what was received. -/
structure Got (data : List UInt8) (value : DnsTask) : Prop where
  some_ : 0 < data.length
  stored : loadAt value.response 0 data.length = .ok data

/-- What stands in a task while its worker is at this place. -/
def Standing (answer : Option (List UInt8)) (value : DnsTask) : WorkerPc → Prop
  | .received n => value.status = 0 ∧ ∃ data, answer = some data ∧ Got data value ∧ n = data.length
  | .measured => value.status = 0 ∧
      ∃ data, answer = some data ∧ Got data value ∧ value.responseLen = data.length
  | .printing | .ended => value.status = -1 ∧ answer = none ∨ value.status = 1 ∧
      ∃ data, answer = some data ∧ Got data value ∧ value.responseLen = data.length
  | _ => value.status = 0 ∧ answer = none

namespace Async

def links (s : Async) (task : Nat) : Option (Option Nat) := (s.heap task).map DnsTask.next

/-- The worker of this task has set the status. -/
def Settled (s : Async) (task : Nat) : Prop := ∃ pc, s.worker task = some pc ∧ pc.settled = true

/-- A task of the list or in the hands of `main`. -/
structure Kept (s : Async) (task : Nat) (value : DnsTask) (pc : WorkerPc) : Prop where
  live : s.heap task = some value
  at_ : s.worker task = some pc
  width : value.response.length = 2048
  standing : Standing (s.answers task) value pc
  asked : ∃ domain, (task, domain) ∈ s.started ∧ value.domain = CStr.cut domain

/-- How far `main` has come in the list. -/
def Placed (s : Async) (nodes : List Nat) : Prop :=
  match s.main with
  | .adding _ | .inserting _ _ => s.completed = none
  | .printTasks _ curr => s.completed = none ∧
      ∃ before after, nodes = before ++ after ∧ curr = after.head?
  | .waitAll _ curr => s.completed = none ∧
      ∃ before after, nodes = before ++ after ∧ curr = after.head? ∧ ∀ task ∈ before, s.Settled task
  | .findCompleted prev curr _ _ => ∃ before after, nodes = before ++ after ∧
      prev = before.getLast? ∧ curr = after.head? ∧ (s.completed = some true → before = [])
  | .reporting task _ _ | .freeing task _ _ => s.Settled task
  | .ended _ _ => s.completed = some true → nodes = []

/-- What is printed about a task. -/
def lineOf (s : Async) (entry : Nat × CStr) : Line :=
  ⟨CStr.cut entry.2, (s.answers entry.1).map fun data => (data.length, data.take 16)⟩

/-- The tasks that have been reported. -/
def reported (s : Async) : List Nat :=
  match s.main with
  | .freeing task _ _ => s.taken ++ [task]
  | _ => s.taken

/-- Each line is about a task of its own. -/
structure Told (s : Async) (entries : List (Nat × CStr)) : Prop where
  tasks : entries.map Prod.fst = s.reported
  started : entries ⊆ s.started
  lines : s.lines = entries.map s.lineOf
  counts : s.main.counts = (s.lines.countP fun line => line.response.isSome,
    s.lines.countP fun line => line.response.isNone)

structure Inv (domains : List CStr) (s : Async) (nodes : List Nat) : Prop where
  chain : Chain s.links s.taskList nodes
  owned : (nodes ++ s.main.hand ++ s.taken).Perm (s.started.map Prod.fst)
  once : (s.started.map Prod.fst).Nodup
  numbered : ∀ task, s.calls < task → s.worker task = none ∧ s.answers task = none
  working : ∀ task, task ∈ s.started.map Prod.fst ↔ s.worker task ≠ none
  kept : ∀ task ∈ nodes ++ s.main.hand, ∃ value pc, s.Kept task value pc
  gone : ∀ task ∈ s.taken, s.heap task = none ∧ s.Settled task
  placed : s.Placed nodes
  settled : s.completed = some true → ∀ task ∈ nodes, s.Settled task
  told : ∃ entries, s.Told entries
  asked : (s.started.map Prod.snd ++ s.main.rest).Sublist domains

section Workers

variable {domains : List CStr} {s : Async} {nodes : List Nat} {task : Nat} {value value' : DnsTask}
  {pc pc' : WorkerPc} {answer : Option (List UInt8)} {owner : Option Nat}

theorem deref_ok (live : s.heap task = some value) : s.deref task = .ok value := by
  unfold deref
  rw [live]

/-- The state after a worker's access to its task. -/
def worked (s : Async) (task : Nat) (value : DnsTask) (pc : WorkerPc)
    (answer : Option (List UInt8)) (owner : Option Nat) : Async :=
  { s with
    heap := Function.update s.heap task (some value)
    worker := Function.update s.worker task (some pc)
    strtok := owner
    answers := Function.update s.answers task answer }

theorem goWorker_worked (live : s.heap task = some value) (pc : WorkerPc) :
    s.goWorker task pc = s.worked task value pc (s.answers task) s.strtok := by
  unfold goWorker worked
  rw [← live, Function.update_eq_self, Function.update_eq_self]

theorem setTask_worked (value : DnsTask) (pc : WorkerPc) :
    (s.setTask task value).goWorker task pc = s.worked task value pc (s.answers task) s.strtok := by
  unfold goWorker setTask worked
  dsimp only
  rw [Function.update_eq_self]

theorem links_worked (live : s.heap task = some value) (same : value'.next = value.next) :
    (s.worked task value' pc' answer owner).links = s.links := by
  funext other
  by_cases is : other = task
  · subst is
    simp [links, worked, live, same]
  · simp [links, worked, Function.update_of_ne is]

theorem settled_worked (at_ : s.worker task = some pc)
    (later : pc.settled = true → pc'.settled = true) {other : Nat} (settled : s.Settled other) :
    (s.worked task value' pc' answer owner).Settled other := by
  obtain ⟨pc₀, isAt, is⟩ := settled
  by_cases same : other = task
  · subst same
    cases at_.symm.trans isAt
    exact ⟨pc', Function.update_self .., later is⟩
  · exact ⟨pc₀, (Function.update_of_ne same ..).trans isAt, is⟩

theorem Placed.mono {s' : Async} (placed : s.Placed nodes) (main : s'.main = s.main)
    (completed : s'.completed = s.completed) (later : ∀ task, s.Settled task → s'.Settled task) :
    s'.Placed nodes := by
  unfold Placed at placed ⊢
  rw [main, completed]
  cases at_ : s.main with
  | waitAll elapsed curr =>
      rw [at_] at placed
      obtain ⟨early, before, after, split, is, passed⟩ := placed
      exact ⟨early, before, after, split, is, fun task member => later task (passed task member)⟩
  | reporting task success fail =>
      rw [at_] at placed
      exact later task placed
  | freeing task success fail =>
      rw [at_] at placed
      exact later task placed
  | _ =>
      rw [at_] at placed
      exact placed

/-- What is reported does not change any more. -/
theorem Inv.reported_settled (inv : Inv domains s nodes) (member : task ∈ s.reported) :
    s.Settled task := by
  unfold reported at member
  have placed := inv.placed
  unfold Placed at placed
  split at member
  · rename_i last success fail at_
    rw [at_] at placed
    rcases List.mem_append.mp member with before | now
    · exact (inv.gone task before).2
    · obtain rfl := List.mem_singleton.mp now
      exact placed
  · exact (inv.gone task member).2

/-- A worker's access keeps the invariant. -/
theorem Inv.works (inv : Inv domains s nodes) (kept : s.Kept task value pc)
    (next : value'.next = value.next) (domain : value'.domain = value.domain)
    (width : value'.response.length = 2048) (standing : Standing answer value' pc')
    (later : pc.settled = true → pc'.settled = true)
    (fixed : pc.settled = true → answer = s.answers task) :
    Inv domains (s.worked task value' pc' answer owner) nodes := by
  have settles {other : Nat} (settled : s.Settled other) :
      (s.worked task value' pc' answer owner).Settled other := settled_worked kept.at_ later settled
  refine ⟨?_, inv.owned, inv.once, fun other beyond => ?_, fun other => ?_, fun other member => ?_,
    fun other member => ?_, inv.placed.mono rfl rfl fun _ => settles,
    fun done other member => settles (inv.settled done other member), ?_, inv.asked⟩
  · rw [links_worked kept.live next]
    exact inv.chain
  · have differs : other ≠ task := by
      rintro rfl
      cases kept.at_.symm.trans (inv.numbered other beyond).1
    exact ⟨(Function.update_of_ne differs ..).trans (inv.numbered other beyond).1,
      (Function.update_of_ne differs ..).trans (inv.numbered other beyond).2⟩
  · rw [show (s.worked task value' pc' answer owner).started = s.started from rfl, inv.working]
    by_cases same : other = task
    · subst same
      simp [worked, kept.at_]
    · simp [worked, Function.update_of_ne same]
  · by_cases same : other = task
    · subst same
      obtain ⟨asked, member, isDomain⟩ := kept.asked
      refine ⟨value', pc', Function.update_self .., Function.update_self .., width, ?_,
        asked, member, domain.trans isDomain⟩
      rw [show (s.worked other value' pc' answer owner).answers other = answer from
        Function.update_self ..]
      exact standing
    · obtain ⟨v, p, live, at_, width, standing, asked⟩ := inv.kept other member
      refine ⟨v, p, (Function.update_of_ne same ..).trans live,
        (Function.update_of_ne same ..).trans at_, width, ?_, asked⟩
      rw [show (s.worked task value' pc' answer owner).answers other = s.answers other from
        Function.update_of_ne same ..]
      exact standing
  · have differs : other ≠ task := by
      rintro rfl
      have dead := (inv.gone other member).1
      rw [kept.live] at dead
      cases dead
    exact ⟨(Function.update_of_ne differs ..).trans (inv.gone other member).1,
      settles (inv.gone other member).2⟩
  · obtain ⟨entries, tasks, started, lines, counts⟩ := inv.told
    refine ⟨entries, tasks, started, ?_, counts⟩
    rw [show (s.worked task value' pc' answer owner).lines = s.lines from rfl, lines]
    refine List.map_congr_left fun entry member => ?_
    have reported : entry.1 ∈ s.reported := tasks ▸ List.mem_map_of_mem member
    obtain ⟨pc₀, at_, settled⟩ := inv.reported_settled reported
    have same : (s.worked task value' pc' answer owner).answers entry.1 = s.answers entry.1 := by
      by_cases is : entry.1 = task
      · rw [is] at at_ ⊢
        cases kept.at_.symm.trans at_
        exact (Function.update_self ..).trans (fixed settled)
      · exact Function.update_of_ne is ..
    rw [lineOf, lineOf, same]

/-- A task with a worker is in the list, in hand or freed. -/
theorem Inv.where_ (inv : Inv domains s nodes) (at_ : s.worker task = some pc) :
    (∃ value, s.Kept task value pc) ∨ task ∈ s.taken := by
  have isIn : task ∈ s.started.map Prod.fst := (inv.working task).mpr (by simp [at_])
  rcases List.mem_append.mp (inv.owned.mem_iff.mpr isIn) with member | freed
  · obtain ⟨value, pc', kept⟩ := inv.kept task member
    cases at_.symm.trans kept.at_
    exact .inl ⟨value, kept⟩
  · exact .inr freed

/-- `recvfrom` fills the response of its task. -/
theorem Inv.recvfrom (inv : Inv domains s nodes) (kept : s.Kept task value .receive)
    (datagram : Option (List UInt8)) :
    ∃ s', s.recvfrom task datagram = .ok s' ∧ Inv domains s' nodes := by
  obtain ⟨isZero, unanswered⟩ := kept.standing
  have none_ : WorkerPc.settled .receive = true → s.answers task = s.answers task := fun _ => rfl
  unfold Async.recvfrom
  cases datagram with
  | none =>
      refine ⟨_, rfl, ?_⟩
      rw [goWorker_worked kept.live]
      exact inv.works kept rfl rfl kept.width ⟨isZero, unanswered⟩
        (by simp [WorkerPc.settled]) none_
  | some datagram =>
      have short : (datagram.take 2048).length ≤ 2048 := List.length_take_le ..
      dsimp only
      generalize datagram.take 2048 = data at short ⊢
      obtain ⟨response, stored⟩ : ∃ response, storeAt value.response 0 data = .ok response :=
        ⟨_, storeAt_eq (by rw [kept.width]; omega)⟩
      have width := (storeAt_length stored).trans kept.width
      rw [deref_ok kept.live, ok_bind, stored, ok_bind]
      by_cases some_ : 0 < data.length
      · rw [if_pos some_]
        have got : Got data { value with response := response } := ⟨some_, loadAt_storeAt stored⟩
        exact ⟨_, rfl, inv.works kept rfl rfl width ⟨isZero, data, rfl, got, rfl⟩
          (by simp [WorkerPc.settled]) (by simp [WorkerPc.settled])⟩
      · rw [if_neg some_]
        refine ⟨_, rfl, ?_⟩
        rw [setTask_worked]
        exact inv.works kept rfl rfl width ⟨isZero, unanswered⟩ (by simp [WorkerPc.settled]) none_

/-- A worker that is not disturbed goes on. -/
theorem Inv.worker (inv : Inv domains s nodes) {opened : Bool} {datagram : Option (List UInt8)}
    (undisturbed : s.Undisturbed (.worker task opened datagram)) :
    ∃ s', s.dnsThreadWork task opened datagram = .ok s' ∧ Inv domains s' nodes := by
  unfold dnsThreadWork
  cases at_ : s.worker task with
  | none => exact ⟨s, rfl, inv⟩
  | some pc =>
      rcases inv.where_ at_ with ⟨value, kept⟩ | freed
      · have same : pc.settled = true → s.answers task = s.answers task := fun _ => rfl
        have found := deref_ok kept.live
        have standing := kept.standing
        cases pc with
        | started =>
            refine ⟨s.goWorker task .socket, by simp only [found, ok_bind]; rfl, ?_⟩
            rw [goWorker_worked kept.live]
            exact inv.works kept rfl rfl kept.width standing (by simp [WorkerPc.settled]) same
        | socket =>
            cases opened with
            | true =>
                refine ⟨s.goWorker task .request, rfl, ?_⟩
                rw [goWorker_worked kept.live]
                exact inv.works kept rfl rfl kept.width standing (by simp [WorkerPc.settled]) same
            | false =>
                refine ⟨(s.setTask task { value with status := -1 }).goWorker task .ended,
                  by simp only [found, ok_bind]; rfl, ?_⟩
                rw [setTask_worked]
                exact inv.works kept rfl rfl kept.width (.inl ⟨rfl, standing.2⟩)
                  (by simp [WorkerPc.settled]) same
        | request =>
            let labels := (words 46 value.domain.bytes).length
            have begun : { s.goWorker task (.splitting labels) with strtok := some task } =
                s.worked task value (.splitting labels) (s.answers task) (some task) := by
              rw [goWorker_worked kept.live]
              rfl
            refine ⟨{ s.goWorker task (.splitting labels) with strtok := some task },
              by simp only [found, ok_bind]; rfl, ?_⟩
            rw [begun]
            exact inv.works kept rfl rfl kept.width standing (by simp [WorkerPc.settled]) same
        | splitting labels =>
            have goes (pc : WorkerPc) (waits : Standing (s.answers task) value pc) :
                Inv domains (s.goWorker task pc) nodes := by
              rw [goWorker_worked kept.live]
              exact inv.works kept rfl rfl kept.width waits (by simp [WorkerPc.settled]) same
            cases labels with
            | zero => exact ⟨_, rfl, goes .receive standing⟩
            | succ labels =>
                simp only [Undisturbed, at_] at undisturbed
                exact ⟨_, if_pos undisturbed, goes (.splitting labels) standing⟩
        | receive => exact inv.recvfrom kept datagram
        | received n =>
            obtain ⟨isZero, data, answered, got, rfl⟩ := standing
            refine ⟨(s.setTask task { value with responseLen := data.length }).goWorker task
              .measured, by simp only [found, ok_bind]; rfl, ?_⟩
            rw [setTask_worked]
            exact inv.works kept rfl rfl kept.width
              ⟨isZero, data, answered, ⟨got.some_, got.stored⟩, rfl⟩
              (by simp [WorkerPc.settled]) same
        | measured =>
            obtain ⟨-, data, answered, got, long⟩ := standing
            refine ⟨(s.setTask task { value with status := 1 }).goWorker task .printing,
              by simp only [found, ok_bind]; rfl, ?_⟩
            rw [setTask_worked]
            exact inv.works kept rfl rfl kept.width
              (.inr ⟨rfl, data, answered, ⟨got.some_, got.stored⟩, long⟩)
              (by simp [WorkerPc.settled]) same
        | failed =>
            refine ⟨(s.setTask task { value with status := -1 }).goWorker task .printing,
              by simp only [found, ok_bind]; rfl, ?_⟩
            rw [setTask_worked]
            exact inv.works kept rfl rfl kept.width (.inl ⟨rfl, standing.2⟩)
              (by simp [WorkerPc.settled]) same
        | printing =>
            refine ⟨s.goWorker task .ended, by simp only [found, ok_bind]; rfl, ?_⟩
            rw [goWorker_worked kept.live]
            exact inv.works kept rfl rfl kept.width standing (by simp [WorkerPc.settled]) same
        | ended => exact ⟨s, rfl, inv⟩
      · obtain ⟨pc', isAt, settled⟩ := (inv.gone task freed).2
        cases at_.symm.trans isAt
        cases pc with
        | printing =>
            simp only [Undisturbed, at_] at undisturbed
            exact absurd freed undisturbed
        | ended => exact ⟨s, rfl, inv⟩
        | _ => exact absurd settled (by simp [WorkerPc.settled])

end Workers

/-- How many tasks of the list `main` has still to look at. -/
def remaining (nodes : List Nat) (curr : Option Nat) : Nat :=
  match curr with
  | none => 0
  | some task => (nodes.dropWhile fun other => other ≠ task).length

/-- Turns to find and free as many tasks of the list as have a status. -/
def freeTurns : Nat → Nat
  | 0 => 0
  | k + 1 => k + 3 + freeTurns k

def findTurns (r k : Nat) : Nat := r + 1 + freeTurns k

def waitTurns (elapsed r k : Nat) : Nat := r + (9 - elapsed) * (k + 1) + 1 + findTurns k k

def printTurns (i r k : Nat) : Nat := r + (2 - i) * (k + 1) + 1 + waitTurns 0 k k

/-- A bound on the turns that `main` still takes. -/
def turnsLeft (s : Async) (nodes : List Nat) : Nat :=
  match s.main with
  | .adding domains => 2 * domains.length + 1 +
      printTurns 0 (nodes.length + domains.length) (nodes.length + domains.length)
  | .inserting _ domains => 2 * domains.length + 2 +
      printTurns 0 (nodes.length + 1 + domains.length) (nodes.length + 1 + domains.length)
  | .printTasks i curr => printTurns i (remaining nodes curr) nodes.length
  | .waitAll elapsed curr => waitTurns elapsed (remaining nodes curr) nodes.length
  | .findCompleted _ curr _ _ => findTurns (remaining nodes curr) nodes.length
  | .reporting _ _ _ => 2 + findTurns nodes.length nodes.length
  | .freeing _ _ _ => 1 + findTurns nodes.length nodes.length
  | .ended _ _ => 0

theorem remaining_eq {before after : List Nat} (once : (before ++ after).Nodup) :
    remaining (before ++ after) after.head? = after.length := by
  cases after with
  | nil => rfl
  | cons task after =>
      have apart : ∀ other ∈ before, decide (other ≠ task) = true := by
        intro other member
        have differs := (List.nodup_append.mp once).2.2 other member task List.mem_cons_self
        simp [differs]
      show ((before ++ task :: after).dropWhile _).length = _
      rw [List.dropWhile_append_of_pos apart, List.dropWhile_cons_of_neg (by simp)]

theorem freeTurns_mono (k : Nat) : freeTurns k ≤ freeTurns (k + 1) := by
  rw [freeTurns]
  omega

theorem printTurns_mono (k : Nat) : printTurns 0 k k ≤ printTurns 0 (k + 1) (k + 1) := by
  have free := freeTurns_mono k
  unfold printTurns waitTurns findTurns
  omega

section Main

variable {domains : List CStr} {s : Async} {nodes : List Nat} {task : Nat} {value : DnsTask}
  {pc : WorkerPc}

theorem Inv.nodup (inv : Inv domains s nodes) : (nodes ++ s.main.hand ++ s.taken).Nodup :=
  inv.owned.nodup_iff.mpr inv.once

theorem Inv.first (inv : Inv domains s nodes) : remaining nodes s.taskList = nodes.length := by
  have once := (List.nodup_append.mp (List.nodup_append.mp inv.nodup).1).1
  rw [Chain.head inv.chain]
  exact @remaining_eq [] nodes once

theorem Kept.of_same {s' : Async} (kept : s.Kept task value pc)
    (heap : s'.heap task = s.heap task) (worker : s'.worker task = s.worker task)
    (answers : s'.answers task = s.answers task) (started : s.started ⊆ s'.started) :
    s'.Kept task value pc := by
  obtain ⟨live, at_, width, standing, domain, asked, isDomain⟩ := kept
  exact ⟨heap.trans live, worker.trans at_, width, answers ▸ standing, domain, started asked,
    isDomain⟩

/-- The state after a turn in which `main` only goes on. -/
def moved (s : Async) (main : MainPc) (completed : Option Bool) (calls : Nat) : Async :=
  { s with main := main, completed := completed, calls := calls }

theorem Inv.moves (inv : Inv domains s nodes) {main : MainPc} {completed : Option Bool}
    {calls : Nat} (hand : main.hand = s.main.hand)
    (reported : (s.moved main completed calls).reported = s.reported)
    (counts : main.counts = s.main.counts) (rest : main.rest.Sublist s.main.rest)
    (placed : (s.moved main completed calls).Placed nodes)
    (settled : completed = some true → ∀ task ∈ nodes, s.Settled task) (more : s.calls ≤ calls) :
    Inv domains (s.moved main completed calls) nodes := by
  obtain ⟨entries, tasks, started, lines, count⟩ := inv.told
  refine ⟨inv.chain, ?_, inv.once, fun task beyond => inv.numbered task
      (Nat.lt_of_le_of_lt more beyond), inv.working, ?_, inv.gone, placed, settled,
    ⟨entries, tasks.trans reported.symm, started, lines, counts.trans count⟩,
    ((List.Sublist.refl _).append rest).trans inv.asked⟩
  · show (nodes ++ main.hand ++ s.taken).Perm _
    rw [hand]
    exact inv.owned
  · intro task member
    obtain ⟨value, pc, kept⟩ := inv.kept task (hand ▸ member)
    exact ⟨value, pc, kept.of_same rfl rfl rfl fun _ => id⟩

/-- The next turn of `main` succeeds, keeps the invariant, and brings it nearer to its end. -/
def Goes (domains : List CStr) (s : Async) (nodes : List Nat) (next : Except Fault Async) : Prop :=
  ∃ s' nodes', next = .ok s' ∧ Inv domains s' nodes' ∧ s'.turnsLeft nodes' < s.turnsLeft nodes

/-- Before the results are looked for nothing is known of all tasks. -/
theorem Inv.early (inv : Inv domains s nodes) {rest : List CStr} (at_ : s.main = .adding rest) :
    s.completed = none := by
  have placed := inv.placed
  unfold Placed at placed
  rwa [at_] at placed

/-- A domain for which no thread is created. -/
theorem Inv.skips (inv : Inv domains s nodes) {domain : CStr} {later : List CStr}
    (at_ : s.main = .adding (domain :: later)) {calls : Nat} (more : s.calls ≤ calls) :
    Goes domains s nodes (.ok (s.moved (.adding later) s.completed calls)) := by
  have early := inv.early at_
  refine ⟨_, nodes, rfl, inv.moves ?_ ?_ ?_ ?_ ?_ inv.settled more, ?_⟩
  · rw [at_]
    rfl
  · unfold reported
    rw [at_]
    rfl
  · rw [at_]
    rfl
  · rw [at_]
    exact List.sublist_cons_self domain later
  · exact early
  · have less := printTurns_mono (nodes.length + later.length)
    unfold turnsLeft
    rw [at_]
    dsimp only [moved]
    rw [List.length_cons, ← Nat.add_assoc]
    omega

/-- The state after a thread was created. -/
def withTask (s : Async) (domain : CStr) (later : List CStr) : Async :=
  { (({ s with calls := s.calls + 1 } : Async).setTask (s.calls + 1) (.fresh domain)).goWorker
      (s.calls + 1) .started with
    main := .inserting (s.calls + 1) later
    started := s.started ++ [(s.calls + 1, domain)] }

theorem Inv.creates (inv : Inv domains s nodes) {domain : CStr} {later : List CStr}
    (at_ : s.main = .adding (domain :: later)) :
    Goes domains s nodes (.ok (s.withTask domain later)) := by
  have early := inv.early at_
  have new := inv.numbered (s.calls + 1) (Nat.lt_succ_self _)
  have fresh : s.calls + 1 ∉ s.started.map Prod.fst := fun member =>
    (inv.working _).mp member new.1
  have old {task : Nat} (member : task ∈ nodes ++ s.main.hand ++ s.taken) :
      task ≠ s.calls + 1 := by
    rintro rfl
    exact fresh (inv.owned.mem_iff.mp member)
  have hand : s.main.hand = [] := by
    rw [at_]
    rfl
  have tasks : (s.withTask domain later).started.map Prod.fst =
      s.started.map Prod.fst ++ [s.calls + 1] := by
    rw [withTask, List.map_append]
    rfl
  have settles {task : Nat} (differs : task ≠ s.calls + 1) (settled : s.Settled task) :
      (s.withTask domain later).Settled task := by
    obtain ⟨pc, isAt, is⟩ := settled
    exact ⟨pc, (Function.update_of_ne differs ..).trans isAt, is⟩
  refine ⟨_, nodes, rfl, ⟨?_, ?_, ?_, ?_, ?_, ?_, ?_, early, ?_, ?_, ?_⟩, ?_⟩
  · refine Segment.congr inv.chain fun task member => ?_
    have differs := old (List.mem_append_left _ (List.mem_append_left _ member))
    show Option.map _ (Function.update s.heap _ _ task) = _
    rw [Function.update_of_ne differs]
    rfl
  · rw [tasks]
    have owned := inv.owned
    rw [hand, List.append_nil] at owned
    show (nodes ++ [s.calls + 1] ++ s.taken).Perm _
    rw [List.append_assoc]
    refine List.Perm.trans (List.perm_append_comm_assoc ..) ?_
    exact List.Perm.trans List.perm_append_comm (owned.append_right _)
  · rw [tasks]
    refine List.nodup_append.mpr ⟨inv.once, List.nodup_singleton _, ?_⟩
    intro task member other isNew same
    exact fresh (List.mem_singleton.mp isNew ▸ same ▸ member)
  · intro task beyond
    have differs : task ≠ s.calls + 1 := Nat.ne_of_gt beyond
    have before := inv.numbered task (Nat.lt_of_succ_lt beyond)
    exact ⟨(Function.update_of_ne differs ..).trans before.1, before.2⟩
  · intro task
    rw [tasks, List.mem_append, List.mem_singleton, inv.working]
    show _ ↔ Function.update s.worker _ _ task ≠ none
    by_cases same : task = s.calls + 1
    · simp [same]
    · simp [same]
  · intro task member
    rcases List.mem_append.mp member with inList | isNew
    · obtain ⟨value, pc, kept⟩ := inv.kept task (List.mem_append_left _ inList)
      have differs := old (List.mem_append_left _ (List.mem_append_left _ inList))
      exact ⟨value, pc, kept.of_same (Function.update_of_ne differs ..)
        (Function.update_of_ne differs ..) rfl (List.subset_append_left _ _)⟩
    · obtain rfl : task = s.calls + 1 := List.mem_singleton.mp isNew
      exact ⟨.fresh domain, .started, Function.update_self .., Function.update_self ..,
        List.length_replicate, ⟨rfl, new.2⟩, domain,
        List.mem_append_right _ List.mem_cons_self, rfl⟩
  · intro task member
    have differs := old (List.mem_append_right _ member)
    exact ⟨(Function.update_of_ne differs ..).trans (inv.gone task member).1,
      settles differs (inv.gone task member).2⟩
  · intro done task member
    exact settles (old (List.mem_append_left _ (List.mem_append_left _ member)))
      (inv.settled done task member)
  · obtain ⟨entries, tasks, started, lines, counts⟩ := inv.told
    rw [reported, at_] at tasks
    rw [at_] at counts
    exact ⟨entries, tasks, fun entry member => List.mem_append_left _ (started member), lines,
      counts⟩
  · have asked := inv.asked
    rw [at_] at asked
    show ((s.started ++ [(s.calls + 1, domain)]).map Prod.snd ++ later).Sublist domains
    rw [List.map_append, List.append_assoc]
    exact asked
  · unfold turnsLeft
    rw [at_]
    dsimp only [withTask, goWorker, setTask]
    rw [List.length_cons, Nat.add_right_comm nodes.length 1, Nat.add_assoc nodes.length]
    omega

theorem Inv.adds (inv : Inv domains s nodes) {rest : List CStr} (at_ : s.main = .adding rest)
    (granted created : Bool) : Goes domains s nodes (.ok (s.addTask rest granted created)) := by
  cases rest with
  | nil =>
      have early := inv.early at_
      refine ⟨s.moved (.printTasks 0 s.taskList) s.completed s.calls, nodes, rfl,
        inv.moves ?_ ?_ ?_ ?_ ?_ inv.settled (Nat.le_refl _), ?_⟩
      · rw [at_]
        rfl
      · unfold reported
        rw [at_]
        rfl
      · rw [at_]
        rfl
      · exact List.nil_sublist _
      · exact ⟨early, [], nodes, rfl, Chain.head inv.chain⟩
      · unfold turnsLeft
        rw [at_]
        dsimp only [moved]
        rw [inv.first]
        simp
  | cons domain later =>
      cases granted with
      | false => exact inv.skips at_ (Nat.le_refl _)
      | true =>
          cases created with
          | false => exact inv.skips at_ (Nat.le_succ _)
          | true => exact inv.creates at_

theorem Standing.linked {answer : Option (List UInt8)} (standing : Standing answer value pc)
    (next : Option Nat) : Standing answer { value with next := next } pc := by
  cases pc with
  | received n =>
      obtain ⟨isZero, data, answered, got, is⟩ := standing
      exact ⟨isZero, data, answered, ⟨got.some_, got.stored⟩, is⟩
  | measured =>
      obtain ⟨isZero, data, answered, got, is⟩ := standing
      exact ⟨isZero, data, answered, ⟨got.some_, got.stored⟩, is⟩
  | printing | ended =>
      rcases standing with bad | ⟨isOne, data, answered, got, is⟩
      · exact .inl bad
      · exact .inr ⟨isOne, data, answered, ⟨got.some_, got.stored⟩, is⟩
  | _ => exact standing

theorem links_setTask (s : Async) (task : Nat) (value : DnsTask) :
    (s.setTask task value).links = Function.update s.links task (some value.next) := by
  funext other
  by_cases same : other = task
  · subst same
    simp [links, setTask]
  · simp [links, setTask, Function.update_of_ne same]

/-- A write to the link of a task changes nothing else about the tasks. -/
theorem Kept.linked (kept : s.Kept task value pc) {target : Nat} {old : DnsTask}
    (isOld : s.heap target = some old) (next : Option Nat) :
    ∃ value', (s.setTask target { old with next := next }).Kept task value' pc := by
  obtain ⟨live, at_, width, standing, asked⟩ := kept
  by_cases same : task = target
  · subst same
    cases isOld.symm.trans live
    exact ⟨_, Function.update_self .., at_, width, Standing.linked standing next, asked⟩
  · exact ⟨value, (Function.update_of_ne same ..).trans live, at_, width, standing, asked⟩

theorem Inv.inserts (inv : Inv domains s nodes) {later : List CStr}
    (at_ : s.main = .inserting task later) : Goes domains s nodes (s.insert task later) := by
  have hand : s.main.hand = [task] := by
    rw [at_]
    rfl
  obtain ⟨value, pc, kept⟩ := inv.kept task (by rw [hand]; exact List.mem_append_right _ (.head _))
  have nodup := inv.nodup
  rw [hand] at nodup
  have outside : task ∉ nodes := by
    intro member
    exact (List.nodup_append.mp (List.nodup_append.mp nodup).1).2.2 task member task (.head _) rfl
  have early : s.completed = none := by
    have placed := inv.placed
    unfold Placed at placed
    rwa [at_] at placed
  let next : Async := { s.setTask task { value with next := s.taskList } with
    taskList := some task
    main := .adding later }
  have ran : s.insert task later = .ok next := by
    simp only [insert, deref_ok kept.live, ok_bind]
    rfl
  refine ⟨next, task :: nodes, ran,
    ⟨?_, ?_, inv.once, inv.numbered, inv.working, ?_, ?_, early, ?_, ?_, ?_⟩, ?_⟩
  · have pushed := Segment.push inv.chain outside
    rw [← links_setTask s task { value with next := s.taskList }] at pushed
    exact pushed
  · have owned := inv.owned
    rw [hand] at owned
    refine List.Perm.trans (List.Perm.append_right _ ?_) owned
    show (task :: nodes ++ []).Perm _
    rw [List.append_nil]
    exact (List.perm_append_singleton task nodes).symm
  · intro other member
    have isIn : other ∈ nodes ++ s.main.hand := by
      rw [hand, List.mem_append, List.mem_singleton]
      rcases List.mem_append.mp member with inList | none_
      · exact (List.mem_cons.mp inList).symm
      · cases none_
    obtain ⟨v, p, keptOther⟩ := inv.kept other isIn
    obtain ⟨v', kept'⟩ := keptOther.linked kept.live s.taskList
    exact ⟨v', p, kept'.of_same rfl rfl rfl fun _ => id⟩
  · intro other member
    have differs : other ≠ task := by
      rintro rfl
      cases kept.live.symm.trans (inv.gone other member).1
    exact ⟨(Function.update_of_ne differs ..).trans (inv.gone other member).1,
      (inv.gone other member).2⟩
  · intro done
    cases early.symm.trans done
  · obtain ⟨entries, tasks, started, lines, counts⟩ := inv.told
    rw [reported, at_] at tasks
    rw [at_] at counts
    exact ⟨entries, tasks, started, lines, counts⟩
  · have asked := inv.asked
    rw [at_] at asked
    exact asked
  · unfold turnsLeft
    rw [at_]
    dsimp only [next, setTask]
    rw [List.length_cons]
    omega

/-- A node of the list and what is behind it. -/
theorem Inv.node (inv : Inv domains s nodes) {before after : List Nat}
    (split : nodes = before ++ task :: after) :
    ∃ value pc, s.Kept task value pc ∧ value.next = after.head? ∧
      remaining nodes (some task) = after.length + 1 ∧
      remaining nodes after.head? = after.length := by
  subst split
  obtain ⟨value, pc, kept⟩ := inv.kept task (by simp)
  have once := (List.nodup_append.mp (List.nodup_append.mp inv.nodup).1).1
  have linked := Chain.link_next inv.chain
  rw [links, kept.live] at linked
  refine ⟨value, pc, kept, Option.some.inj linked, remaining_eq once, ?_⟩
  rw [← List.singleton_append, ← List.append_assoc] at once ⊢
  exact remaining_eq once

theorem head_cons {after : List Nat} (head : some task = after.head?) :
    ∃ rest, after = task :: rest := by
  cases after with
  | nil => cases head
  | cons first rest =>
      cases head
      exact ⟨rest, rfl⟩

/-- A turn of a walk through the list. -/
theorem Inv.walks (inv : Inv domains s nodes) {main : MainPc} {completed : Option Bool}
    (idle : s.main.hand = []) (quiet : s.reported = s.taken) (hand : main.hand = [])
    (rest : main.rest = []) (counts : main.counts = s.main.counts)
    (same : (s.moved main completed s.calls).reported = s.taken)
    (placed : (s.moved main completed s.calls).Placed nodes)
    (settled : completed = some true → ∀ task ∈ nodes, s.Settled task) :
    Inv domains (s.moved main completed s.calls) nodes := by
  refine inv.moves (hand.trans idle.symm) (same.trans quiet.symm) counts ?_ placed settled
    (Nat.le_refl _)
  rw [rest]
  exact List.nil_sublist _

theorem Inv.prints (inv : Inv domains s nodes) {i : Nat} {curr : Option Nat}
    (at_ : s.main = .printTasks i curr) : Goes domains s nodes (s.printTasks i curr) := by
  have placed := inv.placed
  unfold Placed at placed
  rw [at_] at placed
  obtain ⟨early, before, after, split, is⟩ := placed
  have idle : s.main.hand = [] := by
    rw [at_]
    rfl
  have quiet : s.reported = s.taken := by rw [reported, at_]
  have zero : (0, 0) = s.main.counts := by
    rw [at_]
    rfl
  cases curr with
  | some task =>
      obtain ⟨rest, rfl⟩ := head_cons is
      obtain ⟨value, pc, kept, next, here, behind⟩ := inv.node split
      refine ⟨s.moved (.printTasks i value.next) s.completed s.calls, nodes, ?_,
        inv.walks idle quiet rfl rfl zero
          rfl ⟨early, before ++ [task], rest, by simp [split], next⟩ inv.settled, ?_⟩
      · simp only [printTasks, deref_ok kept.live, ok_bind]
        rfl
      · unfold turnsLeft
        rw [at_]
        dsimp only [moved]
        rw [next, here, behind]
        unfold printTurns
        omega
  | none =>
      have first := inv.first
      have head := Chain.head inv.chain
      by_cases again : i + 1 < 3
      · refine ⟨s.moved (.printTasks (i + 1) s.taskList) s.completed s.calls, nodes, if_pos again,
          inv.walks idle quiet rfl rfl zero rfl ⟨early, [], nodes, rfl, head⟩ inv.settled, ?_⟩
        unfold turnsLeft
        rw [at_]
        dsimp only [moved]
        rw [first, remaining]
        unfold printTurns
        obtain rfl | rfl : i = 0 ∨ i = 1 := by omega
        · omega
        · omega
      · refine ⟨s.moved (.waitAll 0 s.taskList) s.completed s.calls, nodes, if_neg again,
          inv.walks idle quiet rfl rfl zero rfl
            ⟨early, [], nodes, rfl, head, fun _ member => (by cases member)⟩ inv.settled, ?_⟩
        unfold turnsLeft
        rw [at_]
        dsimp only [moved]
        rw [first, remaining]
        unfold printTurns
        omega

theorem Standing.settled_iff {answer : Option (List UInt8)} (standing : Standing answer value pc) :
    pc.settled = true ↔ value.status ≠ 0 := by
  cases pc with
  | printing | ended =>
      rcases standing with ⟨bad, -⟩ | ⟨good, -⟩
      · simp [WorkerPc.settled, bad]
      · simp [WorkerPc.settled, good]
  | _ => simp [WorkerPc.settled, standing.1]

/-- The status says whether the worker has set it. -/
theorem Kept.settled_iff (kept : s.Kept task value pc) : s.Settled task ↔ value.status ≠ 0 := by
  rw [← Standing.settled_iff kept.standing]
  constructor
  · rintro ⟨pc', at_, settled⟩
    cases kept.at_.symm.trans at_
    exact settled
  · intro settled
    exact ⟨pc, kept.at_, settled⟩

theorem Inv.waits (inv : Inv domains s nodes) {elapsed : Nat} {curr : Option Nat}
    (at_ : s.main = .waitAll elapsed curr) : Goes domains s nodes (s.waitAll elapsed curr) := by
  have placed := inv.placed
  unfold Placed at placed
  rw [at_] at placed
  obtain ⟨early, before, after, split, is, passed⟩ := placed
  have idle : s.main.hand = [] := by
    rw [at_]
    rfl
  have quiet : s.reported = s.taken := by rw [reported, at_]
  have zero : (0, 0) = s.main.counts := by
    rw [at_]
    rfl
  have first := inv.first
  have head := Chain.head inv.chain
  cases curr with
  | none =>
      have all : after = [] := by
        cases after with
        | nil => rfl
        | cons first rest => cases is
      have settled : ∀ task ∈ nodes, s.Settled task := by
        intro task member
        rw [split, all, List.append_nil] at member
        exact passed task member
      refine ⟨s.moved (.findCompleted none s.taskList 0 0) (some true) s.calls, nodes, rfl,
        inv.walks idle quiet rfl rfl zero rfl ⟨[], nodes, rfl, rfl, head, fun _ => rfl⟩
          fun _ => settled, ?_⟩
      unfold turnsLeft
      rw [at_]
      dsimp only [moved]
      rw [first, remaining]
      unfold waitTurns
      omega
  | some task =>
      obtain ⟨rest, rfl⟩ := head_cons is
      obtain ⟨value, pc, kept, next, here, behind⟩ := inv.node split
      by_cases active : value.status = 0
      · by_cases again : elapsed + 1 < 10
        · refine ⟨s.moved (.waitAll (elapsed + 1) s.taskList) s.completed s.calls, nodes, ?_,
            inv.walks idle quiet rfl rfl zero rfl
              ⟨early, [], nodes, rfl, head, fun _ member => (by cases member)⟩ inv.settled, ?_⟩
          · simp only [waitAll, deref_ok kept.live, ok_bind, if_pos active, if_pos again]
            rfl
          · unfold turnsLeft
            rw [at_]
            dsimp only [moved]
            rw [first, here]
            have fewer : 9 - elapsed = 9 - (elapsed + 1) + 1 := by omega
            unfold waitTurns
            rw [fewer, Nat.succ_mul]
            omega
        · refine ⟨s.moved (.findCompleted none s.taskList 0 0) (some false) s.calls, nodes, ?_,
            inv.walks idle quiet rfl rfl zero rfl
              ⟨[], nodes, rfl, rfl, head, fun done => (by cases done)⟩ fun done => (by cases done),
            ?_⟩
          · simp only [waitAll, deref_ok kept.live, ok_bind, if_pos active, if_neg again]
            rfl
          · unfold turnsLeft
            rw [at_]
            dsimp only [moved]
            rw [first, here]
            unfold waitTurns
            omega
      · refine ⟨s.moved (.waitAll elapsed value.next) s.completed s.calls, nodes, ?_,
          inv.walks idle quiet rfl rfl zero rfl
            ⟨early, before ++ [task], rest, by simp [split], next, ?_⟩ inv.settled, ?_⟩
        · simp only [waitAll, deref_ok kept.live, ok_bind, if_neg active]
          rfl
        · intro other member
          rcases List.mem_append.mp member with old | new
          · exact passed other old
          · obtain rfl := List.mem_singleton.mp new
            exact kept.settled_iff.mpr active
        · unfold turnsLeft
          rw [at_]
          dsimp only [moved]
          rw [next, here, behind]
          unfold waitTurns
          omega

/-- The assignment that takes a node out of the list. -/
theorem Inv.bypasses (inv : Inv domains s nodes) {before after : List Nat}
    (split : nodes = before ++ task :: after) (kept : s.Kept task value pc) :
    ∃ heap taskList, s.unlink before.getLast? value.next =
        .ok { s with heap := heap, taskList := taskList } ∧
      Chain (links { s with heap := heap, taskList := taskList }) taskList (before ++ after) ∧
      (∀ other v p, s.Kept other v p →
        ∃ v', Kept { s with heap := heap, taskList := taskList } other v' p) ∧
      ∀ other, s.heap other = none → heap other = none := by
  have chain := inv.chain
  have linked : s.links task = some value.next := by rw [links, kept.live]; rfl
  rcases List.eq_nil_or_concat before with rfl | ⟨front, node, rfl⟩
  · rw [split] at chain
    obtain ⟨-, next, isNext, rest⟩ := chain
    cases linked.symm.trans isNext
    exact ⟨s.heap, value.next, rfl, rest, fun _ v _ old => ⟨v, old.of_same rfl rfl rfl fun _ => id⟩,
      fun _ => id⟩
  · rw [List.concat_eq_append] at split ⊢
    rw [List.append_assoc, List.singleton_append] at split
    obtain ⟨w, p, keptNode, -⟩ := inv.node split
    have last : (front ++ [node]).getLast? = some node := by simp
    have once := (List.nodup_append.mp (List.nodup_append.mp inv.nodup).1).1
    rw [split] at chain once
    have bypassed := Segment.bypass chain once linked
    rw [← links_setTask s node { w with next := value.next }] at bypassed
    refine ⟨(s.setTask node { w with next := value.next }).heap, s.taskList, ?_, ?_, ?_, ?_⟩
    · rw [last, unlink]
      simp only [deref_ok keptNode.live, ok_bind]
      rfl
    · rw [List.append_assoc, List.singleton_append]
      exact bypassed
    · intro other v p' old
      obtain ⟨v', kept'⟩ := old.linked keptNode.live value.next
      exact ⟨v', kept'.of_same rfl rfl rfl fun _ => id⟩
    · intro other dead
      have differs : other ≠ node := by
        rintro rfl
        cases keptNode.live.symm.trans dead
      exact (Function.update_of_ne differs ..).trans dead

/-- A task with a status is taken out of the list. -/
theorem Inv.unlinks (inv : Inv domains s nodes) {prev : Option Nat} {success fail : Nat}
    (at_ : s.main = .findCompleted prev (some task) success fail) (settled : s.Settled task)
    {before after : List Nat} (split : nodes = before ++ task :: after)
    {heap : Nat → Option DnsTask} {taskList : Option Nat}
    (chain : Chain (links { s with heap := heap, taskList := taskList }) taskList (before ++ after))
    (relinked : ∀ other v p, s.Kept other v p →
      ∃ v', Kept { s with heap := heap, taskList := taskList } other v' p)
    (dead : ∀ other, s.heap other = none → heap other = none) :
    Inv domains { s with
      heap := heap
      taskList := taskList
      main := .reporting task success fail } (before ++ after) := by
  have idle : s.main.hand = [] := by
    rw [at_]
    rfl
  have rest : s.main.rest = [] := by
    rw [at_]
    rfl
  subst split
  have moved : (before ++ after ++ [task] ++ s.taken).Perm
      (before ++ task :: after ++ s.main.hand ++ s.taken) := by
    rw [idle, List.append_nil]
    refine List.Perm.append_right _ ?_
    exact (List.perm_append_singleton task _).trans List.perm_middle.symm
  refine ⟨chain, moved.trans inv.owned, inv.once, inv.numbered, inv.working, ?_, ?_, settled, ?_,
    ?_, ?_⟩
  · intro other member
    have isIn : other ∈ before ++ task :: after ++ s.main.hand := by
      rw [idle, List.append_nil]
      rw [List.append_assoc] at member
      rcases List.mem_append.mp member with front | back
      · exact List.mem_append_left _ front
      · refine List.mem_append_right _ ?_
        exact (List.perm_append_singleton task after).mem_iff.mp back
    obtain ⟨v, p, old⟩ := inv.kept other isIn
    obtain ⟨v', kept'⟩ := relinked other v p old
    exact ⟨v', p, kept'.of_same rfl rfl rfl fun _ => id⟩
  · exact fun other member => ⟨dead other (inv.gone other member).1, (inv.gone other member).2⟩
  · intro done other member
    apply inv.settled done
    rcases List.mem_append.mp member with front | back
    · exact List.mem_append_left _ front
    · exact List.mem_append_right _ (List.mem_cons_of_mem _ back)
  · obtain ⟨entries, tasks, started, lines, counts⟩ := inv.told
    rw [reported, at_] at tasks
    rw [at_] at counts
    exact ⟨entries, tasks, started, lines, counts⟩
  · have asked := inv.asked
    rw [rest] at asked
    exact asked

theorem Inv.finds (inv : Inv domains s nodes) {prev curr : Option Nat} {success fail : Nat}
    (at_ : s.main = .findCompleted prev curr success fail) :
    Goes domains s nodes (s.findCompleted prev curr success fail) := by
  have placed := inv.placed
  unfold Placed at placed
  rw [at_] at placed
  obtain ⟨before, after, split, isPrev, is, alone⟩ := placed
  have idle : s.main.hand = [] := by
    rw [at_]
    rfl
  have quiet : s.reported = s.taken := by rw [reported, at_]
  have counts : (success, fail) = s.main.counts := by
    rw [at_]
    rfl
  cases curr with
  | none =>
      have all : after = [] := by
        cases after with
        | nil => rfl
        | cons first rest => cases is
      refine ⟨s.moved (.ended success fail) s.completed s.calls, nodes, rfl,
        inv.walks idle quiet rfl rfl counts rfl ?_ inv.settled, ?_⟩
      · intro done
        rw [split, alone done, all]
        rfl
      · unfold turnsLeft
        rw [at_]
        dsimp only [moved]
        unfold findTurns
        omega
  | some task =>
      obtain ⟨rest, rfl⟩ := head_cons is
      obtain ⟨value, pc, kept, next, here, behind⟩ := inv.node split
      by_cases done : value.status ≠ 0
      · obtain ⟨heap, taskList, written, chain, relinked, dead⟩ := inv.bypasses split kept
        refine ⟨_, before ++ rest, ?_, inv.unlinks at_ (kept.settled_iff.mpr done) split chain
          relinked dead, ?_⟩
        · simp only [findCompleted, deref_ok kept.live, ok_bind, if_pos done, isPrev, written]
          rfl
        · unfold turnsLeft
          rw [at_]
          dsimp only
          rw [here, split]
          simp only [List.length_append, List.length_cons]
          unfold findTurns
          rw [← Nat.add_assoc before.length, freeTurns]
          omega
      · refine ⟨s.moved (.findCompleted (some task) value.next success fail) s.completed s.calls,
          nodes, ?_, inv.walks idle quiet rfl rfl counts rfl
            ⟨before ++ [task], rest, by simp [split], by simp, next, fun all => ?_⟩ inv.settled, ?_⟩
        · simp only [findCompleted, deref_ok kept.live, ok_bind, if_neg done]
          rfl
        · have settled := inv.settled all task (by simp [split])
          exact absurd (kept.settled_iff.mp settled) done
        · unfold turnsLeft
          rw [at_]
          dsimp only [moved]
          rw [next, here, behind]
          unfold findTurns
          omega

/-- A line is printed about the task in hand. -/
theorem Inv.prints_line (inv : Inv domains s nodes) {success fail success' fail' : Nat}
    (line : Line) (at_ : s.main = .reporting task success fail)
    (isLine : ∀ domain, (task, domain) ∈ s.started →
      value.domain = CStr.cut domain → line = s.lineOf (task, domain))
    (kept : s.Kept task value pc)
    (counts : (success', fail') = (success + if line.response.isSome then 1 else 0,
      fail + if line.response.isNone then 1 else 0)) :
    Inv domains { s with main := .freeing task success' fail', lines := s.lines ++ [line] }
      nodes := by
  have placed := inv.placed
  unfold Placed at placed
  rw [at_] at placed
  have hand : s.main.hand = [task] := by
    rw [at_]
    rfl
  have owned := inv.owned
  rw [hand] at owned
  refine ⟨inv.chain, owned, inv.once, inv.numbered, inv.working, ?_, inv.gone, placed, inv.settled,
    ?_, ?_⟩
  · intro other member
    obtain ⟨v, p, kept⟩ := inv.kept other (hand ▸ member)
    exact ⟨v, p, kept.of_same rfl rfl rfl fun _ => id⟩
  · obtain ⟨entries, tasks, started, lines, before⟩ := inv.told
    obtain ⟨domain, asked, isDomain⟩ := kept.asked
    refine ⟨entries ++ [(task, domain)], ?_, ?_, ?_, ?_⟩
    · rw [reported, at_] at tasks
      rw [List.map_append, tasks]
      rfl
    · exact List.append_subset.mpr ⟨started, List.cons_subset.mpr ⟨asked, List.nil_subset _⟩⟩
    · rw [List.map_append, isLine domain asked isDomain, lines]
      rfl
    · rw [at_] at before
      obtain ⟨good, bad⟩ := Prod.mk.inj before
      show (success', fail') = _
      rw [counts, List.countP_append, List.countP_append, ← good, ← bad]
      simp [List.countP_cons]
  · have asked := inv.asked
    rw [at_] at asked
    exact asked

theorem Inv.reports (inv : Inv domains s nodes) {success fail : Nat}
    (at_ : s.main = .reporting task success fail) :
    Goes domains s nodes (s.report task success fail) := by
  have placed := inv.placed
  unfold Placed at placed
  rw [at_] at placed
  have hand : s.main.hand = [task] := by
    rw [at_]
    rfl
  obtain ⟨value, pc, kept⟩ := inv.kept task (by rw [hand]; exact List.mem_append_right _ (.head _))
  have fewer {s' : Async} (good bad : Nat) (main : s'.main = .freeing task good bad) :
      s'.turnsLeft nodes < s.turnsLeft nodes := by
    unfold turnsLeft
    rw [at_, main]
    dsimp only
    omega
  have standing : value.status = -1 ∧ s.answers task = none ∨ value.status = 1 ∧
      ∃ data, s.answers task = some data ∧ Got data value ∧ value.responseLen = data.length := by
    have is := kept.standing
    obtain ⟨pc', isAt, settled⟩ := placed
    cases kept.at_.symm.trans isAt
    cases pc with
    | printing | ended => exact is
    | _ => exact absurd settled (by simp [WorkerPc.settled])
  rcases standing with ⟨bad, unanswered⟩ | ⟨good, data, answered, got, long⟩
  · have other : ¬ value.status = 1 := by
      rw [bad]
      decide
    refine ⟨_, nodes, ?_, inv.prints_line ⟨value.domain, none⟩ at_ ?_ kept rfl,
      fewer _ _ rfl⟩
    · simp only [report, deref_ok kept.live, ok_bind, if_neg other]
      rfl
    · intro domain _ isDomain
      rw [lineOf, unanswered, isDomain]
      rfl
  · have count : (min value.responseLen 16).toNat = min data.length 16 := by
      rw [long]
      omega
    have cut : data.take (min data.length 16) = data.take 16 :=
      List.take_eq_take_iff.mpr (by omega)
    have head : loadAt value.response 0 (min data.length 16) = .ok (data.take 16) :=
      cut ▸ loadAt_part got.stored (Nat.min_le_left _ _)
    refine ⟨_, nodes, ?_, inv.prints_line
      ⟨value.domain, some (value.responseLen, data.take 16)⟩ at_ ?_ kept rfl, fewer _ _ rfl⟩
    · simp only [report, deref_ok kept.live, ok_bind, if_pos good, count, head]
      rfl
    · intro domain _ isDomain
      rw [lineOf, answered, isDomain, long]
      rfl

theorem Inv.frees (inv : Inv domains s nodes) {success fail : Nat}
    (at_ : s.main = .freeing task success fail) :
    Goes domains s nodes (s.freeTask task success fail) := by
  have placed := inv.placed
  unfold Placed at placed
  rw [at_] at placed
  have hand : s.main.hand = [task] := by
    rw [at_]
    rfl
  obtain ⟨value, pc, kept⟩ := inv.kept task (by rw [hand]; exact List.mem_append_right _ (.head _))
  have nodup := inv.nodup
  rw [hand] at nodup
  have outside {other : Nat} (member : other ∈ nodes) : other ≠ task := by
    rintro rfl
    exact (List.nodup_append.mp (List.nodup_append.mp nodup).1).2.2 other member other (.head _) rfl
  let next : Async := { s with
    heap := Function.update s.heap task none
    main := .findCompleted none s.taskList success fail
    taken := s.taken ++ [task] }
  have ran : s.freeTask task success fail = .ok next := by
    simp only [freeTask, deref_ok kept.live, ok_bind]
    rfl
  have links : next.links = Function.update s.links task none := by
    funext other
    by_cases same : other = task
    · subst same
      simp [Async.links, next]
    · simp [Async.links, next, Function.update_of_ne same]
  refine ⟨next, nodes, ran, ⟨?_, ?_, inv.once, inv.numbered, inv.working, ?_, ?_,
    ⟨[], nodes, rfl, rfl, Chain.head inv.chain, fun _ => rfl⟩, inv.settled, ?_, ?_⟩, ?_⟩
  · rw [links]
    exact Segment.update inv.chain (fun member => outside member rfl) none
  · have owned := inv.owned
    rw [hand, List.append_assoc] at owned
    refine List.Perm.trans ?_ owned
    show (nodes ++ [] ++ (s.taken ++ [task])).Perm _
    rw [List.append_nil]
    exact List.Perm.append_left _ List.perm_append_comm
  · intro other member
    have inList : other ∈ nodes := by
      rcases List.mem_append.mp member with inList | none_
      · exact inList
      · cases none_
    obtain ⟨v, p, kept⟩ := inv.kept other (List.mem_append_left _ inList)
    exact ⟨v, p, kept.of_same (Function.update_of_ne (outside inList) ..) rfl rfl fun _ => id⟩
  · intro other member
    rcases List.mem_append.mp member with old | new
    · by_cases same : other = task
      · subst same
        exact ⟨Function.update_self .., placed⟩
      · exact ⟨(Function.update_of_ne same ..).trans (inv.gone other old).1, (inv.gone other old).2⟩
    · obtain rfl := List.mem_singleton.mp new
      exact ⟨Function.update_self .., placed⟩
  · obtain ⟨entries, tasks, started, lines, counts⟩ := inv.told
    rw [reported, at_] at tasks
    rw [at_] at counts
    exact ⟨entries, tasks, started, lines, counts⟩
  · have asked := inv.asked
    rw [at_] at asked
    exact asked
  · unfold turnsLeft
    rw [at_]
    dsimp only [next]
    rw [inv.first]
    omega

/-- A turn of `main`. -/
theorem Inv.main (inv : Inv domains s nodes) (granted created : Bool) :
    Goes domains s nodes (s.mainStep granted created) ∨
      (∃ success fail, s.main = .ended success fail) ∧ s.mainStep granted created = .ok s := by
  unfold mainStep
  cases at_ : s.main with
  | adding rest => exact .inl (inv.adds at_ granted created)
  | inserting task later => exact .inl (inv.inserts at_)
  | printTasks i curr => exact .inl (inv.prints at_)
  | waitAll elapsed curr => exact .inl (inv.waits at_)
  | findCompleted prev curr success fail => exact .inl (inv.finds at_)
  | reporting task success fail => exact .inl (inv.reports at_)
  | freeing task success fail => exact .inl (inv.frees at_)
  | ended success fail => exact .inr ⟨⟨success, fail, rfl⟩, rfl⟩

end Main

/-- A worker does not touch what `main` does next. -/
theorem dnsThreadWork_main {s s' : Async} {task : Nat} {opened : Bool}
    {datagram : Option (List UInt8)} (ran : s.dnsThreadWork task opened datagram = .ok s') :
    s'.main = s.main := by
  have reads {f : DnsTask → Async} (ran : (do return f (← s.deref task)) = .ok s')
      (same : ∀ value, (f value).main = s.main) : s'.main = s.main := by
    obtain ⟨value, -, returned⟩ := ok_of_bind ran
    cases returned
    exact same value
  unfold dnsThreadWork at ran
  split at ran
  · cases ran
    rfl
  · exact reads ran fun _ => rfl
  · split at ran
    · cases ran
      rfl
    · exact reads ran fun _ => rfl
  · exact reads ran fun _ => rfl
  · unfold splitting at ran
    split at ran
    · cases ran
      rfl
    · split at ran
      · cases ran
        rfl
      · cases ran
  · unfold Async.recvfrom at ran
    split at ran
    · cases ran
      rfl
    · obtain ⟨value, -, ran⟩ := ok_of_bind ran
      obtain ⟨response, -, ran⟩ := ok_of_bind ran
      split at ran
      · cases ran
        rfl
      · cases ran
        rfl
  · exact reads ran fun _ => rfl
  · exact reads ran fun _ => rfl
  · exact reads ran fun _ => rfl
  · exact reads ran fun _ => rfl
  · cases ran
    rfl

section Runs

variable {domains : List CStr} {s last : Async} {nodes : List Nat} {turns : List Turn}

theorem start_inv (domains : List CStr) : Inv domains (start domains) [] := by
  refine ⟨rfl, .refl _, List.nodup_nil, fun _ _ => ⟨rfl, rfl⟩, fun task => ?_, ?_, ?_, rfl, ?_,
    ⟨[], rfl, fun _ => id, rfl, rfl⟩, List.Sublist.refl _⟩
  · simp [start]
  · intro task member
    cases member
  · intro task member
    cases member
  · intro _ task member
    cases member

/-- A turn that nobody disturbs. -/
theorem Inv.step (inv : Inv domains s nodes) {turn : Turn} (undisturbed : s.Undisturbed turn) :
    ∃ s' nodes', s.step turn = .ok s' ∧ Inv domains s' nodes' ∧
      (s'.turnsLeft nodes' + (if turn.isMain then 1 else 0) ≤ s.turnsLeft nodes ∨
        s.turnsLeft nodes = 0 ∧ s'.turnsLeft nodes' = 0) := by
  cases turn with
  | main granted created =>
      rcases inv.main granted created with ⟨s', nodes', ran, inv', fewer⟩ | ⟨⟨good, bad, at_⟩, ran⟩
      · exact ⟨s', nodes', ran, inv', .inl fewer⟩
      · have zero : s.turnsLeft nodes = 0 := by rw [turnsLeft, at_]
        exact ⟨s, nodes, ran, inv, .inr ⟨zero, zero⟩⟩
  | worker task opened datagram =>
      obtain ⟨s', ran, inv'⟩ := inv.worker undisturbed
      have same : s'.turnsLeft nodes = s.turnsLeft nodes := by
        rw [turnsLeft, turnsLeft, dnsThreadWork_main ran]
      exact ⟨s', nodes, ran, inv', .inl (Nat.le_of_eq same)⟩

theorem Inv.runs (inv : Inv domains s nodes) (quiet : Along Async.step Undisturbed s turns) :
    ∃ last nodes', Trace.runs Async.step s turns = .ok last ∧ Inv domains last nodes' ∧
      (last.turnsLeft nodes' + turns.countP Turn.isMain ≤ s.turnsLeft nodes ∨
        last.turnsLeft nodes' = 0) := by
  induction turns generalizing s nodes with
  | nil => exact ⟨s, nodes, rfl, inv, .inl (Nat.le_refl _)⟩
  | cons turn later ih =>
      obtain ⟨s', nodes', stepped, inv', fewer⟩ := inv.step quiet.1
      obtain ⟨last, nodes'', ran, inv'', bound⟩ := ih inv' (quiet.2 s' stepped)
      refine ⟨last, nodes'', (runs_cons stepped).trans ran, inv'', ?_⟩
      rw [List.countP_cons]
      omega

/-- What `main` has printed in the end. -/
theorem Inv.ended (inv : Inv domains s nodes) {good bad : Nat} (at_ : s.main = .ended good bad) :
    ∃ told : List (Nat × CStr), (told.map Prod.fst).Nodup ∧ told ⊆ s.started ∧
      s.lines = told.map s.lineOf ∧ good = told.countP (fun entry => (s.answers entry.1).isSome) ∧
      bad = told.countP (fun entry => (s.answers entry.1).isNone) ∧
      (s.completed = some true → told.Perm s.started) := by
  obtain ⟨told, tasks, started, lines, counts⟩ := inv.told
  have hand : s.main.hand = [] := by
    rw [at_]
    rfl
  have freed : told.map Prod.fst = s.taken := by
    rw [tasks, reported, at_]
  have once : (told.map Prod.fst).Nodup := by
    rw [freed]
    exact (List.nodup_append.mp inv.nodup).2.1
  rw [at_, lines, List.countP_map, List.countP_map] at counts
  obtain ⟨isGood, isBad⟩ := Prod.mk.inj counts
  refine ⟨told, once, started, lines, ?_, ?_, fun done => ?_⟩
  · rw [isGood]
    exact List.countP_congr fun entry _ => by simp [lineOf]
  · rw [isBad]
    exact List.countP_congr fun entry _ => by simp [lineOf]
  · have placed := inv.placed
    unfold Placed at placed
    rw [at_] at placed
    have owned := inv.owned
    rw [placed done, hand, ← freed] at owned
    have size := owned.length_eq
    simp only [List.append_nil, List.nil_append, List.length_map] at size
    exact ((List.Nodup.of_map _ once).subperm started).perm_of_length_le (Nat.le_of_eq size.symm)

end Runs

end Async

end LinuxCpp.Dns
