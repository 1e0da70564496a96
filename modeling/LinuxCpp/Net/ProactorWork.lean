import LinuxCpp.Net.Proactor
import Mathlib.Data.List.Perm.Subperm

set_option autoImplicit false

/- What is outstanding in the io_uring front end. At any moment a connection has
at most one piece of work in some queue; the invariant says for each kind of work
where the exchange stands and what the shared memory holds. -/
namespace LinuxCpp.Net.Proactor

open Kvstore (bufferLength)
open Trace

/-- A completed receive whose bytes still lie in `buffer`. -/
def Cqe.Unread (entry : Cqe) : Prop := entry.userData.event = .read ∧ 0 < entry.res

def Sqe.IsSend : Sqe → Prop
  | .send _ _ _ => True
  | _ => False

section Conditions

variable {σ : Type}

/-- A receive completes only when every earlier one is handled, and a message is
handled only when every earlier reply is sent. -/
def Apart (L : Loop σ) : Action → Prop
  | .complete _ (.data _) => ∀ entry ∈ L.cq, ¬ entry.Unread
  | .handle => ∀ entry rest, L.cq = entry :: rest → entry.Unread →
      ∀ sqe ∈ L.sq ++ L.inflight, ¬ sqe.IsSend
  | _ => True

/-- A receive completes only when nothing but zeros lies behind its bytes. -/
def Cleared (L : Loop σ) : Action → Prop
  | .complete _ (.data chunk) =>
      (L.memory .buffer).write chunk = Buffer.zeroed.write chunk
  | _ => True

/-- The handler returns the length of a text in `response`, or 0. -/
def Measured (handler : Handler σ) (L : Loop σ) : Action → Prop
  | .handle => ∀ entry rest, L.cq = entry :: rest → entry.Unread →
      0 ≤ ((L.call entry.res).run handler).returned ∧
        ((L.call entry.res).run handler).returned ≤ bufferLength
  | _ => True

end Conditions

/-- What is outstanding for a connection: nothing to remember, received bytes to
handle, or a reply to send. -/
inductive Stage where
  | idle
  | read (res : Int)
  | send (len : Int)
deriving DecidableEq

def Sqe.work : Sqe → Option (Int × Stage)
  | .accept _ => none
  | .recv fd _ _ => if fd < 0 then none else some (fd, .idle)
  | .send fd _ len => some (fd, .send len)

def Cqe.work (entry : Cqe) : Option (Int × Stage) :=
  match entry.userData.event with
  | .accept => if entry.res < 0 then none else some (entry.res, .idle)
  | .read =>
      if 0 < entry.res then some (entry.userData.fd, .read entry.res)
      else if entry.userData.fd < 0 then none
      else some (entry.userData.fd, .idle)
  | .write => some (entry.userData.fd, .idle)

/-- Receives name `buffer`, sends name a part of `response`. -/
def Sqe.Named : Sqe → Prop
  | .accept _ => True
  | .recv _ buf len => buf = .buffer ∧ len = bufferLength
  | .send _ buf len => buf = .response ∧ 0 ≤ len ∧ len ≤ bufferLength

section Invariant

variable {σ : Type} {handler : Handler σ} {takes : Call σ → List UInt8 → Prop}
  {L L' : Loop σ}

/-- All that is outstanding, wherever it is queued. -/
def Loop.work (L : Loop σ) : List (Int × Stage) :=
  L.sq.filterMap Sqe.work ++ (L.inflight.filterMap Sqe.work ++ L.cq.filterMap Cqe.work)

abbrev Rounds (handler : Handler σ) (takes : Call σ → List UInt8 → Prop) (L : Loop σ)
    (peer : Nat) (phase : Phase) : Prop :=
  Course (Next handler takes True) .unborn (eventsOf peer L.trace) phase

/-- The exchange of a connection stands where its outstanding work says, and the
shared memory holds what that work needs. -/
def Stands (handler : Handler σ) (takes : Call σ → List UInt8 → Prop) (L : Loop σ)
    (peer : Nat) : Stage → Prop
  | .idle => Rounds handler takes L peer .waiting
  | .read res => ∃ chunk, Rounds handler takes L peer (.reading chunk) ∧
      ∀ store response, takes ⟨store, L.memory .buffer, res, response⟩ chunk
  | .send len => Rounds handler takes L peer (.answering ((L.memory .response).front len.toNat))

structure Inv (handler : Handler σ) (takes : Call σ → List UInt8 → Prop) (L : Loop σ) :
    Prop where
  sound : L.kernel.Sound
  once : (L.work.map Prod.fst).Nodup
  stands : ∀ {fd stage}, (fd, stage) ∈ L.work →
    ∃ peer, L.peer fd = some peer ∧ Stands handler takes L peer stage
  oneRead : ∀ {fd other res more}, (fd, .read res) ∈ L.work → (other, .read more) ∈ L.work →
    fd = other
  oneSend : ∀ {fd other len more}, (fd, .send len) ∈ L.work → (other, .send more) ∈ L.work →
    fd = other
  named : ∀ sqe ∈ L.sq ++ L.inflight, sqe.Named
  rounds : ∀ peer, ∃ phase, Rounds handler takes L peer phase
  unborn : ∀ {peer}, L.kernel.accepted ≤ peer → eventsOf peer L.trace = []

/-- Steps that only move work between the queues, or let go of some. -/
theorem Inv.moved (inv : Inv handler takes L) (kernel : L'.kernel = L.kernel)
    (memory : L'.memory = L.memory) (trace : L'.trace = L.trace) (work : L'.work.Subperm L.work)
    (named : ∀ sqe ∈ L'.sq ++ L'.inflight, sqe.Named) : Inv handler takes L' := by
  have peers : L'.peer = L.peer := by
    funext fd
    rw [Loop.peer, Loop.peer, kernel]
  have stands : Stands handler takes L' = Stands handler takes L := by
    funext peer stage
    cases stage <;> simp only [Stands, Rounds, memory, trace]
  obtain ⟨kept, same, sublist⟩ := work
  constructor
  · rw [kernel]
    exact inv.sound
  · exact (same.map Prod.fst).nodup_iff.mp (inv.once.sublist (sublist.map Prod.fst))
  · intro fd stage member
    rw [peers, stands]
    exact inv.stands (sublist.subset (same.symm.subset member))
  · intro fd other res more first second
    exact inv.oneRead (sublist.subset (same.symm.subset first))
      (sublist.subset (same.symm.subset second))
  · intro fd other len more first second
    exact inv.oneSend (sublist.subset (same.symm.subset first))
      (sublist.subset (same.symm.subset second))
  · exact named
  · intro peer
    simpa only [Rounds, trace] using inv.rounds peer
  · intro peer young
    rw [kernel] at young
    rw [trace]
    exact inv.unborn young

/-- Steps that change one connection, whose outstanding work becomes `stage`. -/
structure Turn (handler : Handler σ) (takes : Call σ → List UInt8 → Prop) (L L' : Loop σ)
    (fd : Int) (peer : Nat) (news : List (Event σ)) (stage : Option Stage)
    (rest : List (Int × Stage)) : Prop where
  sound : L'.kernel.Sound
  kept : rest.Subperm L.work
  others : ∀ w ∈ rest, w.1 ≠ fd
  work : L'.work.Perm ((stage.map (Prod.mk fd)).toList ++ rest)
  named : ∀ sqe ∈ L'.sq ++ L'.inflight, sqe.Named
  peers : ∀ {other}, other ≠ fd → L'.peer other = L.peer other
  alone : ∀ {other}, other ≠ fd → L.peer other ≠ some peer
  trace : L'.trace = L.trace ++ news.map (Prod.mk peer)
  later : L.kernel.accepted ≤ L'.kernel.accepted
  counted : peer < L'.kernel.accepted
  buffer : (∃ other res, (other, .read res) ∈ rest) → L'.memory .buffer = L.memory .buffer
  response : (∃ other len, (other, .send len) ∈ rest) → L'.memory .response = L.memory .response
  now : ∀ {next}, stage = some next → L'.peer fd = some peer ∧ Stands handler takes L' peer next
  firstRead : ∀ {res}, stage = some (.read res) → ∀ {other more}, (other, .read more) ∉ rest
  firstSend : ∀ {len}, stage = some (.send len) → ∀ {other more}, (other, .send more) ∉ rest
  rounds : ∃ phase, Rounds handler takes L' peer phase

namespace Turn

variable {fd : Int} {peer : Nat} {news : List (Event σ)} {stage : Option Stage}
  {rest : List (Int × Stage)}

theorem events_other (turn : Turn handler takes L L' fd peer news stage rest) {party : Nat}
    (differ : party ≠ peer) : eventsOf party L'.trace = eventsOf party L.trace := by
  have none : eventsOf party (news.map (Prod.mk peer)) = [] := by
    simp [eventsOf, differ.symm]
  rw [turn.trace, eventsOf_append, none, List.append_nil]

theorem mem_cases (turn : Turn handler takes L L' fd peer news stage rest) {other : Int}
    {next : Stage} (member : (other, next) ∈ L'.work) :
    (other = fd ∧ stage = some next) ∨ (other ≠ fd ∧ (other, next) ∈ rest) := by
  have split := turn.work.subset member
  rw [List.mem_append] at split
  rcases split with new | old
  · cases stage with
    | none => simp at new
    | some now =>
        have same : (other, next) = (fd, now) := by simpa using new
        cases same
        exact .inl ⟨rfl, rfl⟩
  · exact .inr ⟨turn.others _ old, old⟩

theorem kept_stands (turn : Turn handler takes L L' fd peer news stage rest) {other : Int}
    {next : Stage} {party : Nat} (member : (other, next) ∈ rest)
    (stranger : party ≠ peer) (stands : Stands handler takes L party next) :
    Stands handler takes L' party next := by
  cases next with
  | idle =>
      rw [Stands, Rounds, turn.events_other stranger]
      exact stands
  | read res =>
      simpa only [Stands, Rounds, turn.events_other stranger, turn.buffer ⟨other, res, member⟩]
        using stands
  | send len =>
      rw [Stands, Rounds, turn.events_other stranger, turn.response ⟨other, len, member⟩]
      exact stands

theorem inv (turn : Turn handler takes L L' fd peer news stage rest)
    (inv : Inv handler takes L) : Inv handler takes L' := by
  have subset : ∀ {w}, w ∈ rest → w ∈ L.work := fun member => turn.kept.subset member
  constructor
  · exact turn.sound
  · rw [(turn.work.map Prod.fst).nodup_iff, List.map_append, List.nodup_append]
    obtain ⟨kept, same, sublist⟩ := turn.kept
    have restOnce : (rest.map Prod.fst).Nodup :=
      (same.map Prod.fst).nodup_iff.mp (inv.once.sublist (sublist.map Prod.fst))
    refine ⟨by cases stage <;> simp, restOnce, ?_⟩
    intro first isNew second isOld
    obtain ⟨w, member, rfl⟩ := List.mem_map.mp isOld
    cases stage with
    | none => simp at isNew
    | some next =>
        have same : first = fd := by simpa using isNew
        rw [same]
        exact (turn.others w member).symm
  · intro other next member
    rcases turn.mem_cases member with ⟨rfl, same⟩ | ⟨differ, old⟩
    · exact ⟨peer, turn.now same⟩
    · obtain ⟨party, here, stands⟩ := inv.stands (subset old)
      have stranger : party ≠ peer := by
        rintro rfl
        exact turn.alone differ here
      exact ⟨party, (turn.peers differ).trans here, turn.kept_stands old stranger stands⟩
  · intro first second res more isFirst isSecond
    rcases turn.mem_cases isFirst with ⟨rfl, same⟩ | ⟨-, old⟩ <;>
      rcases turn.mem_cases isSecond with ⟨rfl, same'⟩ | ⟨-, old'⟩
    · rfl
    · exact absurd old' (turn.firstRead same)
    · exact absurd old (turn.firstRead same')
    · exact inv.oneRead (subset old) (subset old')
  · intro first second len more isFirst isSecond
    rcases turn.mem_cases isFirst with ⟨rfl, same⟩ | ⟨-, old⟩ <;>
      rcases turn.mem_cases isSecond with ⟨rfl, same'⟩ | ⟨-, old'⟩
    · rfl
    · exact absurd old' (turn.firstSend same)
    · exact absurd old (turn.firstSend same')
    · exact inv.oneSend (subset old) (subset old')
  · exact turn.named
  · intro party
    by_cases same : party = peer
    · rw [same]
      exact turn.rounds
    · simpa only [Rounds, turn.events_other same] using inv.rounds party
  · intro party young
    have counted := turn.counted
    rw [turn.events_other (by omega)]
    exact inv.unborn (Nat.le_trans turn.later young)

end Turn

end Invariant

section Queues

variable {σ : Type} {L : Loop σ}

private theorem filterMap_cons_toList {α β : Type} (f : α → Option β) (first : α)
    (rest : List α) : (first :: rest).filterMap f = (f first).toList ++ rest.filterMap f := by
  cases value : f first <;> simp [value]

theorem work_erase {i : Nat} {sqe : Sqe} (found : L.inflight[i]? = some sqe) :
    L.work.Perm (sqe.work.toList ++ { L with inflight := L.inflight.eraseIdx i }.work) := by
  obtain ⟨inside, rfl⟩ := List.getElem?_eq_some_iff.mp found
  have perm := ((List.getElem_cons_eraseIdx_perm inside).filterMap Sqe.work).symm
  rw [filterMap_cons_toList] at perm
  apply ((perm.append_right _).append_left _).trans
  rw [List.append_assoc]
  exact List.perm_append_comm_assoc _ _ _

theorem work_next {entry : Cqe} {rest : List Cqe} (next : L.cq = entry :: rest) (nready : Nat) :
    L.work.Perm (entry.work.toList ++ { L with nready := nready, cq := rest }.work) := by
  rw [Loop.work, next, filterMap_cons_toList]
  apply ((List.perm_append_comm_assoc _ _ _).append_left _).trans
  exact List.perm_append_comm_assoc _ _ _

theorem work_prepare (sqe : Sqe) : (L.prepare sqe).work.Perm (sqe.work.toList ++ L.work) := by
  rw [Loop.work, Loop.prepare, List.filterMap_append, filterMap_cons_toList, List.append_assoc,
    List.append_assoc]
  exact List.perm_append_comm_assoc _ _ _

theorem work_post (sqe : Sqe) (res : Int) :
    (L.post sqe res).work.Perm ((⟨sqe.userData, res⟩ : Cqe).work.toList ++ L.work) := by
  rw [Loop.work, Loop.post, List.filterMap_append, filterMap_cons_toList]
  simp only [List.filterMap_nil, List.append_nil, ← List.append_assoc]
  exact List.perm_append_comm.trans (by simp [Loop.work])

theorem mem_work_read {fd res : Int} (member : (fd, .read res) ∈ L.work) :
    ∃ entry ∈ L.cq, entry.Unread := by
  have notSqe : ∀ sqe : Sqe, sqe.work ≠ some (fd, .read res) := by
    intro sqe
    cases sqe with
    | accept => simp [Sqe.work]
    | recv other buf len => by_cases negative : other < 0 <;> simp [Sqe.work, negative]
    | send other buf len => simp [Sqe.work]
  simp only [Loop.work, List.mem_append, List.mem_filterMap] at member
  rcases member with ⟨sqe, -, same⟩ | ⟨sqe, -, same⟩ | ⟨entry, queued, same⟩
  · exact absurd same (notSqe sqe)
  · exact absurd same (notSqe sqe)
  · refine ⟨entry, queued, ?_⟩
    unfold Cqe.work at same
    split at same
    · split at same <;> simp at same
    · rename_i isRead
      split at same
      · rename_i positive
        exact ⟨isRead, positive⟩
      · split at same <;> simp at same
    · simp at same

theorem mem_work_send {fd len : Int} (member : (fd, .send len) ∈ L.work) :
    ∃ sqe ∈ L.sq ++ L.inflight, sqe.IsSend := by
  have isSend : ∀ sqe : Sqe, sqe.work = some (fd, .send len) → sqe.IsSend := by
    intro sqe same
    cases sqe with
    | accept => simp [Sqe.work] at same
    | recv other buf len => by_cases negative : other < 0 <;> simp [Sqe.work, negative] at same
    | send other buf len => trivial
  simp only [Loop.work, List.mem_append, List.mem_filterMap] at member
  rcases member with ⟨sqe, queued, same⟩ | ⟨sqe, queued, same⟩ | ⟨entry, -, same⟩
  · exact ⟨sqe, List.mem_append_left _ queued, isSend sqe same⟩
  · exact ⟨sqe, List.mem_append_right _ queued, isSend sqe same⟩
  · exfalso
    unfold Cqe.work at same
    split at same
    · split at same <;> simp at same
    · split at same
      · simp at same
      · split at same <;> simp at same
    · simp at same

end Queues

section Peers

variable {σ : Type} {L : Loop σ} {fd other : Int} {peer : Nat}

theorem peer_eq_some :
    L.peer fd = some peer ↔ 0 ≤ fd ∧ L.kernel.sockets fd.toNat = some (.connected peer) := by
  rw [Loop.peer]
  split
  · rename_i negative
    simp only [reduceCtorEq, false_iff, not_and]
    omega
  · rename_i valid
    constructor
    · intro same
      split at same
      · rename_i found
        cases same
        exact ⟨by omega, found⟩
      · cases same
    · rintro ⟨-, found⟩
      rw [found]

theorem peer_alone (sound : L.kernel.Sound) (here : L.peer fd = some peer) (differ : other ≠ fd) :
    L.peer other ≠ some peer := by
  intro there
  obtain ⟨valid, found⟩ := peer_eq_some.mp here
  obtain ⟨valid', found'⟩ := peer_eq_some.mp there
  have same := sound.distinct found found'
  omega

variable (L fd) in
theorem note_cases (event : Event σ) : ∃ trace, L.note fd event = { L with trace := trace } := by
  rw [Loop.note]
  split
  · exact ⟨_, rfl⟩
  · exact ⟨L.trace, rfl⟩

@[simp] theorem note_kernel (event : Event σ) : (L.note fd event).kernel = L.kernel := by
  obtain ⟨trace, same⟩ := note_cases L fd event
  rw [same]

@[simp] theorem note_memory (event : Event σ) : (L.note fd event).memory = L.memory := by
  obtain ⟨trace, same⟩ := note_cases L fd event
  rw [same]

@[simp] theorem note_sq (event : Event σ) : (L.note fd event).sq = L.sq := by
  obtain ⟨trace, same⟩ := note_cases L fd event
  rw [same]

@[simp] theorem note_inflight (event : Event σ) : (L.note fd event).inflight = L.inflight := by
  obtain ⟨trace, same⟩ := note_cases L fd event
  rw [same]

@[simp] theorem note_work (event : Event σ) : (L.note fd event).work = L.work := by
  obtain ⟨trace, same⟩ := note_cases L fd event
  rw [same]
  rfl

theorem note_trace (here : L.peer fd = some peer) (event : Event σ) :
    (L.note fd event).trace = L.trace ++ [(peer, event)] := by
  rw [Loop.note, here]

end Peers

end LinuxCpp.Net.Proactor
