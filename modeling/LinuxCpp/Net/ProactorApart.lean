import LinuxCpp.Net.ProactorWork

set_option autoImplicit false

/- Runs of the io_uring front end. All connections share `buffer` and `response`,
so a reply belongs to its client only in runs where no receive completes over
bytes that are not handled yet, no message is handled under a reply that is
not sent yet, and the handler returns the length of its reply. -/
namespace LinuxCpp.Net.Proactor

open Kvstore (bufferLength)
open Trace

section Turns

variable {σ : Type} {handler : Handler σ} {takes : Call σ → List UInt8 → Prop}
  {L M : Loop σ} {fd : Int} {peer : Nat} {stage : Stage}

/-- `M` is `L` with one piece of work taken out of its queue. -/
structure Taken (L M : Loop σ) (w : Option (Int × Stage)) : Prop where
  split : L.work.Perm (w.toList ++ M.work)
  kernel : M.kernel = L.kernel
  memory : M.memory = L.memory
  trace : M.trace = L.trace
  sqes : ∀ sqe ∈ M.sq ++ M.inflight, sqe ∈ L.sq ++ L.inflight

namespace Taken

variable {w : Option (Int × Stage)}

theorem erase {i : Nat} {sqe : Sqe} (found : L.inflight[i]? = some sqe) :
    Taken L { L with inflight := L.inflight.eraseIdx i } sqe.work := by
  refine ⟨work_erase found, rfl, rfl, rfl, ?_⟩
  intro other member
  rw [List.mem_append] at member ⊢
  exact member.imp_right List.mem_of_mem_eraseIdx

theorem next {entry : Cqe} {rest : List Cqe} (queued : L.cq = entry :: rest) (nready : Nat) :
    Taken L { L with nready := nready, cq := rest } entry.work :=
  ⟨work_next queued nready, rfl, rfl, rfl, fun _ member => member⟩

theorem peer_eq (taken : Taken L M w) (fd : Int) : M.peer fd = L.peer fd := by
  rw [Loop.peer, Loop.peer, taken.kernel]

theorem kept (taken : Taken L M w) : M.work.Subperm L.work :=
  (List.sublist_append_right _ _).subperm.trans taken.split.symm.subperm

theorem mem (taken : Taken L M (some (fd, stage))) : (fd, stage) ∈ L.work :=
  taken.split.symm.subset (by simp)

theorem others (taken : Taken L M (some (fd, stage))) (once : (L.work.map Prod.fst).Nodup)
    (w : Int × Stage) (member : w ∈ M.work) : w.1 ≠ fd := by
  have nodup := (taken.split.map Prod.fst).nodup_iff.mp once
  simp only [Option.toList_some, List.cons_append, List.nil_append, List.map_cons,
    List.nodup_cons] at nodup
  intro same
  exact nodup.1 (same ▸ List.mem_map_of_mem member)

/-- The work comes back into a queue, or less of it. -/
theorem back {L' : Loop σ} (taken : Taken L M w) {new : List (Int × Stage)}
    (work : L'.work.Perm (new ++ M.work)) (fewer : new.Subperm w.toList) :
    L'.work.Subperm L.work :=
  (work.subperm.trans (List.subperm_append_right _ |>.mpr fewer)).trans
    taken.split.symm.subperm

end Taken

theorem Stands.rounds (stands : Stands handler takes L peer stage) :
    ∃ phase, Rounds handler takes L peer phase := by
  cases stage with
  | idle => exact ⟨_, stands⟩
  | read res =>
      obtain ⟨chunk, reading, -⟩ := stands
      exact ⟨_, reading⟩
  | send len => exact ⟨_, stands⟩

/-- A step on one connection that neither opens nor closes a descriptor. -/
theorem Taken.turn {L' : Loop σ} {next : Stage} {event : Event σ} (inv : Inv handler takes L)
    (taken : Taken L M (some (fd, stage))) (here : L.peer fd = some peer)
    (kernel : L'.kernel = L.kernel) (trace : L'.trace = L.trace ++ [(peer, event)])
    (work : L'.work.Perm ((fd, next) :: M.work))
    (named : ∀ sqe ∈ L'.sq ++ L'.inflight, sqe.Named)
    (buffer : (∃ other res, (other, .read res) ∈ M.work) → L'.memory .buffer = L.memory .buffer)
    (response : (∃ other len, (other, .send len) ∈ M.work) →
      L'.memory .response = L.memory .response)
    (stands : Stands handler takes L' peer next)
    (firstRead : ∀ {res}, next = .read res → ∀ {other more}, (other, .read more) ∉ M.work)
    (firstSend : ∀ {len}, next = .send len → ∀ {other more}, (other, .send more) ∉ M.work) :
    Turn handler takes L L' fd peer [event] (some next) M.work := by
  have peers : ∀ other, L'.peer other = L.peer other := by
    intro other
    rw [Loop.peer, Loop.peer, kernel]
  constructor
  · rw [kernel]
    exact inv.sound
  · exact taken.kept
  · exact taken.others inv.once
  · exact work
  · exact named
  · intro other differ
    exact peers other
  · intro other differ
    exact peer_alone inv.sound here differ
  · exact trace
  · rw [kernel]
  · rw [kernel]
    exact inv.sound.numbered (peer_eq_some.mp here).2
  · exact buffer
  · exact response
  · intro now same
    cases same
    exact ⟨(peers fd).trans here, stands⟩
  · intro res same
    exact firstRead (Option.some.inj same)
  · intro len same
    exact firstSend (Option.some.inj same)
  · exact stands.rounds

theorem complete_data_turn (inv : Inv handler takes L)
    (taken : Taken L M (some (fd, .idle))) (here : L.peer fd = some peer)
    (unread : ∀ entry ∈ L.cq, ¬ entry.Unread) {chunk : List UInt8} {L' : Loop σ}
    (kernel : L'.kernel = L.kernel)
    (trace : L'.trace = L.trace ++ [(peer, .received chunk)])
    (work : L'.work.Perm ((fd, .read chunk.length) :: M.work))
    (named : ∀ sqe ∈ L'.sq ++ L'.inflight, sqe.Named)
    (memory : L'.memory = Function.update L.memory .buffer ((L.memory .buffer).write chunk))
    (delivers : ∀ store response,
      takes ⟨store, (L.memory .buffer).write chunk, chunk.length, response⟩ chunk) :
    Inv handler takes L' := by
  have noRead : ∀ {other res}, (other, .read res) ∉ M.work := by
    intro other res member
    obtain ⟨entry, queued, isUnread⟩ := mem_work_read (taken.kept.subset member)
    exact unread entry queued isUnread
  obtain ⟨party, there, waiting⟩ := inv.stands taken.mem
  obtain rfl : peer = party := Option.some.inj (here.symm.trans there)
  refine (taken.turn inv here kernel trace work named ?_ ?_ ?_ ?_ ?_).inv inv
  · rintro ⟨other, res, member⟩
    exact absurd member noRead
  · intro _
    simp [memory]
  · refine ⟨chunk, ?_, ?_⟩
    · rw [Rounds, trace, eventsOf_own]
      exact waiting.snoc .receive
    · simpa [memory] using delivers
  · intro res same
    exact noRead
  · intro len same
    cases same

/-- A send completes, with its bytes or without. -/
theorem complete_send_turn {len : Int} (inv : Inv handler takes L)
    (taken : Taken L M (some (fd, .send len))) (here : L.peer fd = some peer) {event : Event σ}
    (fate : event = .sent ((L.memory .response).front len.toNat) ∨ event = .dropped)
    {L' : Loop σ} (kernel : L'.kernel = L.kernel)
    (trace : L'.trace = L.trace ++ [(peer, event)])
    (work : L'.work.Perm ((fd, .idle) :: M.work))
    (named : ∀ sqe ∈ L'.sq ++ L'.inflight, sqe.Named) (memory : L'.memory = L.memory) :
    Inv handler takes L' := by
  obtain ⟨party, there, answering⟩ := inv.stands taken.mem
  obtain rfl : peer = party := Option.some.inj (here.symm.trans there)
  refine (taken.turn inv here kernel trace work named ?_ ?_ ?_ ?_ ?_).inv inv
  · intro _
    rw [memory]
  · intro _
    rw [memory]
  · rw [Stands, Rounds, trace, eventsOf_own]
    rcases fate with rfl | rfl
    · exact answering.snoc .send
    · exact answering.snoc (.drop trivial)
  · intro res same
    cases same
  · intro len same
    cases same

theorem request_turn {res : Int} (inv : Inv handler takes L)
    (taken : Taken L M (some (fd, .read res))) (here : L.peer fd = some peer)
    (unsent : ∀ sqe ∈ L.sq ++ L.inflight, ¬ sqe.IsSend) {L' : Loop σ}
    (kernel : L'.kernel = L.kernel)
    (trace : L'.trace = L.trace ++ [(peer, .handled (L.call res))])
    (work : L'.work.Perm ((fd, .send ((L.call res).run handler).returned) :: M.work))
    (named : ∀ sqe ∈ L'.sq ++ L'.inflight, sqe.Named)
    (response : L'.memory .response = ((L.call res).run handler).response) :
    Inv handler takes L' := by
  have noRead : ∀ {other more}, (other, .read more) ∉ M.work := by
    intro other more member
    exact taken.others inv.once _ member (inv.oneRead (taken.kept.subset member) taken.mem)
  have noSend : ∀ {other more}, (other, .send more) ∉ M.work := by
    intro other more member
    obtain ⟨sqe, queued, isSend⟩ := mem_work_send (taken.kept.subset member)
    exact unsent sqe queued isSend
  obtain ⟨party, there, chunk, reading, delivered⟩ := inv.stands taken.mem
  obtain rfl : peer = party := Option.some.inj (here.symm.trans there)
  refine (taken.turn inv here kernel trace work named ?_ ?_ ?_ ?_ ?_).inv inv
  · rintro ⟨other, more, member⟩
    exact absurd member noRead
  · rintro ⟨other, more, member⟩
    exact absurd member noSend
  · rw [Stands, Rounds, trace, eventsOf_own, response]
    exact reading.snoc (.handle (delivered L.store (L.memory .response)))
  · intro more same
    exact noRead
  · intro more same
    exact noSend

theorem complete_accept_inv {new : Nat} (inv : Inv handler takes L) (taken : Taken L M none)
    (free : L.kernel.sockets new = none) {L' : Loop σ} (kernel : L'.kernel = L.kernel.accept new)
    (trace : L'.trace = L.trace ++ [(L.kernel.accepted, .accepted)])
    (work : L'.work.Perm (((new : Int), .idle) :: M.work))
    (named : ∀ sqe ∈ L'.sq ++ L'.inflight, sqe.Named) (memory : L'.memory = L.memory) :
    Inv handler takes L' := by
  have closed : L.peer new = none := by
    rw [Loop.peer, if_neg (by omega), Int.toNat_natCast, free]
  have waiting : Rounds handler takes L' L.kernel.accepted .waiting := by
    rw [Rounds, trace, eventsOf_own, inv.unborn (Nat.le_refl _)]
    exact Course.empty.snoc .accept
  suffices turn : Turn handler takes L L' new L.kernel.accepted [.accepted] (some .idle) M.work
    from turn.inv inv
  constructor
  · rw [kernel]
    exact inv.sound.accept
  · exact taken.kept
  · intro w member same
    obtain ⟨peer, here, -⟩ := inv.stands (taken.kept.subset member)
    rw [same, closed] at here
    cases here
  · exact work
  · exact named
  · intro other differ
    rw [Loop.peer, Loop.peer, kernel]
    by_cases negative : other < 0
    · rw [if_pos negative, if_pos negative]
    · rw [Kernel.accept_other (by omega)]
  · intro other differ there
    exact absurd (inv.sound.numbered (peer_eq_some.mp there).2) (Nat.lt_irrefl _)
  · exact trace
  · rw [kernel]
    exact Nat.le_succ _
  · rw [kernel]
    exact Nat.lt_succ_self _
  · intro _
    rw [memory]
  · intro _
    rw [memory]
  · intro next same
    cases same
    refine ⟨peer_eq_some.mpr ⟨by omega, ?_⟩, waiting⟩
    rw [kernel, Int.toNat_natCast]
    exact Kernel.accept_self
  · intro res same
    cases same
  · intro len same
    cases same
  · exact ⟨.waiting, waiting⟩

theorem close_inv (inv : Inv handler takes L) (taken : Taken L M (some (fd, .idle)))
    (here : L.peer fd = some peer) {L' : Loop σ} (kernel : L'.kernel = L.kernel.close fd.toNat)
    (trace : L'.trace = L.trace ++ [(peer, .closed)]) (work : L'.work = M.work)
    (named : ∀ sqe ∈ L'.sq ++ L'.inflight, sqe.Named) (memory : L'.memory = L.memory) :
    Inv handler takes L' := by
  obtain ⟨party, there, waiting⟩ := inv.stands taken.mem
  obtain rfl : peer = party := Option.some.inj (here.symm.trans there)
  suffices turn : Turn handler takes L L' fd peer [.closed] none M.work from turn.inv inv
  constructor
  · rw [kernel]
    exact inv.sound.close
  · exact taken.kept
  · exact taken.others inv.once
  · rw [work]
    rfl
  · exact named
  · intro other differ
    have valid := (peer_eq_some.mp here).1
    rw [Loop.peer, Loop.peer, kernel]
    by_cases negative : other < 0
    · rw [if_pos negative, if_pos negative]
    · have apart : other.toNat ≠ fd.toNat := by omega
      simp only [Kernel.close, Function.update_of_ne apart]
  · intro other differ
    exact peer_alone inv.sound here differ
  · exact trace
  · rw [kernel]
    exact Nat.le_refl _
  · rw [kernel]
    exact inv.sound.numbered (peer_eq_some.mp here).2
  · intro _
    rw [memory]
  · intro _
    rw [memory]
  · intro next same
    cases same
  · intro res same
    cases same
  · intro len same
    cases same
  · refine ⟨.over, ?_⟩
    rw [Rounds, trace, eventsOf_own]
    exact waiting.snoc .close

end Turns


section Steps

variable {σ : Type} {handler : Handler σ} {takes : Call σ → List UInt8 → Prop}
  {L M L' : Loop σ}

theorem Inv.sqes (inv : Inv handler takes L) {w : Option (Int × Stage)} (taken : Taken L M w) :
    ∀ sqe ∈ M.sq ++ M.inflight, sqe.Named :=
  fun sqe member => inv.named sqe (taken.sqes sqe member)

theorem Inv.prepared (named : ∀ sqe ∈ M.sq ++ M.inflight, sqe.Named) {sqe : Sqe}
    (new : sqe.Named) : ∀ other ∈ (M.prepare sqe).sq ++ (M.prepare sqe).inflight, other.Named := by
  intro other member
  simp only [Loop.prepare, List.append_assoc, List.mem_append, List.mem_singleton] at member
  rcases member with queued | rfl | flying
  · exact named other (List.mem_append_left _ queued)
  · exact new
  · exact named other (List.mem_append_right _ flying)

/-- A completion that leaves everything but the queues alone. -/
theorem Inv.posted (inv : Inv handler takes L) {sqe : Sqe} (taken : Taken L M sqe.work)
    {res : Int} (fewer : (⟨sqe.userData, res⟩ : Cqe).work.toList.Subperm sqe.work.toList) :
    Inv handler takes (M.post sqe res) :=
  inv.moved taken.kernel taken.memory taken.trace (taken.back (work_post sqe res) fewer)
    (show ∀ other ∈ M.sq ++ M.inflight, other.Named from inv.sqes taken)

theorem complete_accept {sockfd : Int} {outcome : Outcome} (inv : Inv handler takes L)
    (taken : Taken L M none) (result : complete M (.accept sockfd) outcome = some L') :
    Inv handler takes L' := by
  cases outcome with
  | accepted new =>
      simp only [complete, Option.ite_none_right_eq_some, Option.some.injEq] at result
      obtain ⟨free, rfl⟩ := result
      rw [taken.kernel] at free
      have here : { M with kernel := M.kernel.accept new }.peer new =
          some L.kernel.accepted := by
        refine peer_eq_some.mpr ⟨by omega, ?_⟩
        rw [Int.toNat_natCast, Kernel.accept_self, taken.kernel]
      refine complete_accept_inv inv taken free ?_ ?_ ?_ ?_ ?_
      · simp [Loop.post, taken.kernel]
      · exact (note_trace here _).trans (by rw [taken.trace])
      · exact (work_post _ _).trans (by simp [Cqe.work, Sqe.userData]; rfl)
      · simpa [Loop.post] using inv.sqes taken
      · simp [Loop.post, taken.memory]
  | failed errno =>
      simp only [complete, Option.some.injEq] at result
      subst result
      apply inv.posted taken
      have negative : -((errno : Int) + 1) < 0 := by omega
      simp only [Cqe.work, Sqe.userData, Sqe.work, if_pos negative]
      exact List.Subperm.refl _
  | data chunk => simp [complete] at result
  | disconnected => simp [complete] at result
  | sent => simp [complete] at result
  | overran bytes => simp [complete] at result

theorem recv_without_data {fd res : Int} {buf : Local} {len : Nat} (empty : ¬ 0 < res) :
    (⟨(Sqe.recv fd buf len).userData, res⟩ : Cqe).work = (Sqe.recv fd buf len).work := by
  simp only [Cqe.work, Sqe.userData, Sqe.work, if_neg empty]
  rfl

theorem complete_recv {fd : Int} {outcome : Outcome} (inv : Inv handler takes L)
    (taken : Taken L M (Sqe.recv fd .buffer bufferLength).work)
    (unread : ∀ chunk, outcome = .data chunk → ∀ entry ∈ L.cq, ¬ entry.Unread)
    (delivers : ∀ chunk, outcome = .data chunk → chunk.length ≤ bufferLength →
      ∀ store response, takes ⟨store, (L.memory .buffer).write chunk, chunk.length, response⟩ chunk)
    (result : complete M (.recv fd .buffer bufferLength) outcome = some L') :
    Inv handler takes L' := by
  cases outcome with
  | data chunk =>
      simp only [complete, Option.ite_none_right_eq_some, Option.some.injEq] at result
      obtain ⟨⟨isOpen, received, fits⟩, rfl⟩ := result
      obtain ⟨peer, here⟩ := Option.isSome_iff_exists.mp isOpen
      have valid : ¬ fd < 0 := by
        have := (peer_eq_some.mp here).1
        omega
      have idle : Taken L M (some (fd, .idle)) := by
        simpa [Sqe.work, valid] using taken
      rw [taken.peer_eq] at here
      refine complete_data_turn inv idle here (unread chunk rfl) ?_ ?_ ?_ ?_ ?_
        (delivers chunk rfl fits)
      · simp [Loop.post, taken.kernel]
      · have there : ∀ memory, { M with memory := memory }.peer fd = some peer :=
          fun memory => (taken.peer_eq fd).trans here
        exact (note_trace (there _) _).trans (by rw [taken.trace])
      · apply (work_post _ _).trans
        simp [Cqe.work, Sqe.userData, received]
        rfl
      · simpa [Loop.post] using inv.sqes taken
      · simp [Loop.post, taken.memory]
  | disconnected =>
      simp only [complete, Option.some.injEq] at result
      subst result
      apply inv.posted taken
      rw [recv_without_data (by omega)]
  | failed errno =>
      simp only [complete, Option.some.injEq] at result
      subst result
      apply inv.posted taken
      rw [recv_without_data (by omega)]
  | accepted new => simp [complete] at result
  | sent => simp [complete] at result
  | overran bytes => simp [complete] at result

theorem complete_send {fd len : Int} {outcome : Outcome} (inv : Inv handler takes L)
    (taken : Taken L M (Sqe.send fd .response len).work)
    (measured : 0 ≤ len ∧ len ≤ bufferLength)
    (result : complete M (.send fd .response len) outcome = some L') :
    Inv handler takes L' := by
  obtain ⟨peer, here, -⟩ := inv.stands (Taken.mem taken)
  have there := (taken.peer_eq fd).trans here
  cases outcome with
  | sent =>
      simp only [complete, Option.ite_none_right_eq_some, Option.some.injEq] at result
      obtain ⟨-, rfl⟩ := result
      refine complete_send_turn inv taken here (.inl rfl) ?_ ?_ ?_ ?_ ?_
      · simp [Loop.post, taken.kernel]
      · rw [← taken.memory]
        exact (note_trace there _).trans (by rw [taken.trace])
      · exact (work_post _ _).trans (by simp [Cqe.work, Sqe.userData])
      · simpa [Loop.post] using inv.sqes taken
      · simp [Loop.post, taken.memory]
  | failed errno =>
      simp only [complete, Option.some.injEq] at result
      subst result
      refine complete_send_turn inv taken here (.inr rfl) ?_ ?_ ?_ ?_ ?_
      · simp [Loop.post, taken.kernel]
      · exact (note_trace there _).trans (by rw [taken.trace])
      · exact (work_post _ _).trans (by simp [Cqe.work, Sqe.userData])
      · simpa [Loop.post] using inv.sqes taken
      · simp [Loop.post, taken.memory]
  | overran bytes =>
      simp only [complete, Option.ite_none_right_eq_some] at result
      exact absurd measured result.1.2.1
  | accepted new => simp [complete] at result
  | data chunk => simp [complete] at result
  | disconnected => simp [complete] at result

theorem close_entry_inv {fd : Int} (inv : Inv handler takes L)
    (taken : Taken L M (⟨⟨fd, .read⟩, 0⟩ : Cqe).work) : Inv handler takes (close M fd) := by
  cases here : M.peer fd with
  | none =>
      have same : close M fd = M := by
        simp [close, here]
      rw [same]
      exact inv.moved taken.kernel taken.memory taken.trace taken.kept (inv.sqes taken)
  | some peer =>
      have valid : ¬ fd < 0 := by
        have := (peer_eq_some.mp here).1
        omega
      have idle : Taken L M (some (fd, .idle)) := by
        simpa [Cqe.work, valid] using taken
      have there := (taken.peer_eq fd).symm.trans here
      have same : close M fd =
          { M.note fd .closed with kernel := M.kernel.close fd.toNat } := by
        simp [close, here]
      rw [same]
      refine close_inv inv idle there ?_ ?_ ?_ ?_ ?_
      · rw [taken.kernel]
      · exact (note_trace here _).trans (by rw [taken.trace])
      · exact note_work (L := M) _
      · simpa using inv.sqes taken
      · simp [taken.memory]

theorem request_entry_inv {fd res : Int} (inv : Inv handler takes L)
    (taken : Taken L M (some (fd, .read res)))
    (unsent : ∀ sqe ∈ L.sq ++ L.inflight, ¬ sqe.IsSend)
    (measured : 0 ≤ ((L.call res).run handler).returned ∧
      ((L.call res).run handler).returned ≤ bufferLength) (sameStore : M.store = L.store) :
    Inv handler takes (request handler M fd res) := by
  obtain ⟨peer, here, -⟩ := inv.stands taken.mem
  have there := (taken.peer_eq fd).trans here
  have sameCall : M.call res = L.call res := by
    rw [Loop.call, Loop.call, taken.memory, sameStore]
  refine request_turn inv taken here unsent ?_ ?_ ?_ ?_ ?_
  · simp [request, setEventSend, Loop.prepare, taken.kernel]
  · rw [← sameCall, ← taken.trace]
    exact note_trace there _
  · rw [← sameCall]
    exact (work_prepare _).trans (.append_left _ (.of_eq (note_work (L := M) _)))
  · refine Inv.prepared ?_ ⟨rfl, sameCall.symm ▸ measured⟩
    simpa using inv.sqes taken
  · rw [← sameCall]
    rfl

theorem handleEntry_inv {entry : Cqe} (inv : Inv handler takes L) (taken : Taken L M entry.work)
    (sameStore : M.store = L.store)
    (unsent : entry.Unread → ∀ sqe ∈ L.sq ++ L.inflight, ¬ sqe.IsSend)
    (measured : entry.Unread → 0 ≤ ((L.call entry.res).run handler).returned ∧
      ((L.call entry.res).run handler).returned ≤ bufferLength) :
    Inv handler takes (handleEntry handler M entry) := by
  obtain ⟨⟨fd, event⟩, res⟩ := entry
  have named := inv.sqes taken
  cases event with
  | accept =>
      refine inv.moved taken.kernel taken.memory taken.trace ?_ ?_
      · apply taken.back ((work_prepare _).trans ((work_prepare _).append_left _))
        by_cases negative : res < 0 <;> simp [Sqe.work, Cqe.work, negative]
      · exact Inv.prepared (Inv.prepared named (by simp [Sqe.Named])) (by simp [Sqe.Named])
  | write =>
      refine inv.moved taken.kernel taken.memory taken.trace ?_ ?_
      · apply taken.back (work_prepare _)
        by_cases negative : fd < 0 <;> simp [Sqe.work, Cqe.work, negative]
      · exact Inv.prepared named (by simp [Sqe.Named])
  | read =>
      by_cases zero : res = 0
      · subst zero
        exact close_entry_inv inv taken
      · by_cases positive : 0 < res
        · have same : handleEntry handler M ⟨⟨fd, .read⟩, res⟩ = request handler M fd res := by
            simp [handleEntry, zero, positive]
          have reading : Taken L M (some (fd, .read res)) := by
            simpa [Cqe.work, positive] using taken
          rw [same]
          exact request_entry_inv inv reading (unsent ⟨rfl, positive⟩) (measured ⟨rfl, positive⟩)
            sameStore
        · have same : handleEntry handler M ⟨⟨fd, .read⟩, res⟩ = M := by
            simp [handleEntry, zero, positive]
          rw [same]
          exact inv.moved taken.kernel taken.memory taken.trace taken.kept named

theorem step_inv {a : Action} (inv : Inv handler takes L) (apart : Apart L a)
    (measured : Measured handler L a)
    (delivers : ∀ {i chunk}, a = .complete i (.data chunk) → chunk.length ≤ bufferLength →
      ∀ store response, takes ⟨store, (L.memory .buffer).write chunk, chunk.length, response⟩ chunk)
    (result : step handler L a = some L') : Inv handler takes L' := by
  cases a with
  | submit =>
      simp only [step, Option.ite_none_right_eq_some, Option.some.injEq] at result
      obtain ⟨-, rfl⟩ := result
      refine inv.moved rfl rfl rfl (List.Perm.subperm ?_) ?_
      · simp only [Loop.work, List.filterMap_nil, List.nil_append, List.filterMap_append,
          List.append_assoc]
        exact List.perm_append_comm_assoc _ _ _
      · intro sqe member
        simp only [List.nil_append, List.mem_append] at member
        exact inv.named sqe (List.mem_append.mpr member.symm)
  | peek =>
      simp only [step, Option.ite_none_right_eq_some, Option.some.injEq] at result
      obtain ⟨-, rfl⟩ := result
      exact inv.moved rfl rfl rfl (List.Subperm.refl _) inv.named
  | handle =>
      simp only [step] at result
      split at result
      · rename_i nready entry rest _ queued
        cases result
        exact handleEntry_inv inv (.next queued nready) rfl (apart entry rest queued)
          (measured entry rest queued)
      · cases result
  | complete i outcome =>
      simp only [step] at result
      split at result
      · rename_i sqe found
        have isNamed : sqe.Named :=
          inv.named sqe (List.mem_append_right _ (List.mem_of_getElem? found))
        have taken := Taken.erase found
        cases sqe with
        | accept sockfd => exact complete_accept inv taken result
        | recv fd buf len =>
            obtain ⟨rfl, rfl⟩ := isNamed
            refine complete_recv inv taken ?_ ?_ result
            · rintro chunk rfl
              exact apart
            · rintro chunk rfl
              exact delivers rfl
        | send fd buf len =>
            obtain ⟨rfl, measured⟩ := isNamed
            exact complete_send inv taken measured result
      · cases result

theorem proactorStart_inv (sockfd : Nat) (store : σ) :
    Inv handler takes (proactorStart sockfd store) := by
  have only : ∀ {fd : Nat} {socket : Socket},
      (proactorStart sockfd store).kernel.sockets fd = some socket → socket = .listening := by
    intro fd socket here
    by_cases same : fd = sockfd
    · simpa [proactorStart, setEventAccept, Loop.prepare, same, eq_comm] using here
    · simp [proactorStart, setEventAccept, Loop.prepare, same] at here
  constructor
  · constructor
    · intro fd peer here
      cases only here
    · intro fd other peer here
      cases only here
    · intro fd closed
      rfl
  · exact List.nodup_nil
  · intro fd stage member
    cases member
  · intro fd other res more member
    cases member
  · intro fd other res more member
    cases member
  · intro sqe member
    obtain rfl := List.mem_singleton.mp member
    trivial
  · intro peer
    exact ⟨.unborn, .empty⟩
  · intro peer young
    rfl

/-- A rule on steps that keeps the connections apart keeps the invariant, for
calls that take their chunk as the rule delivers it. -/
theorem Reachable.inv {allowed : Loop σ → Action → Prop}
    (apart : ∀ {L a}, allowed L a → Apart L a ∧ Measured handler L a)
    (delivers : ∀ {L i chunk}, allowed L (.complete i (.data chunk)) →
      chunk.length ≤ bufferLength → ∀ store response,
      takes ⟨store, (L.memory .buffer).write chunk, chunk.length, response⟩ chunk)
    (reachable : Reachable handler allowed L) : Inv handler takes L := by
  induction reachable with
  | start => exact proactorStart_inv _ _
  | step a _ isAllowed result ih =>
      refine step_inv ih (apart isAllowed).1 (apart isAllowed).2 ?_ result
      rintro i chunk rfl
      exact delivers isAllowed

end Steps

section Replies

variable {σ : Type}

/-- Every text sent on a connection is the reply of a call that took the chunk
last received on it. -/
def RepliesKept (handler : Handler σ) (takes : Call σ → List UInt8 → Prop)
    (trace : List (Nat × Event σ)) : Prop :=
  ∀ peer before bytes after, eventsOf peer trace = before ++ .sent bytes :: after →
    ∃ earlier chunk call, before = earlier ++ [.received chunk, .handled call] ∧
      takes call chunk ∧ bytes = call.reply handler

theorem apart_handle {L : Loop σ} (sqes : List Sqe) (queued : L.sq ++ L.inflight = sqes)
    (unsent : ∀ sqe ∈ sqes, ¬ sqe.IsSend) : Apart L .handle := by
  intro entry rest _ _
  rw [queued]
  exact unsent

theorem apart_data {L : Loop σ} {i : Nat} {chunk : List UInt8} (handled : L.cq = []) :
    Apart L (.complete i (.data chunk)) := by
  intro entry member
  rw [handled] at member
  cases member

/-- A handler that finds no request, as `kvs_protocol` in a blank message. -/
def refuse : Handler Unit := fun store msg _ response => ⟨store, msg, response, -1⟩

/-- The length that it returns is the one of a send, which begins with a byte of `response`. -/
theorem proactor_sends_unmeasured : ∃ L : Loop Unit, Reachable refuse Apart L ∧
    ¬ RepliesKept refuse Call.Takes L.trace := by
  have start : Reachable refuse Apart (proactorStart 3 ()) := .start
  have accepted := ((start.step .submit trivial rfl).step
    (.complete 0 (.accepted 5)) trivial rfl).step .peek trivial rfl
  have armed := (accepted.step .handle (apart_handle [] rfl (by simp)) rfl).step
    .submit trivial rfl
  have received := (armed.step (.complete 1 (.data [32])) (apart_data rfl) rfl).step
    .peek trivial rfl
  have handled := (received.step .handle
    (apart_handle [.accept 3] rfl (by simp [Sqe.IsSend])) rfl).step .submit trivial rfl
  have sent := handled.step (.complete 1 (.overran [0])) trivial rfl
  refine ⟨_, sent, ?_⟩
  intro kept
  obtain ⟨earlier, chunk, call, -, -, bytes⟩ :=
    kept 0 [.accepted, .received [32],
      .handled ⟨(), Buffer.zeroed.write [32], 1, Buffer.zeroed⟩] _ [] rfl
  cases bytes

end Replies

end LinuxCpp.Net.Proactor
