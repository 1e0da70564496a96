import LinuxCpp.Ustack.AckGates
import LinuxCpp.Ustack.Accept
import LinuxCpp.Ustack.FdTable

set_option autoImplicit false

/- The descriptors that the application holds. `nclose` gives a descriptor back while
the stream in LAST_ACK still carries it, so the next socket can share it; as long as
descriptors are handed out that no entry carries, each of them names one entry. -/
namespace LinuxCpp.Ustack

open C Trace

/-- An entry: its descriptor, whether it is a stream, and its block. -/
structure Label where
  fd : Int
  stream : Bool
  addr : Nat
deriving DecidableEq, Repr

def Host.label (h : Host) : Label := ⟨h.fd, false, h.addr⟩

def Stream.label (s : Stream) : Label := ⟨s.fd, true, s.addr⟩

namespace Entry

def fd : Entry → Int
  | host h => h.fd
  | stream s => s.fd

def label : Entry → Label
  | host h => h.label
  | stream s => s.label

end Entry

/-- The entries of the two lists, as they are searched. -/
def World.entries (w : World) : List Entry := w.lhost.map .host ++ w.tcbSet.map .stream

/-- The descriptor that the call handed out, and the entry it is for. -/
def handedOut (m : Machine) (e : Event) (ret : Option Int) : Option Label :=
  match e, ret with
  | .socket type, some fd =>
      if 0 ≤ fd then some ⟨fd, type = .stream, m.heap.calls + 1⟩ else none
  | .accept sockfd, some fd =>
      match getHostinfoFromfd m.world sockfd with
      | some (.stream listener) =>
          if 0 ≤ fd then (getAcceptTcb m.world listener.dport).map fun s => ⟨fd, true, s.addr⟩
          else none
      | _ => none
  | _, _ => none

/-- The descriptor that the call closed. -/
def givenBack (e : Event) (ret : Option Int) : Option Int :=
  match e, ret with
  | .close fd, some 0 => some fd
  | _, _ => none

/-- The descriptors that the application holds open. -/
def noteOpen (m : Machine) (e : Event) (ret : Option Int) (_ : Machine) (opened : List Label) :
    List Label :=
  (handedOut m e ret).toList ++ opened.filter fun label => givenBack e ret ≠ some label.fd

/-- The call hands out the next descriptor of the bitmap. -/
def HandsOut (m : Machine) : Event → Prop
  | .socket type => type = .other ∨ type.Made m.world m.heap
  | .accept sockfd => ∃ listener, getHostinfoFromfd m.world sockfd = some (.stream listener) ∧
      getAcceptTcb m.world listener.dport ≠ none
  | _ => False

/-- A descriptor is handed out only if no entry carries it, and for a socket of a known type. -/
def HandsFresh (d : Machine × List Label) (e : Event) : Prop :=
  HandsOut d.1 e → ∀ fd, d.1.world.freeFd = some fd →
    e ≠ .socket .other ∧ ∀ entry ∈ d.1.world.entries, entry.fd ≠ fd

def World.labels (w : World) : List Label := w.entries.map Entry.label

section Labels

variable {w : World} {q : Label}

theorem mem_labels : q ∈ w.labels ↔ (∃ h ∈ w.lhost, h.label = q) ∨ ∃ s ∈ w.tcbSet, s.label = q := by
  simp [World.labels, World.entries, Entry.label]

theorem getHostinfoFromfd_eq_find? (w : World) (fd : Int) :
    getHostinfoFromfd w fd = w.entries.find? fun entry => fd = entry.fd := by
  unfold getHostinfoFromfd World.entries
  rw [List.find?_append, List.find?_map, List.find?_map]
  have hosts : w.lhost.find? ((fun entry : Entry => decide (fd = entry.fd)) ∘ Entry.host) =
      w.lhost.find? fun host => fd = host.fd := rfl
  rw [hosts]
  cases w.lhost.find? fun host => fd = host.fd <;> rfl

theorem host_mem_labels {h : Host} (member : h ∈ w.lhost) : h.label ∈ w.labels :=
  mem_labels.mpr (.inl ⟨h, member, rfl⟩)

theorem stream_mem_labels {s : Stream} (member : s ∈ w.tcbSet) : s.label ∈ w.labels :=
  mem_labels.mpr (.inr ⟨s, member, rfl⟩)

end Labels

section Handing

variable {m m' : Machine} {e : Event} {ret : Option Int} {s t : Stream} {h : Host}

theorem getFdFrombitmap_fd (w : World) :
    (getFdFrombitmap w).1 = -1 ∨ ∃ fd : Nat, w.freeFd = some fd ∧ (getFdFrombitmap w).1 = fd := by
  unfold getFdFrombitmap
  split
  · exact .inl rfl
  · rename_i fd free
    exact .inr ⟨fd, free, rfl⟩

/-- A stream keeps its descriptor, but for the one that `naccept` gives to it. -/
theorem Evolves.label (evolves : Evolves m e ret s t) :
    t.label = s.label ∨ t.fd = -1 ∨ handedOut m e ret = some t.label := by
  cases evolves with
  | accepted named first handed =>
      rename_i fd new listener
      rcases getFdFrombitmap_fd m.world with none_ | ⟨free, -, taken⟩
      · exact .inr (.inl (handed.symm.trans none_))
      · have proper : 0 ≤ new := by omega
        refine .inr (.inr ?_)
        simp only [handedOut, named, if_pos proper, first, Option.map_some]
        rfl
  | established | heard | bound | listens | sends | refused | reads | closes | out => exact .inl rfl

theorem Evolves.fd (evolves : Evolves m e ret s t) : t.fd = s.fd ∨ s.fd = -1 := by
  cases evolves with
  | accepted named first => exact .inr (getAcceptTcb_waits first).2
  | established | heard | bound | listens | sends | refused | reads | closes | out => exact .inl rfl

theorem Born.label (born : Born m e ret s) : s.fd = -1 ∨ handedOut m e ret = some s.label := by
  cases born with
  | syn receives listener block fd => exact .inl fd
  | half receives listener block fd => exact .inl fd
  | socket block named number status answer handed =>
      rename_i fd
      rcases getFdFrombitmap_fd m.world with none_ | ⟨free, -, taken⟩
      · exact .inl (by omega)
      · have proper : 0 ≤ fd := by omega
        refine .inr ?_
        simp only [handedOut, if_pos proper, Stream.label, named, block]
        rfl

/-- An entry after the event carries an old label, none, or the one handed out. -/
theorem Change.labels_after (change : Change m e ret m') {q : Label}
    (member : q ∈ m'.world.labels) :
    q ∈ m.world.labels ∨ q.fd = -1 ∨ handedOut m e ret = some q := by
  rcases mem_labels.mp member with ⟨h, at_h, rfl⟩ | ⟨t, at_t, rfl⟩
  · have old {g : Host} (at_g : g ∈ m.world.lhost) (same : g.label = h.label) :
        h.label ∈ m.world.labels := same ▸ host_mem_labels at_g
    cases change with
    | still quiet streams hosts => exact .inl (old (hosts ▸ at_h) rfl)
    | write at_s evolves streams hosts => exact .inl (old (hosts ▸ at_h) rfl)
    | add born granted streams hosts => exact .inl (old (hosts ▸ at_h) rfl)
    | remove at_s dies streams hosts => exact .inl (old (hosts ▸ at_h) rfl)
    | addHost call block granted named handed streams hosts =>
        rw [hosts] at at_h
        rcases List.mem_cons.mp at_h with rfl | at_h
        · rcases getFdFrombitmap_fd m.world with none_ | ⟨free, -, taken⟩
          · exact .inr (.inl (handed.symm.trans none_))
          · have proper : 0 ≤ h.fd := by omega
            refine .inr (.inr ?_)
            simp only [handedOut, call, named, if_pos proper, Host.label, block]
            rfl
        · exact .inl (old at_h rfl)
    | writeHost call at_g block named rings streams hosts =>
        rw [hosts] at at_h
        obtain ⟨f, at_f, written⟩ := List.mem_map.mp at_h
        split at written
        · refine .inl (old at_g ?_)
          rw [← written, Host.label, Host.label, block, named]
        · exact .inl (old (written ▸ at_f) rfl)
    | removeHost call success named streams hosts =>
        rw [hosts] at at_h
        exact .inl (old (List.mem_filter.mp at_h).1 rfl)
  · rcases change.after at_t with old | ⟨s, old, evolves⟩ | born
    · exact .inl (stream_mem_labels old)
    · rcases evolves.label with same | rest
      · exact .inl (same ▸ stream_mem_labels old)
      · exact .inr rest
    · exact .inr born.label

theorem Numbered.unique_host (numbered : Numbered m) {g : Host} (at_h : h ∈ m.world.lhost)
    (at_g : g ∈ m.world.lhost) (same : g.addr = h.addr) : g = h :=
  List.inj_on_of_nodup_map numbered.hosts.nodup at_g at_h same

/-- The label of an entry stays, unless it has no descriptor, the descriptor is given
back, or the stream is on its way out. -/
theorem Change.labels_before (change : Change m e ret m') (numbered : Numbered m) {q : Label}
    (member : q ∈ m.world.labels) :
    q ∈ m'.world.labels ∨ q.fd = -1 ∨ givenBack e ret = some q.fd ∨
      ∃ s ∈ m.world.tcbSet, s.label = q ∧ s.status = .lastAck := by
  rcases mem_labels.mp member with ⟨h, at_h, rfl⟩ | ⟨s, at_s, rfl⟩
  · cases change with
    | still quiet streams hosts => exact .inl (host_mem_labels (hosts ▸ at_h))
    | write at_s evolves streams hosts => exact .inl (host_mem_labels (hosts ▸ at_h))
    | add born granted streams hosts => exact .inl (host_mem_labels (hosts ▸ at_h))
    | remove at_s dies streams hosts => exact .inl (host_mem_labels (hosts ▸ at_h))
    | addHost call block granted named handed streams hosts =>
        exact .inl (host_mem_labels (hosts ▸ List.mem_cons_of_mem _ at_h))
    | writeHost call at_g block named rings streams hosts =>
        rename_i g g'
        refine .inl (mem_labels.mpr (.inl ?_))
        rw [hosts]
        by_cases same : h.addr = g'.addr
        · refine ⟨g', List.mem_map.mpr ⟨h, at_h, if_pos same⟩, ?_⟩
          cases numbered.unique_host at_g at_h (same.trans block)
          rw [Host.label, Host.label, block, named]
        · exact ⟨h, List.mem_map.mpr ⟨h, at_h, if_neg same⟩, rfl⟩
    | removeHost call success named streams hosts =>
        rename_i fd g
        obtain ⟨at_g, carries⟩ := hostinfo_host named
        by_cases same : h.addr = g.addr
        · cases numbered.unique_host at_g at_h same
          refine .inr (.inr (.inl ?_))
          rw [call, success, ← carries]
          rfl
        · refine .inl (host_mem_labels ?_)
          rw [hosts]
          exact List.mem_filter.mpr ⟨at_h, by simpa using same⟩
  · rcases change.before numbered at_s with same | ⟨t, at_t, evolves⟩ | ⟨dies, -⟩
    · exact .inl (stream_mem_labels same)
    · rcases evolves.fd with same | none_
      · refine .inl (mem_labels.mpr (.inr ⟨t, at_t, ?_⟩))
        rw [Stream.label, Stream.label, same, evolves.addr]
      · exact .inr (.inl none_)
    · cases dies with
      | acked receives status => exact .inr (.inr (.inr ⟨s, at_s, rfl, status⟩))
      | closed named =>
          refine .inr (.inr (.inl ?_))
          rw [Stream.label, named_fd named]
          rfl

/-- The label handed out is the one of an entry. -/
theorem Change.handed_mem (change : Change m e ret m') {new : Label} (known : e ≠ .socket .other)
    (handed : handedOut m e ret = some new) :
    new ∈ m'.world.labels ∧ 0 ≤ new.fd ∧ new.fd = (getFdFrombitmap m.world).1 := by
  cases change with
  | still quiet streams hosts =>
      cases e with
      | socket type =>
          rcases quiet with rfl | rfl
          · exact absurd rfl known
          · cases handed
      | accept fd =>
          rcases quiet with rfl | rfl
          · cases handed
          · simp only [handedOut] at handed
            split at handed <;> cases handed
      | segment | bind | listen | send | recv | recvfrom | sendto | close | out => cases handed
  | write at_s evolves streams hosts =>
      rename_i s s'
      cases evolves with
      | accepted named first taken =>
          rename_i fd new listener
          simp only [handedOut, named, first, Option.map_some] at handed
          split at handed
          · cases handed
            refine ⟨mem_labels.mpr (.inr ⟨{ s with fd := new }, ?_, rfl⟩), ‹_›, taken.symm⟩
            exact streams ▸ put_mem at_s rfl
          · cases handed
      | established | heard | bound | listens | sends | refused | reads | closes | out =>
          cases handed
  | add born granted streams hosts =>
      cases born with
      | syn | half => cases handed
      | socket block named number status answer taken =>
          rename_i s fd
          simp only [handedOut] at handed
          split at handed
          · cases handed
            refine ⟨mem_labels.mpr (.inr ⟨s, streams ▸ List.mem_cons_self, ?_⟩), ‹_›, taken.symm⟩
            rw [Stream.label, named, block]
            rfl
          · cases handed
  | remove at_s dies streams hosts =>
      cases dies with
      | acked | closed => cases handed
  | addHost call block granted named taken streams hosts =>
      rename_i h
      simp only [handedOut, call, named] at handed
      split at handed
      · cases handed
        refine ⟨mem_labels.mpr (.inl ⟨h, hosts ▸ List.mem_cons_self, ?_⟩), ‹_›, taken.symm⟩
        rw [Host.label, block]
        rfl
      · cases handed
  | writeHost call =>
      cases e with
      | bind | recvfrom | sendto => cases handed
      | _ => exact call.elim
  | removeHost call =>
      cases call
      cases handed

end Handing

/-- Each open descriptor is carried by the entry it was handed out for, and by no other;
a stream in LAST_ACK carries one that was given back. -/
structure Identified (d : Machine × List Label) : Prop where
  numbered : Numbered d.1
  proper : ∀ p ∈ d.2, 0 ≤ p.fd
  carried : ∀ p ∈ d.2, p ∈ d.1.world.labels
  unique : ∀ p ∈ d.2, ∀ q ∈ d.1.world.labels, q.fd = p.fd → q = p
  closing : ∀ s ∈ d.1.world.tcbSet, s.status = .lastAck → 0 ≤ s.fd ∧ ∀ p ∈ d.2, p.fd ≠ s.fd

section Steps

variable {d d' : Machine × List Label} {e : Event}

/-- A call that returned a descriptor had one to hand out. -/
theorem handsOut_of_handed {m m' : Machine} {ret : Option Int} {new : Label}
    (ran : m.act e = .ok (ret, m')) (handed : handedOut m e ret = some new) : HandsOut m e := by
  cases e with
  | socket type =>
      obtain ⟨value, rfl, called⟩ := Machine.call_ok ran
      have proper : 0 ≤ value := by
        by_contra failed
        simp only [handedOut, if_neg failed] at handed
        cases handed
      rcases ((nsocket_table type).of_ok _ _ called).2 with ⟨made, -⟩ | ⟨-, -, -, returned⟩
      · exact .inr made
      · left
        by_contra known
        rw [if_neg known] at returned
        omega
  | accept fd =>
      cases ret with
      | none => cases handed
      | some value =>
          simp only [handedOut] at handed
          split at handed
          · rename_i listener named
            refine ⟨listener, named, fun nobody => ?_⟩
            rw [nobody] at handed
            split at handed <;> cases handed
          · cases handed
  | segment | bind | listen | send | recv | recvfrom | sendto | close | out => cases handed

/-- What the event hands out is the descriptor of an entry, and no entry carried it before. -/
def HandedFresh (m : Machine) (e : Event) (ret : Option Int) (m' : Machine) : Prop :=
  ∀ new, handedOut m e ret = some new →
    (new ∈ m'.world.labels ∧ 0 ≤ new.fd) ∧ ∀ q ∈ m.world.labels, q.fd ≠ new.fd

theorem handed_fresh {m m' : Machine} {ret : Option Int} {opened : List Label}
    (ran : m.act e = .ok (ret, m')) (fresh : HandsFresh (m, opened) e) :
    HandedFresh m e ret m' := by
  intro new handed
  have hands := handsOut_of_handed ran handed
  have known : e ≠ .socket .other := by
    rintro rfl
    cases free : m.world.freeFd with
    | some fd => exact (fresh hands fd free).1 rfl
    | none =>
        obtain ⟨value, rfl, called⟩ := Machine.call_ok ran
        obtain ⟨⟨⟩, -⟩ | ⟨-, -, -, returned⟩ := ((nsocket_table .other).of_ok _ _ called).2
        have failed : value = -1 := by simpa [getFdFrombitmap, free] using returned
        subst failed
        cases handed
  obtain ⟨member, proper, taken⟩ := (Machine.act_change ran).handed_mem known handed
  refine ⟨⟨member, proper⟩, fun q at_q same => ?_⟩
  obtain ⟨entry, at_entry, rfl⟩ := List.mem_map.mp at_q
  rcases getFdFrombitmap_fd m.world with none_ | ⟨fd, found, given⟩
  · omega
  · apply (fresh hands fd found).2 entry at_entry
    cases entry <;> exact same.trans (taken.trans given)

/-- An open descriptor was open before and is not closed now, or is handed out now. -/
theorem mem_noteOpen {m m' : Machine} {ret : Option Int} {opened : List Label} {p : Label}
    (member : p ∈ noteOpen m e ret m' opened) :
    (p ∈ opened ∧ givenBack e ret ≠ some p.fd) ∨ handedOut m e ret = some p := by
  rcases List.mem_append.mp member with new | old
  · exact .inr (Option.mem_toList.mp new)
  · obtain ⟨at_p, open_⟩ := List.mem_filter.mp old
    exact .inl ⟨at_p, by simpa using open_⟩

section Change

variable {m m' : Machine} {ret : Option Int} {opened : List Label} {p : Label}

theorem Identified.carried_after (identified : Identified (m, opened))
    (change : Change m e ret m') (fresh : HandedFresh m e ret m')
    (member : p ∈ noteOpen m e ret m' opened) : 0 ≤ p.fd ∧ p ∈ m'.world.labels := by
  rcases mem_noteOpen member with ⟨old, open_⟩ | new
  · have nonneg : 0 ≤ p.fd := identified.proper p old
    refine ⟨nonneg, ?_⟩
    rcases change.labels_before identified.numbered (identified.carried p old) with
      stays | none_ | given | ⟨s, at_s, label, status⟩
    · exact stays
    · omega
    · exact absurd given open_
    · have apart := (identified.closing s at_s status).2 p old
      exact absurd (congrArg Label.fd label).symm apart
  · obtain ⟨⟨carried, proper⟩, -⟩ := fresh _ new
    exact ⟨proper, carried⟩

theorem Identified.unique_after (identified : Identified (m, opened))
    (change : Change m e ret m') (fresh : HandedFresh m e ret m')
    (member : p ∈ noteOpen m e ret m' opened) {q : Label} (at_q : q ∈ m'.world.labels)
    (same : q.fd = p.fd) : q = p := by
  have nonneg : 0 ≤ p.fd := (identified.carried_after change fresh member).1
  rcases change.labels_after at_q with before | none_ | handed
  · rcases mem_noteOpen member with ⟨old, -⟩ | new
    · exact identified.unique p old q before same
    · exact absurd same ((fresh _ new).2 q before)
  · omega
  · rcases mem_noteOpen member with ⟨old, -⟩ | new
    · have apart := (fresh _ handed).2 p (identified.carried p old)
      exact absurd same.symm apart
    · exact Option.some.inj (handed.symm.trans new)

/-- The descriptors open now differ from the one of a stream that stays in LAST_ACK. -/
theorem Identified.closing_stays (identified : Identified (m, opened))
    (fresh : HandedFresh m e ret m') {s : Stream} (old : s ∈ m.world.tcbSet)
    (waiting : s.status = .lastAck) :
    0 ≤ s.fd ∧ ∀ p ∈ noteOpen m e ret m' opened, p.fd ≠ s.fd := by
  obtain ⟨nonneg, apart⟩ := identified.closing s old waiting
  refine ⟨nonneg, fun p member => ?_⟩
  rcases mem_noteOpen member with ⟨at_p, -⟩ | new
  · exact apart p at_p
  · exact Ne.symm ((fresh _ new).2 _ (stream_mem_labels old))

theorem Identified.closing_after (identified : Identified (m, opened))
    (change : Change m e ret m') (fresh : HandedFresh m e ret m') {t : Stream}
    (member : t ∈ m'.world.tcbSet) (status : t.status = .lastAck) :
    0 ≤ t.fd ∧ ∀ p ∈ noteOpen m e ret m' opened, p.fd ≠ t.fd := by
  rcases change.after member with old | ⟨s, old, evolves⟩ | born
  · exact identified.closing_stays fresh old status
  · obtain ⟨-, waiting | ⟨fd, rfl, named⟩⟩ := evolves.of_lastAck status
    · obtain ⟨nonneg, apart⟩ := identified.closing_stays fresh old waiting
      rcases evolves.fd with same | none_
      · rw [same]
        exact ⟨nonneg, apart⟩
      · omega
    · -- `nclose` has just given the descriptor back
      cases evolves with
      | closes named' listens granted ring fragment nonneg =>
          have carries := named_fd named
          refine ⟨by dsimp only; omega, fun p member same => ?_⟩
          rcases mem_noteOpen member with ⟨-, open_⟩ | new
          · exact open_ (congrArg some (same.trans carries).symm)
          · cases new
  · exact absurd status born.ne_lastAck

end Change

theorem Identified.step (identified : Identified d) (fresh : HandsFresh d e)
    (ran : Machine.recorded noteOpen d e = .ok d') : Identified d' := by
  obtain ⟨ret, acted, record⟩ := Machine.recorded_ok ran
  have change := Machine.act_change acted
  have fresh := handed_fresh acted fresh
  constructor
  · exact identified.numbered.act acted
  · intro p member
    exact (identified.carried_after change fresh (record ▸ member)).1
  · intro p member
    exact (identified.carried_after change fresh (record ▸ member)).2
  · intro p member q at_q same
    exact identified.unique_after change fresh (record ▸ member) at_q same
  · intro t member status
    rw [record]
    exact identified.closing_after change fresh member status

end Steps

theorem eq_singleton_of_nodup {α : Type} {entries : List α} {entry : α} (nodup : entries.Nodup)
    (member : entry ∈ entries) (only : ∀ other ∈ entries, other = entry) : entries = [entry] :=
  List.perm_singleton.mp ((List.perm_ext_iff_of_nodup nodup (List.nodup_singleton entry)).mpr
    fun other => ⟨fun at_other => List.mem_singleton.mpr (only other at_other),
      fun at_other => List.mem_singleton.mp at_other ▸ member⟩)

/-- The kind and the number of an entry are those of no other. -/
theorem Numbered.nodup_kinds {m : Machine} (numbered : Numbered m) :
    (m.world.entries.map fun entry => (entry.label.stream, entry.label.addr)).Nodup := by
  have streams : (m.world.tcbSet.map fun s => (true, s.addr)).Nodup := by
    apply List.Nodup.of_map Prod.snd
    rw [List.map_map]
    exact numbered.streams.nodup
  have hosts : (m.world.lhost.map fun h => (false, h.addr)).Nodup := by
    apply List.Nodup.of_map Prod.snd
    rw [List.map_map]
    exact numbered.hosts.nodup
  rw [World.entries, List.map_append, List.map_map, List.map_map]
  refine List.nodup_append.mpr ⟨hosts, streams, fun p at_p q at_q same => ?_⟩
  obtain ⟨h, -, rfl⟩ := List.mem_map.mp at_p
  obtain ⟨s, -, rfl⟩ := List.mem_map.mp at_q
  cases congrArg Prod.fst same

theorem Numbered.nodup_labels {m : Machine} (numbered : Numbered m) :
    (m.world.entries.map Entry.label).Nodup := by
  apply List.Nodup.of_map fun label => (label.stream, label.addr)
  rw [List.map_map]
  exact numbered.nodup_kinds

/-- In every state that a run reaches in which descriptors are handed out fresh, each
open descriptor is carried by exactly one entry, the one it was handed out for, and the
lookup finds that entry. -/
theorem descriptors_identify (A : Allocator) (events : List Event)
    (fresh : Along (Machine.recorded noteOpen) HandsFresh (⟨World.empty, A⟩, []) events)
    (d : Machine × List Label)
    (ran : runs (Machine.recorded noteOpen) (⟨World.empty, A⟩, []) events = .ok d) :
    ∀ p ∈ d.2, 0 ≤ p.fd ∧ ∃ entry, entry.label = p ∧
      d.1.world.entries.filter (fun other => p.fd = other.fd) = [entry] ∧
      getHostinfoFromfd d.1.world p.fd = some entry := by
  have start : Identified (⟨World.empty, A⟩, []) :=
    ⟨.empty A, fun _ member => absurd member List.not_mem_nil,
      fun _ member => absurd member List.not_mem_nil,
      fun _ member => absurd member List.not_mem_nil,
      fun _ member => absurd member List.not_mem_nil⟩
  have identified := fresh.invariant Identified start
    (fun _ _ _ identified meets stepped => identified.step meets stepped) ran
  intro p member
  obtain ⟨entry, at_entry, rfl⟩ := List.mem_map.mp (identified.carried p member)
  have nodup := identified.numbered.nodup_labels
  have fd (other : Entry) : other.fd = other.label.fd := by cases other <;> rfl
  have single : d.1.world.entries.filter (fun other => entry.label.fd = other.fd) = [entry] := by
    refine eq_singleton_of_nodup ((nodup.of_map _).filter _) ?_ fun other at_other => ?_
    · exact List.mem_filter.mpr ⟨at_entry, by simp [fd]⟩
    · obtain ⟨at_other, same⟩ := List.mem_filter.mp at_other
      have label := identified.unique _ member _ (List.mem_map_of_mem at_other)
        (by simpa [fd, eq_comm] using same)
      exact List.inj_on_of_nodup_map nodup at_other at_entry label
  refine ⟨identified.proper _ member, entry, rfl, single, ?_⟩
  rw [getHostinfoFromfd_eq_find?, ← List.head?_filter, single]
  rfl

/-- A TCP socket and a UDP socket. -/
theorem descriptors_identify_two : ∃ d,
    runs (Machine.recorded noteOpen) (⟨World.empty, .plentiful⟩, []) [.socket .stream,
      .socket .dgram] = .ok d ∧ d.2 = [⟨4, false, 4⟩, ⟨3, true, 1⟩] ∧
    ∀ p ∈ d.2, 0 ≤ p.fd ∧ ∃ entry, entry.label = p ∧
      d.1.world.entries.filter (fun other => p.fd = other.fd) = [entry] ∧
      getHostinfoFromfd d.1.world p.fd = some entry := by
  refine ⟨_, rfl, rfl, ?_⟩
  refine descriptors_identify .plentiful [.socket .stream, .socket .dgram] ?_ _ rfl
  refine .cons (fun _ _ _ => ⟨nofun, fun entry member => absurd member List.not_mem_nil⟩) rfl ?_
  refine ⟨fun _ fd free => ⟨nofun, fun entry member => ?_⟩, fun _ _ => trivial⟩
  cases free
  rcases List.mem_cons.mp member with rfl | member
  · decide
  · exact absurd member List.not_mem_nil

/-- The connection 4 is closed; before its last ACK a UDP socket gets the same number. -/
theorem descriptor_shared : ∃ d,
    runs (Machine.recorded noteOpen) (⟨World.empty, .plentiful⟩, []) [.socket .stream, .bind 3 3 4,
      .listen 3, .segment 99 (sampleSegment 9 0x02 []), .segment 0 (sampleSegment 10 0x10 []),
      .accept 3, .close 4, .socket .dgram] = .ok d ∧
    ∃ p ∈ d.2, p.fd = 4 ∧ (d.1.world.entries.filter fun other => p.fd = other.fd).length = 2 ∧
      ¬ ∃ entry, d.1.world.entries.filter (fun other => p.fd = other.fd) = [entry] := by
  refine ⟨_, rfl, _, List.mem_cons_self, rfl, rfl, ?_⟩
  rintro ⟨entry, one⟩
  cases congrArg List.length one

end LinuxCpp.Ustack
