import Mathlib.Data.List.Perm.Subperm
import LinuxCpp.Mysql.Accounting
import LinuxCpp.Trace.Balance

set_option autoImplicit false

/- The end of the connection pool: what is freed and closed, over all that the threads have
done before. -/
namespace LinuxCpp.Mysql

open C Linked Trace
open scoped List

/-- The two lists that `close_connection_pool` empties. -/
inductive ListHead where
  | freeList
  | usedList
deriving DecidableEq, Repr

namespace Pool

def head (pool : Pool) : ListHead → Option Nat
  | .freeList => pool.freeList
  | .usedList => pool.usedList

def setHead (pool : Pool) (list : ListHead) (p : Option Nat) : Pool :=
  match list with
  | .freeList => { pool with freeList := p }
  | .usedList => { pool with usedList := p }

end Pool

/-- A loop of `close_connection_pool`. -/
def closeList (list : ListHead) : Nat → Pool → Except Fault Pool
  | 0, _ => .error .fuel
  | fuel + 1, pool =>
      match pool.head list with
      | none => .ok pool
      | some conn => do
          let value ← pool.deref conn
          closeList list fuel (((pool.setHead list value.next).mysqlClose value.mysql).free conn)

def closeConnectionPool (pool : Pool) : Except Fault Pool := do
  let pool ← closeList .freeList (maxPoolSize + 1) pool
  let pool ← closeList .usedList (maxPoolSize + 1) pool
  return { pool with totalConnections := 0 }

/-- The handle of a connection that could not be opened again: its node is freed. -/
def loses (pool : Pool) : Event → List Nat
  | .get _ out =>
      match pool.freeList with
      | some _ => if out.alive = true ∨ out.connected = true then [] else out.init.toList
      | none => []
  | .answer _ _ => []
  | .release _ _ _ => []

/-- These are the blocks in use, and as many as `total_connections`. -/
structure Stock (pool : Pool) (nodes : List Nat) : Prop where
  once : nodes.Nodup
  live : ∀ conn, conn ∈ nodes ↔ pool.heap conn ≠ none
  total : pool.totalConnections = nodes.length

section Stock

variable {pool pool' : Pool} {conn mysql : Nat} {value : DbConnection} {out : Outcome}
  {nodes : List Nat}

theorem live_of_deref (dereffed : pool.deref conn = .ok value) : pool.heap conn = some value := by
  unfold Pool.deref at dereffed
  split at dereffed
  · cases dereffed
  · rename_i live
    cases dereffed
    exact live

/-- A node of the stock is written to. -/
theorem Stock.setConn (stock : Stock pool nodes) (member : conn ∈ nodes)
    (heap : pool'.heap = (pool.setConn conn value).heap)
    (total : pool'.totalConnections = pool.totalConnections) : Stock pool' nodes := by
  refine ⟨stock.once, fun other => ?_, total.trans stock.total⟩
  rw [heap]
  by_cases same : other = conn
  · subst same
    simp [Pool.setConn, member]
  · rw [stock.live]
    show _ ↔ Function.update pool.heap conn (some value) other ≠ none
    rw [Function.update_of_ne same]

theorem Stock.free (stock : Stock pool nodes) (member : conn ∈ nodes)
    (heap : pool'.heap = (pool.free conn).heap)
    (total : pool'.totalConnections = pool.totalConnections - 1) :
    Stock pool' (nodes.erase conn) := by
  refine ⟨stock.once.erase conn, fun other => ?_, ?_⟩
  · rw [stock.once.mem_erase_iff, stock.live, heap]
    show _ ↔ Function.update pool.heap conn none other ≠ none
    by_cases same : other = conn
    · subst same
      simp
    · rw [Function.update_of_ne same]
      exact and_iff_right same
  · have size := List.length_erase_of_mem member
    have some_ := List.length_pos_of_mem member
    rw [total, stock.total, size]
    omega

theorem Stock.create (stock : Stock pool nodes) (new : pool.heap conn = none)
    (heap : pool'.heap = (pool.setConn conn value).heap)
    (total : pool'.totalConnections = pool.totalConnections + 1) :
    Stock pool' (conn :: nodes) := by
  have outside : conn ∉ nodes := fun member => (stock.live conn).mp member new
  refine ⟨List.nodup_cons.mpr ⟨outside, stock.once⟩, fun other => ?_, ?_⟩
  · rw [List.mem_cons, stock.live, heap]
    show _ ↔ Function.update pool.heap conn (some value) other ≠ none
    by_cases same : other = conn
    · subst same
      simp
    · rw [Function.update_of_ne same]
      exact or_iff_right same
  · rw [total, stock.total]
    rfl

theorem handle_eq (heap : pool'.heap = pool.heap) : pool'.handle = pool.handle := by
  funext other
  rw [Pool.handle, Pool.handle, heap]

theorem handle_same (heap : pool'.heap = (pool.setConn conn value).heap)
    (same : value.mysql = pool.handle conn) : pool'.handle = pool.handle := by
  rw [handle_eq heap, handle_setConn, same, Function.update_eq_self]

theorem Stock.rehandle {old new : Nat} (stock : Stock pool nodes) (member : conn ∈ nodes)
    (isOld : pool.handle conn = some old) (isNew : value.mysql = some new)
    (heap : pool'.heap = (pool.setConn conn value).heap) :
    new :: nodes.filterMap pool.handle ~ old :: nodes.filterMap pool'.handle := by
  have handle := (handle_eq heap).trans (handle_setConn pool conn value)
  have named : pool'.handle conn = some new := by rw [handle, Function.update_self, isNew]
  have before := filterMap_split stock.once member fun other _ => Eq.refl (pool.handle other)
  have after : nodes.filterMap pool'.handle ~
      (pool'.handle conn).toList ++ (nodes.erase conn).filterMap pool.handle :=
    filterMap_split stock.once member fun other differs => by
      rw [handle, Function.update_of_ne differs]
  rw [isOld] at before
  rw [named] at after
  exact ((before.cons new).trans (.swap ..)).trans (after.symm.cons old)

theorem Stock.unhandle {old : Nat} (stock : Stock pool nodes) (member : conn ∈ nodes)
    (isOld : pool.handle conn = some old) (heap : pool'.heap = (pool.free conn).heap) :
    nodes.filterMap pool.handle ~ old :: (nodes.erase conn).filterMap pool'.handle := by
  have handle := (handle_eq heap).trans (handle_free pool conn)
  have apart : nodes.filterMap pool.handle ~
      (pool.handle conn).toList ++ (nodes.erase conn).filterMap pool'.handle :=
    filterMap_split stock.once member fun other differs => by
      rw [handle, Function.update_of_ne differs]
  rwa [isOld] at apart

theorem Stock.newHandle {new : Nat} (stock : Stock pool nodes) (dead : pool.heap conn = none)
    (isNew : value.mysql = some new) (heap : pool'.heap = (pool.setConn conn value).heap) :
    (conn :: nodes).filterMap pool'.handle = new :: nodes.filterMap pool.handle := by
  have handle := (handle_eq heap).trans (handle_setConn pool conn value)
  have named : pool'.handle conn = some new := by rw [handle, Function.update_self, isNew]
  rw [List.filterMap_cons_some named]
  refine congrArg (new :: ·) (List.filterMap_congr fun other member => ?_)
  have differs : other ≠ conn := by
    rintro rfl
    exact (stock.live other).mp member dead
  rw [handle, Function.update_of_ne differs]

/-- The search of `release_connection_to_pool` changes a `next` pointer at most. -/
theorem findConn_keeps {pp : Slot} {fuel : Nat} {found : Option Nat}
    (ran : findConn mysql fuel pool pp = .ok (found, pool')) :
    pool'.handle = pool.handle ∧ (∀ other, pool'.heap other = none ↔ pool.heap other = none) ∧
      pool'.totalConnections = pool.totalConnections ∧
      (pool'.given = pool.given ∧ pool'.closed = pool.closed) ∧
      ∀ conn, found = some conn → pool.handle conn = some mysql := by
  induction fuel generalizing pp with
  | zero => cases ran
  | succ fuel ih =>
      simp only [findConn] at ran
      obtain ⟨p, -, ran⟩ := ok_of_bind ran
      cases p with
      | none =>
          cases ran
          exact ⟨rfl, fun _ => Iff.rfl, rfl, ⟨rfl, rfl⟩, fun _ isSome => by cases isSome⟩
      | some conn =>
          obtain ⟨value, dereffed, ran⟩ := ok_of_bind ran
          have live := live_of_deref dereffed
          split at ran
          · rename_i isMysql
            obtain ⟨written, wrote, returned⟩ := ok_of_bind ran
            cases returned
            have isHandle : pool.handle conn = some mysql := by
              rw [Pool.handle, live]
              exact isMysql
            have named : ∀ other, some conn = some other → pool.handle other = some mysql := by
              rintro other ⟨⟩
              exact isHandle
            cases pp with
            | usedList =>
                cases wrote
                exact ⟨rfl, fun _ => Iff.rfl, rfl, ⟨rfl, rfl⟩, named⟩
            | next before =>
                obtain ⟨w, dereffed, returned⟩ := ok_of_bind wrote
                cases returned
                have isLive := live_of_deref dereffed
                refine ⟨?_, fun other => ?_, rfl, ⟨rfl, rfl⟩, named⟩
                · have same : w.mysql = pool.handle before := by
                    rw [Pool.handle, isLive]
                    rfl
                  rw [handle_setConn]
                  show Function.update pool.handle before w.mysql = pool.handle
                  rw [same, Function.update_eq_self]
                · show Function.update pool.heap before _ other = none ↔ _
                  by_cases same : other = before
                  · subst same
                    simp [isLive]
                  · rw [Function.update_of_ne same]
          · exact ih ran

end Stock

section Steps

variable {pool pool' : Pool} {thread conn : Nat} {out : Outcome} {free used nodes : List Nat}

/-- What `mysql_init` gave is closed, lost or stands in a node. -/
def Balanced (pool : Pool) (nodes lost : List Nat) : Prop :=
  pool.given ~ pool.closed ++ lost ++ nodes.filterMap pool.handle

/-- A section leaves these nodes, and has opened and closed these handles. -/
structure Settles (pool pool' : Pool) (nodes lost nodes' opened gone : List Nat) : Prop where
  stock : Stock pool' nodes'
  given : pool'.given = pool.given ++ opened
  closed : pool'.closed = pool.closed ++ gone
  moved : opened ++ nodes.filterMap pool.handle ~ gone ++ lost ++ nodes'.filterMap pool'.handle

theorem Settles.balanced {lost before nodes' opened gone : List Nat}
    (settles : Settles pool pool' nodes lost nodes' opened gone)
    (balanced : Balanced pool nodes before) : Balanced pool' nodes' (before ++ lost) := by
  have moved := settles.moved
  unfold Balanced at balanced ⊢
  rw [settles.given, settles.closed]
  rw [List.perm_iff_count] at balanced moved ⊢
  intro handle
  have one := balanced handle
  have other := moved handle
  simp only [List.count_append] at one other ⊢
  omega

theorem Stock.get_first (stock : Stock pool nodes) (holds : Accounts pool (conn :: free) used)
    (fresh : Fresh pool (pool.closes out) out)
    (ran : getConnectionFromPool pool thread out = .ok pool') :
    ∃ nodes' opened gone,
      Settles pool pool' nodes (loses pool (.get thread out)) nodes' opened gone := by
  have head : pool.freeList = some conn := holds.freeChain.1
  obtain ⟨value, mysql, live, isMysql⟩ := holds.live
    (show conn ∈ conn :: free ++ used from List.mem_cons_self)
  have member : conn ∈ nodes := (stock.live conn).mpr (by rw [live]; exact Option.some_ne_none _)
  have handle : pool.handle conn = some mysql := by simp [Pool.handle, live, isMysql]
  simp only [loses, head]
  cases alive : out.alive with
  | true =>
      cases ran.symm.trans (get_reuses head live alive)
      refine ⟨nodes, [], [], stock.setConn member rfl rfl, (List.append_nil _).symm,
        (List.append_nil _).symm, ?_⟩
      have same : (pool.taken thread conn value value.mysql).handle = pool.handle :=
        handle_same rfl (isMysql.trans handle.symm)
      rw [same]
      exact .refl _
  | false =>
      have closing : pool.closes out = some conn := by simp [Pool.closes, alive, head]
      obtain ⟨reopened, opened⟩ := Option.ne_none_iff_exists'.mp
        (fresh.reopened (by simp [closing]))
      cases connected : out.connected with
      | true =>
          cases ran.symm.trans (get_reconnects head live alive opened connected)
          refine ⟨nodes, [reopened], [mysql], stock.setConn member rfl rfl, rfl, ?_, ?_⟩
          · show pool.closed ++ value.mysql.toList = _
            rw [isMysql]
            rfl
          · exact stock.rehandle member handle rfl rfl
      | false =>
          cases ran.symm.trans (get_gives_up head live alive opened connected)
          refine ⟨nodes.erase conn, [reopened], [mysql], stock.free member rfl rfl, rfl, ?_, ?_⟩
          · show pool.closed ++ value.mysql.toList = _
            rw [isMysql]
            rfl
          · simp only [opened, Bool.false_eq_true, ↓reduceIte, or_self]
            exact ((stock.unhandle member handle rfl).cons reopened).trans (.swap ..)

/-- A connection that is not opened is closed, and nothing else changes. -/
theorem Stock.refused (stock : Stock pool nodes) (out : Outcome) :
    Settles pool (pool.refused out) nodes [] nodes out.made.toList out.made.toList :=
  ⟨⟨stock.once, stock.live, stock.total⟩, rfl, rfl, by rw [List.append_nil]; exact .refl _⟩

theorem Stock.get_new (stock : Stock pool nodes) (holds : Accounts pool [] used)
    (fresh : Fresh pool (pool.closes out) out)
    (ran : getConnectionFromPool pool thread out = .ok pool') :
    ∃ nodes' opened gone,
      Settles pool pool' nodes (loses pool (.get thread out)) nodes' opened gone := by
  have empty : pool.freeList = none := holds.freeChain
  simp only [loses, empty]
  by_cases room : pool.totalConnections < maxPoolSize
  · rcases createDbConnection_cases fresh.block with refused | ⟨conn, mysql, block, init, ok, -⟩
    · cases ran.symm.trans (get_waits empty room refused)
      exact ⟨nodes, _, _, stock.refused out⟩
    · cases ran.symm.trans (get_creates empty room block init ok)
      have dead := fresh.block conn block
      refine ⟨conn :: nodes, [mysql], [], stock.create dead rfl rfl, rfl,
        (List.append_nil _).symm, ?_⟩
      exact .of_eq (stock.newHandle dead rfl rfl).symm
  · cases ran.symm.trans (get_full empty room)
    exact ⟨nodes, [], [], stock, (List.append_nil _).symm, (List.append_nil _).symm, .refl _⟩

theorem Stock.release {mysql : Nat} (stock : Stock pool nodes) (holds : Accounts pool free used)
    (isHeld : (thread, mysql) ∈ pool.held)
    (ran : releaseConnectionToPool pool thread (some mysql) out = .ok pool') :
    ∃ nodes' gone, Settles pool pool' nodes [] nodes' [] gone := by
  obtain ⟨conn, rest, mid, value, found, live, -⟩ := holds.found isHeld
  obtain ⟨handle, alike, total, ⟨given, closed⟩, named⟩ := findConn_keeps found
  have isHandle : mid.handle conn = some mysql := by
    rw [handle]
    exact named conn rfl
  have isMysql : value.mysql = some mysql := by
    rwa [Pool.handle, live] at isHandle
  have stock' : Stock mid nodes := by
    refine ⟨stock.once, fun other => ?_, total.trans stock.total⟩
    rw [stock.live, not_iff_not]
    exact (alike other).symm
  have member : conn ∈ nodes := (stock'.live conn).mpr (by rw [live]; exact Option.some_ne_none _)
  have before : nodes.filterMap pool.handle = nodes.filterMap mid.handle := by
    rw [handle]
    rfl
  simp only [releaseConnectionToPool] at ran
  rw [found] at ran
  cases alive : out.alive with
  | true =>
      simp only [ok_bind, alive, Bool.true_eq_false, ↓reduceIte, Pool.modify, Pool.deref, live,
        Pool.setConn, Function.update_self, Function.update_idem, pure_bind] at ran
      cases ran
      refine ⟨nodes, [], stock'.setConn member rfl rfl, ?_, ?_, ?_⟩
      · exact given.trans (List.append_nil _).symm
      · exact closed.trans (List.append_nil _).symm
      · rw [before]
        refine .of_eq (congrArg (fun label => nodes.filterMap label) (handle_same rfl ?_).symm)
        exact isMysql.trans isHandle.symm
  | false =>
      simp only [ok_bind, alive, ↓reduceIte, deref_ok live] at ran
      cases ran
      refine ⟨nodes.erase conn, [mysql], stock'.free member rfl rfl, ?_, ?_, ?_⟩
      · exact given.trans (List.append_nil _).symm
      · show mid.closed ++ value.mysql.toList = _
        rw [closed, isMysql]
        rfl
      · rw [before]
        exact stock'.unhandle member isHandle rfl

/-- Live nodes and open handles, and what is left of them by a section. -/
theorem Stock.step {event : Event} (stock : Stock pool nodes) (holds : Accounts pool free used)
    (fits : Fits pool event) (ran : step pool event = .ok pool') :
    ∃ nodes' opened gone, Settles pool pool' nodes (loses pool event) nodes' opened gone := by
  have rests (same : Stock pool' nodes) (given : pool'.given = pool.given)
      (closed : pool'.closed = pool.closed) (handle : pool'.handle = pool.handle) :
      Settles pool pool' nodes [] nodes [] [] :=
    ⟨same, given.trans (List.append_nil _).symm, closed.trans (List.append_nil _).symm,
      by rw [handle]; exact .refl _⟩
  cases event with
  | get thread out =>
      cases free with
      | nil => exact stock.get_new holds fits ran
      | cons conn free => exact stock.get_first holds fits ran
  | answer thread conn =>
      simp only [Mysql.step] at ran
      split at ran
      · obtain ⟨value, -, ran⟩ := ok_of_bind ran
        split at ran
        · cases ran
          exact ⟨nodes, [], [], rests ⟨stock.once, stock.live, stock.total⟩ rfl rfl rfl⟩
        · cases ran
          exact ⟨nodes, [], [], rests ⟨stock.once, stock.live, stock.total⟩ rfl rfl rfl⟩
      · cases ran
        exact ⟨nodes, [], [], rests stock rfl rfl rfl⟩
  | release thread mysql out =>
      cases mysql with
      | none =>
          cases ran
          exact ⟨nodes, [], [], rests stock rfl rfl rfl⟩
      | some mysql =>
          obtain ⟨nodes', gone, settles⟩ := stock.release holds (fits mysql rfl) ran
          exact ⟨nodes', [], gone, settles⟩

theorem Stock.openInitial (stock : Stock pool nodes) (fresh : Fresh pool none out) :
    ∃ pool' nodes' opened gone, openInitial pool out = .ok pool' ∧
      Settles pool pool' nodes [] nodes' opened gone := by
  rcases openInitial_cases fresh.block with refused | ⟨conn, mysql, block, init, ok, created⟩
  · exact ⟨_, nodes, _, _, refused, stock.refused out⟩
  · have dead := fresh.block conn block
    refine ⟨_, conn :: nodes, [mysql], [], created, stock.create dead rfl rfl, rfl,
      (List.append_nil _).symm, ?_⟩
    exact .of_eq (stock.newHandle dead rfl rfl).symm

end Steps

section Runs

variable {pool last : Pool} {free used nodes lost : List Nat}

/-- The books are right after `init_connection_pool`. -/
theorem Balanced.initial {outs : List Outcome} (stock : Stock pool nodes)
    (balanced : Balanced pool nodes [])
    (fresh : Along openInitial (fun pool out => Fresh pool none out) pool outs)
    (ran : runs openInitial pool outs = .ok last) :
    ∃ nodes', Stock last nodes' ∧ Balanced last nodes' [] := by
  induction outs generalizing pool nodes with
  | nil =>
      cases ran
      exact ⟨nodes, stock, balanced⟩
  | cons out rest ih =>
      obtain ⟨pool', nodes', opened, gone, stepped, settles⟩ := stock.openInitial fresh.1
      rw [runs_cons stepped] at ran
      exact ih settles.stock (settles.balanced balanced) (fresh.2 pool' stepped) ran

/-- The books stay right, whatever the threads do. -/
theorem Balanced.runs {events : List Event} (holds : Accounts pool free used)
    (stock : Stock pool nodes) (balanced : Balanced pool nodes lost)
    (fits : Along step Fits pool events) :
    ∃ last free' used' nodes', Trace.runs step pool events = .ok last ∧
      Accounts last free' used' ∧ Stock last nodes' ∧
      Balanced last nodes' (lost ++ outputs step loses pool events) := by
  induction events generalizing pool free used nodes lost with
  | nil =>
      refine ⟨pool, free, used, nodes, rfl, holds, stock, ?_⟩
      rwa [outputs, List.append_nil]
  | cons event later ih =>
      obtain ⟨next, stepped, free', used', holds'⟩ := holds.step fits.1
      obtain ⟨nodes', opened, gone, settles⟩ := stock.step holds fits.1 stepped
      rw [runs_cons stepped, outputs_cons _ stepped, ← List.append_assoc]
      exact ih holds' settles.stock (settles.balanced balanced) (fits.2 next stepped)

end Runs

section Closing

variable {pool : Pool} {nodes : List Nat} {fuel : Nat}

/-- What `close_connection_pool` leaves of one list. -/
structure Closed (list : ListHead) (nodes : List Nat) (pool pool' : Pool) : Prop where
  heap : ∀ conn, pool'.heap conn = if conn ∈ nodes then none else pool.heap conn
  head : ∀ other, pool'.head other = if other = list then none else pool.head other
  pending : pool'.pending = pool.pending
  given : pool'.given = pool.given
  closed : pool'.closed = pool.closed ++ nodes.filterMap pool.handle

theorem closeList_closes {list : ListHead} (chain : Chain pool.links (pool.head list) nodes)
    (enough : nodes.length < fuel) :
    ∃ pool', closeList list fuel pool = .ok pool' ∧ Closed list nodes pool pool' := by
  induction nodes generalizing pool fuel with
  | nil =>
      obtain ⟨fuel, rfl⟩ := Nat.exists_eq_succ_of_ne_zero (Nat.ne_of_gt enough)
      have empty : pool.head list = none := chain
      refine ⟨pool, by rw [closeList, empty], fun _ => rfl, fun other => ?_, rfl, rfl,
        (List.append_nil _).symm⟩
      split
      · rename_i same
        rw [same, empty]
      · rfl
  | cons conn rest ih =>
      obtain ⟨fuel, rfl⟩ := Nat.exists_eq_succ_of_ne_zero (Nat.ne_of_gt (Nat.zero_lt_of_lt enough))
      have apart := (List.nodup_cons.mp chain.nodup).1
      obtain ⟨head, next, linked, chain⟩ := chain
      obtain ⟨value, live, rfl⟩ := Option.map_eq_some_iff.mp linked
      let mid := ((pool.setHead list value.next).mysqlClose value.mysql).free conn
      have heads : ∀ other, mid.head other = if other = list then value.next
          else pool.head other := by
        intro other
        cases list <;> cases other <;> rfl
      have heap : mid.heap = Function.update pool.heap conn none := by
        cases list <;> rfl
      have links : mid.links = Function.update pool.links conn none := by
        have same : ((pool.setHead list value.next).mysqlClose value.mysql).links =
            pool.links := by cases list <;> rfl
        rw [links_free, same]
      have handles : mid.handle = Function.update pool.handle conn none := by
        have same : ((pool.setHead list value.next).mysqlClose value.mysql).handle =
            pool.handle := by cases list <;> rfl
        rw [handle_free, same]
      have behind : Chain mid.links (mid.head list) rest := by
        rw [links, (heads list).trans (if_pos rfl)]
        exact chain.update apart none
      obtain ⟨pool', ran, closed⟩ := ih behind (Nat.lt_of_succ_lt_succ enough)
      refine ⟨pool', ?_, fun other => ?_, fun other => ?_, ?_, ?_, ?_⟩
      · rw [closeList, head]
        simp only
        rw [deref_ok live, ok_bind]
        exact ran
      · rw [closed.heap, heap]
        by_cases same : other = conn
        · subst same
          simp
        · rw [Function.update_of_ne same]
          simp [same]
      · rw [closed.head, heads]
        split <;> rfl
      · rw [closed.pending]
        cases list <;> rfl
      · rw [closed.given]
        cases list <;> rfl
      · have first : pool.handle conn = value.mysql := by simp [Pool.handle, live]
        have others : rest.filterMap mid.handle = rest.filterMap pool.handle := by
          refine List.filterMap_congr fun other member => ?_
          have differs : other ≠ conn := by
            rintro rfl
            exact apart member
          rw [handles, Function.update_of_ne differs]
        have now : mid.closed = pool.closed ++ value.mysql.toList := by cases list <;> rfl
        rw [closed.closed, now, others, List.append_assoc, List.filterMap_cons, first]
        cases value.mysql <;> rfl

/-- `close_connection_pool` frees every node and closes every handle. -/
theorem closeConnectionPool_closes {free used : List Nat} (holds : Accounts pool free used)
    (stock : Stock pool nodes) : ∃ pool' now,
    closeConnectionPool pool = .ok pool' ∧ pool'.heap = (fun _ => none) ∧
      pool'.freeList = none ∧ pool'.usedList = none ∧ pool'.totalConnections = 0 ∧
      pool'.pending = pool.pending ∧ pool'.given = pool.given ∧
      pool'.closed = pool.closed ++ now ∧ nodes.filterMap pool.handle ~ now := by
  have bounded := holds.bounded
  have apart := (List.nodup_append.mp holds.lending.apart).2.2
  rw [List.length_append] at bounded
  obtain ⟨mid, first, freed⟩ := closeList_closes
    (show Chain pool.links (pool.head .freeList) free from holds.freeChain)
    (show free.length < maxPoolSize + 1 by omega)
  have kept : ∀ conn ∈ used, mid.heap conn = pool.heap conn := by
    intro conn member
    rw [freed.heap, if_neg fun other => apart conn other conn member rfl]
  have chain : Chain mid.links (mid.head .usedList) used := by
    rw [freed.head, if_neg ListHead.noConfusion]
    refine Segment.congr holds.usedChain fun conn member => ?_
    rw [Pool.links, kept conn member]
    rfl
  obtain ⟨last, second, closed⟩ := closeList_closes chain
    (show used.length < maxPoolSize + 1 by omega)
  have handles : used.filterMap mid.handle = used.filterMap pool.handle := by
    refine List.filterMap_congr fun conn member => ?_
    rw [Pool.handle, kept conn member]
    rfl
  have all : nodes ~ free ++ used := by
    have inside : nodes.length = (free ++ used).length := by
      have counted := stock.total.symm.trans holds.total
      exact Int.ofNat.inj counted
    refine ((holds.lending.apart.subperm fun conn member => ?_).perm_of_length_le
      (Nat.le_of_eq inside)).symm
    obtain ⟨value, -, live, -⟩ := holds.live member
    refine (stock.live conn).mpr ?_
    rw [live]
    exact Option.some_ne_none _
  refine ⟨{ last with totalConnections := 0 }, (free ++ used).filterMap pool.handle, ?_, ?_, ?_,
    ?_, rfl, ?_, ?_, ?_, all.filterMap _⟩
  · rw [closeConnectionPool, first, ok_bind, second]
    rfl
  · funext conn
    show last.heap conn = none
    rw [closed.heap, freed.heap]
    by_cases member : conn ∈ nodes
    · rcases List.mem_append.mp (all.mem_iff.mp member) with isFree | isUsed
      · rw [if_pos isFree]
        exact ite_self _
      · rw [if_pos isUsed]
    · have dead : pool.heap conn = none := Decidable.of_not_not fun live =>
        member ((stock.live conn).mpr live)
      rw [dead]
      split
      · rfl
      · exact ite_self _
  · have empty := closed.head .freeList
    rw [if_neg ListHead.noConfusion, freed.head, if_pos rfl] at empty
    exact empty
  · exact (closed.head .usedList).trans (if_pos rfl)
  · exact closed.pending.trans freed.pending
  · exact closed.given.trans freed.given
  · show last.closed = _
    rw [closed.closed, freed.closed, handles, List.append_assoc, List.filterMap_append]

/-- What a thread holds is the handle of a node. -/
theorem Stock.held {free used : List Nat} {entry : Nat × Nat} (stock : Stock pool nodes)
    (holds : Accounts pool free used) (isHeld : entry ∈ pool.held) :
    entry.2 ∈ nodes.filterMap pool.handle := by
  obtain ⟨conn, member, isHandle⟩ := holds.lending.owner
    (List.mem_append_left _ (List.mem_map_of_mem (f := fun entry => some entry.2) isHeld))
  obtain ⟨value, -, live, -⟩ := holds.live (List.mem_append_right free member)
  have isNode : conn ∈ nodes := (stock.live conn).mpr (by
    rw [live]
    exact Option.some_ne_none _)
  exact List.mem_filterMap.mpr ⟨conn, isNode, isHandle⟩

end Closing

/-- After any sections of the threads, `close_connection_pool` frees every node. What `mysql_init`
has given since the start is closed once, but for the handles of connections that could not be
opened again. A handle that a thread has got is closed under it, and a thread that has not read
its handle yet reads freed memory. -/
theorem pool_closed (outs : List Outcome) (rounds : outs.length = minPoolSize)
    (fresh : Along openInitial (fun pool out => Fresh pool none out) emptyPool outs)
    (events : List Event)
    (fits : ∀ start, runs openInitial emptyPool outs = .ok start → Along step Fits start events) :
    ∃ start pool pool' now, runs openInitial emptyPool outs = .ok start ∧
      runs step start events = .ok pool ∧ closeConnectionPool pool = .ok pool' ∧
      pool'.heap = (fun _ => none) ∧ pool'.freeList = none ∧ pool'.usedList = none ∧
      pool'.totalConnections = 0 ∧ pool'.given ~ pool'.closed ++ outputs step loses start events ∧
      pool'.closed = pool.closed ++ now ∧ (∀ entry ∈ pool.held, entry.2 ∈ now) ∧
      ∀ entry ∈ pool.pending, step pool' (.answer entry.1 entry.2) = .error .useAfterFree := by
  have empty : Accounts emptyPool [] [] :=
    ⟨rfl, rfl, rfl, Nat.zero_le _, .start _, fun entry member => absurd member List.not_mem_nil⟩
  have nothing : Stock emptyPool [] :=
    ⟨List.nodup_nil, fun conn => by simp [emptyPool], rfl⟩
  obtain ⟨start, opened, free, holds⟩ := empty.initial (by rw [rounds]; decide) fresh
  obtain ⟨nodes, stock, balanced⟩ := Balanced.initial nothing (.refl _) fresh opened
  obtain ⟨pool, free', used', nodes', served, holds', stock', balanced'⟩ :=
    balanced.runs holds stock (fits start opened)
  obtain ⟨pool', now, closing, heap, freeList, usedList, total, pending, given, closed, all⟩ :=
    closeConnectionPool_closes holds' stock'
  refine ⟨start, pool, pool', now, opened, served, closing, heap, freeList, usedList, total,
    ?_, closed, fun entry member => ?_, fun entry member => ?_⟩
  · rw [given, closed]
    calc
      _ ~ pool.closed ++ outputs step loses start events ++ nodes'.filterMap pool.handle :=
        balanced'
      _ ~ pool.closed ++ outputs step loses start events ++ now := all.append_left _
      _ ~ _ := by
        rw [List.append_assoc, List.append_assoc]
        exact List.perm_append_comm.append_left _
  · exact all.mem_iff.mp (stock'.held holds' member)
  · have waits : (entry.1, entry.2) ∈ pool'.pending := by rwa [pending]
    simp only [step, if_pos waits, returnMysql, Pool.deref, heap]
    rfl

/-- Thread 8 still holds the handle of its connection, and thread 4 has not read its own. -/
theorem pool_closed_sections : ∃ start pool pool' now,
    runs openInitial emptyPool opening = .ok start ∧ runs step start sections = .ok pool ∧
      closeConnectionPool pool = .ok pool' ∧ pool'.heap = (fun _ => none) ∧
      pool'.given = [101, 102, 103, 104, 105, 106, 107] ∧ pool'.given ~ pool'.closed ++ [106] ∧
      pool'.closed = pool.closed ++ now ∧ 103 ∈ now ∧
      step pool' (.answer 4 1) = .error .useAfterFree := by
  obtain ⟨start, pool, pool', now, opened, served, closing, heap, -, -, -, all, closed, held,
    waits⟩ := pool_closed opening rfl opening_fresh sections sections_fit
  cases id opened
  cases id served
  have handle := held (8, 103) (List.mem_singleton_self _)
  have reads := waits (4, 1) (List.mem_singleton_self _)
  cases id closing
  exact ⟨_, _, _, now, opened, served, closing, heap, rfl, all, closed, handle, reads⟩

end LinuxCpp.Mysql
