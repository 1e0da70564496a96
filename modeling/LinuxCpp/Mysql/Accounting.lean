import LinuxCpp.Linked.Segment
import LinuxCpp.Mysql.ConnectPool
import LinuxCpp.Trace.Lending

set_option autoImplicit false

/- Which connections the two lists hold, and who holds their handles. -/
namespace LinuxCpp.Mysql

open C Linked Trace

namespace Pool

/-- The `next` pointers of the connections. -/
def links (pool : Pool) (conn : Nat) : Option (Option Nat) :=
  (pool.heap conn).map DbConnection.next

/-- The handle of a connection. -/
def handle (pool : Pool) (conn : Nat) : Option Nat := (pool.heap conn).bind DbConnection.mysql

end Pool

/-- The handles in the hands of callers, and those on the way to one. -/
def Pool.handedOut (pool : Pool) : List (Option Nat) :=
  pool.held.map (fun entry => some entry.2) ++ pool.pending.map fun entry => pool.handle entry.2

structure Accounts (pool : Pool) (free used : List Nat) : Prop where
  freeChain : Chain pool.links pool.freeList free
  usedChain : Chain pool.links pool.usedList used
  total : pool.totalConnections = (free ++ used).length
  bounded : (free ++ used).length ≤ maxPoolSize
  lending : Lending pool.handle free used pool.handedOut
  waiting : ∀ entry ∈ pool.pending, entry.2 ∈ used

section Writes

variable {pool : Pool} {conn : Nat} {value : DbConnection} {p : Option Nat}

theorem deref_ok (live : pool.heap conn = some value) : pool.deref conn = .ok value := by
  unfold Pool.deref
  rw [live]

theorem modify_ok (live : pool.heap conn = some value) (change : DbConnection → DbConnection) :
    pool.modify conn change = .ok (pool.setConn conn (change value)) := by
  unfold Pool.modify
  rw [deref_ok live]
  rfl

theorem free_same (dead : pool.heap conn = none) : pool.free conn = pool := by
  unfold Pool.free
  rw [← dead, Function.update_eq_self]

theorem links_setConn (pool : Pool) (conn : Nat) (value : DbConnection) :
    (pool.setConn conn value).links = Function.update pool.links conn (some value.next) := by
  funext other
  by_cases same : other = conn
  · subst same
    simp [Pool.links, Pool.setConn]
  · simp [Pool.links, Pool.setConn, Function.update_of_ne same]

theorem links_free (pool : Pool) (conn : Nat) :
    (pool.free conn).links = Function.update pool.links conn none := by
  funext other
  by_cases same : other = conn
  · subst same
    simp [Pool.links, Pool.free]
  · simp [Pool.links, Pool.free, Function.update_of_ne same]

theorem handle_setConn (pool : Pool) (conn : Nat) (value : DbConnection) :
    (pool.setConn conn value).handle = Function.update pool.handle conn value.mysql := by
  funext other
  by_cases same : other = conn
  · subst same
    simp [Pool.handle, Pool.setConn]
  · simp [Pool.handle, Pool.setConn, Function.update_of_ne same]

theorem handle_free (pool : Pool) (conn : Nat) :
    (pool.free conn).handle = Function.update pool.handle conn none := by
  funext other
  by_cases same : other = conn
  · subst same
    simp [Pool.handle, Pool.free]
  · simp [Pool.handle, Pool.free, Function.update_of_ne same]

end Writes

section Paths

variable {pool : Pool} {conn mysql thread : Nat} {value : DbConnection} {out : Outcome}

/-- The first free connection goes to the used list and, under this handle, to the thread. -/
def Pool.taken (pool : Pool) (thread conn : Nat) (value : DbConnection) (mysql : Option Nat) :
    Pool :=
  { pool.setConn conn { value with mysql := mysql, inUse := 1, next := pool.usedList } with
    freeList := value.next
    usedList := some conn
    pending := pool.pending ++ [(thread, conn)] }

theorem get_reuses (head : pool.freeList = some conn) (live : pool.heap conn = some value)
    (alive : out.alive = true) :
    getConnectionFromPool pool thread out = .ok (pool.taken thread conn value value.mysql) := by
  simp only [getConnectionFromPool, head, Pool.modify, Pool.deref, live, Pool.setConn,
    Function.update_self, Function.update_idem, ok_bind, pure_bind, alive, ↓reduceIte]
  rfl

/-- `mysql_close(conn->mysql); conn->mysql = mysql_init(NULL);` -/
def Pool.reopened (pool : Pool) (value : DbConnection) (mysql : Nat) : Pool :=
  (pool.mysqlClose value.mysql).mysqlInit (some mysql)

theorem get_reconnects (head : pool.freeList = some conn) (live : pool.heap conn = some value)
    (dead : out.alive = false) (opened : out.init = some mysql) (connected : out.connected = true) :
    getConnectionFromPool pool thread out =
      .ok ((pool.reopened value mysql).taken thread conn value (some mysql)) := by
  simp only [Pool.mysqlClose, Pool.mysqlInit, getConnectionFromPool, head, Pool.modify,
    Pool.deref, live, Pool.setConn, Function.update_self, Function.update_idem, ok_bind,
    pure_bind, dead, opened, connected,
    Bool.false_eq_true, reduceCtorEq, ↓reduceIte]
  rfl

theorem get_gives_up (head : pool.freeList = some conn) (live : pool.heap conn = some value)
    (dead : out.alive = false) (opened : out.init = some mysql)
    (refused : out.connected = false) :
    getConnectionFromPool pool thread out = .ok { (pool.reopened value mysql).free conn with
      freeList := value.next
      totalConnections := pool.totalConnections - 1 } := by
  simp only [Pool.mysqlClose, Pool.mysqlInit, getConnectionFromPool, head, Pool.modify,
    Pool.deref, live, Pool.setConn, Function.update_self, Function.update_idem, ok_bind,
    pure_bind, dead, opened, refused,
    Bool.false_eq_true, reduceCtorEq, ↓reduceIte, unlinkConn, Pool.read, Pool.write, Pool.free]
  rfl

/-- A new connection goes to the used list and to the thread. -/
def Pool.opened (pool : Pool) (thread conn mysql now : Nat) : Pool :=
  { pool.setConn conn ⟨some mysql, 1, now, pool.usedList⟩ with
    usedList := some conn
    totalConnections := pool.totalConnections + 1
    pending := pool.pending ++ [(thread, conn)] }

theorem get_creates (empty : pool.freeList = none) (room : pool.totalConnections < maxPoolSize)
    (granted : out.block = some conn) (opened : out.init = some mysql)
    (connected : out.connected = true) :
    getConnectionFromPool pool thread out =
      .ok ((pool.mysqlInit (some mysql)).opened thread conn mysql out.now) := by
  simp only [Pool.mysqlInit, getConnectionFromPool, empty, if_pos room, createDbConnection,
    granted, opened, connected, Bool.true_eq_false, ↓reduceIte, Pool.modify, Pool.deref,
    Pool.setConn, Function.update_self, Function.update_idem, ok_bind, pure_bind, Pool.opened]
  rfl

/-- The handle that `create_db_connection` gets from `mysql_init`. -/
def Outcome.made (out : Outcome) : Option Nat := out.block.bind fun _ => out.init

/-- The connection cannot be opened: a handle that was given is closed again. -/
def Pool.refused (pool : Pool) (out : Outcome) : Pool :=
  (pool.mysqlInit out.made).mysqlClose out.made

theorem createDbConnection_cases
    (fresh : ∀ block, out.block = some block → pool.heap block = none) :
    createDbConnection pool out = (pool.refused out, none) ∨
    ∃ conn mysql, out.block = some conn ∧ out.init = some mysql ∧ out.connected = true ∧
      createDbConnection pool out =
        ((pool.mysqlInit (some mysql)).setConn conn ⟨some mysql, 0, out.now, none⟩,
          some conn) := by
  have nothing : (pool.mysqlInit none).mysqlClose none = pool := by
    simp [Pool.mysqlInit, Pool.mysqlClose]
  unfold createDbConnection Pool.refused Outcome.made
  cases block : out.block with
  | none =>
      rw [Option.bind_none, nothing]
      exact .inl rfl
  | some conn =>
      have dead := fresh conn block
      cases init : out.init with
      | none =>
          have given : pool.mysqlInit none = pool := by simp [Pool.mysqlInit]
          rw [Option.bind_some, nothing]
          simp only [given, free_same dead]
          exact .inl trivial
      | some mysql =>
          have same (closed : Option Nat) :
              ((pool.mysqlInit (some mysql)).mysqlClose closed).free conn =
                (pool.mysqlInit (some mysql)).mysqlClose closed := free_same dead
          cases connected : out.connected with
          | false => exact .inl (by simp [same])
          | true => exact .inr ⟨conn, mysql, rfl, rfl, rfl, by simp⟩

theorem get_waits (empty : pool.freeList = none) (room : pool.totalConnections < maxPoolSize)
    (none_ : createDbConnection pool out = (pool.refused out, none)) :
    getConnectionFromPool pool thread out = .ok (pool.refused out) := by
  simp only [getConnectionFromPool, empty, if_pos room, none_]
  rfl

theorem get_full (empty : pool.freeList = none) (full : ¬ pool.totalConnections < maxPoolSize) :
    getConnectionFromPool pool thread out = .ok pool := by
  simp only [getConnectionFromPool, empty, if_neg full]
  rfl

/-- A new connection goes to the free list. -/
def Pool.stocked (pool : Pool) (conn mysql now : Nat) : Pool :=
  { pool.setConn conn ⟨some mysql, 0, now, pool.freeList⟩ with
    freeList := some conn
    totalConnections := pool.totalConnections + 1 }

theorem openInitial_cases (fresh : ∀ block, out.block = some block → pool.heap block = none) :
    openInitial pool out = .ok (pool.refused out) ∨
    ∃ conn mysql, out.block = some conn ∧ out.init = some mysql ∧ out.connected = true ∧
      openInitial pool out = .ok ((pool.mysqlInit (some mysql)).stocked conn mysql out.now) := by
  rcases createDbConnection_cases fresh with refused | ⟨conn, mysql, block, init, ok, created⟩
  · refine .inl ?_
    simp only [openInitial, refused]
    rfl
  · refine .inr ⟨conn, mysql, block, init, ok, ?_⟩
    simp only [openInitial, created, Pool.modify, Pool.deref, Pool.setConn,
      Function.update_self, Function.update_idem, ok_bind, pure_bind]
    rfl

end Paths

/-- The slot that points to the node behind these. -/
def slotBefore : Slot → List Nat → Slot
  | pp, [] => pp
  | _, conn :: rest => slotBefore (.next conn) rest

@[simp] theorem slotBefore_snoc (pp : Slot) (front : List Nat) (conn : Nat) :
    slotBefore pp (front ++ [conn]) = .next conn := by
  induction front generalizing pp with
  | nil => rfl
  | cons first rest ih => exact ih _

section Release

variable {pool : Pool} {conn mysql : Nat} {value : DbConnection} {before after : List Nat}

theorem findConn_finds {pp : Slot} {p : Option Nat} {fuel : Nat} (points : pool.read pp = .ok p)
    (chain : Chain pool.links p (before ++ conn :: after))
    (others : ∀ other ∈ before, pool.handle other ≠ some mysql)
    (live : pool.heap conn = some value) (isMysql : value.mysql = some mysql)
    (enough : before.length < fuel) :
    findConn mysql fuel pool pp =
      (do return (some conn, ← pool.write (slotBefore pp before) value.next)) := by
  induction before generalizing pp p fuel with
  | nil =>
      obtain ⟨rfl, -⟩ := chain
      obtain ⟨fuel, rfl⟩ := Nat.exists_eq_succ_of_ne_zero (Nat.ne_of_gt enough)
      simp only [findConn]
      rw [points, ok_bind]
      simp only
      rw [deref_ok live, ok_bind, if_pos isMysql]
      rfl
  | cons first rest ih =>
      obtain ⟨rfl, next, linked, chain⟩ := chain
      obtain ⟨fuel, rfl⟩ := Nat.exists_eq_succ_of_ne_zero (Nat.ne_of_gt (Nat.zero_lt_of_lt enough))
      obtain ⟨w, liveFirst, rfl⟩ := Option.map_eq_some_iff.mp linked
      have differs : w.mysql ≠ some mysql := by
        have := others first List.mem_cons_self
        simpa [Pool.handle, liveFirst] using this
      simp only [findConn]
      rw [points, ok_bind]
      simp only
      rw [deref_ok liveFirst, ok_bind, if_neg differs]
      refine ih ?_ chain (fun other member => others other (List.mem_cons_of_mem _ member)) ?_
      · simp only [Pool.read]
        rw [deref_ok liveFirst]
        rfl
      · rw [List.length_cons] at enough
        omega

/-- Only the used list and its links differ. -/
structure SameButUsed (pool pool' : Pool) (used : List Nat) : Prop where
  freeList : pool'.freeList = pool.freeList
  total : pool'.totalConnections = pool.totalConnections
  pending : pool'.pending = pool.pending
  held : pool'.held = pool.held
  handle : pool'.handle = pool.handle
  links : ∀ other ∉ used, pool'.links other = pool.links other

theorem write_unlinks (chain : Chain pool.links pool.usedList (before ++ conn :: after))
    (live : pool.heap conn = some value) :
    ∃ pool', pool.write (slotBefore .usedList before) value.next = .ok pool' ∧
      Chain pool'.links pool'.usedList (before ++ after) ∧ pool'.heap conn = some value ∧
      SameButUsed pool pool' (before ++ conn :: after) := by
  have linked : pool.links conn = some value.next := by simp [Pool.links, live]
  rcases List.eq_nil_or_concat before with rfl | ⟨front, last, rfl⟩
  · obtain ⟨-, next, linked', rest⟩ := chain
    cases linked.symm.trans linked'
    exact ⟨_, rfl, rest, live, rfl, rfl, rfl, rfl, rfl, fun _ _ => rfl⟩
  · rw [List.concat_eq_append, List.append_assoc, List.singleton_append] at chain ⊢
    have distinct := Chain.nodup chain
    obtain ⟨next, isLast⟩ := chain.mem (a := last) (by simp)
    obtain ⟨w, liveLast, -⟩ := Option.map_eq_some_iff.mp isLast
    have differs : conn ≠ last := by
      rintro rfl
      have := (List.nodup_append.mp distinct).2.1
      simp at this
    refine ⟨pool.setConn last { w with next := value.next }, ?_, ?_, ?_, rfl, rfl, rfl, rfl, ?_, ?_⟩
    · rw [slotBefore_snoc]
      exact modify_ok liveLast _
    · rw [links_setConn]
      exact chain.bypass distinct linked
    · rw [← live]
      exact Function.update_of_ne differs ..
    · rw [handle_setConn]
      have same : w.mysql = pool.handle last := by simp [Pool.handle, liveLast]
      show Function.update pool.handle last w.mysql = pool.handle
      rw [same, Function.update_eq_self]
    · intro other outside
      rw [links_setConn]
      refine Function.update_of_ne ?_ ..
      rintro rfl
      simp at outside

end Release

section Steps

variable {pool : Pool} {conn mysql thread : Nat} {value : DbConnection} {out : Outcome}
  {free used before after : List Nat}

/-- What MySQL was asked for does not count. -/
theorem Accounts.asked (holds : Accounts pool free used) (given closed : List Nat) :
    Accounts { pool with given := given, closed := closed } free used :=
  ⟨holds.freeChain, holds.usedChain, holds.total, holds.bounded, holds.lending, holds.waiting⟩

theorem Accounts.live (holds : Accounts pool free used) (member : conn ∈ free ++ used) :
    ∃ value mysql, pool.heap conn = some value ∧ value.mysql = some mysql := by
  obtain ⟨mysql, isHandle⟩ := holds.lending.labelled conn member
  obtain ⟨value, live, isMysql⟩ := Option.bind_eq_some_iff.mp isHandle
  exact ⟨value, mysql, live, isMysql⟩

/-- The pending connections keep their handles when another one gets a new one. -/
theorem Accounts.pending_update (holds : Accounts pool free used) (outside : conn ∉ used)
    (new : Option Nat) :
    pool.pending.map (fun entry => Function.update pool.handle conn new entry.2) =
      pool.pending.map fun entry => pool.handle entry.2 := by
  refine List.map_congr_left fun entry member => ?_
  have differs : entry.2 ≠ conn := fun same => outside (same ▸ holds.waiting entry member)
  exact Function.update_of_ne differs ..

/-- A connection goes to the front of the used list and, under this handle, to a thread. -/
theorem Accounts.hand (holds : Accounts pool free used) (pool' : Pool) (value : DbConnection)
    (outside : conn ∉ used) (next : value.next = pool.usedList) (isMysql : value.mysql = some mysql)
    (heap : pool'.heap = (pool.setConn conn value).heap)
    (usedList : pool'.usedList = some conn)
    (held : pool'.held = pool.held) (pending : pool'.pending = pool.pending ++ [(thread, conn)])
    {free' : List Nat} (freeChain : Chain pool'.links pool'.freeList free')
    (total : pool'.totalConnections = (free' ++ conn :: used).length)
    (bounded : (free' ++ conn :: used).length ≤ maxPoolSize)
    (lending : Lending (Function.update pool.handle conn (some mysql)) (conn :: free') used
      pool.handedOut) : Accounts pool' free' (conn :: used) := by
  have links : pool'.links = Function.update pool.links conn (some pool.usedList) := by
    rw [← next, ← links_setConn]
    funext other
    simp only [Pool.links, heap]
  have handle : pool'.handle = Function.update pool.handle conn (some mysql) := by
    rw [← isMysql, ← handle_setConn]
    funext other
    simp only [Pool.handle, heap]
  have out : pool'.handedOut.Perm (pool'.handle conn :: pool.handedOut) := by
    have same := holds.pending_update outside (some mysql)
    rw [← handle] at same
    simp only [Pool.handedOut, held, pending, List.map_append, List.map_cons, List.map_nil, same]
    rw [← List.append_assoc]
    exact List.perm_append_singleton ..
  refine ⟨freeChain, ?_, total, bounded, ?_, ?_⟩
  · rw [links, usedList]
    exact holds.usedChain.push outside
  · have lent := lending.lend
    rw [← handle] at lent
    exact lent.rearrange (.refl _) (out.trans lent.owed)
  · intro entry member
    rw [pending, List.mem_append, List.mem_singleton] at member
    rcases member with member | rfl
    · exact List.mem_cons_of_mem _ (holds.waiting entry member)
    · exact List.mem_cons_self

/-- A connection that counts but is in neither list. -/
structure Loose (pool : Pool) (conn : Nat) (free used : List Nat) : Prop where
  freeChain : Chain pool.links pool.freeList free
  usedChain : Chain pool.links pool.usedList used
  total : pool.totalConnections = (free ++ used).length + 1
  bounded : (free ++ used).length + 1 ≤ maxPoolSize
  lending : Lending pool.handle (conn :: free) used pool.handedOut
  waiting : ∀ entry ∈ pool.pending, entry.2 ∈ used

theorem Loose.outside (loose : Loose pool conn free used) : conn ∉ free ∧ conn ∉ used := by
  simpa using (List.nodup_cons.mp loose.lending.apart).1

theorem Loose.close (loose : Loose pool conn free used) (mysql : Option Nat) :
    Loose (pool.mysqlClose mysql) conn free used :=
  ⟨loose.freeChain, loose.usedChain, loose.total, loose.bounded, loose.lending, loose.waiting⟩

theorem Loose.destroy (loose : Loose pool conn free used) :
    Accounts { pool.free conn with totalConnections := pool.totalConnections - 1 } free used := by
  have outside := loose.outside
  have links := links_free pool conn
  have handle := handle_free pool conn
  refine ⟨?_, ?_, ?_, Nat.le_of_succ_le loose.bounded, ?_, loose.waiting⟩
  · have chain := loose.freeChain.update outside.1 none
    rwa [← links] at chain
  · have chain := loose.usedChain.update outside.2 none
    rwa [← links] at chain
  · show pool.totalConnections - 1 = _
    rw [loose.total, Int.add_sub_cancel]
  · have dropped := loose.lending.drop none
    rw [← handle] at dropped
    have same : pool.pending.map (fun entry => (pool.free conn).handle entry.2) =
        pool.pending.map fun entry => pool.handle entry.2 := by
      refine List.map_congr_left fun entry member => ?_
      have differs : entry.2 ≠ conn := fun same => outside.2 (same ▸ loose.waiting entry member)
      rw [handle, Function.update_of_ne differs]
    refine dropped.rearrange (.refl _) (List.Perm.trans (.of_eq ?_) dropped.owed)
    show _ ++ pool.pending.map (fun entry => (pool.free conn).handle entry.2) = _
    rw [same]
    rfl

/-- The connection goes to the front of the free list. -/
theorem Loose.shelve (loose : Loose pool conn free used) (next : value.next = pool.freeList)
    (isMysql : value.mysql = pool.handle conn) :
    Accounts { pool.setConn conn value with freeList := some conn } (conn :: free) used := by
  have outside := loose.outside
  have links := links_setConn pool conn value
  have handle : (pool.setConn conn value).handle = pool.handle := by
    rw [handle_setConn, isMysql, Function.update_eq_self]
  refine ⟨?_, ?_, ?_, ?_, ?_, loose.waiting⟩
  · have chain := loose.freeChain.push outside.1
    rwa [← next, ← links] at chain
  · have chain := loose.usedChain.update outside.2 (some value.next)
    rwa [← links] at chain
  · exact loose.total
  · exact loose.bounded
  · have lending := loose.lending
    rw [← handle] at lending
    refine lending.rearrange (.refl _) (List.Perm.trans (.of_eq ?_) lending.owed)
    simp only [Pool.handedOut]
    show _ ++ pool.pending.map (fun entry => (pool.setConn conn value).handle entry.2) = _
    rw [handle]
    rfl

/-- `free_list = conn->next` -/
theorem Accounts.pop (holds : Accounts pool (conn :: free) used)
    (live : pool.heap conn = some value) :
    Loose { pool with freeList := value.next } conn free used := by
  obtain ⟨head, next, linked, rest⟩ := holds.freeChain
  have isNext : next = value.next := by simpa [Pool.links, live] using linked.symm
  subst isNext
  refine ⟨rest, holds.usedChain, ?_, ?_, holds.lending, holds.waiting⟩
  · rw [holds.total]
    rfl
  · exact holds.bounded

/-- What `malloc` and `mysql_init` promise: a block that is not in use, a handle that no
connection has but one closed just before, and no NULL where a connection is opened
again. -/
structure Fresh (pool : Pool) (closed : Option Nat) (out : Outcome) : Prop where
  block : ∀ conn, out.block = some conn → pool.heap conn = none
  init : ∀ mysql, out.init = some mysql → ∀ conn, pool.handle conn = some mysql →
    closed = some conn
  reopened : closed ≠ none → out.init ≠ none

/-- The connection whose handle `get_connection_from_pool` closes. -/
def Pool.closes (pool : Pool) (out : Outcome) : Option Nat :=
  if out.alive = true then none else pool.freeList

/-- The first free connection is handed out with this handle. -/
theorem Accounts.take (holds : Accounts pool (conn :: free) used)
    (live : pool.heap conn = some value) (handle : Nat)
    (lending : Lending (Function.update pool.handle conn (some handle)) (conn :: free) used
      pool.handedOut) :
    Accounts (pool.taken thread conn value (some handle)) free (conn :: used) := by
  obtain ⟨head, next, linked, rest⟩ := id holds.freeChain
  have isNext : next = value.next := by simpa [Pool.links, live] using linked.symm
  subst isNext
  have outside : conn ∉ free ∧ conn ∉ used := by
    simpa using (List.nodup_cons.mp holds.lending.apart).1
  have size := holds.total
  have bounded := holds.bounded
  simp only [List.cons_append, List.length_cons, List.length_append] at size bounded
  refine holds.hand (pool.taken thread conn value (some handle)) { value with
    mysql := some handle, inUse := 1, next := pool.usedList } outside.2 rfl rfl rfl rfl rfl rfl
    ?_ ?_ ?_ lending
  · have chain := rest.update outside.1 (some pool.usedList)
    rw [← links_setConn pool conn { value with
      mysql := some handle, inUse := 1, next := pool.usedList }] at chain
    exact chain
  · show pool.totalConnections = _
    simp only [List.length_append, List.length_cons]
    omega
  · simp only [List.length_append, List.length_cons]
    omega

theorem Accounts.get_first (holds : Accounts pool (conn :: free) used)
    (fresh : Fresh pool (pool.closes out) out) :
    ∃ pool', getConnectionFromPool pool thread out = .ok pool' ∧
      ∃ free' used', Accounts pool' free' used' := by
  have head := holds.freeChain.1
  obtain ⟨value, mysql, live, isMysql⟩ := holds.live
    (show conn ∈ conn :: free ++ used from List.mem_cons_self)
  have isHandle : pool.handle conn = some mysql := by simp [Pool.handle, live, isMysql]
  have apart := List.nodup_cons.mp holds.lending.apart
  cases alive : out.alive with
  | true =>
      have same : Lending (Function.update pool.handle conn (some mysql)) (conn :: free) used
          pool.handedOut := by
        rw [← isHandle, Function.update_eq_self]
        exact holds.lending
      refine ⟨_, get_reuses head live alive, free, conn :: used, ?_⟩
      rw [isMysql]
      exact holds.take live mysql same
  | false =>
      have closes : pool.closes out = some conn := by simp [Pool.closes, alive, head]
      obtain ⟨reopened, opened⟩ := Option.ne_none_iff_exists'.mp
        (fresh.reopened (by simp [closes]))
      have asked : Accounts (pool.reopened value reopened) (conn :: free) used := holds.asked _ _
      cases connected : out.connected with
      | true =>
          have unused : ∀ other ∈ free ++ used,
              Function.update pool.handle conn none other ≠ some reopened := by
            intro other member isName
            have differs : other ≠ conn := fun same => apart.1 (same ▸ member)
            rw [Function.update_of_ne differs] at isName
            have isClosed := fresh.init reopened opened other isName
            rw [closes] at isClosed
            exact differs (Option.some.inj isClosed).symm
          have added := (holds.lending.drop none).add apart.1 unused
          rw [Function.update_idem] at added
          exact ⟨_, get_reconnects head live alive opened connected, free, conn :: used,
            asked.take live reopened added⟩
      | false =>
          exact ⟨_, get_gives_up head live alive opened connected, free, used,
            (asked.pop live).destroy⟩

theorem Accounts.get_new (holds : Accounts pool [] used)
    (fresh : Fresh pool (pool.closes out) out) :
    ∃ pool', getConnectionFromPool pool thread out = .ok pool' ∧
      ∃ free' used', Accounts pool' free' used' := by
  have empty : pool.freeList = none := holds.freeChain
  by_cases room : pool.totalConnections < maxPoolSize
  · rcases createDbConnection_cases fresh.block with refused | ⟨conn, mysql, block, init, ok, -⟩
    · exact ⟨_, get_waits empty room refused, [], used, holds.asked _ _⟩
    · have outside : conn ∉ used := by
        intro member
        obtain ⟨value, _, live, _⟩ := holds.live (List.mem_append_right [] member)
        rw [fresh.block conn block] at live
        cases live
      have size := holds.total
      simp only [List.nil_append] at size
      refine ⟨_, get_creates empty room block init ok, [], conn :: used, ?_⟩
      refine (holds.asked (pool.given ++ [mysql]) pool.closed).hand
        ((pool.mysqlInit (some mysql)).opened thread conn mysql out.now)
        ⟨some mysql, 1, out.now, pool.usedList⟩ outside rfl rfl rfl rfl rfl rfl empty ?_ ?_ ?_
      · show pool.totalConnections + 1 = _
        simp [size]
      · simp only [List.nil_append, List.length_cons]
        omega
      · refine holds.lending.add (by simpa using outside) fun other member isName => ?_
        have isClosed := fresh.init mysql init other isName
        simp [Pool.closes, empty] at isClosed
  · exact ⟨pool, get_full empty room, [], used, holds⟩

theorem Accounts.answer (holds : Accounts pool free used)
    (isPending : (thread, conn) ∈ pool.pending) :
    ∃ pool', returnMysql pool thread conn = .ok pool' ∧ Accounts pool' free used := by
  obtain ⟨value, mysql, live, isMysql⟩ :=
    holds.live (List.mem_append_right free (holds.waiting _ isPending))
  have isHandle : pool.handle conn = some mysql := by simp [Pool.handle, live, isMysql]
  refine ⟨{ pool with
    pending := pool.pending.erase (thread, conn)
    held := pool.held ++ [(thread, mysql)] }, ?_, ?_⟩
  · simp only [returnMysql, Pool.deref, live, ok_bind, isMysql]
    rfl
  refine ⟨holds.freeChain, holds.usedChain, holds.total, holds.bounded, ?_, ?_⟩
  · refine holds.lending.rearrange (.refl _) (List.Perm.trans ?_ holds.lending.owed)
    have split := (List.perm_cons_erase isPending).map fun entry => pool.handle entry.2
    rw [List.map_cons, isHandle] at split
    show List.Perm (List.map (fun entry => some entry.2) (pool.held ++ [(thread, mysql)]) ++
      (pool.pending.erase (thread, conn)).map fun entry => pool.handle entry.2) pool.handedOut
    rw [List.map_append, List.map_singleton, List.append_assoc, List.singleton_append]
    exact split.symm.append_left _
  · exact fun entry member => holds.waiting entry (List.mem_of_mem_erase member)

/-- What is left of the accounts when a holder gives its handle back and the connection is
out of the used list. -/
theorem Accounts.unlinked (holds : Accounts pool free (before ++ conn :: after))
    (isHandle : pool.handle conn = some mysql) (isHeld : (thread, mysql) ∈ pool.held) :
    Lending pool.handle (conn :: free) (before ++ after)
      (Pool.handedOut { pool with held := pool.held.erase (thread, mysql) }) ∧
    ∀ entry ∈ pool.pending, entry.2 ∈ before ++ after := by
  have split := (List.perm_cons_erase isHeld).map fun entry => some entry.2
  have owed : (pool.handle conn ::
      Pool.handedOut { pool with held := pool.held.erase (thread, mysql) }).Perm
      ((before ++ conn :: after).map pool.handle) := by
    refine List.Perm.trans ?_ holds.lending.owed
    rw [isHandle]
    exact (split.append_right _).symm
  have lending := (holds.lending.rearrange (.refl _) owed).giveBack
  refine ⟨lending, fun entry member => ?_⟩
  have place := holds.waiting entry member
  have differs : entry.2 ≠ conn := by
    intro same
    refine lending.kept_not_out ?_
    rw [← same]
    exact List.mem_append_right _ (List.mem_map_of_mem member)
  rw [List.mem_append, List.mem_cons] at place
  rw [List.mem_append]
  rcases place with front | same | back
  · exact .inl front
  · exact absurd same differs
  · exact .inr back

/-- The loop of `release_connection_to_pool` takes the connection of a held handle out of
the used list. -/
theorem Accounts.found (holds : Accounts pool free used) (isHeld : (thread, mysql) ∈ pool.held) :
    ∃ conn rest pool' value,
      findConn mysql (maxPoolSize + 1) { pool with held := pool.held.erase (thread, mysql) }
        .usedList = .ok (some conn, pool') ∧
      pool'.heap conn = some value ∧ Loose pool' conn free rest := by
  have isOut : some mysql ∈ pool.handedOut :=
    List.mem_append_left _ (List.mem_map_of_mem (f := fun entry => some entry.2) isHeld)
  obtain ⟨conn, member, isHandle⟩ := holds.lending.owner isOut
  obtain ⟨before, after, rfl⟩ := List.append_of_mem member
  obtain ⟨value, live, isMysql⟩ := Option.bind_eq_some_iff.mp isHandle
  obtain ⟨lending, waiting⟩ := holds.unlinked isHandle isHeld
  have apart := List.nodup_cons.mp lending.labels
  have others : ∀ other ∈ before, pool.handle other ≠ some mysql := by
    intro other inFront same
    refine apart.1 ?_
    rw [isHandle, ← same]
    exact List.mem_map_of_mem (by simp [inFront])
  have size := holds.total
  have bounded := holds.bounded
  simp only [List.length_append, List.length_cons] at size bounded
  let given : Pool := { pool with held := pool.held.erase (thread, mysql) }
  have givenLive : given.heap conn = some value := live
  obtain ⟨pool', written, usedChain, live', same⟩ := write_unlinks
    (show Chain given.links given.usedList _ from holds.usedChain) givenLive
  have found := findConn_finds (show given.read .usedList = .ok given.usedList from rfl)
    holds.usedChain others givenLive isMysql (show before.length < maxPoolSize + 1 by omega)
  rw [written] at found
  refine ⟨conn, before ++ after, pool', value, found, live', ?_, usedChain, ?_, ?_, ?_, ?_⟩
  · rw [same.freeList]
    refine Segment.congr holds.freeChain fun other inFree => same.links other fun inUsed => ?_
    exact (List.nodup_append.mp holds.lending.apart).2.2 other inFree other inUsed rfl
  · rw [same.total]
    show pool.totalConnections = _
    simp only [List.length_append]
    omega
  · simp only [List.length_append]
    omega
  · have handedOut : pool'.handedOut = given.handedOut := by
      simp only [Pool.handedOut, same.held, same.pending, same.handle]
    rw [same.handle, handedOut]
    exact lending
  · rw [same.pending]
    exact waiting

theorem Accounts.release (holds : Accounts pool free used) (isHeld : (thread, mysql) ∈ pool.held) :
    ∃ pool', releaseConnectionToPool pool thread (some mysql) out = .ok pool' ∧
      ∃ free' used', Accounts pool' free' used' := by
  obtain ⟨conn, rest, pool', value, found, live, loose⟩ := holds.found isHeld
  cases alive : out.alive with
  | true =>
      refine ⟨{ pool'.setConn conn { value with
        inUse := 0, lastUsed := out.now, next := pool'.freeList } with freeList := some conn },
        ?_, conn :: free, rest, loose.shelve rfl ?_⟩
      · simp only [releaseConnectionToPool]
        rw [found]
        simp only [ok_bind, alive, Bool.true_eq_false, ↓reduceIte, Pool.modify, Pool.deref, live,
          Pool.setConn, Function.update_self, Function.update_idem, pure_bind]
        rfl
      · simp [Pool.handle, live]
  | false =>
      refine ⟨_, ?_, free, rest, (loose.close value.mysql).destroy⟩
      simp only [releaseConnectionToPool]
      rw [found]
      simp only [ok_bind, alive, ↓reduceIte, deref_ok live]
      rfl

theorem Accounts.openInitial (holds : Accounts pool free []) (room : free.length < maxPoolSize)
    (fresh : Fresh pool none out) : ∃ pool', openInitial pool out = .ok pool' ∧
      ∃ free', Accounts pool' free' [] ∧ free'.length ≤ free.length + 1 := by
  rcases openInitial_cases fresh.block with refused | ⟨conn, mysql, block, init, -, created⟩
  · exact ⟨_, refused, free, holds.asked _ _, Nat.le_succ _⟩
  have outside : conn ∉ free := by
    intro member
    obtain ⟨value, _, live, _⟩ := holds.live (List.mem_append_left [] member)
    rw [fresh.block conn block] at live
    cases live
  have apart : conn ∉ free ++ [] := by simpa using outside
  have added := holds.lending.add apart fun other member isName => by
    cases fresh.init mysql init other isName
  have links := links_setConn pool conn ⟨some mysql, 0, out.now, pool.freeList⟩
  have handle := handle_setConn pool conn ⟨some mysql, 0, out.now, pool.freeList⟩
  rw [← handle] at added
  refine ⟨_, created, conn :: free, ?_, Nat.le_refl _⟩
  refine ⟨?_, ?_, ?_, ?_, ?_, holds.waiting⟩
  · have chain := holds.freeChain.push outside
    rwa [← links] at chain
  · exact holds.usedChain
  · show pool.totalConnections + 1 = _
    rw [holds.total]
    rfl
  · simp only [List.append_nil, List.length_cons]
    omega
  · refine added.rearrange (.refl _) (List.Perm.trans (.of_eq ?_) added.owed)
    have empty : pool.pending = [] :=
      List.eq_nil_iff_forall_not_mem.mpr fun entry member => nomatch holds.waiting entry member
    show _ ++ pool.pending.map (fun entry => Pool.handle _ entry.2) =
      _ ++ pool.pending.map fun entry => pool.handle entry.2
    rw [empty]
    rfl

theorem Accounts.initial {outs : List Outcome} (holds : Accounts pool free [])
    (room : free.length + outs.length ≤ maxPoolSize)
    (fresh : Along Mysql.openInitial (fun pool out => Fresh pool none out) pool outs) :
    ∃ pool', runs Mysql.openInitial pool outs = .ok pool' ∧ ∃ free', Accounts pool' free' [] := by
  induction outs generalizing pool free with
  | nil => exact ⟨pool, rfl, free, holds⟩
  | cons out rest ih =>
      rw [List.length_cons] at room
      obtain ⟨pool', opened, free', holds', size⟩ := holds.openInitial (by omega) fresh.1
      rw [runs_cons opened]
      exact ih holds' (by omega) (fresh.2 pool' opened)

end Steps

/-- `malloc` and `mysql_init` keep their promises, and a thread gives back only a handle
that it holds. -/
def Fits (pool : Pool) : Event → Prop
  | .get _ out => Fresh pool (pool.closes out) out
  | .answer _ _ => True
  | .release thread mysql _ => ∀ handle, mysql = some handle → (thread, handle) ∈ pool.held

/-- `total_connections` counts the nodes of the two lists, which are at most
`MAX_POOL_SIZE`, each in one place, and no handle is held twice. -/
def Sound (pool : Pool) : Prop :=
  ∃ free used, Chain pool.links pool.freeList free ∧ Chain pool.links pool.usedList used ∧
    (free ++ used).Nodup ∧ pool.totalConnections = free.length + used.length ∧
    pool.totalConnections ≤ maxPoolSize ∧ (pool.held.map Prod.snd).Nodup

theorem Accounts.sound {pool : Pool} {free used : List Nat} (holds : Accounts pool free used) :
    Sound pool := by
  have size := holds.total
  have bounded := holds.bounded
  simp only [List.length_append] at size bounded
  refine ⟨free, used, holds.freeChain, holds.usedChain, holds.lending.apart, by omega, by omega, ?_⟩
  have once := (List.nodup_append.mp holds.lending.out_nodup).1
  refine List.Nodup.of_map some ?_
  rwa [List.map_map]

theorem Accounts.step {pool : Pool} {free used : List Nat} (holds : Accounts pool free used)
    {event : Event} (fits : Fits pool event) :
    ∃ pool', step pool event = .ok pool' ∧ ∃ free' used', Accounts pool' free' used' := by
  cases event with
  | get thread out =>
      cases free with
      | nil => exact holds.get_new fits
      | cons conn free => exact holds.get_first fits
  | answer thread conn =>
      simp only [Mysql.step]
      split
      · rename_i isPending
        obtain ⟨pool', ran, holds'⟩ := holds.answer isPending
        exact ⟨pool', ran, free, used, holds'⟩
      · exact ⟨pool, rfl, free, used, holds⟩
  | release thread mysql out =>
      cases mysql with
      | none => exact ⟨pool, rfl, free, used, holds⟩
      | some mysql => exact holds.release (fits mysql rfl)

/-- After `init_connection_pool` and in any order of the threads' sections the accounts
are right. -/
theorem pool_sound (outs : List Outcome) (rounds : outs.length = minPoolSize)
    (fresh : Along openInitial (fun pool out => Fresh pool none out) emptyPool outs) :
    ∃ start, runs openInitial emptyPool outs = .ok start ∧ Sound start ∧
      ∀ events, Along step Fits start events →
        ∃ pool, runs step start events = .ok pool ∧ Sound pool := by
  have empty : Accounts emptyPool [] [] :=
    ⟨rfl, rfl, rfl, Nat.zero_le _, .start _, fun entry member => nomatch member⟩
  obtain ⟨start, opened, free, holds⟩ := empty.initial (by rw [rounds]; decide) fresh
  refine ⟨start, opened, holds.sound, fun events fits => ?_⟩
  obtain ⟨pool, ran, free', used', holds'⟩ := fits.completes
    (fun pool => ∃ free used, Accounts pool free used) ⟨free, [], holds⟩
    fun pool event ⟨_, _, holds⟩ meets => holds.step meets
  exact ⟨pool, ran, holds'.sound⟩

/-- The first connection is opened, the second is refused, and there is no memory for the third. -/
def opening : List Outcome := [
  ⟨some 1, some 101, true, true, 0⟩,
  ⟨some 2, some 102, false, true, 0⟩,
  ⟨none, none, true, true, 0⟩]

/-- Two threads have a connection each. The first one goes back, is opened again for thread 9 and is
dead when that gives it back. Then a third one cannot be opened again, and its place is free. -/
def sections : List Event := [
  .get 7 ⟨none, none, true, true, 1⟩, .answer 7 1,
  .get 8 ⟨some 2, some 103, true, true, 2⟩, .answer 8 2,
  .release 7 (some 101) ⟨none, none, true, true, 3⟩,
  .get 9 ⟨none, some 104, true, false, 4⟩, .answer 9 1,
  .release 9 (some 104) ⟨none, none, true, false, 5⟩,
  .get 6 ⟨some 3, some 105, true, true, 6⟩, .answer 6 3,
  .release 6 (some 105) ⟨none, none, true, true, 7⟩,
  .get 5 ⟨none, some 106, false, false, 8⟩,
  .get 4 ⟨some 1, some 107, true, true, 9⟩]

theorem opening_fresh :
    Along openInitial (fun pool out => Fresh pool none out) emptyPool opening := by
  refine .cons ⟨?_, ?_, nofun⟩ rfl (.cons ⟨?_, ?_, nofun⟩ rfl
    (.cons ⟨nofun, nofun, nofun⟩ rfl trivial))
  · rintro _ ⟨⟩
    rfl
  · rintro _ ⟨⟩ conn isHandle
    cases isHandle
  · rintro _ ⟨⟩
    rfl
  · rintro _ ⟨⟩ conn isHandle
    obtain _ | _ | conn := conn <;> cases isHandle

theorem sections_fit (start : Pool) (opened : runs openInitial emptyPool opening = .ok start) :
    Along step Fits start sections := by
  cases opened
  -- the blocks in use are 1, 2 and 3 at most
  refine .cons ⟨nofun, nofun, fun none_ => absurd rfl none_⟩ rfl (.cons trivial rfl
    (.cons ⟨?_, ?_, nofun⟩ rfl (.cons trivial rfl (.cons ?_ rfl
    (.cons ⟨nofun, ?_, fun _ => nofun⟩ rfl (.cons trivial rfl (.cons ?_ rfl
    (.cons ⟨?_, ?_, nofun⟩ rfl (.cons trivial rfl (.cons ?_ rfl
    (.cons ⟨nofun, ?_, fun _ => nofun⟩ rfl (.cons ⟨?_, ?_, nofun⟩ rfl trivial))))))))))))
  · rintro _ ⟨⟩
    rfl
  · rintro _ ⟨⟩ conn isHandle
    obtain _ | _ | _ | conn := conn <;> cases isHandle
  · rintro _ ⟨⟩
    decide
  · rintro _ ⟨⟩ conn isHandle
    obtain _ | _ | _ | conn := conn <;> cases isHandle
  · rintro _ ⟨⟩
    decide
  · rintro _ ⟨⟩
    rfl
  · rintro _ ⟨⟩ conn isHandle
    obtain _ | _ | _ | _ | conn := conn <;> cases isHandle
  · rintro _ ⟨⟩
    decide
  · rintro _ ⟨⟩ conn isHandle
    obtain _ | _ | _ | _ | conn := conn <;> cases isHandle
  · rintro _ ⟨⟩
    rfl
  · rintro _ ⟨⟩ conn isHandle
    obtain _ | _ | _ | _ | conn := conn <;> cases isHandle

theorem pool_sound_sections : ∃ start pool, runs openInitial emptyPool opening = .ok start ∧
    runs step start sections = .ok pool ∧ Sound pool ∧ pool.totalConnections = 2 ∧
    pool.held = [(8, 103)] := by
  obtain ⟨start, opened, -, run⟩ := pool_sound opening rfl opening_fresh
  obtain ⟨pool, ran, sound⟩ := run sections (sections_fit start opened)
  cases id opened
  cases id ran
  exact ⟨_, _, opened, ran, sound, rfl, rfl⟩

end LinuxCpp.Mysql
