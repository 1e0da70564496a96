import LinuxCpp.C.Memory
import LinuxCpp.Trace.Along

set_option autoImplicit false

/- The connection pool of mysql_connectPool.c, with the `i` in front of the test of
`mysql_real_connect` read as `if`. -/
namespace LinuxCpp.Mysql

open C

def maxPoolSize : Nat := 10

def minPoolSize : Nat := 3

structure DbConnection where
  mysql : Option Nat
  inUse : Int
  lastUsed : Nat
  next : Option Nat
deriving DecidableEq, Repr

/-- What one call gets from `malloc`, `mysql_init`, `mysql_real_connect`, `mysql_ping`
and `time`. -/
structure Outcome where
  block : Option Nat
  init : Option Nat
  connected : Bool
  alive : Bool
  now : Nat
deriving DecidableEq, Repr

/-- `pending` has the threads that left the section of `get_connection_from_pool` with a
connection whose handle they have still to read, `held` the handles that threads got and
did not give back; `given` has what `mysql_init` gave so far and `closed` what
`mysql_close` took. -/
structure Pool where
  heap : Nat → Option DbConnection
  freeList : Option Nat
  usedList : Option Nat
  totalConnections : Int
  pending : List (Nat × Nat)
  held : List (Nat × Nat)
  given : List Nat
  closed : List Nat

/-- What `db_connection_t **pp` points to. -/
inductive Slot where
  | usedList
  | next (conn : Nat)
deriving DecidableEq, Repr

namespace Pool

def deref (pool : Pool) (conn : Nat) : Except Fault DbConnection :=
  match pool.heap conn with
  | none => .error .useAfterFree
  | some value => .ok value

def setConn (pool : Pool) (conn : Nat) (value : DbConnection) : Pool :=
  { pool with heap := Function.update pool.heap conn (some value) }

def modify (pool : Pool) (conn : Nat) (change : DbConnection → DbConnection) :
    Except Fault Pool := do
  return pool.setConn conn (change (← pool.deref conn))

def free (pool : Pool) (conn : Nat) : Pool :=
  { pool with heap := Function.update pool.heap conn none }

/-- `mysql_init(NULL)` -/
def mysqlInit (pool : Pool) (mysql : Option Nat) : Pool :=
  { pool with given := pool.given ++ mysql.toList }

/-- `mysql_close`, which does nothing with a null pointer. -/
def mysqlClose (pool : Pool) (mysql : Option Nat) : Pool :=
  { pool with closed := pool.closed ++ mysql.toList }

/-- `*pp` -/
def read (pool : Pool) : Slot → Except Fault (Option Nat)
  | .usedList => .ok pool.usedList
  | .next conn => do return (← pool.deref conn).next

/-- `*pp = p` -/
def write (pool : Pool) (pp : Slot) (p : Option Nat) : Except Fault Pool :=
  match pp with
  | .usedList => .ok { pool with usedList := p }
  | .next conn => pool.modify conn fun value => { value with next := p }

end Pool

def createDbConnection (pool : Pool) (out : Outcome) : Pool × Option Nat :=
  match out.block with
  | none => (pool, none)
  | some conn =>
      let pool := pool.mysqlInit out.init
      match out.init with
      | none => (pool.free conn, none)
      | some mysql =>
          if out.connected = false then ((pool.mysqlClose mysql).free conn, none)
          else (pool.setConn conn ⟨some mysql, 0, out.now, none⟩, some conn)

/-- One round of the loop of `init_connection_pool`. -/
def openInitial (pool : Pool) (out : Outcome) : Except Fault Pool := do
  match createDbConnection pool out with
  | (pool, none) => return pool
  | (pool, some conn) =>
      let pool ← pool.modify conn fun value => { value with next := pool.freeList }
      return { pool with freeList := some conn, totalConnections := pool.totalConnections + 1 }

/-- The state before the loop of `init_connection_pool`. -/
def emptyPool : Pool := ⟨fun _ => none, none, none, 0, [], [], [], []⟩

/-- `while (*pp != conn) pp = &(*pp)->next; *pp = conn->next;` -/
def unlinkConn (conn : Nat) : Nat → Pool → Slot → Except Fault Pool
  | 0, _, _ => .error .fuel
  | fuel + 1, pool, pp => do
      match ← pool.read pp with
      | none => throw .nullDeref
      | some other =>
          if other = conn then pool.write pp (← pool.deref conn).next
          else unlinkConn conn fuel pool (.next other)

/-- The locked section of `get_connection_from_pool`. A thread that finds neither a free
connection nor room for a new one comes back later. -/
def getConnectionFromPool (pool : Pool) (thread : Nat) (out : Outcome) : Except Fault Pool := do
  match pool.freeList with
  | some conn =>
      let pool := { pool with freeList := (← pool.deref conn).next }
      let pool ← pool.modify conn fun value => { value with inUse := 1 }
      let pool ← pool.modify conn fun value => { value with next := pool.usedList }
      let pool := { pool with usedList := some conn }
      if out.alive = true then
        return { pool with pending := pool.pending ++ [(thread, conn)] }
      let pool := pool.mysqlClose (← pool.deref conn).mysql
      let pool ← (pool.mysqlInit out.init).modify conn fun value => { value with mysql := out.init }
      if out.init = none then throw .nullDeref
      if out.connected = true then
        return { pool with pending := pool.pending ++ [(thread, conn)] }
      let pool ← unlinkConn conn (maxPoolSize + 1) pool .usedList
      return { pool.free conn with totalConnections := pool.totalConnections - 1 }
  | none =>
      if pool.totalConnections < maxPoolSize then
        match createDbConnection pool out with
        | (pool, none) => return pool
        | (pool, some conn) =>
            let pool ← pool.modify conn fun value => { value with inUse := 1 }
            let pool ← pool.modify conn fun value => { value with next := pool.usedList }
            return { pool with
              usedList := some conn
              totalConnections := pool.totalConnections + 1
              pending := pool.pending ++ [(thread, conn)] }
      else return pool

/-- `return conn->mysql;`, which the thread does after it gave the mutex back. -/
def returnMysql (pool : Pool) (thread conn : Nat) : Except Fault Pool := do
  let pool := { pool with pending := pool.pending.erase (thread, conn) }
  match (← pool.deref conn).mysql with
  | none => return pool
  | some mysql => return { pool with held := pool.held ++ [(thread, mysql)] }

/-- The loop of `release_connection_to_pool` that finds the handle and takes its node out
of the list. -/
def findConn (mysql : Nat) : Nat → Pool → Slot → Except Fault (Option Nat × Pool)
  | 0, _, _ => .error .fuel
  | fuel + 1, pool, pp => do
      match ← pool.read pp with
      | none => return (none, pool)
      | some conn =>
          let value ← pool.deref conn
          if value.mysql = some mysql then return (some conn, ← pool.write pp value.next)
          else findConn mysql fuel pool (.next conn)

def releaseConnectionToPool (pool : Pool) (thread : Nat) (mysql : Option Nat) (out : Outcome) :
    Except Fault Pool := do
  match mysql with
  | none => return pool
  | some mysql =>
      let pool := { pool with held := pool.held.erase (thread, mysql) }
      match ← findConn mysql (maxPoolSize + 1) pool .usedList with
      | (none, pool) => return pool
      | (some conn, pool) =>
          if out.alive = false then
            let pool := pool.mysqlClose (← pool.deref conn).mysql
            return { pool.free conn with totalConnections := pool.totalConnections - 1 }
          let pool ← pool.modify conn fun value => { value with inUse := 0 }
          let pool ← pool.modify conn fun value => { value with lastUsed := out.now }
          let pool ← pool.modify conn fun value => { value with next := pool.freeList }
          return { pool with freeList := some conn }

/-- What the threads do with the pool, in the order of the locked sections. Only a
thread that left `get_connection_from_pool` with a connection reads its handle. -/
inductive Event where
  | get (thread : Nat) (out : Outcome)
  | answer (thread conn : Nat)
  | release (thread : Nat) (mysql : Option Nat) (out : Outcome)

def step (pool : Pool) : Event → Except Fault Pool
  | .get thread out => getConnectionFromPool pool thread out
  | .answer thread conn =>
      if (thread, conn) ∈ pool.pending then returnMysql pool thread conn else .ok pool
  | .release thread mysql out => releaseConnectionToPool pool thread mysql out

end LinuxCpp.Mysql
