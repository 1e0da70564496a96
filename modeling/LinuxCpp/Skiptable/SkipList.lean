import LinuxCpp.C.Memory

set_option autoImplicit false

/- The skip list of kvs_skiptable.c. Nodes are never freed, so a new one gets the
next number for its address. -/
namespace LinuxCpp.Skiptable

open C

def maxLevel : Nat := 6

/-- A slot of `forward` that was never written is `none`. -/
structure Node where
  key : Int
  value : Int
  forward : List (Option (Option Nat))
deriving DecidableEq, Repr

structure SkipList where
  level : Nat
  header : Nat
  heap : Nat → Option Node
  allocated : Nat

namespace SkipList

def deref (list : SkipList) (node : Nat) : Except Fault Node :=
  match list.heap node with
  | none => .error .wildDeref
  | some value => .ok value

/-- `node->forward[i]` -/
def forward (list : SkipList) (node i : Nat) : Except Fault (Option Nat) := do
  match (← list.deref node).forward[i]? with
  | none => throw .outOfBounds
  | some none => throw .wildDeref
  | some (some next) => return next

/-- `node->forward[i] = p` -/
def setForward (list : SkipList) (node i : Nat) (p : Option Nat) : Except Fault SkipList := do
  let value ← list.deref node
  if i < value.forward.length then
    let value := { value with forward := value.forward.set i (some p) }
    return { list with heap := Function.update list.heap node (some value) }
  else throw .outOfBounds

end SkipList

def createNode (list : SkipList) (level : Nat) (key value : Int) : SkipList × Nat :=
  let node : Node := ⟨key, value, List.replicate (level + 1) none⟩
  ({ list with
      heap := Function.update list.heap list.allocated (some node)
      allocated := list.allocated + 1 }, list.allocated)

/-- The loop of `createSkipList` over the remaining `n` slots from `i`. -/
def clearHeader : Nat → Nat → SkipList → Except Fault SkipList
  | 0, _, list => .ok list
  | n + 1, i, list => do clearHeader n (i + 1) (← list.setForward list.header i none)

def createSkipList : Except Fault SkipList := do
  let (list, header) := createNode ⟨0, 0, fun _ => none, 0⟩ maxLevel (-1) (-1)
  clearHeader (maxLevel + 1) 0 { list with header := header }

/-- `while (rand() < RAND_MAX / 2 && level < MAX_LEVEL) level++;` with the outcome of
each comparison, over the remaining `n` levels. -/
def randomLevelFrom (flips : Nat → Bool) : Nat → Nat → Nat
  | 0, level => level
  | n + 1, level => if flips level = true then randomLevelFrom flips n (level + 1) else level

def randomLevel (flips : Nat → Bool) : Nat := randomLevelFrom flips maxLevel 0

/-- `while (current->forward[i] != NULL && current->forward[i]->key < key)` -/
def advance (list : SkipList) (key : Int) (i : Nat) : Nat → Nat → Except Fault Nat
  | 0, _ => .error .fuel
  | fuel + 1, current => do
      match ← list.forward current i with
      | none => return current
      | some next =>
          if (← list.deref next).key < key then advance list key i fuel next
          else return current

/-- `Node* update[MAX_LEVEL + 1]`, with the slots written so far. -/
abbrev Update := Nat → Option Nat

def setUpdate (update : Update) (i node : Nat) : Except Fault Update :=
  if i ≤ maxLevel then .ok (Function.update update i (some node)) else .error .outOfBounds

def getUpdate (update : Update) (i : Nat) : Except Fault Nat :=
  match update i with
  | none => .error .wildDeref
  | some node => .ok node

/-- The loop of `insert` from level `i` down to 0. -/
def descend (list : SkipList) (key : Int) : Nat → Nat → Update → Except Fault (Nat × Update)
  | i, current, update => do
      let current ← advance list key i (list.allocated + 1) current
      let update ← setUpdate update i current
      match i with
      | 0 => return (current, update)
      | i + 1 => descend list key i current update

/-- `for (i = skipList->level + 1; i <= level; ++i) update[i] = skipList->header;` over
the remaining `n` levels from `i`. -/
def raise (header : Nat) : Nat → Nat → Update → Except Fault Update
  | 0, _, update => .ok update
  | n + 1, i, update => do raise header n (i + 1) (← setUpdate update i header)

/-- The last loop of `insert` over the remaining `n` levels from `i`. -/
def linkLevels (newNode : Nat) (update : Update) : Nat → Nat → SkipList → Except Fault SkipList
  | 0, _, list => .ok list
  | n + 1, i, list => do
      let before ← getUpdate update i
      let list ← list.setForward newNode i (← list.forward before i)
      let list ← list.setForward before i (some newNode)
      linkLevels newNode update n (i + 1) list

/-- `if (level > skipList->level) { ... }` -/
def growLevel (list : SkipList) (level : Nat) (update : Update) :
    Except Fault (SkipList × Update) :=
  if list.level < level then do
    let update ← raise list.header (level - list.level) (list.level + 1) update
    return ({ list with level := level }, update)
  else .ok (list, update)

/-- `current != NULL && current->key == key` -/
def pointsAt (list : SkipList) (current : Option Nat) (key : Int) : Except Fault Bool :=
  match current with
  | none => .ok false
  | some node => do return decide ((← list.deref node).key = key)

def insert (list : SkipList) (key value : Int) (flips : Nat → Bool) :
    Except Fault (Bool × SkipList) := do
  let (current, update) ← descend list key list.level list.header fun _ => none
  let current ← list.forward current 0
  if ← pointsAt list current key then return (false, list)
  else
    let level := randomLevel flips
    let (list, update) ← growLevel list level update
    let (list, newNode) := createNode list level key value
    return (true, ← linkLevels newNode update (level + 1) 0 list)

/-- The loop of `search` from level `i` down to 0. -/
def descendSearch (list : SkipList) (key : Int) : Nat → Nat → Except Fault Nat
  | i, current => do
      let current ← advance list key i (list.allocated + 1) current
      match i with
      | 0 => return current
      | i + 1 => descendSearch list key i current

def search (list : SkipList) (key : Int) : Except Fault Bool := do
  let current ← descendSearch list key list.level list.header
  let current ← list.forward current 0
  pointsAt list current key

/-- One call of `insert`: the key, the value and the coin flips of its `randomLevel`. -/
structure Call where
  key : Int
  value : Int
  flips : Nat → Bool

/-- The list after these calls. -/
def insertAll : SkipList → List Call → Except Fault SkipList
  | list, [] => .ok list
  | list, call :: rest => do
      let (_, list) ← insert list call.key call.value call.flips
      insertAll list rest

end LinuxCpp.Skiptable
