import LinuxCpp.C.Memory
import LinuxCpp.RedBlack.Tree

set_option autoImplicit false

/- The red-black engine of kvs_rbtree.c on an explicit heap. Node addresses are
block numbers and 0 is NULL; loops take a bound, `fuel`. The mirrored halves
of the source are one definition with the side as a parameter. -/
namespace LinuxCpp.Kvstore

open C RedBlack

structure RbNode where
  color : Color
  right : Nat
  left : Nat
  parent : Nat
  key : CPtr
  value : CPtr
deriving DecidableEq, Repr

structure Rbtree where
  root : Nat
  nil : Nat
  heap : Nat → Option RbNode

namespace RbNode

def child (n : RbNode) : Dir → Nat
  | .left => n.left
  | .right => n.right

def setChild (n : RbNode) (d : Dir) (p : Nat) : RbNode :=
  match d with
  | .left => { n with left := p }
  | .right => { n with right := p }

/-- A node as the allocator hands it out. -/
def ofWords (words : Nat → Nat) : RbNode :=
  ⟨if words 0 = 1 then .red else .black, words 1, words 2, words 3, .ofWord (words 4),
    .ofWord (words 5)⟩

end RbNode

namespace Rbtree

def load (T : Rbtree) (a : Nat) : Except Fault RbNode :=
  match T.heap a with
  | some n => .ok n
  | none => .error (if a = 0 then .nullDeref else .wildDeref)

def store (T : Rbtree) (a : Nat) (n : RbNode) : Rbtree :=
  { T with heap := Function.update T.heap a (some n) }

def color (T : Rbtree) (a : Nat) : Except Fault Color := do return (← T.load a).color

def child (T : Rbtree) (d : Dir) (a : Nat) : Except Fault Nat := do return (← T.load a).child d

def parent (T : Rbtree) (a : Nat) : Except Fault Nat := do return (← T.load a).parent

def key (T : Rbtree) (a : Nat) : Except Fault CPtr := do return (← T.load a).key

def value (T : Rbtree) (a : Nat) : Except Fault CPtr := do return (← T.load a).value

def setColor (T : Rbtree) (a : Nat) (color : Color) : Except Fault Rbtree := do
  return T.store a { ← T.load a with color := color }

def setChild (T : Rbtree) (d : Dir) (a p : Nat) : Except Fault Rbtree := do
  return T.store a ((← T.load a).setChild d p)

def setParent (T : Rbtree) (a p : Nat) : Except Fault Rbtree := do
  return T.store a { ← T.load a with parent := p }

def setKey (T : Rbtree) (a : Nat) (key : CPtr) : Except Fault Rbtree := do
  return T.store a { ← T.load a with key := key }

def setValue (T : Rbtree) (a : Nat) (value : CPtr) : Except Fault Rbtree := do
  return T.store a { ← T.load a with value := value }

/-- The block of a node goes back to the allocator. -/
def drop (T : Rbtree) (a : Nat) : Rbtree := { T with heap := Function.update T.heap a none }

end Rbtree

/-- `y` takes the place of `x` below the parent of `x`. -/
def relink (d : Dir) (T : Rbtree) (x y : Nat) : Except Fault Rbtree := do
  if (← T.parent x) = T.nil then
    return { T with root := y }
  else if x = (← T.child d (← T.parent x)) then
    T.setChild d (← T.parent x) y
  else
    T.setChild d.opp (← T.parent x) y

/-- The parent field of `b` is set, unless `b` is the sentinel. -/
def adopt (T : Rbtree) (b parent : Nat) : Except Fault Rbtree :=
  if b ≠ T.nil then T.setParent b parent else .ok T

/-- Rotation of `x` towards side `d`. -/
def rotate (d : Dir) (T : Rbtree) (x : Nat) : Except Fault Rbtree := do
  let y ← T.child d.opp x
  let T ← T.setChild d.opp x (← T.child d y)
  let T ← adopt T (← T.child d y) x
  let T ← T.setParent y (← T.parent x)
  let T ← relink d T x y
  let T ← T.setChild d y x
  T.setParent x y

def rbtreeLeftRotate (T : Rbtree) (x : Nat) : Except Fault Rbtree := rotate .left T x

def rbtreeRightRotate (T : Rbtree) (y : Nat) : Except Fault Rbtree := rotate .right T y

/-- The leftmost (rightmost for the other side) node below `x`. -/
def extremum (d : Dir) (T : Rbtree) : Nat → Nat → Except Fault Nat
  | 0, _ => .error .fuel
  | fuel + 1, x => do
      let next ← T.child d x
      if next ≠ T.nil then extremum d T fuel next else return x

def rbtreeMini (fuel : Nat) (T : Rbtree) (x : Nat) : Except Fault Nat := extremum .left T fuel x

def rbtreeMaxi (fuel : Nat) (T : Rbtree) (x : Nat) : Except Fault Nat := extremum .right T fuel x

/-- `while ((y != T->nil) && (x == y->right)) { x = y; y = y->parent; }` -/
def climb (T : Rbtree) : Nat → Nat → Nat → Except Fault Nat
  | 0, _, _ => .error .fuel
  | fuel + 1, x, y => do
      if y = T.nil then return y
      if x = (← T.child .right y) then climb T fuel y (← T.parent y) else return y

def rbtreeSuccessor (fuel : Nat) (T : Rbtree) (x : Nat) : Except Fault Nat := do
  let y ← T.parent x
  if (← T.child .right x) ≠ T.nil then
    rbtreeMini fuel T (← T.child .right x)
  else
    climb T fuel x y

/-- An inner grandchild `z` is first turned into an outer one. -/
def turnInner (d : Dir) (T : Rbtree) (z : Nat) : Except Fault (Rbtree × Nat) := do
  if z = (← T.child d.opp (← T.parent z)) then
    let z ← T.parent z
    return (← rotate d T z, z)
  else
    return (T, z)

/-- One round of the insertion repair when `z->parent` is the `d`-child of its
parent. -/
def insertFixupRound (d : Dir) (T : Rbtree) (z : Nat) : Except Fault (Rbtree × Nat) := do
  let y ← T.child d.opp (← T.parent (← T.parent z))
  if (← T.color y) = .red then
    let T ← T.setColor (← T.parent z) .black
    let T ← T.setColor y .black
    let T ← T.setColor (← T.parent (← T.parent z)) .red
    return (T, ← T.parent (← T.parent z))
  else
    let (T, z) ← turnInner d T z
    let T ← T.setColor (← T.parent z) .black
    let T ← T.setColor (← T.parent (← T.parent z)) .red
    let T ← rotate d.opp T (← T.parent (← T.parent z))
    return (T, z)

def rbtreeInsertFixup : Nat → Rbtree → Nat → Except Fault Rbtree
  | 0, _, _ => .error .fuel
  | fuel + 1, T, z => do
      if (← T.color (← T.parent z)) = .red then
        let side ← T.child .left (← T.parent (← T.parent z))
        let d : Dir := if (← T.parent z) = side then .left else .right
        let (T, z) ← insertFixupRound d T z
        rbtreeInsertFixup fuel T z
      else
        T.setColor T.root .black

/-- The descent of `rbtree_insert`: the parent for `z`, or none if its key is
in the tree. -/
def insertDescent (T : Rbtree) (z : Nat) : Nat → Nat → Nat → Except Fault (Option Nat)
  | 0, _, _ => .error .fuel
  | fuel + 1, y, x => do
      if x = T.nil then return some y
      let order := strcmp (← (← T.key z).deref) (← (← T.key x).deref)
      if order < 0 then insertDescent T z fuel x (← T.child .left x)
      else if 0 < order then insertDescent T z fuel x (← T.child .right x)
      else return none

/-- The link from above to the new node `z`. -/
def attach (T : Rbtree) (z y : Nat) : Except Fault Rbtree := do
  if y = T.nil then
    return { T with root := z }
  else if strcmp (← (← T.key z).deref) (← (← T.key y).deref) < 0 then
    T.setChild .left y z
  else
    T.setChild .right y z

def rbtreeInsert (fuel : Nat) (T : Rbtree) (z : Nat) : Except Fault Rbtree := do
  match ← insertDescent T z fuel T.nil T.root with
  | none => return T
  | some y =>
      let T ← T.setParent z y
      let T ← attach T z y
      let T ← T.setChild .left z T.nil
      let T ← T.setChild .right z T.nil
      let T ← T.setColor z .red
      rbtreeInsertFixup fuel T z

/-- A red sibling `w` is rotated above the parent; the new sibling is black. -/
def liftRedSibling (d : Dir) (T : Rbtree) (x w : Nat) : Except Fault (Rbtree × Nat) := do
  if (← T.color w) = .red then
    let T ← T.setColor w .black
    let T ← T.setColor (← T.parent x) .red
    let T ← rotate d T (← T.parent x)
    return (T, ← T.child d.opp (← T.parent x))
  else
    return (T, w)

/-- `(w->left->color == BLACK) && (w->right->color == BLACK)` -/
def childrenBlack (T : Rbtree) (w : Nat) : Except Fault Bool := do
  if (← T.color (← T.child .left w)) = .black then
    return decide ((← T.color (← T.child .right w)) = .black)
  else
    return false

/-- A sibling whose far child is black is rotated away from `x` first. -/
def turnSibling (d : Dir) (T : Rbtree) (x w : Nat) : Except Fault (Rbtree × Nat) := do
  if (← T.color (← T.child d.opp w)) = .black then
    let T ← T.setColor (← T.child d w) .black
    let T ← T.setColor w .red
    let T ← rotate d.opp T w
    return (T, ← T.child d.opp (← T.parent x))
  else
    return (T, w)

/-- One round of the deletion repair when `x` is the `d`-child of its parent. -/
def deleteFixupRound (d : Dir) (T : Rbtree) (x : Nat) : Except Fault (Rbtree × Nat) := do
  let w ← T.child d.opp (← T.parent x)
  let (T, w) ← liftRedSibling d T x w
  if ← childrenBlack T w then
    let T ← T.setColor w .red
    return (T, ← T.parent x)
  else
    let (T, w) ← turnSibling d T x w
    let T ← T.setColor w (← T.color (← T.parent x))
    let T ← T.setColor (← T.parent x) .black
    let T ← T.setColor (← T.child d.opp w) .black
    let T ← rotate d T (← T.parent x)
    return (T, T.root)

def rbtreeDeleteFixup : Nat → Rbtree → Nat → Except Fault Rbtree
  | 0, _, _ => .error .fuel
  | fuel + 1, T, x => do
      if x = T.root then T.setColor x .black
      else if (← T.color x) = .black then
        let side ← T.child .left (← T.parent x)
        let d : Dir := if x = side then .left else .right
        let (T, x) ← deleteFixupRound d T x
        rbtreeDeleteFixup fuel T x
      else
        T.setColor x .black

/-- The node unlinked by the deletion of `z`: `z` itself or its successor. -/
def splicedNode (fuel : Nat) (T : Rbtree) (z : Nat) : Except Fault Nat := do
  if (← T.child .left z) = T.nil then return z
  else if (← T.child .right z) = T.nil then return z
  else rbtreeSuccessor fuel T z

/-- The exchange of the payloads of `z` and `y`, if they differ. -/
def swapPayload (T : Rbtree) (z y : Nat) : Except Fault Rbtree := do
  if y = z then return T
  let tmp ← T.key z
  let T ← T.setKey z (← T.key y)
  let T ← T.setKey y tmp
  let tmp ← T.value z
  let T ← T.setValue z (← T.value y)
  T.setValue y tmp

/-- The child of `y`, which has at most one. -/
def onlyChild (T : Rbtree) (y : Nat) : Except Fault Nat := do
  if (← T.child .left y) ≠ T.nil then T.child .left y
  else if (← T.child .right y) ≠ T.nil then T.child .right y
  else return T.nil

def rbtreeDelete (fuel : Nat) (T : Rbtree) (z : Nat) : Except Fault (Rbtree × Nat) := do
  let y ← splicedNode fuel T z
  let x ← onlyChild T y
  -- the parent field of the sentinel is left alone
  let T ← adopt T x (← T.parent y)
  let T ← relink .left T y x
  let T ← swapPayload T z y
  if (← T.color y) = .black then
    return (← rbtreeDeleteFixup fuel T x, y)
  else
    return (T, y)

def searchFrom (T : Rbtree) (key : CStr) : Nat → Nat → Except Fault Nat
  | 0, _ => .error .fuel
  | fuel + 1, node => do
      if node = T.nil then return T.nil
      let order := strcmp key (← (← T.key node).deref)
      if order < 0 then searchFrom T key fuel (← T.child .left node)
      else if 0 < order then searchFrom T key fuel (← T.child .right node)
      else return node

def rbtreeSearch (fuel : Nat) (T : Rbtree) (key : CStr) : Except Fault Nat :=
  searchFrom T key fuel T.root

/-- `kvs_malloc(sizeof(rbtree_node))`: the new node, or 0. -/
def mallocNode (T : Rbtree) : CM (Rbtree × Nat) := do
  match ← malloc with
  | none => return (T, 0)
  | some block => return (T.store block (.ofWords (← junkOf block)), block)

def kvsRbtreeCreate : CM (Int × Rbtree) := do
  let (T, nil) ← mallocNode ⟨0, 0, fun _ => none⟩
  let T ← ({ T with nil := nil } : Rbtree).setColor nil .black
  return (0, { T with root := nil })

/-- `while (!(node = inst->root))`: the body runs only while the root is NULL. -/
def destoryNodes : Nat → Rbtree → CM Rbtree
  | 0, _ => throw .fuel
  | fuel + 1, T => do
      if T.root ≠ 0 then return T
      let mini ← rbtreeMini fuel T T.root
      let (T, cur) ← rbtreeDelete fuel T mini
      freeBlock cur
      destoryNodes fuel (T.drop cur)

def kvsRbtreeDestory (fuel : Nat) (T : Rbtree) : CM Unit := do
  let T ← destoryNodes fuel T
  if T.nil ≠ 0 then freeBlock T.nil

def kvsRbtreeSet (fuel : Nat) (T : Rbtree) (key value : Option CStr) : CM (Int × Rbtree) := do
  match key, value with
  | some key, some value =>
      let (T, node) ← mallocNode T
      if (← rbtreeSearch fuel T key) ≠ T.nil then return (1, T)
      let kcopy ← strdup key
      let T ← T.setKey node kcopy
      if kcopy = .null then return (-2, T)
      let kvalue ← strdup value
      let T ← T.setValue node kvalue
      if kvalue = .null then return (-2, T)
      return (0, ← rbtreeInsert fuel T node)
  | _, _ => return (-1, T)

def kvsRbtreeGet (fuel : Nat) (T : Rbtree) (key : Option CStr) : Except Fault CPtr := do
  match key with
  | none => return .null
  | some key =>
      let node ← rbtreeSearch fuel T key
      if node = T.nil then return .null
      T.value node

def kvsRbtreeDel (fuel : Nat) (T : Rbtree) (key : Option CStr) : CM (Int × Rbtree) := do
  match key with
  | none => return (-1, T)
  | some key =>
      let node ← rbtreeSearch fuel T key
      if node = T.nil then return (1, T)
      let (T, cur) ← rbtreeDelete fuel T node
      freeBlock cur
      return (0, T.drop cur)

def kvsRbtreeMod (fuel : Nat) (T : Rbtree) (key value : Option CStr) : CM (Int × Rbtree) := do
  match key, value with
  | some key, some value =>
      let node ← rbtreeSearch fuel T key
      if node = T.nil then return (1, T)
      free (← T.value node)
      let kvalue ← strdup value
      let T ← T.setValue node kvalue
      if kvalue = .null then return (-2, T)
      return (0, T)
  | _, _ => return (-1, T)

def kvsRbtreeExist (fuel : Nat) (T : Rbtree) (key : Option CStr) : Except Fault Int := do
  match key with
  | none => return -1
  | some key => if (← rbtreeSearch fuel T key) = T.nil then return 1 else return 0

end LinuxCpp.Kvstore
