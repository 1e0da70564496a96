import LinuxCpp.C.Strtok
import LinuxCpp.Kvstore.Array
import LinuxCpp.Kvstore.Hash
import LinuxCpp.Kvstore.Rbtree

set_option autoImplicit false

/- The request language of kvstore.c: a message is cut at blanks, its first
token selects one of fifteen commands, the next two are key and value. The
five cases of the three engines are one definition with the engine as a
parameter; they differ in one error text. -/
namespace LinuxCpp.Kvstore

open C

def kvsMaxTokens : Nat := 128

inductive Engine where
  | array
  | rbtree
  | hash
deriving DecidableEq, Repr

inductive Verb where
  | set
  | get
  | del
  | mod
  | exist
deriving DecidableEq, Repr

/-- The three globals. -/
structure Store where
  array : KvsArray
  rbtree : Rbtree
  hash : HashTable

def ascii (text : List Char) : List UInt8 := text.map fun c => c.toNat.toUInt8

/-- The names and the order of the table `command`. -/
def command : List (List Char × Engine × Verb) :=
  [(['S', 'E', 'T'], .array, .set),
    (['G', 'E', 'T'], .array, .get),
    (['D', 'E', 'L'], .array, .del),
    (['M', 'O', 'D'], .array, .mod),
    (['E', 'X', 'I', 'S', 'T'], .array, .exist),
    (['R', 'S', 'E', 'T'], .rbtree, .set),
    (['R', 'G', 'E', 'T'], .rbtree, .get),
    (['R', 'D', 'E', 'L'], .rbtree, .del),
    (['R', 'M', 'O', 'D'], .rbtree, .mod),
    (['R', 'E', 'X', 'I', 'S', 'T'], .rbtree, .exist),
    (['H', 'S', 'E', 'T'], .hash, .set),
    (['H', 'G', 'E', 'T'], .hash, .get),
    (['H', 'D', 'E', 'L'], .hash, .del),
    (['H', 'M', 'O', 'D'], .hash, .mod),
    (['H', 'E', 'X', 'I', 'S', 'T'], .hash, .exist)]

/-- The first command whose name compares equal; none leaves the loop with
`KVS_CMD_COUNT`. -/
def findCommand (token : CStr) : Option (Engine × Verb) :=
  (command.find? fun entry => strcmp token (CStr.upToNul (ascii entry.1)) = 0).map Prod.snd

/-- The loop of `kvs_split_token` from `tokens[idx]` on. -/
def splitLoop : Nat → Nat → List UInt8 → Except Fault (List CStr)
  | 0, _, _ => .error .fuel
  | fuel + 1, idx, bytes => do
      match ← strtok 32 bytes with
      | none => return []
      | some (token, rest) =>
          if idx < kvsMaxTokens then
            return token :: (← splitLoop fuel (idx + 1) rest)
          else
            throw .outOfBounds

/-- `msg` is the memory from the start of the message to the end of its
buffer. Every round of the loop consumes a byte. -/
def kvsSplitToken (msg : List UInt8) : Except Fault (List CStr) := splitLoop (msg.length + 1) 0 msg

/-- What a call leaves for the caller: the value returned, and the bytes that
`sprintf` wrote to `response` before its NUL. -/
structure Reply where
  ret : Int
  text : Option (List UInt8)
deriving DecidableEq, Repr

def sprintf (text : List UInt8) : Reply := ⟨text.length, some text⟩

def okText : List UInt8 := ascii ['o', 'k', '\r', '\n']
def existText : List UInt8 := ascii ['e', 'x', 'i', 's', 't', '\r', '\n']
def noExistText : List UInt8 := ascii ['n', 'o', ' ', 'e', 'x', 'i', 's', 't', '\r', '\n']
def errorText : List UInt8 := ascii ['e', 'r', 'r', 'o', 'r', '\r', '\n']
def setErrorText : List UInt8 :=
  ascii ['s', 'e', 't', ' ', 'e', 'r', 'r', 'o', 'r', '\r', '\n']

/-- `HSET` answers "error" where the other two answer "set error". -/
def setFailure : Engine → List UInt8
  | .array => setErrorText
  | .rbtree => setErrorText
  | .hash => errorText

/-- `if (ret < 0) ... else if (ret == 0) ... else ...` -/
def codeReply (negative zero positive : List UInt8) (ret : Int) : Reply :=
  sprintf (if ret < 0 then negative else if ret = 0 then zero else positive)

def existReply (ret : Int) : Reply := sprintf (if ret = 0 then existText else noExistText)

def valueReply (result : CPtr) : Except Fault Reply := do
  if result = .null then return sprintf noExistText
  return sprintf ((← result.deref).bytes ++ ascii ['\r', '\n'])

section Engines

variable (fuel : Nat) (S : Store) (key value : Option CStr)

def kvsSet : Engine → CM (Int × Store)
  | .array => do
      let (ret, array) ← kvsArraySet S.array key value
      return (ret, { S with array := array })
  | .rbtree => do
      let (ret, rbtree) ← kvsRbtreeSet fuel S.rbtree key value
      return (ret, { S with rbtree := rbtree })
  | .hash => do
      let (ret, hash) ← kvsHashSet S.hash key value
      return (ret, { S with hash := hash })

def kvsGet : Engine → Except Fault CPtr
  | .array => kvsArrayGet S.array key
  | .rbtree => kvsRbtreeGet fuel S.rbtree key
  | .hash => kvsHashGet S.hash key

def kvsDel : Engine → CM (Int × Store)
  | .array => do
      let (ret, array) ← kvsArrayDel S.array key
      return (ret, { S with array := array })
  | .rbtree => do
      let (ret, rbtree) ← kvsRbtreeDel fuel S.rbtree key
      return (ret, { S with rbtree := rbtree })
  | .hash => do
      let (ret, hash) ← kvsHashDel S.hash key
      return (ret, { S with hash := hash })

def kvsMod : Engine → CM (Int × Store)
  | .array => do
      let (ret, array) ← kvsArrayMod S.array key value
      return (ret, { S with array := array })
  | .rbtree => do
      let (ret, rbtree) ← kvsRbtreeMod fuel S.rbtree key value
      return (ret, { S with rbtree := rbtree })
  | .hash => do
      let (ret, hash) ← kvsHashMod S.hash key value
      return (ret, { S with hash := hash })

def kvsExist : Engine → Except Fault Int
  | .array => kvsArrayExist S.array key
  | .rbtree => kvsRbtreeExist fuel S.rbtree key
  | .hash => kvsHashExist S.hash key

/-- One case of the switch. -/
def runCommand (engine : Engine) : Verb → CM (Reply × Store)
  | .set => do
      let (ret, S) ← kvsSet fuel S key value engine
      return (codeReply (setFailure engine) okText existText ret, S)
  | .get => do
      return (← valueReply (← kvsGet fuel S key engine), S)
  | .del => do
      let (ret, S) ← kvsDel fuel S key engine
      return (codeReply errorText okText noExistText ret, S)
  | .mod => do
      let (ret, S) ← kvsMod fuel S key value engine
      return (codeReply errorText okText noExistText ret, S)
  | .exist => do
      return (existReply (← kvsExist fuel S key engine), S)

end Engines

def kvsFilterProtocol (fuel : Nat) (S : Store) (tokens : List CStr) : CM (Reply × Store) :=
  match tokens with
  | [] => return (⟨-1, none⟩, S)
  | name :: args =>
      match findCommand name with
      | none => throw .abort
      | some (engine, verb) => runCommand fuel S args[0]? args[1]? engine verb

/-- `length` is only tested for being positive. -/
def kvsProtocol (fuel : Nat) (S : Store) (msg : List UInt8) (length : Int) :
    CM (Reply × Store) := do
  if length ≤ 0 then return (⟨-1, none⟩, S)
  kvsFilterProtocol fuel S (← kvsSplitToken msg)

/-- The return values of the three `create` calls are not looked at. -/
def initKvengine : CM Store := do
  let (_, array) ← kvsArrayCreate .zeroed
  let (_, rbtree) ← kvsRbtreeCreate
  let (_, hash) ← kvsHashCreate
  return ⟨array, rbtree, hash⟩

end LinuxCpp.Kvstore
