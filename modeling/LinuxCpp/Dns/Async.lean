import LinuxCpp.Dns.Labels
import LinuxCpp.Trace.Along

set_option autoImplicit false

/- The threads of dns_async.c: `main` with its list of tasks, and a worker for each task. One
access to a task and one call of `strtok` is one step, and any thread may take the next one. The
socket and the request that a worker builds are its own and left out, as are clocks. -/
namespace LinuxCpp.Dns

open C

/-- `struct dns_task` without the thread, which is detached. -/
structure DnsTask where
  domain : CStr
  response : List UInt8
  responseLen : Int
  status : Int
  next : Option Nat
deriving DecidableEq, Repr

/-- Where the worker of a task is in `dns_thread_work`. In `dns_create_question` it has still
to ask `strtok` for what is behind so many labels of its host name. -/
inductive WorkerPc where
  | started
  | socket
  | request
  | splitting (labels : Nat)
  | receive
  | received (n : Nat)
  | measured
  | failed
  | printing
  | ended
deriving DecidableEq, Repr

/-- Where `main` is, with the calls it makes. -/
inductive MainPc where
  | adding (domains : List CStr)
  | inserting (task : Nat) (domains : List CStr)
  | printTasks (i : Nat) (curr : Option Nat)
  | waitAll (elapsed : Nat) (curr : Option Nat)
  | findCompleted (prev curr : Option Nat) (successCount failCount : Nat)
  | reporting (task successCount failCount : Nat)
  | freeing (task successCount failCount : Nat)
  | ended (successCount failCount : Nat)
deriving DecidableEq, Repr

/-- What is printed about a task at the end: the length and the first bytes of the response. -/
structure Line where
  domain : CStr
  response : Option (Int × List UInt8)
deriving DecidableEq, Repr

/-- The threads. `started` has the tasks with a worker and what they were created for, `answers`
what a worker has received, `taken` the tasks that `main` has reported and freed; `completed`
says which of its two lines `dns_wait_all` has printed. `strtok` is the worker whose copy of a
host name `strtok` remembers. -/
structure Async where
  heap : Nat → Option DnsTask
  taskList : Option Nat
  calls : Nat
  worker : Nat → Option WorkerPc
  strtok : Option Nat
  main : MainPc
  started : List (Nat × CStr)
  answers : Nat → Option (List UInt8)
  taken : List Nat
  completed : Option Bool
  lines : List Line

/-- A turn of a thread, with what the system calls return if it makes one. -/
inductive Turn where
  | main (granted created : Bool)
  | worker (task : Nat) (opened : Bool) (answer : Option (List UInt8))
deriving DecidableEq, Repr

def Turn.isMain : Turn → Bool
  | .main _ _ => true
  | .worker _ _ _ => false

/-- `strncpy(task->domain, domain, sizeof(task->domain) - 1)` into zeros -/
def CStr.cut (domain : CStr) : CStr :=
  ⟨domain.bytes.take 255, fun member => domain.noNul (List.mem_of_mem_take member)⟩

/-- The task after `calloc` and `strncpy`. -/
def DnsTask.fresh (domain : CStr) : DnsTask :=
  ⟨CStr.cut domain, List.replicate 2048 0, 0, 0, none⟩

namespace Async

def deref (s : Async) (task : Nat) : Except Fault DnsTask :=
  match s.heap task with
  | none => .error .useAfterFree
  | some value => .ok value

def setTask (s : Async) (task : Nat) (value : DnsTask) : Async :=
  { s with heap := Function.update s.heap task (some value) }

def goWorker (s : Async) (task : Nat) (pc : WorkerPc) : Async :=
  { s with worker := Function.update s.worker task (some pc) }

/-- `main` with these domains on the command line, or with those it has itself. -/
def start (domains : List CStr) : Async :=
  ⟨fun _ => none, none, 0, fun _ => none, none, .adding domains, [], fun _ => none, [], none, []⟩

/-- `recvfrom` writes at most the size of the buffer. -/
def recvfrom (s : Async) (task : Nat) (answer : Option (List UInt8)) : Except Fault Async :=
  match answer with
  | none => .ok (s.goWorker task .failed)
  | some datagram => do
      let data := datagram.take 2048
      let value ← s.deref task
      let response ← storeAt value.response 0 data
      let s := s.setTask task { value with response := response }
      if 0 < data.length then
        return { s.goWorker task (.received data.length) with
          answers := Function.update s.answers task (some data) }
      else return s.goWorker task .failed

/-- `strtok(NULL, delim)` goes on where the last call of any thread stood. -/
def splitting (s : Async) (task : Nat) : Nat → Except Fault Async
  | 0 => .ok (s.goWorker task .receive)
  | labels + 1 =>
      if s.strtok = some task then .ok (s.goWorker task (.splitting labels)) else .error .race

/-- The next access of a worker to its task, or its next call of `strtok`. -/
def dnsThreadWork (s : Async) (task : Nat) (opened : Bool) (answer : Option (List UInt8)) :
    Except Fault Async :=
  match s.worker task with
  | none => .ok s
  | some .started => do
      let _ ← s.deref task
      return s.goWorker task .socket
  | some .socket => do
      if opened then return s.goWorker task .request
      let value ← s.deref task
      return (s.setTask task { value with status := -1 }).goWorker task .ended
  | some .request => do
      let value ← s.deref task
      let labels := (words 46 value.domain.bytes).length
      return { s.goWorker task (.splitting labels) with strtok := some task }
  | some (.splitting labels) => s.splitting task labels
  | some .receive => s.recvfrom task answer
  | some (.received n) => do
      let value ← s.deref task
      return (s.setTask task { value with responseLen := n }).goWorker task .measured
  | some .measured => do
      let value ← s.deref task
      return (s.setTask task { value with status := 1 }).goWorker task .printing
  | some .failed => do
      let value ← s.deref task
      return (s.setTask task { value with status := -1 }).goWorker task .printing
  | some .printing => do
      let _ ← s.deref task
      return s.goWorker task .ended
  | some .ended => .ok s

/-- `dns_add_task` as far as `pthread_detach`, or `main` behind its loop over the domains. -/
def addTask (s : Async) (domains : List CStr) (granted created : Bool) : Async :=
  match domains with
  | [] => { s with main := .printTasks 0 s.taskList }
  | domain :: domains =>
      if granted = false then { s with main := .adding domains }
      else
        let task := s.calls + 1
        let s := { s with calls := task }
        if created = false then { s with main := .adding domains }
        else { (s.setTask task (.fresh domain)).goWorker task .started with
          main := .inserting task domains
          started := s.started ++ [(task, domain)] }

/-- The locked section of `dns_add_task`. -/
def insert (s : Async) (task : Nat) (domains : List CStr) : Except Fault Async := do
  let value ← s.deref task
  return { s.setTask task { value with next := s.taskList } with
    taskList := some task
    main := .adding domains }

/-- A task of `dns_print_tasks`, or what follows the call: `main` prints three times. -/
def printTasks (s : Async) (i : Nat) (curr : Option Nat) : Except Fault Async :=
  match curr with
  | some task => do
      let value ← s.deref task
      return { s with main := .printTasks i value.next }
  | none =>
      if i + 1 < 3 then .ok { s with main := .printTasks (i + 1) s.taskList }
      else .ok { s with main := .waitAll 0 s.taskList }

/-- A task of `dns_wait_all(10)`. -/
def waitAll (s : Async) (elapsed : Nat) (curr : Option Nat) : Except Fault Async :=
  match curr with
  | some task => do
      let value ← s.deref task
      if value.status = 0 then
        if elapsed + 1 < 10 then return { s with main := .waitAll (elapsed + 1) s.taskList }
        else return { s with
          main := .findCompleted none s.taskList 0 0
          completed := some false }
      else return { s with main := .waitAll elapsed value.next }
  | none => .ok { s with
      main := .findCompleted none s.taskList 0 0
      completed := some true }

/-- `prev->next = curr->next`, or an assignment to the head of the list -/
def unlink (s : Async) (prev next : Option Nat) : Except Fault Async :=
  match prev with
  | some before => do
      let value ← s.deref before
      return s.setTask before { value with next := next }
  | none => .ok { s with taskList := next }

/-- A task of `dns_find_completed_task`. -/
def findCompleted (s : Async) (prev curr : Option Nat) (successCount failCount : Nat) :
    Except Fault Async :=
  match curr with
  | none => .ok { s with main := .ended successCount failCount }
  | some task => do
      let value ← s.deref task
      if value.status ≠ 0 then
        let s ← s.unlink prev value.next
        return { s with main := .reporting task successCount failCount }
      else return { s with main := .findCompleted (some task) value.next successCount failCount }

/-- What `main` prints about a task. -/
def report (s : Async) (task successCount failCount : Nat) : Except Fault Async := do
  let value ← s.deref task
  if value.status = 1 then
    let head ← loadAt value.response 0 (min value.responseLen 16).toNat
    return { s with
      main := .freeing task (successCount + 1) failCount
      lines := s.lines ++ [⟨value.domain, some (value.responseLen, head)⟩] }
  else return { s with
      main := .freeing task successCount (failCount + 1)
      lines := s.lines ++ [⟨value.domain, none⟩] }

def freeTask (s : Async) (task successCount failCount : Nat) : Except Fault Async := do
  let _ ← s.deref task
  return { s with
    heap := Function.update s.heap task none
    main := .findCompleted none s.taskList successCount failCount
    taken := s.taken ++ [task] }

/-- The next access of `main` to a task, or its next call. -/
def mainStep (s : Async) (granted created : Bool) : Except Fault Async :=
  match s.main with
  | .adding domains => .ok (s.addTask domains granted created)
  | .inserting task domains => s.insert task domains
  | .printTasks i curr => s.printTasks i curr
  | .waitAll elapsed curr => s.waitAll elapsed curr
  | .findCompleted prev curr success fail => s.findCompleted prev curr success fail
  | .reporting task success fail => s.report task success fail
  | .freeing task success fail => s.freeTask task success fail
  | .ended _ _ => .ok s

def step (s : Async) : Turn → Except Fault Async
  | .main granted created => s.mainStep granted created
  | .worker task opened answer => s.dnsThreadWork task opened answer

/-- A worker that has set the status prints its last line while its task is still there, and no
other worker has begun with its own host name when one asks for its next label. -/
def Undisturbed (s : Async) : Turn → Prop
  | .main _ _ => True
  | .worker task _ _ =>
      match s.worker task with
      | some .printing => task ∉ s.taken
      | some (.splitting (_ + 1)) => s.strtok = some task
      | _ => True

instance (s : Async) (turn : Turn) : Decidable (s.Undisturbed turn) := by
  unfold Undisturbed
  split
  · infer_instance
  · split <;> infer_instance

end Async

end LinuxCpp.Dns
