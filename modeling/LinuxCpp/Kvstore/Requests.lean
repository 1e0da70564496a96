import LinuxCpp.Kvstore.LoopBound
import LinuxCpp.Kvstore.Session

set_option autoImplicit false

/- Requests as operations of a finite map. The three engines answer alike up to
the text for the deletion of a key that is not there. -/
namespace LinuxCpp.Kvstore

open C

/-- A request with its arguments. -/
inductive Request where
  | set (key value : CStr)
  | get (key : CStr)
  | del (key : CStr)
  | mod (key value : CStr)
  | exist (key : CStr)
deriving DecidableEq, Repr

abbrev View := CStr → Option CStr

namespace Request

def verb : Request → Verb
  | set _ _ => .set
  | get _ => .get
  | del _ => .del
  | mod _ _ => .mod
  | exist _ => .exist

def key : Request → CStr
  | set key _ => key
  | get key => key
  | del key => key
  | mod key _ => key
  | exist key => key

def value : Request → Option CStr
  | set _ value => some value
  | mod _ value => some value
  | _ => none

/-- The case of the switch that serves the request. -/
def exec (fuel : Nat) (S : Store) (engine : Engine) (r : Request) : CM (Reply × Store) :=
  runCommand fuel S (some r.key) r.value engine r.verb

/-- The text a map answers with; `missing` is for the deletion of an absent key. -/
def answer (missing : List UInt8) (m : View) : Request → List UInt8
  | set key _ => if m key = none then okText else existText
  | get key =>
      match m key with
      | none => noExistText
      | some value => value.bytes ++ ascii ['\r', '\n']
  | del key => if m key = none then missing else okText
  | mod key _ => if m key = none then noExistText else okText
  | exist key => if m key = none then noExistText else existText

/-- The map after the request. -/
def update (m : View) : Request → View
  | set key value => if m key = none then Function.update m key (some value) else m
  | get _ => m
  | del key => Function.update m key none
  | mod key value => if m key = none then m else Function.update m key (some value)
  | exist _ => m

/-- The number of bindings after the request. -/
def count (m : View) (n : Int) : Request → Int
  | set key _ => if m key = none then n + 1 else n
  | get _ => n
  | del key => if m key = none then n else n - 1
  | mod _ _ => n
  | exist _ => n

end Request

/-- The request that the tokens behind a command name carry. -/
def Verb.request : Verb → List CStr → Option Request
  | .set, key :: value :: _ => some (.set key value)
  | .get, key :: _ => some (.get key)
  | .del, key :: _ => some (.del key)
  | .mod, key :: value :: _ => some (.mod key value)
  | .exist, key :: _ => some (.exist key)
  | _, _ => none

/-- What the requests make of a map. -/
def viewAfter (m : View) (rs : List Request) : View := rs.foldl (fun m r => r.update m) m

/-- The command a message names, with its arguments. -/
def asked (msg : List UInt8) : Option (Engine × Request) :=
  match messageTokens msg with
  | [] => none
  | name :: args =>
      match findCommand name with
      | none => none
      | some (engine, verb) => (verb.request args).map (engine, ·)

theorem Verb.request_exec {verb : Verb} {args : List CStr} {r : Request}
    (carried : verb.request args = some r) (fuel : Nat) (S : Store) (engine : Engine) :
    runCommand fuel S args[0]? args[1]? engine verb = r.exec fuel S engine := by
  unfold Verb.request at carried
  split at carried <;> cases carried <;> rfl

/-- A message with its command and arguments is that request to that engine. -/
theorem request_asked {msg : List UInt8} (received : 0 < msg.length)
    (few : (messageTokens msg).length ≤ kvsMaxTokens) {engine : Engine} {r : Request}
    (named : asked msg = some (engine, r)) (fuel : Nat) (S : Store) (A : Allocator) :
    request fuel S msg A = r.exec fuel S engine A := by
  rw [request_tokens received few]
  unfold asked at named
  unfold kvsFilterProtocol
  cases tokens : messageTokens msg with
  | nil =>
      rw [tokens] at named
      cases named
  | cons name args =>
      rw [tokens] at named
      simp only at named ⊢
      cases known : findCommand name with
      | none =>
          rw [known] at named
          cases named
      | some hit =>
          rw [known] at named
          simp only [Option.map_eq_some_iff, Prod.mk.injEq] at named ⊢
          obtain ⟨carriedRequest, carried, rfl, rfl⟩ := named
          rw [Verb.request_exec carried]

/-- Every large enough bound on the loops gives this reply and this state. -/
def Answers (S : Store) (A : Allocator) (engine : Engine) (r : Request) (text : List UInt8)
    (S' : Store) (B : Allocator) : Prop :=
  ∃ bound, ∀ fuel, bound ≤ fuel → r.exec fuel S engine A = .ok ((sprintf text, S'), B)

section Answers

variable {S S' : Store} {A B : Allocator} {engine : Engine} {key value : CStr} {m : View}

/-- One bound that is large enough shows that all larger ones are. -/
theorem Answers.of_run {r : Request} {text : List UInt8} (fuel : Nat)
    (ran : r.exec fuel S engine A = .ok ((sprintf text, S'), B)) :
    Answers S A engine r text S' B :=
  ⟨fuel, fun _ larger => ((runCommand_extends _ _ _ _ larger).run A).of_ok _ ran⟩

theorem Request.exec_set {ret : Int} {fuel : Nat}
    (ran : kvsSet fuel S (some key) (some value) engine A = .ok ((ret, S'), B)) :
    (Request.set key value).exec fuel S engine A =
      .ok ((codeReply (setFailure engine) okText existText ret, S'), B) :=
  bind_ok ran

theorem Request.exec_mod {ret : Int} {fuel : Nat}
    (ran : kvsMod fuel S (some key) (some value) engine A = .ok ((ret, S'), B)) :
    (Request.mod key value).exec fuel S engine A =
      .ok ((codeReply errorText okText noExistText ret, S'), B) :=
  bind_ok ran

theorem Request.exec_del {ret : Int} {fuel : Nat}
    (ran : kvsDel fuel S (some key) engine A = .ok ((ret, S'), B)) :
    (Request.del key).exec fuel S engine A =
      .ok ((codeReply errorText okText noExistText ret, S'), B) :=
  bind_ok ran

section Runs

variable {fuel : Nat} {missing : List UInt8}

theorem Request.exec_set_new (absent : m key = none)
    (ran : kvsSet fuel S (some key) (some value) engine A = .ok ((0, S'), B)) :
    (Request.set key value).exec fuel S engine A =
      .ok ((sprintf ((Request.set key value).answer missing m), S'), B) := by
  rw [Request.answer, if_pos absent]
  exact Request.exec_set ran

theorem Request.exec_set_old (present : m key ≠ none)
    (ran : kvsSet fuel S (some key) (some value) engine A = .ok ((1, S'), B)) :
    (Request.set key value).exec fuel S engine A =
      .ok ((sprintf ((Request.set key value).answer missing m), S'), B) := by
  rw [Request.answer, if_neg present]
  exact Request.exec_set ran

theorem Request.exec_mod_absent {code : Int} (absent : m key = none) (positive : 0 < code)
    (ran : kvsMod fuel S (some key) (some value) engine A = .ok ((code, S'), B)) :
    (Request.mod key value).exec fuel S engine A =
      .ok ((sprintf ((Request.mod key value).answer missing m), S'), B) := by
  rw [Request.answer, if_pos absent]
  have answered := Request.exec_mod ran
  rw [codeReply, if_neg (by omega), if_neg (by omega)] at answered
  exact answered

theorem Request.exec_mod_present (present : m key ≠ none)
    (ran : kvsMod fuel S (some key) (some value) engine A = .ok ((0, S'), B)) :
    (Request.mod key value).exec fuel S engine A =
      .ok ((sprintf ((Request.mod key value).answer missing m), S'), B) := by
  rw [Request.answer, if_neg present]
  exact Request.exec_mod ran

/-- The code for an absent key decides the text. -/
theorem Request.exec_del_absent {code : Int} (absent : m key = none)
    (ran : kvsDel fuel S (some key) engine A = .ok ((code, S'), B))
    (text : codeReply errorText okText noExistText code = sprintf missing) :
    (Request.del key).exec fuel S engine A =
      .ok ((sprintf ((Request.del key).answer missing m), S'), B) := by
  rw [Request.answer, if_pos absent]
  have answered := Request.exec_del ran
  rw [text] at answered
  exact answered

theorem Request.exec_del_present (present : m key ≠ none)
    (ran : kvsDel fuel S (some key) engine A = .ok ((0, S'), B)) :
    (Request.del key).exec fuel S engine A =
      .ok ((sprintf ((Request.del key).answer missing m), S'), B) := by
  rw [Request.answer, if_neg present]
  exact Request.exec_del ran

end Runs

theorem Answers.set_new {fuel : Nat} {missing : List UInt8} (absent : m key = none)
    (ran : kvsSet fuel S (some key) (some value) engine A = .ok ((0, S'), B)) :
    Answers S A engine (.set key value) ((Request.set key value).answer missing m) S' B :=
  .of_run fuel (Request.exec_set_new absent ran)

theorem Answers.set_old {fuel : Nat} {missing : List UInt8} (present : m key ≠ none)
    (ran : kvsSet fuel S (some key) (some value) engine A = .ok ((1, S'), B)) :
    Answers S A engine (.set key value) ((Request.set key value).answer missing m) S' B :=
  .of_run fuel (Request.exec_set_old present ran)

theorem Answers.mod_absent {fuel : Nat} {missing : List UInt8} {code : Int} (absent : m key = none)
    (positive : 0 < code)
    (ran : kvsMod fuel S (some key) (some value) engine A = .ok ((code, S'), B)) :
    Answers S A engine (.mod key value) ((Request.mod key value).answer missing m) S' B :=
  .of_run fuel (Request.exec_mod_absent absent positive ran)

theorem Answers.mod_present {fuel : Nat} {missing : List UInt8} (present : m key ≠ none)
    (ran : kvsMod fuel S (some key) (some value) engine A = .ok ((0, S'), B)) :
    Answers S A engine (.mod key value) ((Request.mod key value).answer missing m) S' B :=
  .of_run fuel (Request.exec_mod_present present ran)

theorem Answers.del_absent {fuel : Nat} {missing : List UInt8} {code : Int}
    (absent : m key = none)
    (ran : kvsDel fuel S (some key) engine A = .ok ((code, S'), B))
    (text : codeReply errorText okText noExistText code = sprintf missing) :
    Answers S A engine (.del key) ((Request.del key).answer missing m) S' B :=
  .of_run fuel (Request.exec_del_absent absent ran text)

theorem Answers.del_present {fuel : Nat} {missing : List UInt8} (present : m key ≠ none)
    (ran : kvsDel fuel S (some key) engine A = .ok ((0, S'), B)) :
    Answers S A engine (.del key) ((Request.del key).answer missing m) S' B :=
  .of_run fuel (Request.exec_del_present present ran)

/-- The deletion of an absent key. -/
theorem Request.update_del_absent (absent : m key = none) : (Request.del key).update m = m := by
  rw [Request.update, ← absent, Function.update_eq_self]

/-- The reply to `GET` from a pointer that holds what the map says. -/
theorem valueReply_holds {p : CPtr} (missing : List UInt8) (held : p.Holds (m key)) :
    valueReply p = .ok (sprintf ((Request.get key).answer missing m)) := by
  rw [Request.answer]
  cases bound : m key with
  | none =>
      rw [bound] at held
      rw [held.isNull]
      rfl
  | some value =>
      rw [bound] at held
      obtain ⟨block, rfl⟩ := held
      rfl

theorem existReply_code (missing : List UInt8) :
    existReply (if m key = none then 1 else 0) =
      sprintf ((Request.exist key).answer missing m) := by
  rw [Request.answer]
  split <;> rfl

end Answers

end LinuxCpp.Kvstore
