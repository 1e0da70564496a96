import LinuxCpp.Kvstore.ArraySpec
import Mathlib.Data.List.Induction

set_option autoImplicit false

namespace LinuxCpp.Kvstore

open C

inductive ArrayOp where
  | set (key value : CStr)
  | get (key : CStr)
  | mod (key value : CStr)
  | del (key : CStr)
  | exist (key : CStr)
deriving DecidableEq, Repr

inductive ArrayRet where
  | code (value : Int)
  | ptr (result : CPtr)
deriving DecidableEq, Repr

def ArrayOp.exec : ArrayOp → KvsArray → CM (ArrayRet × KvsArray)
  | set key value, inst => do
      let (code, inst) ← kvsArraySet inst (some key) (some value)
      return (.code code, inst)
  | get key, inst => do
      return (.ptr (← kvsArrayGet inst (some key)), inst)
  | mod key value, inst => do
      let (code, inst) ← kvsArrayMod inst (some key) (some value)
      return (.code code, inst)
  | del key, inst => do
      let (code, inst) ← kvsArrayDel inst (some key)
      return (.code code, inst)
  | exist key, inst => do
      return (.code (← kvsArrayExist inst (some key)), inst)

/-- The calls of a run with what each of them returned. -/
abbrev ArrayTrace := List (ArrayOp × ArrayRet)

def arrayRun : List ArrayOp → KvsArray → CM (ArrayTrace × KvsArray)
  | [], inst => return ([], inst)
  | op :: ops, inst => do
      let (ret, inst) ← op.exec inst
      let (trace, inst) ← arrayRun ops inst
      return ((op, ret) :: trace, inst)

def arrayHistory (ops : List ArrayOp) : CM (ArrayTrace × KvsArray) := do
  let (_, inst) ← kvsArrayCreate .zeroed
  arrayRun ops inst

/-- The effect of one acknowledged call on the value expected for `key`. -/
def acknowledge (key : CStr) (current : Option CStr) : ArrayOp × ArrayRet → Option CStr
  | (.set k v, .code 0) => if k = key then some v else current
  | (.mod k v, .code 0) => if k = key then some v else current
  | (.del k, .code 0) => if k = key then none else current
  | _ => current

/-- The value of the last acknowledged write of `key`, unless deleted since. -/
def acknowledged (key : CStr) (trace : ArrayTrace) : Option CStr :=
  trace.foldl (acknowledge key) none

/-- The run returns from every call, and afterwards `kvs_array_get` answers for
every key with the last acknowledged write. -/
def Survives (A : Allocator) (ops : List ArrayOp) : Prop :=
  ∃ trace inst A', arrayHistory ops A = .ok ((trace, inst), A') ∧
    ∀ key, ∃ p, kvsArrayGet inst (some key) = .ok p ∧ p.Holds (acknowledged key trace)

/-- The cell of the key, if a scan can see it, is the last one a scan sees. -/
def LastCell (inst : KvsArray) (key : CStr) : Prop :=
  ∀ i cell, i < inst.total → inst.item i = .ok cell → cell.key.str? = some key →
    i + 1 = inst.total

/-- Every delete of the run finds its key in the last scanned cell. -/
def DeletesLastCell (A : Allocator) (ops : List ArrayOp) : Prop :=
  ∀ n key trace inst A', ops[n]? = some (.del key) →
    arrayHistory (ops.take n) A = .ok ((trace, inst), A') → LastCell inst key

@[simp] theorem acknowledged_nil (key : CStr) : acknowledged key [] = none := rfl

@[simp] theorem acknowledged_snoc (key : CStr) (trace : ArrayTrace) (step : ArrayOp × ArrayRet) :
    acknowledged key (trace ++ [step]) = acknowledge key (acknowledged key trace) step := by
  simp [acknowledged]

theorem arrayRun_snoc (ops : List ArrayOp) (op : ArrayOp) (inst : KvsArray) (A : Allocator) :
    arrayRun (ops ++ [op]) inst A =
      (do
        let (trace, inst) ← arrayRun ops inst
        let (ret, inst) ← op.exec inst
        return (trace ++ [(op, ret)], inst) : CM (ArrayTrace × KvsArray)) A := by
  induction ops generalizing inst A with
  | nil => simp [arrayRun]
  | cons first ops ih =>
      simp only [List.cons_append, arrayRun, bind_assoc, pure_bind]
      cases start : first.exec inst A with
      | error fault => simp [bind, StateT.bind, start, Except.bind]
      | ok result =>
          rw [bind_ok start, bind_ok start]
          simp only [bind, StateT.bind, ih]
          cases arrayRun ops result.1.2 result.2 with
          | error fault => rfl
          | ok middle =>
              simp only [Except.bind]
              cases op.exec middle.1.2 middle.2 <;> rfl

theorem arrayHistory_snoc {ops : List ArrayOp} {A A' : Allocator} {trace : ArrayTrace}
    {inst : KvsArray} (before : arrayHistory ops A = .ok ((trace, inst), A')) (op : ArrayOp) :
    arrayHistory (ops ++ [op]) A =
      (do
        let (ret, inst) ← op.exec inst
        return (trace ++ [(op, ret)], inst) : CM (ArrayTrace × KvsArray)) A' := by
  unfold arrayHistory at before ⊢
  obtain ⟨⟨code, fresh⟩, B, created, before⟩ := run_of_bind before
  rw [bind_ok created]
  simp only
  rw [arrayRun_snoc, bind_ok before]

/-- A history that returned, taken apart at its last call. -/
theorem arrayHistory_last {ops : List ArrayOp} {op : ArrayOp} {A B : Allocator}
    {trace' : ArrayTrace} {inst' : KvsArray}
    (ran : arrayHistory (ops ++ [op]) A = .ok ((trace', inst'), B)) :
    ∃ trace inst A' ret, arrayHistory ops A = .ok ((trace, inst), A') ∧
      op.exec inst A' = .ok ((ret, inst'), B) := by
  cases before : arrayHistory ops A with
  | error fault =>
      unfold arrayHistory at ran before
      cases created : kvsArrayCreate .zeroed A with
      | error fault =>
          rw [bind_error created] at ran
          cases ran
      | ok result =>
          obtain ⟨⟨code, fresh⟩, C⟩ := result
          rw [bind_ok created] at ran before
          simp only at ran before
          rw [arrayRun_snoc, bind_error before] at ran
          cases ran
  | ok result =>
      obtain ⟨⟨trace, inst⟩, A'⟩ := result
      rw [arrayHistory_snoc before] at ran
      cases stepped : op.exec inst A' with
      | error fault =>
          rw [bind_error stepped] at ran
          cases ran
      | ok done =>
          obtain ⟨⟨ret, inst''⟩, C⟩ := done
          rw [bind_ok stepped] at ran
          cases ran
          exact ⟨trace, inst, A', ret, rfl, stepped⟩

/-- What holds after `kvs_array_create` and is kept by every call that returns
holds after every history that returned. -/
theorem arrayHistory_invariant {A : Allocator}
    (holds : List ArrayOp → KvsArray → Allocator → Prop)
    (start : ∀ code inst B, kvsArrayCreate .zeroed A = .ok ((code, inst), B) → holds [] inst B)
    (step : ∀ ops op trace inst A' ret inst' B, arrayHistory ops A = .ok ((trace, inst), A') →
      holds ops inst A' → op.exec inst A' = .ok ((ret, inst'), B) → holds (ops ++ [op]) inst' B)
    {ops : List ArrayOp} {trace : ArrayTrace} {inst : KvsArray} {A' : Allocator}
    (ran : arrayHistory ops A = .ok ((trace, inst), A')) : holds ops inst A' := by
  induction ops using List.reverseRecOn generalizing trace inst A' with
  | nil =>
      unfold arrayHistory at ran
      cases created : kvsArrayCreate .zeroed A with
      | error fault =>
          rw [bind_error created] at ran
          cases ran
      | ok result =>
          rw [bind_ok created] at ran
          cases ran
          exact start _ _ _ created
  | append_singleton ops op ih =>
      obtain ⟨trace, inst, A', ret, before, stepped⟩ := arrayHistory_last ran
      exact step ops op _ _ _ _ _ _ before (ih before) stepped

theorem kvsArrayCreate_run {A : Allocator} (granted : A.AllSucceed) :
    ∃ inst, kvsArrayCreate .zeroed A = .ok ((0, inst), A.next) ∧ Represents inst [] := by
  refine ⟨_, by
    simp only [kvsArrayCreate, KvsArray.zeroed, Option.isSome_none, Bool.false_eq_true, ↓reduceIte]
    rw [bind_ok (malloc_run granted)]
    rfl, ⟨Nat.zero_le _, rfl, _, rfl, by simp⟩⟩

end LinuxCpp.Kvstore
