import LinuxCpp.Kvstore.Session
import LinuxCpp.Kvstore.StoreValues

set_option autoImplicit false

namespace LinuxCpp.Kvstore

open C

/-- Every value field of the three engines satisfies `P`. -/
structure Store.ValuesIn (P : CPtr → Prop) (S : Store) : Prop where
  array : S.array.ValuesIn P
  rbtree : S.rbtree.ValuesIn P
  hash : S.hash.ValuesIn P

section Values

variable {P : CPtr → Prop} {S : Store}

theorem initKvengine_values (admits : Admits P) :
    ReturnsM initKvengine fun S => S.ValuesIn P := by
  unfold initKvengine
  refine (kvsArrayCreate_values admits (by rintro _ ⟨⟩)).bind
    fun (_, array) inArray => ?_
  refine (kvsRbtreeCreate_values admits).bind fun (_, rbtree) inRbtree => ?_
  exact kvsHashCreate_values.bind fun (_, hash) inHash => .pure ⟨inArray, inRbtree, inHash⟩

theorem kvsSet_values (admits : Admits P) (fuel : Nat) (values : S.ValuesIn P) (key : Option CStr)
    {value : Option CStr} (allowed : Admitted P value) (engine : Engine) :
    ReturnsM (kvsSet fuel S key value engine) fun r => r.2.ValuesIn P := by
  cases engine with
  | array =>
      exact (kvsArraySet_values admits values.array key allowed).bind fun _ new =>
        .pure { values with array := new }
  | rbtree =>
      exact (kvsRbtreeSet_values admits fuel values.rbtree key allowed).bind fun _ new =>
        .pure { values with rbtree := new }
  | hash =>
      exact (kvsHashSet_values admits values.hash key allowed).bind fun _ new =>
        .pure { values with hash := new }

theorem kvsGet_values (admits : Admits P) (fuel : Nat) (values : S.ValuesIn P) (key : Option CStr)
    (engine : Engine) : Returns (kvsGet fuel S key engine) P := by
  cases engine with
  | array => exact kvsArrayGet_values admits values.array key
  | rbtree => exact kvsRbtreeGet_values admits fuel values.rbtree key
  | hash => exact kvsHashGet_values admits values.hash key

theorem kvsDel_values (admits : Admits P) (fuel : Nat) (values : S.ValuesIn P) (key : Option CStr)
    (engine : Engine) : ReturnsM (kvsDel fuel S key engine) fun r => r.2.ValuesIn P := by
  cases engine with
  | array =>
      exact (kvsArrayDel_values admits values.array key).bind fun _ new =>
        .pure { values with array := new }
  | rbtree =>
      exact (kvsRbtreeDel_values fuel values.rbtree key).bind fun _ new =>
        .pure { values with rbtree := new }
  | hash =>
      exact (kvsHashDel_values values.hash key).bind fun _ new =>
        .pure { values with hash := new }

theorem kvsMod_values (admits : Admits P) (fuel : Nat) (values : S.ValuesIn P) (key : Option CStr)
    {value : Option CStr} (allowed : Admitted P value) (engine : Engine) :
    ReturnsM (kvsMod fuel S key value engine) fun r => r.2.ValuesIn P := by
  cases engine with
  | array =>
      exact (kvsArrayMod_values admits values.array key allowed).bind fun _ new =>
        .pure { values with array := new }
  | rbtree =>
      exact (kvsRbtreeMod_values admits fuel values.rbtree key allowed).bind fun _ new =>
        .pure { values with rbtree := new }
  | hash =>
      exact (kvsHashMod_values admits values.hash key allowed).bind fun _ new =>
        .pure { values with hash := new }

/-- A command stores nothing but copies of its value argument. -/
theorem runCommand_values (admits : Admits P) (fuel : Nat) (values : S.ValuesIn P)
    (key : Option CStr) {value : Option CStr} (allowed : Admitted P value) (engine : Engine)
    (verb : Verb) : ReturnsM (runCommand fuel S key value engine verb) fun r => r.2.ValuesIn P := by
  cases verb with
  | set => exact (kvsSet_values admits fuel values key allowed engine).bind fun _ new => .pure new
  | get => exact .skip fun _ => .skip fun _ => .pure values
  | del => exact (kvsDel_values admits fuel values key engine).bind fun _ new => .pure new
  | mod => exact (kvsMod_values admits fuel values key allowed engine).bind fun _ new => .pure new
  | exist => exact .skip fun _ => .pure values

end Values

section Bound

/-- The longest value a message can carry: six bytes go to the shortest command
name, a key of one byte and two blanks. -/
def maxValue : Nat := bufferLength - 6

/-- If this is a string, then one that came in a message. -/
def Short (p : CPtr) : Prop := ∀ s : CStr, p.str? = some s → s.bytes.length ≤ maxValue

theorem short_admits : Admits Short where
  junk word := by
    intro s isStr
    rw [CPtr.str?_ofWord] at isStr
    cases isStr
  freed block := by rintro s ⟨⟩

/-- The text of the reply and its NUL fit in `wbuffer`. -/
def Reply.Fits (reply : Reply) : Prop :=
  ∀ text, reply.text = some text → text.length + 1 ≤ bufferLength

theorem sprintf_fits {text : List UInt8} (short : text.length + 1 ≤ bufferLength) :
    (sprintf text).Fits := by
  rintro _ ⟨⟩
  exact short

theorem codeReply_fits (engine : Engine) (positive : List UInt8)
    (short : positive.length + 1 ≤ bufferLength) (ret : Int) :
    (codeReply (setFailure engine) okText positive ret).Fits ∧
      (codeReply errorText okText positive ret).Fits := by
  constructor
  · apply sprintf_fits
    split
    · cases engine <;> decide
    · split
      · decide
      · exact short
  · apply sprintf_fits
    split
    · decide
    · split
      · decide
      · exact short

theorem existReply_fits (ret : Int) : (existReply ret).Fits := by
  apply sprintf_fits
  split <;> decide

theorem valueReply_fits {result : CPtr} (short : Short result) :
    Returns (valueReply result) Reply.Fits := by
  unfold valueReply
  refine .ite (.pure (sprintf_fits (by decide))) ?_
  refine Returns.bind
    ⟨fun s read => short s (CPtr.deref_eq_ok.mp read)⟩ fun s bound => .pure (sprintf_fits ?_)
  have newline : (ascii ['\r', '\n']).length = 2 := rfl
  rw [List.length_append, newline]
  unfold maxValue bufferLength at *
  omega

theorem runCommand_fits {S : Store} (fuel : Nat) (values : S.ValuesIn Short)
    (key value : Option CStr) (engine : Engine) (verb : Verb) :
    ReturnsM (runCommand fuel S key value engine verb) fun r => r.1.Fits := by
  cases verb with
  | set => exact .skip fun r => .pure (codeReply_fits engine existText (by decide) r.1).1
  | get =>
      refine .bind (.lift (kvsGet_values short_admits fuel values key engine)) fun _ short => ?_
      exact .bind (.lift (valueReply_fits short)) fun _ fits => .pure fits
  | del => exact .skip fun r => .pure (codeReply_fits engine noExistText (by decide) r.1).2
  | mod => exact .skip fun r => .pure (codeReply_fits engine noExistText (by decide) r.1).2
  | exist => exact .skip fun ret => .pure (existReply_fits ret)

/-- No command has a name of fewer than three bytes. -/
theorem findCommand_length {token : CStr} (known : findCommand token ≠ none) :
    3 ≤ token.bytes.length := by
  cases hit : command.find? fun entry => strcmp token (CStr.upToNul (ascii entry.1)) = 0 with
  | none => exact absurd (by rw [findCommand, hit]; rfl) known
  | some entry =>
      have same := List.find?_some hit
      simp only [strcmp_eq_zero, decide_eq_true_eq] at same
      have long : ∀ entry ∈ command, 3 ≤ (CStr.upToNul (ascii entry.1)).bytes.length := by decide
      exact same ▸ long entry (List.mem_of_find?_eq_some hit)

/-- What a message leaves for the value of a command. -/
theorem messageTokens_value {msg : List UInt8} (fits : msg.length ≤ bufferLength)
    {name key value : CStr} {more : List CStr}
    (tokens : messageTokens msg = name :: key :: value :: more) (known : findCommand name ≠ none) :
    value.bytes.length ≤ maxValue := by
  have total := wordsFrom_length 32 [] (CStr.upToNul msg).bytes
  have nonempty : ∀ word ∈ wordsFrom 32 [] (CStr.upToNul msg).bytes, word ≠ [] :=
    fun _ => wordsFrom_nonempty
  have cut : ∀ bytes : List UInt8, (CStr.upToNul bytes).bytes.length ≤ bytes.length := fun bytes =>
    (List.takeWhile_sublist _).length_le
  rw [messageTokens, words] at tokens
  obtain ⟨nameWord, afterName, split, rfl, keyTail⟩ := List.map_eq_cons_iff.mp tokens
  obtain ⟨keyWord, afterKey, rfl, rfl, valueTail⟩ := List.map_eq_cons_iff.mp keyTail
  obtain ⟨valueWord, rest, rfl, rfl, -⟩ := List.map_eq_cons_iff.mp valueTail
  rw [split] at total nonempty
  simp only [List.map_cons, List.sum_cons, List.length_nil, Nat.zero_add] at total
  have nameLong := Nat.le_trans (findCommand_length known) (cut nameWord)
  have keyLong := List.length_pos_of_ne_nil (nonempty keyWord (by simp))
  have valueCut := cut valueWord
  have messageCut := cut msg
  unfold maxValue
  omega

/-- One call keeps the bound on stored values and answers within the buffer. -/
theorem request_bound {S : Store} {msg : List UInt8} (message : Message msg) (fuel : Nat)
    (values : S.ValuesIn Short) :
    ReturnsM (request fuel S msg) fun r => r.2.ValuesIn Short ∧ r.1.Fits := by
  suffices filtered : ReturnsM (kvsFilterProtocol fuel S (messageTokens msg))
      fun r => r.2.ValuesIn Short ∧ r.1.Fits from
    ⟨fun A => request_tokens message.received message.few fuel S A ▸ filtered.run A⟩
  cases tokens : messageTokens msg with
  | nil => exact .pure ⟨values, by rintro _ ⟨⟩⟩
  | cons name args =>
      simp only [kvsFilterProtocol]
      cases known : findCommand name with
      | none => exact .throw _
      | some hit =>
          obtain ⟨engine, verb⟩ := hit
          have allowed : Admitted Short args[1]? := by
            rintro v block present s ⟨⟩
            match args with
            | [] => cases present
            | [_] => cases present
            | key :: value :: more =>
                cases present
                exact messageTokens_value message.fits tokens (by rw [known]; simp)
          have kept := runCommand_values short_admits fuel values args[0]? allowed engine verb
          have fits := runCommand_fits fuel values args[0]? args[1]? engine verb
          exact kept.and fits

theorem reachable_short {allowed : Store → List UInt8 → Prop} {S : Store} {A : Allocator}
    (messages : ∀ S msg, allowed S msg → Message msg) (reachable : Reachable allowed S A) :
    S.ValuesIn Short := by
  induction reachable with
  | start granted created => exact (initKvengine_values short_admits).of_ok created
  | step _ received returned values =>
      exact ((request_bound (messages _ _ received) _ values).of_ok returned).1

/-- In every run, every reply with its NUL fits in `wbuffer`. -/
theorem reply_fits {S S' : Store} {A B : Allocator} {msg : List UInt8} {fuel : Nat} {reply : Reply}
    (reachable : Reachable (fun _ msg => Message msg) S A) (message : Message msg)
    (returned : request fuel S msg A = .ok ((reply, S'), B)) : reply.Fits :=
  have short := reachable_short (fun _ _ message => message) reachable
  ((request_bound message fuel short).of_ok returned).2

/-- `GET a` after `SET a 1`. -/
theorem reply_fits_echo : ∃ S A S' B, Reachable (fun _ msg => Message msg) S A ∧
    request 0 S (ascii ['G', 'E', 'T', ' ', 'a']) A =
      .ok ((⟨3, some [49, 13, 10]⟩, S'), B) ∧ Reply.Fits ⟨3, some [49, 13, 10]⟩ := by
  have start : Reachable (fun _ msg => Message msg) _ _ := .start Allocator.plentiful_allSucceed rfl
  have set : Message (ascii ['S', 'E', 'T', ' ', 'a', ' ', '1']) := by decide
  have get : Message (ascii ['G', 'E', 'T', ' ', 'a']) := by decide
  have stored := start.step set (show request 0 _ _ _ = _ from rfl)
  exact ⟨_, _, _, _, stored, rfl, reply_fits stored get (show request 0 _ _ _ = _ from rfl)⟩

end Bound

end LinuxCpp.Kvstore
