import LinuxCpp.Kvstore.EngineSteps

set_option autoImplicit false

/- The list of live bindings in the order in which they were added: what a
sequence of requests leaves in a map, and what the array keeps as long as only
the newest binding is ever deleted. -/
namespace LinuxCpp.Kvstore

open C

namespace Entries

def view (entries : Entries) : View := fun key => slotsGet key entries.slots

/-- The bindings after a request. -/
def after (entries : Entries) : Request → Entries
  | .set key value => if entries.view key = none then entries ++ [(key, value)] else entries
  | .get _ => entries
  | .del key => entries.filter fun entry => entry.1 ≠ key
  | .mod key value => entries.map fun entry => if entry.1 = key then (key, value) else entry
  | .exist _ => entries

section After

variable (entries : Entries) (key value : CStr)

theorem view_nil : view [] = fun _ => none := rfl

theorem view_cons (entry : CStr × CStr) (k : CStr) :
    view (entry :: entries) k = if entry.1 = k then some entry.2 else view entries k :=
  slotsGet_cons k entry entries

theorem view_snoc (k : CStr) :
    view (entries ++ [(key, value)]) k =
      (view entries k).or (if key = k then some value else none) := by
  rw [view, slotsGet_append, slotsGet_cons]
  rfl

theorem view_replaced (k : CStr) :
    view (entries.map fun entry => if entry.1 = key then (key, value) else entry) k =
      if k = key ∧ view entries key ≠ none then some value else view entries k := by
  induction entries with
  | nil => simp [view_nil]
  | cons entry rest ih =>
      rw [List.map_cons, view_cons, view_cons, view_cons, ih]
      by_cases here : entry.1 = key
      · by_cases same : k = key
        · simp [here, same]
        · simp [here, same, Ne.symm same]
      · by_cases same : k = key
        · simp [here, same]
        · simp [here, same]

theorem view_removed (k : CStr) :
    view (entries.filter fun entry => entry.1 ≠ key) k =
      if k = key then none else view entries k := by
  induction entries with
  | nil => simp [view_nil]
  | cons entry rest ih =>
      by_cases here : entry.1 = key
      · rw [List.filter_cons_of_neg (by simpa using here), ih, view_cons]
        by_cases same : k = key
        · simp [same]
        · simp [same, here, Ne.symm same]
      · rw [List.filter_cons_of_pos (by simpa using here), view_cons, view_cons, ih]
        by_cases same : k = key
        · simp [same, here]
        · simp [same]

/-- The list behaves as the map it stands for. -/
theorem view_after (r : Request) : (entries.after r).view = r.update entries.view := by
  funext k
  cases r with
  | get key => rfl
  | exist key => rfl
  | set key value =>
      rw [after, Request.update]
      split
      · rename_i absent
        rw [view_snoc, Function.update_apply]
        by_cases same : k = key
        · simp [same, absent]
        · simp [same, Ne.symm same]
      · rfl
  | mod key value =>
      rw [after, Request.update, view_replaced]
      by_cases absent : entries.view key = none
      · simp [absent]
      · rw [if_neg absent, Function.update_apply]
        simp [absent]
  | del key =>
      rw [after, Request.update, view_removed, Function.update_apply]

end After

theorem filter_ne_self {entries : Entries} {key : CStr} (absent : key ∉ entries.map Prod.fst) :
    (entries.filter fun entry => entry.1 ≠ key) = entries := by
  refine List.filter_eq_self.mpr fun entry member => ?_
  simp only [ne_eq, decide_eq_true_eq]
  rintro rfl
  exact absent (List.mem_map_of_mem member)

theorem map_ne_self {entries : Entries} {key value : CStr} (absent : key ∉ entries.map Prod.fst) :
    (entries.map fun entry => if entry.1 = key then (key, value) else entry) = entries := by
  refine (List.map_congr_left fun entry member => ?_).trans (List.map_id entries)
  rw [if_neg]
  · rfl
  · rintro rfl
    exact absent (List.mem_map_of_mem member)

theorem slotsIndex_last {front : Entries} {key : CStr} (fresh : key ∉ front.map Prod.fst)
    (old : CStr) : slotsIndex key (slots (front ++ [(key, old)])) = some front.length := by
  have passed : slotsIndex key front.slots = none :=
    slotsIndex_eq_none_iff.mpr (front.slotsGet_eq_none key fresh)
  rw [slotsIndex] at passed
  rw [slotsIndex, slots, List.map_append, List.findIdx?_append, ← slots, passed]
  simp [List.findIdx?_cons]

theorem nodup_after {entries : Entries} (distinct : (entries.map Prod.fst).Nodup) (r : Request) :
    ((entries.after r).map Prod.fst).Nodup := by
  cases r with
  | get key => exact distinct
  | exist key => exact distinct
  | set key value =>
      rw [after]
      split
      · rename_i absent
        rw [List.map_append, List.nodup_append]
        refine ⟨distinct, by simp, ?_⟩
        rintro k member _ last rfl
        have : k = key := by simpa using last
        exact entries.key_absent_of_slotsGet absent (this ▸ member)
      · exact distinct
  | mod key value =>
      have same : (entries.map fun entry => if entry.1 = key then (key, value) else entry).map
          Prod.fst = entries.map Prod.fst := by
        rw [List.map_map]
        refine List.map_congr_left fun entry _ => ?_
        simp only [Function.comp_apply]
        split
        · exact Eq.symm ‹_›
        · rfl
      rw [after, same]
      exact distinct
  | del key => exact distinct.sublist (List.filter_sublist.map Prod.fst)

/-- Only the newest binding is deleted. -/
def Newest (entries : Entries) (r : Request) : Prop :=
  ∀ key, r = .del key → ∃ front value, entries = front ++ [(key, value)]

/-- The length of the list is the count of the hash engine. -/
theorem length_after {entries : Entries} (distinct : (entries.map Prod.fst).Nodup) {r : Request}
    (newest : entries.Newest r) :
    ((entries.after r).length : Int) = r.count entries.view entries.length := by
  cases r with
  | get key => rfl
  | exist key => rfl
  | set key value =>
      rw [after, Request.count]
      split <;> simp
  | mod key value => simp [after, Request.count]
  | del key =>
      obtain ⟨front, old, rfl⟩ := newest key rfl
      have fresh := not_mem_front distinct
      have present : view (front ++ [(key, old)]) key ≠ none := by
        rw [view_snoc]
        simp
      rw [after, Request.count, if_neg present, List.filter_append, filter_ne_self fresh,
        List.filter_cons_of_neg (by simp)]
      simp

end Entries

section Dense

variable {inst inst' : KvsArray} {entries : Entries}

theorem scannedView_slots (entries : Entries) : scannedView entries.slots = entries.view := by
  funext key
  rw [scannedView, Entries.scanned_slots, Entries.view]

/-- The array keeps the list as it is. -/
theorem Dense.after (dense : Dense inst entries) {r : Request}
    (rep : Represents inst' (slotsStep entries.slots r)) (newest : entries.Newest r) :
    Dense inst' (entries.after r) := by
  cases r with
  | get key => exact ⟨rep, dense.distinct⟩
  | exist key => exact ⟨rep, dense.distinct⟩
  | set key value =>
      rw [slotsStep, scannedView_slots] at rep
      rw [Entries.after]
      split
      · rename_i absent
        rw [if_pos absent] at rep
        exact dense.append absent rep
      · rename_i present
        rw [if_neg present] at rep
        exact ⟨rep, dense.distinct⟩
  | mod key value =>
      rw [slotsStep, Entries.scanned_slots] at rep
      rw [Entries.after]
      cases index : slotsIndex key entries.slots with
      | none =>
          rw [index] at rep
          rw [Entries.map_ne_self (entries.key_absent_of_slotsGet (slotsIndex_none index))]
          exact ⟨rep, dense.distinct⟩
      | some i =>
          rw [index] at rep
          obtain ⟨front, old, back, rfl, rfl⟩ := entries.split_at index
          have back' : key ∉ back.map Prod.fst := by
            have distinct := dense.distinct
            rw [List.map_append, List.map_cons, List.nodup_append, List.nodup_cons] at distinct
            exact distinct.2.1.1
          rw [List.map_append, List.map_cons, if_pos rfl,
            Entries.map_ne_self (Entries.not_mem_front dense.distinct), Entries.map_ne_self back']
          exact dense.replace rep
  | del key =>
      obtain ⟨front, old, rfl⟩ := newest key rfl
      have fresh := Entries.not_mem_front dense.distinct
      rw [slotsStep, Entries.scanned_slots, Entries.slotsIndex_last fresh old] at rep
      rw [Entries.after, List.filter_append, Entries.filter_ne_self fresh,
        List.filter_cons_of_neg (by simp), List.filter_nil, List.append_nil]
      exact dense.removeLast rep

end Dense

section Message

/-- What the names of an engine start with. -/
def Engine.mark : Engine → List Char
  | .array => []
  | .rbtree => ['R']
  | .hash => ['H']

def Verb.name : Verb → List Char
  | .set => ['S', 'E', 'T']
  | .get => ['G', 'E', 'T']
  | .del => ['D', 'E', 'L']
  | .mod => ['M', 'O', 'D']
  | .exist => ['E', 'X', 'I', 'S', 'T']

/-- The message of a request: command, key and value with a blank between. -/
def Request.message (engine : Engine) (r : Request) : List UInt8 :=
  ascii (engine.mark ++ r.verb.name) ++ 32 :: (r.key.bytes ++
    match r.value with
    | none => []
    | some value => 32 :: value.bytes)

/-- A string that `strtok` finds as one token. -/
def IsToken (s : CStr) : Prop := s.bytes ≠ [] ∧ (32 : UInt8) ∉ s.bytes

def Request.Sayable (r : Request) : Prop :=
  IsToken r.key ∧ ∀ value, r.value = some value → IsToken value

theorem commandName_facts (engine : Engine) (verb : Verb) :
    ascii (engine.mark ++ verb.name) ≠ [] ∧ (32 : UInt8) ∉ ascii (engine.mark ++ verb.name) ∧
      (0 : UInt8) ∉ ascii (engine.mark ++ verb.name) ∧
      findCommand (CStr.upToNul (ascii (engine.mark ++ verb.name))) = some (engine, verb) := by
  cases engine <;> cases verb <;> decide

theorem messageTokens_message (engine : Engine) {r : Request} (sayable : r.Sayable) :
    messageTokens (r.message engine) =
      CStr.upToNul (ascii (engine.mark ++ r.verb.name)) :: r.key :: r.value.toList := by
  obtain ⟨nonempty, free, noNul, -⟩ := commandName_facts engine r.verb
  obtain ⟨⟨keyNonempty, keyFree⟩, valueToken⟩ := sayable
  have keyNoNul := r.key.noNul
  have start : ∀ word bytes : List UInt8, word ≠ [] → 32 ∉ word →
      words 32 ([] ++ (word ++ 32 :: bytes)) = word :: words 32 bytes := fun word bytes some free =>
    words_ended (by simp) some free bytes
  have last : ∀ word : List UInt8, word ≠ [] → 32 ∉ word → words 32 ([] ++ word) = [word] :=
    fun word some free => words_last (by simp) some free
  simp only [List.nil_append] at start last
  rw [messageTokens]
  cases value : r.value with
  | none =>
      have whole : (0 : UInt8) ∉ r.message engine := by
        simp [Request.message, value, noNul, keyNoNul]
      rw [CStr.upToNul_bytes whole, Request.message, value, List.append_nil,
        start _ _ nonempty free, last _ keyNonempty keyFree]
      simp [CStr.upToNul_self]
  | some v =>
      obtain ⟨valueNonempty, valueFree⟩ := valueToken v value
      have whole : (0 : UInt8) ∉ r.message engine := by
        simp [Request.message, value, noNul, keyNoNul, v.noNul]
      rw [CStr.upToNul_bytes whole, Request.message, value, start _ _ nonempty free,
        start _ _ keyNonempty keyFree, last _ valueNonempty valueFree]
      simp [CStr.upToNul_self]

/-- The protocol on a request of this form. -/
theorem request_message (engine : Engine) {r : Request} (sayable : r.Sayable) (fuel : Nat)
    (S : Store) (A : Allocator) :
    request fuel S (r.message engine) A = r.exec fuel S engine A := by
  have tokens := messageTokens_message engine sayable
  refine request_asked ?_ ?_ ?_ fuel S A
  · simp [Request.message]
  · rw [tokens]
    cases r <;> simp [Request.value, kvsMaxTokens]
  · rw [asked, tokens]
    simp only [(commandName_facts engine r.verb).2.2.2]
    cases r <;> rfl

end Message

end LinuxCpp.Kvstore
