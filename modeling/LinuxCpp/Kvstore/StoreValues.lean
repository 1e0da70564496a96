import LinuxCpp.Kvstore.ProtocolSplit
import LinuxCpp.Kvstore.RbtreeValues

set_option autoImplicit false

namespace LinuxCpp.Kvstore

open C

/-- Every value field of the table satisfies `P`. -/
def KvsArray.ValuesIn (P : CPtr → Prop) (inst : KvsArray) : Prop :=
  ∀ table, inst.table = some table → ∀ i, P (table i).value

/-- Every value field of every chain satisfies `P`. -/
def HashTable.ValuesIn (P : CPtr → Prop) (h : HashTable) : Prop :=
  ∀ table, h.nodes = some table → ∀ s nodes, table s = .chain nodes → ∀ n ∈ nodes, P n.value

section Array

variable {P : CPtr → Prop} {inst : KvsArray}

theorem item_values (values : inst.ValuesIn P) (i : Nat) :
    Returns (inst.item i) fun cell => P cell.value := by
  refine ⟨fun cell loaded => ?_⟩
  unfold KvsArray.item at loaded
  split at loaded
  · cases loaded
  · split at loaded
    · cases loaded
      exact values _ ‹_› i
    · cases loaded

theorem setItem_values (values : inst.ValuesIn P) (i : Nat) {cell : KvsArrayItem}
    (holds : P cell.value) :
    Returns (inst.setItem i cell) fun inst => inst.ValuesIn P := by
  refine ⟨fun inst' stored => ?_⟩
  unfold KvsArray.setItem at stored
  split at stored
  · cases stored
  · rename_i table present
    split at stored
    · cases stored
      rintro _ ⟨⟩ j
      by_cases same : j = i
      · subst same
        rw [Function.update_self]
        exact holds
      · rw [Function.update_of_ne same]
        exact values table present j
    · cases stored

theorem kvsArrayCreate_values (admits : Admits P) (values : inst.ValuesIn P) :
    ReturnsM (kvsArrayCreate inst) fun r => r.2.ValuesIn P := by
  unfold kvsArrayCreate
  refine .ite (.pure values) (.skip fun block => ?_)
  cases block with
  | none => exact .pure values
  | some block =>
      refine .skip fun words => .pure ?_
      rintro _ ⟨⟩ i
      exact admits.junk _

theorem kvsArrayGet_values (admits : Admits P) (values : inst.ValuesIn P) (key : Option CStr) :
    Returns (kvsArrayGet inst key) P := by
  unfold kvsArrayGet
  split
  · exact .pure admits.null
  · refine .skip fun found => ?_
    cases found with
    | none => exact .pure admits.null
    | some i => exact (item_values values i).bind fun cell holds => .pure holds

theorem kvsArraySet_values (admits : Admits P) (values : inst.ValuesIn P) (key : Option CStr)
    {value : Option CStr} (allowed : Admitted P value) :
    ReturnsM (kvsArraySet inst key value) fun r => r.2.ValuesIn P := by
  unfold kvsArraySet
  split
  · rename_i k v
    refine .ite (.pure values) (.skip fun _ => .ite (.pure values) (.skip fun kcopy => ?_))
    refine .ite (.pure values) ?_
    refine (strdup_values admits fun block => allowed v block rfl).bind fun kvalue holds => ?_
    refine .ite (.pure values) (.skip fun hole => ?_)
    cases hole with
    | some i =>
        exact .bind (.lift (setItem_values values i holds)) fun inst values => .pure values
    | none =>
        refine .ite ?_ (.pure values)
        exact .bind (.lift (setItem_values values _ holds)) fun inst values => .pure values
  · exact .pure values

theorem kvsArrayDel_values (admits : Admits P) (values : inst.ValuesIn P) (key : Option CStr) :
    ReturnsM (kvsArrayDel inst key) fun r => r.2.ValuesIn P := by
  unfold kvsArrayDel
  split
  · exact .pure values
  · refine .skip fun found => ?_
    cases found with
    | none => exact .pure values
    | some i =>
        refine .skip fun cell => .skip fun _ => .skip fun _ => ?_
        exact .bind (.lift (setItem_values values i admits.null)) fun inst values => .pure values

theorem kvsArrayMod_values (admits : Admits P) (values : inst.ValuesIn P) (key : Option CStr)
    {value : Option CStr} (allowed : Admitted P value) :
    ReturnsM (kvsArrayMod inst key value) fun r => r.2.ValuesIn P := by
  unfold kvsArrayMod
  split
  · rename_i k v
    refine .ite (.pure values) (.skip fun found => ?_)
    cases found with
    | none => exact .pure values
    | some i =>
        refine .bind (.lift (item_values values i)) fun cell holds => .skip fun _ => ?_
        refine (strdup_values admits fun block => allowed v block rfl).bind fun kvalue holds' => ?_
        split
        · exact .bind (.lift (setItem_values values i holds')) fun inst values => .pure values
        · exact .bind (.lift (setItem_values values i (admits.released holds))) fun inst values =>
            .pure values
  · exact .pure values

end Array

section Hash

variable {P : CPtr → Prop} {h : HashTable}

/-- Every value field of the nodes satisfies `P`. -/
def NodesIn (P : CPtr → Prop) (nodes : List HashNode) : Prop := ∀ n ∈ nodes, P n.value

theorem load_values (values : h.ValuesIn P) (idx : Int) :
    Returns (h.load idx) fun b => ∀ nodes, b = .chain nodes → NodesIn P nodes := by
  refine ⟨fun b loaded => ?_⟩
  unfold HashTable.load at loaded
  split at loaded
  · cases loaded
  · rename_i table present
    split at loaded
    · cases loaded
      exact fun nodes chain => values table present _ nodes chain
    · cases loaded

theorem walk_values {b : Bucket} (values : ∀ nodes, b = .chain nodes → NodesIn P nodes) :
    Returns b.walk (NodesIn P) := by
  cases b with
  | chain nodes => exact .pure (values nodes rfl)
  | wild word => exact .error _

theorem HashTable.ValuesIn.store (values : h.ValuesIn P) (idx : Int) {nodes : List HashNode}
    (holds : NodesIn P nodes) (count : Int) :
    HashTable.ValuesIn P { h.store idx nodes with count := count } := by
  intro table present s list chain n member
  simp only [HashTable.store, Option.map_eq_some_iff] at present
  obtain ⟨old, isOld, rfl⟩ := present
  by_cases same : s = idx.toNat
  · subst same
    rw [Function.update_self] at chain
    cases chain
    exact holds n member
  · rw [Function.update_of_ne same] at chain
    exact values old isOld s list chain n member

theorem kvsHashCreate_values : ReturnsM kvsHashCreate fun r => r.2.ValuesIn P := by
  unfold kvsHashCreate
  refine .skip fun block => ?_
  cases block with
  | none => exact .pure (by rintro _ ⟨⟩)
  | some block =>
      refine .skip fun words => .pure ?_
      rintro _ ⟨⟩ s nodes chain n member
      simp only at chain
      split at chain
      · cases chain
        cases member
      · cases chain

theorem NodesIn.at (admits : Admits P) {nodes : List HashNode} (values : NodesIn P nodes)
    (i : Nat) : P ((nodes[i]?.map HashNode.value).getD .null) := by
  cases found : nodes[i]? with
  | none => exact admits.null
  | some n => exact values n (List.mem_of_getElem? found)

theorem NodesIn.modify {nodes : List HashNode} (values : NodesIn P nodes) (i : Nat)
    {f : HashNode → HashNode} (keeps : ∀ n ∈ nodes, P (f n).value) :
    NodesIn P (nodes.modify i f) := by
  intro n member
  obtain ⟨j, at_⟩ := List.mem_iff_getElem?.mp member
  rw [List.getElem?_modify] at at_
  cases old : nodes[j]? with
  | none => rw [old] at at_; cases at_
  | some m =>
      rw [old] at at_
      have inside := List.mem_of_getElem? old
      simp only [Option.map_eq_map, Option.map_some, Option.some.injEq] at at_
      split at at_
      · exact at_ ▸ keeps m inside
      · exact at_ ▸ values m inside

theorem kvsHashGet_values (admits : Admits P) (values : h.ValuesIn P) (key : Option CStr) :
    Returns (kvsHashGet h key) P := by
  unfold kvsHashGet
  split
  · exact .pure admits.null
  · refine .skip fun idx => (load_values values idx).bind fun b inBucket => ?_
    refine (walk_values inBucket).bind fun nodes inNodes => .skip fun found => ?_
    cases found with
    | none => exact .pure admits.null
    | some i => exact .pure (inNodes.at admits i)

theorem createNode_values (admits : Admits P) {key value : CStr}
    (allowed : ∀ block, P (.live block value)) :
    ReturnsM (createNode key value) fun r => ∀ n, r = some n → P n.value := by
  unfold createNode
  refine .skip fun block => ?_
  cases block with
  | none => exact .pure (by rintro _ ⟨⟩)
  | some block =>
      refine .skip fun kcopy => .ite (.pure (by rintro _ ⟨⟩)) ?_
      refine (strdup_values admits allowed).bind fun kvalue holds => ?_
      exact .ite (.pure (by rintro _ ⟨⟩)) (.pure (by rintro _ ⟨⟩; exact holds))

theorem kvsHashSet_values (admits : Admits P) (values : h.ValuesIn P) (key : Option CStr)
    {value : Option CStr} (allowed : Admitted P value) :
    ReturnsM (kvsHashSet h key value) fun r => r.2.ValuesIn P := by
  unfold kvsHashSet
  split
  · rename_i k v
    refine .skip fun idx => .bind (.lift (load_values values idx)) fun b inBucket => ?_
    refine .bind (.lift (walk_values inBucket)) fun nodes inNodes => .skip fun _ => ?_
    refine .ite (.pure values) ?_
    refine (createNode_values admits fun block => allowed v block rfl).bind fun made isNew => ?_
    cases made with
    | none => exact .throw _
    | some node =>
        refine .skip fun count => .pure (values.store idx ?_ count)
        rintro n (_ | ⟨_, member⟩)
        · exact isNew node rfl
        · exact inNodes n member
  · exact .pure values

theorem kvsHashMod_values (admits : Admits P) (values : h.ValuesIn P) (key : Option CStr)
    {value : Option CStr} (allowed : Admitted P value) :
    ReturnsM (kvsHashMod h key value) fun r => r.2.ValuesIn P := by
  unfold kvsHashMod
  split
  · exact .pure values
  · refine .skip fun idx => .bind (.lift (load_values values idx)) fun b inBucket => ?_
    refine .bind (.lift (walk_values inBucket)) fun nodes inNodes => .skip fun found => ?_
    cases found with
    | none => exact .pure values
    | some i =>
        refine .skip fun _ => ?_
        cases value with
        | none => exact .throw _
        | some v =>
            refine (strdup_values admits fun block => allowed v block rfl).bind
              fun kvalue holds => .ite (.pure ?_) (.pure ?_)
            · exact values.store idx
                (inNodes.modify i fun n member => admits.released (inNodes n member)) h.count
            · exact values.store idx (inNodes.modify i fun _ _ => holds) h.count

theorem unlinkNext_values (key : CStr) {nodes : List HashNode} (values : NodesIn P nodes) :
    Returns (unlinkNext key nodes) fun r => ∀ tmp rest, r = some (tmp, rest) → NodesIn P rest := by
  induction nodes with
  | nil => exact .pure (by rintro _ _ ⟨⟩)
  | cons next nodes ih =>
      have tail : NodesIn P nodes := fun n member => values n (List.mem_cons_of_mem _ member)
      refine .skip fun _ => .ite (.pure ?_) ((ih tail).bind fun found inRest => .pure ?_)
      · rintro _ _ ⟨⟩
        exact tail
      · rintro tmp rest isSome
        cases found with
        | none => cases isSome
        | some pair =>
            cases isSome
            rintro n (_ | ⟨_, member⟩)
            · exact values next (by simp)
            · exact inRest pair.1 pair.2 rfl n member

theorem kvsHashDel_values (values : h.ValuesIn P) (key : Option CStr) :
    ReturnsM (kvsHashDel h key) fun r => r.2.ValuesIn P := by
  unfold kvsHashDel
  split
  · exact .pure values
  · refine .skip fun idx => .bind (.lift (load_values values idx)) fun b inBucket => ?_
    refine .bind (.lift (walk_values inBucket)) fun nodes inNodes => ?_
    cases nodes with
    | nil => exact .pure values
    | cons head rest =>
        have tail : NodesIn P rest := fun n member => inNodes n (List.mem_cons_of_mem _ member)
        refine .skip fun _ => .ite ?_ ?_
        · exact .skip fun _ => .skip fun count => .pure (values.store idx tail count)
        · refine .bind (.lift (unlinkNext_values _ tail)) fun found inRest => ?_
          cases found with
          | none => exact .pure values
          | some pair =>
              refine .skip fun _ => .skip fun _ => .skip fun _ => .skip fun count =>
                .pure (values.store idx ?_ count)
              rintro n (_ | ⟨_, member⟩)
              · exact inNodes head (by simp)
              · exact inRest pair.1 pair.2 rfl n member

end Hash

end LinuxCpp.Kvstore
