import IstKvs.Library.Separation
import IstKvs.FiniteMap

/-! `kvs.c` on the heap. The table, its nodes and their strings are blocks that point to
each other; a walk along a chain has fuel, and a pointer that is used after `free`, or that
is null, leaves the command undefined. -/

namespace IstKvs.KvsMemory
open Separation ChainedTable Kvs Operations

/-- The fields of a `KeyNode`, all pointers. -/
structure NodeFields where
  key : Address
  value : Address
  next : Address
  deriving DecidableEq

inductive Block where
  | string (s : CString)
  | keyNode (fields : NodeFields)
  | hashTable (table : Fin TABLE_SIZE → Address)

abbrev Memory := Heap Block

abbrev Routine (Result : Type) := Command Block Result

/-! Reads and writes through a pointer of a type. -/

def loadString (address : Address) : Routine CString := do
  match ← load address with
  | .string s => pure s
  | _ => failure

def loadNode (address : Address) : Routine NodeFields := do
  match ← load address with
  | .keyNode fields => pure fields
  | _ => failure

def loadTable (address : Address) : Routine (Fin TABLE_SIZE → Address) := do
  match ← load address with
  | .hashTable table => pure table
  | _ => failure

/-- `ht->table[index]`. -/
def tableAt (ht : Address) (index : Fin TABLE_SIZE) : Routine Address := do
  let table ← loadTable ht
  pure (table index)

/-- `ht->table[index] = keyNode`. -/
def setTableAt (ht : Address) (index : Fin TABLE_SIZE) (keyNode : Address) : Routine Unit := do
  let table ← loadTable ht
  store ht (.hashTable (Function.update table index keyNode))

/-- An index that `hash` returned; outside the array the access is undefined. -/
def checked (index : Int) : Routine (Fin TABLE_SIZE) := fun heap => (cell index).map fun i => (i, heap)

def strdup (allocator : Allocator Block) (s : CString) : Routine Address := malloc allocator (.string s)

/-! The functions of `kvs.c`. -/

section Routines
variable (allocator : Allocator Block) (fuel : Nat)

def createHashTable : Routine Address := malloc allocator (.hashTable fun _ => 0)

/-- The loop of `write_pair`; whether it found the key. -/
def writeLoop (key value : CString) : Nat → Address → Routine Bool
  | 0, _ => failure
  | fuel + 1, keyNode =>
      if keyNode = 0 then pure false
      else do
        let node ← loadNode keyNode
        let held ← loadString node.key
        if held = key then do
          free node.value
          let copy ← strdup allocator value
          store keyNode (.keyNode { node with value := copy })
          pure true
        else writeLoop key value fuel node.next

/-- What `malloc` leaves in a new node is not read. -/
def writePair (ht : Address) (key value : CString) : Routine Int := do
  let index ← checked (hash key)
  let head ← tableAt ht index
  let found ← writeLoop allocator key value fuel head
  if found then pure 0
  else do
    let keyNode ← malloc allocator (.keyNode ⟨0, 0, 0⟩)
    let keyCopy ← strdup allocator key
    let valueCopy ← strdup allocator value
    let next ← tableAt ht index
    store keyNode (.keyNode ⟨keyCopy, valueCopy, next⟩)
    setTableAt ht index keyNode
    pure 0

/-- The loop of `read_pair`. -/
def readLoop (key : CString) : Nat → Address → Routine Address
  | 0, _ => failure
  | fuel + 1, keyNode =>
      if keyNode = 0 then pure 0
      else do
        let node ← loadNode keyNode
        let held ← loadString node.key
        if held = key then do
          let value ← loadString node.value
          strdup allocator value
        else readLoop key fuel node.next

/-- A copy of the value that the caller frees, or null. -/
def readPair (ht : Address) (key : CString) : Routine Address := do
  let index ← checked (hash key)
  let head ← tableAt ht index
  readLoop allocator key fuel head

/-- The loop of `delete_pair`; `prevNode` is null at the head of the chain. -/
def deleteLoop (ht : Address) (index : Fin TABLE_SIZE) (key : CString) : Nat → Address → Address → Routine Int
  | 0, _, _ => failure
  | fuel + 1, prevNode, keyNode =>
      if keyNode = 0 then pure 1
      else do
        let node ← loadNode keyNode
        let held ← loadString node.key
        if held = key then do
          if prevNode = 0 then setTableAt ht index node.next
          else do
            let prev ← loadNode prevNode
            store prevNode (.keyNode { prev with next := node.next })
          free node.key
          free node.value
          free keyNode
          pure 0
        else deleteLoop ht index key fuel keyNode node.next

def deletePair (ht : Address) (key : CString) : Routine Int := do
  let index ← checked (hash key)
  let head ← tableAt ht index
  deleteLoop ht index key fuel 0 head

/-- The inner loop of `free_table`. -/
def freeChain : Nat → Address → Routine Unit
  | 0, _ => failure
  | fuel + 1, keyNode =>
      if keyNode = 0 then pure ()
      else do
        let temp ← loadNode keyNode
        free temp.key
        free temp.value
        free keyNode
        freeChain fuel temp.next

def freeChains (ht : Address) : List (Fin TABLE_SIZE) → Routine Unit
  | [] => pure ()
  | i :: rest => do
      let head ← tableAt ht i
      freeChain fuel head
      freeChains ht rest

def freeTable (ht : Address) : Routine Unit := do
  freeChains fuel ht (List.finRange TABLE_SIZE)
  free ht

end Routines

/-! What a well-formed table owns. -/

/-- A node at `address`, with its two strings. -/
def nodeAt (address next : Address) (node : KeyNode) : Assertion Block :=
  ⨆ key, ⨆ value, pointsTo address (.keyNode ⟨key, value, next⟩) *
    (pointsTo key (.string node.key) * pointsTo value (.string node.value))

def chainAt (head : Address) (nodes : List KeyNode) : Assertion Block := chain nodeAt head nodes

def tableOwned (ht : Address) (table : HashTable) : Assertion Block :=
  ⨆ heads, pointsTo ht (.hashTable heads) * ∏ i, chainAt (heads i) (table.table i)

/-! One step of each kind. -/

section Steps
variable {p r : Assertion Block} {Result : Type} {q : Result → Assertion Block}

theorem loadString_step {address : Address} {s : CString} {later : CString → Routine Result}
    (split : p = pointsTo address (.string s) * r) (rest : Triple p (later s) q) :
    Triple p (loadString address >>= later) q := by
  unfold loadString
  rw [bind_assoc]
  apply Triple.load_step split
  rw [pure_bind]
  exact rest

theorem loadNode_step {address : Address} {fields : NodeFields} {later : NodeFields → Routine Result}
    (split : p = pointsTo address (.keyNode fields) * r) (rest : Triple p (later fields) q) :
    Triple p (loadNode address >>= later) q := by
  unfold loadNode
  rw [bind_assoc]
  apply Triple.load_step split
  rw [pure_bind]
  exact rest

theorem tableAt_step {ht : Address} {heads : Fin TABLE_SIZE → Address} {index : Fin TABLE_SIZE}
    {later : Address → Routine Result} (split : p = pointsTo ht (.hashTable heads) * r)
    (rest : Triple p (later (heads index)) q) : Triple p (tableAt ht index >>= later) q := by
  unfold tableAt loadTable
  rw [bind_assoc, bind_assoc]
  apply Triple.load_step split
  rw [pure_bind, pure_bind]
  exact rest

theorem setTableAt_step {ht keyNode : Address} {heads : Fin TABLE_SIZE → Address} {index : Fin TABLE_SIZE}
    {later : Unit → Routine Result} (split : p = pointsTo ht (.hashTable heads) * r)
    (rest : Triple (pointsTo ht (.hashTable (Function.update heads index keyNode)) * r) (later ()) q) :
    Triple p (setTableAt ht index keyNode >>= later) q := by
  unfold setTableAt loadTable
  rw [bind_assoc, bind_assoc]
  apply Triple.load_step split
  rw [pure_bind]
  exact Triple.store_step split rest

theorem checked_step {index : Int} {i : Fin TABLE_SIZE} {later : Fin TABLE_SIZE → Routine Result}
    (inside : cell index = some i) (rest : Triple p (later i) q) : Triple p (checked index >>= later) q := by
  intro own owned frame apart
  obtain ⟨result, own', owned', apart', ran⟩ := rest own owned frame apart
  refine ⟨result, own', owned', apart', ?_⟩
  show ((cell index).map fun i => (i, own ∪ frame)).bind (fun pair => later pair.1 pair.2) = _
  rw [inside, Option.map_some, Option.bind_some, ran]

end Steps

/-! Opening and closing the first node of a chain. -/

section Node
variable {p : Assertion Block} {Result : Type} {q : Result → Assertion Block} {command : Routine Result}
  {head next key value : Address} {node : KeyNode} {nodes : List KeyNode}

/-- The three blocks of a node and the chain after it. -/
def opened (head next key value : Address) (node : KeyNode) (rest : Assertion Block) : Assertion Block :=
  pointsTo head (.keyNode ⟨key, value, next⟩) *
    (pointsTo key (.string node.key) * (pointsTo value (.string node.value) * rest))

theorem opened_le_nodeAt (rest : Assertion Block) :
    opened head next key value node rest ≤ nodeAt head next node * rest := by
  have inside : pointsTo head (.keyNode ⟨key, value, next⟩) *
      (pointsTo key (.string node.key) * pointsTo value (.string node.value)) ≤ nodeAt head next node :=
    le_iSup_of_le key (le_iSup_of_le value le_rfl)
  calc
    opened head next key value node rest
        = pointsTo head (.keyNode ⟨key, value, next⟩) *
            (pointsTo key (.string node.key) * pointsTo value (.string node.value)) * rest := by
          simp only [opened, mul_assoc]
    _ ≤ nodeAt head next node * rest := join_mono inside le_rfl

theorem of_nodeAt {rest : Assertion Block}
    (each : ∀ key value, Triple (opened head next key value node rest) command q) :
    Triple (nodeAt head next node * rest) command q := by
  unfold nodeAt
  rw [Quantale.iSup_mul_distrib]
  apply Triple.some_case
  intro key
  rw [Quantale.iSup_mul_distrib]
  apply Triple.some_case
  intro value
  have same := each key value
  unfold opened at same
  rwa [mul_assoc, mul_assoc]

theorem opened_gather (rest : Assertion Block) :
    opened head next key value node rest = rest * opened head next key value node 1 := by
  simp only [opened, mul_one]
  ac_rfl

theorem opened_join (first second : Assertion Block) :
    opened head next key value node (first * second) = opened head next key value node first * second := by
  simp only [opened, mul_assoc]

theorem of_chain_nil (ended : head = 0 → Triple p command q) : Triple (chainAt head [] * p) command q :=
  Triple.of_fact ended

theorem of_chain_cons
    (each : ∀ next key value, head ≠ 0 → Triple (opened head next key value node (chainAt next nodes * p)) command q) :
    Triple (chainAt head (node :: nodes) * p) command q := by
  unfold chainAt
  rw [chain, Quantale.iSup_mul_distrib]
  apply Triple.some_case
  intro next
  rw [mul_assoc]
  apply Triple.of_fact
  intro nonnull
  rw [mul_assoc]
  exact of_nodeAt fun key value => each next key value nonnull

theorem of_chain_nil_alone (ended : head = 0 → Triple 1 command q) : Triple (chainAt head []) command q := by
  rw [← mul_one (chainAt head [])]
  exact of_chain_nil ended

theorem of_chain_cons_alone
    (each : ∀ next key value, head ≠ 0 → Triple (opened head next key value node (chainAt next nodes)) command q) :
    Triple (chainAt head (node :: nodes)) command q := by
  rw [← mul_one (chainAt head (node :: nodes))]
  apply of_chain_cons
  intro next key value nonnull
  rw [mul_one]
  exact each next key value nonnull

theorem opened_le_chain (nonnull : head ≠ 0) :
    opened head next key value node (chainAt next nodes) ≤ chainAt head (node :: nodes) :=
  (opened_le_nodeAt _).trans (chain_cons_le nodeAt nonnull)

/-! What a loop does with the node that it stands at. -/

theorem visit_step {rest : Assertion Block} {later : NodeFields → CString → Routine Result}
    (continues : Triple (opened head next key value node rest) (later ⟨key, value, next⟩ node.key) q) :
    Triple (opened head next key value node rest)
      (loadNode head >>= fun fields => loadString fields.key >>= later fields) q := by
  apply loadNode_step rfl
  exact loadString_step (mul_left_comm _ _ _) continues

/-- The walk goes on from the next node, and the node that it leaves is put back. -/
theorem walk_step {after : Result → Assertion Block} (rest : Triple (chainAt next nodes) command after)
    (closed : ∀ result, opened head next key value node (after result) ≤ q result) :
    Triple (opened head next key value node (chainAt next nodes)) command q := by
  rw [opened_gather]
  apply (rest.frame (opened head next key value node 1)).weaken le_rfl
  intro result
  rw [← opened_gather]
  exact closed result

theorem opened_fact_le {holds : Prop} (nonnull : head ≠ 0) :
    opened head next key value node (fact holds * chainAt next nodes) ≤ fact holds * chainAt head (node :: nodes) := by
  have front : opened head next key value node (fact holds * chainAt next nodes) =
      fact holds * opened head next key value node (chainAt next nodes) := by
    unfold opened
    ac_rfl
  rw [front]
  exact join_mono le_rfl (opened_le_chain nonnull)

end Node

/-! The walks along a chain. -/

/-- What `read_pair` returns for what it found: a new string, or null. -/
def copied : Option CString → Address → Assertion Block
  | some value, copy => pointsTo copy (.string value)
  | none, copy => fact (copy = 0)

section Loops
variable (allocator : Allocator Block) (key value : CString)

theorem writeLoop_spec (nodes : List KeyNode) (fuel : Nat) (enough : nodes.length < fuel) (head : Address) :
    Triple (chainAt head nodes) (writeLoop allocator key value fuel head) fun found =>
      fact (found = (overwrite key value nodes).isSome) * chainAt head ((overwrite key value nodes).getD nodes) := by
  induction nodes generalizing fuel head with
  | nil =>
    obtain ⟨fuel, rfl⟩ := Nat.exists_eq_succ_of_ne_zero (Nat.ne_zero_of_lt enough)
    apply of_chain_nil_alone
    intro null
    subst null
    rw [writeLoop, if_pos rfl]
    apply Triple.ret
    exact le_fact_mul rfl (chain_nil nodeAt).ge
  | cons node nodes ih =>
    obtain ⟨fuel, rfl⟩ := Nat.exists_eq_succ_of_ne_zero (Nat.ne_zero_of_lt enough)
    apply of_chain_cons_alone
    intro next keyAddress valueAddress nonnull
    rw [writeLoop, if_neg nonnull]
    apply visit_step
    by_cases same : node.key = key
    · rw [if_pos same]
      apply Triple.free_step (join_third _ _ _ _)
      apply Triple.malloc_step allocator
      intro copy
      apply Triple.store_step (mul_left_comm _ _ _)
      apply Triple.ret
      rw [overwrite, if_pos same, mul_left_comm (pointsTo copy _)]
      have closed : opened head next keyAddress copy ⟨node.key, value⟩ (chainAt next nodes) ≤
          chainAt head (⟨node.key, value⟩ :: nodes) := opened_le_chain nonnull
      exact le_fact_mul rfl closed
    · rw [if_neg same]
      apply walk_step (ih fuel (Nat.lt_of_succ_lt_succ enough) next)
      intro found
      rw [overwrite, if_neg same, Option.isSome_map, Option.getD_map]
      exact opened_fact_le nonnull

theorem readLoop_spec (nodes : List KeyNode) (fuel : Nat) (enough : nodes.length < fuel) (head : Address) :
    Triple (chainAt head nodes) (readLoop allocator key fuel head) fun copy =>
      copied (find key nodes) copy * chainAt head nodes := by
  induction nodes generalizing fuel head with
  | nil =>
    obtain ⟨fuel, rfl⟩ := Nat.exists_eq_succ_of_ne_zero (Nat.ne_zero_of_lt enough)
    apply of_chain_nil_alone
    intro null
    subst null
    rw [readLoop, if_pos rfl]
    apply Triple.ret
    exact le_fact_mul rfl (chain_nil nodeAt).ge
  | cons node nodes ih =>
    obtain ⟨fuel, rfl⟩ := Nat.exists_eq_succ_of_ne_zero (Nat.ne_zero_of_lt enough)
    apply of_chain_cons_alone
    intro next keyAddress valueAddress nonnull
    rw [readLoop, if_neg nonnull]
    apply visit_step
    by_cases same : node.key = key
    · rw [if_pos same, find, if_pos same]
      apply loadString_step (join_third _ _ _ _)
      rw [← bind_pure (strdup allocator node.value)]
      apply Triple.malloc_step allocator
      intro copy
      apply Triple.ret
      exact join_mono le_rfl (opened_le_chain nonnull)
    · rw [if_neg same, find, if_neg same]
      apply walk_step (ih fuel (Nat.lt_of_succ_lt_succ enough) next)
      intro copy
      have front : opened head next keyAddress valueAddress node (copied (find key nodes) copy * chainAt next nodes) =
          copied (find key nodes) copy * opened head next keyAddress valueAddress node (chainAt next nodes) := by
        unfold opened
        ac_rfl
      rw [front]
      exact join_mono le_rfl (opened_le_chain nonnull)

theorem freeChain_spec (nodes : List KeyNode) (fuel : Nat) (enough : nodes.length < fuel) (head : Address) :
    Triple (chainAt head nodes) (freeChain fuel head) fun _ => 1 := by
  induction nodes generalizing fuel head with
  | nil =>
    obtain ⟨fuel, rfl⟩ := Nat.exists_eq_succ_of_ne_zero (Nat.ne_zero_of_lt enough)
    apply of_chain_nil_alone
    intro null
    rw [freeChain, if_pos null]
    exact Triple.ret le_rfl
  | cons node nodes ih =>
    obtain ⟨fuel, rfl⟩ := Nat.exists_eq_succ_of_ne_zero (Nat.ne_zero_of_lt enough)
    apply of_chain_cons_alone
    intro next keyAddress valueAddress nonnull
    rw [freeChain, if_neg nonnull]
    apply loadNode_step rfl
    apply Triple.free_step (mul_left_comm _ _ _)
    apply Triple.free_step (mul_left_comm _ _ _)
    apply Triple.free_step rfl
    exact ih fuel (Nat.lt_of_succ_lt_succ enough) next

/-- Below the head of the chain `prevNode` is relinked, and the table is not touched. -/
theorem deleteLoop_spec (ht : Address) (index : Fin TABLE_SIZE) (nodes : List KeyNode) (fuel : Nat)
    (enough : nodes.length < fuel) (prevNode head prevKey prevValue : Address) (prev : KeyNode) (nonnull : prevNode ≠ 0) :
    Triple (opened prevNode head prevKey prevValue prev (chainAt head nodes))
      (deleteLoop ht index key fuel prevNode head) fun status =>
        fact (status = if (unlink key nodes).isSome then 0 else 1) *
          chainAt prevNode (prev :: (unlink key nodes).getD nodes) := by
  induction nodes generalizing fuel prevNode head prevKey prevValue prev with
  | nil =>
    obtain ⟨fuel, rfl⟩ := Nat.exists_eq_succ_of_ne_zero (Nat.ne_zero_of_lt enough)
    rw [opened_gather]
    apply of_chain_nil
    intro null
    subst null
    rw [deleteLoop, if_pos rfl]
    apply Triple.ret
    have closed : opened prevNode 0 prevKey prevValue prev (chainAt 0 []) ≤ chainAt prevNode [prev] :=
      opened_le_chain nonnull
    rw [chainAt, chain_nil] at closed
    exact le_fact_mul rfl closed
  | cons node nodes ih =>
    obtain ⟨fuel, rfl⟩ := Nat.exists_eq_succ_of_ne_zero (Nat.ne_zero_of_lt enough)
    rw [opened_gather]
    apply of_chain_cons
    intro next keyAddress valueAddress here
    rw [deleteLoop, if_neg here]
    apply visit_step
    by_cases same : node.key = key
    · rw [if_pos same, if_neg nonnull, unlink, if_pos same]
      have arranged : opened head next keyAddress valueAddress node
          (chainAt next nodes * opened prevNode head prevKey prevValue prev 1) =
          pointsTo prevNode (.keyNode ⟨prevKey, prevValue, head⟩) *
            (pointsTo keyAddress (.string node.key) * (pointsTo valueAddress (.string node.value) *
              (pointsTo head (.keyNode ⟨keyAddress, valueAddress, next⟩) *
                (pointsTo prevKey (.string prev.key) * (pointsTo prevValue (.string prev.value) * chainAt next nodes))))) := by
        simp only [opened, mul_one]
        ac_rfl
      rw [arranged]
      apply loadNode_step rfl
      apply Triple.store_step rfl
      apply Triple.free_step (mul_left_comm _ _ _)
      apply Triple.free_step (mul_left_comm _ _ _)
      apply Triple.free_step (mul_left_comm _ _ _)
      apply Triple.ret
      have closed : opened prevNode next prevKey prevValue prev (chainAt next nodes) ≤ chainAt prevNode (prev :: nodes) :=
        opened_le_chain nonnull
      exact le_fact_mul rfl closed
    · rw [if_neg same, unlink, if_neg same, Option.isSome_map, Option.getD_map]
      have later := ih fuel (Nat.lt_of_succ_lt_succ enough) head next keyAddress valueAddress node here
      rw [opened_join]
      apply (later.frame _).weaken le_rfl
      intro status
      rw [← opened_gather]
      exact opened_fact_le nonnull

end Loops

/-! Opening and closing the table at one cell. -/

section Cell
variable {ht : Address} {heads : Fin TABLE_SIZE → Address} {table : HashTable} {Result : Type}
  {q : Result → Assertion Block} {command : Routine Result}

/-- The chains of the other cells. -/
def others (heads : Fin TABLE_SIZE → Address) (table : HashTable) (index : Fin TABLE_SIZE) : Assertion Block :=
  ∏ i ∈ Finset.univ.erase index, chainAt (heads i) (table.table i)

theorem of_tableOwned (index : Fin TABLE_SIZE)
    (each : ∀ heads, Triple (pointsTo ht (.hashTable heads) *
      (chainAt (heads index) (table.table index) * others heads table index)) command q) :
    Triple (tableOwned ht table) command q := by
  apply Triple.some_case
  intro heads
  rw [prod_split _ index]
  exact each heads

theorem tableOwned_of (index : Fin TABLE_SIZE) (head : Address) (nodes : List KeyNode) :
    pointsTo ht (.hashTable (Function.update heads index head)) * (chainAt head nodes * others heads table index) ≤
      tableOwned ht ⟨Function.update table.table index nodes⟩ := by
  have closed : ∏ i, chainAt (Function.update heads index head i) (Function.update table.table index nodes i) =
      chainAt head nodes * others heads table index := by
    rw [prod_replace index, Function.update_self, Function.update_self]
    · rfl
    · intro i different
      rw [Function.update_of_ne different, Function.update_of_ne different]
  rw [← closed]
  exact le_iSup (fun heads => pointsTo ht (.hashTable heads) *
    ∏ i, chainAt (heads i) (Function.update table.table index nodes i)) (Function.update heads index head)

/-- The chain changed below the head that the table holds. -/
theorem tableOwned_of_chain (index : Fin TABLE_SIZE) (nodes : List KeyNode) :
    pointsTo ht (.hashTable heads) * (chainAt (heads index) nodes * others heads table index) ≤
      tableOwned ht ⟨Function.update table.table index nodes⟩ := by
  have closed := @tableOwned_of ht heads table index (heads index) nodes
  rwa [Function.update_eq_self] at closed

end Cell

/-! The functions of `kvs.c`, each against its function on the lists. -/

section Functions
variable (allocator : Allocator Block) {fuel : Nat} (ht : Address) {table next : HashTable} {key : CString}

/-- The walks end before the fuel does. -/
def Roomy (fuel : Nat) (table : HashTable) : Prop := ∀ i, (table.table i).length < fuel

theorem createHashTable_spec :
    Triple 1 (createHashTable allocator) fun ht => tableOwned ht Kvs.createHashTable := by
  apply (Triple.malloc_fresh allocator (.hashTable fun _ => 0)).weaken le_rfl
  intro ht
  have empty : ∏ _i : Fin TABLE_SIZE, chainAt 0 [] = 1 := Finset.prod_eq_one fun _ _ => chain_nil nodeAt
  calc
    pointsTo ht (.hashTable fun _ => 0) = pointsTo ht (.hashTable fun _ => 0) * ∏ _i : Fin TABLE_SIZE, chainAt 0 [] := by
      rw [empty, mul_one]
    _ ≤ tableOwned ht Kvs.createHashTable :=
      le_iSup (fun heads => pointsTo ht (.hashTable heads) * ∏ i, chainAt (heads i) []) fun _ => 0

theorem writePair_spec {value : CString} {status : Int} (defined : Kvs.writePair table key value = some (next, status))
    (roomy : Roomy fuel table) :
    Triple (tableOwned ht table) (writePair allocator fuel ht key value) fun code =>
      fact (code = status) * tableOwned ht next := by
  obtain ⟨index, inside, made⟩ := Option.map_eq_some_iff.mp defined
  unfold writePair
  apply checked_step inside
  apply of_tableOwned index
  intro heads
  apply tableAt_step rfl
  apply (writeLoop_spec allocator key value (table.table index) fuel (roomy index) (heads index)).call
    (mul_left_comm _ _ _)
  intro found
  rw [mul_assoc]
  apply Triple.of_fact
  intro same
  subst same
  cases written : overwrite key value (table.table index) with
  | some chain =>
    rw [written] at made
    cases made
    rw [Option.isSome_some, if_pos rfl]
    apply Triple.ret
    rw [mul_left_comm]
    exact le_fact_mul rfl (tableOwned_of_chain index chain)
  | none =>
    rw [written] at made
    cases made
    rw [Option.isSome_none, if_neg Bool.false_ne_true, Option.getD_none]
    apply Triple.malloc_step allocator
    intro keyNode
    apply Triple.nonnull
    intro nonnull
    apply Triple.malloc_step allocator
    intro keyCopy
    apply Triple.malloc_step allocator
    intro valueCopy
    have arranged : pointsTo valueCopy (.string value) * (pointsTo keyCopy (.string key) *
        (pointsTo keyNode (.keyNode ⟨0, 0, 0⟩) * (chainAt (heads index) (table.table index) *
          (pointsTo ht (.hashTable heads) * others heads table index)))) =
        pointsTo ht (.hashTable heads) * (pointsTo keyNode (.keyNode ⟨0, 0, 0⟩) * (pointsTo keyCopy (.string key) *
          (pointsTo valueCopy (.string value) * (chainAt (heads index) (table.table index) * others heads table index)))) := by
      ac_rfl
    rw [arranged]
    apply tableAt_step rfl
    apply Triple.store_step (mul_left_comm _ _ _)
    apply setTableAt_step (mul_left_comm _ _ _)
    apply Triple.ret
    have linked : opened keyNode (heads index) keyCopy valueCopy ⟨key, value⟩ (chainAt (heads index) (table.table index)) ≤
        chainAt keyNode (⟨key, value⟩ :: table.table index) := opened_le_chain nonnull
    apply le_fact_mul rfl
    calc
      pointsTo ht (.hashTable (Function.update heads index keyNode)) *
          opened keyNode (heads index) keyCopy valueCopy ⟨key, value⟩
            (chainAt (heads index) (table.table index) * others heads table index)
          ≤ pointsTo ht (.hashTable (Function.update heads index keyNode)) *
            (chainAt keyNode (⟨key, value⟩ :: table.table index) * others heads table index) := by
            rw [opened_join]
            exact join_mono le_rfl (join_mono linked le_rfl)
      _ ≤ tableOwned ht ⟨Function.update table.table index (⟨key, value⟩ :: table.table index)⟩ :=
        tableOwned_of index keyNode _

theorem readPair_spec {found : Option CString} (defined : Kvs.readPair table key = some found)
    (roomy : Roomy fuel table) :
    Triple (tableOwned ht table) (readPair allocator fuel ht key) fun copy =>
      copied found copy * tableOwned ht table := by
  obtain ⟨index, inside, same⟩ := Option.map_eq_some_iff.mp defined
  subst same
  unfold readPair
  apply checked_step inside
  apply of_tableOwned index
  intro heads
  apply tableAt_step rfl
  rw [mul_left_comm]
  apply ((readLoop_spec allocator key (table.table index) fuel (roomy index) (heads index)).frame _).weaken le_rfl
  intro copy
  rw [mul_assoc, mul_left_comm (chainAt _ _)]
  have closed := @tableOwned_of_chain ht heads table index (table.table index)
  rw [Function.update_eq_self] at closed
  exact join_mono le_rfl closed

/-- The walk of `delete_pair` from the head, which the table itself holds. -/
theorem deleteHead_spec (heads : Fin TABLE_SIZE → Address) (index : Fin TABLE_SIZE) (nodes : List KeyNode)
    (enough : nodes.length < fuel) :
    Triple (pointsTo ht (.hashTable heads) * chainAt (heads index) nodes)
      (deleteLoop ht index key fuel 0 (heads index)) fun status =>
        fact (status = if (unlink key nodes).isSome then 0 else 1) * ⨆ head,
          pointsTo ht (.hashTable (Function.update heads index head)) * chainAt head ((unlink key nodes).getD nodes) := by
  obtain ⟨fuel, rfl⟩ := Nat.exists_eq_succ_of_ne_zero (Nat.ne_zero_of_lt enough)
  rw [mul_comm]
  cases nodes with
  | nil =>
    apply of_chain_nil
    intro null
    rw [deleteLoop, if_pos null]
    apply Triple.ret
    apply le_fact_mul rfl
    apply le_iSup_of_le 0
    show _ ≤ pointsTo ht (.hashTable (Function.update heads index 0)) * chainAt 0 []
    rw [← null, Function.update_eq_self, null, chainAt, chain_nil, mul_one]
  | cons node nodes =>
    apply of_chain_cons
    intro next keyAddress valueAddress nonnull
    rw [deleteLoop, if_neg nonnull]
    apply visit_step
    by_cases same : node.key = key
    · rw [if_pos same, if_pos rfl, unlink, if_pos same]
      have arranged : opened (heads index) next keyAddress valueAddress node
          (chainAt next nodes * pointsTo ht (.hashTable heads)) =
          pointsTo ht (.hashTable heads) * (pointsTo keyAddress (.string node.key) *
            (pointsTo valueAddress (.string node.value) *
              (pointsTo (heads index) (.keyNode ⟨keyAddress, valueAddress, next⟩) * chainAt next nodes))) := by
        unfold opened
        ac_rfl
      rw [arranged]
      apply setTableAt_step rfl
      apply Triple.free_step (mul_left_comm _ _ _)
      apply Triple.free_step (mul_left_comm _ _ _)
      apply Triple.free_step (mul_left_comm _ _ _)
      apply Triple.ret
      exact le_fact_mul rfl (le_iSup_of_le next le_rfl)
    · rw [if_neg same, unlink, if_neg same, Option.isSome_map, Option.getD_map, opened_join]
      have later := deleteLoop_spec key ht index nodes fuel (Nat.lt_of_succ_lt_succ enough) (heads index) next
        keyAddress valueAddress node nonnull
      apply (later.frame _).weaken le_rfl
      intro status
      rw [mul_assoc]
      apply join_mono le_rfl
      apply le_iSup_of_le (heads index)
      rw [Function.update_eq_self, mul_comm]

theorem deletePair_spec {status : Int} (defined : Kvs.deletePair table key = some (next, status))
    (roomy : Roomy fuel table) :
    Triple (tableOwned ht table) (deletePair fuel ht key) fun code => fact (code = status) * tableOwned ht next := by
  obtain ⟨index, inside, made⟩ := Option.map_eq_some_iff.mp defined
  unfold deletePair
  apply checked_step inside
  apply of_tableOwned index
  intro heads
  apply tableAt_step rfl
  rw [← mul_assoc]
  apply ((deleteHead_spec ht heads index (table.table index) (roomy index)).frame _).weaken le_rfl
  intro code
  have closed : ∀ nodes, (⨆ head, pointsTo ht (.hashTable (Function.update heads index head)) * chainAt head nodes) *
      others heads table index ≤ tableOwned ht ⟨Function.update table.table index nodes⟩ := by
    intro nodes
    rw [Quantale.iSup_mul_distrib]
    apply iSup_le
    intro head
    rw [mul_assoc]
    exact tableOwned_of index head nodes
  rw [mul_assoc]
  cases unlinked : unlink key (table.table index) with
  | some chain =>
    rw [unlinked] at made
    cases made
    exact join_mono le_rfl (closed chain)
  | none =>
    rw [unlinked] at made
    cases made
    have kept := closed (table.table index)
    rw [Function.update_eq_self] at kept
    exact join_mono le_rfl kept

theorem freeChains_spec (heads : Fin TABLE_SIZE → Address) (roomy : Roomy fuel table) (indices : List (Fin TABLE_SIZE)) :
    Triple (pointsTo ht (.hashTable heads) * (indices.map fun i => chainAt (heads i) (table.table i)).prod)
      (freeChains fuel ht indices) fun _ => pointsTo ht (.hashTable heads) := by
  induction indices with
  | nil =>
    apply Triple.ret
    rw [List.map_nil, List.prod_nil, mul_one]
  | cons i indices ih =>
    rw [List.map_cons, List.prod_cons, freeChains]
    apply tableAt_step rfl
    apply (freeChain_spec (table.table i) fuel (roomy i) (heads i)).call (mul_left_comm _ _ _)
    intro _
    rw [one_mul]
    exact ih

theorem freeTable_spec (roomy : Roomy fuel table) :
    Triple (tableOwned ht table) (freeTable fuel ht) fun _ => 1 := by
  apply Triple.some_case
  intro heads
  rw [Fin.prod_univ_def]
  unfold freeTable
  apply (freeChains_spec ht heads roomy (List.finRange TABLE_SIZE)).bind
  intro _
  exact Triple.free_owned ht _

end Functions

end IstKvs.KvsMemory
