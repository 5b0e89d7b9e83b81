import IstKvs.KvsMemory
import Mathlib.Order.Filter.AtTopBot.Basic
import Mathlib.Order.Filter.Finite
import Mathlib.Data.Set.Card

/-! `operations.c` on the heap, from `kvs_init` to `kvs_terminate`. Each call answers what
the model on lists says, and the table owns exactly the blocks of its nodes. -/

namespace IstKvs.StoreMemory
open Separation ChainedTable Kvs Operations KvsMemory

/-- A call on `kvs_table`. -/
inductive TableCall where
  | kvsInit
  | kvsTerminate
  | kvsWrite (pairs : List (CString × CString))
  | kvsRead (keys : List CString)
  | kvsDelete (keys : List CString)
  | kvsShow
  | kvsKeyExists (key : CString)
  | kvsBackup
  deriving DecidableEq

def TableCall.keys : TableCall → List CString
  | .kvsWrite pairs => pairs.map Prod.fst
  | .kvsRead keys | .kvsDelete keys => keys
  | .kvsKeyExists key => [key]
  | .kvsInit | .kvsTerminate | .kvsShow | .kvsBackup => []

/-- What a call leaves outside the table: a result with what it wrote, what `kvs_show`
wrote, a status, or the nodes that the child of `kvs_backup` visits. -/
inductive Reply where
  | result (result : Result)
  | shown (written : List UInt8 × List UInt8)
  | status (code : Int)
  | forked (nodes : List KeyNode)
  deriving DecidableEq

/-! The calls on the table of lists. -/

/-- `kvs_backup` does not test `kvs_table` either. -/
def runCall (kvsTable : KvsTable) : TableCall → Option (KvsTable × Reply)
  | .kvsInit => some ((kvsInit kvsTable).1, .result (kvsInit kvsTable).2)
  | .kvsTerminate => some ((kvsTerminate kvsTable).1, .result (kvsTerminate kvsTable).2)
  | .kvsWrite pairs => (kvsWrite kvsTable pairs).map fun (next, result) => (next, .result result)
  | .kvsRead keys => (kvsRead kvsTable keys).map fun (next, result) => (next, .result result)
  | .kvsDelete keys => (kvsDelete kvsTable keys).map fun (next, result) => (next, .result result)
  | .kvsShow => some (kvsTable, .shown (kvsShow kvsTable))
  | .kvsKeyExists key => (kvsKeyExists kvsTable key).map fun code => (kvsTable, .status code)
  | .kvsBackup => kvsTable.map fun ht => (some ht, .forked (traversal ht))

def runCalls : KvsTable → List TableCall → Option (KvsTable × List Reply)
  | kvsTable, [] => some (kvsTable, [])
  | kvsTable, call :: calls => do
      let (next, reply) ← runCall kvsTable call
      let (last, replies) ← runCalls next calls
      some (last, reply :: replies)

/-! The calls on the heap; `kvs_table` is a pointer. -/

section Routines
variable (allocator : Allocator Block) (fuel : Nat)

def initTable (kvsTable : Address) : Routine (Address × Result) :=
  if kvsTable ≠ 0 then pure (kvsTable, ⟨1, [], text "KVS state has already been initialized\n"⟩)
  else do
    let ht ← createHashTable allocator
    pure (ht, ⟨if ht = 0 then 1 else 0, [], []⟩)

def terminateTable (kvsTable : Address) : Routine (Address × Result) :=
  if kvsTable = 0 then pure (0, notInitialized)
  else do
    freeTable fuel kvsTable
    pure (0, ⟨0, [], []⟩)

/-- The loop of `kvs_write`. -/
def writeAll (ht : Address) : List (CString × CString) → Routine (List UInt8)
  | [] => pure []
  | (key, value) :: pairs => do
      let status ← writePair allocator fuel ht key value
      let printed ← writeAll ht pairs
      pure ((if status ≠ 0 then writeFailure key value else []) ++ printed)

/-- The line for what `read_pair` returned, which is freed once it is written. -/
def readResult (key : CString) (result : Address) : Routine (List UInt8) :=
  if result = 0 then do
    free result
    pure (readLine key none)
  else do
    let value ← loadString result
    free result
    pure (readLine key (some value))

/-- The loop of `kvs_read`. -/
def readAll (ht : Address) : List CString → Routine (List UInt8)
  | [] => pure []
  | key :: keys => do
      let result ← readPair allocator fuel ht key
      let line ← readResult key result
      let lines ← readAll ht keys
      pure (line ++ lines)

/-- The loop of `kvs_delete`. -/
def deleteAll (ht : Address) : Bool → List CString → Routine (Bool × List UInt8)
  | aux, [] => pure (aux, [])
  | aux, key :: keys => do
      let status ← deletePair fuel ht key
      if status ≠ 0 then do
        let (opened, lines) ← deleteAll ht true keys
        pure (opened, (if aux then [] else text "[") ++ missingLine key ++ lines)
      else deleteAll ht aux keys

/-- The nodes of a chain, in the order that `kvs_show` and the child visit them. -/
def visitChain : Nat → Address → Routine (List KeyNode)
  | 0, _ => failure
  | fuel + 1, keyNode =>
      if keyNode = 0 then pure []
      else do
        let node ← loadNode keyNode
        let key ← loadString node.key
        let value ← loadString node.value
        let rest ← visitChain fuel node.next
        pure (⟨key, value⟩ :: rest)

def visitChains (ht : Address) : List (Fin TABLE_SIZE) → Routine (List KeyNode)
  | [] => pure []
  | i :: rest => do
      let head ← tableAt ht i
      let nodes ← visitChain fuel head
      let later ← visitChains ht rest
      pure (nodes ++ later)

/-- The loop of `kvs_key_exists`. -/
def existsLoop (key : CString) : Nat → Address → Routine Int
  | 0, _ => failure
  | fuel + 1, keyNode =>
      if keyNode = 0 then pure 0
      else do
        let node ← loadNode keyNode
        let held ← loadString node.key
        if held = key then pure 1 else existsLoop key fuel node.next

def keyExists (kvsTable : Address) (key : CString) : Routine Int := do
  let index ← checked (hash key)
  let head ← tableAt kvsTable index
  existsLoop key fuel head

/-- `fork`: the child runs on a copy of the heap, which the parent does not see. -/
def forked {Result : Type} (child : Routine Result) : Routine Result :=
  fun heap => (child heap).map fun ran => (ran.1, heap)

def memoryCall (kvsTable : Address) : TableCall → Routine (Address × Reply)
  | .kvsInit => do
      let (next, result) ← initTable allocator kvsTable
      pure (next, .result result)
  | .kvsTerminate => do
      let (next, result) ← terminateTable fuel kvsTable
      pure (next, .result result)
  | .kvsWrite pairs =>
      if kvsTable = 0 then pure (0, .result notInitialized)
      else do
        let printed ← writeAll allocator fuel kvsTable pairs
        pure (kvsTable, .result ⟨0, [], printed⟩)
  | .kvsRead keys =>
      if kvsTable = 0 then pure (0, .result notInitialized)
      else do
        let lines ← readAll allocator fuel kvsTable keys
        pure (kvsTable, .result ⟨0, text "[" ++ lines ++ text "]\n", []⟩)
  | .kvsDelete keys =>
      if kvsTable = 0 then pure (0, .result notInitialized)
      else do
        let (aux, lines) ← deleteAll fuel kvsTable false keys
        pure (kvsTable, .result ⟨0, lines ++ (if aux then text "]\n" else []), []⟩)
  | .kvsShow =>
      if kvsTable = 0 then pure (0, .shown ([], text "KVS state must be initialized\n"))
      else do
        let nodes ← visitChains fuel kvsTable (List.finRange TABLE_SIZE)
        pure (kvsTable, .shown (nodes.flatMap showLine, []))
  | .kvsKeyExists key => do
      let code ← keyExists fuel kvsTable key
      pure (kvsTable, .status code)
  | .kvsBackup => do
      let nodes ← forked (visitChains fuel kvsTable (List.finRange TABLE_SIZE))
      pure (kvsTable, .forked nodes)

def memoryCalls : Address → List TableCall → Routine (Address × List Reply)
  | kvsTable, [] => pure (kvsTable, [])
  | kvsTable, call :: calls => do
      let (next, reply) ← memoryCall allocator fuel kvsTable call
      let (last, replies) ← memoryCalls next calls
      pure (last, reply :: replies)

end Routines

/-! Each loop, once there is enough fuel for its walks. -/

section Loops
variable (allocator : Allocator Block) {table next : HashTable}

theorem eventually_roomy (table : HashTable) : ∀ᶠ fuel in Filter.atTop, Roomy fuel table :=
  Filter.eventually_all.mpr fun _ => Filter.eventually_gt_atTop _

theorem writeAll_spec {pairs : List (CString × CString)} {printed : List UInt8}
    (defined : writePairs table pairs = some (next, printed)) :
    ∀ᶠ fuel in Filter.atTop, ∀ ht, Triple (tableOwned ht table) (writeAll allocator fuel ht pairs) fun out =>
      fact (out = printed) * tableOwned ht next := by
  induction pairs generalizing table printed with
  | nil =>
    cases defined
    exact .of_forall fun _ _ => Triple.ret_answer le_rfl
  | cons pair pairs ih =>
    obtain ⟨key, value⟩ := pair
    obtain ⟨⟨middle, status⟩, first, rest⟩ := Option.bind_eq_some_iff.mp defined
    obtain ⟨⟨last, later⟩, second, made⟩ := Option.bind_eq_some_iff.mp rest
    cases made
    filter_upwards [eventually_roomy table, ih second] with fuel roomy after ht
    unfold writeAll
    apply Triple.bind_answer (writePair_spec allocator ht first roomy)
    apply Triple.bind_answer (after ht)
    exact Triple.ret (le_fact_mul rfl le_rfl)

theorem readResult_spec (key : CString) (found : Option CString) (result : Address) :
    Triple (copied found result) (readResult key result) fun line => fact (line = readLine key found) := by
  cases found with
  | none =>
    show Triple (fact (result = 0)) _ _
    rw [← mul_one (fact (result = 0))]
    apply Triple.of_fact
    intro null
    subst null
    rw [readResult, if_pos rfl]
    apply (Triple.free_null 1).bind
    intro _
    exact Triple.ret (fact_of rfl).ge
  | some value =>
    show Triple (pointsTo result (Block.string value)) _ _
    rw [← mul_one (pointsTo result _)]
    apply Triple.nonnull
    intro nonnull
    rw [readResult, if_neg nonnull]
    apply loadString_step rfl
    apply Triple.free_step rfl
    exact Triple.ret (fact_of rfl).ge

theorem readAll_spec {keys : List CString} {lines : List UInt8} (defined : readPairs table keys = some lines) :
    ∀ᶠ fuel in Filter.atTop, ∀ ht, Triple (tableOwned ht table) (readAll allocator fuel ht keys) fun out =>
      fact (out = lines) * tableOwned ht table := by
  induction keys generalizing lines with
  | nil =>
    cases defined
    exact .of_forall fun _ _ => Triple.ret_answer le_rfl
  | cons key keys ih =>
    obtain ⟨found, first, rest⟩ := Option.bind_eq_some_iff.mp defined
    obtain ⟨later, second, made⟩ := Option.bind_eq_some_iff.mp rest
    cases made
    filter_upwards [eventually_roomy table, ih second] with fuel roomy after ht
    unfold readAll
    apply (readPair_spec allocator ht first roomy).bind
    intro result
    apply (readResult_spec key found result).call rfl
    intro line
    apply Triple.of_fact
    intro same
    subst same
    apply Triple.bind_answer (after ht)
    exact Triple.ret (le_fact_mul rfl le_rfl)

theorem deleteAll_spec {aux aux' : Bool} {keys : List CString} {lines : List UInt8}
    (defined : deletePairs table aux keys = some (next, aux', lines)) :
    ∀ᶠ fuel in Filter.atTop, ∀ ht, Triple (tableOwned ht table) (deleteAll fuel ht aux keys) fun out =>
      fact (out = (aux', lines)) * tableOwned ht next := by
  induction keys generalizing table aux lines with
  | nil =>
    cases defined
    exact .of_forall fun _ _ => Triple.ret_answer le_rfl
  | cons key keys ih =>
    obtain ⟨⟨middle, status⟩, first, rest⟩ := Option.bind_eq_some_iff.mp defined
    by_cases missed : status ≠ 0
    · simp only [if_pos missed] at rest
      obtain ⟨⟨last, opened, later⟩, second, made⟩ := Option.bind_eq_some_iff.mp rest
      cases made
      filter_upwards [eventually_roomy table, ih second] with fuel roomy after ht
      unfold deleteAll
      apply Triple.bind_answer (deletePair_spec ht first roomy)
      rw [if_pos missed]
      apply Triple.bind_answer (after ht)
      exact Triple.ret (le_fact_mul rfl le_rfl)
    · simp only [if_neg missed] at rest
      filter_upwards [eventually_roomy table, ih rest] with fuel roomy after ht
      unfold deleteAll
      apply Triple.bind_answer (deletePair_spec ht first roomy)
      rw [if_neg missed]
      exact after ht

theorem visitChain_spec (nodes : List KeyNode) (fuel : Nat) (enough : nodes.length < fuel) (head : Address) :
    Triple (chainAt head nodes) (visitChain fuel head) fun out => fact (out = nodes) * chainAt head nodes := by
  induction nodes generalizing fuel head with
  | nil =>
    obtain ⟨fuel, rfl⟩ := Nat.exists_eq_succ_of_ne_zero (Nat.ne_zero_of_lt enough)
    apply of_chain_nil_alone
    intro null
    subst null
    rw [visitChain, if_pos rfl]
    apply Triple.ret
    exact le_fact_mul rfl (chain_nil nodeAt).ge
  | cons node nodes ih =>
    obtain ⟨fuel, rfl⟩ := Nat.exists_eq_succ_of_ne_zero (Nat.ne_zero_of_lt enough)
    apply of_chain_cons_alone
    intro next keyAddress valueAddress nonnull
    rw [visitChain, if_neg nonnull]
    apply visit_step
    apply loadString_step (join_third _ _ _ _)
    show Triple (opened head next keyAddress valueAddress node (chainAt next nodes)) _ _
    rw [opened_gather]
    apply ((ih fuel (Nat.lt_of_succ_lt_succ enough) next).frame _).bind
    intro out
    rw [mul_assoc, ← opened_gather]
    apply Triple.of_fact
    intro same
    subst same
    exact Triple.ret (le_fact_mul rfl (opened_le_chain nonnull))

theorem existsLoop_spec (key : CString) (nodes : List KeyNode) (fuel : Nat) (enough : nodes.length < fuel) (head : Address) :
    Triple (chainAt head nodes) (existsLoop key fuel head) fun code =>
      fact (code = if (find key nodes).isSome then 1 else 0) * chainAt head nodes := by
  induction nodes generalizing fuel head with
  | nil =>
    obtain ⟨fuel, rfl⟩ := Nat.exists_eq_succ_of_ne_zero (Nat.ne_zero_of_lt enough)
    apply of_chain_nil_alone
    intro null
    subst null
    rw [existsLoop, if_pos rfl]
    apply Triple.ret
    exact le_fact_mul rfl (chain_nil nodeAt).ge
  | cons node nodes ih =>
    obtain ⟨fuel, rfl⟩ := Nat.exists_eq_succ_of_ne_zero (Nat.ne_zero_of_lt enough)
    apply of_chain_cons_alone
    intro next keyAddress valueAddress nonnull
    rw [existsLoop, if_neg nonnull]
    apply visit_step
    by_cases same : node.key = key
    · rw [if_pos same, find, if_pos same]
      exact Triple.ret (le_fact_mul rfl (opened_le_chain nonnull))
    · rw [if_neg same, find, if_neg same]
      apply walk_step (ih fuel (Nat.lt_of_succ_lt_succ enough) next)
      intro code
      exact opened_fact_le nonnull

end Loops

/-! Each call. -/

/-- What `kvs_table` points to. -/
def storeOwned : KvsTable → Address → Assertion Block
  | none, kvsTable => fact (kvsTable = 0)
  | some ht, kvsTable => tableOwned kvsTable ht

section Calls
variable (allocator : Allocator Block) {kvsTable next : KvsTable} {reply : Reply}

theorem tableOwned_nonnull (ht : Address) (table : HashTable) :
    tableOwned ht table ≤ fact (ht ≠ 0) * tableOwned ht table := by
  apply iSup_le
  intro heads
  rw [pointsTo_nonnull, mul_assoc]
  exact join_mono le_rfl (le_iSup (fun heads => pointsTo ht (.hashTable heads) * ∏ i, chainAt (heads i) (table.table i)) heads)

theorem of_table {ht : Address} {table : HashTable} {Result : Type} {command : Routine Result} {q : Result → Assertion Block}
    (given : ht ≠ 0 → Triple (tableOwned ht table) command q) : Triple (tableOwned ht table) command q :=
  (Triple.of_fact given).weaken (tableOwned_nonnull ht table) fun _ => le_rfl

theorem visitChains_spec (table : HashTable) :
    ∀ᶠ fuel in Filter.atTop, ∀ ht, Triple (tableOwned ht table) (visitChains fuel ht (List.finRange TABLE_SIZE)) fun out =>
      fact (out = traversal table) * tableOwned ht table := by
  filter_upwards [eventually_roomy table] with fuel roomy ht
  have walked : ∀ heads : Fin TABLE_SIZE → Address, ∀ indices : List (Fin TABLE_SIZE),
      Triple (pointsTo ht (.hashTable heads) * (indices.map fun i => chainAt (heads i) (table.table i)).prod)
        (visitChains fuel ht indices) fun out => fact (out = indices.flatMap table.table) *
          (pointsTo ht (.hashTable heads) * (indices.map fun i => chainAt (heads i) (table.table i)).prod) := by
    intro heads indices
    induction indices with
    | nil => exact Triple.ret (le_fact_mul rfl le_rfl)
    | cons i indices ih =>
      rw [List.map_cons, List.prod_cons, visitChains]
      apply tableAt_step rfl
      apply (visitChain_spec (table.table i) fuel (roomy i) (heads i)).call (mul_left_comm _ _ _)
      intro nodes
      rw [mul_assoc]
      apply Triple.of_fact
      intro same
      subst same
      apply ih.call (mul_comm _ _)
      intro later
      rw [mul_assoc]
      apply Triple.of_fact
      intro same
      subst same
      apply Triple.ret
      apply le_fact_mul rfl
      rw [mul_comm, mul_left_comm]
  apply Triple.some_case
  intro heads
  rw [Fin.prod_univ_def]
  apply (walked heads (List.finRange TABLE_SIZE)).weaken le_rfl
  intro out
  apply join_mono le_rfl
  rw [← Fin.prod_univ_def]
  exact le_iSup (fun heads => pointsTo ht (.hashTable heads) * ∏ i, chainAt (heads i) (table.table i)) heads

theorem keyExists_spec {table : HashTable} {key : CString} {code : Int}
    (defined : kvsKeyExists (some table) key = some code) :
    ∀ᶠ fuel in Filter.atTop, ∀ ht, Triple (tableOwned ht table) (keyExists fuel ht key) fun out =>
      fact (out = code) * tableOwned ht table := by
  obtain ⟨index, inside, made⟩ := Option.map_eq_some_iff.mp defined
  filter_upwards [eventually_roomy table] with fuel roomy ht
  unfold keyExists
  apply checked_step inside
  apply of_tableOwned index
  intro heads
  apply tableAt_step rfl
  rw [mul_left_comm]
  apply ((existsLoop_spec key (table.table index) fuel (roomy index) (heads index)).frame _).weaken le_rfl
  intro out
  rw [made, mul_assoc, mul_left_comm (chainAt _ _)]
  have closed := @tableOwned_of_chain ht heads table index (table.table index)
  rw [Function.update_eq_self] at closed
  exact join_mono le_rfl closed

theorem forked_spec {Result : Type} {p : Assertion Block} {child : Routine Result} {answer : Result}
    (ran : Triple p child fun out => fact (out = answer) * p) :
    Triple p (forked child) fun out => fact (out = answer) * p := by
  intro own owned frame apart
  obtain ⟨out, own', ⟨first, inFirst, _⟩, _, ran⟩ := ran own owned frame apart
  refine ⟨out, own, ?_, apart, ?_⟩
  · exact le_fact_mul inFirst.1 le_rfl owned
  · rw [forked, ran, Option.map_some]

/-- Without a table only `kvs_init` does anything. -/
theorem null_call {call : TableCall} (defined : runCall none call = some (next, reply)) (other : call ≠ .kvsInit)
    (fuel : Nat) : next = none ∧ memoryCall allocator fuel 0 call = pure (0, reply) := by
  cases call with
  | kvsInit => exact absurd rfl other
  | kvsTerminate =>
    cases defined
    refine ⟨rfl, ?_⟩
    rw [memoryCall, terminateTable, if_pos rfl, pure_bind]
    rfl
  | kvsWrite pairs | kvsRead keys | kvsDelete keys =>
    cases defined
    refine ⟨rfl, ?_⟩
    rw [memoryCall, if_pos rfl]
  | kvsShow =>
    cases defined
    refine ⟨rfl, ?_⟩
    rw [memoryCall, if_pos rfl]
    rfl
  | kvsKeyExists key | kvsBackup => cases defined

theorem init_spec (fuel : Nat) (pointer : Address) :
    Triple (storeOwned none pointer) (memoryCall allocator fuel pointer .kvsInit) fun out =>
      fact (out.2 = .result (kvsInit none).2) * storeOwned (kvsInit none).1 out.1 := by
  show Triple (fact (pointer = 0)) _ _
  rw [← mul_one (fact (pointer = 0))]
  apply Triple.of_fact
  intro null
  rw [memoryCall, initTable, if_neg (not_not.mpr null), bind_assoc]
  apply (createHashTable_spec allocator).bind
  intro ht
  apply of_table
  intro nonnull
  rw [pure_bind, if_neg nonnull]
  exact Triple.ret (le_fact_mul rfl le_rfl)

/-- A call that the lists define runs on the heap, with the same answer and the same table. -/
theorem memoryCall_spec (call : TableCall) (defined : runCall kvsTable call = some (next, reply)) :
    ∀ᶠ fuel in Filter.atTop, ∀ pointer, Triple (storeOwned kvsTable pointer) (memoryCall allocator fuel pointer call) fun out =>
      fact (out.2 = reply) * storeOwned next out.1 := by
  cases kvsTable with
  | none =>
    apply Filter.Eventually.of_forall
    intro fuel pointer
    by_cases init : call = .kvsInit
    · subst init
      cases defined
      exact init_spec allocator fuel pointer
    · obtain ⟨same, ran⟩ := null_call allocator defined init fuel
      subst same
      show Triple (fact (pointer = 0)) _ _
      rw [← mul_one (fact (pointer = 0))]
      apply Triple.of_fact
      intro null
      rw [null, ran]
      exact Triple.ret (le_fact_mul rfl (fact_of rfl).ge)
  | some ht =>
    cases call with
    | kvsInit =>
      cases defined
      apply Filter.Eventually.of_forall
      intro fuel pointer
      apply of_table
      intro nonnull
      rw [memoryCall, initTable, if_pos nonnull, pure_bind]
      exact Triple.ret (le_fact_mul rfl le_rfl)
    | kvsTerminate =>
      cases defined
      filter_upwards [eventually_roomy ht] with fuel roomy pointer
      apply of_table
      intro nonnull
      rw [memoryCall, terminateTable, if_neg nonnull, bind_assoc]
      apply (freeTable_spec pointer roomy).bind
      intro _
      rw [pure_bind]
      exact Triple.ret (le_fact_mul rfl (fact_of rfl).ge)
    | kvsWrite pairs =>
      obtain ⟨⟨after, result⟩, wrote, made⟩ := Option.map_eq_some_iff.mp defined
      obtain ⟨⟨last, printed⟩, looped, made'⟩ := Option.map_eq_some_iff.mp wrote
      cases made'
      cases made
      filter_upwards [writeAll_spec allocator looped] with fuel written pointer
      apply of_table
      intro nonnull
      rw [memoryCall, if_neg nonnull]
      apply Triple.bind_answer (written pointer)
      exact Triple.ret (le_fact_mul rfl le_rfl)
    | kvsRead keys =>
      obtain ⟨⟨after, result⟩, answered, made⟩ := Option.map_eq_some_iff.mp defined
      obtain ⟨lines, looped, made'⟩ := Option.map_eq_some_iff.mp answered
      cases made'
      cases made
      filter_upwards [readAll_spec allocator looped] with fuel found pointer
      apply of_table
      intro nonnull
      rw [memoryCall, if_neg nonnull]
      apply Triple.bind_answer (found pointer)
      exact Triple.ret (le_fact_mul rfl le_rfl)
    | kvsDelete keys =>
      obtain ⟨⟨after, result⟩, deleted, made⟩ := Option.map_eq_some_iff.mp defined
      obtain ⟨⟨last, aux, lines⟩, looped, made'⟩ := Option.map_eq_some_iff.mp deleted
      cases made'
      cases made
      filter_upwards [deleteAll_spec looped] with fuel unlinked pointer
      apply of_table
      intro nonnull
      rw [memoryCall, if_neg nonnull]
      apply Triple.bind_answer (unlinked pointer)
      exact Triple.ret (le_fact_mul rfl le_rfl)
    | kvsShow =>
      cases defined
      filter_upwards [visitChains_spec ht] with fuel visited pointer
      apply of_table
      intro nonnull
      rw [memoryCall, if_neg nonnull]
      apply Triple.bind_answer (visited pointer)
      exact Triple.ret (le_fact_mul rfl le_rfl)
    | kvsKeyExists key =>
      obtain ⟨code, found, made⟩ := Option.map_eq_some_iff.mp defined
      cases made
      filter_upwards [keyExists_spec found] with fuel ran pointer
      apply Triple.bind_answer (ran pointer)
      exact Triple.ret (le_fact_mul rfl le_rfl)
    | kvsBackup =>
      cases defined
      filter_upwards [visitChains_spec ht] with fuel visited pointer
      apply Triple.bind_answer (forked_spec (visited pointer))
      exact Triple.ret (le_fact_mul rfl le_rfl)

theorem memoryCalls_spec (calls : List TableCall) {replies : List Reply}
    (defined : runCalls kvsTable calls = some (next, replies)) :
    ∀ᶠ fuel in Filter.atTop, ∀ pointer, Triple (storeOwned kvsTable pointer) (memoryCalls allocator fuel pointer calls) fun out =>
      fact (out.2 = replies) * storeOwned next out.1 := by
  induction calls generalizing kvsTable replies with
  | nil =>
    cases defined
    exact .of_forall fun _ _ => Triple.ret (le_fact_mul rfl le_rfl)
  | cons call calls ih =>
    obtain ⟨⟨middle, reply⟩, first, rest⟩ := Option.bind_eq_some_iff.mp defined
    obtain ⟨⟨last, later⟩, second, made⟩ := Option.bind_eq_some_iff.mp rest
    cases made
    filter_upwards [memoryCall_spec allocator call first, ih second] with fuel here after pointer
    apply (here pointer).bind
    intro out
    apply Triple.of_fact
    intro same
    subst same
    apply (after out.1).bind
    intro final
    apply Triple.of_fact
    intro same
    subst same
    exact Triple.ret (le_fact_mul rfl le_rfl)

end Calls

/-! The blocks of a table: its own, and three for each node. -/

def blocks : KvsTable → Nat
  | none => 0
  | some ht => 1 + 3 * (traversal ht).length

theorem owns_tableOwned (ht : Address) (table : HashTable) :
    Owns (tableOwned ht table) (1 + 3 * (traversal table).length) := by
  have node : ∀ address next node, Owns (nodeAt address next node) 3 := by
    intro address next node
    apply Owns.iSup
    intro key
    apply Owns.iSup
    intro value
    exact (owns_pointsTo _ _).mul ((owns_pointsTo _ _).mul (owns_pointsTo _ _))
  have count : ∑ i, 3 * (table.table i).length = 3 * (traversal table).length := by
    rw [← Finset.mul_sum, Fin.sum_univ_def, traversal, List.length_flatMap]
  rw [← count]
  apply Owns.iSup
  intro heads
  exact (owns_pointsTo _ _).mul (Owns.prod Finset.univ fun i => owns_chain node (heads i) (table.table i))

theorem owns_store (kvsTable : KvsTable) (pointer : Address) : Owns (storeOwned kvsTable pointer) (blocks kvsTable) := by
  cases kvsTable with
  | none =>
    show Owns (fact (pointer = 0)) 0
    rw [← mul_one (fact (pointer = 0))]
    exact Owns.fact_mul fun _ => owns_one
  | some ht => exact owns_tableOwned pointer ht

/-- A sequence that the lists define runs on any heap, gives the same answers, adds the
blocks of its table and leaves the others as they were. -/
theorem runs_on_heap (allocator : Allocator Block) {calls : List TableCall} {last : KvsTable} {replies : List Reply}
    (defined : runCalls none calls = some (last, replies)) :
    ∃ enough, ∀ fuel ≥ enough, ∀ heap : Memory, ∃ pointer, ∃ own ∈ storeOwned last pointer,
      own.Disjoint heap ∧ own.keys.card = blocks last ∧
        memoryCalls allocator fuel 0 calls heap = some ((pointer, replies), own ∪ heap) := by
  obtain ⟨enough, ran⟩ := Filter.eventually_atTop.mp (memoryCalls_spec allocator calls defined)
  refine ⟨enough, fun fuel above heap => ?_⟩
  have started : (∅ : Memory) ∈ storeOwned none 0 := ⟨rfl, rfl⟩
  obtain ⟨⟨pointer, out⟩, own, owned, apart, result⟩ := ran fuel above 0 ∅ started heap (Finmap.disjoint_empty heap)
  obtain ⟨first, ⟨same, empty⟩, second, held, _, joined⟩ := owned
  rw [empty, Finmap.empty_union] at joined
  subst joined same
  rw [Finmap.empty_union] at result
  exact ⟨pointer, second, held, apart, owns_store last pointer second held, result⟩

/-! The calls that are made between `kvs_init` and `kvs_terminate`. -/

def storeAfter (store : Store) : TableCall → Store
  | .kvsWrite pairs => FiniteMap.specWrite store pairs
  | .kvsDelete keys => FiniteMap.specDelete store keys
  | .kvsInit | .kvsTerminate | .kvsRead _ | .kvsShow | .kvsKeyExists _ | .kvsBackup => store

/-- A call that keeps the table, on keys that have a bucket. -/
def Served (call : TableCall) : Prop := call ≠ .kvsTerminate ∧ ∀ key ∈ call.keys, Alphanumeric key

instance (call : TableCall) : Decidable (Served call) := inferInstanceAs (Decidable (_ ∧ _))

theorem served_call (table : KeyTable) {call : TableCall} (served : Served call) :
    ∃ next : KeyTable, ∃ reply, runCall (some (KeyTable.raw table)) call = some (some (KeyTable.raw next), reply) ∧
      next.contents = storeAfter table.contents call := by
  have hashed := fun key member => hashed_of_alphanumeric (served.2 key member)
  cases call with
  | kvsInit => exact ⟨table, _, rfl, rfl⟩
  | kvsTerminate => exact absurd rfl served.1
  | kvsWrite pairs =>
    obtain ⟨next, written, contents⟩ := FiniteMap.writePairs_raw table pairs hashed
    exact ⟨next, _, by rw [runCall, kvsWrite, written]; rfl, contents⟩
  | kvsRead keys =>
    have found := FiniteMap.readPairs_raw table keys hashed
    exact ⟨table, _, by rw [runCall, kvsRead, found]; rfl, rfl⟩
  | kvsDelete keys =>
    obtain ⟨next, deleted, contents⟩ := FiniteMap.deletePairs_raw table false keys hashed
    exact ⟨next, _, by rw [runCall, kvsDelete, deleted]; rfl, contents⟩
  | kvsShow => exact ⟨table, _, rfl, rfl⟩
  | kvsKeyExists key =>
    have found := FiniteMap.kvsKeyExists_raw table (hashed key List.mem_cons_self)
    exact ⟨table, _, by rw [runCall, found]; rfl, rfl⟩
  | kvsBackup => exact ⟨table, _, rfl, rfl⟩

theorem served_calls (table : KeyTable) {calls : List TableCall} (served : ∀ call ∈ calls, Served call) :
    ∃ next : KeyTable, ∃ replies, runCalls (some (KeyTable.raw table)) calls = some (some (KeyTable.raw next), replies) ∧
      next.contents = calls.foldl storeAfter table.contents := by
  induction calls generalizing table with
  | nil => exact ⟨table, [], rfl, rfl⟩
  | cons call calls ih =>
    obtain ⟨middle, reply, first, contents⟩ := served_call table (served call List.mem_cons_self)
    obtain ⟨next, replies, rest, contents'⟩ := ih middle (fun other member => served other (List.mem_cons_of_mem _ member))
    refine ⟨next, reply :: replies, ?_, ?_⟩
    · simp only [runCalls, first, rest, Option.bind_eq_bind, Option.bind_some]
    · rw [contents', contents]
      rfl

/-- The keys that the store binds. -/
def boundKeys (store : Store) : Set CString := {key | (store key).isSome}

theorem boundKeys_ncard {ht : HashTable} {store : Store} (represents : Represents ht store) :
    (boundKeys store).ncard = (traversal ht).length := by
  have same : boundKeys store = ↑((traversal ht).map Node.key).toFinset := by
    ext key
    rw [Finset.mem_coe, List.mem_toFinset, List.mem_map]
    constructor
    · intro bound
      obtain ⟨value, held⟩ := Option.isSome_iff_exists.mp bound
      exact ⟨⟨key, value⟩, (represents.bindings ⟨key, value⟩).mpr held, rfl⟩
    · rintro ⟨node, member, named⟩
      show (store key).isSome = true
      rw [← named, (represents.bindings node).mp member]
      rfl
  rw [same, Set.ncard_coe_finset, List.toFinset_card_of_nodup, List.length_map]
  exact represents.once

theorem runCalls_append {kvsTable middle last : KvsTable} {calls later : List TableCall} {replies replies' : List Reply}
    (first : runCalls kvsTable calls = some (middle, replies)) (second : runCalls middle later = some (last, replies')) :
    runCalls kvsTable (calls ++ later) = some (last, replies ++ replies') := by
  induction calls generalizing kvsTable replies with
  | nil =>
    cases first
    exact second
  | cons call calls ih =>
    obtain ⟨⟨next, reply⟩, here, rest⟩ := Option.bind_eq_some_iff.mp first
    obtain ⟨⟨ended, answers⟩, there, made⟩ := Option.bind_eq_some_iff.mp rest
    cases made
    simp only [List.cons_append, runCalls, here, ih there, Option.bind_eq_bind, Option.bind_some]

/-- `kvs_init` and served calls leave a table of the store that the calls describe. -/
theorem init_served {calls : List TableCall} (served : ∀ call ∈ calls, Served call) :
    ∃ table : KeyTable, ∃ replies, runCalls none (.kvsInit :: calls) = some (some (KeyTable.raw table), replies) ∧
      Represents (KeyTable.raw table) (calls.foldl storeAfter emptyStore) := by
  obtain ⟨table, replies, ran, contents⟩ := served_calls (Table.empty CString bucket) served
  refine ⟨table, .result ⟨0, [], []⟩ :: replies, ?_, ?_⟩
  · show (runCalls (some (KeyTable.raw (Table.empty CString bucket))) calls).bind _ = _
    rw [ran]
    rfl
  · rw [contents_empty] at contents
    exact contents ▸ represents_raw table

/-- From `kvs_init` to `kvs_terminate` no pointer is used that is not allocated, the
answers are those of the lists, and the heap is left as it was found. -/
theorem heap_restored (allocator : Allocator Block) (calls : List TableCall) (served : ∀ call ∈ calls, Served call) :
    ∃ replies, runCalls none (.kvsInit :: calls ++ [.kvsTerminate]) = some (none, replies) ∧
      ∃ enough, ∀ fuel ≥ enough, ∀ heap : Memory,
        memoryCalls allocator fuel 0 (.kvsInit :: calls ++ [.kvsTerminate]) heap = some ((0, replies), heap) := by
  obtain ⟨table, replies, ran, _⟩ := init_served served
  have whole : runCalls none (.kvsInit :: calls ++ [.kvsTerminate]) = some (none, replies ++ [.result ⟨0, [], []⟩]) :=
    runCalls_append ran rfl
  refine ⟨_, whole, ?_⟩
  obtain ⟨enough, runs⟩ := runs_on_heap allocator whole
  refine ⟨enough, fun fuel above heap => ?_⟩
  obtain ⟨pointer, own, ⟨null, empty⟩, _, _, result⟩ := runs fuel above heap
  rw [result, null, empty, Finmap.empty_union]

/-- Three keys of one bucket, one of them overwritten, the one between the others deleted. -/
def sharedBucket : List TableCall :=
  let a := CString.ofBytes [97]
  let upper := CString.ofBytes [65]
  let zero := CString.ofBytes [48]
  [.kvsWrite [(a, zero), (upper, zero), (zero, zero), (a, upper)], .kvsDelete [upper, upper], .kvsRead [a, upper],
    .kvsKeyExists zero, .kvsInit, .kvsShow, .kvsBackup]

theorem heap_restored_of_sharedBucket :
    ∃ replies, runCalls none (.kvsInit :: sharedBucket ++ [.kvsTerminate]) = some (none, replies) ∧
      ∃ enough, ∀ fuel ≥ enough, ∀ heap : Memory,
        memoryCalls firstFit fuel 0 (.kvsInit :: sharedBucket ++ [.kvsTerminate]) heap = some ((0, replies), heap) :=
  heap_restored firstFit sharedBucket (by decide)

/-- While the table exists it owns its own block and three blocks for each bound key, and
every other block of the heap is as it was. -/
theorem blocks_of_bound_keys (allocator : Allocator Block) (calls : List TableCall)
    (served : ∀ call ∈ calls, Served call) :
    ∃ table, ∃ replies, runCalls none (.kvsInit :: calls) = some (some table, replies) ∧
      Represents table (calls.foldl storeAfter emptyStore) ∧
      ∃ enough, ∀ fuel ≥ enough, ∀ heap : Memory, ∃ pointer, ∃ own ∈ tableOwned pointer table,
        own.Disjoint heap ∧ own.keys.card = 1 + 3 * (boundKeys (calls.foldl storeAfter emptyStore)).ncard ∧
        memoryCalls allocator fuel 0 (.kvsInit :: calls) heap = some ((pointer, replies), own ∪ heap) := by
  obtain ⟨table, replies, ran, represents⟩ := init_served served
  refine ⟨KeyTable.raw table, replies, ran, represents, ?_⟩
  rw [boundKeys_ncard represents]
  exact runs_on_heap allocator ran

theorem blocks_of_sharedBucket :
    ∃ table, ∃ replies, runCalls none (.kvsInit :: sharedBucket) = some (some table, replies) ∧
      Represents table (sharedBucket.foldl storeAfter emptyStore) ∧
      ∃ enough, ∀ fuel ≥ enough, ∀ heap : Memory, ∃ pointer, ∃ own ∈ tableOwned pointer table,
        own.Disjoint heap ∧ own.keys.card = 1 + 3 * (boundKeys (sharedBucket.foldl storeAfter emptyStore)).ncard ∧
        memoryCalls firstFit fuel 0 (.kvsInit :: sharedBucket) heap = some ((pointer, replies), own ∪ heap) :=
  blocks_of_bound_keys firstFit sharedBucket (by decide)

end IstKvs.StoreMemory
