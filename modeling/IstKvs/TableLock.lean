import IstKvs.Library.ReadWriteLock
import IstKvs.StoreMemory

/-! The threads that share `kvs_table`. Each function of `operations.c` takes the table's
lock, walks and changes the chains one node at a time, and gives the lock back. -/

namespace IstKvs.TableLock
open ReadWriteLock LabelledRuns ChainedTable Kvs Operations StoreMemory

/-- The calls that take the lock. -/
inductive LockedCall where
  | kvsWrite (pairs : List (CString × CString))
  | kvsRead (keys : List CString)
  | kvsDelete (keys : List CString)
  | kvsShow
  | kvsKeyExists (key : CString)
  | kvsBackup
  deriving DecidableEq

def LockedCall.call : LockedCall → TableCall
  | .kvsWrite pairs => .kvsWrite pairs
  | .kvsRead keys => .kvsRead keys
  | .kvsDelete keys => .kvsDelete keys
  | .kvsShow => .kvsShow
  | .kvsKeyExists key => .kvsKeyExists key
  | .kvsBackup => .kvsBackup

/-- Where a call stands in its loops: the pairs, keys or chains left, the position of
`keyNode` in the chain, and what was written to `fd`. -/
inductive Stage where
  | writing (pairs : List (CString × CString)) (position : Nat)
  | reading (keys : List CString) (position : Nat) (lines : List UInt8)
  | deleting (keys : List CString) (position : Nat) (aux : Bool) (lines : List UInt8)
  | showing (indices : List (Fin TABLE_SIZE)) (position : Nat) (lines : List UInt8)
  | looking (key : CString) (position : Nat)
  | forking

def enter : LockedCall → Stage
  | .kvsWrite pairs => .writing pairs 0
  | .kvsRead keys => .reading keys 0 []
  | .kvsDelete keys => .deleting keys 0 false []
  | .kvsShow => .showing (List.finRange TABLE_SIZE) 0 []
  | .kvsKeyExists key => .looking key 0
  | .kvsBackup => .forking

/-- `pthread_rwlock_wrlock` in `kvs_write` and `kvs_delete`, `pthread_rwlock_rdlock` in the others. -/
def Stage.takenForWriting : Stage → Bool
  | .writing _ _ | .deleting _ _ _ _ => true
  | .reading _ _ _ | .showing _ _ _ | .looking _ _ | .forking => false

/-- One test of `keyNode` in the loops: the end of a chain, a node with the key, or the
next node. `write_pair` returns 0 at both ends, so `kvs_write` prints nothing. -/
def tableStep (ht : HashTable) : Stage → Option (HashTable × (Stage ⊕ Reply))
  | .writing [] _ => some (ht, .inr (.result ⟨0, [], []⟩))
  | .writing ((key, value) :: pairs) position =>
      (cell (hash key)).map fun index =>
        match (ht.table index)[position]? with
        | none => (⟨Function.update ht.table index (⟨key, value⟩ :: ht.table index)⟩, .inl (.writing pairs 0))
        | some node =>
            if node.key = key then
              (⟨Function.update ht.table index ((ht.table index).set position ⟨node.key, value⟩)⟩, .inl (.writing pairs 0))
            else (ht, .inl (.writing ((key, value) :: pairs) (position + 1)))
  | .reading [] _ lines => some (ht, .inr (.result ⟨0, text "[" ++ lines ++ text "]\n", []⟩))
  | .reading (key :: keys) position lines =>
      (cell (hash key)).map fun index =>
        match (ht.table index)[position]? with
        | none => (ht, .inl (.reading keys 0 (lines ++ readLine key none)))
        | some node =>
            if node.key = key then (ht, .inl (.reading keys 0 (lines ++ readLine key (some node.value))))
            else (ht, .inl (.reading (key :: keys) (position + 1) lines))
  | .deleting [] _ aux lines => some (ht, .inr (.result ⟨0, lines ++ (if aux then text "]\n" else []), []⟩))
  | .deleting (key :: keys) position aux lines =>
      (cell (hash key)).map fun index =>
        match (ht.table index)[position]? with
        | none => (ht, .inl (.deleting keys 0 true (lines ++ (if aux then [] else text "[") ++ missingLine key)))
        | some node =>
            if node.key = key then
              (⟨Function.update ht.table index ((ht.table index).eraseIdx position)⟩, .inl (.deleting keys 0 aux lines))
            else (ht, .inl (.deleting (key :: keys) (position + 1) aux lines))
  | .showing [] _ lines => some (ht, .inr (.shown (lines, [])))
  | .showing (index :: indices) position lines =>
      match (ht.table index)[position]? with
      | none => some (ht, .inl (.showing indices 0 lines))
      | some node => some (ht, .inl (.showing (index :: indices) (position + 1) (lines ++ showLine node)))
  | .looking key position =>
      (cell (hash key)).map fun index =>
        match (ht.table index)[position]? with
        | none => (ht, .inr (.status 0))
        | some node => if node.key = key then (ht, .inr (.status 1)) else (ht, .inl (.looking key (position + 1)))
  | .forking => some (ht, .inr (.forked (traversal ht)))

/-! What a step can do, one case for each kind of stage. -/

/-- The steps with what the walk met. -/
inductive Steps (ht : HashTable) : Stage → HashTable → Stage ⊕ Reply → Prop where
  | written {position} : Steps ht (.writing [] position) ht (.inr (.result ⟨0, [], []⟩))
  | linked {key value pairs position index} : cell (hash key) = some index → (ht.table index)[position]? = none →
      Steps ht (.writing ((key, value) :: pairs) position)
        ⟨Function.update ht.table index (⟨key, value⟩ :: ht.table index)⟩ (.inl (.writing pairs 0))
  | overwritten {key value pairs position index node} : cell (hash key) = some index →
      (ht.table index)[position]? = some node → node.key = key →
      Steps ht (.writing ((key, value) :: pairs) position)
        ⟨Function.update ht.table index ((ht.table index).set position ⟨node.key, value⟩)⟩ (.inl (.writing pairs 0))
  | writeOn {key value pairs position index node} : cell (hash key) = some index →
      (ht.table index)[position]? = some node → node.key ≠ key →
      Steps ht (.writing ((key, value) :: pairs) position) ht (.inl (.writing ((key, value) :: pairs) (position + 1)))
  | readAll {position lines} : Steps ht (.reading [] position lines) ht
      (.inr (.result ⟨0, text "[" ++ lines ++ text "]\n", []⟩))
  | readMissing {key keys position lines index} : cell (hash key) = some index → (ht.table index)[position]? = none →
      Steps ht (.reading (key :: keys) position lines) ht (.inl (.reading keys 0 (lines ++ readLine key none)))
  | readFound {key keys position lines index node} : cell (hash key) = some index →
      (ht.table index)[position]? = some node → node.key = key →
      Steps ht (.reading (key :: keys) position lines) ht
        (.inl (.reading keys 0 (lines ++ readLine key (some node.value))))
  | readOn {key keys position lines index node} : cell (hash key) = some index →
      (ht.table index)[position]? = some node → node.key ≠ key →
      Steps ht (.reading (key :: keys) position lines) ht (.inl (.reading (key :: keys) (position + 1) lines))
  | deletedAll {position aux lines} : Steps ht (.deleting [] position aux lines) ht
      (.inr (.result ⟨0, lines ++ (if aux then text "]\n" else []), []⟩))
  | deleteMissing {key keys position aux lines index} : cell (hash key) = some index →
      (ht.table index)[position]? = none →
      Steps ht (.deleting (key :: keys) position aux lines) ht
        (.inl (.deleting keys 0 true (lines ++ (if aux then [] else text "[") ++ missingLine key)))
  | deleteFound {key keys position aux lines index node} : cell (hash key) = some index →
      (ht.table index)[position]? = some node → node.key = key →
      Steps ht (.deleting (key :: keys) position aux lines)
        ⟨Function.update ht.table index ((ht.table index).eraseIdx position)⟩ (.inl (.deleting keys 0 aux lines))
  | deleteOn {key keys position aux lines index node} : cell (hash key) = some index →
      (ht.table index)[position]? = some node → node.key ≠ key →
      Steps ht (.deleting (key :: keys) position aux lines) ht
        (.inl (.deleting (key :: keys) (position + 1) aux lines))
  | shownAll {position lines} : Steps ht (.showing [] position lines) ht (.inr (.shown (lines, [])))
  | showChain {index indices position lines} : (ht.table index)[position]? = none →
      Steps ht (.showing (index :: indices) position lines) ht (.inl (.showing indices 0 lines))
  | showNode {index indices position lines node} : (ht.table index)[position]? = some node →
      Steps ht (.showing (index :: indices) position lines) ht
        (.inl (.showing (index :: indices) (position + 1) (lines ++ showLine node)))
  | lookMissing {key position index} : cell (hash key) = some index → (ht.table index)[position]? = none →
      Steps ht (.looking key position) ht (.inr (.status 0))
  | lookFound {key position index node} : cell (hash key) = some index → (ht.table index)[position]? = some node →
      node.key = key → Steps ht (.looking key position) ht (.inr (.status 1))
  | lookOn {key position index node} : cell (hash key) = some index → (ht.table index)[position]? = some node →
      node.key ≠ key → Steps ht (.looking key position) ht (.inl (.looking key (position + 1)))
  | fork : Steps ht .forking ht (.inr (.forked (traversal ht)))

variable {ht next : HashTable} {stage : Stage} {result : Stage ⊕ Reply}

theorem steps_of_step (taken : tableStep ht stage = some (next, result)) : Steps ht stage next result := by
  cases stage with
  | writing pairs position =>
    cases pairs with
    | nil =>
      cases taken
      exact .written
    | cons pair pairs =>
      obtain ⟨index, inside, made⟩ := Option.map_eq_some_iff.mp taken
      split at made
      next ended =>
        cases made
        exact .linked inside ended
      next node here =>
        split at made
        next same =>
          cases made
          exact .overwritten inside here same
        next different =>
          cases made
          exact .writeOn inside here different
  | reading keys position lines =>
    cases keys with
    | nil =>
      cases taken
      exact .readAll
    | cons key keys =>
      obtain ⟨index, inside, made⟩ := Option.map_eq_some_iff.mp taken
      split at made
      next ended =>
        cases made
        exact .readMissing inside ended
      next node here =>
        split at made
        next same =>
          cases made
          exact .readFound inside here same
        next different =>
          cases made
          exact .readOn inside here different
  | deleting keys position aux lines =>
    cases keys with
    | nil =>
      cases taken
      exact .deletedAll
    | cons key keys =>
      obtain ⟨index, inside, made⟩ := Option.map_eq_some_iff.mp taken
      split at made
      next ended =>
        cases made
        exact .deleteMissing inside ended
      next node here =>
        split at made
        next same =>
          cases made
          exact .deleteFound inside here same
        next different =>
          cases made
          exact .deleteOn inside here different
  | showing indices position lines =>
    cases indices with
    | nil =>
      cases taken
      exact .shownAll
    | cons index indices =>
      simp only [tableStep] at taken
      split at taken
      next ended =>
        cases taken
        exact .showChain ended
      next node here =>
        cases taken
        exact .showNode here
  | looking key position =>
    obtain ⟨index, inside, made⟩ := Option.map_eq_some_iff.mp taken
    split at made
    next ended =>
      cases made
      exact .lookMissing inside ended
    next node here =>
      split at made
      next same =>
        cases made
        exact .lookFound inside here same
      next different =>
        cases made
        exact .lookOn inside here different
  | forking =>
    cases taken
    exact .fork

def tableCode : Code LockedCall HashTable Stage Reply where
  enter := enter
  writing := Stage.takenForWriting
  step := tableStep
  mode_kept := by
    intro ht stage next later taken
    cases steps_of_step taken <;> rfl
  reads_only := by
    intro ht stage next result reads taken
    cases steps_of_step taken <;> first | rfl | cases reads

/-! A call alone does what the function on lists does. -/

/-- The nodes that `kvs_show` has not come to. -/
def unseen (ht : HashTable) : List (Fin TABLE_SIZE) → Nat → List KeyNode
  | [], _ => []
  | index :: indices, position => (ht.table index).drop position ++ indices.flatMap ht.table

/-- What is left of a call, done by the functions on lists. -/
def finishStage (ht : HashTable) : Stage → Option (KvsTable × Reply)
  | .writing pairs _ => (writePairs ht pairs).map fun (last, printed) => (some last, .result ⟨0, [], printed⟩)
  | .reading keys _ lines => (readPairs ht keys).map fun more =>
      (some ht, .result ⟨0, text "[" ++ (lines ++ more) ++ text "]
", []⟩)
  | .deleting keys _ aux lines => (deletePairs ht aux keys).map fun (last, aux', more) =>
      (some last, .result ⟨0, (lines ++ more) ++ (if aux' then text "]
" else []), []⟩)
  | .showing indices position lines =>
      some (some ht, .shown (lines ++ (unseen ht indices position).flatMap showLine, []))
  | .looking key _ => (kvsKeyExists (some ht) key).map fun code => (some ht, .status code)
  | .forking => some (some ht, .forked (traversal ht))

def outcome (ht : HashTable) : Stage ⊕ Reply → Option (KvsTable × Reply)
  | .inl stage => finishStage ht stage
  | .inr reply => some (some ht, reply)

/-- The key that a stage walks for, and the position of its walk. -/
def Stage.walk : Stage → Option (CString × Nat)
  | .writing pairs position => pairs.head?.map fun pair => (pair.1, position)
  | .reading keys position _ | .deleting keys position _ _ => keys.head?.map fun key => (key, position)
  | .looking key position => some (key, position)
  | .showing _ _ _ | .forking => none

/-- The nodes before the position do not have the key. -/
def Walking (ht : HashTable) (stage : Stage) : Prop :=
  ∀ key position, stage.walk = some (key, position) → ∀ index, cell (hash key) = some index →
    Passed key (ht.table index) position

def WalkingOn (ht : HashTable) : Stage ⊕ Reply → Prop
  | .inl stage => Walking ht stage
  | .inr _ => True

theorem walking_start (ht : HashTable) {stage : Stage}
    (start : ∀ key position, stage.walk = some (key, position) → position = 0) : Walking ht stage := by
  intro key position walk index _
  rw [start key position walk]
  exact passed_zero

theorem walking_next (walking : Walking ht stage) {later : Stage} {key : CString} {position : Nat}
    {index : Fin TABLE_SIZE} {node : KeyNode} (walk : stage.walk = some (key, position))
    (inside : cell (hash key) = some index) (here : (ht.table index)[position]? = some node) (different : node.key ≠ key)
    (walk' : later.walk = some (key, position + 1)) : Walking ht later := by
  intro key' position' walked index' inside'
  rw [walk'] at walked
  cases walked
  rw [inside] at inside'
  cases inside'
  exact (walking key position walk index inside).succ here different

theorem steps_walking (steps : Steps ht stage next result) (walking : Walking ht stage) : WalkingOn next result := by
  cases steps with
  | written | readAll | deletedAll | shownAll | lookMissing | lookFound | fork => trivial
  | linked | overwritten | readMissing | readFound | deleteMissing | deleteFound =>
    apply walking_start
    intro key position walk
    obtain ⟨_, _, made⟩ := Option.map_eq_some_iff.mp walk
    cases made
    rfl
  | writeOn inside here different => exact walking_next walking rfl inside here different rfl
  | readOn inside here different => exact walking_next walking rfl inside here different rfl
  | deleteOn inside here different => exact walking_next walking rfl inside here different rfl
  | lookOn inside here different => exact walking_next walking rfl inside here different rfl
  | showChain | showNode =>
    intro key position walk
    cases walk

theorem pair_missed {key : CString} {index : Fin TABLE_SIZE} {position : Nat} (inside : cell (hash key) = some index)
    (passed : Passed key (ht.table index) position) (ended : (ht.table index)[position]? = none) (value : CString) :
    readPair ht key = some none ∧ deletePair ht key = some (ht, 1) ∧
      writePair ht key value = some (⟨Function.update ht.table index (⟨key, value⟩ :: ht.table index)⟩, 0) := by
  obtain ⟨nothing, unwritten, kept⟩ := walk_missed passed ended value
  simp only [readPair, deletePair, writePair, inside, Option.map_some, nothing, unwritten, kept, and_self]

theorem pair_found {key : CString} {index : Fin TABLE_SIZE} {position : Nat} {node : KeyNode}
    (inside : cell (hash key) = some index) (passed : Passed key (ht.table index) position)
    (here : (ht.table index)[position]? = some node) (same : node.key = key) (value : CString) :
    readPair ht key = some (some node.value) ∧
      deletePair ht key = some (⟨Function.update ht.table index ((ht.table index).eraseIdx position)⟩, 0) ∧
      writePair ht key value =
        some (⟨Function.update ht.table index ((ht.table index).set position ⟨node.key, value⟩)⟩, 0) := by
  obtain ⟨found, written, unlinked⟩ := walk_found passed here same value
  simp only [readPair, deletePair, writePair, inside, Option.map_some, found, written, unlinked, and_self]

theorem steps_outcome (steps : Steps ht stage next result) (walking : Walking ht stage) :
    finishStage ht stage = outcome next result := by
  cases steps with
  | written | writeOn | readOn | deleteOn | lookOn | fork => rfl
  | @linked key value pairs position index inside ended =>
    obtain ⟨_, _, wrote⟩ := pair_missed inside (walking key position rfl index inside) ended value
    simp only [finishStage, outcome, writePairs, wrote, Option.bind_eq_bind, Option.bind_some, ne_eq, not_true_eq_false,
      ↓reduceIte, List.nil_append]
    exact congrArg (Option.map _) (Option.bind_fun_some _)
  | @overwritten key value pairs position index node inside here same =>
    obtain ⟨_, _, wrote⟩ := pair_found inside (walking key position rfl index inside) here same value
    simp only [finishStage, outcome, writePairs, wrote, Option.bind_eq_bind, Option.bind_some, ne_eq, not_true_eq_false,
      ↓reduceIte, List.nil_append]
    exact congrArg (Option.map _) (Option.bind_fun_some _)
  | readAll | shownAll => simp [finishStage, outcome, readPairs, unseen]
  | @readMissing key keys position lines index inside ended =>
    obtain ⟨found, _, _⟩ := pair_missed inside (walking key position rfl index inside) ended key
    simp only [finishStage, outcome, readPairs, found, Option.bind_eq_bind, Option.bind_some]
    cases readPairs ht keys <;> simp
  | @readFound key keys position lines index node inside here same =>
    obtain ⟨found, _, _⟩ := pair_found inside (walking key position rfl index inside) here same key
    simp only [finishStage, outcome, readPairs, found, Option.bind_eq_bind, Option.bind_some]
    cases readPairs ht keys <;> simp
  | deletedAll => simp [finishStage, outcome, deletePairs]
  | @deleteMissing key keys position aux lines index inside ended =>
    obtain ⟨_, missed, _⟩ := pair_missed inside (walking key position rfl index inside) ended key
    simp only [finishStage, outcome, deletePairs, missed, Option.bind_eq_bind, Option.bind_some]
    cases deletePairs ht true keys <;> simp
  | @deleteFound key keys position aux lines index node inside here same =>
    obtain ⟨_, deleted, _⟩ := pair_found inside (walking key position rfl index inside) here same key
    simp only [finishStage, outcome, deletePairs, deleted, Option.bind_eq_bind, Option.bind_some]
    rfl
  | @showChain index indices position lines ended =>
    have passed := List.drop_eq_nil_iff.mpr (List.getElem?_eq_none_iff.mp ended)
    simp only [finishStage, outcome, unseen, passed, List.nil_append]
    cases indices with
    | nil => rfl
    | cons first rest => rfl
  | @showNode index indices position lines node here =>
    have split : (ht.table index).drop position = node :: (ht.table index).drop (position + 1) := by
      obtain ⟨bound, same⟩ := List.getElem?_eq_some_iff.mp here
      rw [List.drop_eq_getElem_cons bound, same]
    simp only [finishStage, outcome, unseen, split, List.cons_append, List.flatMap_cons, List.append_assoc]
  | @lookMissing key position index inside ended =>
    obtain ⟨nothing, _⟩ := walk_missed (walking key position rfl index inside) ended key
    simp only [finishStage, outcome, kvsKeyExists, Option.bind_some, inside, Option.map_some, nothing]
    rfl
  | @lookFound key position index node inside here same =>
    obtain ⟨found, _⟩ := walk_found (walking key position rfl index inside) here same key
    simp only [finishStage, outcome, kvsKeyExists, Option.bind_some, inside, Option.map_some, found]
    rfl

theorem enter_walking (ht : HashTable) (call : LockedCall) : Walking ht (enter call) := by
  apply walking_start
  intro key position walk
  cases call with
  | kvsWrite | kvsRead | kvsDelete =>
    obtain ⟨_, _, made⟩ := Option.map_eq_some_iff.mp walk
    cases made
    rfl
  | kvsKeyExists =>
    cases walk
    rfl
  | kvsShow | kvsBackup => cases walk

theorem enter_finish (ht : HashTable) (call : LockedCall) : finishStage ht (enter call) = runCall (some ht) call.call := by
  cases call with
  | kvsWrite pairs => simp [enter, finishStage, LockedCall.call, runCall, kvsWrite, Function.comp_def]
  | kvsRead keys => simp [enter, finishStage, LockedCall.call, runCall, kvsRead, Function.comp_def]
  | kvsDelete keys => simp [enter, finishStage, LockedCall.call, runCall, kvsDelete, Function.comp_def]
  | kvsShow => rfl
  | kvsKeyExists key => rfl
  | kvsBackup => rfl

theorem reached_finish {call : LockedCall} {start memory : HashTable} (reached : Reached tableCode call start memory result) :
    outcome memory result = runCall (some start) call.call ∧ WalkingOn memory result := by
  induction reached with
  | enter => exact ⟨enter_finish start call, enter_walking start call⟩
  | step before taken ih =>
    have steps := steps_of_step taken
    exact ⟨(steps_outcome steps ih.2).symm.trans ih.1, steps_walking steps ih.2⟩

/-! Every call on keys that have a bucket comes to its end. -/

theorem ends_writing (pairs : List (CString × CString)) (hashed : ∀ key ∈ pairs.map Prod.fst, Hashed key) (ht : HashTable)
    (position : Nat) : Ends tableCode ht (.writing pairs position) := by
  induction pairs generalizing ht position with
  | nil => exact .last rfl
  | cons pair pairs ih =>
    obtain ⟨key, value⟩ := pair
    have rest := ih fun other member => hashed other (List.mem_cons_of_mem _ member)
    obtain ⟨index, inside⟩ := hashed key List.mem_cons_self
    unfold bucket at inside
    induction position using walk_induct (ht.table index) with
    | ended position ended =>
      exact .more (by simp only [tableCode, tableStep, inside, Option.map_some, ended]; rfl) (rest _ 0)
    | node position node here after =>
      by_cases same : node.key = key
      · exact .more (by simp only [tableCode, tableStep, inside, Option.map_some, here, if_pos same]; rfl) (rest _ 0)
      · exact .more (by simp only [tableCode, tableStep, inside, Option.map_some, here, if_neg same]) after

theorem ends_reading (keys : List CString) (hashed : ∀ key ∈ keys, Hashed key) (ht : HashTable) (position : Nat)
    (lines : List UInt8) : Ends tableCode ht (.reading keys position lines) := by
  induction keys generalizing position lines with
  | nil => exact .last rfl
  | cons key keys ih =>
    have rest := ih fun other member => hashed other (List.mem_cons_of_mem _ member)
    obtain ⟨index, inside⟩ := hashed key List.mem_cons_self
    unfold bucket at inside
    induction position using walk_induct (ht.table index) with
    | ended position ended =>
      exact .more (by simp only [tableCode, tableStep, inside, Option.map_some, ended]; rfl) (rest 0 _)
    | node position node here after =>
      by_cases same : node.key = key
      · exact .more (by simp only [tableCode, tableStep, inside, Option.map_some, here, if_pos same]; rfl) (rest 0 _)
      · exact .more (by simp only [tableCode, tableStep, inside, Option.map_some, here, if_neg same]) after

theorem ends_deleting (keys : List CString) (hashed : ∀ key ∈ keys, Hashed key) (ht : HashTable) (position : Nat)
    (aux : Bool) (lines : List UInt8) : Ends tableCode ht (.deleting keys position aux lines) := by
  induction keys generalizing ht position aux lines with
  | nil => exact .last rfl
  | cons key keys ih =>
    have rest := ih fun other member => hashed other (List.mem_cons_of_mem _ member)
    obtain ⟨index, inside⟩ := hashed key List.mem_cons_self
    unfold bucket at inside
    induction position using walk_induct (ht.table index) with
    | ended position ended =>
      exact .more (by simp only [tableCode, tableStep, inside, Option.map_some, ended]; rfl) (rest _ 0 _ _)
    | node position node here after =>
      by_cases same : node.key = key
      · exact .more (by simp only [tableCode, tableStep, inside, Option.map_some, here, if_pos same]; rfl) (rest _ 0 _ _)
      · exact .more (by simp only [tableCode, tableStep, inside, Option.map_some, here, if_neg same]) after

theorem ends_showing (ht : HashTable) (indices : List (Fin TABLE_SIZE)) (position : Nat) (lines : List UInt8) :
    Ends tableCode ht (.showing indices position lines) := by
  induction indices generalizing position lines with
  | nil => exact .last rfl
  | cons index indices ih =>
    induction position using walk_induct (ht.table index) generalizing lines with
    | ended position ended =>
      exact .more (by simp only [tableCode, tableStep, ended]) (ih 0 lines)
    | node position node here after =>
      exact .more (by simp only [tableCode, tableStep, here]) (after (lines ++ showLine node))

theorem ends_looking (key : CString) (hashed : Hashed key) (ht : HashTable) (position : Nat) :
    Ends tableCode ht (.looking key position) := by
  obtain ⟨index, inside⟩ := hashed
  unfold bucket at inside
  induction position using walk_induct (ht.table index) with
  | ended position ended =>
    exact .last (by simp only [tableCode, tableStep, inside, Option.map_some, ended]; rfl)
  | node position node here after =>
    by_cases same : node.key = key
    · exact .last (by simp only [tableCode, tableStep, inside, Option.map_some, here, if_pos same]; rfl)
    · exact .more (by simp only [tableCode, tableStep, inside, Option.map_some, here, if_neg same]) after

/-- The keys that a stage has not come to the end of. -/
def Stage.keys : Stage → List CString
  | .writing pairs _ => pairs.map Prod.fst
  | .reading keys _ _ | .deleting keys _ _ _ => keys
  | .looking key _ => [key]
  | .showing _ _ _ | .forking => []

theorem ends_of_hashed (ht : HashTable) (stage : Stage) (hashed : ∀ key ∈ stage.keys, Hashed key) :
    Ends tableCode ht stage := by
  cases stage with
  | writing pairs position => exact ends_writing pairs hashed ht position
  | reading keys position lines => exact ends_reading keys hashed ht position lines
  | deleting keys position aux lines => exact ends_deleting keys hashed ht position aux lines
  | showing indices position lines => exact ends_showing ht indices position lines
  | looking key position => exact ends_looking key (hashed key List.mem_cons_self) ht position
  | forking => exact .last rfl

theorem reached_keys {call : LockedCall} {start memory : HashTable} (reached : Reached tableCode call start memory result)
    (here : result = .inl stage) : ∀ key ∈ stage.keys, key ∈ call.call.keys := by
  induction reached generalizing stage with
  | enter =>
    cases here
    cases call <;> exact fun _ member => member
  | @step memory earlier next result before taken ih =>
    subst here
    have kept : ∀ key ∈ stage.keys, key ∈ earlier.keys := by
      cases steps_of_step taken with
      | linked | overwritten | readMissing | readFound | deleteMissing | deleteFound =>
        exact fun _ member => List.mem_cons_of_mem _ member
      | writeOn | readOn | deleteOn | showChain | showNode | lookOn => exact fun _ member => member
    exact fun key member => ih rfl key (kept key member)

/-! Threads. -/

/-- The keys of the call start with a letter or a digit. -/
def Valid (call : LockedCall) : Prop := ∀ key ∈ call.call.keys, Alphanumeric key

instance (call : LockedCall) : Decidable (Valid call) := inferInstanceAs (Decidable (∀ key ∈ call.call.keys, Alphanumeric key))

theorem Valid.served {call : LockedCall} (valid : Valid call) : Served call.call := by
  refine ⟨?_, valid⟩
  cases call <;> exact TableCall.noConfusion

/-- The calls of a history, without their replies. -/
def callsOf (history : List (LockedCall × Reply)) : List TableCall := history.map fun returned => returned.1.call

/-- The store that the calls of a history leave. -/
def storeOf (history : List (LockedCall × Reply)) : Store := (callsOf history).foldl storeAfter emptyStore

theorem storeOf_concat (history : List (LockedCall × Reply)) (call : LockedCall) (reply : Reply) :
    storeOf (history ++ [(call, reply)]) = storeAfter (storeOf history) call.call := by
  simp [storeOf, callsOf]

/-- The nodes list each binding of the store, once. -/
def Lists (nodes : List KeyNode) (store : Store) : Prop :=
  (nodes.map Node.key).Nodup ∧ ∀ node, node ∈ nodes ↔ store node.key = some node.value

/-- What a call answers about a store that nobody else uses. -/
def Answers (store : Store) : LockedCall → Reply → Prop
  | .kvsWrite _, reply => reply = .result ⟨0, [], []⟩
  | .kvsRead keys, reply =>
      reply = .result ⟨0, text "[" ++ keys.flatMap (fun key => readLine key (store key)) ++ text "]
", []⟩
  | .kvsDelete keys, reply => reply = .result ⟨0, FiniteMap.missingReport (FiniteMap.missing store keys), []⟩
  | .kvsShow, reply => ∃ nodes, Lists nodes store ∧ reply = .shown (nodes.flatMap showLine, [])
  | .kvsKeyExists key, reply => reply = .status (if (store key).isSome then 1 else 0)
  | .kvsBackup, reply => ∃ nodes, Lists nodes store ∧ reply = .forked nodes

theorem answers_of_run (table : KeyTable) {call : LockedCall} (valid : Valid call) {next : KvsTable} {reply : Reply}
    (ran : runCall (some (KeyTable.raw table)) call.call = some (next, reply)) : Answers table.contents call reply := by
  have hashed := fun key member => hashed_of_alphanumeric (valid key member)
  have lists : Lists (traversal (KeyTable.raw table)) table.contents :=
    ⟨(represents_raw table).once, (represents_raw table).bindings⟩
  cases call with
  | kvsWrite pairs =>
    obtain ⟨_, written, _⟩ := FiniteMap.writePairs_raw table pairs hashed
    simp only [LockedCall.call, runCall, kvsWrite, written] at ran
    cases ran
    rfl
  | kvsRead keys =>
    have found := FiniteMap.readPairs_raw table keys hashed
    simp only [LockedCall.call, runCall, kvsRead, found] at ran
    cases ran
    rfl
  | kvsDelete keys =>
    obtain ⟨_, deleted, _⟩ := FiniteMap.deletePairs_raw table false keys hashed
    simp only [LockedCall.call, runCall, kvsDelete, deleted] at ran
    cases ran
    by_cases none : FiniteMap.missing table.contents keys = []
    · simp [Answers, FiniteMap.missingReport, none]
    · simp [Answers, FiniteMap.missingReport, none]
  | kvsShow =>
    cases ran
    exact ⟨_, lists, rfl⟩
  | kvsKeyExists key =>
    have found := FiniteMap.kvsKeyExists_raw table (hashed key List.mem_cons_self)
    simp only [LockedCall.call, runCall, found] at ran
    cases ran
    rfl
  | kvsBackup =>
    cases ran
    exact ⟨_, lists, rfl⟩

instance {Thread : Type} (state : State Thread LockedCall HashTable Stage Reply) (action : Action Thread LockedCall) :
    Decidable (Admits Valid state action) :=
  match action with
  | .request _ call =>
      decidable_of_iff (Valid call) ⟨fun valid _ _ same => (Action.request.inj same).2 ▸ valid, fun met => met _ call rfl⟩
  | .acquire _ => isTrue fun _ _ same => (nomatch same)
  | .work _ => isTrue fun _ _ same => (nomatch same)
  | .release _ => isTrue fun _ _ same => (nomatch same)

section Runs
variable {Thread : Type} [DecidableEq Thread] [Fintype Thread] {trace : List (Event Thread LockedCall Reply)}
  {state : State Thread LockedCall HashTable Stage Reply}

/-- A serial history of valid calls: the table is that of its calls, and each call answered
the store of the calls before it. -/
theorem serial_answers {history : List (LockedCall × Reply)} {settled : HashTable}
    (serial : Serial tableCode createHashTable history settled) (valid : ∀ returned ∈ history, Valid returned.1) :
    (∃ table : KeyTable, settled = KeyTable.raw table ∧ table.contents = storeOf history) ∧
      ∀ before call reply after, history = before ++ (call, reply) :: after → Answers (storeOf before) call reply := by
  induction serial with
  | nil =>
    refine ⟨⟨Table.empty CString bucket, rfl, contents_empty⟩, ?_⟩
    intro before call reply after split
    simp at split
  | @snoc earlier memory call reply next serial reached ih =>
    obtain ⟨⟨table, same, contents⟩, answers⟩ := ih fun returned member => valid returned (List.mem_append_left _ member)
    subst same
    have here : Valid call := valid (call, reply) (by simp)
    obtain ⟨after, reply', ran, contents'⟩ := served_call table here.served
    have last := (reached_finish reached).1
    rw [ran] at last
    cases last
    refine ⟨⟨after, rfl, ?_⟩, ?_⟩
    · rw [contents', contents, storeOf_concat]
    · intro before call' reply' rest split
      rcases List.append_eq_append_iff.mp split with ⟨middle, same, others⟩ | ⟨middle, same, others⟩
      · cases middle with
        | nil =>
          cases others
          rw [List.append_nil] at same
          subst same
          rw [← contents]
          exact answers_of_run table here ran
        | cons head middle => simp at others
      · cases middle with
        | nil =>
          cases others
          rw [List.append_nil] at same
          subst same
          rw [← contents]
          exact answers_of_run table here ran
        | cons head middle =>
          cases others
          exact answers before call' reply' middle same

/-- Linearizability of the store. Whatever threads share the table and however their walks
interleave, each call answers the store left by the calls that gave the lock back before
it; when nobody is writing the table represents the store of all of them. -/
theorem store_linearized (run : Run (machine tableCode) (Admits Valid) (initial createHashTable) trace state) :
    (∀ before call reply after, returns trace = before ++ (call, reply) :: after → Answers (storeOf before) call reply) ∧
      (state.writing = false → Represents state.memory (storeOf (returns trace))) ∧
      ∀ thread, requestsOf thread trace = returnsOf thread trace ++ (state.pool thread).pending := by
  obtain ⟨_, ⟨settled, serial, unwritten, _⟩, inOrder⟩ := linearized run
  obtain ⟨⟨table, same, contents⟩, answers⟩ := serial_answers serial (returned_admitted run)
  refine ⟨answers, ?_, inOrder⟩
  intro free
  rw [unwritten free, same, ← contents]
  exact represents_raw table

/-- One thread writes two keys while another waits to read them and a third to delete one. -/
def crossing : List (Action (Fin 3) LockedCall) :=
  let a := CString.ofBytes [97]
  let upper := CString.ofBytes [65]
  [.request 0 (.kvsWrite [(a, a), (upper, upper)]), .request 1 (.kvsRead [a, upper]), .request 2 (.kvsDelete [a]),
    .acquire 0, .work 0, .work 0, .work 0, .work 0, .release 0, .acquire 1, .work 1]

theorem store_linearized_of_crossing : ∃ trace : List (Event (Fin 3) LockedCall Reply), ∃ state : State (Fin 3) LockedCall HashTable Stage Reply,
    state.readers = 1 ∧
    (∀ before call reply after, returns trace = before ++ (call, reply) :: after → Answers (storeOf before) call reply) ∧
      (state.writing = false → Represents state.memory (storeOf (returns trace))) ∧
      ∀ thread, requestsOf thread trace = returnsOf thread trace ++ (state.pool thread).pending := by
  obtain ⟨trace, state, run, readers⟩ := exists_run (machine tableCode) (Admits Valid) (initial createHashTable)
    (fun _ state => state.readers = 1) crossing (by decide)
  exact ⟨trace, state, readers, store_linearized run⟩

/-- The lock never deadlocks: from every state the calls that were made can all return. -/
theorem calls_can_return (run : Run (machine tableCode) (Admits Valid) (initial createHashTable) trace state) :
    ∃ later next, Run (machine tableCode) Quiet state later next ∧ ∀ thread, next.pool thread = .outside := by
  apply (sound_of_run run).drains
  intro call start memory stage valid reached
  apply ends_of_hashed
  intro key member
  exact hashed_of_alphanumeric (valid key (reached_keys reached rfl key member))

theorem calls_can_return_of_crossing : ∃ trace : List (Event (Fin 3) LockedCall Reply), ∃ state : State (Fin 3) LockedCall HashTable Stage Reply,
    Run (machine tableCode) (Admits Valid) (initial createHashTable) trace state ∧ state.readers = 1 ∧
      ∃ later next, Run (machine tableCode) Quiet state later next ∧ ∀ thread, next.pool thread = .outside := by
  obtain ⟨trace, state, run, readers⟩ := exists_run (machine tableCode) (Admits Valid) (initial createHashTable)
    (fun _ state => state.readers = 1) crossing (by decide)
  exact ⟨trace, state, run, readers, calls_can_return run⟩

end Runs

end IstKvs.TableLock
