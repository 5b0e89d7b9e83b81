import IstKvs.Operations

/-! The store is a finite map. Every sequence of calls on keys that have a bucket
leaves a table that represents the map of the same updates, and every call
answers what the map says. -/

namespace IstKvs.FiniteMap
open ChainedTable Kvs Operations

inductive Call where
  | writePair (key value : CString)
  | readPair (key : CString)
  | deletePair (key : CString)
  | kvsWrite (pairs : List (CString × CString))
  | kvsRead (keys : List CString)
  | kvsDelete (keys : List CString)
  | kvsKeyExists (key : CString)

def Call.keys : Call → List CString
  | .writePair key _ | .readPair key | .deletePair key | .kvsKeyExists key => [key]
  | .kvsWrite pairs => pairs.map Prod.fst
  | .kvsRead keys | .kvsDelete keys => keys

/-- What a call returns, and for the calls on `kvs_table` what it writes. -/
inductive Reply where
  | status (code : Int)
  | value (found : Option CString)
  | result (result : Result)
  deriving DecidableEq

def runCall (kvsTable : KvsTable) : Call → Option (KvsTable × Reply)
  | .writePair key value => kvsTable.bind fun ht =>
      (writePair ht key value).map fun (next, status) => (some next, .status status)
  | .readPair key => kvsTable.bind fun ht =>
      (readPair ht key).map fun found => (some ht, .value found)
  | .deletePair key => kvsTable.bind fun ht =>
      (deletePair ht key).map fun (next, status) => (some next, .status status)
  | .kvsWrite pairs => (kvsWrite kvsTable pairs).map fun (next, result) => (next, .result result)
  | .kvsRead keys => (kvsRead kvsTable keys).map fun (next, result) => (next, .result result)
  | .kvsDelete keys => (kvsDelete kvsTable keys).map fun (next, result) => (next, .result result)
  | .kvsKeyExists key => (kvsKeyExists kvsTable key).map fun status => (kvsTable, .status status)

def runCalls : KvsTable → List Call → Option (KvsTable × List Reply)
  | kvsTable, [] => some (kvsTable, [])
  | kvsTable, call :: calls => do
      let (next, reply) ← runCall kvsTable call
      let (last, replies) ← runCalls next calls
      some (last, reply :: replies)

/-! The abstract store. -/

def specWrite (store : Store) (pairs : List (CString × CString)) : Store :=
  pairs.foldl (fun store pair => Function.update store pair.1 (some pair.2)) store

def specDelete (store : Store) (keys : List CString) : Store :=
  keys.foldl (fun store key => Function.update store key none) store

/-- The keys that are not bound when their turn to be deleted comes. -/
def missing (store : Store) : List CString → List CString
  | [] => []
  | key :: keys =>
      (if (store key).isSome then [] else [key]) ++ missing (Function.update store key none) keys

def missingReport (keys : List CString) : List UInt8 :=
  if keys = [] then [] else text "[" ++ keys.flatMap missingLine ++ text "]\n"

def specCall (store : Store) : Call → Store × Reply
  | .writePair key value => (Function.update store key (some value), .status 0)
  | .readPair key => (store, .value (store key))
  | .deletePair key =>
      (Function.update store key none, .status (if (store key).isSome then 0 else 1))
  | .kvsWrite pairs => (specWrite store pairs, .result ⟨0, [], []⟩)
  | .kvsRead keys =>
      (store, .result ⟨0, text "[" ++ keys.flatMap (fun key => readLine key (store key)) ++ text "]\n", []⟩)
  | .kvsDelete keys => (specDelete store keys, .result ⟨0, missingReport (missing store keys), []⟩)
  | .kvsKeyExists key => (store, .status (if (store key).isSome then 1 else 0))

def specCalls : Store → List Call → Store × List Reply
  | store, [] => (store, [])
  | store, call :: calls =>
      let (next, reply) := specCall store call
      let (last, replies) := specCalls next calls
      (last, reply :: replies)

theorem specDelete_apply (store : Store) (keys : List CString) (key : CString) :
    specDelete store keys key = if key ∈ keys then none else store key := by
  induction keys generalizing store with
  | nil => rfl
  | cons own keys ih =>
    have later := ih (Function.update store own none)
    simp only [specDelete, List.foldl_cons] at later ⊢
    rw [later]
    by_cases same : key = own
    · subst same
      simp
    · simp [same]

/-! One call. -/

theorem writePairs_raw (table : KeyTable) (pairs : List (CString × CString))
    (valid : ∀ key ∈ pairs.map Prod.fst, Hashed key) :
    ∃ next : KeyTable, writePairs (KeyTable.raw table) pairs = some (KeyTable.raw next, []) ∧
      next.contents = specWrite table.contents pairs := by
  induction pairs generalizing table with
  | nil => exact ⟨table, rfl, rfl⟩
  | cons pair pairs ih =>
    obtain ⟨key, value⟩ := pair
    obtain ⟨middle, written, contents⟩ := writePair_raw table (valid key List.mem_cons_self) value
    obtain ⟨last, rest, contents'⟩ := ih middle (fun other member => valid other (List.mem_cons_of_mem _ member))
    refine ⟨last, ?_, ?_⟩
    · simp only [writePairs, written, rest, Option.bind_eq_bind, Option.bind_some, ne_eq,
        not_true_eq_false, ↓reduceIte, List.nil_append]
    · rw [contents', contents]
      rfl

theorem readPairs_raw (table : KeyTable) (keys : List CString)
    (valid : ∀ key ∈ keys, Hashed key) :
    readPairs (KeyTable.raw table) keys =
      some (keys.flatMap fun key => readLine key (table.contents key)) := by
  induction keys with
  | nil => rfl
  | cons key keys ih =>
    have rest := ih (fun other member => valid other (List.mem_cons_of_mem _ member))
    simp only [readPairs, readPair_raw table (valid key List.mem_cons_self), rest,
      Option.bind_eq_bind, Option.bind_some, List.flatMap_cons]

theorem deletePairs_raw (table : KeyTable) (aux : Bool) (keys : List CString)
    (valid : ∀ key ∈ keys, Hashed key) :
    ∃ next : KeyTable, deletePairs (KeyTable.raw table) aux keys =
        some (KeyTable.raw next, aux || !(missing table.contents keys).isEmpty,
          (if aux || (missing table.contents keys).isEmpty then [] else text "[") ++
            (missing table.contents keys).flatMap missingLine) ∧
      next.contents = specDelete table.contents keys := by
  induction keys generalizing table aux with
  | nil => exact ⟨table, by simp [deletePairs, missing], rfl⟩
  | cons key keys ih =>
    have valid' := fun other member => valid other (List.mem_cons_of_mem key member)
    obtain ⟨middle, deleted, contents⟩ := deletePair_raw table (valid key List.mem_cons_self)
    by_cases bound : (table.contents key).isSome = true
    · obtain ⟨last, rest, contents'⟩ := ih middle aux valid'
      refine ⟨last, ?_, by rw [contents', contents]; rfl⟩
      simp only [deletePairs, deleted, bound, ↓reduceIte, rest, contents, missing,
        Option.bind_eq_bind, Option.bind_some, ne_eq, not_true_eq_false, List.nil_append]
    · obtain ⟨last, rest, contents'⟩ := ih middle true valid'
      refine ⟨last, ?_, by rw [contents', contents]; rfl⟩
      simp [deletePairs, deleted, bound, rest, contents, missing]

theorem kvsKeyExists_raw (table : KeyTable) {key : CString} (hashed : Hashed key) :
    kvsKeyExists (some (KeyTable.raw table)) key =
      some (if (table.contents key).isSome then 1 else 0) := by
  have read := readPair_raw table hashed
  obtain ⟨index, inside, found⟩ := Option.map_eq_some_iff.mp read
  simp only [kvsKeyExists, Option.bind_some, inside, Option.map_some, found]

theorem call_refined (table : KeyTable) (call : Call) (valid : ∀ key ∈ call.keys, Hashed key) :
    ∃ next : KeyTable, runCall (some (KeyTable.raw table)) call =
        some (some (KeyTable.raw next), (specCall table.contents call).2) ∧
      next.contents = (specCall table.contents call).1 := by
  cases call with
  | writePair key value =>
    obtain ⟨next, written, contents⟩ := writePair_raw table (valid key List.mem_cons_self) value
    exact ⟨next, by simp [runCall, specCall, written], contents⟩
  | readPair key =>
    have read := readPair_raw table (valid key List.mem_cons_self)
    exact ⟨table, by simp [runCall, specCall, read], rfl⟩
  | deletePair key =>
    obtain ⟨next, deleted, contents⟩ := deletePair_raw table (valid key List.mem_cons_self)
    exact ⟨next, by simp [runCall, specCall, deleted], contents⟩
  | kvsWrite pairs =>
    obtain ⟨next, written, contents⟩ := writePairs_raw table pairs valid
    exact ⟨next, by simp [runCall, specCall, kvsWrite, written], contents⟩
  | kvsRead keys =>
    have read := readPairs_raw table keys valid
    exact ⟨table, by simp [runCall, specCall, kvsRead, read], rfl⟩
  | kvsDelete keys =>
    obtain ⟨next, deleted, contents⟩ := deletePairs_raw table false keys valid
    refine ⟨next, ?_, contents⟩
    by_cases none : missing table.contents keys = []
    · simp [runCall, specCall, kvsDelete, deleted, missingReport, none]
    · simp [runCall, specCall, kvsDelete, deleted, missingReport, none]
  | kvsKeyExists key =>
    have found := kvsKeyExists_raw table (valid key List.mem_cons_self)
    exact ⟨table, by simp [runCall, specCall, found], rfl⟩

theorem calls_refined (table : KeyTable) (calls : List Call)
    (valid : ∀ call ∈ calls, ∀ key ∈ call.keys, Hashed key) :
    ∃ next : KeyTable, runCalls (some (KeyTable.raw table)) calls =
        some (some (KeyTable.raw next), (specCalls table.contents calls).2) ∧
      next.contents = (specCalls table.contents calls).1 := by
  induction calls generalizing table with
  | nil => exact ⟨table, rfl, rfl⟩
  | cons call calls ih =>
    obtain ⟨middle, ran, contents⟩ := call_refined table call (valid call List.mem_cons_self)
    obtain ⟨last, rest, contents'⟩ := ih middle (fun other member => valid other (List.mem_cons_of_mem _ member))
    refine ⟨last, ?_, ?_⟩
    · simp only [runCalls, ran, rest, contents, specCalls, Option.bind_eq_bind, Option.bind_some]
    · rw [contents', contents]
      rfl

/-- From an empty table, every sequence of calls on keys that start with a letter or
a digit stays inside the table, answers what the finite map of the same updates
says, and leaves a table that represents it. -/
theorem finite_map_refined (calls : List Call)
    (valid : ∀ call ∈ calls, ∀ key ∈ call.keys, Alphanumeric key) :
    ∃ ht, runCalls (kvsInit none).1 calls = some (some ht, (specCalls emptyStore calls).2) ∧
      Represents ht (specCalls emptyStore calls).1 := by
  obtain ⟨table, ran, contents⟩ := calls_refined (Table.empty CString bucket) calls
    (fun call member key named => hashed_of_alphanumeric (valid call member key named))
  rw [contents_empty] at ran contents
  exact ⟨KeyTable.raw table, ran, contents ▸ represents_raw table⟩

/-- Keys that share a bucket: `a`, `A` and `0`. The batch writes `a` twice. -/
def collidingCalls : List Call :=
  let a := CString.ofBytes [97]
  let upper := CString.ofBytes [65]
  let zero := CString.ofBytes [48]
  [.kvsWrite [(a, CString.ofBytes [49]), (upper, CString.ofBytes [50]), (zero, CString.ofBytes [51]),
      (a, CString.ofBytes [52])],
    .deletePair upper, .readPair a, .kvsKeyExists upper, .deletePair upper]

theorem finite_map_of_colliding_keys :
    (specCalls emptyStore collidingCalls).2 = [.result ⟨0, [], []⟩, .status 0,
      .value (some (CString.ofBytes [52])), .status 0, .status 1] ∧
    ∃ ht, runCalls (kvsInit none).1 collidingCalls =
        some (some ht, (specCalls emptyStore collidingCalls).2) ∧
      Represents ht (specCalls emptyStore collidingCalls).1 :=
  ⟨by decide, finite_map_refined collidingCalls (by decide)⟩

end IstKvs.FiniteMap
