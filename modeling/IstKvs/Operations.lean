import IstKvs.Kvs

/-! `operations.c` on the table `kvs_table`. A call reads and replaces the whole
table under the lock, so it is one function. What it writes to the descriptor and
to the standard error is returned with its result. -/

namespace IstKvs.Operations
open ChainedTable Kvs

/-- `static struct HashTable *kvs_table`; `none` is `NULL`. -/
abbrev KvsTable := Option HashTable

def text (s : String) : List UInt8 := s.toList.map fun c => UInt8.ofNat c.toNat

/-- What `snprintf` leaves of a line in `char[MAX_STRING_SIZE]`. -/
def truncated (line : List UInt8) : List UInt8 := line.take (MAX_STRING_SIZE - 1)

/-- The result of a call, with what it wrote to `fd` and to `stderr`. -/
structure Result where
  code : Int
  fd : List UInt8
  stderr : List UInt8
  deriving DecidableEq

def notInitialized : Result := ⟨1, [], text "KVS state must be initialized\n"⟩

def kvsInit (kvsTable : KvsTable) : KvsTable × Result :=
  match kvsTable with
  | some ht => (some ht, ⟨1, [], text "KVS state has already been initialized\n"⟩)
  | none => (some createHashTable, ⟨0, [], []⟩)

def kvsTerminate (kvsTable : KvsTable) : KvsTable × Result :=
  match kvsTable with
  | some _ => (none, ⟨0, [], []⟩)
  | none => (none, notInitialized)

def writeFailure (key value : CString) : List UInt8 :=
  text "Failed to write key pair (" ++ key.bytes ++ text "," ++ value.bytes ++ text ")\n"

/-- The loop of `kvs_write`, with what it prints. -/
def writePairs : HashTable → List (CString × CString) → Option (HashTable × List UInt8)
  | ht, [] => some (ht, [])
  | ht, (key, value) :: pairs => do
      let (next, status) ← writePair ht key value
      let (last, printed) ← writePairs next pairs
      some (last, (if status ≠ 0 then writeFailure key value else []) ++ printed)

def kvsWrite (kvsTable : KvsTable) (pairs : List (CString × CString)) : Option (KvsTable × Result) :=
  match kvsTable with
  | none => some (none, notInitialized)
  | some ht => (writePairs ht pairs).map fun (last, printed) => (some last, ⟨0, [], printed⟩)

def readLine (key : CString) : Option CString → List UInt8
  | none => truncated (text "(" ++ key.bytes ++ text ",KVSERROR)")
  | some value => truncated (text "(" ++ key.bytes ++ text "," ++ value.bytes ++ text ")")

/-- The loop of `kvs_read`. -/
def readPairs (ht : HashTable) : List CString → Option (List UInt8)
  | [] => some []
  | key :: keys => do
      let value ← readPair ht key
      let lines ← readPairs ht keys
      some (readLine key value ++ lines)

def kvsRead (kvsTable : KvsTable) (keys : List CString) : Option (KvsTable × Result) :=
  match kvsTable with
  | none => some (none, notInitialized)
  | some ht => (readPairs ht keys).map fun lines =>
      (some ht, ⟨0, text "[" ++ lines ++ text "]\n", []⟩)

def missingLine (key : CString) : List UInt8 :=
  truncated (text "(" ++ key.bytes ++ text ",KVSMISSING)")

/-- The loop of `kvs_delete`; `aux` is set once the bracket is open. -/
def deletePairs : HashTable → Bool → List CString → Option (HashTable × Bool × List UInt8)
  | ht, aux, [] => some (ht, aux, [])
  | ht, aux, key :: keys => do
      let (next, status) ← deletePair ht key
      if status ≠ 0 then
        let (last, opened, lines) ← deletePairs next true keys
        some (last, opened, (if aux then [] else text "[") ++ missingLine key ++ lines)
      else deletePairs next aux keys

def kvsDelete (kvsTable : KvsTable) (keys : List CString) : Option (KvsTable × Result) :=
  match kvsTable with
  | none => some (none, notInitialized)
  | some ht => (deletePairs ht false keys).map fun (last, aux, lines) =>
      (some last, ⟨0, lines ++ (if aux then text "]\n" else []), []⟩)

def showLine (node : KeyNode) : List UInt8 :=
  truncated (text "(" ++ node.key.bytes ++ text ", " ++ node.value.bytes ++ text ")\n")

/-- `kvs_show` returns nothing; what it writes to `fd` and to `stderr`. -/
def kvsShow (kvsTable : KvsTable) : List UInt8 × List UInt8 :=
  match kvsTable with
  | none => ([], text "KVS state must be initialized\n")
  | some ht => ((traversal ht).flatMap showLine, [])

/-- `kvs_key_exists` does not test `kvs_table`. -/
def kvsKeyExists (kvsTable : KvsTable) (key : CString) : Option Int :=
  kvsTable.bind fun ht => (cell (hash key)).map fun index =>
    if (find key (ht.table index)).isSome then 1 else 0

end IstKvs.Operations
