import IstKvs.Common
import IstKvs.Library.ChainedTable

/-! `kvs.c`. The hash of a key is taken from its first character, and is -1 when
that is neither a letter nor a digit; nothing checks it before it indexes the
array. An access outside the array has no meaning here: `none`. -/

namespace IstKvs.Kvs
open ChainedTable

def TABLE_SIZE : Nat := 26

/-- `tolower` in the C locale. -/
def tolower (byte : UInt8) : UInt8 := if 65 ≤ byte ∧ byte ≤ 90 then byte + 32 else byte

/-- `key[0]`. -/
def firstByte (key : CString) : UInt8 := key.bytes.headD 0

def hash (key : CString) : Int :=
  let firstLetter := tolower (firstByte key)
  if 97 ≤ firstLetter ∧ firstLetter ≤ 122 then (firstLetter.toNat : Int) - 97
  else if 48 ≤ firstLetter ∧ firstLetter ≤ 57 then (firstLetter.toNat : Int) - 48
  else -1

abbrev KeyNode := Node CString CString

/-- `KeyNode *table[TABLE_SIZE]`, each cell with the nodes reached from it. -/
structure HashTable where
  table : Fin TABLE_SIZE → List KeyNode

/-- The cell that `table[index]` names. -/
def cell (index : Int) : Option (Fin TABLE_SIZE) :=
  if bound : 0 ≤ index ∧ index < TABLE_SIZE then some ⟨index.toNat, by omega⟩ else none

def bucket (key : CString) : Option (Fin TABLE_SIZE) := cell (hash key)

def createHashTable : HashTable := ⟨fun _ => []⟩

/-- Overwrite the value of the node with the key, or link a new node at the head. -/
def writePair (ht : HashTable) (key value : CString) : Option (HashTable × Int) :=
  (cell (hash key)).map fun index =>
    match overwrite key value (ht.table index) with
    | some chain => (⟨Function.update ht.table index chain⟩, 0)
    | none => (⟨Function.update ht.table index (⟨key, value⟩ :: ht.table index)⟩, 0)

/-- The value of the first node with the key; the inner `none` is `NULL`. -/
def readPair (ht : HashTable) (key : CString) : Option (Option CString) :=
  (cell (hash key)).map fun index => find key (ht.table index)

def deletePair (ht : HashTable) (key : CString) : Option (HashTable × Int) :=
  (cell (hash key)).map fun index =>
    match unlink key (ht.table index) with
    | some chain => (⟨Function.update ht.table index chain⟩, 0)
    | none => (ht, 1)

/-- `for (i = 0; i < TABLE_SIZE; i++)` and the walk along each chain. -/
def traversal (ht : HashTable) : List KeyNode :=
  (List.finRange TABLE_SIZE).flatMap ht.table

/-! Which keys have a bucket. -/

/-- The first byte is an ASCII letter or digit. -/
def Alphanumeric (key : CString) : Prop :=
  (65 ≤ firstByte key ∧ firstByte key ≤ 90) ∨ (97 ≤ firstByte key ∧ firstByte key ≤ 122) ∨
    (48 ≤ firstByte key ∧ firstByte key ≤ 57)

instance (key : CString) : Decidable (Alphanumeric key) :=
  inferInstanceAs (Decidable (_ ∨ _ ∨ _))

theorem cell_val {index : Int} {i : Fin TABLE_SIZE} (named : cell index = some i) : index = i := by
  unfold cell at named
  split at named
  next bound =>
    cases named
    simp only
    omega
  next => cases named

theorem hash_bounds {key : CString} (alphanumeric : Alphanumeric key) :
    0 ≤ hash key ∧ hash key < TABLE_SIZE := by
  simp only [Alphanumeric, UInt8.le_iff_toNat_le, UInt8.reduceToNat] at alphanumeric
  have raised : (firstByte key + 32).toNat = ((firstByte key).toNat + 32) % 256 := UInt8.toNat_add ..
  simp only [hash, tolower, TABLE_SIZE, UInt8.le_iff_toNat_le, UInt8.reduceToNat]
  split_ifs <;> omega

-- `A`, `a` and `0` share the first cell
example : hash (CString.ofBytes [65]) = 0 ∧ hash (CString.ofBytes [97]) = 0 ∧ hash (CString.ofBytes [48]) = 0 := by
  decide

/-- The hash of the key is an index of the array. -/
def Hashed (key : CString) : Prop := ∃ i, bucket key = some i

theorem hashed_of_alphanumeric {key : CString} (alphanumeric : Alphanumeric key) : Hashed key := by
  have bounds := hash_bounds alphanumeric
  exact ⟨_, dif_pos bounds⟩

/-! The table of a run, with the proofs its chains carry, and the map it stands for. -/

abbrev Store := CString → Option CString

def emptyStore : Store := fun _ => none

/-- A table whose nodes are in their buckets and whose keys are distinct. -/
abbrev KeyTable := Table CString bucket

/-- The fields of `struct HashTable` that a checked table stands for. -/
def KeyTable.raw (table : KeyTable) : HashTable := ⟨table.chains⟩

/-- What `ht` says about `store`: every node is in the bucket of its key, no key is
in two nodes, and the nodes that a traversal visits are the bindings. -/
structure Represents (ht : HashTable) (store : Store) : Prop where
  placed : ∀ i, ∀ node ∈ ht.table i, hash node.key = i
  once : ((traversal ht).map Node.key).Nodup
  bindings : ∀ node, node ∈ traversal ht ↔ store node.key = some node.value

theorem represents_raw (table : KeyTable) : Represents (KeyTable.raw table) table.contents where
  placed := fun i node member => cell_val (table.placed i node member)
  once := table.nodes_keys_nodup (List.nodup_finRange TABLE_SIZE)
  bindings := fun _ => table.mem_nodes_iff (List.mem_finRange)

theorem contents_empty : (Table.empty CString bucket).contents = emptyStore := by
  funext key
  simp only [Table.contents, Table.empty, emptyStore, find]
  cases bucket key <;> rfl

section Calls
variable (table : KeyTable) {key : CString} (hashed : Hashed key)
include hashed

theorem readPair_raw : readPair (KeyTable.raw table) key = some (table.contents key) := by
  obtain ⟨i, inside⟩ := hashed
  rw [table.contents_of_bucket inside]
  unfold bucket at inside
  simp only [readPair, inside, Option.map_some, KeyTable.raw]

theorem writePair_raw (value : CString) :
    ∃ next : KeyTable, writePair (KeyTable.raw table) key value = some (KeyTable.raw next, 0) ∧
      next.contents = Function.update table.contents key (some value) := by
  obtain ⟨i, inside⟩ := hashed
  refine ⟨table.insert key value inside, ?_, table.contents_insert key value inside⟩
  unfold bucket at inside
  simp only [writePair, inside, Option.map_some, KeyTable.raw, Table.insert, write]
  cases overwrite key value (table.chains i) <;> rfl

theorem deletePair_raw :
    ∃ next : KeyTable, deletePair (KeyTable.raw table) key =
        some (KeyTable.raw next, if (table.contents key).isSome then 0 else 1) ∧
      next.contents = Function.update table.contents key none := by
  obtain ⟨i, inside⟩ := hashed
  refine ⟨table.remove key i, ?_, table.contents_remove key inside⟩
  rw [table.contents_of_bucket inside]
  unfold bucket at inside
  simp only [deletePair, inside, Option.map_some, KeyTable.raw, Table.remove, delete]
  cases unlinked : unlink key (table.chains i) with
  | some chain =>
    rw [unlink_isSome_find unlinked]
    rfl
  | none =>
    rw [unlink_eq_none unlinked]
    simp

end Calls

end IstKvs.Kvs
