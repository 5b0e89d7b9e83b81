import IstKvs.BufferBounds

/-! The keys that the parsers and the session loop let through. None of them looks at
the first byte, which is all that `hash` looks at. -/

namespace IstKvs.AdmittedKeys
open Kvs Operations RunJob
open BufferBounds (Overflows commands_isSome_iff)

/-- What can bring keys in: a job file, or a request as it lies in the buffer of the
session. -/
inductive Input where
  | jobFile (stack : Nat → UInt8) (file : List UInt8)
  | request (localBuffer : List UInt8)

inductive Admitted : Input → CString → Prop where
  | command {stack : Nat → UInt8} {file stream rest : List UInt8} {command : JobCommand} {key : CString}
      (reached : Reaches stack file stream) (read : nextCommand stack stream = some (some command, rest))
      (member : key ∈ command.keys) : Admitted (.jobFile stack file) key
  | subscribe {localBuffer : List UInt8} (code : opCode localBuffer = OP_CODE_SUBSCRIBE) :
      Admitted (.request localBuffer) (requestKey localBuffer)

/-- What the input does is defined: no turn of the loop on a job file leaves a buffer, behind
which any index could be used. A request brings its key in without a parser. -/
def Defined : Input → Prop
  | .jobFile stack file => (commands stack file).isSome = true
  | .request _ => True

/-- The commands of a job file that the loop comes to stay inside the buffers of the parsers. -/
def InBuffers : Input → Prop
  | .jobFile stack file => ∀ stream, Reaches stack file stream → ¬Overflows stack stream
  | .request _ => True

theorem defined_iff (input : Input) : Defined input ↔ InBuffers input := by
  cases input with
  | jobFile stack file => exact commands_isSome_iff file
  | request => exact Iff.rfl

/-- The index that `write_pair`, `read_pair`, `delete_pair` and `kvs_key_exists` use. -/
def IndexInTable (key : CString) : Prop := 0 ≤ Kvs.hash key ∧ Kvs.hash key < TABLE_SIZE

instance (key : CString) : Decidable (IndexInTable key) := inferInstanceAs (Decidable (_ ∧ _))

theorem hash_eq_neg_one {key : CString} (other : ¬Alphanumeric key) : Kvs.hash key = -1 := by
  simp only [Alphanumeric, UInt8.le_iff_toNat_le, UInt8.reduceToNat] at other
  have raised : (firstByte key + 32).toNat = ((firstByte key).toNat + 32) % 256 := UInt8.toNat_add ..
  simp only [Kvs.hash, tolower, UInt8.le_iff_toNat_le, UInt8.reduceToNat]
  split_ifs <;> omega

theorem indexInTable_iff (key : CString) : IndexInTable key ↔ Alphanumeric key := by
  refine ⟨fun inside => ?_, hash_bounds⟩
  by_contra other
  have outside := hash_eq_neg_one other
  unfold IndexInTable at inside
  omega

/-- The four accesses are defined for the keys with an index in the table only. -/
theorem cell_isSome_iff (key : CString) : (cell (Kvs.hash key)).isSome ↔ IndexInTable key := by
  unfold cell IndexInTable
  split
  next inside => simpa using inside
  next outside => simpa using outside

theorem hashed_iff (key : CString) : Hashed key ↔ Alphanumeric key := by
  rw [← indexInTable_iff, ← cell_isSome_iff, Option.isSome_iff_exists]
  rfl

/-- An input makes no access outside the table exactly when its commands stay inside the
buffers of the parsers and all the keys it brings in start with an ASCII letter or digit. -/
theorem admitted_indices_in_table_iff (input : Input) :
    (Defined input ∧ ∀ key, Admitted input key → IndexInTable key ∧ (cell (Kvs.hash key)).isSome) ↔
      InBuffers input ∧ ∀ key, Admitted input key → Alphanumeric key := by
  apply and_congr (defined_iff input)
  apply forall₂_congr
  intro key admitted
  rw [cell_isSome_iff, and_self, indexInTable_iff]

/-- `READ [_a]` -/
def underscoreFile : List UInt8 := text "READ [_a]\n"

theorem underscore_key_admitted :
    ¬∀ key, Admitted (.jobFile (fun _ => 0) underscoreFile) key → IndexInTable key := by
  have read : nextCommand (fun _ => 0) underscoreFile =
      some (some (.read [CString.ofBytes (text "_a")]), []) := rfl
  exact fun inside => absurd (inside _ (.command .start read (List.mem_singleton_self _))) (by decide)

end IstKvs.AdmittedKeys
