import IstKvs.Library.Fields
import IstKvs.Operations

/-! The lines that the child of `kvs_backup` writes. It may only call functions that are
async signal safe, so it builds each line with four copies into the buffer where
`kvs_show` calls `snprintf`. -/

namespace IstKvs.BackupLines
open Fields ChainedTable Kvs Operations

def SIZE_MAX : Nat := 18446744073709551615

/-- `char aux[MAX_STRING_SIZE]` with whatever is on the stack. -/
structure LineBuffer where
  bytes : List UInt8
  size : bytes.length = MAX_STRING_SIZE

/-- `MAX_STRING_SIZE - num_bytes_copied - 1` in `size_t`. -/
def spaceLeft (numBytesCopied : Nat) : Nat :=
  (SIZE_MAX + 1 + MAX_STRING_SIZE - numBytesCopied - 1) % (SIZE_MAX + 1)

/-- `strn_memcpy(aux + offset, src, n)`; a copy past the end of the buffer has no meaning. -/
def strnMemcpy (aux : List UInt8) (offset : Nat) (src : CString) (n : Nat) : Option (List UInt8 × Nat) :=
  let bytesToCopy := src.bytes.take n
  if offset + bytesToCopy.length ≤ aux.length then
    some (splice aux offset bytesToCopy, bytesToCopy.length)
  else none

/-- A line under construction: `aux`, `num_bytes_copied`, and the values that it had
before each copy. -/
structure Builder where
  aux : List UInt8
  numBytesCopied : Nat
  before : List Nat

/-- `num_bytes_copied += strn_memcpy(..)`. -/
def Builder.copy (line : Builder) (src : CString) : Option Builder :=
  (strnMemcpy line.aux line.numBytesCopied src (spaceLeft line.numBytesCopied)).map fun (aux, copied) =>
    ⟨aux, line.numBytesCopied + copied, line.before ++ [line.numBytesCopied]⟩

def Builder.copyAll : Builder → List CString → Option Builder
  | line, [] => some line
  | line, src :: sources => (line.copy src).bind fun next => next.copyAll sources

def separator : CString := CString.ofBytes (text ", ")

def closing : CString := CString.ofBytes (text ")\n")

/-- The body of the child's inner loop: what `write_str` writes, up to the terminator, and
the values of `num_bytes_copied` before the copies. -/
def backupLine (stack : LineBuffer) (node : KeyNode) : Option (List UInt8 × List Nat) := do
  let start : Builder := ⟨splice stack.bytes 0 (text "("), 1, []⟩
  let line ← start.copyAll [node.key, separator, node.value, closing]
  if line.numBytesCopied < line.aux.length then
    some ((splice line.aux line.numBytesCopied [0]).takeWhile (· != 0), line.before)
  else none

/-- The loops of the child, with what is on the stack at each node. -/
def backupLines (stack : Nat → LineBuffer) : Nat → List KeyNode → Option (List UInt8 × List Nat)
  | _, [] => some ([], [])
  | i, node :: nodes => do
      let (line, before) ← backupLine (stack i) node
      let (lines, later) ← backupLines stack (i + 1) nodes
      some (line ++ lines, before ++ later)

/-- The child of `kvs_backup`: the bytes of the file, and `num_bytes_copied` before each copy. -/
def kvsBackupChild (stack : Nat → LineBuffer) (ht : HashTable) : Option (List UInt8 × List Nat) :=
  backupLines stack 0 (traversal ht)

/-- The expression for the space that is left does not underflow. -/
def NoUnderflow (numBytesCopied : Nat) : Prop := numBytesCopied + 1 ≤ MAX_STRING_SIZE

/-! One copy. -/

/-- The buffer holds the front of `written` that fits. -/
structure Holds (line : Builder) (written : List UInt8) : Prop where
  size : line.aux.length = MAX_STRING_SIZE
  count : line.numBytesCopied = (truncated written).length
  front : line.aux.take line.numBytesCopied = truncated written
  before : ∀ copied ∈ line.before, NoUnderflow copied

section Copy
variable {line : Builder} {written : List UInt8}

theorem truncated_length (written : List UInt8) :
    (truncated written).length = min (MAX_STRING_SIZE - 1) written.length := List.length_take

theorem Holds.room (holds : Holds line written) : NoUnderflow line.numBytesCopied := by
  have length := truncated_length written
  rw [← holds.count] at length
  simp only [NoUnderflow, MAX_STRING_SIZE] at length ⊢
  omega

theorem spaceLeft_eq {numBytesCopied : Nat} (room : NoUnderflow numBytesCopied) :
    spaceLeft numBytesCopied = MAX_STRING_SIZE - numBytesCopied - 1 := by
  simp only [NoUnderflow, spaceLeft, MAX_STRING_SIZE, SIZE_MAX] at room ⊢
  omega

/-- What is copied is what the whole line keeps of the piece. -/
theorem truncated_append (written : List UInt8) (src : CString) :
    truncated (written ++ src.bytes) =
      truncated written ++ src.bytes.take (MAX_STRING_SIZE - (truncated written).length - 1) := by
  rw [truncated, List.take_append, truncated_length]
  congr 2
  simp only [MAX_STRING_SIZE]
  omega

theorem Holds.copy (holds : Holds line written) (src : CString) :
    ∃ next, line.copy src = some next ∧ Holds next (written ++ src.bytes) := by
  have room := holds.room
  have whole := truncated_append written src
  rw [← holds.count, ← spaceLeft_eq room] at whole
  have total := congrArg List.length whole
  rw [List.length_append, ← holds.count, truncated_length] at total
  have inside : line.numBytesCopied + (src.bytes.take (spaceLeft line.numBytesCopied)).length ≤ line.aux.length := by
    rw [holds.size, ← total]
    exact (Nat.min_le_left ..).trans (Nat.sub_le ..)
  refine ⟨_, by rw [Builder.copy, strnMemcpy, if_pos inside]; rfl, ?_, ?_, ?_, ?_⟩
  · exact (length_splice inside).trans holds.size
  · rw [whole, List.length_append, ← holds.count]
  · have reached : line.numBytesCopied ≤ line.aux.length := Nat.le_of_add_right_le inside
    have front : (line.aux.take line.numBytesCopied ++
        src.bytes.take (spaceLeft line.numBytesCopied)).length =
          line.numBytesCopied + (src.bytes.take (spaceLeft line.numBytesCopied)).length := by
      rw [List.length_append, List.length_take_of_le reached]
    rw [whole, ← holds.front, splice, List.take_left' front]
  · intro copied member
    rcases List.mem_append.mp member with earlier | last
    · exact holds.before copied earlier
    · exact List.mem_singleton.mp last ▸ room

theorem Holds.copyAll (holds : Holds line written) (sources : List CString) :
    ∃ last, line.copyAll sources = some last ∧ Holds last (written ++ sources.flatMap CString.bytes) := by
  induction sources generalizing line written with
  | nil => exact ⟨line, rfl, by simpa using holds⟩
  | cons src sources ih =>
    obtain ⟨next, copied, holds'⟩ := holds.copy src
    obtain ⟨last, rest, holds''⟩ := ih holds'
    refine ⟨last, ?_, ?_⟩
    · rw [Builder.copyAll, copied]
      exact rest
    · rwa [List.flatMap_cons, ← List.append_assoc]

end Copy

/-! One line. -/

theorem plain_of_pieces (node : KeyNode) :
    0 ∉ text "(" ++ [node.key, separator, node.value, closing].flatMap CString.bytes := by
  intro member
  rcases List.mem_append.mp member with first | later
  · exact absurd first (by decide)
  · obtain ⟨piece, _, inside⟩ := List.mem_flatMap.mp later
    exact piece.noNul inside

theorem showLine_pieces (node : KeyNode) :
    showLine node = truncated (text "(" ++ [node.key, separator, node.value, closing].flatMap CString.bytes) := by
  have separator_bytes : separator.bytes = text ", " := by decide
  have closing_bytes : closing.bytes = text ")\n" := by decide
  simp [showLine, separator_bytes, closing_bytes]

theorem backupLine_eq (stack : LineBuffer) (node : KeyNode) :
    ∃ before, backupLine stack node = some (showLine node, before) ∧ ∀ copied ∈ before, NoUnderflow copied := by
  have first : (1 : Nat) ≤ stack.bytes.length := by rw [stack.size]; decide
  have start : Holds ⟨splice stack.bytes 0 (text "("), 1, []⟩ (text "(") :=
    { size := (length_splice first).trans stack.size
      count := rfl
      front := rfl
      before := by simp }
  obtain ⟨last, copied, holds⟩ := start.copyAll [node.key, separator, node.value, closing]
  have room := holds.room
  have inside : last.numBytesCopied < last.aux.length := by
    rw [holds.size]
    exact room
  refine ⟨last.before, ?_, holds.before⟩
  have line : (splice last.aux last.numBytesCopied [0]).takeWhile (· != 0) = showLine node := by
    rw [splice, holds.front, showLine_pieces, List.append_assoc, List.singleton_append]
    exact takeWhile_of_terminated (fun member => plain_of_pieces node (List.mem_of_mem_take member)) _
  rw [backupLine, copied]
  simp only [Option.bind_eq_bind, Option.bind_some, if_pos inside, line]

/-! The whole table. -/

theorem backupLines_eq (stack : Nat → LineBuffer) (i : Nat) (nodes : List KeyNode) :
    ∃ before, backupLines stack i nodes = some (nodes.flatMap showLine, before) ∧
      ∀ copied ∈ before, NoUnderflow copied := by
  induction nodes generalizing i with
  | nil => exact ⟨[], rfl, by simp⟩
  | cons node nodes ih =>
    obtain ⟨before, line, room⟩ := backupLine_eq (stack i) node
    obtain ⟨later, lines, room'⟩ := ih (i + 1)
    refine ⟨before ++ later, ?_, ?_⟩
    · simp only [backupLines, line, lines, Option.bind_eq_bind, Option.bind_some, List.flatMap_cons]
    · intro copied member
      exact (List.mem_append.mp member).elim (room copied) (room' copied)

/-- The child writes what `kvs_show` would write, whatever is on its stack, and no copy is
given a space that has underflown. -/
theorem backup_shows (stack : Nat → LineBuffer) (ht : HashTable) :
    ∃ before, kvsBackupChild stack ht = some ((kvsShow (some ht)).1, before) ∧
      ∀ copied ∈ before, NoUnderflow copied :=
  backupLines_eq stack 0 (traversal ht)

end IstKvs.BackupLines
