import IstKvs.AdmittedKeys
import IstKvs.JobNotifications
import IstKvs.Library.Lines

/-! What READ, DELETE and SHOW print. Each pair goes through a line buffer of the size of
one key, so a pair is cut off when key, value and decoration are longer together. -/

namespace IstKvs.OutputLines
open Lines ChainedTable Kvs Operations FiniteMap JobParser AdmittedKeys

/-- The keys and values of the table are ones that the parser lets through. -/
def AdmittedTable (table : KeyTable) : Prop :=
  ∀ node ∈ traversal (KeyTable.raw table), Item node.key.bytes ∧ Item node.value.bytes

def fullReadLine (key : CString) : Option CString → List UInt8
  | none => text "(" ++ key.bytes ++ text ",KVSERROR)"
  | some value => text "(" ++ key.bytes ++ text "," ++ value.bytes ++ text ")"

def fullMissingLine (key : CString) : List UInt8 := text "(" ++ key.bytes ++ text ",KVSMISSING)"

def fullMissingReport (keys : List CString) : List UInt8 :=
  if keys = [] then [] else text "[" ++ keys.flatMap fullMissingLine ++ text "]\n"

def fullShowLine (node : KeyNode) : List UInt8 :=
  text "(" ++ node.key.bytes ++ text ", " ++ node.value.bytes ++ text ")\n"

/-- READ prints each key in order with its value or the error, in full. -/
def ReadComplete (table : KeyTable) (keys : List CString) : Prop :=
  kvsRead (some (KeyTable.raw table)) keys = some (some (KeyTable.raw table),
    ⟨0, text "[" ++ keys.flatMap (fun key => fullReadLine key (table.contents key)) ++ text "]\n", []⟩)

/-- DELETE prints in full the keys that are not found when their turn comes. -/
def DeleteComplete (table : KeyTable) (keys : List CString) : Prop :=
  ∃ next, kvsDelete (some (KeyTable.raw table)) keys =
    some (next, ⟨0, fullMissingReport (missing table.contents keys), []⟩)

/-- SHOW prints a full line for each stored pair, and no other table prints the same. -/
def ShowComplete (table : KeyTable) : Prop :=
  (kvsShow (some (KeyTable.raw table))).1 = (traversal (KeyTable.raw table)).flatMap fullShowLine ∧
    ∀ other : KeyTable, AdmittedTable other →
      (kvsShow (some (KeyTable.raw other))).1 = (kvsShow (some (KeyTable.raw table))).1 →
      traversal (KeyTable.raw other) = traversal (KeyTable.raw table)

/-- The length of a pair that READ prints. -/
def readLength (key : CString) : Option CString → Nat
  | none => key.bytes.length + 11
  | some value => key.bytes.length + value.bytes.length + 3

def missingLength (key : CString) : Nat := key.bytes.length + 13

def showLength (node : KeyNode) : Nat := node.key.bytes.length + node.value.bytes.length + 5

/-! The lines. -/

theorem fullReadLine_length (key : CString) (found : Option CString) :
    (fullReadLine key found).length = readLength key found := by
  cases found with
  | none => simp [fullReadLine, readLength, text]
  | some value => simp [fullReadLine, readLength, text]; omega

theorem fullMissingLine_length (key : CString) : (fullMissingLine key).length = missingLength key := by
  simp [fullMissingLine, missingLength, text]

theorem fullShowLine_length (node : KeyNode) : (fullShowLine node).length = showLength node := by
  simp [fullShowLine, showLength, text]
  omega

theorem readLine_eq (key : CString) (found : Option CString) :
    readLine key found = (fullReadLine key found).take (MAX_STRING_SIZE - 1) := by
  cases found <;> rfl

theorem fits_iff {length : Nat} : length ≤ MAX_STRING_SIZE - 1 ↔ length < MAX_STRING_SIZE :=
  Nat.le_sub_one_iff_lt (by decide)

/-! READ. -/

theorem readPairs_hashed {ht : HashTable} {keys : List CString} {lines : List UInt8}
    (ran : readPairs ht keys = some lines) : ∀ key ∈ keys, Hashed key := by
  induction keys generalizing lines with
  | nil => simp
  | cons own keys ih =>
    simp only [readPairs, Option.bind_eq_bind, Option.bind_eq_some_iff] at ran
    obtain ⟨value, found, rest, later, _⟩ := ran
    obtain ⟨index, inside, _⟩ := Option.map_eq_some_iff.mp found
    exact List.forall_mem_cons.mpr ⟨⟨index, inside⟩, ih later⟩

theorem bracketed_inj {first second : List UInt8}
    (same : text "[" ++ first ++ text "]\n" = text "[" ++ second ++ text "]\n") : first = second :=
  List.append_cancel_left (List.append_cancel_right same)

theorem readComplete_iff (table : KeyTable) (keys : List CString) :
    ReadComplete table keys ↔ (∀ key ∈ keys, Alphanumeric key) ∧
      ∀ key ∈ keys, readLength key (table.contents key) < MAX_STRING_SIZE := by
  have fits : (keys.flatMap fun key => readLine key (table.contents key)) =
        (keys.flatMap fun key => fullReadLine key (table.contents key)) ↔
      ∀ key ∈ keys, readLength key (table.contents key) < MAX_STRING_SIZE := by
    simp only [readLine_eq, flatMap_take_eq_iff, fullReadLine_length, fits_iff]
  have printed (hashed : ∀ key ∈ keys, Hashed key) :
      kvsRead (some (KeyTable.raw table)) keys = some (some (KeyTable.raw table),
        ⟨0, text "[" ++ keys.flatMap (fun key => readLine key (table.contents key)) ++ text "]\n", []⟩) := by
    rw [kvsRead, readPairs_raw table keys hashed]
    rfl
  simp only [← hashed_iff]
  constructor
  · intro complete
    obtain ⟨lines, ran, _⟩ := Option.map_eq_some_iff.mp complete
    have hashed := readPairs_hashed ran
    refine ⟨hashed, fits.mp (bracketed_inj ?_)⟩
    rw [ReadComplete, printed hashed] at complete
    injection complete with same
    injection same with _ same
    injection same
  · rintro ⟨hashed, short⟩
    rw [ReadComplete, printed hashed, fits.mpr short]

/-! DELETE. -/

theorem missingReport_eq_iff (keys : List CString) :
    missingReport keys = fullMissingReport keys ↔ ∀ key ∈ keys, missingLength key < MAX_STRING_SIZE := by
  have fits : keys.flatMap missingLine = keys.flatMap fullMissingLine ↔
      ∀ key ∈ keys, missingLength key < MAX_STRING_SIZE := by
    simp only [← fits_iff, ← fullMissingLine_length]
    exact flatMap_take_eq_iff
  rw [← fits, missingReport, fullMissingReport]
  by_cases none : keys = []
  · simp [none]
  · rw [if_neg none, if_neg none]
    exact ⟨bracketed_inj, fun same => by rw [same]⟩

theorem deleteComplete_iff (table : KeyTable) (keys : List CString) :
    DeleteComplete table keys ↔ (∀ key ∈ keys, Alphanumeric key) ∧
      ∀ key ∈ missing table.contents keys, missingLength key < MAX_STRING_SIZE := by
  have printed (hashed : ∀ key ∈ keys, Hashed key) : ∃ next,
      kvsDelete (some (KeyTable.raw table)) keys =
        some (next, ⟨0, missingReport (missing table.contents keys), []⟩) := by
    obtain ⟨next, ran, _⟩ := call_refined table (.kvsDelete keys) hashed
    obtain ⟨⟨last, result⟩, deleted, made⟩ := Option.map_eq_some_iff.mp ran
    injection made with _ reply
    injection reply with same
    exact ⟨last, by rw [deleted, same]⟩
  simp only [← hashed_iff]
  rw [← missingReport_eq_iff]
  constructor
  · rintro ⟨last, ran⟩
    obtain ⟨⟨final, aux, lines⟩, deleted, _⟩ := Option.map_eq_some_iff.mp ran
    have hashed := JobNotifications.deletePairs_hashed deleted
    obtain ⟨next, ran'⟩ := printed hashed
    rw [ran] at ran'
    injection ran' with same
    injection same with _ same
    injection same with _ same
    exact ⟨hashed, same.symm⟩
  · rintro ⟨hashed, same⟩
    rw [DeleteComplete, ← same]
    exact printed hashed

/-! SHOW. -/

section Show
variable {node other : KeyNode}

theorem fullShowLine_append (node : KeyNode) (rest : List UInt8) :
    fullShowLine node ++ rest =
      openParen :: (node.key.bytes ++ comma :: space :: (node.value.bytes ++ closeParen :: newline :: rest)) := by
  simp [fullShowLine, show text "(" = [openParen] from rfl, show text ", " = [comma, space] from rfl,
    show text ")\n" = [closeParen, newline] from rfl]

theorem comma_notMem {item : List UInt8} (kept : Item item) : comma ∉ item :=
  fun member => (kept.2 comma member).2.1 rfl

theorem closeParen_notMem {item : List UInt8} (kept : Item item) : closeParen ∉ item :=
  fun member => (kept.2 closeParen member).2.2.1 rfl

/-- A full line is read back whatever follows it. -/
theorem fullShowLine_inj (kept : Item node.key.bytes ∧ Item node.value.bytes)
    (kept' : Item other.key.bytes ∧ Item other.value.bytes) {rest rest' : List UInt8}
    (same : fullShowLine node ++ rest = fullShowLine other ++ rest') : node = other ∧ rest = rest' := by
  rw [fullShowLine_append, fullShowLine_append] at same
  obtain ⟨keys, later⟩ := split_at_mark (comma_notMem kept.1) (comma_notMem kept'.1) (List.cons.inj same).2
  obtain ⟨values, last⟩ := split_at_mark (closeParen_notMem kept.2) (closeParen_notMem kept'.2) (List.cons.inj later).2
  refine ⟨?_, (List.cons.inj last).2⟩
  calc node = ⟨node.key, node.value⟩ := rfl
    _ = ⟨other.key, other.value⟩ := by rw [CString.ext keys, CString.ext values]

theorem showLine_ne_nil (node : KeyNode) : showLine node ≠ [] := by
  intro none
  have length := congrArg List.length none
  rw [show showLine node = (fullShowLine node).take (MAX_STRING_SIZE - 1) from rfl, List.length_take,
    fullShowLine_length] at length
  simp only [showLength, MAX_STRING_SIZE, List.length_nil] at length
  omega

/-- A line that fits does not begin with the front of a line that was cut off. -/
theorem showLine_full (kept : Item node.key.bytes ∧ Item node.value.bytes)
    (kept' : Item other.key.bytes ∧ Item other.value.bytes) (fits : showLength other < MAX_STRING_SIZE)
    {rest rest' : List UInt8} (same : showLine node ++ rest = fullShowLine other ++ rest') :
    showLine node = fullShowLine node := by
  by_contra cut
  have line : showLine node = (fullShowLine node).take (MAX_STRING_SIZE - 1) := rfl
  have long : MAX_STRING_SIZE - 1 < showLength node := by
    by_contra short
    exact cut (line.trans (List.take_of_length_le (by rw [fullShowLine_length]; omega)))
  have length : (showLine node).length = MAX_STRING_SIZE - 1 := by
    rw [line, List.length_take, fullShowLine_length]
    omega
  have inside : fullShowLine other <+: showLine node := by
    apply List.prefix_of_prefix_length_le (List.prefix_append _ rest') (same ▸ List.prefix_append _ rest)
    rw [fullShowLine_length, length]
    omega
  obtain ⟨more, front⟩ := inside.trans (line ▸ List.take_prefix ..)
  have equal := (fullShowLine_inj kept' kept (front.trans (List.append_nil _).symm)).1
  rw [equal] at fits
  omega

theorem show_determined {nodes others : List KeyNode}
    (kept : ∀ node ∈ nodes, Item node.key.bytes ∧ Item node.value.bytes)
    (kept' : ∀ node ∈ others, Item node.key.bytes ∧ Item node.value.bytes)
    (fits : ∀ node ∈ nodes, showLength node < MAX_STRING_SIZE)
    (same : others.flatMap showLine = nodes.flatMap fullShowLine) : others = nodes := by
  induction nodes generalizing others with
  | nil =>
    cases others with
    | nil => rfl
    | cons other others => exact absurd (List.append_eq_nil_iff.mp same).1 (showLine_ne_nil other)
  | cons node nodes ih =>
    obtain ⟨here, later⟩ := List.forall_mem_cons.mp kept
    obtain ⟨short, later'⟩ := List.forall_mem_cons.mp fits
    cases others with
    | nil =>
      have line : fullShowLine node = [] := (List.append_eq_nil_iff.mp same.symm).1
      exact absurd (congrArg List.length line) (by rw [fullShowLine_length]; exact Nat.succ_ne_zero _)
    | cons other others =>
      obtain ⟨here', rest'⟩ := List.forall_mem_cons.mp kept'
      rw [List.flatMap_cons, List.flatMap_cons] at same
      rw [showLine_full here' here short same] at same
      obtain ⟨equal, rests⟩ := fullShowLine_inj here' here same
      rw [equal, ih later rest' later' rests]

theorem showComplete_iff {table : KeyTable} (admitted : AdmittedTable table) :
    ShowComplete table ↔ ∀ node ∈ traversal (KeyTable.raw table), showLength node < MAX_STRING_SIZE := by
  have fits : (traversal (KeyTable.raw table)).flatMap showLine =
        (traversal (KeyTable.raw table)).flatMap fullShowLine ↔
      ∀ node ∈ traversal (KeyTable.raw table), showLength node < MAX_STRING_SIZE := by
    simp only [← fits_iff, ← fullShowLine_length]
    exact flatMap_take_eq_iff
  constructor
  · exact fun complete => fits.mp complete.1
  · intro short
    refine ⟨fits.mpr short, fun other admitted' same => ?_⟩
    exact show_determined admitted admitted' short (same.trans (fits.mpr short))

end Show

/-- READ, DELETE and SHOW print complete pairs exactly when each pair that they print fits
the line buffer, and the keys have a bucket. -/
theorem output_complete_iff {table : KeyTable} (admitted : AdmittedTable table) (keys : List CString) :
    (ReadComplete table keys ↔ (∀ key ∈ keys, Alphanumeric key) ∧
      ∀ key ∈ keys, readLength key (table.contents key) < MAX_STRING_SIZE) ∧
    (DeleteComplete table keys ↔ (∀ key ∈ keys, Alphanumeric key) ∧
      ∀ key ∈ missing table.contents keys, missingLength key < MAX_STRING_SIZE) ∧
    (ShowComplete table ↔
      ∀ node ∈ traversal (KeyTable.raw table), showLength node < MAX_STRING_SIZE) :=
  ⟨readComplete_iff table keys, deleteComplete_iff table keys, showComplete_iff admitted⟩

/-! One pair. -/

instance (table : KeyTable) : Decidable (AdmittedTable table) :=
  inferInstanceAs (Decidable (∀ node ∈ traversal (KeyTable.raw table), _))

/-- `a` repeated. -/
def keyOf (length : Nat) : CString := CString.ofBytes (List.replicate length 97)

theorem bucket_keyOf : bucket (keyOf 20) = some ⟨0, Nat.succ_pos 25⟩ := by decide

/-- A table that holds one pair. -/
def onePair (value : CString) : KeyTable := JobNotifications.emptyTable.insert (keyOf 20) value bucket_keyOf

theorem output_complete_of_onePair :
    (ReadComplete (onePair (keyOf 14)) [keyOf 20] ↔ (∀ key ∈ [keyOf 20], Alphanumeric key) ∧
      ∀ key ∈ [keyOf 20], readLength key ((onePair (keyOf 14)).contents key) < MAX_STRING_SIZE) ∧
    (DeleteComplete (onePair (keyOf 14)) [keyOf 20] ↔ (∀ key ∈ [keyOf 20], Alphanumeric key) ∧
      ∀ key ∈ missing (onePair (keyOf 14)).contents [keyOf 20], missingLength key < MAX_STRING_SIZE) ∧
    (ShowComplete (onePair (keyOf 14)) ↔
      ∀ node ∈ traversal (KeyTable.raw (onePair (keyOf 14))), showLength node < MAX_STRING_SIZE) :=
  output_complete_iff (by decide) [keyOf 20]

/-- A key and a value of 20 bytes each, and a missing key of 30 bytes, are cut off. -/
theorem pairs_cut_off : AdmittedTable (onePair (keyOf 20)) ∧ ¬ReadComplete (onePair (keyOf 20)) [keyOf 20] ∧
    ¬DeleteComplete (onePair (keyOf 20)) [keyOf 30] ∧ ¬ShowComplete (onePair (keyOf 20)) := by
  refine ⟨by decide, fun complete => ?_, fun complete => ?_, fun complete => ?_⟩
  · have printed := congrArg (Option.map fun done => done.2.fd) complete
    exact absurd printed (by decide)
  · obtain ⟨next, ran⟩ := complete
    have printed := congrArg (Option.map fun done => done.2.fd) ran
    simp only [Option.map_some] at printed
    exact absurd printed (by decide)
  · exact absurd complete.1 (by decide)

end IstKvs.OutputLines
