import IstKvs.JobDispatch
import IstKvs.ScriptRoundTrip
import IstKvs.Library.Lines

/-! The paths of the backup files. `kvs_backup` cuts the name of the job file at its first
dot, in the directory entry itself, and prints the path into fifty bytes. -/

namespace IstKvs.BackupNames
open Lines Operations JobParser JobDispatch
open ScriptRoundTrip (decimal decimal_digits numeral_decimal)

def LONG_MAX : Nat := 9223372036854775807

abbrev dot : UInt8 := 46

/-- `sizeof(bck_name)`. -/
def BCK_NAME_SIZE : Nat := 50

/-- The bytes between the dots that `strtok` skips and the next one. -/
def token (name : List UInt8) : List UInt8 := (name.dropWhile (· = dot)).takeWhile (· ≠ dot)

/-- `strtok(name, ".")`: the token, if there is one, and the name once the dot after it is
overwritten. -/
def strtok (name : CString) : Option CString × CString :=
  let first : CString := ⟨token name.bytes, fun member => name.noNul
    ((List.dropWhile_sublist _).subset ((List.takeWhile_sublist _).subset member))⟩
  let skipped : CString := ⟨name.bytes.takeWhile (· = dot), fun member => name.noNul
    ((List.takeWhile_sublist _).subset member)⟩
  if first.bytes = [] then (none, name) else (some first, strcat skipped first)

def sign (value : UInt64) : List UInt8 := if value.toNat ≤ LONG_MAX then [] else [minus]

def magnitude (value : UInt64) : Nat :=
  if value.toNat ≤ LONG_MAX then value.toNat else ULONG_MAX + 1 - value.toNat

def digits (value : UInt64) : List UInt8 := sign value ++ decimal (magnitude value)

theorem digits_plain (value : UInt64) {ch : UInt8} (notMinus : ch ≠ minus) (notDigit : isDigit ch = false) :
    ch ∉ digits value := by
  intro member
  rcases List.mem_append.mp member with here | here
  · rw [sign] at here
    split at here
    · cases here
    · exact notMinus (List.mem_singleton.mp here)
  · rw [decimal_digits _ ch here] at notDigit
    cases notDigit

theorem digits_noNul (value : UInt64) : 0 ∉ digits value := digits_plain value (by decide) (by decide)

/-- `%ld` of a `size_t`. -/
def ld (value : UInt64) : CString := ⟨digits value, digits_noNul value⟩

/-- `snprintf` into `bck_name`; a null token has no meaning. The second part is the name
that the call leaves. -/
def bckName (numBackup : UInt64) (jobFilename directory : CString) : Option CString × CString :=
  ((strtok jobFilename).1.map fun first => CString.snprintf BCK_NAME_SIZE
    (strcat (strcat (strcat (strcat (strcat directory (literal "/")) first) (literal "-")) (ld numBackup))
      (literal ".bck")), (strtok jobFilename).2)

/-- A call of `kvs_backup` for a job file. -/
structure Backup where
  jobFilename : CString
  numBackup : UInt64
  deriving DecidableEq

/-- The name of the job file after earlier calls with it. -/
def nameAfter (directory : CString) (earlier : List UInt64) (name : CString) : CString :=
  earlier.foldl (fun name numBackup => (bckName numBackup name directory).2) name

def path (directory : CString) (earlier : List UInt64) (backup : Backup) : Option CString :=
  (bckName backup.numBackup (nameAfter directory earlier backup.jobFilename) directory).1

/-- Whatever calls came before, the two calls open different paths. -/
def PathsDiffer (directory : CString) (first second : Backup) : Prop :=
  ∀ earlier earlier', path directory earlier first ≠ path directory earlier' second

/-- What the path has between the directory and the extension. -/
def stem (backup : Backup) : List UInt8 := token backup.jobFilename.bytes ++ minus :: digits backup.numBackup

/-- The names agree up to their first dot, and the numbers agree. A number above
`LONG_MAX` is printed with a sign, which the name of the other file may end with. -/
def NamedAlike (first second : Backup) : Prop :=
  token first.jobFilename.bytes ++ sign first.numBackup = token second.jobFilename.bytes ++ sign second.numBackup ∧
    magnitude first.numBackup = magnitude second.numBackup

/-- The array ends before both extensions, and the names agree so far. -/
def CutAlike (directory : CString) (first second : Backup) : Prop :=
  let room := BCK_NAME_SIZE - 1 - (directory.bytes.length + 1)
  room ≤ (stem first).length ∧ room ≤ (stem second).length ∧ (stem first).take room = (stem second).take room

/-! The cut at the first dot. -/

theorem dot_not_mem_token (name : List UInt8) : dot ∉ token name := by
  intro member
  simpa using List.mem_takeWhile_imp member

/-- The cut name has the token of the whole one. -/
theorem token_cut (name : List UInt8) : token (name.takeWhile (· = dot) ++ token name) = token name := by
  have skipped : ∀ ch ∈ name.takeWhile (· = dot), decide (ch = dot) = true := by
    intro ch member
    simpa using List.mem_takeWhile_imp member
  have plain : ∀ ch ∈ token name, decide (ch ≠ dot) = true :=
    fun ch member => decide_eq_true fun same => dot_not_mem_token name (same ▸ member)
  have starts : (token name).dropWhile (· = dot) = token name := by
    apply List.dropWhile_eq_self_iff.mpr
    intro some
    simpa using plain _ (List.getElem_mem some)
  rw [token, List.dropWhile_append_of_pos skipped, starts, List.takeWhile_eq_self_iff.mpr plain]

theorem strtok_of_token {name : CString} (found : token name.bytes ≠ []) :
    ∃ first, (strtok name).1 = some first ∧ first.bytes = token name.bytes ∧
      token (strtok name).2.bytes = token name.bytes := by
  simp only [strtok, if_neg found]
  exact ⟨_, rfl, rfl, token_cut name.bytes⟩

theorem nameAfter_token (directory : CString) (earlier : List UInt64) {name : CString} (found : token name.bytes ≠ []) :
    token (nameAfter directory earlier name).bytes = token name.bytes := by
  induction earlier generalizing name with
  | nil => rfl
  | cons numBackup earlier ih =>
    obtain ⟨_, _, _, kept⟩ := strtok_of_token found
    have left : token (bckName numBackup name directory).2.bytes = token name.bytes := kept
    rw [nameAfter, List.foldl_cons]
    exact (ih (left ▸ found)).trans left

/-- An accepted name has a byte before its last dot or behind it. -/
theorem token_of_accepted {directory name : CString} {files : JobPaths}
    (accepted : entryFiles directory name = .ok files) : token name.bytes ≠ [] := by
  obtain ⟨stem, _, split, _⟩ := entryFiles_accepted accepted
  intro none
  have all : ∀ ch ∈ name.bytes, ch = dot := by
    have skipped : name.bytes.dropWhile (· = dot) = [] := by
      by_contra more
      obtain ⟨ch, rest, cons⟩ := List.exists_cons_of_ne_nil more
      have first := List.head_dropWhile_not (· = dot) more
      rw [token, cons, List.takeWhile_cons_of_pos] at none
      · cases none
      · simpa [cons] using first
    simpa using List.dropWhile_eq_nil_iff.mp skipped
  have member : 106 ∈ name.bytes := split ▸ List.mem_append_right stem (by decide)
  exact absurd (all 106 member) (by decide)

/-! The number. -/

theorem stem_eq_iff (first second : Backup) : stem first = stem second ↔ NamedAlike first second := by
  have shape (backup : Backup) : stem backup =
      (token backup.jobFilename.bytes ++ sign backup.numBackup) ++ minus :: decimal (magnitude backup.numBackup) := by
    rw [stem, digits, sign]
    split <;> simp
  have plain (value : Nat) : minus ∉ decimal value :=
    fun member => absurd (decimal_digits value minus member) (by decide)
  rw [shape, shape]
  constructor
  · intro same
    obtain ⟨names, numbers⟩ := split_at_last_mark (plain _) (plain _) same
    have values := congrArg numeral numbers
    rw [numeral_decimal, numeral_decimal] at values
    exact ⟨names, values⟩
  · rintro ⟨names, numbers⟩
    rw [names, numbers]

/-! The path. -/

theorem dot_not_mem_stem (backup : Backup) : dot ∉ stem backup := by
  rw [stem, List.mem_append, List.mem_cons]
  rintro (here | here | here)
  · exact dot_not_mem_token _ here
  · exact absurd here (by decide)
  · exact digits_plain _ (by decide) (by decide) here

theorem path_eq (directory : CString) (earlier : List UInt64) {backup : Backup}
    (found : token backup.jobFilename.bytes ≠ []) :
    ∃ name, path directory earlier backup = some name ∧ name.bytes =
      (directory.bytes ++ [47] ++ (stem backup ++ dot :: text "bck")).take (BCK_NAME_SIZE - 1) := by
  have kept := nameAfter_token directory earlier found
  obtain ⟨first, some, bytes, _⟩ := strtok_of_token (kept ▸ found)
  rw [kept] at bytes
  refine ⟨_, by rw [path, bckName, some]; rfl, ?_⟩
  have shape : stem backup ++ dot :: text "bck" = first.bytes ++ [minus] ++ digits backup.numBackup ++ text ".bck" := by
    rw [stem, bytes, List.append_assoc, List.append_assoc, List.append_assoc]
    rfl
  rw [shape, ← List.append_assoc, ← List.append_assoc, ← List.append_assoc]
  rfl

/-- Two backups have different paths exactly when the names up to their first dot or the
numbers differ, and the array holds a byte in which the paths differ. -/
theorem backup_paths_differ_iff {directory : CString} {first second : Backup} {files files' : JobPaths}
    (accepted : entryFiles directory first.jobFilename = .ok files)
    (accepted' : entryFiles directory second.jobFilename = .ok files') :
    PathsDiffer directory first second ↔
      ¬NamedAlike first second ∧ ¬CutAlike directory first second := by
  have same (earlier earlier' : List UInt64) : path directory earlier first = path directory earlier' second ↔
      NamedAlike first second ∨ CutAlike directory first second := by
    obtain ⟨name, some, bytes⟩ := path_eq directory earlier (token_of_accepted accepted)
    obtain ⟨name', some', bytes'⟩ := path_eq directory earlier' (token_of_accepted accepted')
    have names : name = name' ↔ name.bytes = name'.bytes := ⟨congrArg CString.bytes, CString.ext⟩
    rw [some, some', Option.some.injEq, names, bytes, bytes', take_append_eq_iff, List.length_append,
      take_marked_eq_iff (dot_not_mem_stem first) (dot_not_mem_stem second), stem_eq_iff]
    rfl
  rw [← not_or]
  constructor
  · intro differ alike
    exact differ [] [] ((same [] []).mpr alike)
  · intro unlike earlier earlier' equal
    exact unlike ((same earlier earlier').mp equal)

/-- `a.job` and `b.job` in the directory `d`. -/
theorem backup_paths_differ_of_letters :
    PathsDiffer (literal "d") ⟨literal "a.job", 1⟩ ⟨literal "b.job", 1⟩ := by
  have first : entryFiles (literal "d") (literal "a.job") = .ok ⟨literal "d/a.job", literal "d/a.out"⟩ := by decide
  have second : entryFiles (literal "d") (literal "b.job") = .ok ⟨literal "d/b.job", literal "d/b.out"⟩ := by decide
  apply (backup_paths_differ_iff first second).mpr
  constructor
  · rintro ⟨names, _⟩
    exact absurd names (by decide)
  · rintro ⟨long, _⟩
    exact absurd long (by decide)

/-- The names of `a.b.job` and `a.c.job` are both cut to `a`. -/
theorem backup_overwritten :
    ¬∀ (directory : CString) (first second : Backup) (files files' : JobPaths),
      entryFiles directory first.jobFilename = .ok files → entryFiles directory second.jobFilename = .ok files' →
      first ≠ second → PathsDiffer directory first second := by
  intro unique
  have first : entryFiles (literal "d") (literal "a.b.job") = .ok ⟨literal "d/a.b.job", literal "d/a.b.out"⟩ := by decide
  have second : entryFiles (literal "d") (literal "a.c.job") = .ok ⟨literal "d/a.c.job", literal "d/a.c.out"⟩ := by decide
  have differ := unique (literal "d") ⟨literal "a.b.job", 1⟩ ⟨literal "a.c.job", 1⟩ _ _ first second (by decide)
  exact differ [] [] (by decide)

end IstKvs.BackupNames
