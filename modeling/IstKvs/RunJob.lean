import IstKvs.ReaderFacts

/-! `run_job`: the commands its loop reads from a job file, and what each of them does
to the store and writes. The stack bytes matter to `read_uint` at the end of the file
only, so one value of them serves a whole run. -/

namespace IstKvs.RunJob
open Kvs Operations JobParser

/-- What one turn of the loop executes, with its arguments. -/
inductive JobCommand where
  | write (pairs : List (CString × CString))
  | read (keys : List CString)
  | delete (keys : List CString)
  | showAll
  | wait (delay : Nat)
  | backup
  | help
  | empty
  | invalid
  deriving DecidableEq

/-- The keys that a command hands to `kvs_write`, `kvs_read` or `kvs_delete`. -/
def JobCommand.keys : JobCommand → List CString
  | .write pairs => pairs.map Prod.fst
  | .read keys | .delete keys => keys
  | .showAll | .wait _ | .backup | .help | .empty | .invalid => []

def dispatched {α : Type} (command : α → JobCommand) : Parsed α → Parsed JobCommand
  | (none, rest) => (some .invalid, rest)
  | (some arguments, rest) => (some (command arguments), rest)

/-- `get_next` and the parser it selects; `none` at the end of the commands. -/
def nextCommand (stack : Nat → UInt8) (stream : List UInt8) : Option (Parsed JobCommand) :=
  match getNext stream with
  | (.cmdWrite, rest) => (parseWrite MAX_WRITE_SIZE rest).map (dispatched .write)
  | (.cmdRead, rest) => (parseReadDelete MAX_WRITE_SIZE rest).map (dispatched .read)
  | (.cmdDelete, rest) => (parseReadDelete MAX_WRITE_SIZE rest).map (dispatched .delete)
  | (.cmdShow, rest) => some (some .showAll, rest)
  | (.cmdWait, rest) => (parseWait stack rest).map (dispatched .wait)
  | (.cmdBackup, rest) => some (some .backup, rest)
  | (.cmdHelp, rest) => some (some .help, rest)
  | (.cmdEmpty, rest) => some (some .empty, rest)
  | (.cmdInvalid, rest) => some (some .invalid, rest)
  | (.eoc, rest) => some (none, rest)

/-- What a run hands out: to `write` on the output file, on the standard output and on the
standard error, to `printf`, whose buffer goes to the standard output at some later time, to
`notify_clients`, and the tables that its children are forked with. -/
structure Effects where
  out : List UInt8
  stdout : List UInt8
  stderr : List UInt8
  stdio : List UInt8
  notified : List (CString × CString)
  backups : List KvsTable

def Effects.none : Effects := ⟨[], [], [], [], [], []⟩

def Effects.printed (stdio : List UInt8) : Effects := { Effects.none with stdio := stdio }

/-- A call on the store that returned 0, and the pairs to notify after it. -/
def Effects.notifying (result : Result) (pairs : List (CString × CString)) : Effects :=
  { Effects.none with out := result.fd, stderr := result.stderr, notified := pairs }

def Effects.failed (result : Result) (report : List UInt8) : Effects :=
  { Effects.none with out := result.fd, stderr := result.stderr ++ report }

def Effects.append (first second : Effects) : Effects where
  out := first.out ++ second.out
  stdout := first.stdout ++ second.stdout
  stderr := first.stderr ++ second.stderr
  stdio := first.stdio ++ second.stdio
  notified := first.notified ++ second.notified
  backups := first.backups ++ second.backups

def invalidText : List UInt8 := text "Invalid command. See HELP for usage\n"

def helpText : List UInt8 := text
  "Available commands:\n  WRITE [(key,value)(key2,value2),...]\n  READ [key,key2,...]\n  DELETE [key,key2,...]\n  SHOW\n  WAIT <delay_ms>\n  BACKUP\n  HELP\n"

def DELETED : CString := CString.ofBytes (text "DELETED")

/-- The case of the switch; `forks` is whether the fork of `kvs_backup` succeeds. -/
def perform (forks : Bool) (kvsTable : KvsTable) : JobCommand → Option (KvsTable × Effects)
  | .write pairs => (kvsWrite kvsTable pairs).map fun (next, result) =>
      if result.code ≠ 0 then (next, Effects.failed result (text "Failed to write pair\n"))
      else (next, Effects.notifying result pairs)
  | .read keys => (kvsRead kvsTable keys).map fun (next, result) =>
      if result.code ≠ 0 then (next, Effects.failed result (text "Failed to read pair\n"))
      else (next, Effects.notifying result [])
  | .delete keys => (kvsDelete kvsTable keys).map fun (next, result) =>
      if result.code ≠ 0 then (next, Effects.failed result (text "Failed to delete pair\n"))
      else (next, Effects.notifying result (keys.map fun key => (key, DELETED)))
  | .showAll => some (kvsTable, { Effects.none with out := (kvsShow kvsTable).1, stderr := (kvsShow kvsTable).2 })
  | .wait delay => some (kvsTable,
      Effects.printed (if 0 < delay then text s!"Waiting {delay / 1000} seconds\n" else []))
  | .backup => some (kvsTable,
      if forks then { Effects.none with backups := [kvsTable] }
      else { Effects.none with stderr := text "Failed to do backup\n" })
  | .help => some (kvsTable, { Effects.none with stdout := helpText })
  | .empty => some (kvsTable, Effects.none)
  | .invalid => some (kvsTable, { Effects.none with stderr := invalidText })

/-- `file_backups` behind the command. -/
def JobCommand.backupsAfter (fileBackups : Nat) : JobCommand → Nat
  | .backup => fileBackups + 1
  | .write _ | .read _ | .delete _ | .showAll | .wait _ | .help | .empty | .invalid => fileBackups

/-- The loop of `run_job`, with the forks of its backups by their numbers. Each turn reads
a byte or ends it, so the length of the file bounds the turns. -/
def runLoop (stack : Nat → UInt8) (forks : Nat → Bool) :
    Nat → Nat → KvsTable → List UInt8 → Option (KvsTable × Effects)
  | 0, _, _, _ => none
  | turns + 1, fileBackups, kvsTable, stream => do
      match ← nextCommand stack stream with
      | (none, _) => some (kvsTable, Effects.printed (text "EOF\n"))
      | (some command, rest) =>
          let (next, effects) ← perform (forks (fileBackups + 1)) kvsTable command
          let (last, later) ← runLoop stack forks turns (command.backupsAfter fileBackups) next rest
          some (last, effects.append later)

def runJob (stack : Nat → UInt8) (forks : Nat → Bool) (kvsTable : KvsTable) (file : List UInt8) :
    Option (KvsTable × Effects) :=
  runLoop stack forks (file.length + 1) 0 kvsTable file

/-- The commands that the loop executes, and the bytes left at its end. -/
def commandLoop (stack : Nat → UInt8) : Nat → List UInt8 → Option (List JobCommand × List UInt8)
  | 0, _ => none
  | turns + 1, stream => do
      match ← nextCommand stack stream with
      | (none, rest) => some ([], rest)
      | (some command, rest) =>
          let (commands, last) ← commandLoop stack turns rest
          some (command :: commands, last)

def commands (stack : Nat → UInt8) (file : List UInt8) : Option (List JobCommand × List UInt8) :=
  commandLoop stack (file.length + 1) file

/-- The loop on the file comes to call `get_next` with these bytes left. -/
inductive Reaches (stack : Nat → UInt8) (file : List UInt8) : List UInt8 → Prop where
  | start : Reaches stack file file
  | turn {stream rest : List UInt8} {command : JobCommand} (earlier : Reaches stack file stream)
      (read : nextCommand stack stream = some (some command, rest)) : Reaches stack file rest

def performAll (forks : Nat → Bool) : Nat → KvsTable → List JobCommand → Option (KvsTable × Effects)
  | _, kvsTable, [] => some (kvsTable, Effects.printed (text "EOF\n"))
  | fileBackups, kvsTable, command :: commands => do
      let (next, effects) ← perform (forks (fileBackups + 1)) kvsTable command
      let (last, later) ← performAll forks (command.backupsAfter fileBackups) next commands
      some (last, effects.append later)

/-! A turn reads at least a byte, so the bound on the turns is never met. -/

section Turns
variable {stack : Nat → UInt8} {file stream rest : List UInt8}

theorem dispatched_rest {α : Type} (command : α → JobCommand) (parsed : Parsed α) :
    (dispatched command parsed).2 = parsed.2 := by
  obtain ⟨result, rest⟩ := parsed
  cases result <;> rfl

theorem dispatched_suffix {α : Type} {command : α → JobCommand} {outcome : Option (Parsed α)}
    {result : Option JobCommand}
    (inside : ∀ {result rest}, outcome = some (result, rest) → rest <:+ stream)
    (ran : outcome.map (dispatched command) = some (result, rest)) : rest <:+ stream := by
  obtain ⟨⟨parsed, later⟩, parse, made⟩ := Option.map_eq_some_iff.mp ran
  have same := dispatched_rest command (parsed, later)
  rw [made] at same
  cases same
  exact inside parse

theorem nextCommand_nil : nextCommand stack [] = some (none, []) := rfl

theorem nextCommand_suffix {first : UInt8} {result : Option JobCommand}
    (ran : nextCommand stack (first :: stream) = some (result, rest)) : rest <:+ stream := by
  have inside := getNext_suffix first stream
  unfold nextCommand at ran
  cases got : getNext (first :: stream) with
  | mk command later =>
    rw [got] at ran inside
    cases command with
    | cmdWrite => exact (dispatched_suffix parseWrite_suffix ran).trans inside
    | cmdRead | cmdDelete => exact (dispatched_suffix parseReadDelete_suffix ran).trans inside
    | cmdWait => exact (dispatched_suffix parseWait_suffix ran).trans inside
    | cmdShow | cmdBackup | cmdHelp | cmdEmpty | cmdInvalid | eoc =>
      cases ran
      exact inside

theorem nextCommand_shorter {command : JobCommand} (ran : nextCommand stack stream = some (some command, rest)) :
    rest.length < stream.length := by
  cases stream with
  | nil => cases ran
  | cons first stream => exact Nat.lt_succ_of_le (nextCommand_suffix ran).length_le

theorem commandLoop_enough (turns : Nat) (stream : List UInt8) (enough : stream.length < turns) :
    commandLoop stack turns stream = commands stack stream := by
  unfold commands
  suffices later : ∀ first second stream, List.length stream < first → List.length stream < second →
      commandLoop stack first stream = commandLoop stack second stream from
    later _ _ stream enough (Nat.lt_succ_self _)
  intro first
  induction first with
  | zero => exact fun _ _ bound => absurd bound (Nat.not_lt_zero _)
  | succ first ih =>
    intro second stream low high
    cases second with
    | zero => exact absurd high (Nat.not_lt_zero _)
    | succ second =>
      unfold commandLoop
      cases ran : nextCommand stack stream with
      | none => rfl
      | some parsed =>
        obtain ⟨result, rest⟩ := parsed
        cases result with
        | none => rfl
        | some command =>
          have shorter := nextCommand_shorter ran
          simp only [Option.bind_eq_bind, Option.bind_some,
            ih second rest (by omega) (by omega)]

theorem commands_undefined (ran : nextCommand stack stream = none) : commands stack stream = none := by
  simp only [commands, commandLoop, ran, Option.bind_eq_bind, Option.bind_none]

theorem commands_end (ran : nextCommand stack stream = some (none, rest)) :
    commands stack stream = some ([], rest) := by
  simp only [commands, commandLoop, ran, Option.bind_eq_bind, Option.bind_some]

theorem commands_turn {command : JobCommand} (ran : nextCommand stack stream = some (some command, rest)) :
    commands stack stream =
      (commands stack rest).map fun later => (command :: later.1, later.2) := by
  have shorter := nextCommand_shorter ran
  rw [commands, commandLoop, ran, ← commandLoop_enough stream.length rest shorter]
  simp only [Option.bind_eq_bind, Option.bind_some]
  cases commandLoop stack stream.length rest <;> rfl

theorem reaches_iff : Reaches stack file stream ↔ stream = file ∨
    ∃ command rest, nextCommand stack file = some (some command, rest) ∧ Reaches stack rest stream := by
  constructor
  · intro reached
    induction reached with
    | start => exact .inl rfl
    | turn earlier read ih =>
      right
      rcases ih with same | ⟨command, rest, first, later⟩
      · subst same
        exact ⟨_, _, read, .start⟩
      · exact ⟨command, rest, first, .turn later read⟩
  · rintro (same | ⟨command, rest, first, later⟩)
    · exact same ▸ .start
    · induction later with
      | start => exact .turn .start first
      | turn _ read ih => exact .turn ih read

/-- The run performs its commands one after the other. -/
theorem runLoop_eq (forks : Nat → Bool) (turns fileBackups : Nat) (kvsTable : KvsTable) (stream : List UInt8) :
    runLoop stack forks turns fileBackups kvsTable stream =
      (commandLoop stack turns stream).bind fun read => performAll forks fileBackups kvsTable read.1 := by
  induction turns generalizing fileBackups kvsTable stream with
  | zero => rfl
  | succ turns ih =>
    unfold runLoop commandLoop
    cases nextCommand stack stream with
    | none => rfl
    | some parsed =>
      obtain ⟨result, rest⟩ := parsed
      cases result with
      | none => rfl
      | some command =>
        simp only [Option.bind_eq_bind, Option.bind_some, ih]
        cases commandLoop stack turns rest with
        | none => cases perform (forks (fileBackups + 1)) kvsTable command <;> rfl
        | some read => rfl

theorem runJob_eq (forks : Nat → Bool) (kvsTable : KvsTable) (file : List UInt8) :
    runJob stack forks kvsTable file = (commands stack file).bind fun read => performAll forks 0 kvsTable read.1 :=
  runLoop_eq ..

end Turns

end IstKvs.RunJob
