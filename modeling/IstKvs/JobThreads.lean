import IstKvs.JobDispatch
import IstKvs.DisjointJobs
import IstKvs.JobMeaning
import IstKvs.TableLock
import IstKvs.Library.AtomicCalls

/-! All the threads that use the table at once. The `get_file` threads take files from the
directory and run them with `run_job`, which reads one command after the other, calls
`operations.c`, and calls `notify_clients` for the pairs of a WRITE or a DELETE when the
lock is given back; the sessions look up the keys of their subscriptions. What a thread waits
for besides, at the counter of the backups and at the pipe of a client, `ServerProgress` adds. -/

namespace IstKvs.JobThreads
open LabelledRuns ReadWriteLock AtomicCalls ThreadPool Footprint CommandLogic ChainedTable
open Kvs Operations StoreMemory TableLock RunJob JobDispatch JobMeaning DisjointJobs

/-- The directory, the bytes of its files, and the stack under each run of `run_job`. -/
structure Setting where
  directory : Directory
  contents : CString → List UInt8
  stack : Nat → Nat → UInt8

/-- Where a thread stands: in `get_file`, at the head of the loop of `run_job` or in its
loop of notifications, or in a session with the keys that its client is still to subscribe to. -/
inductive Pc where
  | dispatch (pc : ThreadPc)
  | running (entry : Nat) (files : JobPaths) (stream : List UInt8)
  | notifying (entry : Nat) (files : JobPaths) (stream : List UInt8) (pairs : List (CString × CString))
  | session (keys : List CString)

/-- An event of `get_file`, a command of `run_job` with the reply of its call, a call of
`notify_clients`, and a lookup. -/
inductive Event where
  | dispatched (event : JobDispatch.Event)
  | performed (entry : Nat) (command : JobCommand) (reply : Option Reply)
  | notified (entry : Nat) (pair : CString × CString)
  | answered (key : CString) (reply : Reply)

/-- The call that a command makes. -/
def tableCall : JobCommand → Option LockedCall
  | .write pairs => some (.kvsWrite pairs)
  | .read keys => some (.kvsRead keys)
  | .delete keys => some (.kvsDelete keys)
  | .showAll => some .kvsShow
  | .backup => some .kvsBackup
  | .wait _ | .help | .empty | .invalid => none

/-- The pairs of a command that are notified when its call returns 0. -/
def notices : JobCommand → List (CString × CString)
  | .write pairs => pairs
  | .delete keys => keys.map fun key => (key, DELETED)
  | .read _ | .showAll | .wait _ | .backup | .help | .empty | .invalid => []

def toNotify (command : JobCommand) : Reply → List (CString × CString)
  | .result result => if result.code ≠ 0 then [] else notices command
  | .shown _ | .status _ | .forked _ => []

variable (setting : Setting)

/-- A statement of `get_file`. -/
def dispatchStep (pc : ThreadPc) (shared : Shared) : Option (Shared × Pc × List Event) :=
  (threadStep setting.directory shared pc).map fun next =>
    (next.1, .dispatch next.2, (threadEvents setting.directory shared pc).map .dispatched)

/-- The head of the loop of `run_job`; at the end of the commands it returns to `get_file`. -/
def jobTurn (entry : Nat) (files : JobPaths) (stream : List UInt8) : Turn LockedCall Reply Shared Pc Event :=
  match nextCommand (setting.stack entry) stream with
  | none => .own fun _ => none
  | some (none, _) => .own (dispatchStep setting (.runJob entry files))
  | some (some command, rest) =>
      match tableCall command with
      | some call => .call call fun reply =>
          (.notifying entry files rest (toNotify command reply), [.performed entry command (some reply)])
      | none => .own fun shared => some (shared, .running entry files rest, [.performed entry command none])

def program : Pc → Turn LockedCall Reply Shared Pc Event
  | .dispatch (.runJob entry files) =>
      .own fun shared => some (shared, .running entry files (setting.contents files.inPath), [])
  | .dispatch pc => .own (dispatchStep setting pc)
  | .running entry files stream => jobTurn setting entry files stream
  | .notifying entry files stream [] => .own fun shared => some (shared, .running entry files stream, [])
  | .notifying entry files stream (pair :: pairs) =>
      .own fun shared => some (shared, .notifying entry files stream pairs, [.notified entry pair])
  | .session [] => .own fun _ => none
  | .session (key :: keys) => .call (.kvsKeyExists key) fun reply => (.session keys, [.answered key reply])

/-- Before the threads start. -/
def start {Session : Type} (maxThreads : Nat) (table : KeyTable) (lookups : Session → List CString) :
    Whole (Fin maxThreads ⊕ Session) HashTable Shared Pc :=
  ⟨⟨false, 0⟩, Sum.elim (fun _ => .dispatch .lock) fun session => .session (lookups session), KeyTable.raw table⟩

/-- The commands of the file at an entry that is run. -/
def script (entry : Nat) : List JobCommand :=
  match setting.directory.files entry with
  | none => []
  | some files =>
      if setting.directory.opens files then
        ((commands (setting.stack entry) (setting.contents files.inPath)).map Prod.fst).getD []
      else []

/-- The parsers stay inside their buffers on every file that is run, and the keys have a bucket. -/
structure Sound {Session : Type} (lookups : Session → List CString) : Prop where
  parsed : ∀ entry files, setting.directory.files entry = some files → setting.directory.opens files = true →
    (commands (setting.stack entry) (setting.contents files.inPath)).isSome = true
  keyed : ∀ entry, ∀ command ∈ script setting entry, ∀ key ∈ command.keys, Alphanumeric key
  looked : ∀ session, ∀ key ∈ lookups session, Alphanumeric key

/-! What a run shows. -/

/-- The commands in the order in which they were done, each with the entry of its job. -/
def performedIn : List Event → List (Nat × JobCommand) :=
  List.filterMap fun event => match event with
    | .performed entry command _ => some (entry, command)
    | .dispatched _ | .notified _ _ | .answered _ _ => none

def dispatchedIn : List Event → List JobDispatch.Event :=
  List.filterMap fun event => match event with
    | .dispatched event => some event
    | .performed _ _ _ | .notified _ _ | .answered _ _ => none

/-- What a call writes to the file. -/
def fileBytes : Option Reply → List UInt8
  | some (.result result) => result.fd
  | some (.shown written) => written.1
  | some (.status _) | some (.forked _) | none => []

/-- The nodes that the child of a backup visits. -/
def copied : Option Reply → List (List KeyNode)
  | some (.forked nodes) => [nodes]
  | some (.result _) | some (.shown _) | some (.status _) | none => []

/-- What the output file of an entry gets. -/
def written (entry : Nat) (trace : List Event) : List UInt8 :=
  trace.flatMap fun event => match event with
    | .performed job _ reply => if job = entry then fileBytes reply else []
    | .dispatched _ | .notified _ _ | .answered _ _ => []

/-- Done one after the other from these bindings, the commands and lookups show the same;
what a fork would hand to a child is shown whether or not it succeeds. -/
def Explained : Bindings → List Event → Prop
  | _, [] => True
  | bindings, .dispatched _ :: trace | bindings, .notified _ _ :: trace => Explained bindings trace
  | bindings, .performed _ command reply :: trace =>
      (fileBytes reply = (meaning true command bindings).2.out ∧
        copied reply = (meaning true command bindings).2.backups.map fun kvsTable => (kvsTable.map traversal).getD []) ∧
      Explained (meaning true command bindings).1 trace
  | bindings, .answered key reply :: trace =>
      reply = .status (if (bindings.contents key).isSome then 1 else 0) ∧ Explained bindings trace

/-- The bindings that the commands leave. -/
def bindingsAfter (bindings : Bindings) (trace : List Event) : Bindings :=
  (run (meaning true) ((performedIn trace).map Prod.snd) bindings).1

variable {setting} {bindings : Bindings} {trace later : List Event} {entry : Nat}

theorem performedIn_append (trace later : List Event) : performedIn (trace ++ later) = performedIn trace ++ performedIn later :=
  List.filterMap_append

theorem dispatchedIn_append (trace later : List Event) :
    dispatchedIn (trace ++ later) = dispatchedIn trace ++ dispatchedIn later := List.filterMap_append

theorem bindingsAfter_append (bindings : Bindings) (trace later : List Event) :
    bindingsAfter bindings (trace ++ later) = bindingsAfter (bindingsAfter bindings trace) later := by
  unfold bindingsAfter
  rw [performedIn_append, List.map_append, run_append]

theorem explained_append : Explained bindings (trace ++ later) ↔
    Explained bindings trace ∧ Explained (bindingsAfter bindings trace) later := by
  induction trace generalizing bindings with
  | nil => exact ⟨fun holds => ⟨trivial, holds⟩, And.right⟩
  | cons event trace ih =>
    cases event with
    | dispatched event | notified entry pair => exact ih
    | performed entry command reply => exact (and_congr_right fun _ => ih).trans and_assoc.symm
    | answered key reply => exact (and_congr_right fun _ => ih).trans and_assoc.symm

/-! A call alone does what its command means. -/

section Calls
variable {command : JobCommand} {call : LockedCall} {memory : HashTable} {reply : Reply}

theorem hashed_of_keys {keys : List CString} (valid : ∀ key ∈ keys, Alphanumeric key) : ∀ key ∈ keys, Hashed key :=
  fun key member => hashed_of_alphanumeric (valid key member)

theorem call_meaning (made : tableCall command = some call) (valid : ∀ key ∈ command.keys, Alphanumeric key)
    (reached : Reached tableCode call bindings.table memory (.inr reply)) :
    memory = (meaning true command bindings).1.table ∧ fileBytes (some reply) = (meaning true command bindings).2.out ∧
      copied (some reply) = (meaning true command bindings).2.backups.map (fun kvsTable => (kvsTable.map traversal).getD []) ∧
      toNotify command reply = notices command := by
  have ran : some (some memory, reply) = runCall (some bindings.table) call.call := (reached_finish reached).1
  have hashed := hashed_of_keys valid
  cases command with
  | write pairs =>
    cases made
    have wrote := writePairs_table pairs bindings hashed
    simp only [LockedCall.call, runCall, kvsWrite, wrote, Option.map_some] at ran
    cases ran
    exact ⟨rfl, rfl, rfl, rfl⟩
  | read keys =>
    cases made
    have read := readPairs_table keys bindings hashed
    simp only [LockedCall.call, runCall, kvsRead, read, Option.map_some] at ran
    cases ran
    exact ⟨rfl, (answersText_lines bindings keys).symm, rfl, rfl⟩
  | delete keys =>
    cases made
    have deleted := deletePairs_table keys bindings false hashed
    simp only [LockedCall.call, runCall, kvsDelete, deleted, Option.map_some] at ran
    cases ran
    refine ⟨rfl, ?_, rfl, rfl⟩
    by_cases none : FiniteMap.missing bindings.contents keys = []
    · simp [fileBytes, meaning, deletion, FiniteMap.missingReport, none]
    · simp [fileBytes, meaning, deletion, FiniteMap.missingReport, none]
  | showAll | backup =>
    cases made
    cases ran
    exact ⟨rfl, rfl, rfl, rfl⟩
  | wait | help | empty | invalid => cases made

/-- The other commands leave the table and write nothing to the file. -/
theorem own_meaning (made : tableCall command = none) : (meaning true command bindings).1 = bindings ∧
    (meaning true command bindings).2.out = [] ∧ (meaning true command bindings).2.backups = [] := by
  cases command with
  | write | read | delete | showAll | backup => cases made
  | wait | help | empty | invalid => exact ⟨rfl, rfl, rfl⟩

theorem lookup_meaning {key : CString} (valid : Alphanumeric key)
    (reached : Reached tableCode (.kvsKeyExists key) bindings.table memory (.inr reply)) :
    memory = bindings.table ∧ reply = .status (if (bindings.contents key).isSome then 1 else 0) := by
  have ran : some (some memory, reply) = runCall (some bindings.table) (.kvsKeyExists key) := (reached_finish reached).1
  obtain ⟨index, inside⟩ := hashed_of_alphanumeric valid
  have found : find key (bindings.table.table index) = bindings.contents key := find_chainOf inside
  unfold bucket at inside
  simp only [runCall, kvsKeyExists, Option.bind_some, inside, Option.map_some, found] at ran
  cases ran
  exact ⟨rfl, rfl⟩

end Calls

/-! The steps of a run of whole calls. -/

/-- Where the thread stands in `get_file`. -/
def Pc.getFile : Pc → ThreadPc
  | .dispatch pc => pc
  | .running entry files _ | .notifying entry files _ _ => .runJob entry files
  | .session _ => .exited

/-- The entry of the job that the thread is in. -/
def Pc.job : Pc → Option Nat
  | .running entry _ _ | .notifying entry _ _ _ => some entry
  | .dispatch _ | .session _ => none

/-- The steps of a thread with what they change. -/
inductive Turns (setting : Setting) (pc : Pc) (shared : Shared) (memory : HashTable) :
    Pc → Shared → HashTable → List Event → Prop where
  | opened {entry files} : pc = .dispatch (.runJob entry files) →
      Turns setting pc shared memory (.running entry files (setting.contents files.inPath)) shared memory []
  | dispatched {next} : threadStep setting.directory shared pc.getFile = some next →
      (∀ entry files, pc.getFile = .runJob entry files → ∃ stream rest, pc = .running entry files stream ∧
        commands (setting.stack entry) stream = some ([], rest)) →
      Turns setting pc shared memory (.dispatch next.2) next.1 memory
        ((threadEvents setting.directory shared pc.getFile).map .dispatched)
  | kept {entry files stream command rest} : pc = .running entry files stream →
      nextCommand (setting.stack entry) stream = some (some command, rest) → tableCall command = none →
      Turns setting pc shared memory (.running entry files rest) shared memory [.performed entry command none]
  | called {entry files stream command rest call reply next} : pc = .running entry files stream →
      nextCommand (setting.stack entry) stream = some (some command, rest) → tableCall command = some call →
      Reached tableCode call memory next (.inr reply) →
      Turns setting pc shared memory (.notifying entry files rest (toNotify command reply)) shared next
        [.performed entry command (some reply)]
  | noticed {entry files stream pair pairs} : pc = .notifying entry files stream (pair :: pairs) →
      Turns setting pc shared memory (.notifying entry files stream pairs) shared memory [.notified entry pair]
  | resumed {entry files stream} : pc = .notifying entry files stream [] →
      Turns setting pc shared memory (.running entry files stream) shared memory []
  | answered {key keys reply next} : pc = .session (key :: keys) →
      Reached tableCode (.kvsKeyExists key) memory next (.inr reply) →
      Turns setting pc shared memory (.session keys) shared next [.answered key reply]

section Turns
variable {pc next : Pc} {shared shared' : Shared} {memory memory' : HashTable} {events : List Event}

theorem turns_of_dispatch (taken : dispatchStep setting pc.getFile shared = some (shared', next, events))
    (ended : ∀ entry files, pc.getFile = .runJob entry files → ∃ stream rest, pc = .running entry files stream ∧
      commands (setting.stack entry) stream = some ([], rest)) : Turns setting pc shared memory next shared' memory events := by
  obtain ⟨result, stepped, made⟩ := Option.map_eq_some_iff.mp taken
  cases made
  exact .dispatched stepped ended

theorem turns_of_own {step : Shared → Option (Shared × Pc × List Event)} (turn : program setting pc = .own step)
    (taken : step shared = some (shared', next, events)) : Turns setting pc shared memory next shared' memory events := by
  cases pc with
  | dispatch pc =>
    cases pc with
    | runJob entry files =>
      cases turn
      cases taken
      exact .opened rfl
    | lock | readdir | openInput | openOutput | failed | exited =>
      cases turn
      apply turns_of_dispatch taken
      intro entry files same
      cases same
  | running entry files stream =>
    simp only [program, jobTurn] at turn
    split at turn
    next =>
      cases turn
      cases taken
    next rest read =>
      cases turn
      apply turns_of_dispatch taken
      intro entry' files' same
      cases same
      exact ⟨stream, rest, rfl, commands_end read⟩
    next command rest read =>
      split at turn
      next => cases turn
      next made =>
        cases turn
        cases taken
        exact .kept rfl read made
  | notifying entry files stream pairs =>
    cases pairs with
    | nil =>
      cases turn
      cases taken
      exact .resumed rfl
    | cons pair pairs =>
      cases turn
      cases taken
      exact .noticed rfl
  | session keys =>
    cases keys with
    | nil =>
      cases turn
      cases taken
    | cons key keys => cases turn

theorem turns_of_call {call : LockedCall} {resume : Reply → Pc × List Event} {reply : Reply}
    (turn : program setting pc = .call call resume) (reached : Reached tableCode call memory memory' (.inr reply)) :
    Turns setting pc shared memory (resume reply).1 shared memory' (resume reply).2 := by
  cases pc with
  | dispatch pc => cases pc <;> cases turn
  | running entry files stream =>
    simp only [program, jobTurn] at turn
    split at turn
    next => cases turn
    next => cases turn
    next command rest read =>
      split at turn
      next call' made =>
        cases turn
        exact .called rfl read made reached
      next => cases turn
  | notifying entry files stream pairs => cases pairs <;> cases turn
  | session keys =>
    cases keys with
    | nil => cases turn
    | cons key keys =>
      cases turn
      exact .answered rfl reached

end Turns

end IstKvs.JobThreads
