import IstKvs.FiniteMap
import IstKvs.ListGrammar
import IstKvs.Library.SplitChains
import IstKvs.Library.CommandLogic

/-! What a job file means. The meaning of a command is given on one list of bindings,
without buckets and pointers: WRITE replaces a value or puts a binding in front, DELETE
takes one out, READ looks keys up. `run_job` on the bytes of a file computes that meaning,
and a logic with rules for each command derives exactly what is true of it. -/

namespace IstKvs.JobMeaning
open ChainedTable Kvs Operations JobParser RunJob FiniteMap CommandLogic ScriptRoundTrip ListGrammar

/-- The keys with their values, the newest key first. -/
structure Bindings where
  nodes : List KeyNode
  distinct : (nodes.map Node.key).Nodup

namespace Bindings

/-- The map that the bindings stand for. -/
def contents (bindings : Bindings) : Store := fun key => find key bindings.nodes

/-- The table that the bindings stand for. -/
def table (bindings : Bindings) : HashTable := ⟨chainOf bucket bindings.nodes⟩

def write (bindings : Bindings) (key value : CString) : Bindings where
  nodes := ChainedTable.write key value bindings.nodes
  distinct := by
    rcases write_keys key value bindings.nodes with same | ⟨more, fresh⟩
    · exact same ▸ bindings.distinct
    · exact more ▸ List.nodup_cons.mpr ⟨fresh, bindings.distinct⟩

def delete (bindings : Bindings) (key : CString) : Bindings where
  nodes := ChainedTable.delete key bindings.nodes
  distinct := ((delete_sublist key bindings.nodes).map Node.key).nodup bindings.distinct

def writeEach (bindings : Bindings) (pairs : List (CString × CString)) : Bindings :=
  pairs.foldl (fun bindings pair => bindings.write pair.1 pair.2) bindings

def deleteEach (bindings : Bindings) (keys : List CString) : Bindings := keys.foldl delete bindings

/-- The order of SHOW: bucket by bucket, and in a bucket the newest key first. -/
def inOrder (bindings : Bindings) : List KeyNode :=
  (List.finRange TABLE_SIZE).flatMap (chainOf bucket bindings.nodes)

/-- The bindings of a table, in the order of SHOW. -/
def ofTable (table : KeyTable) : Bindings where
  nodes := table.nodes (List.finRange TABLE_SIZE)
  distinct := table.nodes_keys_nodup (List.nodup_finRange TABLE_SIZE)

def keyTable (bindings : Bindings) : KeyTable where
  chains := chainOf bucket bindings.nodes
  placed := fun _ _ member => of_decide_eq_true (List.mem_filter.mp member).2
  distinct := fun _ => (List.filter_sublist.map Node.key).nodup bindings.distinct

end Bindings

instance : Monoid Effects where
  mul := Effects.append
  one := Effects.none
  mul_assoc first second third := by
    show (first.append second).append third = first.append (second.append third)
    simp only [Effects.append, List.append_assoc]
  one_mul effects := by
    show Effects.none.append effects = effects
    simp only [Effects.none, Effects.append, List.nil_append]
  mul_one effects := by
    show effects.append Effects.none = effects
    simp only [Effects.none, Effects.append, List.append_nil]

theorem out_mul (first second : Effects) : (first * second).out = first.out ++ second.out := rfl

/-- What a command writes to the output file. -/
def wrote (out : List UInt8) : Effects := { Effects.none with out := out }

/-- The calls of `notify_clients`. -/
def notified (pairs : List (CString × CString)) : Effects := { Effects.none with notified := pairs }

/-- What READ writes of its keys. -/
def answersText (answers : List (CString × Option CString)) : List UInt8 :=
  text "[" ++ answers.flatMap (fun answer => readLine answer.1 answer.2) ++ text "]\n"

/-- What DELETE writes of the keys that are missing, and notifies of all of its keys. -/
def deletion (keys lost : List CString) : Effects :=
  { Effects.none with out := missingReport lost, notified := keys.map fun key => (key, DELETED) }

def forked (bindings : Bindings) : Effects := { Effects.none with backups := [some bindings.table] }

def reported (stderr : List UInt8) : Effects := { Effects.none with stderr := stderr }

/-- What a command makes of the bindings, and what it writes and notifies. -/
def meaning (forks : Bool) : Semantics JobCommand Bindings Effects
  | .write pairs, bindings => (bindings.writeEach pairs, notified pairs)
  | .read keys, bindings => (bindings, wrote (answersText (keys.map fun key => (key, bindings.contents key))))
  | .delete keys, bindings => (bindings.deleteEach keys, deletion keys (missing bindings.contents keys))
  | .showAll, bindings => (bindings, wrote (bindings.inOrder.flatMap showLine))
  | .wait delay, bindings =>
      (bindings, Effects.printed (if 0 < delay then text s!"Waiting {delay / 1000} seconds\n" else []))
  | .backup, bindings => (bindings, if forks then forked bindings else reported (text "Failed to do backup\n"))
  | .help, bindings => (bindings, { Effects.none with stdout := helpText })
  | .empty, bindings => (bindings, 1)
  | .invalid, bindings => (bindings, reported invalidText)

/-- What a job goes on with from one command to the next. -/
structure JobState where
  bindings : Bindings
  fileBackups : Nat

/-- The commands in a job, which numbers its backups. -/
def inJob (forks : Nat → Bool) : Semantics JobCommand JobState Effects := fun command state =>
  let done := meaning (forks (state.fileBackups + 1)) command state.bindings
  (⟨done.1, command.backupsAfter state.fileBackups⟩, done.2)

/-! The store computes it. -/

section Store
variable {key : CString}

theorem table_ofTable (table : KeyTable) : (Bindings.ofTable table).table = KeyTable.raw table :=
  congrArg HashTable.mk (chainOf_nodes table (List.nodup_finRange TABLE_SIZE) List.mem_finRange)

theorem readPair_table (hashed : Hashed key) (bindings : Bindings) :
    readPair bindings.table key = some (bindings.contents key) := by
  obtain ⟨i, inside⟩ := hashed
  have found : find key (chainOf bucket bindings.nodes i) = bindings.contents key := find_chainOf inside
  unfold bucket at inside
  simp only [readPair, inside, Option.map_some, Bindings.table, found]

theorem writePair_table (hashed : Hashed key) (value : CString) (bindings : Bindings) :
    writePair bindings.table key value = some ((bindings.write key value).table, 0) := by
  obtain ⟨i, inside⟩ := hashed
  have chains : chainOf bucket (bindings.write key value).nodes = _ := chainOf_write inside value
  unfold bucket at inside
  simp only [writePair, inside, Option.map_some, Bindings.table, chains]
  rw [write]
  cases overwrite key value (chainOf bucket bindings.nodes i) <;> rfl

theorem deletePair_table (hashed : Hashed key) (bindings : Bindings) :
    deletePair bindings.table key =
      some ((bindings.delete key).table, if (bindings.contents key).isSome then 0 else 1) := by
  obtain ⟨i, inside⟩ := hashed
  have chains : chainOf bucket (bindings.delete key).nodes = _ := chainOf_delete inside
  have found : find key (chainOf bucket bindings.nodes i) = bindings.contents key := find_chainOf inside
  unfold bucket at inside
  simp only [deletePair, inside, Option.map_some, Bindings.table, chains]
  rw [delete, ← found]
  cases unlinked : unlink key (chainOf bucket bindings.nodes i) with
  | some chain =>
    rw [unlink_isSome_find unlinked]
    rfl
  | none =>
    rw [unlink_eq_none unlinked, Option.getD_none, Function.update_eq_self]
    rfl

theorem contents_write (bindings : Bindings) (key value : CString) :
    (bindings.write key value).contents = Function.update bindings.contents key (some value) := by
  funext other
  rw [Function.update_apply]
  exact find_write key other value bindings.nodes

theorem contents_delete (bindings : Bindings) (key : CString) :
    (bindings.delete key).contents = Function.update bindings.contents key none := by
  funext other
  rw [Function.update_apply]
  exact find_delete bindings.distinct key other

theorem contents_writeEach (bindings : Bindings) (pairs : List (CString × CString)) :
    (bindings.writeEach pairs).contents = specWrite bindings.contents pairs := by
  induction pairs generalizing bindings with
  | nil => rfl
  | cons pair pairs ih => exact (ih (bindings.write pair.1 pair.2)).trans (by rw [contents_write]; rfl)

theorem contents_deleteEach (bindings : Bindings) (keys : List CString) :
    (bindings.deleteEach keys).contents = specDelete bindings.contents keys := by
  induction keys generalizing bindings with
  | nil => rfl
  | cons key keys ih => exact (ih (bindings.delete key)).trans (by rw [contents_delete]; rfl)

end Store

/-! The calls of `operations.c`. -/

section Calls
variable {bindings : Bindings}

theorem writePairs_table (pairs : List (CString × CString)) (bindings : Bindings)
    (valid : ∀ key ∈ pairs.map Prod.fst, Hashed key) :
    writePairs bindings.table pairs = some ((bindings.writeEach pairs).table, []) := by
  induction pairs generalizing bindings with
  | nil => rfl
  | cons pair pairs ih =>
    obtain ⟨hashed, valid'⟩ := List.forall_mem_cons.mp valid
    have later := ih (bindings.write pair.1 pair.2) valid'
    simp only [writePairs, writePair_table hashed, Option.bind_eq_bind, Option.bind_some, later, ne_eq,
      not_true_eq_false, ↓reduceIte, List.nil_append]
    rfl

theorem readPairs_table (keys : List CString) (bindings : Bindings) (valid : ∀ key ∈ keys, Hashed key) :
    readPairs bindings.table keys = some (keys.flatMap fun key => readLine key (bindings.contents key)) := by
  induction keys with
  | nil => rfl
  | cons key keys ih =>
    obtain ⟨hashed, valid'⟩ := List.forall_mem_cons.mp valid
    simp only [readPairs, readPair_table hashed, ih valid', Option.bind_eq_bind, Option.bind_some, List.flatMap_cons]

theorem deletePairs_table (keys : List CString) (bindings : Bindings) (aux : Bool) (valid : ∀ key ∈ keys, Hashed key) :
    deletePairs bindings.table aux keys =
      some ((bindings.deleteEach keys).table, aux || !(missing bindings.contents keys).isEmpty,
        (if aux || (missing bindings.contents keys).isEmpty then [] else text "[") ++
          (missing bindings.contents keys).flatMap missingLine) := by
  induction keys generalizing bindings aux with
  | nil => simp [deletePairs, missing, Bindings.deleteEach]
  | cons key keys ih =>
    obtain ⟨hashed, valid'⟩ := List.forall_mem_cons.mp valid
    have later := fun aux => ih (bindings.delete key) aux valid'
    rw [contents_delete] at later
    have first := deletePair_table hashed bindings
    by_cases bound : (bindings.contents key).isSome = true
    · rw [if_pos bound] at first
      simp only [deletePairs, first, later, missing, bound, ↓reduceIte, Option.bind_eq_bind, Option.bind_some, ne_eq,
        not_true_eq_false, List.nil_append]
      rfl
    · rw [if_neg bound] at first
      simp [deletePairs, first, later, missing, bound, Bindings.deleteEach]

theorem answersText_lines (bindings : Bindings) (keys : List CString) :
    answersText (keys.map fun key => (key, bindings.contents key)) =
      text "[" ++ keys.flatMap (fun key => readLine key (bindings.contents key)) ++ text "]\n" := by
  rw [answersText, List.flatMap_map]

/-- A command does to the table what it means for the bindings. -/
theorem perform_table (forks : Bool) (bindings : Bindings) (command : JobCommand) (valid : ∀ key ∈ command.keys, Hashed key) :
    perform forks (some bindings.table) command =
      some (some (meaning forks command bindings).1.table, (meaning forks command bindings).2) := by
  cases command with
  | write pairs =>
    have written := writePairs_table pairs bindings valid
    simp only [perform, kvsWrite, written, Option.map_some, ne_eq, not_true_eq_false, ↓reduceIte]
    rfl
  | read keys =>
    have read := readPairs_table keys bindings valid
    simp only [perform, kvsRead, read, Option.map_some, ne_eq, not_true_eq_false, ↓reduceIte, meaning, answersText_lines]
    rfl
  | delete keys =>
    have deleted := deletePairs_table keys bindings false valid
    simp only [perform, kvsDelete, deleted, Option.map_some, ne_eq, not_true_eq_false, ↓reduceIte]
    by_cases none : missing bindings.contents keys = []
    · simp [meaning, deletion, missingReport, none, Effects.notifying, Effects.none]
    · simp [meaning, deletion, missingReport, none, Effects.notifying, Effects.none]
  | backup => cases forks <;> rfl
  | showAll | wait | help | empty | invalid => rfl

/-- The commands one after the other, and the line at the end of the file. -/
theorem performAll_table (forks : Nat → Bool) (script : List JobCommand) (state : JobState)
    (valid : ∀ command ∈ script, ∀ key ∈ command.keys, Hashed key) :
    performAll forks state.fileBackups (some state.bindings.table) script =
      some (some (run (inJob forks) script state).1.bindings.table,
        (run (inJob forks) script state).2 * Effects.printed (text "EOF\n")) := by
  induction script generalizing state with
  | nil =>
    rw [performAll, run, one_mul]
  | cons command script ih =>
    obtain ⟨here, valid'⟩ := List.forall_mem_cons.mp valid
    have later := ih (inJob forks command state).1 valid'
    have first := perform_table (forks (state.fileBackups + 1)) state.bindings command here
    simp only [inJob] at later
    simp only [performAll, first, Option.bind_eq_bind, Option.bind_some, later]
    rw [run_cons, mul_assoc]
    rfl

/-- The outcome of a fork changes neither the bindings nor the output file. -/
theorem run_inJob (forks : Nat → Bool) (script : List JobCommand) (state : JobState) :
    (run (inJob forks) script state).1.bindings = (run (meaning true) script state.bindings).1 ∧
      (run (inJob forks) script state).2.out = (run (meaning true) script state.bindings).2.out := by
  induction script generalizing state with
  | nil => exact ⟨rfl, rfl⟩
  | cons command script ih =>
    have first (forks : Bool) : (meaning forks command state.bindings).1 = (meaning true command state.bindings).1 ∧
        (meaning forks command state.bindings).2.out = (meaning true command state.bindings).2.out := by
      cases command with
      | backup => cases forks <;> exact ⟨rfl, rfl⟩
      | write | read | delete | showAll | wait | help | empty | invalid => exact ⟨rfl, rfl⟩
    obtain ⟨left, shown⟩ := ih (inJob forks command state).1
    obtain ⟨left', shown'⟩ := first (forks (state.fileBackups + 1))
    rw [run_cons, run_cons, out_mul, out_mul, left, shown]
    simp only [inJob, left', shown']
    exact ⟨trivial, trivial⟩

end Calls

/-! Files. -/

section Files
variable {stack : Nat → UInt8} {file rest : List UInt8} {script : List JobCommand}

theorem runJob_table (forks : Nat → Bool) (bindings : Bindings) (read : commands stack file = some (script, rest))
    (valid : ∀ command ∈ script, ∀ key ∈ command.keys, Hashed key) :
    runJob stack forks (some bindings.table) file =
      some (some (run (inJob forks) script ⟨bindings, 0⟩).1.bindings.table,
        (run (inJob forks) script ⟨bindings, 0⟩).2 * Effects.printed (text "EOF\n")) := by
  rw [runJob_eq, read, Option.bind_some]
  exact performAll_table forks script ⟨bindings, 0⟩ valid

/-- `run_job` computes the meaning of the commands that it reads, on the bindings of any
table: the same bytes, notifications and backups, and a table of the bindings behind them. -/
theorem job_meaning (forks : Nat → Bool) (table : KeyTable) (read : commands stack file = some (script, rest))
    (valid : ∀ command ∈ script, ∀ key ∈ command.keys, Hashed key) :
    runJob stack forks (some (KeyTable.raw table)) file =
      some (some (run (inJob forks) script ⟨Bindings.ofTable table, 0⟩).1.bindings.table,
        (run (inJob forks) script ⟨Bindings.ofTable table, 0⟩).2 * Effects.printed (text "EOF\n")) := by
  rw [← table_ofTable]
  exact runJob_table forks _ read valid

theorem item_b : Item [98] := by decide

theorem noNul_b : (0 : UInt8) ∉ [98] := by decide

def keyB : Token := ⟨⟨[98], noNul_b⟩, item_b.1, item_b.2⟩

theorem three_fit : 3 < MAX_WRITE_SIZE := by decide

theorem one_fits : 1 < MAX_WRITE_SIZE := by decide

/-- A key is written twice in one batch, read, and deleted between two backups. -/
def shortJob : List Line :=
  [.write ⟨(keyA, keyA), [(keyB, keyB), (keyA, keyB)], three_fit⟩, .read ⟨keyA, [], one_fits⟩,
    .backup, .delete ⟨keyA, [], one_fits⟩, .backup, .showAll]

theorem shortJob_hashed : ∀ line ∈ shortJob, ∀ key ∈ line.command.keys, Hashed key := by
  have alphanumeric : ∀ line ∈ shortJob, ∀ key ∈ line.command.keys, Alphanumeric key := by decide
  exact fun line member key named => hashed_of_alphanumeric (alphanumeric line member key named)

/-- The second of its backups does not come to a fork. -/
def secondFails (number : Nat) : Bool := number ≠ 2

theorem job_meaning_of_shortJob :
    runJob (fun _ => 0) secondFails (some (KeyTable.raw (Table.empty CString bucket))) (shortJob.flatMap render) =
      some (some (run (inJob secondFails) (shortJob.map Line.command)
          ⟨Bindings.ofTable (Table.empty CString bucket), 0⟩).1.bindings.table,
        (run (inJob secondFails) (shortJob.map Line.command) ⟨Bindings.ofTable (Table.empty CString bucket), 0⟩).2 *
          Effects.printed (text "EOF\n")) :=
  job_meaning secondFails (Table.empty CString bucket) (commands_render _ shortJob)
    (List.forall_mem_map.mpr shortJob_hashed)

/-! What a key holds. -/

/-- What a command gives a key: `some none` where it deletes it. -/
def sets : JobCommand → CString → Option (Option CString)
  | .write pairs, key => (pairs.reverse.find? fun pair => pair.1 = key).map fun pair => some pair.2
  | .delete keys, key => if key ∈ keys then some none else none
  | _, _ => none

theorem specWrite_find (store : Store) (pairs : List (CString × CString)) (key : CString) :
    specWrite store pairs key =
      ((pairs.reverse.find? fun pair => pair.1 = key).map fun pair => some pair.2).getD (store key) := by
  induction pairs generalizing store with
  | nil => rfl
  | cons pair pairs ih =>
    have later : specWrite store (pair :: pairs) key = _ := ih (Function.update store pair.1 (some pair.2))
    rw [later, List.reverse_cons, List.find?_append]
    cases pairs.reverse.find? fun pair => pair.1 = key with
    | some found => rfl
    | none =>
      by_cases own : pair.1 = key
      · subst own
        simp
      · simp [own, Ne.symm own]

theorem meaning_sets (forks : Bool) : Sets (meaning forks) Bindings.contents sets := by
  intro command bindings key
  cases command with
  | write pairs =>
    show (bindings.writeEach pairs).contents key = _
    rw [contents_writeEach, specWrite_find]
    rfl
  | delete keys =>
    show (bindings.deleteEach keys).contents key = (if key ∈ keys then some none else none).getD _
    rw [contents_deleteEach, specDelete_apply]
    split_ifs <;> rfl
  | read | showAll | wait | backup | help | empty | invalid => rfl

theorem contents_ofTable (table : KeyTable) : (Bindings.ofTable table).contents = table.contents := by
  have chains := chainOf_nodes table (List.nodup_finRange TABLE_SIZE) List.mem_finRange
  funext key
  cases inside : bucket key with
  | some i =>
    rw [table.contents_of_bucket inside, ← chains]
    exact (find_chainOf inside).symm
  | none =>
    have nowhere : table.contents key = none := by rw [Table.contents, inside, Option.bind_none]
    rw [nowhere]
    apply find_eq_none_iff.mpr
    intro member
    obtain ⟨node, visited, same⟩ := List.mem_map.mp member
    have held := (table.mem_nodes_iff List.mem_finRange).mp visited
    rw [same, nowhere] at held
    cases held

/-- In any job a READ prints for each key what the last WRITE or DELETE before it gave the
key, or else what the table held, and so the table answers behind the job. -/
theorem reads_last_write (forks : Nat → Bool) (table : KeyTable) {before later : List JobCommand} {keys : List CString}
    (read : commands stack file = some (before ++ .read keys :: later, rest))
    (valid : ∀ command ∈ before ++ .read keys :: later, ∀ key ∈ command.keys, Hashed key) :
    ∃ last effects, runJob stack forks (some (KeyTable.raw table)) file = some (some last, effects) ∧
      (∃ tail, effects.out = (run (inJob forks) before ⟨Bindings.ofTable table, 0⟩).2.out ++ (text "[" ++
        keys.flatMap (fun key => readLine key ((lastSet sets key before).getD (table.contents key))) ++ text "]\n") ++ tail) ∧
      ∀ key, Hashed key → readPair last key =
        some ((lastSet sets key (before ++ .read keys :: later)).getD (table.contents key)) := by
  have behind (script : List JobCommand) (key : CString) :
      (run (inJob forks) script ⟨Bindings.ofTable table, 0⟩).1.bindings.contents key = _ :=
    (congrArg (Bindings.contents · key) (run_inJob forks script ⟨Bindings.ofTable table, 0⟩).1).trans
      (lookup_run (meaning_sets true) script (Bindings.ofTable table) key)
  rw [contents_ofTable] at behind
  rw [← table_ofTable]
  refine ⟨_, _, runJob_table forks _ read valid, ?_, fun key hashed => ?_⟩
  · rw [run_append, run_cons]
    refine ⟨(run (inJob forks) later
      (inJob forks (.read keys) (run (inJob forks) before ⟨Bindings.ofTable table, 0⟩).1).1).2.out, ?_⟩
    simp only [← behind before, ← answersText_lines]
    rw [out_mul, out_mul, out_mul]
    exact (List.append_nil _).trans (List.append_assoc ..).symm
  · rw [readPair_table hashed, behind]

theorem reads_last_write_of_shortJob : ∃ last effects,
    runJob (fun _ => 0) secondFails (some (KeyTable.raw (Table.empty CString bucket))) (shortJob.flatMap render) =
        some (some last, effects) ∧
      (∃ tail, effects.out = text "[(a,b)]\n" ++ tail) ∧ readPair last keyA.text = some none := by
  have valid : ∀ command ∈ shortJob.map Line.command, ∀ key ∈ command.keys, Hashed key :=
    List.forall_mem_map.mpr shortJob_hashed
  obtain ⟨last, effects, ran, ⟨tail, printed⟩, holds⟩ := @reads_last_write (fun _ => 0) _ _ secondFails
    (Table.empty CString bucket)
    [.write [(keyA.text, keyA.text), (keyB.text, keyB.text), (keyA.text, keyB.text)]]
    [.backup, .delete [keyA.text], .backup, .showAll]
    [keyA.text] (commands_render _ shortJob) valid
  refine ⟨last, effects, ran, ⟨tail, printed⟩, ?_⟩
  exact holds keyA.text (shortJob_hashed _ (List.mem_cons_of_mem _ List.mem_cons_self) _ List.mem_cons_self)

end Files

/-! Rules. -/

section Rules
variable {forks : Nat → Bool}

/-- What is known of the commands of a job: a WRITE is gone through pair by pair, a READ by
what its keys are known to hold, a DELETE by what is known to be missing. -/
inductive JobRule (forks : Nat → Bool) : Assertion JobState Effects → JobCommand → Assertion JobState Effects → Prop where
  | written {post} : JobRule forks post (.write []) post
  | write {middle post pairs} (key value : CString) (later : JobRule forks middle (.write pairs) post) :
      JobRule forks (fun state output =>
          middle { state with bindings := state.bindings.write key value } (output * notified [(key, value)]))
        (.write ((key, value) :: pairs)) post
  | read {post} (answers : List (CString × Option CString)) :
      JobRule forks (fun state output => (∀ answer ∈ answers, state.bindings.contents answer.1 = answer.2) ∧
          post state (output * wrote (answersText answers)))
        (.read (answers.map Prod.fst)) post
  | delete {post} (keys lost : List CString) :
      JobRule forks (fun state output => missing state.bindings.contents keys = lost ∧
          post { state with bindings := state.bindings.deleteEach keys } (output * deletion keys lost))
        (.delete keys) post
  | showAll {post} (nodes : List KeyNode) :
      JobRule forks (fun state output => state.bindings.inOrder = nodes ∧
          post state (output * wrote (nodes.flatMap showLine)))
        .showAll post
  | waitNone {post} : JobRule forks post (.wait 0) post
  | wait {post} (delay : Nat) (some : 0 < delay) :
      JobRule forks (fun state output => post state (output * Effects.printed (text s!"Waiting {delay / 1000} seconds\n")))
        (.wait delay) post
  | backup {post} :
      JobRule forks (fun state output => forks (state.fileBackups + 1) = true ∧
          post { state with fileBackups := state.fileBackups + 1 } (output * forked state.bindings))
        .backup post
  | backupFails {post} :
      JobRule forks (fun state output => forks (state.fileBackups + 1) = false ∧
          post { state with fileBackups := state.fileBackups + 1 } (output * reported (text "Failed to do backup\n")))
        .backup post
  | help {post} :
      JobRule forks (fun state output => post state (output * { Effects.none with stdout := helpText })) .help post
  | empty {post} : JobRule forks post .empty post
  | invalid {post} : JobRule forks (fun state output => post state (output * reported invalidText)) .invalid post

theorem jobRule_sound : Sound (inJob forks) (JobRule forks) := by
  intro pre command post known
  rw [valid_single]
  induction known with
  | written | waitNone | empty =>
    intro state output holds
    rw [← mul_one output] at holds
    exact holds
  | write key value later ih =>
    intro state output holds
    have reached := ih _ _ holds
    rw [before, mul_assoc] at reached
    exact reached
  | read answers =>
    intro state output ⟨known, holds⟩
    have same : (answers.map Prod.fst).map (fun key => (key, state.bindings.contents key)) = answers := by
      have each : ∀ answer ∈ answers, (answer.1, state.bindings.contents answer.1) = id answer :=
        fun answer member => Prod.ext rfl (known answer member)
      rw [List.map_map]
      exact (List.map_congr_left each).trans (List.map_id answers)
    simp only [before, inJob, meaning, same]
    exact holds
  | delete keys lost =>
    intro state output ⟨known, holds⟩
    simp only [before, inJob, meaning, known]
    exact holds
  | showAll nodes =>
    intro state output ⟨known, holds⟩
    simp only [before, inJob, meaning, known]
    exact holds
  | wait delay some =>
    intro state output holds
    simp only [before, inJob, meaning, if_pos some]
    exact holds
  | backup | backupFails =>
    intro state output ⟨known, holds⟩
    simp only [before, inJob, meaning, known]
    exact holds
  | help | invalid => exact fun state output holds => holds

theorem jobRule_write (pairs : List (CString × CString)) (post : Assertion JobState Effects) :
    ∃ pre, JobRule forks pre (.write pairs) post ∧
      ∀ state output, before (inJob forks) (.write pairs) post state output → pre state output := by
  induction pairs with
  | nil => exact ⟨post, .written, fun state output holds => (mul_one output) ▸ holds⟩
  | cons pair pairs ih =>
    obtain ⟨middle, later, enough⟩ := ih
    refine ⟨_, .write pair.1 pair.2 later, fun state output holds => ?_⟩
    apply enough
    rw [before, mul_assoc]
    exact holds

theorem jobRule_enough : Enough (inJob forks) (JobRule forks) := by
  intro command post
  cases command with
  | write pairs =>
    obtain ⟨pre, known, enough⟩ := jobRule_write pairs post
    exact .weaken enough (.command known) fun _ _ => id
  | read keys =>
    -- the cases are what the keys may hold
    have known (store : Store) := Derives.command (@JobRule.read forks post (keys.map fun key => (key, store key)))
    simp only [List.map_map, Function.comp_def, List.map_id'] at known
    refine .weaken (fun state output holds => ⟨state.bindings.contents, ?_, holds⟩) (.cases known) fun _ _ => id
    exact List.forall_mem_map.mpr fun key _ => rfl
  | delete keys =>
    exact .weaken (fun state output holds => ⟨_, rfl, holds⟩) (.cases fun lost => .command (.delete keys lost)) fun _ _ => id
  | showAll =>
    exact .weaken (fun state output holds => ⟨_, rfl, holds⟩) (.cases fun nodes => .command (.showAll nodes)) fun _ _ => id
  | wait delay =>
    rcases Nat.eq_zero_or_pos delay with none | some
    · subst none
      exact .weaken (fun state output holds => mul_one output ▸ holds) (.command .waitNone) fun _ _ => id
    · refine .weaken (fun state output holds => ?_) (.command (.wait delay some)) fun _ _ => id
      simp only [before, inJob, meaning, if_pos some] at holds
      exact holds
  | backup =>
    have known : ∀ succeeds : Bool, Derives (JobRule forks) (fun state output =>
        forks (state.fileBackups + 1) = succeeds ∧ before (inJob forks) .backup post state output) [.backup] post := by
      intro succeeds
      cases succeeds with
      | true =>
        refine .weaken (fun state output holds => ⟨holds.1, ?_⟩) (.command .backup) fun _ _ => id
        have holds' := holds.2
        simp only [before, inJob, meaning, holds.1] at holds'
        exact holds'
      | false =>
        refine .weaken (fun state output holds => ⟨holds.1, ?_⟩) (.command .backupFails) fun _ _ => id
        have holds' := holds.2
        simp only [before, inJob, meaning, holds.1] at holds'
        exact holds'
    exact .weaken (fun state output holds => ⟨_, rfl, holds⟩) (.cases known) fun _ _ => id
  | help => exact .command .help
  | empty => exact .weaken (fun state output holds => mul_one output ▸ holds) (.command .empty) fun _ _ => id
  | invalid => exact .command .invalid

theorem effects_cancel {first second last : Effects} (same : first * last = second * last) : first = second := by
  have out : first.out = second.out := List.append_cancel_right (congrArg Effects.out same)
  have stdout : first.stdout = second.stdout := List.append_cancel_right (congrArg Effects.stdout same)
  have stderr : first.stderr = second.stderr := List.append_cancel_right (congrArg Effects.stderr same)
  have stdio : first.stdio = second.stdio := List.append_cancel_right (congrArg Effects.stdio same)
  have notified : first.notified = second.notified := List.append_cancel_right (congrArg Effects.notified same)
  have backups : first.backups = second.backups := List.append_cancel_right (congrArg Effects.backups same)
  calc
    first = ⟨first.out, first.stdout, first.stderr, first.stdio, first.notified, first.backups⟩ := rfl
    _ = second := by rw [out, stdout, stderr, stdio, notified, backups]

theorem deleted_derived : Derives (JobRule forks) (fun state _ => state.fileBackups = 0 ∧ True) (shortJob.map Line.command)
    (fun state _ => readPair state.bindings.table keyA.text = some none) := by
  have hashed := shortJob_hashed _ (List.mem_cons_of_mem _ List.mem_cons_self) keyA.text List.mem_cons_self
  apply (derives_weakest jobRule_enough (shortJob.map Line.command) _).weaken (fun state output _ => ?_) fun _ _ => id
  show readPair (Bindings.delete _ keyA.text).table keyA.text = some none
  rw [readPair_table hashed, contents_delete, Function.update_self]

end Rules

end IstKvs.JobMeaning
