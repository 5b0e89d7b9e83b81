import IstKvs.JobCompletion
import IstKvs.BackupProgress

/-! All that a job thread may wait for. A BACKUP waits for its turn at the counter, and there
perhaps for a child; `notify_clients` waits where the pipe of a client is full, until the
client reads. Together with the mutex of the directory and the lock of the table, none of
this holds a thread up for ever. -/

namespace IstKvs.ServerProgress
open LabelledRuns ThreadPool ReadWriteLock AtomicCalls ChainedTable
open Kvs Operations StoreMemory TableLock RunJob JobDispatch JobThreads JobSerial

abbrev Jobs (maxThreads : Nat) (Session : Type) : Type :=
  AtomicCalls.State (Fin maxThreads ⊕ Session) LockedCall HashTable Stage Reply Shared Pc

/-- The threads, the counter of the backups with the children, the messages that a call of
`notify_clients` is still to write, and those that lie in the pipes of the clients. -/
structure State (maxThreads slots : Nat) (Session : Type) where
  jobs : Jobs maxThreads Session
  backups : BackupLimit.State maxThreads
  toWrite : Fin maxThreads → List (Fin slots)
  unread : Fin slots → Nat

/-- A step of the threads, which tells some slots where it begins a call of `notify_clients`;
a step at the counter or of a child; a message that is written to a pipe, or read. -/
inductive Action (maxThreads slots : Nat) (Session : Type) where
  | job (action : AtomicCalls.Action (Fin maxThreads ⊕ Session)) (told : List (Fin slots))
  | backup (action : BackupLimit.Action maxThreads)
  | write (worker : Fin maxThreads)
  | read (slot : Fin slots)

variable {maxThreads slots : Nat} {Session : Type} [DecidableEq Session]
  (setting : Setting) (maxBackups : Nat) (capacity : Fin slots → Nat)

/-- The next command of the job is BACKUP. -/
def atBackup : Pc → Bool
  | .running entry _ stream =>
      match nextCommand (setting.stack entry) stream with
      | some (some .backup, _) => true
      | some (some _, _) | some (none, _) | none => false
  | .dispatch _ | .notifying _ _ _ _ | .session _ => false

/-- The thread comes to a call of `notify_clients`. -/
def atNotice : Pc → Bool
  | .notifying _ _ _ (_ :: _) => true
  | .notifying _ _ _ [] | .running _ _ _ | .dispatch _ | .session _ => false

def isOutside : Phase LockedCall Stage Reply → Bool
  | .outside => true
  | .waiting _ | .inside _ _ | .finished _ _ => false

def isFinished : Phase LockedCall Stage Reply → Bool
  | .finished _ _ => true
  | .outside | .waiting _ | .inside _ _ => false

namespace State
variable (state : State maxThreads slots Session)

/-- A thread goes on when its writes have returned. It calls `kvs_backup` when it is past
the counter, and returns from it when it has forked. -/
def jobMay : AtomicCalls.Action (Fin maxThreads ⊕ Session) → Prop
  | .own (.inl worker) => state.toWrite worker = []
  | .request (.inl worker) =>
      atBackup setting (state.jobs.locals (.inl worker)) = true → state.backups.threads worker = .fork
  | .release (.inl worker) =>
      atBackup setting (state.jobs.locals (.inl worker)) = true → state.backups.threads worker = .idle
  | .own (.inr _) | .request (.inr _) | .release (.inr _) | .acquire _ | .work _ => True

/-- A thread comes to the counter before it calls `kvs_backup`, and forks inside of it. -/
def backupMay : BackupLimit.Action maxThreads → Prop
  | .backup worker => atBackup setting (state.jobs.locals (.inl worker)) = true ∧
      isOutside (state.jobs.lock.pool (.inl worker)) = true
  | .thread worker _ => state.backups.threads worker = .fork → isFinished (state.jobs.lock.pool (.inl worker)) = true
  | .exit => True

instance (action : AtomicCalls.Action (Fin maxThreads ⊕ Session)) : Decidable (state.jobMay setting action) :=
  match action with
  | .own (.inl worker) => inferInstanceAs (Decidable (state.toWrite worker = []))
  | .request (.inl _) | .release (.inl _) => inferInstanceAs (Decidable (_ → _ = _))
  | .own (.inr _) | .request (.inr _) | .release (.inr _) | .acquire _ | .work _ => isTrue trivial

instance (action : BackupLimit.Action maxThreads) : Decidable (state.backupMay setting action) :=
  match action with
  | .backup _ => inferInstanceAs (Decidable (_ ∧ _))
  | .thread _ _ => inferInstanceAs (Decidable (_ → _))
  | .exit => isTrue trivial

/-- The messages to write behind the step. -/
def writesAfter (told : List (Fin slots)) : AtomicCalls.Action (Fin maxThreads ⊕ Session) → Fin maxThreads → List (Fin slots)
  | .own (.inl worker) =>
      if atNotice (state.jobs.locals (.inl worker)) then Function.update state.toWrite worker told else state.toWrite
  | .own (.inr _) | .request _ | .acquire _ | .work _ | .release _ => state.toWrite

end State

def step (state : State maxThreads slots Session) : Action maxThreads slots Session → Option (State maxThreads slots Session)
  | .job action told =>
      if state.jobMay setting action then
        (AtomicCalls.step tableCode (program setting) state.jobs action).map fun jobs =>
          { state with jobs := jobs, toWrite := state.writesAfter told action }
      else none
  | .backup action =>
      if state.backupMay setting action then
        (BackupLimit.step maxBackups state.backups action).map fun backups => { state with backups := backups }
      else none
  | .write worker =>
      match state.toWrite worker with
      | [] => none
      | slot :: slots =>
          if state.unread slot < capacity slot then
            some { state with
              toWrite := Function.update state.toWrite worker slots
              unread := Function.update state.unread slot (state.unread slot + 1) }
          else none
  | .read slot =>
      if 0 < state.unread slot then
        some { state with unread := Function.update state.unread slot (state.unread slot - 1) }
      else none

/-- What the threads of a run do and tell, as they do by themselves. -/
def machine : Machine (State maxThreads slots Session) (Action maxThreads slots Session) JobThreads.Event where
  step := step setting maxBackups capacity
  observe := fun state action => match action with
    | .job action _ => AtomicCalls.observe (program setting) state.jobs action
    | .backup _ | .write _ | .read _ => []

def initial (table : KeyTable) (lookups : Session → List CString) : State maxThreads slots Session :=
  ⟨AtomicCalls.initial (start maxThreads table lookups), BackupLimit.initial maxThreads, fun _ => [], fun _ => 0⟩

/-! What a step does. -/

inductive Moves (state : State maxThreads slots Session) :
    Action maxThreads slots Session → State maxThreads slots Session → Prop where
  | job {action told jobs} : state.jobMay setting action →
      AtomicCalls.step tableCode (program setting) state.jobs action = some jobs →
      Moves state (.job action told) { state with jobs := jobs, toWrite := state.writesAfter told action }
  | backup {action backups} : state.backupMay setting action →
      BackupLimit.step maxBackups state.backups action = some backups →
      Moves state (.backup action) { state with backups := backups }
  | write {worker slot slots} : state.toWrite worker = slot :: slots → state.unread slot < capacity slot →
      Moves state (.write worker) { state with
        toWrite := Function.update state.toWrite worker slots
        unread := Function.update state.unread slot (state.unread slot + 1) }
  | read {slot} : 0 < state.unread slot →
      Moves state (.read slot) { state with unread := Function.update state.unread slot (state.unread slot - 1) }

section Steps
variable {setting maxBackups capacity} {state next : State maxThreads slots Session}
  {action : Action maxThreads slots Session}

theorem moves_of_step (taken : step setting maxBackups capacity state action = some next) :
    Moves setting maxBackups capacity state action next := by
  cases action with
  | job action told =>
    simp only [step] at taken
    split_ifs at taken with may
    obtain ⟨jobs, stepped, made⟩ := Option.map_eq_some_iff.mp taken
    subst made
    exact .job may stepped
  | backup action =>
    simp only [step] at taken
    split_ifs at taken with may
    obtain ⟨backups, stepped, made⟩ := Option.map_eq_some_iff.mp taken
    subst made
    exact .backup may stepped
  | write worker =>
    simp only [step] at taken
    split at taken
    next => cases taken
    next slot slots first =>
      split_ifs at taken with room
      cases taken
      exact .write first room
  | read slot =>
    simp only [step] at taken
    split_ifs at taken with some
    cases taken
    exact .read some

/-- Seen by the threads alone, a run of the whole is a run of theirs. -/
theorem jobs_run {table : KeyTable} {lookups : Session → List CString} {trace : List JobThreads.Event}
    (run : Run (machine setting maxBackups capacity) Always (initial table lookups) trace state) :
    Run (AtomicCalls.machine tableCode (program setting)) Always (AtomicCalls.initial (start maxThreads table lookups))
      trace state.jobs := by
  apply run.induct fun trace (state : State maxThreads slots Session) =>
    Run (AtomicCalls.machine tableCode (program setting)) Always (AtomicCalls.initial (start maxThreads table lookups))
      trace state.jobs
  · exact .refl
  · intro trace state action next ran _ taken
    cases moves_of_step taken with
    | job _ stepped => exact .tail ran trivial stepped
    | backup | write | read =>
      rw [machine, List.append_nil]
      exact ran

/-- At the counter it is one of BACKUPs. -/
theorem backups_run {table : KeyTable} {lookups : Session → List CString} {trace : List JobThreads.Event}
    (run : Run (machine setting maxBackups capacity) Always (initial table lookups) trace state) :
    ∃ reports, Run (BackupLimit.machine maxBackups maxThreads) Always (BackupLimit.initial maxThreads)
      reports state.backups := by
  apply run.induct fun _ (state : State maxThreads slots Session) => ∃ reports,
    Run (BackupLimit.machine maxBackups maxThreads) Always (BackupLimit.initial maxThreads) reports state.backups
  · exact ⟨[], .refl⟩
  · rintro trace state action next ⟨reports, ran⟩ _ taken
    cases moves_of_step taken with
    | backup _ stepped => exact ⟨_, .tail ran trivial stepped⟩
    | job | write | read => exact ⟨reports, ran⟩

end Steps

/-! Between two steps of the threads only so much can happen. -/

/-- The steps that a thread can still take at the counter. -/
def waitRank : BackupLimit.ThreadPc × Bool → Nat
  | (.idle, ready) => if ready then 7 else 0
  | (pc, _) => BackupProgress.rank pc

/-- The thread is to come to the counter. -/
def ready (jobs : Jobs maxThreads Session) (worker : Fin maxThreads) : Bool :=
  atBackup setting (jobs.locals (.inl worker)) && isOutside (jobs.lock.pool (.inl worker))

def standing (state : State maxThreads slots Session) (worker : Fin maxThreads) : BackupLimit.ThreadPc × Bool :=
  (state.backups.threads worker, ready setting state.jobs worker)

def measure (state : State maxThreads slots Session) : Nat :=
  total waitRank (standing setting state) + state.backups.shared.running +
    (2 * total List.length state.toWrite + total id state.unread)

section Measure
variable {setting maxBackups capacity} {state next : State maxThreads slots Session}
  {action : Action maxThreads slots Session}

omit [DecidableEq Session] in
theorem standing_withThread (worker : Fin maxThreads) (shared : BackupLimit.Shared) (pc : BackupLimit.ThreadPc) :
    standing setting { state with backups := state.backups.withThread worker (shared, pc) } =
      Function.update (standing setting state) worker (pc, ready setting state.jobs worker) := by
  funext other
  by_cases same : other = worker
  · subst same
    simp [standing, BackupLimit.State.withThread]
  · simp [standing, BackupLimit.State.withThread, same]

theorem waitRank_of_ne_idle {pc : BackupLimit.ThreadPc} (inside : pc ≠ .idle) (ready : Bool) :
    waitRank (pc, ready) = BackupProgress.rank pc := by
  cases pc with
  | idle => exact absurd rfl inside
  | lock | count | wait | unlock | fork => rfl

/-- Only a thread at the counter steps there, and it leaves by its fork. -/
theorem idle_iff_of_step {forks : Bool} {shared next : BackupLimit.Shared} {pc pc' : BackupLimit.ThreadPc}
    (ran : BackupLimit.threadStep maxBackups forks shared pc = some (next, pc')) :
    pc ≠ .idle ∧ (pc' = .idle → pc = .fork) := by
  cases BackupLimit.threadStep_moves ran with
  | fork => exact ⟨nofun, fun _ => rfl⟩
  | lock | full | counted | reaped | childless | unlock => exact ⟨nofun, nofun⟩

omit [DecidableEq Session] in
theorem measure_backup {action : BackupLimit.Action maxThreads} {backups : BackupLimit.State maxThreads}
    (may : state.backupMay setting action) (stepped : BackupLimit.step maxBackups state.backups action = some backups) :
    measure setting { state with backups := backups } < measure setting state := by
  apply Nat.add_lt_add_right
  cases action with
  | backup worker =>
    obtain ⟨atCommand, outside⟩ := may
    simp only [BackupLimit.step] at stepped
    split_ifs at stepped with idle
    cases stepped
    have changed := total_update waitRank (standing setting state) worker (.lock, ready setting state.jobs worker)
    have waits : waitRank (standing setting state worker) = 7 := by
      simp [standing, ready, idle, atCommand, outside, waitRank]
    have comes : waitRank (.lock, ready setting state.jobs worker) = 6 := rfl
    rw [standing_withThread]
    show _ + state.backups.shared.running < _ + state.backups.shared.running
    omega
  | thread worker forks =>
    obtain ⟨⟨shared, pc⟩, ran, same⟩ := Option.map_eq_some_iff.mp stepped
    subst same
    obtain ⟨inside, leaves⟩ := idle_iff_of_step ran
    have less := BackupProgress.threadStep_rank ran
    have changed := total_update waitRank (standing setting state) worker (pc, ready setting state.jobs worker)
    have stood : waitRank (standing setting state worker) = BackupProgress.rank (state.backups.threads worker) :=
      waitRank_of_ne_idle inside _
    have stands : waitRank (pc, ready setting state.jobs worker) = BackupProgress.rank pc := by
      by_cases idle : pc = .idle
      · have finished := may (leaves idle)
        have notReady : ready setting state.jobs worker = false := by
          unfold ready
          cases phase : state.jobs.lock.pool (.inl worker) <;> simp_all [isFinished, isOutside]
        rw [idle, notReady]
        rfl
      · exact waitRank_of_ne_idle idle _
    rw [standing_withThread]
    show _ + shared.running < _ + state.backups.shared.running
    omega
  | exit =>
    simp only [BackupLimit.step] at stepped
    split_ifs at stepped with runs
    cases stepped
    exact Nat.add_lt_add_left (Nat.sub_lt runs Nat.one_pos) _

/-- A step goes down in what is left of the programs, or keeps it and lowers what is left
at the counter and in the pipes. -/
theorem step_lowers (taken : step setting maxBackups capacity state action = some next) :
    Follower tableCode (program setting) next.jobs state.jobs ∨
      next.jobs = state.jobs ∧ measure setting next < measure setting state := by
  cases moves_of_step taken with
  | job may stepped => exact .inl ⟨_, stepped⟩
  | backup may stepped => exact .inr ⟨rfl, measure_backup may stepped⟩
  | @write worker slot slots first room =>
    refine .inr ⟨rfl, Nat.add_lt_add_left ?_ _⟩
    have written := total_update List.length state.toWrite worker slots
    have held := total_update id state.unread slot (state.unread slot + 1)
    rw [first, List.length_cons] at written
    simp only [id] at held ⊢
    omega
  | @read slot some =>
    refine .inr ⟨rfl, Nat.add_lt_add_left ?_ _⟩
    have held := total_update id state.unread slot (state.unread slot - 1)
    simp only [id] at held ⊢
    omega

end Measure

/-! The threads between their commands and the counter. -/

/-- Who is at the counter has come there from a BACKUP. -/
def Called (state : State maxThreads slots Session) : Prop :=
  ∀ worker, state.backups.threads worker ≠ .idle → atBackup setting (state.jobs.locals (.inl worker)) = true

section Stuck
variable {setting maxBackups capacity} {state next : State maxThreads slots Session}
  {action : Action maxThreads slots Session}

theorem program_of_atBackup {pc : Pc} (here : atBackup setting pc = true) :
    ∃ resume, program setting pc = .call .kvsBackup resume := by
  cases pc with
  | running entry files stream =>
    simp only [atBackup] at here
    split at here
    next rest read =>
      have turn : program setting (.running entry files stream) = .call .kvsBackup fun reply =>
          (.notifying entry files rest (toNotify .backup reply), [.performed entry .backup (some reply)]) := by
        simp only [program, jobTurn, read, tableCall]
      exact ⟨_, turn⟩
    all_goals cases here
  | dispatch | notifying | session => cases here

theorem unfinished_of_atBackup {pc : Pc} (here : atBackup setting pc = true) : pc.getFile.finished = false := by
  cases pc with
  | running => rfl
  | dispatch | notifying | session => cases here

theorem threads_of_ne {backups : BackupLimit.State maxThreads} {worker other : Fin maxThreads}
    {result : BackupLimit.Shared × BackupLimit.ThreadPc} (different : worker ≠ other) :
    (backups.withThread other result).threads worker = backups.threads worker :=
  Function.update_of_ne different _ _

omit [DecidableEq Session] in
theorem called_backup {action : BackupLimit.Action maxThreads} {backups : BackupLimit.State maxThreads}
    (called : Called setting state) (may : state.backupMay setting action)
    (stepped : BackupLimit.step maxBackups state.backups action = some backups) {worker : Fin maxThreads}
    (inside : backups.threads worker ≠ .idle) : atBackup setting (state.jobs.locals (.inl worker)) = true := by
  cases action with
  | backup comes =>
    simp only [BackupLimit.step] at stepped
    split_ifs at stepped with idle
    cases stepped
    by_cases same : worker = comes
    · exact same ▸ may.1
    · rw [threads_of_ne same] at inside
      exact called worker inside
  | thread steps forks =>
    obtain ⟨⟨shared, pc⟩, ran, same⟩ := Option.map_eq_some_iff.mp stepped
    subst same
    by_cases same : worker = steps
    · exact called worker (same ▸ (idle_iff_of_step ran).1)
    · rw [threads_of_ne same] at inside
      exact called worker inside
  | exit =>
    simp only [BackupLimit.step] at stepped
    split_ifs at stepped
    cases stepped
    exact called worker inside

/-- A thread at the counter stays at its command. -/
theorem called_job {action : AtomicCalls.Action (Fin maxThreads ⊕ Session)} {jobs : Jobs maxThreads Session}
    (called : Called setting state) (may : state.jobMay setting action)
    (stepped : AtomicCalls.step tableCode (program setting) state.jobs action = some jobs) {worker : Fin maxThreads}
    (inside : state.backups.threads worker ≠ .idle) : atBackup setting (jobs.locals (.inl worker)) = true := by
  have here := called worker inside
  have moves := AtomicCalls.moves_of_step stepped
  generalize AtomicCalls.observe (program setting) state.jobs action = events at moves
  cases moves with
  | @own thread step shared later events outside turn ran =>
    by_cases same : thread = .inl worker
    · subst same
      obtain ⟨resume, calls⟩ := program_of_atBackup here
      cases turn.symm.trans calls
    · show atBackup setting (Function.update state.jobs.locals thread later (.inl worker)) = true
      rwa [Function.update_of_ne (Ne.symm same)]
  | request | acquire | work => exact here
  | @release thread call call' reply resume lock finished turn released =>
    by_cases same : thread = .inl worker
    · subst same
      exact absurd (may here) inside
    · show atBackup setting (Function.update state.jobs.locals thread (resume reply).1 (.inl worker)) = true
      rwa [Function.update_of_ne (Ne.symm same)]

theorem called_of_run {table : KeyTable} {lookups : Session → List CString} {trace : List JobThreads.Event}
    (run : Run (machine setting maxBackups capacity) Always (initial table lookups) trace state) : Called setting state := by
  apply run.invariant (Called setting)
  · exact fun _ inside => absurd rfl inside
  · intro state action next called _ taken
    cases moves_of_step taken with
    | job may stepped => exact fun worker inside => called_job called may stepped inside
    | backup may stepped => exact fun worker inside => called_backup called may stepped inside
    | write | read => exact called

/-! Where nothing can step. -/

theorem read_of_stuck (stuck : ∀ action, step setting maxBackups capacity state action = none) (slot : Fin slots) :
    state.unread slot = 0 := by
  have blocked := stuck (.read slot)
  simp only [step] at blocked
  split_ifs at blocked with some
  omega

/-- A client reads what is in its pipe, so there is room in it. -/
theorem written_of_stuck (room : ∀ slot, 0 < capacity slot)
    (stuck : ∀ action, step setting maxBackups capacity state action = none) (worker : Fin maxThreads) :
    state.toWrite worker = [] := by
  cases first : state.toWrite worker with
  | nil => rfl
  | cons slot slots =>
    have blocked := stuck (.write worker)
    simp only [step, first] at blocked
    split_ifs at blocked with fits
    rw [read_of_stuck stuck slot] at fits
    exact absurd (room slot) fits

theorem counter_of_stuck (owned : BackupProgress.Owned state.backups)
    (stuck : ∀ action, step setting maxBackups capacity state action = none) :
    (∀ worker, state.backups.threads worker = .idle ∨ state.backups.threads worker = .fork) ∧
      state.backups.shared.running = 0 ∧ state.backups.shared.countLock = false := by
  have blocked (action : BackupLimit.Action maxThreads) (may : state.backupMay setting action) :
      BackupLimit.step maxBackups state.backups action = none := by
    have none := stuck (.backup action)
    rw [step, if_pos may, Option.map_eq_none_iff] at none
    exact none
  apply BackupProgress.outside_of_stuck owned (blocked .exit trivial)
  intro worker notForking
  exact blocked (.thread worker true) fun forking => absurd forking notForking

/-- What holds a thread back from a step of its program could step itself. -/
theorem jobs_of_stuck (owned : BackupProgress.Owned state.backups) (room : ∀ slot, 0 < capacity slot)
    (stuck : ∀ action, step setting maxBackups capacity state action = none)
    (action : AtomicCalls.Action (Fin maxThreads ⊕ Session)) :
    AtomicCalls.step tableCode (program setting) state.jobs action = none := by
  have passed := (counter_of_stuck owned stuck).1
  by_cases may : state.jobMay setting action
  · have blocked := stuck (.job action [])
    rw [step, if_pos may, Option.map_eq_none_iff] at blocked
    exact blocked
  · cases action with
    | own thread =>
      cases thread with
      | inl worker => exact absurd (written_of_stuck room stuck worker) may
      | inr session => exact absurd trivial may
    | request thread =>
      cases thread with
      | inr session => exact absurd trivial may
      | inl worker =>
        -- the thread could come to the counter
        obtain ⟨here, notForking⟩ := Classical.not_imp.mp may
        have idle := (passed worker).resolve_right notForking
        obtain ⟨resume, calls⟩ := program_of_atBackup here
        cases phase : state.jobs.lock.pool (.inl worker) with
        | outside =>
          have blocked := stuck (.backup (.backup worker))
          have comes : state.backupMay setting (.backup worker) := ⟨here, by rw [phase]; rfl⟩
          simp only [step, if_pos comes, BackupLimit.step, if_pos idle] at blocked
          cases blocked
        | waiting | inside | finished =>
          simp only [AtomicCalls.step, calls, lockStep, ReadWriteLock.step, phase]
          rfl
    | release thread =>
      cases thread with
      | inr session => exact absurd trivial may
      | inl worker =>
        -- the thread could fork
        obtain ⟨here, notIdle⟩ := Classical.not_imp.mp may
        have forking := (passed worker).resolve_left notIdle
        cases phase : state.jobs.lock.pool (.inl worker) with
        | finished call reply =>
          have blocked := stuck (.backup (.thread worker true))
          have comes : state.backupMay setting (.thread worker true) := fun _ => by rw [phase]; rfl
          simp only [step, if_pos comes, BackupLimit.step, forking] at blocked
          cases blocked
        | outside | waiting | inside => simp only [AtomicCalls.step, phase]
    | acquire | work => exact absurd trivial may

end Stuck

section Runs
variable {setting capacity} [Fintype Session] {lookups : Session → List CString} {table : KeyTable}

/-- No schedule of the threads, the children and the clients goes on for ever, and where
nothing can step the `get_file` threads have ended, every lookup is answered, every backup is
done, every notification is read, and the locks are free. -/
theorem server_comes_to_rest (sound : Sound setting lookups) (maxBackups : Nat) (room : ∀ slot, 0 < capacity slot) :
    (¬∃ states : Nat → State maxThreads slots Session, states 0 = initial table lookups ∧
      ∀ count, ∃ action, step setting maxBackups capacity (states count) action = some (states (count + 1))) ∧
    ∀ trace (state : State maxThreads slots Session),
      Run (machine setting maxBackups capacity) Always (initial table lookups) trace state →
      (∀ action, step setting maxBackups capacity state action = none) →
      (getFiles state.jobs.shared state.jobs.locals).Finished ∧
        (∀ session, state.jobs.locals (.inr session) = .session []) ∧
        state.jobs.lock.writing = false ∧ state.jobs.lock.readers = 0 ∧ BackupProgress.Rested state.backups ∧
        (∀ worker, state.toWrite worker = []) ∧ ∀ slot, state.unread slot = 0 := by
  constructor
  · exact (machine setting maxBackups capacity).ends_of_layers (fun _ _ _ => step_lowers)
      (acc_of_bounded (JobCompletion.bounded sound))
  · intro trace state run stuck
    obtain ⟨reports, atCounter⟩ := backups_run run
    have owned := BackupProgress.owned_of_run atCounter
    obtain ⟨finished, answered, writing, readers⟩ :=
      JobCompletion.done_of_stuck sound (jobs_run run) (jobs_of_stuck owned room stuck)
    obtain ⟨passed, exited, free⟩ := counter_of_stuck owned stuck
    refine ⟨finished, answered, writing, readers, ⟨?_, exited, free⟩, written_of_stuck room stuck, read_of_stuck stuck⟩
    intro worker
    by_contra inside
    have unfinished := unfinished_of_atBackup (called_of_run run worker inside)
    have ended : (state.jobs.locals (.inl worker)).getFile.finished = true := finished worker
    rw [unfinished] at ended
    cases ended

end Runs

/-- One job, which makes a backup and then writes a key. -/
def backupJob : Setting where
  directory := ⟨literal "jobs", [literal "a.job"], fun _ => true, fun _ => true⟩
  contents := fun _ => text "BACKUP\nWRITE [(a,b)]\n"
  stack := fun _ _ => 0

theorem backupJob_sound : Sound backupJob oneKey where
  parsed := by
    intro entry files found _
    match entry with
    | 0 =>
      cases found
      decide
    | entry + 1 => cases (Directory.files_eq_none_of_end (Nat.le_add_left 1 entry)).symm.trans found
  keyed := by
    intro entry
    match entry with
    | 0 => decide
    | entry + 1 =>
      have none : backupJob.directory.files (entry + 1) = none := Directory.files_eq_none_of_end (Nat.le_add_left 1 entry)
      intro command member
      simp [script, none] at member
  looked := by decide

/-- The child runs still when the notification lies in the pipe of the client. -/
def inPipe : List (Action 1 1 Unit) :=
  let worker : Fin 1 := ⟨0, Nat.one_pos⟩
  let job (action : AtomicCalls.Action (Fin 1 ⊕ Unit)) : Action 1 1 Unit := .job action [⟨0, Nat.one_pos⟩]
  List.replicate 5 (job (.own (.inl worker))) ++ [.backup (.backup worker)] ++
    List.replicate 3 (.backup (.thread worker true)) ++
    [job (.request (.inl worker)), job (.acquire (.inl worker)), job (.work (.inl worker)), .backup (.thread worker true),
      job (.release (.inl worker)), job (.own (.inl worker)), job (.request (.inl worker)), job (.acquire (.inl worker)),
      job (.work (.inl worker)), job (.work (.inl worker)), job (.release (.inl worker)), job (.own (.inl worker)),
      .write worker]

theorem server_comes_to_rest_of_backupJob :
    (∃ trace, ∃ state : State 1 1 Unit, Run (machine backupJob 1 fun _ => 1) Always
      (initial (Table.empty CString bucket) oneKey) trace state ∧
        state.backups.shared.running = 1 ∧ state.unread ⟨0, Nat.one_pos⟩ = 1) ∧
    (¬∃ states : Nat → State 1 1 Unit, states 0 = initial (Table.empty CString bucket) oneKey ∧
      ∀ count, ∃ action, step backupJob 1 (fun _ => 1) (states count) action = some (states (count + 1))) ∧
    ∀ trace (state : State 1 1 Unit),
      Run (machine backupJob 1 fun _ => 1) Always (initial (Table.empty CString bucket) oneKey) trace state →
      (∀ action, step backupJob 1 (fun _ => 1) state action = none) →
      (getFiles state.jobs.shared state.jobs.locals).Finished ∧
        (∀ session, state.jobs.locals (.inr session) = .session []) ∧
        state.jobs.lock.writing = false ∧ state.jobs.lock.readers = 0 ∧ BackupProgress.Rested state.backups ∧
        (∀ worker, state.toWrite worker = []) ∧ ∀ slot, state.unread slot = 0 := by
  obtain ⟨trace, state, run, reached⟩ := exists_run (machine backupJob 1 fun _ => 1) Always
    (initial (Table.empty CString bucket) oneKey : State 1 1 Unit)
    (fun _ state => state.backups.shared.running = 1 ∧ state.unread ⟨0, Nat.one_pos⟩ = 1) inPipe (by decide)
  exact ⟨⟨trace, state, run, reached⟩, server_comes_to_rest backupJob_sound 1 fun _ => Nat.one_pos⟩

end IstKvs.ServerProgress
