import IstKvs.JobSerial
import Mathlib.Algebra.BigOperators.Intervals

/-! Every schedule of the threads comes to an end, and where no thread can take a step all
of them are done: the directory's mutex, the lock of the table and the loops of the parser
and of the chains hold nobody up for ever. Here a call of `notify_clients` is one step, and a
BACKUP only takes the lock of the table. -/

namespace IstKvs.JobCompletion
open LabelledRuns ThreadPool ReadWriteLock AtomicCalls ChainedTable
open Kvs Operations StoreMemory TableLock JobParser RunJob JobDispatch JobThreads JobSerial

variable (setting : Setting)

/-- More than the steps of one turn of `run_job`, with its notifications. -/
def turnCost : Nat := MAX_WRITE_SIZE + 3

/-- More than the steps that a thread takes with a file once it has taken its entry. -/
def fileCost (files : JobPaths) : Nat := (setting.contents files.inPath).length * turnCost + 6

def entryCost (entry : Nat) : Nat := ((setting.directory.files entry).map (fileCost setting)).getD 1

/-- More than the steps with the entries that nobody has taken. -/
def untaken (position : Nat) : Nat :=
  ∑ entry ∈ Finset.Ico position setting.directory.entries.length, entryCost setting entry

/-- More than the steps that a thread has before it, until it takes the next entry. -/
def ahead : Pc → Nat
  | .dispatch .lock => 2
  | .dispatch .readdir => 1
  | .dispatch (.openInput _ files) => fileCost setting files
  | .dispatch (.openOutput _ files) => fileCost setting files - 1
  | .dispatch (.runJob _ files) => fileCost setting files - 2
  | .dispatch (.failed _) | .dispatch .exited => 0
  | .running _ _ stream => stream.length * turnCost + 3
  | .notifying _ _ stream pairs => stream.length * turnCost + pairs.length + 4
  | .session keys => keys.length

variable {setting}

theorem untaken_succ {position : Nat} (listed : position < setting.directory.entries.length) :
    untaken setting position = entryCost setting position + untaken setting (position + 1) :=
  Finset.sum_eq_sum_Ico_succ_bot listed _

/-! A command has at most as many arguments as the arrays of `run_job` have rows. -/

section Arguments
variable {stack : Nat → UInt8} {stream rest : List UInt8} {room : Nat}

theorem parsePairs_length {pairs : List (CString × CString)} (parsed : parsePairs room stream = some (some pairs, rest)) :
    pairs.length ≤ room := by
  induction room generalizing stream pairs with
  | zero =>
    cases parsed
    exact Nat.le_refl 0
  | succ room ih =>
    simp only [parsePairs, Option.bind_eq_bind, Option.bind_eq_some_iff] at parsed
    obtain ⟨first, _, parsed⟩ := parsed
    split at parsed
    next => cases parsed
    next => cases parsed
    next pair ch later =>
      split_ifs at parsed
      · obtain ⟨⟨others, last⟩, more, made⟩ := Option.bind_eq_some_iff.mp parsed
        cases others with
        | none => cases made
        | some others =>
          cases made
          exact Nat.succ_le_succ (ih more)
      · cases parsed
        exact Nat.succ_le_succ (Nat.zero_le room)
      · cases parsed

theorem parseKeys_length {keys : List CString} (parsed : parseKeys room stream = some (some keys, rest)) :
    keys.length ≤ room := by
  induction room generalizing stream keys with
  | zero =>
    cases parsed
    exact Nat.le_refl 0
  | succ room ih =>
    simp only [parseKeys, Option.bind_eq_bind, Option.bind_eq_some_iff] at parsed
    obtain ⟨key, _, parsed⟩ := parsed
    split_ifs at parsed
    · cases parsed
    · cases parsed
      exact Nat.succ_le_succ (Nat.zero_le room)
    · obtain ⟨⟨others, last⟩, more, made⟩ := Option.bind_eq_some_iff.mp parsed
      cases others with
      | none => cases made
      | some others =>
        cases made
        exact Nat.succ_le_succ (ih more)

theorem endList_items {α : Type} {parsed : Parsed (List α)} {items : List α}
    (ended : endList room parsed = (some items, rest)) :
    ∃ later, parsed = (some items, later) := by
  obtain ⟨result, later⟩ := parsed
  cases result with
  | none => cases ended
  | some found =>
    refine ⟨later, ?_⟩
    simp only [endList] at ended
    split_ifs at ended
    · cases ended
    · split at ended
      next => cases ended
      next =>
        split_ifs at ended
        · cases ended
          rfl
        · cases ended

theorem expect_eq_some {α : Type} {wanted : UInt8} {next : List UInt8 → Option (Parsed α)} {value : α}
    (parsed : expect wanted stream next = some (some value, rest)) : ∃ later, next later = some (some value, rest) := by
  unfold expect at parsed
  split at parsed
  next => cases parsed
  next ch later =>
    split_ifs at parsed
    · exact ⟨later, parsed⟩
    · cases parsed

theorem dispatched_eq_some {α : Type} {command : α → JobCommand} {outcome : Option (Parsed α)} {made : JobCommand}
    (parsed : outcome.map (dispatched command) = some (some made, rest)) :
    made = .invalid ∨ ∃ arguments, outcome = some (some arguments, rest) ∧ made = command arguments := by
  obtain ⟨⟨result, later⟩, found, same⟩ := Option.map_eq_some_iff.mp parsed
  cases result with
  | none =>
    cases same
    exact .inl rfl
  | some arguments =>
    cases same
    exact .inr ⟨arguments, found, rfl⟩

theorem notices_length {command : JobCommand} (read : nextCommand stack stream = some (some command, rest)) :
    (notices command).length ≤ MAX_WRITE_SIZE := by
  have keyed : ∀ {keys : List CString} {later}, parseReadDelete MAX_WRITE_SIZE later = some (some keys, rest) →
      keys.length ≤ MAX_WRITE_SIZE := by
    intro keys later parsed
    obtain ⟨_, parsed⟩ := expect_eq_some parsed
    obtain ⟨found, more, ended⟩ := Option.map_eq_some_iff.mp parsed
    obtain ⟨_, same⟩ := endList_items ended
    exact parseKeys_length (same ▸ more)
  unfold nextCommand at read
  split at read
  next later _ =>
    rcases dispatched_eq_some read with same | ⟨pairs, parsed, same⟩
    · rw [same]
      exact Nat.zero_le _
    · obtain ⟨_, parsed⟩ := expect_eq_some parsed
      obtain ⟨_, parsed⟩ := expect_eq_some parsed
      obtain ⟨found, more, ended⟩ := Option.map_eq_some_iff.mp parsed
      obtain ⟨_, whole⟩ := endList_items ended
      rw [same]
      exact parsePairs_length (whole ▸ more)
  next later _ =>
    rcases dispatched_eq_some read with same | ⟨keys, _, same⟩ <;>
      · rw [same]
        exact Nat.zero_le _
  next later _ =>
    rcases dispatched_eq_some read with same | ⟨keys, parsed, same⟩
    · rw [same]
      exact Nat.zero_le _
    · rw [same]
      exact (List.length_map _).trans_le (keyed parsed)
  next =>
    cases read
    exact Nat.zero_le _
  next later _ =>
    rcases dispatched_eq_some read with same | ⟨delay, _, same⟩ <;>
      · rw [same]
        exact Nat.zero_le _
  all_goals
    cases read
    try exact Nat.zero_le _

theorem toNotify_length {command : JobCommand} (read : nextCommand stack stream = some (some command, rest)) (reply : Reply) :
    (toNotify command reply).length ≤ MAX_WRITE_SIZE := by
  cases reply with
  | result result =>
    simp only [toNotify]
    split_ifs
    · exact Nat.zero_le _
    · exact notices_length read
  | shown | status | forked => exact Nat.zero_le _

end Arguments

section Turns
variable {pc next : Pc} {shared shared' : Shared} {memory memory' : HashTable} {events : List JobThreads.Event}

theorem ahead_of_step {inner : ThreadPc} {result : Shared × ThreadPc}
    (stepped : threadStep setting.directory shared inner = some result)
    (started : ∀ entry files, inner ≠ .runJob entry files) :
    untaken setting result.1.position + ahead setting (.dispatch result.2) <
      untaken setting shared.position + ahead setting (.dispatch inner) := by
  cases inner with
  | lock =>
    simp only [threadStep] at stepped
    split_ifs at stepped
    cases stepped
    simp only [ahead]
    omega
  | readdir =>
    simp only [threadStep] at stepped
    split at stepped
    next ended =>
      cases stepped
      simp only [ahead]
      omega
    next name listed =>
      have inside : shared.position < setting.directory.entries.length := (List.getElem?_eq_some_iff.mp listed).choose
      have paid := untaken_succ inside
      split at stepped
      next report refused =>
        cases stepped
        have none : setting.directory.files shared.position = none := by
          simp only [Directory.files, listed, refused]
        simp only [entryCost, none, Option.map_none, Option.getD_none] at paid
        simp only [ahead]
        omega
      next files accepted =>
        cases stepped
        have found : setting.directory.files shared.position = some files := by
          simp only [Directory.files, listed, accepted]
        simp only [entryCost, found, Option.map_some, Option.getD_some] at paid
        simp only [ahead]
        omega
  | openInput entry files | openOutput entry files =>
    simp only [threadStep] at stepped
    split_ifs at stepped
    · cases stepped
      simp only [ahead, fileCost]
      omega
    · cases stepped
      simp only [ahead, fileCost]
      omega
  | runJob entry files => exact absurd rfl (started entry files)
  | failed | exited => cases stepped

/-- A turn lowers what is ahead. -/
theorem ahead_of_turns (turns : Turns setting pc shared memory next shared' memory' events) :
    untaken setting shared'.position + ahead setting next < untaken setting shared.position + ahead setting pc := by
  cases turns with
  | opened here =>
    subst here
    simp only [ahead, fileCost]
    omega
  | @dispatched result stepped finished =>
    cases pc with
    | dispatch inner =>
      apply ahead_of_step stepped
      intro entry files here
      obtain ⟨_, _, impossible, _⟩ := finished entry files here
      cases impossible
    | running entry files stream =>
      cases stepped
      simp only [ahead]
      omega
    | notifying entry files stream pairs =>
      obtain ⟨_, _, impossible, _⟩ := finished entry files rfl
      cases impossible
    | session keys => cases stepped
  | @kept entry files stream command rest here read _ =>
    subst here
    have paid : (rest.length + 1) * turnCost ≤ stream.length * turnCost := Nat.mul_le_mul_right _ (nextCommand_shorter read)
    rw [Nat.add_mul] at paid
    simp only [ahead, turnCost] at paid ⊢
    omega
  | @called entry files stream command rest call reply after here read _ _ =>
    subst here
    have paid : (rest.length + 1) * turnCost ≤ stream.length * turnCost := Nat.mul_le_mul_right _ (nextCommand_shorter read)
    have few := toNotify_length read reply
    rw [Nat.add_mul] at paid
    simp only [ahead, turnCost] at paid ⊢
    omega
  | noticed here | resumed here =>
    subst here
    simp only [ahead, List.length_cons, List.length_nil]
    omega
  | answered here _ =>
    subst here
    simp only [ahead, List.length_cons]
    omega

/-- Where the directory's mutex is taken, the thread that took it is at `readdir`. -/
def Guarded {Thread : Type} (shared : Shared) (locals : Thread → Pc) : Prop :=
  shared.directoryMutex = true → ∃ thread, locals thread = .dispatch .readdir

theorem Guarded.keeps {Thread : Type} [DecidableEq Thread] {locals : Thread → Pc} {thread : Thread}
    (guarded : Guarded shared locals) (turns : Turns setting (locals thread) shared memory next shared' memory' events) :
    Guarded shared' (Function.update locals thread next) := by
  have elsewhere : locals thread ≠ .dispatch .readdir → shared'.directoryMutex = shared.directoryMutex →
      Guarded shared' (Function.update locals thread next) := by
    intro moved same taken
    obtain ⟨other, here⟩ := guarded (same ▸ taken)
    refine ⟨other, ?_⟩
    rwa [Function.update_of_ne]
    intro equal
    subst equal
    exact moved here
  cases turns with
  | opened here | kept here | called here | noticed here | resumed here | answered here =>
    apply elsewhere _ rfl
    rw [here]
    intro same
    cases same
  | @dispatched result stepped finished =>
    cases inner : (locals thread).getFile with
    | lock =>
      rw [inner] at stepped
      simp only [threadStep] at stepped
      split_ifs at stepped
      cases stepped
      exact fun _ => ⟨thread, Function.update_self ..⟩
    | readdir =>
      rw [inner] at stepped
      simp only [threadStep] at stepped
      split at stepped
      next =>
        cases stepped
        exact fun taken => absurd taken Bool.false_ne_true
      next =>
        split at stepped
        next =>
          cases stepped
          exact fun _ => ⟨thread, Function.update_self ..⟩
        next =>
          cases stepped
          exact fun taken => absurd taken Bool.false_ne_true
    | openInput entry files | openOutput entry files =>
      apply elsewhere
      · intro here
        rw [here] at inner
        cases inner
      · rw [inner] at stepped
        simp only [threadStep] at stepped
        split_ifs at stepped
        all_goals cases stepped; rfl
    | runJob entry files =>
      apply elsewhere
      · intro here
        rw [here] at inner
        cases inner
      · rw [inner] at stepped
        cases stepped
        rfl
    | failed | exited =>
      rw [inner] at stepped
      cases stepped

end Turns

section Runs
variable {maxThreads : Nat} {Session : Type} [DecidableEq Session] [Fintype Session] {lookups : Session → List CString}
  {table : KeyTable} {trace : List JobThreads.Event}

omit [Fintype Session] in
theorem guarded_of_atomic {whole : Whole (Fin maxThreads ⊕ Session) HashTable Shared Pc}
    (atomic : Atomic tableCode (program setting) (start maxThreads table lookups) trace whole) :
    Guarded whole.shared whole.locals := by
  induction atomic with
  | refl => exact fun taken => absurd taken Bool.false_ne_true
  | @own _ whole _ _ _ _ _ _ turn stepped ih =>
    have turns : Turns setting _ _ whole.memory _ _ whole.memory _ := turns_of_own turn stepped
    exact ih.keeps turns
  | call _ turn reached ih => exact ih.keeps (turns_of_call turn reached)

/-- More than the steps of the threads that are left. -/
def measure (setting : Setting) (shared : Shared) (locals : Fin maxThreads ⊕ Session → Pc) : Nat :=
  untaken setting shared.position + total (ahead setting) locals

theorem measure_of_turns {shared shared' : Shared} {memory memory' : HashTable} {next : Pc} {events : List JobThreads.Event}
    {locals : Fin maxThreads ⊕ Session → Pc} {thread : Fin maxThreads ⊕ Session}
    (turns : Turns setting (locals thread) shared memory next shared' memory' events) :
    measure setting shared' (Function.update locals thread next) < measure setting shared locals := by
  have less := ahead_of_turns turns
  have moved := total_update (ahead setting) locals thread next
  unfold measure
  omega

theorem call_keys {command : JobCommand} {call : LockedCall} (made : tableCall command = some call) :
    call.call.keys = command.keys ∨ call.call.keys = [] := by
  cases command with
  | write | read | delete =>
    cases made
    exact .inl rfl
  | showAll | backup =>
    cases made
    exact .inr rfl
  | wait | help | empty | invalid => cases made

omit [Fintype Session] in
/-- The keys of the calls that the programs make have a bucket. -/
theorem call_valid (sound : Sound setting lookups) {whole : Whole (Fin maxThreads ⊕ Session) HashTable Shared Pc}
    (atomic : Atomic tableCode (program setting) (start maxThreads table lookups) trace whole)
    {thread : Fin maxThreads ⊕ Session} {call : LockedCall} {resume : Reply → Pc × List JobThreads.Event}
    (turn : program setting (whole.locals thread) = .call call resume) : Valid call := by
  have serves := serves_of_atomic sound atomic
  cases here : whole.locals thread with
  | dispatch pc =>
    rw [here] at turn
    cases pc <;> cases turn
  | running entry files stream =>
    rw [here] at turn
    simp only [program, jobTurn] at turn
    split at turn
    next => cases turn
    next => cases turn
    next command rest read =>
      split at turn
      next call' made =>
        cases turn
        obtain ⟨later, _, _, whole⟩ := serves.command_next here read
        have member : command ∈ script setting entry := whole ▸ List.mem_append_right _ List.mem_cons_self
        intro key named
        rcases call_keys made with same | none
        · exact sound.keyed entry command member key (same ▸ named)
        · rw [none] at named
          cases named
      next => cases turn
  | notifying entry files stream pairs =>
    rw [here] at turn
    cases pairs <;> cases turn
  | session keys =>
    rw [here] at turn
    have looked := serves.looked thread
    rw [here] at looked
    cases keys with
    | nil => cases turn
    | cons key keys =>
      cases turn
      intro other named
      cases List.mem_singleton.mp named
      exact looked key List.mem_cons_self

theorem bounded (sound : Sound setting lookups) :
    Bounded tableCode (program setting) (start maxThreads table lookups) (measure setting) where
  own := by
    intro trace whole thread step shared next events atomic turn stepped
    exact measure_of_turns (turns_of_own turn stepped : Turns setting _ _ whole.memory _ _ whole.memory _)
  call := by
    intro trace whole thread call resume memory reply atomic turn reached
    exact measure_of_turns (turns_of_call turn reached)
  ends := by
    intro trace whole thread call resume memory stage atomic turn reached
    apply ends_of_hashed
    intro key member
    exact hashed_of_alphanumeric (call_valid sound atomic turn key (reached_keys reached rfl key member))

omit [Fintype Session] in
/-- A thread whose program can take no step is done, unless it waits for the directory's mutex. -/
theorem done_of_blocked (sound : Sound setting lookups) {whole : Whole (Fin maxThreads ⊕ Session) HashTable Shared Pc}
    (atomic : Atomic tableCode (program setting) (start maxThreads table lookups) trace whole)
    {thread : Fin maxThreads ⊕ Session} {step : Shared → Option (Shared × Pc × List JobThreads.Event)}
    (turn : program setting (whole.locals thread) = .own step) (blocked : step whole.shared = none) :
    (whole.locals thread).getFile.finished = true ∧ (∀ keys, whole.locals thread = .session keys → keys = []) ∨
      whole.locals thread = .dispatch .lock ∧ whole.shared.directoryMutex = true := by
  have serves := serves_of_atomic sound atomic
  cases here : whole.locals thread with
  | dispatch pc =>
    rw [here] at turn
    cases pc with
    | lock =>
      cases turn
      simp only [dispatchStep, Option.map_eq_none_iff, threadStep] at blocked
      split_ifs at blocked with taken
      exact .inr ⟨rfl, taken⟩
    | failed | exited =>
      refine .inl ⟨rfl, ?_⟩
      intro keys same
      cases same
    | readdir =>
      cases turn
      simp only [dispatchStep, Option.map_eq_none_iff, threadStep] at blocked
      split at blocked
      next => cases blocked
      next => split at blocked <;> cases blocked
    | openInput | openOutput =>
      cases turn
      simp only [dispatchStep, Option.map_eq_none_iff, threadStep] at blocked
      split_ifs at blocked
    | runJob =>
      cases turn
      cases blocked
  | running entry files stream =>
    rw [here] at turn
    have begun := serves.begun thread
    rw [here] at begun
    obtain ⟨later, _, parsed, _⟩ := begun
    simp only [program, jobTurn] at turn
    split at turn
    next undefined => cases (commands_undefined undefined).symm.trans parsed
    next =>
      cases turn
      cases blocked
    next command rest read =>
      split at turn
      next => cases turn
      next =>
        cases turn
        cases blocked
  | notifying entry files stream pairs =>
    rw [here] at turn
    cases pairs <;>
      · cases turn
        cases blocked
  | session keys =>
    rw [here] at turn
    cases keys with
    | nil =>
      refine .inl ⟨rfl, ?_⟩
      intro keys same
      cases same
      rfl
    | cons key keys => cases turn

/-- Where none of the threads can take a step all of them are done: one that waits for the
directory's mutex waits for a thread at `readdir`, which can go on. -/
theorem done_of_stuck (sound : Sound setting lookups)
    {state : AtomicCalls.State (Fin maxThreads ⊕ Session) LockedCall HashTable Stage Reply Shared Pc}
    (run : Run (AtomicCalls.machine tableCode (program setting)) Always
      (AtomicCalls.initial (start maxThreads table lookups)) trace state)
    (stuck : ∀ action, AtomicCalls.step tableCode (program setting) state action = none) :
    (getFiles state.shared state.locals).Finished ∧ (∀ session, state.locals (.inr session) = .session []) ∧
      state.lock.writing = false ∧ state.lock.readers = 0 := by
  obtain ⟨settled, follows⟩ := follows_of_run run
  obtain ⟨outside, blocked⟩ := follows.stuck (bounded sound) stuck
  have serves := serves_of_atomic sound follows.atomic
  have guarded : Guarded state.shared state.locals := guarded_of_atomic follows.atomic
  have each : ∀ thread, (state.locals thread).getFile.finished = true ∧ (∀ keys, state.locals thread = .session keys → keys = []) ∨
      state.locals thread = .dispatch .lock ∧ state.shared.directoryMutex = true := by
    intro thread
    obtain ⟨step, turn, none⟩ := blocked thread
    exact done_of_blocked sound follows.atomic turn none
  have done : ∀ thread, (state.locals thread).getFile.finished = true ∧ ∀ keys, state.locals thread = .session keys → keys = [] := by
    intro thread
    rcases each thread with done | ⟨_, taken⟩
    · exact done
    · obtain ⟨holder, here⟩ := guarded taken
      rcases each holder with ⟨finished, _⟩ | ⟨waiting, _⟩
      · rw [here] at finished
        cases finished
      · cases here.symm.trans waiting
  have still : ∀ thread, (state.lock.pool thread).holding = none := fun thread => congrArg Phase.holding (outside thread)
  refine ⟨fun worker => (done (.inl worker)).1, ?_, follows.settles.locked.free still⟩
  intro session
  obtain ⟨keys, here⟩ := serves.sessions (.inr session) rfl
  exact here.trans (congrArg Pc.session ((done (.inr session)).2 keys here))

/-- No schedule of the threads goes on for ever, and where none of them can take a step the
`get_file` threads have ended, every lookup is answered and the lock of the table is free. -/
theorem every_schedule_ends (sound : Sound setting lookups) :
    (¬∃ states : Nat → AtomicCalls.State (Fin maxThreads ⊕ Session) LockedCall HashTable Stage Reply Shared Pc,
      states 0 = AtomicCalls.initial (start maxThreads table lookups) ∧
        ∀ count, ∃ action, AtomicCalls.step tableCode (program setting) (states count) action = some (states (count + 1))) ∧
    ∀ trace state, Run (AtomicCalls.machine tableCode (program setting)) Always
        (AtomicCalls.initial (start maxThreads table lookups)) trace state →
      (∀ action, AtomicCalls.step tableCode (program setting) state action = none) →
      (getFiles state.shared state.locals).Finished ∧ (∀ session, state.locals (.inr session) = .session []) ∧
        state.lock.writing = false ∧ state.lock.readers = 0 := by
  exact ⟨ends_of_bounded (bounded sound), fun _ _ run stuck => done_of_stuck sound run stuck⟩

theorem every_schedule_ends_of_twoJobs :
    (¬∃ states : Nat → AtomicCalls.State (Fin 2 ⊕ Unit) LockedCall HashTable Stage Reply Shared Pc,
      states 0 = AtomicCalls.initial (start 2 (Table.empty CString bucket) oneKey) ∧
        ∀ count, ∃ action, AtomicCalls.step tableCode (program twoJobs) (states count) action = some (states (count + 1))) ∧
    ∀ trace state, Run (AtomicCalls.machine tableCode (program twoJobs)) Always
        (AtomicCalls.initial (start 2 (Table.empty CString bucket) oneKey)) trace state →
      (∀ action, AtomicCalls.step tableCode (program twoJobs) state action = none) →
      (getFiles state.shared state.locals).Finished ∧ (∀ session, state.locals (.inr session) = .session []) ∧
        state.lock.writing = false ∧ state.lock.readers = 0 :=
  every_schedule_ends twoJobs_sound

end Runs

end IstKvs.JobCompletion
