import IstKvs.Operations
import IstKvs.Library.LabelledRuns
import IstKvs.Library.ThreadPool

/-! The `get_file` threads that share one directory stream. A thread whose `open`
fails ends, and the directory is run through as long as one thread is left. -/

namespace IstKvs.JobDispatch
open LabelledRuns ThreadPool Operations

def MAX_JOB_FILE_NAME_SIZE : Nat := 256

/-- `strrchr`, as the offset of the last occurrence. -/
def strrchr (c : UInt8) : List UInt8 → Option Nat
  | [] => none
  | b :: rest =>
      match strrchr c rest with
      | some offset => some (offset + 1)
      | none => if b = c then some 0 else none

def strcat (first second : CString) : CString where
  bytes := first.bytes ++ second.bytes
  noNul := fun member => (List.mem_append.mp member).elim first.noNul second.noNul

def literal (s : String) : CString := CString.ofBytes (text s)

/-- `strcpy(s + offset, source)` into a string that reaches as far as `offset`. -/
def strcpyAt (s : CString) (offset : Nat) (source : CString) : CString :=
  strcat ⟨s.bytes.take offset, fun member => s.noNul (List.mem_of_mem_take member)⟩ source

structure JobPaths where
  inPath : CString
  outPath : CString
  deriving DecidableEq

/-- `entry_files`: the two paths, or what it reports about an entry it refuses. -/
def entryFiles (dir name : CString) : Except (List UInt8) JobPaths :=
  match strrchr 46 name.bytes with
  | none => .error []
  | some dot =>
      if dot = 0 ∨ (name.bytes.drop dot).length ≠ 4 ∨ name.bytes.drop dot ≠ text ".job" then .error []
      else if MAX_JOB_FILE_NAME_SIZE < name.bytes.length + dir.bytes.length + 2 then
        .error (dir.bytes ++ text "/" ++ name.bytes ++ text "\n")
      else
        let inPath := strcat (strcat dir (literal "/")) name
        .ok ⟨inPath, strcpyAt inPath ((strrchr 46 inPath.bytes).getD 0) (literal ".out")⟩

theorem strrchr_append {c : UInt8} (stem suffix : List UInt8) (last : c ∉ suffix) :
    strrchr c (stem ++ c :: suffix) = some stem.length := by
  have absent : ∀ bytes : List UInt8, c ∉ bytes → strrchr c bytes = none := by
    intro bytes missing
    induction bytes with
    | nil => rfl
    | cons b rest ih =>
      rw [List.mem_cons, not_or] at missing
      simp only [strrchr, ih missing.2, if_neg (Ne.symm missing.1)]
  induction stem with
  | nil => simp [strrchr, absent suffix last]
  | cons b stem ih => simp [strrchr, ih]

/-- An accepted name is `stem.job` with a stem, and the two paths fit their arrays. -/
theorem entryFiles_accepted {dir name : CString} {files : JobPaths}
    (accepted : entryFiles dir name = .ok files) :
    ∃ stem, stem ≠ [] ∧ name.bytes = stem ++ text ".job" ∧
      files.inPath.bytes = dir.bytes ++ text "/" ++ stem ++ text ".job" ∧
      files.outPath.bytes = dir.bytes ++ text "/" ++ stem ++ text ".out" ∧
      files.inPath.bytes.length < MAX_JOB_FILE_NAME_SIZE := by
  unfold entryFiles at accepted
  split at accepted
  next => cases accepted
  next dot found =>
    split_ifs at accepted with refused long
    simp only [not_or, not_not] at refused
    obtain ⟨late, -, extension⟩ := refused
    have whole : name.bytes = name.bytes.take dot ++ text ".job" := by
      rw [← extension, List.take_append_drop]
    have path : (strcat (strcat dir (literal "/")) name).bytes =
        (dir.bytes ++ text "/" ++ name.bytes.take dot) ++ 46 :: [106, 111, 98] := by
      show dir.bytes ++ text "/" ++ name.bytes = _
      conv_lhs => rw [whole]
      simp only [List.append_assoc]
      rfl
    have dotted := strrchr_append (c := 46) (dir.bytes ++ text "/" ++ name.bytes.take dot)
      [106, 111, 98] (by decide)
    rw [← path] at dotted
    cases accepted
    refine ⟨name.bytes.take dot, ?_, whole, path, ?_, ?_⟩
    · intro nothing
      rcases List.take_eq_nil_iff.mp nothing with start | nameless
      · exact late start
      · rw [nameless] at found
        cases found
    · show ((strcat (strcat dir (literal "/")) name).bytes.take _) ++ text ".out" = _
      rw [dotted, path, Option.getD_some, List.take_left]
    · have joined : (strcat (strcat dir (literal "/")) name).bytes.length =
          dir.bytes.length + 1 + name.bytes.length := by
        simp only [strcat, List.length_append]
        rfl
      show (strcat (strcat dir (literal "/")) name).bytes.length < MAX_JOB_FILE_NAME_SIZE
      omega

/-- The directory as `readdir` lists it, and which files can be opened. -/
structure Directory where
  dirName : CString
  entries : List CString
  opensInput : CString → Bool
  opensOutput : CString → Bool

namespace Directory

def files (directory : Directory) (entry : Nat) : Option JobPaths :=
  match directory.entries[entry]? with
  | none => none
  | some name =>
      match entryFiles directory.dirName name with
      | .error _ => none
      | .ok files => some files

def opens (directory : Directory) (files : JobPaths) : Bool :=
  directory.opensInput files.inPath && directory.opensOutput files.outPath

/-- Accepted by `entry_files`, and both files can be opened. -/
def runnable (directory : Directory) (entry : Nat) : Bool :=
  (directory.files entry).any directory.opens

/-- Accepted by `entry_files`, and one of the files cannot be opened. -/
def failing (directory : Directory) (entry : Nat) : Bool :=
  (directory.files entry).any fun files => !directory.opens files

def failuresBefore (directory : Directory) (entry : Nat) : Nat :=
  (List.range entry).countP directory.failing

theorem not_failing_of_runnable {directory : Directory} {entry : Nat}
    (runs : directory.runnable entry = true) : directory.failing entry = false := by
  unfold runnable failing at *
  cases found : directory.files entry with
  | none => rfl
  | some files =>
    rw [found, Option.any_some] at runs
    simp [runs]

theorem files_isSome_of_runnable {directory : Directory} {entry : Nat}
    (runs : directory.runnable entry = true) : (directory.files entry).isSome = true := by
  unfold runnable at runs
  cases found : directory.files entry with
  | none => simp [found] at runs
  | some files => rfl

theorem files_eq_none_of_end {directory : Directory} {entry : Nat}
    (beyond : directory.entries.length ≤ entry) : directory.files entry = none := by
  unfold files
  rw [List.getElem?_eq_none beyond]

theorem failuresBefore_succ (directory : Directory) (entry : Nat) :
    directory.failuresBefore (entry + 1) =
      directory.failuresBefore entry + if directory.failing entry then 1 else 0 := by
  unfold failuresBefore
  rw [List.range_succ, List.countP_append, List.countP_singleton]

theorem failuresBefore_mono (directory : Directory) {first second : Nat} (below : first ≤ second) :
    directory.failuresBefore first ≤ directory.failuresBefore second :=
  (List.range_sublist.mpr below).countP_le

end Directory

/-- The directory stream and the mutex around it. -/
structure Shared where
  directoryMutex : Bool
  position : Nat

/-- The next statement of `get_file`. Both a failed `open` and the end of the
directory lead to `pthread_exit`, and are told apart for the results. -/
inductive ThreadPc where
  | lock
  | readdir
  | openInput (entry : Nat) (files : JobPaths)
  | openOutput (entry : Nat) (files : JobPaths)
  | runJob (entry : Nat) (files : JobPaths)
  | failed (entry : Nat)
  | exited
  deriving DecidableEq

/-- What a step writes to the standard error, and the call of `run_job`. -/
inductive Event where
  | reported (report : List UInt8)
  | ran (entry : Nat)
  deriving DecidableEq

/-- A step of one thread. `run_job` returns 1 only where `kvs_backup` does, which it
never does, so the `exit` after it is not reached. -/
def threadStep (directory : Directory) (shared : Shared) : ThreadPc → Option (Shared × ThreadPc)
  | .lock =>
      if shared.directoryMutex then none else some ({ shared with directoryMutex := true }, .readdir)
  | .readdir =>
      match directory.entries[shared.position]? with
      | none => some ({ shared with directoryMutex := false }, .exited)
      | some name =>
          match entryFiles directory.dirName name with
          | .error _ => some ({ shared with position := shared.position + 1 }, .readdir)
          | .ok files =>
              some (⟨false, shared.position + 1⟩, .openInput shared.position files)
  | .openInput entry files =>
      if directory.opensInput files.inPath then some (shared, .openOutput entry files)
      else some (shared, .failed entry)
  | .openOutput entry files =>
      if directory.opensOutput files.outPath then some (shared, .runJob entry files)
      else some (shared, .failed entry)
  | .runJob _ _ => some (shared, .lock)
  | .failed _ | .exited => none

def threadEvents (directory : Directory) (shared : Shared) : ThreadPc → List Event
  | .readdir =>
      match directory.entries[shared.position]? with
      | none => []
      | some name =>
          match entryFiles directory.dirName name with
          | .error report => [.reported report]
          | .ok _ => []
  | .openInput _ files =>
      if directory.opensInput files.inPath then []
      else [.reported (text "Failed to open input file: " ++ files.inPath.bytes ++ text "\n")]
  | .openOutput _ files =>
      if directory.opensOutput files.outPath then []
      else [.reported (text "Failed to open output file: " ++ files.outPath.bytes ++ text "\n")]
  | .runJob entry _ => [.ran entry]
  | .lock | .failed _ | .exited => []

structure State (maxThreads : Nat) where
  shared : Shared
  threads : Fin maxThreads → ThreadPc

variable {maxThreads : Nat} {directory : Directory}

def State.withThread (state : State maxThreads) (thread : Fin maxThreads) (result : Shared × ThreadPc) :
    State maxThreads :=
  ⟨result.1, Function.update state.threads thread result.2⟩

/-- An action is the thread that steps. -/
def machine (directory : Directory) (maxThreads : Nat) :
    Machine (State maxThreads) (Fin maxThreads) Event where
  step := fun state thread =>
    (threadStep directory state.shared (state.threads thread)).map (state.withThread thread)
  observe := fun state thread => threadEvents directory state.shared (state.threads thread)

def initial (maxThreads : Nat) : State maxThreads := ⟨⟨false, 0⟩, fun _ => .lock⟩

def ThreadPc.finished : ThreadPc → Bool
  | .failed _ | .exited => true
  | .lock | .readdir | .openInput _ _ | .openOutput _ _ | .runJob _ _ => false

def State.Finished (state : State maxThreads) : Prop :=
  ∀ thread, (state.threads thread).finished = true

instance (state : State maxThreads) : Decidable state.Finished :=
  inferInstanceAs (Decidable (∀ thread, (state.threads thread).finished = true))

/-! What a step does to the entry a thread has taken and not yet run. A failed thread
keeps its entry, so that the threads lost are the failures met. -/

def held : ThreadPc → Option Nat
  | .openInput entry _ | .openOutput entry _ | .runJob entry _ | .failed entry => some entry
  | .lock | .readdir | .exited => none

/-- What a thread knows of its entry. -/
def Fits (directory : Directory) : ThreadPc → Prop
  | .openInput entry files => directory.files entry = some files
  | .openOutput entry files => directory.files entry = some files ∧ directory.opensInput files.inPath = true
  | .runJob entry files => directory.files entry = some files ∧ directory.opens files = true
  | .failed entry => directory.failing entry = true
  | .lock | .readdir | .exited => True

inductive Moves (directory : Directory) (shared next : Shared) (pc pc' : ThreadPc)
    (events : List Event) : Prop where
  | stays (same : held pc' = held pc) (still : next.position = shared.position)
      (quiet : ∀ entry, events.count (.ran entry) = 0)
  | skips (same : held pc' = held pc) (moved : next.position = shared.position + 1)
      (refused : directory.files shared.position = none) (quiet : ∀ entry, events.count (.ran entry) = 0)
  | takes (free : held pc = none) (taken : held pc' = some shared.position)
      (moved : next.position = shared.position + 1)
      (accepted : (directory.files shared.position).isSome = true)
      (quiet : ∀ entry, events.count (.ran entry) = 0)
  | runs (entry : Nat) (holding : held pc = some entry) (released : held pc' = none)
      (still : next.position = shared.position) (runnable : directory.runnable entry = true)
      (once : ∀ other, events.count (.ran other) = if other = entry then 1 else 0)

section Step
variable {shared next : Shared} {pc pc' : ThreadPc}

theorem count_reported (report : List UInt8) (entry : Nat) :
    [Event.reported report].count (.ran entry) = 0 :=
  List.count_eq_zero.mpr (by simp)

theorem count_ran (entry other : Nat) :
    [Event.ran entry].count (.ran other) = if other = entry then 1 else 0 := by
  by_cases same : other = entry
  · subst same
    rw [if_pos rfl, List.count_singleton_self]
  · rw [if_neg same, List.count_eq_zero]
    simpa using same

theorem failing_of_closed {entry : Nat} {files : JobPaths} (found : directory.files entry = some files)
    (closed : directory.opens files = false) : directory.failing entry = true := by
  unfold Directory.failing
  rw [found, Option.any_some, closed]
  rfl

theorem runnable_of_opens {entry : Nat} {files : JobPaths} (found : directory.files entry = some files)
    (opens : directory.opens files = true) : directory.runnable entry = true := by
  unfold Directory.runnable
  rw [found, Option.any_some, opens]

theorem threadStep_fits (fits : Fits directory pc)
    (ran : threadStep directory shared pc = some (next, pc')) : Fits directory pc' := by
  cases pc with
  | lock =>
    simp only [threadStep] at ran
    split_ifs at ran
    cases ran
    trivial
  | readdir =>
    simp only [threadStep] at ran
    split at ran
    next => cases ran; trivial
    next name listed =>
      split at ran
      next => cases ran; trivial
      next files accepted =>
        cases ran
        show directory.files shared.position = some files
        simp only [Directory.files, listed, accepted]
  | openInput entry files =>
    simp only [threadStep] at ran
    split_ifs at ran with opened
    · cases ran
      exact ⟨fits, opened⟩
    · cases ran
      exact failing_of_closed fits (by simp [Directory.opens, opened])
  | openOutput entry files =>
    simp only [threadStep] at ran
    split_ifs at ran with opened
    · cases ran
      exact ⟨fits.1, by simp [Directory.opens, fits.2, opened]⟩
    · cases ran
      exact failing_of_closed fits.1 (by simp [Directory.opens, opened])
  | runJob entry files =>
    cases ran
    trivial
  | failed entry => cases ran
  | exited => cases ran

theorem threadStep_moves (fits : Fits directory pc)
    (ran : threadStep directory shared pc = some (next, pc')) :
    Moves directory shared next pc pc' (threadEvents directory shared pc) := by
  cases pc with
  | lock =>
    simp only [threadStep] at ran
    split_ifs at ran
    cases ran
    exact .stays rfl rfl (fun _ => rfl)
  | readdir =>
    simp only [threadStep] at ran
    simp only [threadEvents]
    split at ran
    next => cases ran; exact .stays rfl rfl (fun _ => rfl)
    next name listed =>
      split at ran
      next report refused =>
        cases ran
        have none : directory.files shared.position = none := by
          simp only [Directory.files, listed, refused]
        exact .skips rfl rfl none (count_reported report)
      next files accepted =>
        cases ran
        have found : directory.files shared.position = some files := by
          simp only [Directory.files, listed, accepted]
        exact .takes rfl rfl rfl (by rw [found]; rfl) (fun _ => rfl)
  | openInput entry files =>
    simp only [threadStep] at ran
    simp only [threadEvents]
    split_ifs at ran ⊢
    · cases ran
      exact .stays rfl rfl (fun _ => rfl)
    · cases ran
      exact .stays rfl rfl (count_reported _)
  | openOutput entry files =>
    simp only [threadStep] at ran
    simp only [threadEvents]
    split_ifs at ran ⊢
    · cases ran
      exact .stays rfl rfl (fun _ => rfl)
    · cases ran
      exact .stays rfl rfl (count_reported _)
  | runJob entry files =>
    cases ran
    exact .runs entry rfl rfl rfl (runnable_of_opens fits.1 fits.2) (count_ran entry)
  | failed entry => cases ran
  | exited => cases ran

/-- A thread exits where the directory is at its end. -/
theorem threadStep_exited (ran : threadStep directory shared pc = some (next, .exited)) :
    directory.entries.length ≤ next.position := by
  cases pc with
  | readdir =>
    simp only [threadStep] at ran
    split at ran
    next ended =>
      cases ran
      exact List.getElem?_eq_none_iff.mp ended
    next =>
      split at ran
      · cases ran
      · cases ran
  | lock | openInput _ _ | openOutput _ _ =>
    simp only [threadStep] at ran
    split_ifs at ran
    all_goals cases ran
  | runJob _ _ | failed _ | exited => cases ran

theorem Moves.position_le {events : List Event} (moves : Moves directory shared next pc pc' events) :
    shared.position ≤ next.position := by
  cases moves <;> omega

end Step

/-! The threads that hold an entry and the entries run, against the position. -/

def holds (entry : Nat) (pc : ThreadPc) : Nat := if held pc = some entry then 1 else 0

/-- Held entries that cannot be opened; their thread is lost or about to be. -/
def doomed (directory : Directory) (pc : ThreadPc) : Nat :=
  match held pc with
  | some entry => if directory.failing entry then 1 else 0
  | none => 0

def reached (directory : Directory) (position entry : Nat) : Nat :=
  if (directory.files entry).isSome = true ∧ entry < position then 1 else 0

theorem holds_of_held {entry : Nat} {pc pc' : ThreadPc} (same : held pc' = held pc) :
    holds entry pc' = holds entry pc := by
  unfold holds
  rw [same]

theorem doomed_of_held {pc pc' : ThreadPc} (same : held pc' = held pc) :
    doomed directory pc' = doomed directory pc := by
  unfold doomed
  rw [same]

theorem doomed_le_one (pc : ThreadPc) : doomed directory pc ≤ 1 := by
  unfold doomed
  split
  · split_ifs <;> omega
  · omega

theorem reached_succ (position entry : Nat) :
    reached directory (position + 1) entry = reached directory position entry +
      if (directory.files position).isSome = true ∧ entry = position then 1 else 0 := by
  unfold reached
  by_cases same : entry = position
  · subst same
    by_cases accepted : (directory.files entry).isSome = true
    · simp [accepted]
    · simp [accepted]
  · have below : entry < position + 1 ↔ entry < position := by omega
    simp only [below, same, and_false, if_false, Nat.add_zero]

structure Invariant (directory : Directory) (trace : List Event) (state : State maxThreads) : Prop where
  fits : ∀ thread, Fits directory (state.threads thread)
  placed : ∀ entry, total (holds entry) state.threads + trace.count (.ran entry) =
    reached directory state.shared.position entry
  lost : total (doomed directory) state.threads = directory.failuresBefore state.shared.position
  early : ∀ entry, directory.runnable entry = true → entry < state.shared.position →
    directory.failuresBefore entry < maxThreads
  ended : ∀ thread, state.threads thread = .exited →
    directory.entries.length ≤ state.shared.position

theorem invariant_initial (directory : Directory) (maxThreads : Nat) :
    Invariant directory [] (initial maxThreads) where
  fits := fun _ => trivial
  placed := fun entry => by
    have none := total_eq_zero (holds entry) (initial maxThreads).threads (fun _ => rfl)
    rw [none]
    simp [reached, initial]
  lost := total_eq_zero (doomed directory) (initial maxThreads).threads (fun _ => rfl)
  early := fun _ _ low => absurd low (Nat.not_lt_zero _)
  ended := fun _ exited => by cases exited

section Keeps
variable {trace : List Event} {state : State maxThreads} {thread : Fin maxThreads}
  {result : Shared × ThreadPc} {events : List Event}

theorem placed_step {entry : Nat}
    (placed : total (holds entry) state.threads + trace.count (.ran entry) =
      reached directory state.shared.position entry)
    (moves : Moves directory state.shared result.1 (state.threads thread) result.2 events) :
    total (holds entry) (state.withThread thread result).threads + (trace ++ events).count (.ran entry) =
      reached directory result.1.position entry := by
  have changed := total_update (holds entry) state.threads thread result.2
  show total (holds entry) (Function.update state.threads thread result.2) + _ = _
  rw [List.count_append]
  cases moves with
  | stays same still quiet =>
    rw [holds_of_held same] at changed
    rw [still, quiet entry]
    omega
  | skips same moved refused quiet =>
    rw [holds_of_held same] at changed
    rw [moved, quiet entry, reached_succ, refused]
    simp only [Option.isSome_none, Bool.false_eq_true, false_and, if_false]
    omega
  | takes free taken moved accepted quiet =>
    rw [moved, quiet entry, reached_succ, accepted]
    simp only [holds, free, taken, Option.some.injEq, reduceCtorEq, if_false] at changed
    simp only [true_and, eq_comm (a := entry)]
    omega
  | runs other holding released still runnable once =>
    rw [still, once entry]
    simp only [holds, holding, released, Option.some.injEq, reduceCtorEq, if_false] at changed
    simp only [eq_comm (a := other)] at changed
    omega

theorem lost_step
    (lost : total (doomed directory) state.threads = directory.failuresBefore state.shared.position)
    (moves : Moves directory state.shared result.1 (state.threads thread) result.2 events) :
    total (doomed directory) (state.withThread thread result).threads =
      directory.failuresBefore result.1.position := by
  have changed := total_update (doomed directory) state.threads thread result.2
  show total (doomed directory) (Function.update state.threads thread result.2) = _
  cases moves with
  | stays same still quiet =>
    rw [doomed_of_held same] at changed
    rw [still]
    omega
  | skips same moved refused quiet =>
    have fine : directory.failing state.shared.position = false := by
      simp [Directory.failing, refused]
    rw [doomed_of_held same] at changed
    rw [moved, directory.failuresBefore_succ, fine]
    simp only [Bool.false_eq_true, if_false]
    omega
  | takes free taken moved accepted quiet =>
    rw [moved, directory.failuresBefore_succ]
    simp only [doomed, free, taken] at changed
    omega
  | runs entry holding released still runnable once =>
    simp only [doomed, holding, released, Directory.not_failing_of_runnable runnable,
      Bool.false_eq_true, if_false] at changed
    rw [still]
    omega

/-- The thread that takes an entry is not one of those lost before it. -/
theorem early_step (invariant : Invariant directory trace state)
    (moves : Moves directory state.shared result.1 (state.threads thread) result.2 events)
    {entry : Nat} (runs : directory.runnable entry = true) (below : entry < result.1.position) :
    directory.failuresBefore entry < maxThreads := by
  by_cases before : entry < state.shared.position
  · exact invariant.early entry runs before
  · cases moves with
    | stays same still quiet => omega
    | runs other holding released still runnable once => omega
    | skips same moved refused quiet =>
      have here : entry = state.shared.position := by omega
      have accepted := Directory.files_isSome_of_runnable runs
      rw [here, refused] at accepted
      cases accepted
    | takes free taken moved accepted quiet =>
      have here : entry = state.shared.position := by omega
      have alive : doomed directory (state.threads thread) = 0 := by simp only [doomed, free]
      have others := total_lt_card (doomed directory) state.threads doomed_le_one thread alive
      rw [here, ← invariant.lost]
      simpa using others

theorem invariant_step {next : State maxThreads} (invariant : Invariant directory trace state)
    (taken : (machine directory maxThreads).step state thread = some next) :
    Invariant directory (trace ++ (machine directory maxThreads).observe state thread) next := by
  obtain ⟨result, ran, same⟩ := Option.map_eq_some_iff.mp taken
  have moves := threadStep_moves (invariant.fits thread) ran
  subst same
  constructor
  case fits =>
    apply (Function.forall_update_iff state.threads fun _ => Fits directory).mpr
    exact ⟨threadStep_fits (invariant.fits thread) ran, fun other _ => invariant.fits other⟩
  case placed => exact fun entry => placed_step (invariant.placed entry) moves
  case lost => exact lost_step invariant.lost moves
  case early => exact fun entry runs below => early_step invariant moves runs below
  case ended =>
    apply (Function.forall_update_iff state.threads fun _ pc =>
      pc = .exited → directory.entries.length ≤ result.1.position).mpr
    refine ⟨fun exited => ?_, fun other _ exited => (invariant.ended other exited).trans moves.position_le⟩
    obtain ⟨shared, pc⟩ := result
    cases exited
    exact threadStep_exited ran

end Keeps

variable {trace : List Event} {state : State maxThreads}

theorem invariant_of_run (run : Run (machine directory maxThreads) Always (initial maxThreads) trace state) :
    Invariant directory trace state :=
  run.induct (Invariant directory) (invariant_initial directory maxThreads)
    (fun _ _ _ _ invariant _ taken => invariant_step invariant taken)

theorem ran_at_most_once (run : Run (machine directory maxThreads) Always (initial maxThreads) trace state)
    (entry : Nat) : trace.count (.ran entry) ≤ 1 := by
  have placed := (invariant_of_run run).placed entry
  unfold reached at placed
  split_ifs at placed <;> omega

/-- A thread that has finished and holds an entry could not open it. -/
theorem failing_of_finished {pc : ThreadPc} {entry : Nat} (fits : Fits directory pc)
    (finished : pc.finished = true) (holding : held pc = some entry) : directory.failing entry = true := by
  cases pc with
  | failed other =>
    cases holding
    exact fits
  | exited => cases holding
  | lock | readdir => cases holding
  | openInput _ _ | openOutput _ _ | runJob _ _ => cases finished

theorem count_of_finished (invariant : Invariant directory trace state) (finished : state.Finished)
    {entry : Nat} (runs : directory.runnable entry = true) :
    trace.count (.ran entry) = if entry < state.shared.position then 1 else 0 := by
  have free : total (holds entry) state.threads = 0 := by
    apply total_eq_zero
    intro thread
    refine if_neg (fun holding => ?_)
    have fails := failing_of_finished (invariant.fits thread) (finished thread) holding
    rw [Directory.not_failing_of_runnable runs] at fails
    cases fails
  have placed := invariant.placed entry
  rw [free, Nat.zero_add] at placed
  rw [placed]
  simp only [reached, Directory.files_isSome_of_runnable runs, true_and]

/-- Entries are left only where every thread is lost. -/
theorem all_lost (invariant : Invariant directory trace state) (finished : state.Finished)
    (left : state.shared.position < directory.entries.length) :
    directory.failuresBefore state.shared.position = maxThreads := by
  have everyone : ∀ thread, doomed directory (state.threads thread) = 1 := by
    intro thread
    cases pc : state.threads thread with
    | failed entry =>
      have fits := invariant.fits thread
      rw [pc] at fits
      have fails : directory.failing entry = true := fits
      simp only [doomed, held, fails, if_true]
    | exited =>
      have ended := invariant.ended thread pc
      omega
    | lock | readdir | openInput _ _ | openOutput _ _ | runJob _ _ =>
      have active := finished thread
      rw [pc] at active
      cases active
  rw [← invariant.lost, total_eq_card _ _ everyone, Fintype.card_fin]

theorem reached_iff (invariant : Invariant directory trace state) (finished : state.Finished)
    {entry : Nat} (runs : directory.runnable entry = true) :
    entry < state.shared.position ↔ directory.failuresBefore entry < maxThreads := by
  constructor
  · exact invariant.early entry runs
  · intro few
    by_contra missed
    have listed : entry < directory.entries.length := by
      by_contra beyond
      have accepted := Directory.files_isSome_of_runnable runs
      rw [Directory.files_eq_none_of_end (Nat.not_lt.mp beyond)] at accepted
      cases accepted
    have lost := all_lost invariant finished (by omega)
    have more := directory.failuresBefore_mono (Nat.not_lt.mp missed)
    omega

/-- Every entry that can be run is run exactly once if and only if fewer entries than
there are threads fail to open before it. -/
theorem jobs_run_once_iff (directory : Directory) (maxThreads : Nat) {trace : List Event}
    {state : State maxThreads}
    (run : Run (machine directory maxThreads) Always (initial maxThreads) trace state)
    (finished : state.Finished) :
    (∀ entry, directory.runnable entry = true → trace.count (.ran entry) = 1) ↔
      ∀ entry, directory.runnable entry = true → directory.failuresBefore entry < maxThreads := by
  have invariant := invariant_of_run run
  apply forall_congr'
  intro entry
  apply imp_congr_right
  intro runs
  rw [count_of_finished invariant finished runs, ← reached_iff invariant finished runs]
  split_ifs with below
  · simp [below]
  · simp [below]

/-- Two jobs, of which `a.job` cannot be opened. -/
def mixedDirectory : Directory where
  dirName := literal "jobs"
  entries := [literal ".", literal "a.job", literal "b.job"]
  opensInput := fun inPath => inPath ≠ literal "jobs/a.job"
  opensOutput := fun _ => true

theorem few_failures {entry : Nat} (runs : mixedDirectory.runnable entry = true) :
    mixedDirectory.failuresBefore entry < 2 := by
  have listed : entry ≤ 3 := by
    by_contra beyond
    have accepted := Directory.files_isSome_of_runnable runs
    rw [Directory.files_eq_none_of_end (show 3 ≤ entry by omega)] at accepted
    cases accepted
  calc
    mixedDirectory.failuresBefore entry ≤ mixedDirectory.failuresBefore 3 :=
      mixedDirectory.failuresBefore_mono listed
    _ < 2 := by decide

/-- With two threads the second one runs the job that is left. -/
theorem job_run_by_other_thread : ∃ trace state,
    Run (machine mixedDirectory 2) Always (initial 2) trace state ∧ state.Finished ∧
      ∀ entry, mixedDirectory.runnable entry = true → trace.count (.ran entry) = 1 := by
  obtain ⟨trace, state, run, finished⟩ := exists_run (machine mixedDirectory 2) Always (initial 2)
    (fun _ state => state.Finished) [0, 0, 0, 0, 1, 1, 1, 1, 1, 1, 1] (by decide)
  exact ⟨trace, state, run, finished,
    (jobs_run_once_iff mixedDirectory 2 run finished).mpr (fun _ runs => few_failures runs)⟩

/-- With one thread the failed `open` of `a.job` ends the work: `b.job` is not run. -/
theorem job_left_after_failed_open : ∃ trace state,
    Run (machine mixedDirectory 1) Always (initial 1) trace state ∧ state.Finished ∧
      mixedDirectory.runnable 2 = true ∧ trace.count (.ran 2) = 0 :=
  exists_run (machine mixedDirectory 1) Always (initial 1)
    (fun trace state => state.Finished ∧ mixedDirectory.runnable 2 = true ∧ trace.count (.ran 2) = 0)
    [0, 0, 0, 0] (by decide)

end IstKvs.JobDispatch
