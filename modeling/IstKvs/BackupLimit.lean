import IstKvs.Operations
import IstKvs.Library.LabelledRuns
import IstKvs.Library.ThreadPool

/-! BACKUP in the job threads. The counter only grows: at the limit a thread waits
for a child to exit and forks in its place. The permit is taken in one critical
section and used after it, so the child waited for may not be forked yet. -/

namespace IstKvs.BackupLimit
open LabelledRuns ThreadPool Operations

/-- `n_current_backups_lock`, `active_backups`, and the children of the process:
those that run, and those that have exited and were not reaped. -/
structure Shared where
  countLock : Bool
  activeBackups : Nat
  running : Nat
  zombies : Nat
  deriving DecidableEq

/-- The next statement of a BACKUP command. -/
inductive ThreadPc where
  | idle
  | lock
  | count
  | wait
  | unlock
  | fork
  deriving DecidableEq

/-- `wait(NULL)`: it reaps a child, blocks while all of them run, and returns at once
where there is none. No signal interrupts it. -/
def waitChild (shared : Shared) : Option Shared :=
  if 0 < shared.zombies then some { shared with zombies := shared.zombies - 1 }
  else if 0 < shared.running then none
  else some shared

/-- `kvs_backup`, as the parent sees it: -1 for a fork that fails, and 0. -/
def kvsBackup (forks : Bool) (shared : Shared) : Shared × Int :=
  if forks then ({ shared with running := shared.running + 1 }, 0) else (shared, -1)

def threadStep (maxBackups : Nat) (forks : Bool) (shared : Shared) :
    ThreadPc → Option (Shared × ThreadPc)
  | .idle => none
  | .lock => if shared.countLock then none else some ({ shared with countLock := true }, .count)
  | .count =>
      if maxBackups ≤ shared.activeBackups then some (shared, .wait)
      else some ({ shared with activeBackups := shared.activeBackups + 1 }, .unlock)
  | .wait => (waitChild shared).map fun shared => (shared, .unlock)
  | .unlock => some ({ shared with countLock := false }, .fork)
  | .fork => some ((kvsBackup forks shared).1, .idle)

structure State (jobs : Nat) where
  shared : Shared
  threads : Fin jobs → ThreadPc

variable {maxBackups jobs : Nat}

def State.withThread (state : State jobs) (thread : Fin jobs) (result : Shared × ThreadPc) : State jobs :=
  ⟨result.1, Function.update state.threads thread result.2⟩

/-- `backup` is a job thread that comes to a BACKUP command; `exit` is a child. -/
inductive Action (jobs : Nat) where
  | backup (thread : Fin jobs)
  | thread (thread : Fin jobs) (forks : Bool)
  | exit

def step (maxBackups : Nat) (state : State jobs) : Action jobs → Option (State jobs)
  | .backup thread =>
      if state.threads thread = .idle then some (state.withThread thread (state.shared, .lock)) else none
  | .thread thread forks =>
      (threadStep maxBackups forks state.shared (state.threads thread)).map (state.withThread thread)
  | .exit =>
      if 0 < state.shared.running then
        some { state with shared :=
          { state.shared with running := state.shared.running - 1, zombies := state.shared.zombies + 1 } }
      else none

/-- The lines on the standard error. -/
def observe (state : State jobs) : Action jobs → List (List UInt8)
  | .thread thread forks =>
      if state.threads thread = .fork ∧ (kvsBackup forks state.shared).2 < 0 then
        [text "Failed to do backup\n"]
      else []
  | .backup _ | .exit => []

def machine (maxBackups jobs : Nat) : Machine (State jobs) (Action jobs) (List UInt8) where
  step := step maxBackups
  observe := observe

def initial (jobs : Nat) : State jobs := ⟨⟨false, 0, 0, 0⟩, fun _ => .idle⟩

/-- A BACKUP that was let through and has not forked. -/
def permit : ThreadPc → Nat
  | .unlock | .fork => 1
  | .idle | .lock | .count | .wait => 0

/-- The wait at the limit does not return for want of children while the whole
limit is taken by threads that are still to fork. -/
def Covered (maxBackups : Nat) (state : State jobs) : Action jobs → Prop
  | .thread thread _ => state.threads thread = .wait ∧ state.shared.running = 0 ∧ state.shared.zombies = 0 →
      total permit state.threads < maxBackups
  | .backup _ | .exit => True

instance (maxBackups : Nat) (state : State jobs) (action : Action jobs) :
    Decidable (Covered maxBackups state action) :=
  match action with
  | .thread thread _ => inferInstanceAs (Decidable (state.threads thread = .wait ∧
      state.shared.running = 0 ∧ state.shared.zombies = 0 → total permit state.threads < maxBackups))
  | .backup _ | .exit => isTrue trivial

/-- Permits and children fit the counter, which is full where a thread waits. -/
structure Invariant (maxBackups : Nat) (state : State jobs) : Prop where
  accounted : total permit state.threads + state.shared.running + state.shared.zombies ≤
    state.shared.activeBackups
  limited : state.shared.activeBackups ≤ maxBackups
  full : ∀ thread, state.threads thread = .wait → maxBackups ≤ state.shared.activeBackups

theorem invariant_initial (maxBackups jobs : Nat) : Invariant maxBackups (initial jobs) where
  accounted := by
    rw [total_eq_zero permit (initial jobs).threads (fun _ => rfl)]
    exact le_refl 0
  limited := Nat.zero_le _
  full := fun _ waiting => by cases waiting

section Keeps
variable {state : State jobs} {thread : Fin jobs} {result : Shared × ThreadPc}

/-- The counter does not fall, and a thread comes to wait only at the limit. -/
theorem full_step (full : ∀ thread, state.threads thread = .wait → maxBackups ≤ state.shared.activeBackups)
    (grows : state.shared.activeBackups ≤ result.1.activeBackups)
    (arrives : result.2 = .wait → maxBackups ≤ result.1.activeBackups) :
    ∀ other, (state.withThread thread result).threads other = .wait →
      maxBackups ≤ (state.withThread thread result).shared.activeBackups :=
  (Function.forall_update_iff state.threads fun _ pc => pc = .wait → maxBackups ≤ result.1.activeBackups).mpr
    ⟨arrives, fun other _ waiting => (full other waiting).trans grows⟩

theorem invariant_backup (invariant : Invariant maxBackups state) (idle : state.threads thread = .idle) :
    Invariant maxBackups (state.withThread thread (state.shared, .lock)) where
  accounted := by
    have changed := total_update permit state.threads thread .lock
    have accounted := invariant.accounted
    rw [idle] at changed
    simp only [permit] at changed
    show total permit (Function.update state.threads thread .lock) + state.shared.running +
      state.shared.zombies ≤ state.shared.activeBackups
    omega
  limited := invariant.limited
  full := full_step invariant.full (le_refl _) (fun waiting => by cases waiting)

theorem invariant_exit (invariant : Invariant maxBackups state) (runs : 0 < state.shared.running) :
    Invariant maxBackups { state with shared :=
      { state.shared with running := state.shared.running - 1, zombies := state.shared.zombies + 1 } } where
  accounted := by
    have accounted := invariant.accounted
    show total permit state.threads + (state.shared.running - 1) + (state.shared.zombies + 1) ≤
      state.shared.activeBackups
    omega
  limited := invariant.limited
  full := invariant.full

/-- What a step of one BACKUP does to the permits, the children and the counter. -/
inductive Moves (maxBackups : Nat) (shared next : Shared) : ThreadPc → ThreadPc → Prop where
  | lock (children : next.running + next.zombies = shared.running + shared.zombies)
      (same : next.activeBackups = shared.activeBackups) : Moves maxBackups shared next .lock .count
  | full (unchanged : next = shared) (limit : maxBackups ≤ shared.activeBackups) :
      Moves maxBackups shared next .count .wait
  | counted (children : next.running + next.zombies = shared.running + shared.zombies)
      (below : shared.activeBackups < maxBackups) (grown : next.activeBackups = shared.activeBackups + 1) :
      Moves maxBackups shared next .count .unlock
  | reaped (children : next.running + next.zombies + 1 = shared.running + shared.zombies)
      (same : next.activeBackups = shared.activeBackups) : Moves maxBackups shared next .wait .unlock
  | childless (unchanged : next = shared) (runs : shared.running = 0) (zombies : shared.zombies = 0) :
      Moves maxBackups shared next .wait .unlock
  | unlock (children : next.running + next.zombies = shared.running + shared.zombies)
      (same : next.activeBackups = shared.activeBackups) : Moves maxBackups shared next .unlock .fork
  | fork (children : next.running + next.zombies ≤ shared.running + shared.zombies + 1)
      (same : next.activeBackups = shared.activeBackups) : Moves maxBackups shared next .fork .idle

theorem threadStep_moves {forks : Bool} {shared next : Shared} {pc pc' : ThreadPc}
    (ran : threadStep maxBackups forks shared pc = some (next, pc')) :
    Moves maxBackups shared next pc pc' := by
  cases pc with
  | idle => cases ran
  | lock =>
    simp only [threadStep] at ran
    split_ifs at ran
    cases ran
    exact .lock rfl rfl
  | count =>
    simp only [threadStep] at ran
    split_ifs at ran with limit
    · cases ran
      exact .full rfl limit
    · cases ran
      exact .counted rfl (Nat.not_le.mp limit) rfl
  | wait =>
    simp only [threadStep, waitChild] at ran
    split_ifs at ran with exited runs
    · cases ran
      exact .reaped (by show shared.running + (shared.zombies - 1) + 1 = _; omega) rfl
    · cases ran
    · cases ran
      exact .childless rfl (by omega) (by omega)
  | unlock =>
    cases ran
    exact .unlock rfl rfl
  | fork =>
    cases ran
    refine .fork ?_ ?_
    · unfold kvsBackup
      split_ifs
      · show shared.running + 1 + shared.zombies ≤ _
        omega
      · exact Nat.le_succ _
    · unfold kvsBackup
      split_ifs <;> rfl

theorem accounted_thread (invariant : Invariant maxBackups state) {next : Shared} {pc pc' : ThreadPc}
    (current : state.threads thread = pc)
    (covered : pc = .wait ∧ state.shared.running = 0 ∧ state.shared.zombies = 0 →
      total permit state.threads < maxBackups)
    (moves : Moves maxBackups state.shared next pc pc') :
    total permit (Function.update state.threads thread pc') + next.running + next.zombies ≤
      next.activeBackups := by
  have changed := total_update permit state.threads thread pc'
  have accounted := invariant.accounted
  rw [current] at changed
  cases moves with
  | full unchanged limit =>
    subst unchanged
    simp only [permit] at changed
    omega
  | childless unchanged runs zombies =>
    -- nothing was reaped, so the new permit needs room under the counter
    have room := covered ⟨rfl, runs, zombies⟩
    have limit := invariant.full thread current
    subst unchanged
    simp only [permit] at changed
    omega
  | lock | counted | reaped | unlock | fork =>
    simp only [permit] at changed
    omega

theorem invariant_thread (invariant : Invariant maxBackups state)
    (covered : state.threads thread = .wait ∧ state.shared.running = 0 ∧ state.shared.zombies = 0 →
      total permit state.threads < maxBackups)
    (moves : Moves maxBackups state.shared result.1 (state.threads thread) result.2) :
    Invariant maxBackups (state.withThread thread result) where
  accounted := accounted_thread invariant rfl covered moves
  limited := by
    have limited := invariant.limited
    show result.1.activeBackups ≤ maxBackups
    generalize state.threads thread = pc, result.2 = pc' at moves
    cases moves with
    | full unchanged _ | childless unchanged _ _ => rw [unchanged]; exact limited
    | lock | counted | reaped | unlock | fork => omega
  full := by
    apply full_step invariant.full
    · generalize state.threads thread = pc, result.2 = pc' at moves
      cases moves with
      | full unchanged _ | childless unchanged _ _ => rw [unchanged]
      | lock | counted | reaped | unlock | fork => omega
    · intro waiting
      rw [waiting] at moves
      generalize state.threads thread = pc at moves
      cases moves with
      | full unchanged limit => rw [unchanged]; exact limit

theorem invariant_step {action : Action jobs} {next : State jobs} (invariant : Invariant maxBackups state)
    (covered : Covered maxBackups state action) (taken : step maxBackups state action = some next) :
    Invariant maxBackups next := by
  cases action with
  | backup thread =>
    simp only [step] at taken
    split_ifs at taken with idle
    cases taken
    exact invariant_backup invariant idle
  | thread thread forks =>
    obtain ⟨result, ran, same⟩ := Option.map_eq_some_iff.mp taken
    subst same
    exact invariant_thread invariant covered (threadStep_moves ran)
  | exit =>
    simp only [step] at taken
    split_ifs at taken with runs
    cases taken
    exact invariant_exit invariant runs

end Keeps

variable {trace : List (List UInt8)} {state : State jobs}

theorem invariant_of_run (run : Run (machine maxBackups jobs) (Covered maxBackups) (initial jobs) trace state) :
    Invariant maxBackups state :=
  run.invariant (Invariant maxBackups) (invariant_initial maxBackups jobs)
    (fun _ _ _ invariant covered taken => invariant_step invariant covered taken)

/-- While every wait at the limit is covered, at most `max_backups` children run. -/
theorem backups_limited
    (run : Run (machine maxBackups jobs) (Covered maxBackups) (initial jobs) trace state) :
    state.shared.running ≤ maxBackups := by
  have invariant := invariant_of_run run
  have accounted := invariant.accounted
  have limited := invariant.limited
  omega

/-! The condition is not too strong: past a wait that is not covered, the limit can be
exceeded. Every permit can become a child before any child exits. -/

/-- The steps a thread is from its fork. -/
def stepsToFork : ThreadPc → Nat
  | .unlock => 2
  | .fork => 1
  | .idle | .lock | .count | .wait => 0

theorem children_of_permits (maxBackups : Nat) (state : State jobs) :
    ∃ later last, Run (machine maxBackups jobs) Always state later last ∧
      state.shared.running + total permit state.threads ≤ last.shared.running := by
  induction steps : total stepsToFork state.threads using Nat.strong_induction_on generalizing state with
  | _ steps ih =>
    have advance : ∀ thread (result : Shared × ThreadPc), threadStep maxBackups true state.shared
        (state.threads thread) = some result → stepsToFork result.2 < stepsToFork (state.threads thread) →
        state.shared.running + permit (state.threads thread) ≤ result.1.running + permit result.2 →
        ∃ later last, Run (machine maxBackups jobs) Always state later last ∧
          state.shared.running + total permit state.threads ≤ last.shared.running := by
      intro thread result ran closer kept
      have fewer := total_update stepsToFork state.threads thread result.2
      have permits := total_update permit state.threads thread result.2
      obtain ⟨later, last, rest, grown⟩ := ih (total stepsToFork
        (Function.update state.threads thread result.2)) (by omega) (state.withThread thread result) rfl
      have first : Run (machine maxBackups jobs) Always state
          ((machine maxBackups jobs).observe state (.thread thread true)) (state.withThread thread result) :=
        .single trivial (congrArg (Option.map (state.withThread thread)) ran)
      refine ⟨_, last, first.append rest, ?_⟩
      change result.1.running + total permit (Function.update state.threads thread result.2) ≤ _ at grown
      omega
    by_cases done : ∀ thread, permit (state.threads thread) = 0
    · exact ⟨[], state, .refl, by rw [total_eq_zero permit state.threads done]; exact le_refl _⟩
    · obtain ⟨thread, permitted⟩ := not_forall.mp done
      cases current : state.threads thread with
      | unlock =>
        apply advance thread ({ state.shared with countLock := false }, .fork)
        · rw [current]
          rfl
        · rw [current]
          simp [stepsToFork]
        · rw [current]
          exact le_refl _
      | fork =>
        apply advance thread ({ state.shared with running := state.shared.running + 1 }, .idle)
        · rw [current]
          rfl
        · rw [current]
          simp [stepsToFork]
        · rw [current]
          exact le_refl _
      | idle | lock | count | wait =>
        rw [current] at permitted
        exact absurd rfl permitted

theorem limit_exceeded_of_uncovered {thread : Fin jobs} {forks : Bool}
    (run : Run (machine maxBackups jobs) Always (initial jobs) trace state)
    (uncovered : ¬Covered maxBackups state (.thread thread forks)) :
    ∃ later last, Run (machine maxBackups jobs) Always (initial jobs) later last ∧
      maxBackups < last.shared.running := by
  obtain ⟨⟨waiting, running, zombies⟩, taken⟩ := Classical.not_imp.mp uncovered
  have ran : threadStep maxBackups forks state.shared (state.threads thread) =
      some (state.shared, .unlock) := by
    rw [waiting]
    simp [threadStep, waitChild, running, zombies]
  have passed : Run (machine maxBackups jobs) Always state
      ((machine maxBackups jobs).observe state (.thread thread forks)) (state.withThread thread (state.shared, .unlock)) :=
    .single trivial (congrArg (Option.map (state.withThread thread)) ran)
  have permits := total_update permit state.threads thread .unlock
  rw [waiting] at permits
  simp only [permit] at permits
  obtain ⟨later, last, rest, grown⟩ := children_of_permits maxBackups
    (state.withThread thread (state.shared, .unlock))
  refine ⟨_, last, (run.append passed).append rest, ?_⟩
  change state.shared.running + total permit (Function.update state.threads thread .unlock) ≤ _ at grown
  omega

/-- A second BACKUP waits for the child of the first one and takes its place. -/
theorem limited_after_reaped_child : ∃ trace state,
    Run (machine 1 2) (Covered 1) (initial 2) trace state ∧
      state.threads 1 = .idle ∧ state.shared.activeBackups = 1 ∧ state.shared.running ≤ 1 := by
  obtain ⟨trace, state, run, returned, full⟩ := exists_run (machine 1 2) (Covered 1) (initial 2)
    (fun _ state => state.threads 1 = .idle ∧ state.shared.activeBackups = 1 ∧ state.shared.running = 1)
    ([.backup 0] ++ List.replicate 4 (.thread 0 true) ++ [.backup 1] ++ List.replicate 2 (.thread 1 true) ++
      [.exit] ++ List.replicate 3 (.thread 1 true)) (by decide)
  exact ⟨trace, state, run, returned, full.1, backups_limited run⟩

/-- The second BACKUP comes to wait before the first has forked: it does not wait, and
two children run where one is allowed. -/
theorem two_backups_at_limit_one : ∃ trace state,
    Run (machine 1 2) Always (initial 2) trace state ∧ 1 < state.shared.running :=
  exists_run (machine 1 2) Always (initial 2) (fun _ state => 1 < state.shared.running)
    ([.backup 0] ++ List.replicate 3 (.thread 0 true) ++ [.backup 1] ++ List.replicate 4 (.thread 1 true) ++
      [.thread 1 true, .thread 0 true]) (by decide)

end IstKvs.BackupLimit
