import Mathlib.Order.WellFounded
import IstKvs.BackupLimit

/-! What holds of BACKUP in every run. A thread that does not wait long enough lets more
children run than the limit allows, but never more than there are job threads; and no
thread waits for ever, though it waits with the mutex in its hands. -/

namespace IstKvs.BackupProgress
open LabelledRuns ThreadPool Operations BackupLimit

variable {maxBackups jobs : Nat}

/-! How many children there are. -/

/-- Below the limit the counter covers the permits and the children; from then on a permit
without a child to reap is one of a thread. -/
structure Bounded (maxBackups : Nat) (state : State jobs) : Prop where
  below : state.shared.activeBackups < maxBackups →
    total permit state.threads + state.shared.running + state.shared.zombies ≤ state.shared.activeBackups
  within : total permit state.threads + state.shared.running + state.shared.zombies ≤ max maxBackups jobs
  full : ∀ thread, state.threads thread = .wait → maxBackups ≤ state.shared.activeBackups

theorem permit_le_one (pc : ThreadPc) : permit pc ≤ 1 := by
  cases pc <;> decide

theorem bounded_initial (maxBackups jobs : Nat) : Bounded maxBackups (initial jobs) where
  below := by
    intro _
    rw [total_eq_zero permit (initial jobs).threads (fun _ => rfl)]
    exact le_refl 0
  within := by
    rw [total_eq_zero permit (initial jobs).threads (fun _ => rfl)]
    exact Nat.zero_le _
  full := fun _ waiting => by cases waiting

section Keeps
variable {state : State jobs} {thread : Fin jobs} {result : Shared × ThreadPc}

/-- Where nobody has forked and a thread waits, the permits are those of other threads. -/
theorem permits_lt_jobs (waits : state.threads thread = .wait) : total permit state.threads < jobs := by
  have idle : permit (state.threads thread) = 0 := congrArg permit waits
  calc
    total permit state.threads < Fintype.card (Fin jobs) := total_lt_card permit state.threads permit_le_one thread idle
    _ = jobs := Fintype.card_fin jobs

theorem bounded_thread (bounded : Bounded maxBackups state)
    (moves : Moves maxBackups state.shared result.1 (state.threads thread) result.2) :
    Bounded maxBackups (state.withThread thread result) := by
  have changed := total_update permit state.threads thread result.2
  have below := bounded.below
  have within := bounded.within
  have waits : state.threads thread = .wait → maxBackups ≤ state.shared.activeBackups ∧ total permit state.threads < jobs :=
    fun waits => ⟨bounded.full thread waits, permits_lt_jobs waits⟩
  have counts : (result.1.activeBackups < maxBackups → total permit (Function.update state.threads thread result.2) +
        result.1.running + result.1.zombies ≤ result.1.activeBackups) ∧
      total permit (Function.update state.threads thread result.2) + result.1.running + result.1.zombies ≤ max maxBackups jobs ∧
      state.shared.activeBackups ≤ result.1.activeBackups ∧ (result.2 = .wait → maxBackups ≤ result.1.activeBackups) := by
    generalize total permit (Function.update state.threads thread result.2) = permits at changed
    generalize state.threads thread = pc, result.2 = pc' at moves changed waits
    cases moves with
    | full unchanged limit =>
      rw [unchanged]
      simp only [permit] at changed
      refine ⟨fun more => ?_, ?_, le_refl _, fun _ => limit⟩
      · have counted := below more
        omega
      · omega
    | childless unchanged runs zombies =>
      obtain ⟨limit, others⟩ := waits rfl
      rw [unchanged]
      simp only [permit] at changed
      exact ⟨fun more => by omega, by omega, le_refl _, fun same => by cases same⟩
    | lock children same | counted children same grown | unlock children same | fork children same | reaped children same =>
      simp only [permit] at changed
      exact ⟨fun more => by omega, by omega, by omega, fun same => by cases same⟩
  obtain ⟨below', within', grows, arrives⟩ := counts
  exact ⟨below', within', full_step bounded.full grows arrives⟩

theorem bounded_step {action : Action jobs} {next : State jobs} (bounded : Bounded maxBackups state)
    (taken : step maxBackups state action = some next) : Bounded maxBackups next := by
  cases action with
  | backup thread =>
    simp only [step] at taken
    split_ifs at taken with idle
    cases taken
    have changed := total_update permit state.threads thread .lock
    rw [idle] at changed
    simp only [permit, Nat.add_zero] at changed
    have full := @full_step maxBackups jobs state thread (state.shared, .lock) bounded.full (le_refl _)
      (fun same => by cases same)
    refine ⟨?_, ?_, full⟩
    · intro more
      exact changed.symm ▸ bounded.below more
    · exact changed.symm ▸ bounded.within
  | thread thread forks =>
    obtain ⟨result, ran, same⟩ := Option.map_eq_some_iff.mp taken
    subst same
    exact bounded_thread bounded (threadStep_moves ran)
  | exit =>
    simp only [step] at taken
    split_ifs at taken with runs
    cases taken
    have below := bounded.below
    have within := bounded.within
    refine ⟨?_, ?_, bounded.full⟩
    · intro more
      have counted := below more
      show total permit state.threads + (state.shared.running - 1) + (state.shared.zombies + 1) ≤ state.shared.activeBackups
      omega
    · show total permit state.threads + (state.shared.running - 1) + (state.shared.zombies + 1) ≤ max maxBackups jobs
      omega

end Keeps

/-! The mutex. -/

/-- The thread has `n_current_backups_lock`. -/
def inside : ThreadPc → Nat
  | .count | .wait | .unlock => 1
  | .idle | .lock | .fork => 0

def taken (shared : Shared) : Nat := if shared.countLock then 1 else 0

/-- One thread has the mutex where it is taken, and none where it is not. -/
def Owned (state : State jobs) : Prop := total inside state.threads = taken state.shared

theorem owned_step {state next : State jobs} {action : Action jobs} (owned : Owned state)
    (stepped : step maxBackups state action = some next) : Owned next := by
  unfold Owned at owned ⊢
  cases action with
  | backup thread =>
    simp only [step] at stepped
    split_ifs at stepped with idle
    cases stepped
    have changed := total_update inside state.threads thread .lock
    rw [idle] at changed
    exact (Nat.add_right_cancel changed).trans owned
  | thread thread forks =>
    obtain ⟨⟨shared, pc'⟩, ran, same⟩ := Option.map_eq_some_iff.mp stepped
    subst same
    have changed := total_update inside state.threads thread pc'
    have weight := weight_le_total inside state.threads thread
    show total inside (Function.update state.threads thread pc') = taken shared
    generalize state.threads thread = pc at ran changed weight
    cases pc with
    | idle => cases ran
    | lock =>
      simp only [threadStep] at ran
      split_ifs at ran with held
      cases ran
      simp only [inside, taken, held] at changed owned ⊢
      simp at owned ⊢
      omega
    | count =>
      simp only [threadStep] at ran
      split_ifs at ran
      · cases ran
        exact (Nat.add_right_cancel changed).trans owned
      · cases ran
        exact (Nat.add_right_cancel changed).trans owned
    | wait =>
      obtain ⟨later, waited, made⟩ := Option.map_eq_some_iff.mp ran
      cases made
      have same : taken shared = taken state.shared := by
        simp only [waitChild] at waited
        split_ifs at waited <;> cases waited <;> rfl
      rw [same]
      exact (Nat.add_right_cancel changed).trans owned
    | unlock =>
      cases ran
      have one : taken state.shared ≤ 1 := by
        unfold taken
        split <;> decide
      simp only [inside] at changed weight
      show _ = 0
      omega
    | fork =>
      cases ran
      have same : taken (kvsBackup forks state.shared).1 = taken state.shared := by
        unfold kvsBackup
        split <;> rfl
      rw [same]
      exact (Nat.add_right_cancel changed).trans owned
  | exit =>
    simp only [step] at stepped
    split_ifs at stepped
    cases stepped
    exact owned

/-! Every step but a new BACKUP leads towards the end. -/

def rank : ThreadPc → Nat
  | .idle => 0
  | .fork => 2
  | .unlock => 3
  | .wait => 4
  | .count => 5
  | .lock => 6

def measure (state : State jobs) : Nat := total rank state.threads + state.shared.running

/-- No job thread comes to another BACKUP. -/
def Known : Action jobs → Prop
  | .backup _ => False
  | .thread _ _ | .exit => True

theorem threadStep_rank {forks : Bool} {shared next : Shared} {pc pc' : ThreadPc}
    (ran : threadStep maxBackups forks shared pc = some (next, pc')) :
    rank pc' + next.running < rank pc + shared.running := by
  cases pc with
  | idle => cases ran
  | lock | count =>
    simp only [threadStep] at ran
    split_ifs at ran <;> cases ran <;> simp [rank]
  | wait =>
    obtain ⟨later, waited, made⟩ := Option.map_eq_some_iff.mp ran
    cases made
    simp only [waitChild] at waited
    split_ifs at waited <;> cases waited <;> simp [rank]
  | unlock =>
    cases ran
    simp [rank]
  | fork =>
    cases ran
    unfold kvsBackup
    split
    · show 0 + (shared.running + 1) < 2 + shared.running
      omega
    · show 0 + shared.running < 2 + shared.running
      omega

theorem measure_step {state next : State jobs} {action : Action jobs} (known : Known action)
    (stepped : step maxBackups state action = some next) : measure next < measure state := by
  cases action with
  | backup thread => exact known.elim
  | thread thread forks =>
    obtain ⟨⟨shared, pc'⟩, ran, same⟩ := Option.map_eq_some_iff.mp stepped
    subst same
    have less := threadStep_rank ran
    have changed := total_update rank state.threads thread pc'
    show total rank (Function.update state.threads thread pc') + shared.running < total rank state.threads + state.shared.running
    omega
  | exit =>
    simp only [step] at stepped
    split_ifs at stepped with runs
    cases stepped
    exact Nat.add_lt_add_left (Nat.sub_lt runs Nat.one_pos) _

/-- All threads are out of BACKUP, all children have exited, and the mutex is free. -/
def Rested (state : State jobs) : Prop :=
  (∀ thread, state.threads thread = .idle) ∧ state.shared.running = 0 ∧ state.shared.countLock = false

/-- Where no child exits and no thread steps but to fork, nobody is at the counter: the
thread that waits has the mutex, but a child that runs will exit. -/
theorem outside_of_stuck {state : State jobs} (owned : Owned state) (still : step maxBackups state .exit = none)
    (stuck : ∀ thread, state.threads thread ≠ .fork → step maxBackups state (.thread thread true) = none) :
    (∀ thread, state.threads thread = .idle ∨ state.threads thread = .fork) ∧
      state.shared.running = 0 ∧ state.shared.countLock = false := by
  have exited : state.shared.running = 0 := by
    simp only [step] at still
    split_ifs at still with runs
    omega
  have waiting : ∀ thread, (state.threads thread = .idle ∨ state.threads thread = .fork) ∨
      state.threads thread = .lock ∧ state.shared.countLock = true := by
    intro thread
    have blocked := stuck thread
    simp only [step, Option.map_eq_none_iff] at blocked
    cases pc : state.threads thread with
    | idle => exact .inl (.inl rfl)
    | fork => exact .inl (.inr rfl)
    | lock =>
      rw [pc] at blocked
      simp only [threadStep] at blocked
      split_ifs at blocked with held
      exact .inr ⟨rfl, held⟩
      · cases blocked (by decide)
    | count =>
      rw [pc] at blocked
      have none := blocked (by decide)
      simp only [threadStep] at none
      split_ifs at none
    | wait =>
      rw [pc] at blocked
      have none := blocked (by decide)
      simp [threadStep, waitChild, exited] at none
      split_ifs at none
    | unlock =>
      rw [pc] at blocked
      cases blocked (by decide)
  have outside : ∀ thread, inside (state.threads thread) = 0 := by
    intro thread
    rcases waiting thread with (idle | forking) | ⟨atLock, _⟩
    · exact congrArg inside idle
    · exact congrArg inside forking
    · exact congrArg inside atLock
  have free : state.shared.countLock = false := by
    have none : total inside state.threads = 0 := total_eq_zero inside state.threads outside
    unfold Owned at owned
    rw [none] at owned
    by_contra held
    rw [taken, if_pos (Bool.eq_true_of_not_eq_false held)] at owned
    cases owned
  refine ⟨?_, exited, free⟩
  intro thread
  rcases waiting thread with passed | ⟨_, held⟩
  · exact passed
  · cases held.symm.trans free

/-- Where nothing can step everything has come to its end. -/
theorem rested_of_stuck {state : State jobs} (owned : Owned state)
    (stuck : ∀ action, Known action → step maxBackups state action = none) : Rested state := by
  obtain ⟨passed, exited, free⟩ := outside_of_stuck owned (stuck .exit trivial) fun thread _ => stuck (.thread thread true) trivial
  refine ⟨fun thread => (passed thread).resolve_right fun forking => ?_, exited, free⟩
  have blocked := stuck (.thread thread true) trivial
  rw [step, forking] at blocked
  cases blocked

/-! Runs. -/

/-- The second thread comes to the limit before the first has forked. -/
def together : List (Action 2) :=
  let first : Fin 2 := ⟨0, Nat.two_pos⟩
  let second : Fin 2 := ⟨1, Nat.one_lt_two⟩
  [.backup first] ++ List.replicate 3 (.thread first true) ++ [.backup second] ++ List.replicate 5 (.thread second true) ++
    [.thread first true]

section Runs
variable {trace : List (List UInt8)} {state : State jobs}

/-- At any time there are at most as many children as the limit, or as the job threads
where these are more. -/
theorem children_bounded (run : Run (machine maxBackups jobs) Always (initial jobs) trace state) :
    state.shared.running + state.shared.zombies ≤ max maxBackups jobs := by
  have bounded := run.invariant (Bounded maxBackups) (bounded_initial maxBackups jobs)
    (fun _ _ _ bounded _ stepped => bounded_step bounded stepped)
  have within := bounded.within
  omega

/-- Two children at limit one, as many as there are threads. -/
theorem children_bounded_at_limit_one : ∃ state : State 2, state.shared.running = 2 ∧
    state.shared.running + state.shared.zombies ≤ max 1 2 := by
  obtain ⟨trace, state, run, both⟩ := exists_run (machine 1 2) Always (initial 2)
    (fun _ state => state.shared.running = 2) together (by decide)
  exact ⟨state, both, children_bounded run⟩

theorem owned_of_run (run : Run (machine maxBackups jobs) Always (initial jobs) trace state) : Owned state :=
  run.invariant Owned (total_eq_zero inside (initial jobs).threads (fun _ => rfl))
    (fun _ _ _ owned _ stepped => owned_step owned stepped)

/-- From any reachable state no schedule goes on for ever without new BACKUPs, and where it
stops all BACKUPs are done. -/
theorem every_backup_ends (run : Run (machine maxBackups jobs) Always (initial jobs) trace state) :
    (¬∃ states : Nat → State jobs, states 0 = state ∧
      ∀ count, ∃ action, Known action ∧ step maxBackups (states count) action = some (states (count + 1))) ∧
    ∀ later last, Run (machine maxBackups jobs) (fun _ => Known) state later last →
      (∀ action, Known action → step maxBackups last action = none) → Rested last := by
  have owned := owned_of_run run
  constructor
  · rintro ⟨states, _, endless⟩
    obtain ⟨count, bad⟩ := WellFounded.not_rel_apply_succ (r := (· < ·)) fun count => measure (states count)
    obtain ⟨action, known, stepped⟩ := endless count
    exact bad (measure_step known stepped)
  · intro later last goesOn stuck
    have owned' := goesOn.invariant Owned owned (fun _ _ _ owned _ stepped => owned_step owned stepped)
    exact rested_of_stuck owned' stuck

theorem every_backup_ends_at_limit_one : ∃ state : State 2, state.shared.running = 2 ∧
    (¬∃ states : Nat → State 2, states 0 = state ∧
      ∀ count, ∃ action, Known action ∧ step 1 (states count) action = some (states (count + 1))) ∧
    ∀ later last, Run (machine 1 2) (fun _ => Known) state later last →
      (∀ action, Known action → step 1 last action = none) → Rested last := by
  obtain ⟨trace, state, run, both⟩ := exists_run (machine 1 2) Always (initial 2)
    (fun _ state => state.shared.running = 2) together (by decide)
  exact ⟨state, both, every_backup_ends run⟩

end Runs

end IstKvs.BackupProgress
