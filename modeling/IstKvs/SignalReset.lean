import IstKvs.ServerFrames

/-! SIGUSR1 against the sweep of the host. The flag is cleared after the sweep, so a
signal that arrives behind it is answered by the sweep that came before. -/

namespace IstKvs.SignalReset
open LabelledRuns Server

variable {slots managers jobs : Nat}

/-- The running sweep has gone past the slot and will not close it. -/
def passed (slot : Fin slots) : HostPc slots → Bool
  | .sweepTest i => decide (slot.val < i)
  | .sweepCloseReq i | .sweepCloseResp i | .sweepCloseNotif i | .sweepActive i => decide (slot < i)
  | .sweepKeys i => decide (slot ≤ i)
  | .resetSignal => true
  | .checkSignal | .sweepLock | .readRegister | .waitEmpty _ | .store _ | .postFull => false

/-- A signal is delivered only while the host has still to come to every active session. -/
def Ahead (state : State slots managers jobs) : Action managers jobs → Prop
  | .signal => ∀ slot, (state.shared.sessions slot).active = true → passed slot state.host = false
  | _ => True

/-- The sessions that were active at a delivery of SIGUSR1 and have been active since. -/
def owe (state : State slots managers jobs) (action : Action managers jobs)
    (next : State slots managers jobs) (owed : Fin slots → Bool) : Fin slots → Bool :=
  match action with
  | .signal => fun slot => (state.shared.sessions slot).active
  | _ => fun slot => owed slot && (next.shared.sessions slot).active

/-- The server with the record of the sessions it owes an end. -/
def watched (slots managers jobs : Nat) :
    Machine (State slots managers jobs × (Fin slots → Bool)) (Action managers jobs) (Event slots) :=
  (machine slots managers jobs).withGhost owe

/-- The flag is set for the sessions owed, and the running sweep is still to come to them. -/
def Pending (state : State slots managers jobs) (owed : Fin slots → Bool) : Prop :=
  ∀ slot, owed slot = true → (state.shared.sessions slot).active = true ∧
    state.shared.sigusr1Received = true ∧ passed slot state.host = false

section Keeps
variable {slot : Fin slots} {state next : State slots managers jobs} {answer : Answer}

/-- The host comes to an active slot before it resets the flag. -/
theorem pending_host {shared : Shared slots} {pc : HostPc slots} {result : Shared slots × HostPc slots}
    (active : (shared.sessions slot).active = true) (flag : shared.sigusr1Received = true)
    (ahead : passed slot pc = false) (ran : hostStep answer shared pc = some result)
    (stays : (result.1.sessions slot).active = true) :
    result.1.sigusr1Received = true ∧ passed slot result.2 = false := by
  cases pc with
  | checkSignal =>
    simp only [hostStep, flag, if_true] at ran
    cases ran
    exact ⟨flag, rfl⟩
  | sweepLock =>
    simp only [hostStep] at ran
    split_ifs at ran
    cases ran
    exact ⟨flag, rfl⟩
  | sweepTest i =>
    simp only [passed, decide_eq_false_iff_not, not_lt] at ahead
    simp only [hostStep] at ran
    split_ifs at ran with bound found
    · cases ran
      exact ⟨flag, decide_eq_false (fun below : slot.val < i => by omega)⟩
    · cases ran
      have other : slot.val ≠ i := by
        intro same
        subst same
        exact found active
      exact ⟨flag, decide_eq_false (by omega)⟩
    · have inside := slot.isLt
      omega
  | sweepCloseReq i | sweepCloseResp i | sweepCloseNotif i =>
    cases ran
    exact ⟨flag, ahead⟩
  | sweepActive i =>
    cases ran
    have other : slot ≠ i := by
      intro same
      subst same
      simp at stays
    simp only [passed, decide_eq_false_iff_not, not_lt] at ahead
    exact ⟨flag, decide_eq_false (not_le.mpr (lt_of_le_of_ne ahead other.symm))⟩
  | sweepKeys i =>
    cases ran
    simp only [passed, decide_eq_false_iff_not, not_le] at ahead
    exact ⟨flag, decide_eq_false (by have := Fin.lt_def.mp ahead; omega)⟩
  | resetSignal => cases ahead
  | readRegister | waitEmpty | store | postFull =>
    simp only [hostStep] at ran
    repeat' split at ran
    all_goals cases ran
    all_goals exact ⟨flag, rfl⟩

theorem managerStep_sigusr1Received {shared : Shared slots} {pc : ManagerPc slots}
    {result : Shared slots × ManagerPc slots} (ran : managerStep answer shared pc = some result) :
    result.1.sigusr1Received = shared.sigusr1Received := by
  cases pc with
  | setup request slot pc =>
    cases ran
    cases pc <;> rfl
  | session request slot pc => exact (sessionStep_frame ran).sigusr1Received
  | waitFull | copy | postEmpty request | scan request i =>
    simp only [managerStep] at ran
    repeat' split at ran
    all_goals cases ran
    all_goals rfl

theorem flag_step {action : Action managers jobs} (active : (state.shared.sessions slot).active = true)
    (flag : state.shared.sigusr1Received = true) (ahead : passed slot state.host = false)
    (taken : step state action = some next) (stays : (next.shared.sessions slot).active = true) :
    next.shared.sigusr1Received = true ∧ passed slot next.host = false := by
  obtain ⟨-, stepped⟩ := steps_of_step taken
  cases stepped with
  | host ran => exact pending_host active flag ahead ran stays
  | manager ran => exact ⟨(managerStep_sigusr1Received ran).trans flag, ahead⟩
  | job ran =>
    obtain ⟨terminated, same⟩ := jobStep_sessions ran
    exact ⟨(congrArg Shared.sigusr1Received same).trans flag, ahead⟩
  | call | openReader | closeReader => exact ⟨flag, ahead⟩
  | signal => exact ⟨rfl, ahead⟩

theorem pending_step {action : Action managers jobs} {owed : Fin slots → Bool}
    (pending : Pending state owed) (met : Ahead state action) (taken : step state action = some next) :
    Pending next (owe state action next owed) := by
  intro slot due
  cases action with
  | signal =>
    obtain ⟨-, stepped⟩ := steps_of_step taken
    cases stepped
    exact ⟨due, rfl, met slot due⟩
  | host | manager | job | call | openReader | closeReader =>
    obtain ⟨before, stays⟩ := (Bool.and_eq_true _ _).mp due
    obtain ⟨active, flag, ahead⟩ := pending slot before
    exact ⟨stays, flag_step active flag ahead taken stays⟩

/-- In every run whose signals are delivered ahead of the sweep: whenever the flag is 0,
the sessions that were active at a delivery have been closed or have ended. -/
theorem sessions_ended_of_reset {sigpipeDefault : Bool} {trace : List (Event slots)}
    {state : State slots managers jobs × (Fin slots → Bool)}
    (run : Run (watched slots managers jobs) (fun state action => Ahead state.1 action)
      (initial slots managers jobs sigpipeDefault, fun _ => false) trace state)
    (reset : state.1.shared.sigusr1Received = false) (slot : Fin slots) : state.2 slot = false := by
  have pending : Pending state.1 state.2 := by
    apply run.invariant (fun state => Pending state.1 state.2) (fun _ due => by cases due)
    intro state action next pending met taken
    obtain ⟨after, stepped, same⟩ := Option.map_eq_some_iff.mp taken
    subst same
    exact pending_step pending met stepped
  by_contra due
  have flag := (pending slot (by simpa using due)).2.1
  rw [reset] at flag
  cases flag

/-! The condition is not too strong: a signal behind the sweep is forgotten. -/

/-- The steps of the host up to the reset, with every slot ahead of it active or not. -/
def stepsToReset : HostPc slots → Nat
  | .sweepTest i => 6 * (slots - i) + 1
  | .sweepCloseReq i => 6 * (slots - i) 
  | .sweepCloseResp i => 6 * (slots - i) - 1
  | .sweepCloseNotif i => 6 * (slots - i) - 2
  | .sweepActive i => 6 * (slots - i) - 3
  | .sweepKeys i => 6 * (slots - i) - 4
  | .resetSignal | .checkSignal | .sweepLock | .readRegister | .waitEmpty _ | .store _ | .postFull => 0

/-- The rest of the sweep neither ends nor touches the session it has passed. -/
theorem host_of_passed {shared : Shared slots} {pc : HostPc slots} (behind : passed slot pc = true)
    (before : pc ≠ .resetSignal) : ∃ result, hostStep {} shared pc = some result ∧
      passed slot result.2 = true ∧ stepsToReset result.2 < stepsToReset pc ∧
      (result.1.sessions slot).active = (shared.sessions slot).active ∧
      result.1.terminated = shared.terminated := by
  cases pc with
  | checkSignal | sweepLock | readRegister | waitEmpty | store | postFull => cases behind
  | resetSignal => exact absurd rfl before
  | sweepTest i =>
    have below : slot.val < i := of_decide_eq_true behind
    by_cases bound : i < slots
    · by_cases active : (shared.sessions ⟨i, bound⟩).active = true
      · refine ⟨(shared, .sweepCloseReq ⟨i, bound⟩), ?_, decide_eq_true below, ?_, rfl, rfl⟩
        · simp only [hostStep, bound, active, dif_pos, if_true]
        · exact Nat.lt_succ_self _
      · refine ⟨(shared, .sweepTest (i + 1)), ?_, decide_eq_true (by omega), ?_, rfl, rfl⟩
        · simp only [hostStep, bound, active, dif_pos, if_false, Bool.false_eq_true]
        · show 6 * (slots - (i + 1)) + 1 < 6 * (slots - i) + 1
          omega
    · refine ⟨({ shared with bufferMutex := false }, .resetSignal), ?_, rfl, ?_, rfl, rfl⟩
      · simp only [hostStep, bound, dif_neg, not_false_eq_true]
      · exact Nat.succ_pos _
  | sweepCloseReq i | sweepCloseResp i | sweepCloseNotif i =>
    refine ⟨_, rfl, behind, ?_, rfl, rfl⟩
    have inside := i.isLt
    simp only [stepsToReset]
    omega
  | sweepActive i =>
    have below : slot < i := of_decide_eq_true behind
    refine ⟨_, rfl, decide_eq_true below.le, ?_, ?_, rfl⟩
    · have inside := i.isLt
      simp only [stepsToReset]
      omega
    · rw [modify_sessions_of_ne shared i _ below.ne]
  | sweepKeys i =>
    have below : slot ≤ i := of_decide_eq_true behind
    refine ⟨_, rfl, decide_eq_true (Nat.lt_succ_of_le below), ?_, ?_, rfl⟩
    · have inside := i.isLt
      simp only [stepsToReset]
      omega
    · by_cases same : slot = i
      · rw [same, modify_sessions_self]
      · rw [modify_sessions_of_ne shared i _ same]

section Forgotten
variable {start : State slots managers jobs × (Fin slots → Bool)}

/-- The host runs on alone until it has reset the flag. -/
theorem owed_until_reset {trace : List (Event slots)} {state : State slots managers jobs × (Fin slots → Bool)}
    (run : Run (watched slots managers jobs) Always start trace state)
    (alive : state.1.shared.terminated = false) (active : (state.1.shared.sessions slot).active = true)
    (due : state.2 slot = true) (behind : passed slot state.1.host = true) :
    ∃ later last, Run (watched slots managers jobs) Always start later last ∧
      last.1.shared.sigusr1Received = false ∧ last.2 slot = true := by
  have hostMoves : ∀ result, hostStep {} state.1.shared state.1.host = some result →
      (watched slots managers jobs).step state (.host {}) =
        some (state.1.withHost result, owe state.1 (.host {}) (state.1.withHost result) state.2) := by
    intro result ran
    have moved : step state.1 (.host {}) = some (state.1.withHost result) := by
      simp only [step, alive, Bool.false_eq_true, if_false, ran, Option.map_some]
    exact congrArg (Option.map _) moved
  by_cases before : state.1.host = .resetSignal
  · have ran : hostStep {} state.1.shared state.1.host =
        some ({ state.1.shared with sigusr1Received := false }, .readRegister) := by
      rw [before]
      rfl
    exact ⟨_, _, .tail run trivial (hostMoves _ ran), rfl, (Bool.and_eq_true _ _).mpr ⟨due, active⟩⟩
  · obtain ⟨result, ran, later, closer, kept, lives⟩ := host_of_passed behind before
    have stays := kept.trans active
    exact owed_until_reset (.tail run trivial (hostMoves result ran)) (lives.trans alive) stays
      ((Bool.and_eq_true _ _).mpr ⟨due, stays⟩) later
termination_by stepsToReset state.1.host

/-- A signal that is delivered behind the sweep of an active slot can be forgotten. -/
theorem forgotten_of_passed {start state : State slots managers jobs} {trace : List (Event slots)}
    (owed : Fin slots → Bool) (run : Run (machine slots managers jobs) Always start trace state)
    (alive : state.shared.terminated = false) (active : (state.shared.sessions slot).active = true)
    (behind : passed slot state.host = true) :
    ∃ later last, Run (watched slots managers jobs) Always (start, owed) later last ∧
      last.1.shared.sigusr1Received = false ∧ last.2 slot = true := by
  obtain ⟨before, recorded⟩ := run.withGhost owe owed
  have signal : step state (.signal : Action managers jobs) =
      some { state with shared := { state.shared with sigusr1Received := true } } := by
    simp only [step, alive, Bool.false_eq_true, if_false]
  have moved : (watched slots managers jobs).step (state, before) .signal = some
      ({ state with shared := { state.shared with sigusr1Received := true } },
        fun slot => (state.shared.sessions slot).active) := congrArg (Option.map _) signal
  exact owed_until_reset (.tail recorded trivial moved) alive active active behind

end Forgotten

end Keeps

/-- A client registers and its session becomes active. -/
def oneSession : List (Action 2 0) := arrive 97 ++ advance 0 8

instance (state : State slots managers jobs) (action : Action managers jobs) : Decidable (Ahead state action) :=
  match action with
  | .signal => inferInstanceAs (Decidable (∀ slot, (state.shared.sessions slot).active = true →
      passed slot state.host = false))
  | .host _ | .manager _ _ | .job _ _ | .call _ _ _ | .openReader _ | .closeReader _ => isTrue trivial

/-- A signal while the host waits for clients: the sweep closes the session, and the
flag is 0 again. -/
theorem session_ended_by_sweep : ∃ trace state,
    Run (watched MAX_SESSION_COUNT 2 0) (fun state action => Ahead state.1 action)
      (initial MAX_SESSION_COUNT 2 0 true, fun _ => false) trace state ∧
      state.1.host = .readRegister ∧ state.2 0 = false := by
  obtain ⟨trace, state, run, reset, reads⟩ := exists_run (watched MAX_SESSION_COUNT 2 0)
    (fun state action => Ahead state.1 action) (initial MAX_SESSION_COUNT 2 0 true, fun _ => false)
    (fun _ state => state.1.shared.sigusr1Received = false ∧ state.1.host = .readRegister)
    (oneSession ++ [.signal] ++ List.replicate 11 (.host {})) (by decide)
  exact ⟨trace, state, run, reads, sessions_ended_of_reset run reset 0⟩

/-- A session that becomes active between the sweep and the reset, and a second signal
there: the reset forgets it. -/
theorem signal_forgotten : ∃ trace state,
    Run (watched MAX_SESSION_COUNT 2 0) Always (initial MAX_SESSION_COUNT 2 0 true, fun _ => false) trace state ∧
      state.1.shared.sigusr1Received = false ∧ state.2 0 = true :=
  exists_run (watched MAX_SESSION_COUNT 2 0) Always (initial MAX_SESSION_COUNT 2 0 true, fun _ => false)
    (fun _ state => state.1.shared.sigusr1Received = false ∧ state.2 0 = true)
    (arrive 97 ++ [.signal] ++ List.replicate 5 (.host {}) ++ advance 0 8 ++ [.signal, .host {}]) (by decide)

end IstKvs.SignalReset
