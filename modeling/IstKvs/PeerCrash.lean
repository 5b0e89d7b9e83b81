import IstKvs.SlotScan

/-! Clients that go away. The server keeps the inherited action for SIGPIPE, so
one write to a pipe without a reader ends the process. A client may close its
ends safely only when neither its manager nor a job can still write to them. -/

namespace IstKvs.PeerCrash
open LabelledRuns ThreadPool Server SlotScan

variable {slots managers jobs : Nat}

/-- Whatever pipe the descriptor writes to has a reader. -/
def HasReader (shared : Shared slots) (fd : Option Nat) : Prop :=
  ∀ path, fd.bind shared.descriptors = some ⟨path, true⟩ → shared.readers path = true

theorem write_alive {shared : Shared slots} {fd : Option Nat} (heard : HasReader shared fd)
    (answer : Answer) : shared.write fd answer ≠ .killed := by
  unfold Shared.write
  split
  next path writes =>
    rw [if_pos (heard path writes)]
    split <;> simp
  next => simp

/-- Whether a session may still write to its response pipe. `active` is the flag
that the loop tests next. -/
def mayRespond (active : Bool) : SessionPc → Bool
  | .openReq | .openResp | .abort | .tail _ | .tailPost => false
  | .loop _ => active
  | _ => true

/-- Whether a session may still add a subscription. -/
def maySubscribe (active : Bool) : SessionPc → Bool
  | .checkOpen | .connectWrite | .resetSubs | .read _ | .dispatch _ _ | .subscribeStore _
  | .subscribeCount _ => true
  | .loop _ | .unsubscribeFind _ _ | .unsubscribeShift _ _ | .unsubscribeCount _
  | .disconnectKeys _ | .respond _ _ => active
  | _ => false

/-- `holds` of a manager that is in a session on `slot`. -/
def inSession (slot : Fin slots) (holds : SessionPc → Bool) : ManagerPc slots → Bool
  | .session _ own pc => own == slot && holds pc
  | _ => false

/-- Between a bound test on `slot` that holds and the end of its entry. -/
def onEntry (slot : Fin slots) : JobPc slots → Bool
  | .compare _ _ i _ | .send _ _ i _ => i == slot
  | _ => false

def Responding (state : State slots managers jobs) (slot : Fin slots) : Prop :=
  ∃ thread, inSession slot (mayRespond (state.shared.sessions slot).active) (state.managers thread) = true

def Notifiable (state : State slots managers jobs) (slot : Fin slots) : Prop :=
  0 < (state.shared.sessions slot).numSubscribedKeys ∨
    (∃ thread, onEntry slot (state.jobs thread) = true) ∨
    ∃ thread, inSession slot (maySubscribe (state.shared.sessions slot).active) (state.managers thread) = true

/-- Nobody is going to write to the pipe any more. -/
def Unneeded (state : State slots managers jobs) (path : PipePath) : Prop :=
  ∀ slot,
    (Responding state slot →
      (state.shared.sessions slot).respFd.bind state.shared.descriptors ≠ some ⟨path, true⟩) ∧
    (Notifiable state slot →
      (state.shared.sessions slot).notifFd.bind state.shared.descriptors ≠ some ⟨path, true⟩)

/-- A slot is used by one manager at a time and a client closes a read end only
when it is not needed any more. With SIGPIPE ignored nothing is asked. -/
def Careful (state : State slots managers jobs) (action : Action managers jobs) : Prop :=
  state.shared.sigpipeDefault = true → FindsUnheld state action ∧
    match action with
    | .closeReader path => Unneeded state path
    | _ => True

instance (state : State slots managers jobs) (slot : Fin slots) : Decidable (Responding state slot) :=
  inferInstanceAs (Decidable (∃ _, _))

instance (state : State slots managers jobs) (slot : Fin slots) : Decidable (Notifiable state slot) :=
  inferInstanceAs (Decidable (_ ∨ (∃ _, _) ∨ ∃ _, _))

instance (state : State slots managers jobs) (path : PipePath) : Decidable (Unneeded state path) :=
  inferInstanceAs (Decidable (∀ _, (_ → _) ∧ (_ → _)))

instance (state : State slots managers jobs) (action : Action managers jobs) :
    Decidable (Careful state action) :=
  match action with
  | .closeReader path => inferInstanceAs (Decidable (_ → _ ∧ Unneeded state path))
  | .host _ | .manager _ _ | .job _ _ | .call _ _ _ | .signal | .openReader _ =>
      inferInstanceAs (Decidable (_ → _ ∧ True))

/-! What a step does to the pipes. -/

/-- Nothing but a pipe with a reader is newly open for writing. -/
structure Kept (before after : Shared slots) : Prop where
  readers : after.readers = before.readers
  opened : ∀ fd path, after.descriptors fd = some ⟨path, true⟩ →
    before.descriptors fd = some ⟨path, true⟩ ∨ before.readers path = true

theorem kept_of_same {before after : Shared slots} (readers : after.readers = before.readers)
    (descriptors : after.descriptors = before.descriptors) : Kept before after :=
  ⟨readers, fun _ _ held => .inl (descriptors ▸ held)⟩

theorem HasReader.kept {before after : Shared slots} {fd : Option Nat} (heard : HasReader before fd)
    (kept : Kept before after) : HasReader after fd := by
  intro path writes
  rw [kept.readers]
  cases fd with
  | none => cases writes
  | some fd =>
    rcases kept.opened fd path writes with held | read
    · exact heard path held
    · exact read

theorem openFile_kept {shared : Shared slots} {descriptors : Nat → Option Descriptor} {path : PipePath}
    {writable : Bool} {fd : Option Nat}
    (ran : openFile shared.descriptors ⟨path, writable⟩ fd = some descriptors)
    (read : writable = true → fd.isSome → shared.readers path = true) (other : Nat) (onto : PipePath)
    (writes : descriptors other = some ⟨onto, true⟩) :
    shared.descriptors other = some ⟨onto, true⟩ ∨ shared.readers onto = true := by
  cases fd with
  | none => cases ran; exact .inl writes
  | some fd =>
    by_cases same : other = fd
    · subst same
      rw [openFile_opened ran] at writes
      cases writes
      exact .inr (read rfl rfl)
    · simp only [openFile] at ran
      split at ran
      · cases ran
        rw [Function.update_of_ne same] at writes
        exact .inl writes
      · cases ran

theorem heard_of_opened {shared after : Shared slots} {path : PipePath} {fd : Option Nat}
    (ran : openFile shared.descriptors ⟨path, true⟩ fd = some after.descriptors)
    (read : fd.isSome → after.readers path = true) : HasReader after fd := by
  intro onto writes
  cases fd with
  | none => cases writes
  | some fd =>
    have opened : after.descriptors fd = some ⟨onto, true⟩ := writes
    rw [openFile_opened ran] at opened
    cases opened
    exact read rfl

theorem sessionStep_kept {answer : Answer} {shared : Shared slots} {request : ConnectionRequest}
    {slot : Fin slots} {pc : SessionPc} {result : Shared slots × ManagerPc slots}
    (ran : sessionStep answer shared request slot pc = some result) : Kept shared result.1 := by
  revert ran
  fun_cases sessionStep answer shared request slot pc <;> intro ran
  case case1 =>
    obtain ⟨descriptors, opens, made⟩ := Option.map_eq_some_iff.mp ran
    subst made
    exact ⟨rfl, openFile_kept opens (fun writable => absurd writable Bool.false_ne_true)⟩
  case case2 | case3 =>
    obtain ⟨descriptors, opens, made⟩ := Option.map_eq_some_iff.mp ran
    subst made
    obtain ⟨opens, read⟩ := openForWriting_opened opens
    exact ⟨rfl, openFile_kept opens (fun _ => read)⟩
  all_goals cases ran
  all_goals exact kept_of_same rfl rfl

/-- The steps of a session that matter for its two pipes to the client. -/
structure Wiring (shared : Shared slots) (request : ConnectionRequest) (slot : Fin slots)
    (pc : SessionPc) (result : Shared slots × ManagerPc slots) : Prop where
  sigpipeDefault : result.1.sigpipeDefault = shared.sigpipeDefault
  respFd : pc ≠ .openResp → (result.1.sessions slot).respFd = (shared.sessions slot).respFd
  notifFd : pc ≠ .openNotif → (result.1.sessions slot).notifFd = (shared.sessions slot).notifFd
  opensResp : pc = .openResp → HasReader result.1 (result.1.sessions slot).respFd
  opensNotif : pc = .openNotif → HasReader result.1 (result.1.sessions slot).notifFd
  responds : ∀ after, result.2 = .session request slot after →
    mayRespond (result.1.sessions slot).active after = true →
      pc = .openResp ∨ mayRespond (shared.sessions slot).active pc = true
  subscribes : ∀ after, result.2 = .session request slot after →
    maySubscribe (result.1.sessions slot).active after = true →
      pc = .openNotif ∨ maySubscribe (shared.sessions slot).active pc = true
  counts : 0 < (result.1.sessions slot).numSubscribedKeys →
    0 < (shared.sessions slot).numSubscribedKeys ∨ maySubscribe (shared.sessions slot).active pc = true

theorem sessionStep_wiring {answer : Answer} {shared : Shared slots} {request : ConnectionRequest}
    {slot : Fin slots} {pc : SessionPc} {result : Shared slots × ManagerPc slots}
    (ran : sessionStep answer shared request slot pc = some result) :
    Wiring shared request slot pc result := by
  revert ran
  fun_cases sessionStep answer shared request slot pc <;> intro ran
  case case1 =>
    obtain ⟨descriptors, opens, made⟩ := Option.map_eq_some_iff.mp ran
    subst made
    constructor <;> simp [mayRespond, maySubscribe]
  case case2 | case3 =>
    obtain ⟨descriptors, opens, made⟩ := Option.map_eq_some_iff.mp ran
    subst made
    obtain ⟨opens, read⟩ := openForWriting_opened opens
    constructor
    case opensResp | opensNotif =>
      intro point
      first
        | cases point; done
        | rw [modify_sessions_self]
          exact heard_of_opened opens read
    all_goals simp [mayRespond, maySubscribe]
  all_goals cases ran
  case case9 localBuffer active => constructor <;> simp [mayRespond, maySubscribe, active]
  case case21 localBuffer =>
    constructor
    case counts =>
      intro positive
      have positive : 0 < (shared.sessions slot).numSubscribedKeys - 1 := by simpa using positive
      exact .inl (by omega)
    all_goals simp [mayRespond, maySubscribe]
  case case24 localBuffer code fd =>
    constructor
    case subscribes =>
      intro after same
      simp only [ManagerPc.session.injEq, true_and] at same
      subst same
      split <;> simp [maySubscribe, Shared.afterWrite]
    all_goals simp +contextual [mayRespond, Shared.afterWrite]
  all_goals constructor
  all_goals simp +contextual [mayRespond, maySubscribe, Shared.afterWrite, SessionData.setKey]

theorem managerStep_kept {answer : Answer} {shared : Shared slots} {pc : ManagerPc slots}
    {result : Shared slots × ManagerPc slots} (ran : managerStep answer shared pc = some result) :
    Kept shared result.1 := by
  cases pc with
  | setup request slot pc => cases ran; cases pc <;> exact kept_of_same rfl rfl
  | session request slot pc => exact sessionStep_kept ran
  | _ =>
    simp only [managerStep] at ran
    repeat' split at ran
    all_goals cases ran
    all_goals exact kept_of_same rfl rfl

/-- The host opens nothing and takes descriptors, flags and counts away. -/
structure Withdrawn (before after : Shared slots) : Prop where
  kept : Kept before after
  sigpipeDefault : after.sigpipeDefault = before.sigpipeDefault
  terminated : after.terminated = before.terminated
  respFd : ∀ slot, (after.sessions slot).respFd = (before.sessions slot).respFd
  notifFd : ∀ slot, (after.sessions slot).notifFd = (before.sessions slot).notifFd
  active : ∀ slot, (after.sessions slot).active = true → (before.sessions slot).active = true
  counts : ∀ slot, 0 < (after.sessions slot).numSubscribedKeys →
    0 < (before.sessions slot).numSubscribedKeys

theorem closeFile_kept {shared : Shared slots} {fd : Option Nat} : Kept shared (shared.close fd) := by
  refine ⟨rfl, fun other path writes => .inl ?_⟩
  cases fd with
  | none => exact writes
  | some fd =>
    by_cases same : other = fd
    · subst same
      simp [Shared.close, closeFile] at writes
    · simpa [Shared.close, closeFile, same] using writes

theorem hostStep_withdrawn {answer : Answer} {shared : Shared slots} {pc : HostPc slots}
    {result : Shared slots × HostPc slots} (ran : hostStep answer shared pc = some result) :
    Withdrawn shared result.1 := by
  cases pc with
  | sweepCloseReq i | sweepCloseResp i | sweepCloseNotif i =>
    cases ran
    exact ⟨closeFile_kept, rfl, rfl, fun _ => rfl, fun _ => rfl, fun _ held => held, fun _ held => held⟩
  | sweepActive i | sweepKeys i =>
    cases ran
    refine ⟨kept_of_same rfl rfl, rfl, rfl, ?_, ?_, ?_, ?_⟩
    all_goals
      intro slot
      by_cases same : slot = i
      · subst same
        simp
      · simp [same]
  | _ =>
    simp only [hostStep] at ran
    repeat' split at ran
    all_goals cases ran
    all_goals exact ⟨kept_of_same rfl rfl, rfl, rfl, fun _ => rfl, fun _ => rfl, fun _ held => held,
      fun _ held => held⟩

theorem mayRespond_mono {before after : Bool} (fewer : after = true → before = true) (pc : SessionPc)
    (may : mayRespond after pc = true) : mayRespond before pc = true := by
  cases pc with
  | loop => exact fewer may
  | _ => exact may

theorem maySubscribe_mono {before after : Bool} (fewer : after = true → before = true) (pc : SessionPc)
    (may : maySubscribe after pc = true) : maySubscribe before pc = true := by
  cases pc with
  | loop | unsubscribeFind | unsubscribeShift | unsubscribeCount | disconnectKeys | respond =>
    exact fewer may
  | _ => exact may

theorem inSession_mono {slot : Fin slots} {before after : SessionPc → Bool}
    (fewer : ∀ pc, after pc = true → before pc = true) {pc : ManagerPc slots}
    (inside : inSession slot after pc = true) : inSession slot before pc = true := by
  cases pc with
  | session request own pc =>
    simp only [inSession, Bool.and_eq_true] at inside ⊢
    exact ⟨inside.1, fewer pc inside.2⟩
  | _ => cases inside

theorem inSession_elim {slot : Fin slots} {holds : SessionPc → Bool} {pc : ManagerPc slots}
    (inside : inSession slot holds pc = true) :
    ∃ request inner, pc = .session request slot inner ∧ holds inner = true := by
  cases pc with
  | session request own pc =>
    simp only [inSession, Bool.and_eq_true, beq_iff_eq] at inside
    exact ⟨request, pc, by rw [inside.1], inside.2⟩
  | _ => cases inside

/-! The invariant of careful runs. -/

def entryIndex : JobPc slots → Int
  | .testBound _ _ _ j | .compare _ _ _ j | .send _ _ _ j => j
  | _ => 0

structure Heard (state : State slots managers jobs) : Prop where
  exclusive : Exclusive holder state.managers
  entries : ∀ thread, 0 ≤ entryIndex (state.jobs thread)
  respond : ∀ slot, Responding state slot → HasReader state.shared (state.shared.sessions slot).respFd
  notify : ∀ slot, Notifiable state slot → HasReader state.shared (state.shared.sessions slot).notifFd

theorem heard_initial (sigpipeDefault : Bool) : Heard (initial slots managers jobs sigpipeDefault) where
  exclusive := fun _ _ _ holds => nomatch holds
  entries := fun _ => Int.le_refl 0
  respond := fun _ ⟨_, inside⟩ => nomatch inside
  notify := fun _ _ _ writes => nomatch writes

theorem heard_host {state : State slots managers jobs} {answer : Answer}
    {result : Shared slots × HostPc slots} (heard : Heard state)
    (ran : hostStep answer state.shared state.host = some result) : Heard (state.withHost result) := by
  have less := hostStep_withdrawn ran
  refine ⟨heard.exclusive, heard.entries, fun slot => ?_, fun slot => ?_⟩
  · rintro ⟨thread, inside⟩
    have before : Responding state slot := ⟨thread, inSession_mono (mayRespond_mono (less.active slot)) inside⟩
    rw [State.withHost, less.respFd]
    exact (heard.respond slot before).kept less.kept
  · intro notifiable
    have before : Notifiable state slot := by
      rcases notifiable with positive | entry | ⟨thread, inside⟩
      · exact .inl (less.counts slot positive)
      · exact .inr (.inl entry)
      · exact .inr (.inr ⟨thread, inSession_mono (maySubscribe_mono (less.active slot)) inside⟩)
    rw [State.withHost, less.notifFd]
    exact (heard.notify slot before).kept less.kept

theorem jobStep_entry {answer : Answer} {shared : Shared slots} {pc : JobPc slots}
    {result : Shared slots × JobPc slots} (ran : jobStep answer shared pc = some result)
    (nonneg : 0 ≤ entryIndex pc) :
    0 ≤ entryIndex result.2 ∧ ∀ slot, onEntry slot result.2 = true →
      onEntry slot pc = true ∨ 0 < (shared.sessions slot).numSubscribedKeys := by
  revert ran
  fun_cases jobStep answer shared pc <;> intro ran
  all_goals cases ran
  all_goals refine ⟨by simp_all [entryIndex] <;> omega, fun slot entry => ?_⟩
  all_goals simp_all [onEntry, entryIndex] <;> omega

theorem heard_job {state : State slots managers jobs} {thread : Fin jobs} {answer : Answer}
    {result : Shared slots × JobPc slots} (heard : Heard state)
    (ran : jobStep answer state.shared (state.jobs thread) = some result) :
    Heard (state.withJob thread result) := by
  obtain ⟨nonneg, entered⟩ := jobStep_entry ran (heard.entries thread)
  obtain ⟨terminated, same⟩ := jobStep_sessions ran
  refine ⟨heard.exclusive, fun other => ?_, fun slot responding => ?_, fun slot notifiable => ?_⟩
  · by_cases moved : other = thread
    · subst moved
      simpa [State.withJob] using nonneg
    · simpa [State.withJob, moved] using heard.entries other
  · simp only [Responding, State.withJob, same] at responding
    simpa only [HasReader, State.withJob, same] using heard.respond slot responding
  · have before : Notifiable state slot := by
      simp only [Notifiable, State.withJob, same] at notifiable
      rcases notifiable with positive | ⟨other, entry⟩ | inside
      · exact .inl positive
      · by_cases moved : other = thread
        · subst moved
          rw [Function.update_self] at entry
          rcases entered slot entry with already | positive
          · exact .inr (.inl ⟨other, already⟩)
          · exact .inl positive
        · rw [Function.update_of_ne moved] at entry
          exact .inr (.inl ⟨other, entry⟩)
      · exact .inr (.inr inside)
    simpa only [HasReader, State.withJob, same] using heard.notify slot before

/-- Away from the slot it is on, a manager's step changes nothing that counts. -/
theorem step_away {answer : Answer} {shared : Shared slots} {pc : ManagerPc slots} {slot : Fin slots}
    {result : Shared slots × ManagerPc slots} (ran : managerStep answer shared pc = some result)
    (away : holder pc ≠ some slot) :
    result.1.sessions slot = shared.sessions slot ∧ ∀ holds, inSession slot holds result.2 = false := by
  have absent : ∀ {pc : ManagerPc slots}, holder pc ≠ some slot → ∀ holds, inSession slot holds pc = false := by
    intro pc away holds
    cases pc with
    | session request own pc =>
      have other : own ≠ slot := fun same => away (same ▸ rfl)
      simp [inSession, other]
    | _ => rfl
  cases managerStep_slotMove ran with
  | away sessions _ _ _ reached => exact ⟨by rw [sessions], absent (by rw [reached]; simp)⟩
  | busy | found | dropped => exact ⟨rfl, fun _ => rfl⟩
  | setup frame =>
    refine ⟨frame.others slot (fun same => away (same ▸ rfl)), absent ?_⟩
    rw [holder_of_setup frame]
    exact away
  | session frame =>
    refine ⟨frame.others slot (fun same => away (same ▸ rfl)), absent ?_⟩
    rcases holder_of_session frame with returned | kept
    · rw [returned]; simp
    · rw [kept]; exact away

/-- On its own slot, a manager that may write later could write already, or has just opened the pipe. -/
theorem step_own {answer : Answer} {shared : Shared slots} {pc : ManagerPc slots} {slot : Fin slots}
    {result : Shared slots × ManagerPc slots} (ran : managerStep answer shared pc = some result)
    (held : holder pc = some slot) :
    (inSession slot (mayRespond (result.1.sessions slot).active) result.2 = true →
      HasReader result.1 (result.1.sessions slot).respFd ∨
        (result.1.sessions slot).respFd = (shared.sessions slot).respFd ∧
        inSession slot (mayRespond (shared.sessions slot).active) pc = true) ∧
    (HasReader result.1 (result.1.sessions slot).notifFd ∨
      (result.1.sessions slot).notifFd = (shared.sessions slot).notifFd ∧
      (0 < (result.1.sessions slot).numSubscribedKeys ∨
          inSession slot (maySubscribe (result.1.sessions slot).active) result.2 = true →
        0 < (shared.sessions slot).numSubscribedKeys ∨
          inSession slot (maySubscribe (shared.sessions slot).active) pc = true)) := by
  cases pc with
  | setup request own pc =>
    cases held
    cases ran
    cases pc <;> simp [setupStep, inSession, mayRespond, maySubscribe]
  | session request own pc =>
    cases held
    have wiring := sessionStep_wiring ran
    have stays : ∀ holds, inSession slot holds result.2 = true →
        ∃ after, result.2 = .session request slot after ∧ holds after = true := by
      intro holds inside
      rcases (sessionStep_frame ran).lands with returned | ⟨after, same⟩
      · rw [returned] at inside
        cases inside
      · refine ⟨after, same, ?_⟩
        simpa [same, inSession] using inside
    constructor
    · intro inside
      obtain ⟨after, same, may⟩ := stays _ inside
      rcases wiring.responds after same may with opens | could
      · exact .inl (wiring.opensResp opens)
      · have kept : pc ≠ .openResp := by
          intro opens
          rw [opens] at could
          cases could
        exact .inr ⟨wiring.respFd kept, by simpa [inSession] using could⟩
    · by_cases opens : pc = .openNotif
      · exact .inl (wiring.opensNotif opens)
      · refine .inr ⟨wiring.notifFd opens, fun more => ?_⟩
        rcases more with positive | inside
        · exact (wiring.counts positive).imp id (fun could => by simpa [inSession] using could)
        · obtain ⟨after, same, may⟩ := stays _ inside
          have could := (wiring.subscribes after same may).resolve_left opens
          exact .inr (by simpa [inSession] using could)
  | _ => cases held

theorem heard_manager {state : State slots managers jobs} {thread : Fin managers} {answer : Answer}
    {result : Shared slots × ManagerPc slots} (heard : Heard state)
    (exclusive : Exclusive holder (state.withManager thread result).managers)
    (ran : managerStep answer state.shared (state.managers thread) = some result) :
    Heard (state.withManager thread result) := by
  have kept := managerStep_kept ran
  -- the others on a slot that is not the thread's, or nobody else on its own slot
  have elsewhere : ∀ slot, holder (state.managers thread) ≠ some slot → ∀ holds,
      (∃ other, inSession slot holds ((state.withManager thread result).managers other) = true) →
        ∃ other, inSession slot holds (state.managers other) = true := by
    intro slot away holds ⟨other, inside⟩
    by_cases moved : other = thread
    · subst moved
      simp [State.withManager, (step_away ran away).2 holds] at inside
    · simp only [State.withManager, Function.update_of_ne moved] at inside
      exact ⟨other, inside⟩
  have alone : ∀ slot, holder (state.managers thread) = some slot → ∀ holds,
      (∃ other, inSession slot holds ((state.withManager thread result).managers other) = true) →
        inSession slot holds result.2 = true := by
    intro slot held holds ⟨other, inside⟩
    by_cases moved : other = thread
    · subst moved
      simpa [State.withManager] using inside
    · simp only [State.withManager, Function.update_of_ne moved] at inside
      obtain ⟨request, inner, same, _⟩ := inSession_elim inside
      exact absurd (heard.exclusive other thread slot (by rw [same]; rfl) held) moved
  refine ⟨exclusive, heard.entries, fun slot responding => ?_, fun slot notifiable => ?_⟩
  · by_cases held : holder (state.managers thread) = some slot
    · rcases (step_own ran held).1 (alone slot held _ responding) with read | ⟨same, inside⟩
      · exact read
      · simp only [State.withManager, same]
        exact (heard.respond slot ⟨thread, inside⟩).kept kept
    · have same := (step_away ran held).1
      simp only [Responding, State.withManager, same] at responding ⊢
      exact (heard.respond slot (elsewhere slot held _ responding)).kept kept
  · by_cases held : holder (state.managers thread) = some slot
    · rcases (step_own ran held).2 with read | ⟨same, less⟩
      · exact read
      · have before : Notifiable state slot := by
          rcases notifiable with positive | entry | inside
          · exact (less (.inl positive)).imp id (fun could => .inr ⟨thread, could⟩)
          · exact .inr (.inl entry)
          · exact (less (.inr (alone slot held _ inside))).imp id (fun could => .inr ⟨thread, could⟩)
        simp only [State.withManager, same]
        exact (heard.notify slot before).kept kept
    · have same := (step_away ran held).1
      have before : Notifiable state slot := by
        simp only [Notifiable, State.withManager, same] at notifiable
        exact notifiable.imp id (fun more => more.imp id (elsewhere slot held _))
      simp only [State.withManager, same]
      exact (heard.notify slot before).kept kept

theorem heard_closeReader {state : State slots managers jobs} {path : PipePath} (heard : Heard state)
    (unneeded : Unneeded state path) :
    Heard { state with shared :=
      { state.shared with readers := Function.update state.shared.readers path false } } := by
  have other : ∀ fd, HasReader state.shared fd → fd.bind state.shared.descriptors ≠ some ⟨path, true⟩ →
      HasReader { state.shared with readers := Function.update state.shared.readers path false } fd := by
    intro fd read away onto writes
    have different : onto ≠ path := fun same => away (same ▸ writes)
    simp only [Function.update_of_ne different]
    exact read onto writes
  exact ⟨heard.exclusive, heard.entries,
    fun slot responding => other _ (heard.respond slot responding) ((unneeded slot).1 responding),
    fun slot notifiable => other _ (heard.notify slot notifiable) ((unneeded slot).2 notifiable)⟩

theorem heard_openReader {state : State slots managers jobs} (path : PipePath) (heard : Heard state) :
    Heard { state with shared :=
      { state.shared with readers := Function.update state.shared.readers path true } } := by
  have more : ∀ fd, HasReader state.shared fd →
      HasReader { state.shared with readers := Function.update state.shared.readers path true } fd := by
    intro fd read onto writes
    by_cases same : onto = path
    · subst same
      exact Function.update_self ..
    · simp only [Function.update_of_ne same]
      exact read onto writes
  exact ⟨heard.exclusive, heard.entries, fun slot responding => more _ (heard.respond slot responding),
    fun slot notifiable => more _ (heard.notify slot notifiable)⟩

theorem heard_step {state next : State slots managers jobs} {action : Action managers jobs}
    (heard : Heard state) (default : state.shared.sigpipeDefault = true) (careful : Careful state action)
    (taken : step state action = some next) : Heard next := by
  obtain ⟨unheld, needless⟩ := careful default
  have exclusive := exclusive_step heard.exclusive unheld taken
  cases (steps_of_step taken).2 with
  | host ran => exact heard_host heard ran
  | manager ran => exact heard_manager heard exclusive ran
  | job ran => exact heard_job heard ran
  | @call thread key value idle =>
    refine ⟨exclusive, fun other => ?_, heard.respond, fun slot notifiable => heard.notify slot ?_⟩
    · by_cases moved : other = thread
      · subst moved
        simp [State.withJob, entryIndex]
      · simpa [State.withJob, moved] using heard.entries other
    · refine notifiable.imp id (fun more => more.imp ?_ id)
      rintro ⟨other, entry⟩
      by_cases moved : other = thread
      · subst moved
        simp [State.withJob, onEntry] at entry
      · exact ⟨other, by simpa [State.withJob, moved] using entry⟩
  | signal => exact ⟨exclusive, heard.entries, heard.respond, heard.notify⟩
  | openReader => exact heard_openReader _ heard
  | closeReader => exact heard_closeReader heard needless

/-! Only a write can end the process. -/

theorem write_ignored {shared : Shared slots} (ignored : shared.sigpipeDefault = false)
    (fd : Option Nat) (answer : Answer) : shared.write fd answer ≠ .killed := by
  unfold Shared.write
  split
  · split
    · split <;> simp
    · simp [ignored]
  · simp

theorem sessionStep_alive {answer : Answer} {shared : Shared slots} {request : ConnectionRequest}
    {slot : Fin slots} {pc : SessionPc} {result : Shared slots × ManagerPc slots}
    (ran : sessionStep answer shared request slot pc = some result)
    (alive : shared.terminated = false)
    (harmless : mayRespond (shared.sessions slot).active pc = true →
      shared.write (shared.sessions slot).respFd answer ≠ .killed) : result.1.terminated = false := by
  revert ran
  fun_cases sessionStep answer shared request slot pc <;> intro ran
  case case1 | case2 | case3 =>
    obtain ⟨_, _, made⟩ := Option.map_eq_some_iff.mp ran
    subst made
    exact alive
  all_goals cases ran
  case case7 | case24 => exact decide_eq_false (harmless rfl)
  all_goals exact alive

theorem jobStep_alive {answer : Answer} {shared : Shared slots} {pc : JobPc slots}
    {result : Shared slots × JobPc slots} (ran : jobStep answer shared pc = some result)
    (alive : shared.terminated = false)
    (harmless : ∀ slot, onEntry slot pc = true →
      shared.write (shared.sessions slot).notifFd answer ≠ .killed) : result.1.terminated = false := by
  revert ran
  fun_cases jobStep answer shared pc <;> intro ran
  all_goals cases ran
  case case10 key value i j fd _ => exact decide_eq_false (harmless i (by simp [onEntry]))
  all_goals exact alive

theorem alive_step {state next : State slots managers jobs} {action : Action managers jobs}
    (heard : state.shared.sigpipeDefault = true → Heard state) (taken : step state action = some next) :
    next.shared.terminated = false ∧ next.shared.sigpipeDefault = state.shared.sigpipeDefault := by
  obtain ⟨alive, steps⟩ := steps_of_step taken
  have harmless : ∀ fd answer, (state.shared.sigpipeDefault = true → HasReader state.shared fd) →
      state.shared.write fd answer ≠ .killed := by
    intro fd answer read
    by_cases default : state.shared.sigpipeDefault = true
    · exact write_alive (read default) answer
    · exact write_ignored (by simpa using default) fd answer
  cases steps with
  | host ran =>
    have less := hostStep_withdrawn ran
    exact ⟨less.terminated.trans alive, less.sigpipeDefault⟩
  | @manager thread answer result ran =>
    simp only [State.withManager]
    generalize fromPc : state.managers thread = pc at ran
    cases pc with
    | session request slot pc =>
      refine ⟨sessionStep_alive ran alive (fun may => ?_), (sessionStep_wiring ran).sigpipeDefault⟩
      apply harmless
      intro default
      exact (heard default).respond slot ⟨thread, by simp [fromPc, inSession, may]⟩
    | setup request slot pc =>
      cases ran
      cases pc <;> exact ⟨alive, rfl⟩
    | _ =>
      simp only [managerStep] at ran
      repeat' split at ran
      all_goals cases ran
      all_goals exact ⟨alive, rfl⟩
  | @job thread answer result ran =>
    refine ⟨jobStep_alive ran alive (fun slot entry => ?_), ?_⟩
    · apply harmless
      intro default
      exact (heard default).notify slot (.inr (.inl ⟨thread, entry⟩))
    · obtain ⟨terminated, same⟩ := jobStep_sessions ran
      simp only [State.withJob, same]
  | call | signal | openReader | closeReader => exact ⟨alive, rfl⟩

/-- No client that goes away only when its pipes are not needed any more ends the
server, and with SIGPIPE ignored no client does. -/
theorem never_terminated {sigpipeDefault : Bool} {trace : List (Event slots)}
    {state : State slots managers jobs}
    (run : Run (machine slots managers jobs) Careful (initial slots managers jobs sigpipeDefault)
      trace state) : state.shared.terminated = false := by
  have holds : state.shared.terminated = false ∧ (state.shared.sigpipeDefault = true → Heard state) := by
    refine run.invariant
      (fun state => state.shared.terminated = false ∧ (state.shared.sigpipeDefault = true → Heard state))
      ⟨rfl, fun _ => heard_initial sigpipeDefault⟩ ?_
    intro state action next ⟨_, heard⟩ careful taken
    obtain ⟨alive, same⟩ := alive_step heard taken
    refine ⟨alive, fun default => ?_⟩
    rw [same] at default
    exact heard_step (heard default) default careful taken
  exact holds.1

/-- A client connects and its manager stands at the read of the first request. -/
def connecting (thread : Fin managers) : List (Action managers jobs) :=
  firstSession thread ++ advance thread 1

/-- The client disconnects, closes its pipes and the session ends. -/
theorem never_terminated_after_disconnect : ∃ trace state,
    Run (machine MAX_SESSION_COUNT 2 1) Careful (initial MAX_SESSION_COUNT 2 1 true) trace state ∧
      state.managers 0 = .waitFull ∧ state.shared.readers noPath = false ∧
      state.shared.terminated = false := by
  obtain ⟨trace, state, run, left, closed⟩ := exists_run (machine MAX_SESSION_COUNT 2 1) Careful
    (initial MAX_SESSION_COUNT 2 1 true)
    (fun _ state => state.managers 0 = .waitFull ∧ state.shared.readers noPath = false)
    (connecting 0 ++ [.manager 0 { bytes := some [OP_CODE_DISCONNECT] }] ++ advance 0 4 ++
      [.closeReader noPath] ++ advance 0 3) (by decide)
  exact ⟨trace, state, run, left, closed, never_terminated run⟩

/-- The client closes its pipes between two requests: the read returns 0, the
response to it raises SIGPIPE. -/
theorem terminated_by_client : ∃ trace state,
    Run (machine MAX_SESSION_COUNT 2 1) Always (initial MAX_SESSION_COUNT 2 1 true) trace state ∧
      state.shared.terminated = true := by
  apply exists_run (machine MAX_SESSION_COUNT 2 1) Always (initial MAX_SESSION_COUNT 2 1 true)
    (fun _ state => state.shared.terminated = true)
    (connecting 0 ++ [.closeReader noPath, .manager 0 { bytes := some [] }] ++ advance 0 2)
  decide

end IstKvs.PeerCrash
