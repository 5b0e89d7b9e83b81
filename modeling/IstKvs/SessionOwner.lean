import IstKvs.SlotScan

/-! Whose step ends a session. The claim of a slot is taken as one step and no
SIGUSR1 arrives. Even then `handle_session` clears the flag twice, in the
DISCONNECT case and in its tail, and the slot may be claimed in between. -/

namespace IstKvs.SessionOwner
open LabelledRuns ThreadPool Server SlotScan

variable {slots managers jobs : Nat}

/-- A scan past its first test, and the lines up to `active = 1`. -/
def claiming : ManagerPc slots → Bool
  | .scan _ i => 0 < i
  | .setup _ _ _ => true
  | _ => false

/-- No SIGUSR1, and nothing happens between the first test of a scan and the
manager's `active = 1`. -/
def AtomicClaim (state : State slots managers jobs) : Action managers jobs → Prop
  | .signal => False
  | .manager thread _ => ∀ other, claiming (state.managers other) = true → other = thread
  | _ => ∀ other, claiming (state.managers other) = false

/-- The slot a manager has claimed and whose flag it has not cleared for the last time. -/
def claimant : ManagerPc slots → Option (Fin slots)
  | .setup _ slot _ => some slot
  | .session _ slot pc => if pc = .tailPost then none else some slot
  | _ => none

/-- The switch is entered with a DISCONNECT in the buffer only if the read delivered it. -/
def FreshDisconnect : ManagerPc slots → Prop
  | .session _ _ (.dispatch localBuffer bytesRead) =>
      opCode localBuffer = OP_CODE_DISCONNECT → 0 < bytesRead
  | _ => True

/-- A slot is found free only when the tail of its last session has cleared its
flag, and an end of file is not taken for a DISCONNECT. -/
def Separated (state : State slots managers jobs) : Action managers jobs → Prop
  | .manager thread _ =>
      (∀ slot ∈ found state.shared (state.managers thread),
        ∀ other, claimant (state.managers other) ≠ some slot) ∧
      FreshDisconnect (state.managers thread)
  | _ => True

def Assumed (state : State slots managers jobs) (action : Action managers jobs) : Prop :=
  AtomicClaim state action ∧ Separated state action

instance (pc : ManagerPc slots) : Decidable (FreshDisconnect pc) :=
  match pc with
  | .session _ _ (.dispatch _ _) => inferInstanceAs (Decidable (_ → _))
  | .session _ _ .openReq | .session _ _ .openResp | .session _ _ .openNotif | .session _ _ .checkOpen
  | .session _ _ .abort | .session _ _ .connectWrite | .session _ _ .resetSubs | .session _ _ (.loop _)
  | .session _ _ (.read _) | .session _ _ (.subscribeStore _) | .session _ _ (.subscribeCount _)
  | .session _ _ (.unsubscribeFind _ _) | .session _ _ (.unsubscribeShift _ _)
  | .session _ _ (.unsubscribeCount _) | .session _ _ (.disconnectActive _ _)
  | .session _ _ (.disconnectKeys _) | .session _ _ (.respond _ _) | .session _ _ (.tail _)
  | .session _ _ .tailPost | .waitFull | .copy | .postEmpty _ | .scan _ _ | .setup _ _ _ => isTrue trivial

instance (state : State slots managers jobs) (action : Action managers jobs) :
    Decidable (AtomicClaim state action) :=
  match action with
  | .signal => isFalse id
  | .manager _ _ => inferInstanceAs (Decidable (∀ _, _ → _))
  | .host _ | .job _ _ | .call _ _ _ | .openReader _ | .closeReader _ =>
      inferInstanceAs (Decidable (∀ _, _ = false))

instance (state : State slots managers jobs) (action : Action managers jobs) :
    Decidable (Separated state action) :=
  match action with
  | .manager thread _ => inferInstanceAs
      (Decidable ((∀ slot ∈ found state.shared (state.managers thread), _) ∧ FreshDisconnect _))
  | .host _ | .job _ _ | .call _ _ _ | .signal | .openReader _ | .closeReader _ => isTrue trivial

instance (state : State slots managers jobs) (action : Action managers jobs) :
    Decidable (Assumed state action) :=
  inferInstanceAs (Decidable (_ ∧ _))

/-- The request and response descriptors are open on the client's own pipes. -/
structure OwnPipes (shared : Shared slots) (slot : Fin slots) (request : ConnectionRequest) : Prop where
  req : (shared.sessions slot).reqFd.bind shared.descriptors = some ⟨request.reqPipePath, false⟩
  resp : (shared.sessions slot).respFd.bind shared.descriptors = some ⟨request.respPipePath, true⟩

/-- The client's own DISCONNECT, or the way out of the loop after a failure. -/
inductive OwnEnding (thread : Fin managers) : SessionPc → Action managers jobs → Prop where
  | disconnect {localBuffer bytesRead answer} (delivered : 0 < bytesRead)
      (asked : opCode localBuffer = OP_CODE_DISCONNECT) :
      OwnEnding thread (.disconnectActive localBuffer bytesRead) (.manager thread answer)
  | failed {answer} : OwnEnding thread (.tail true) (.manager thread answer)

/-- A read or a write that fails and leaves the loop. -/
inductive Failure (shared : Shared slots) (slot : Fin slots) (thread : Fin managers) :
    SessionPc → Action managers jobs → Prop where
  | read {localBuffer answer} (failed : answer.bytes = none) :
      Failure shared slot thread (.read localBuffer) (.manager thread answer)
  | write {localBuffer result answer} (failed : shared.write (shared.sessions slot).respFd answer ≠ .ok) :
      Failure shared slot thread (.respond localBuffer result) (.manager thread answer)

/-! What a manager knows of the slot it has claimed. -/

structure OwnSlot (shared : Shared slots) (request : ConnectionRequest) (slot : Fin slots)
    (pc : SessionPc) : Prop where
  reqPath : (shared.sessions slot).reqPipePath = request.reqPipePath
  respPath : (shared.sessions slot).respPipePath = request.respPipePath
  req : pc ≠ .openReq → ∀ fd, (shared.sessions slot).reqFd = some fd →
    shared.descriptors fd = some ⟨request.reqPipePath, false⟩
  resp : pc ≠ .openReq → pc ≠ .openResp → ∀ fd, (shared.sessions slot).respFd = some fd →
    shared.descriptors fd = some ⟨request.respPipePath, true⟩
  opened : pc.opened = true →
    (shared.sessions slot).reqFd ≠ none ∧ (shared.sessions slot).respFd ≠ none
  ended : pc = .tail false → (shared.sessions slot).active = false
  asked : ∀ localBuffer bytesRead, pc = .disconnectActive localBuffer bytesRead →
    0 < bytesRead ∧ opCode localBuffer = OP_CODE_DISCONNECT

theorem OwnSlot.ownPipes {shared : Shared slots} {request : ConnectionRequest} {slot : Fin slots}
    {pc : SessionPc} (own : OwnSlot shared request slot pc) (opened : pc.opened = true) :
    OwnPipes shared slot request := by
  have started : pc ≠ .openReq ∧ pc ≠ .openResp := by
    cases pc <;> simp_all [SessionPc.opened]
  obtain ⟨hasReq, hasResp⟩ := own.opened opened
  obtain ⟨reqFd, sameReq⟩ := Option.ne_none_iff_exists'.mp hasReq
  obtain ⟨respFd, sameResp⟩ := Option.ne_none_iff_exists'.mp hasResp
  constructor
  · rw [sameReq]; exact own.req started.1 reqFd sameReq
  · rw [sameResp]; exact own.resp started.1 started.2 respFd sameResp

def Knows (shared : Shared slots) : ManagerPc slots → Prop
  | .setup request slot pc => Filled request (shared.sessions slot) pc
  | .session request slot pc => pc ≠ .tailPost → OwnSlot shared request slot pc
  | _ => True

/-- What a manager knows outlives the steps that leave its slot and the open files alone. -/
theorem knows_frame {shared after : Shared slots} {pc : ManagerPc slots} (knows : Knows shared pc)
    (kept : ∀ slot, claimant pc = some slot → after.sessions slot = shared.sessions slot)
    (extends_ : Extends shared.descriptors after.descriptors) : Knows after pc := by
  cases pc with
  | setup request slot pc => simpa only [Knows, kept slot rfl] using knows
  | session request slot pc =>
    intro running
    have own := knows running
    have same := kept slot (by simp [claimant, running])
    constructor
    · rw [same]; exact own.reqPath
    · rw [same]; exact own.respPath
    · rw [same]; exact fun later fd held => extends_ _ _ (own.req later fd held)
    · rw [same]; exact fun later later' fd held => extends_ _ _ (own.resp later later' fd held)
    · rw [same]; exact own.opened
    · rw [same]; exact own.ended
    · exact own.asked
  | _ => trivial

/-- A step that leaves the paths, the descriptors of the two pipes and the open files alone. -/
structure SameFiles (slot : Fin slots) (before after : Shared slots) : Prop where
  reqPath : (after.sessions slot).reqPipePath = (before.sessions slot).reqPipePath
  respPath : (after.sessions slot).respPipePath = (before.sessions slot).respPipePath
  reqFd : (after.sessions slot).reqFd = (before.sessions slot).reqFd
  respFd : (after.sessions slot).respFd = (before.sessions slot).respFd
  descriptors : after.descriptors = before.descriptors

theorem OwnSlot.keep {shared result : Shared slots} {request : ConnectionRequest} {slot : Fin slots}
    {pc after : SessionPc} (own : OwnSlot shared request slot pc) (files : SameFiles slot shared result)
    (started : pc ≠ .openReq ∧ pc ≠ .openResp)
    (opened : after.opened = true → pc.opened = true)
    (ended : after = .tail false → (result.sessions slot).active = false)
    (asked : ∀ localBuffer bytesRead, after = .disconnectActive localBuffer bytesRead →
      0 < bytesRead ∧ opCode localBuffer = OP_CODE_DISCONNECT) :
    OwnSlot result request slot after where
  reqPath := files.reqPath.trans own.reqPath
  respPath := files.respPath.trans own.respPath
  req := fun _ => by rw [files.reqFd, files.descriptors]; exact own.req started.1
  resp := fun _ _ => by rw [files.respFd, files.descriptors]; exact own.resp started.1 started.2
  opened := fun open_ => by rw [files.reqFd, files.respFd]; exact own.opened (opened open_)
  ended := ended
  asked := asked

theorem ownSlot_step {answer : Answer} {shared : Shared slots} {request : ConnectionRequest}
    {slot : Fin slots} {pc after : SessionPc} {result : Shared slots × ManagerPc slots}
    (own : OwnSlot shared request slot pc) (fresh : FreshDisconnect (.session request slot pc))
    (ran : sessionStep answer shared request slot pc = some result)
    (same : result.2 = .session request slot after) (running : after ≠ .tailPost) :
    OwnSlot result.1 request slot after := by
  have ⟨reqPath, respPath, req, resp, opened, ended, asked⟩ := own
  revert ran
  fun_cases sessionStep answer shared request slot pc <;> intro ran
  case case1 =>
    obtain ⟨descriptors, opens, made⟩ := Option.map_eq_some_iff.mp ran
    subst made
    cases same
    rw [reqPath] at opens
    refine ⟨by simpa using reqPath, by simpa using respPath, ?_, by simp, by simp [SessionPc.opened],
      by simp, by simp⟩
    intro _ fd held
    simp only [modify_sessions_self] at held
    rw [held] at opens
    exact openFile_opened opens
  case case2 =>
    obtain ⟨descriptors, opens, made⟩ := Option.map_eq_some_iff.mp ran
    subst made
    cases same
    have opens := (openForWriting_opened opens).1
    rw [respPath] at opens
    refine ⟨by simpa using reqPath, by simpa using respPath, ?_, ?_, by simp [SessionPc.opened],
      by simp, by simp⟩
    · intro _ fd held
      simp only [modify_sessions_self] at held
      exact openFile_extends opens fd _ (req (by simp) fd held)
    · intro _ _ fd held
      simp only [modify_sessions_self] at held
      rw [held] at opens
      exact openFile_opened opens
  case case3 =>
    obtain ⟨descriptors, opens, made⟩ := Option.map_eq_some_iff.mp ran
    subst made
    cases same
    have extends_ := openFile_extends (openForWriting_opened opens).1
    refine ⟨by simpa using reqPath, by simpa using respPath, ?_, ?_, by simp [SessionPc.opened],
      by simp, by simp⟩
    · intro _ fd held
      simp only [modify_sessions_self] at held
      exact extends_ fd _ (req (by simp) fd held)
    · intro _ _ fd held
      simp only [modify_sessions_self] at held
      exact extends_ fd _ (resp (by simp) (by simp) fd held)
  all_goals cases ran
  all_goals cases same
  case case5 all =>
    simp only [not_or] at all
    exact ⟨reqPath, respPath, fun _ => req (by simp), fun _ _ => resp (by simp) (by simp),
      fun _ => ⟨all.1, all.2.1⟩, by simp, by simp⟩
  case case13 localBuffer bytesRead =>
    obtain stores | ⟨result, answers⟩ | finds | clears :=
      dispatchStep_cases answer (shared.sessions slot) localBuffer bytesRead
    · rw [stores.1]
      exact own.keep ⟨rfl, rfl, rfl, rfl, rfl⟩ (by simp) (fun _ => rfl) (by simp) (by simp)
    · rw [answers]
      exact own.keep ⟨rfl, rfl, rfl, rfl, rfl⟩ (by simp) (fun _ => rfl) (by simp) (by simp)
    · rw [finds.1]
      exact own.keep ⟨rfl, rfl, rfl, rfl, rfl⟩ (by simp) (fun _ => rfl) (by simp) (by simp)
    · have delivered := fresh clears.2
      rw [clears.1]
      refine own.keep ⟨rfl, rfl, rfl, rfl, rfl⟩ (by simp) (fun _ => rfl) (by simp) ?_
      rintro _ _ ⟨⟩
      exact ⟨delivered, clears.2⟩
  -- the two writes go on or give up
  case case7 | case24 =>
    split
    all_goals exact own.keep ⟨rfl, rfl, rfl, rfl, rfl⟩ (by simp) (fun _ => rfl) (by simp) (by simp)
  case case10 inactive =>
    refine own.keep ⟨rfl, rfl, rfl, rfl, rfl⟩ (by simp) (fun _ => rfl) (fun _ => ?_) (by simp)
    simpa using inactive
  all_goals refine own.keep ?_ (by simp) (by simp [SessionPc.opened]) (by simp) (by simp)
  all_goals constructor <;> simp [SessionData.setKey]

theorem filled_step {shared : Shared slots} {request : ConnectionRequest} {slot : Fin slots}
    {pc : SetupPc} (filled : Filled request (shared.sessions slot) pc) :
    Knows (setupStep shared request slot pc).1 (setupStep shared request slot pc).2 := by
  cases pc with
  | activate =>
    intro _
    constructor <;> simp_all [setupStep, Filled, PathsOf, SessionPc.opened]
  | _ => simp_all [setupStep, Knows, Filled, PathsOf]

/-! The invariant of the assumed runs. -/

structure Settled (state : State slots managers jobs) : Prop where
  calm : state.shared.sigusr1Received = false
  outside : state.host.sweeps = false
  exclusive : Exclusive claimant state.managers
  knows : ∀ thread, Knows state.shared (state.managers thread)

theorem settled_initial (sigpipeDefault : Bool) :
    Settled (initial slots managers jobs sigpipeDefault) where
  calm := rfl
  outside := rfl
  exclusive := fun _ _ _ holds => nomatch holds
  knows := fun _ => trivial

/-- What a manager's step leaves alone: the signal, and every slot it has not claimed. -/
structure ManagerFrame (shared : Shared slots) (pc : ManagerPc slots)
    (result : Shared slots × ManagerPc slots) : Prop where
  sigusr1Received : result.1.sigusr1Received = shared.sigusr1Received
  descriptors : Extends shared.descriptors result.1.descriptors
  others : ∀ slot, claimant pc ≠ some slot → result.1.sessions slot = shared.sessions slot
  claims : claimant result.2 = none ∨ claimant result.2 = claimant pc ∨
    claimant result.2 = found shared pc

theorem managerStep_frame {answer : Answer} {shared : Shared slots} {pc : ManagerPc slots}
    {result : Shared slots × ManagerPc slots} (ran : managerStep answer shared pc = some result) :
    ManagerFrame shared pc result := by
  cases pc with
  | waitFull | copy =>
    simp only [managerStep] at ran
    split at ran
    all_goals cases ran
    all_goals exact ⟨rfl, fun _ _ held => held, fun _ _ => rfl, .inl rfl⟩
  | postEmpty request => cases ran; exact ⟨rfl, fun _ _ held => held, fun _ _ => rfl, .inl rfl⟩
  | scan request i =>
    simp only [managerStep] at ran
    split at ran
    next bound =>
      split at ran
      next => cases ran; exact ⟨rfl, fun _ _ held => held, fun _ _ => rfl, .inl rfl⟩
      next free =>
        cases ran
        refine ⟨rfl, fun _ _ held => held, fun _ _ => rfl, .inr (.inr ?_)⟩
        simp [claimant, found, bound, free]
    next => cases ran; exact ⟨rfl, fun _ _ held => held, fun _ _ => rfl, .inl rfl⟩
  | setup request own pc =>
    cases ran
    have frame := setupStep_frame shared request own pc
    refine ⟨?_, ?_, fun slot unclaimed => frame.others slot (fun same => unclaimed (same ▸ rfl)), ?_⟩
    · cases pc <;> rfl
    · rw [frame.descriptors]; exact extends_refl _
    · cases pc <;> exact .inr (.inl rfl)
  | session request own pc =>
    have frame := sessionStep_frame ran
    refine ⟨frame.sigusr1Received, frame.descriptors, fun slot unclaimed => ?_, ?_⟩
    · by_cases ended : pc = .tailPost
      · rw [frame.posted ended]
      · exact frame.others slot (fun same => unclaimed (by simp [claimant, ended, same]))
    · rcases frame.lands with returned | ⟨after, same⟩
      · rw [returned]; exact .inl rfl
      · have running := frame.running same
        rw [same]
        by_cases ended : after = .tailPost
        · exact .inl (by simp [claimant, ended])
        · exact .inr (.inl (by simp [claimant, ended, running]))

theorem knows_step {answer : Answer} {shared : Shared slots} {pc : ManagerPc slots}
    {result : Shared slots × ManagerPc slots} (knows : Knows shared pc) (fresh : FreshDisconnect pc)
    (ran : managerStep answer shared pc = some result) : Knows result.1 result.2 := by
  cases pc with
  | setup request slot pc => cases ran; exact filled_step knows
  | session request slot pc =>
    have frame := sessionStep_frame ran
    rcases frame.lands with returned | ⟨after, same⟩
    · rw [returned]; trivial
    · rw [same]
      exact fun running => ownSlot_step (knows (frame.running same)) fresh ran same running
  | _ =>
    simp only [managerStep] at ran
    repeat' split at ran
    all_goals cases ran
    all_goals trivial

theorem settled_step {state next : State slots managers jobs} {action : Action managers jobs}
    (settled : Settled state) (assumed : Assumed state action) (taken : step state action = some next) :
    Settled next := by
  obtain ⟨calm, outside, exclusive, knows⟩ := settled
  cases (steps_of_step taken).2 with
  | host ran =>
    have frame := hostStep_frame ran
    refine ⟨(frame.sigusr1Received outside).trans calm, frame.next outside calm, exclusive, fun thread => ?_⟩
    apply knows_frame (knows thread)
    · intro slot _
      exact congrFun (frame.sessions outside) slot
    · simp [State.withHost, frame.descriptors outside]
  | @manager thread answer result ran =>
    have frame := managerStep_frame ran
    have claims : Exclusive claimant (Function.update state.managers thread result.2) := by
      rcases frame.claims with released | same | claimed
      · exact exclusive.update_of_kept (.inl released)
      · exact exclusive.update_of_kept (.inr same)
      · apply exclusive.update
        intro slot holds other _
        exact assumed.2.1 slot (claimed ▸ holds) other
    refine ⟨frame.sigusr1Received.trans calm, outside, claims, ?_⟩
    apply (Function.forall_update_iff state.managers fun _ => Knows result.1).mpr
    refine ⟨knows_step (knows thread) assumed.2.2 ran, fun other moved => ?_⟩
    apply knows_frame (knows other) _ frame.descriptors
    intro slot claimed
    exact frame.others slot (fun both => moved (exclusive other thread slot claimed both))
  | job ran =>
    obtain ⟨terminated, same⟩ := jobStep_sessions ran
    refine ⟨by simpa [State.withJob, same] using calm, outside, exclusive, fun thread => ?_⟩
    apply knows_frame (knows thread) <;> simp [State.withJob, same]
  | signal => exact assumed.1.elim
  | call | openReader | closeReader =>
    refine ⟨calm, outside, exclusive, fun thread => ?_⟩
    apply knows_frame (knows thread) <;> simp [State.withJob]

variable {sigpipeDefault : Bool} {trace : List (Event slots)} {state : State slots managers jobs}

theorem settled_run
    (run : Run (machine slots managers jobs) Assumed (initial slots managers jobs sigpipeDefault)
      trace state) : Settled state :=
  run.invariant Settled (settled_initial sigpipeDefault)
    (fun _ _ _ settled assumed taken => settled_step settled assumed taken)

theorem answered_opened {pc : SessionPc} (answered : pc.answered = true) : pc.opened = true := by
  simp only [SessionPc.answered, Bool.and_eq_true] at answered
  exact answered.1

/-- Only the claimant of a slot takes its flag down, at one of the points that clear it. -/
theorem cleared_by_claimant {next : State slots managers jobs} {action : Action managers jobs}
    {slot : Fin slots} (settled : Settled state) (assumed : Assumed state action)
    (taken : step state action = some next) (active : (state.shared.sessions slot).active = true)
    (cleared : (next.shared.sessions slot).active = false) :
    ∃ thread answer request pc, action = .manager thread answer ∧
      state.managers thread = .session request slot pc ∧ pc.clears = true ∧ pc ≠ .tailPost := by
  cases (steps_of_step taken).2 with
  | host ran =>
    rw [State.withHost, (hostStep_frame ran).sessions settled.outside, active] at cleared
    cases cleared
  | @manager thread answer result ran =>
    have move := managerStep_slotMove ran
    simp only [State.withManager] at cleared
    generalize fromPc : state.managers thread = pc at move
    cases move with
    | away sessions =>
      rw [sessions, active] at cleared
      cases cleared
    | busy | found | dropped =>
      rw [active] at cleared
      cases cleared
    | @setup request own pc _ frame =>
      by_cases same : slot = own
      · subst same
        simp [frame.active, active] at cleared
      · rw [frame.others slot same, active] at cleared
        cases cleared
    | @session request own pc _ frame =>
      by_cases same : slot = own
      · subst same
        have clears : pc.clears = true := by simpa [frame.active, active] using cleared
        refine ⟨thread, answer, request, pc, rfl, fromPc, clears, ?_⟩
        intro ended
        rw [ended] at clears
        cases clears
      · rw [frame.others slot same, active] at cleared
        cases cleared
  | job ran =>
    obtain ⟨terminated, same⟩ := jobStep_sessions ran
    simp [State.withJob, same, active] at cleared
  | signal => exact assumed.1.elim
  | call | openReader | closeReader => simp [State.withJob, active] at cleared

/-- The tail is entered with a failure only from a failed read or write. -/
theorem sessionStep_failure {answer : Answer} {shared : Shared slots} {request : ConnectionRequest}
    {slot : Fin slots} {pc : SessionPc} {result : Shared slots × ManagerPc slots}
    (ran : sessionStep answer shared request slot pc = some result)
    (failed : result.2 = .session request slot (.tail true)) (thread : Fin managers) :
    Failure shared slot thread pc (.manager thread answer : Action managers jobs) := by
  revert ran
  fun_cases sessionStep answer shared request slot pc <;> intro ran
  case case1 | case2 | case3 =>
    obtain ⟨_, _, made⟩ := Option.map_eq_some_iff.mp ran
    subst made
    cases failed
  case case11 localBuffer unread => exact .read unread
  case case13 localBuffer bytesRead =>
    cases ran
    have entered := dispatchStep_cases answer (shared.sessions slot) localBuffer bytesRead
    simp only [ManagerPc.session.injEq, true_and] at failed
    simp [failed] at entered
  case case24 localBuffer code fd =>
    cases ran
    apply Failure.write
    intro written
    simp [fd, written] at failed
  case case7 fd =>
    cases ran
    simp only [ManagerPc.session.injEq, true_and] at failed
    split at failed <;> cases failed
  all_goals cases ran
  all_goals cases failed

theorem failed_of_tail {next : State slots managers jobs} {action : Action managers jobs}
    {thread : Fin managers} {request : ConnectionRequest} {slot : Fin slots} {pc : SessionPc}
    (taken : step state action = some next) (serving : state.managers thread = .session request slot pc)
    (failed : next.managers thread = .session request slot (.tail true)) (before : pc ≠ .tail true) :
    Failure state.shared slot thread pc action := by
  cases (steps_of_step taken).2 with
  | @manager other answer result ran =>
    by_cases same : thread = other
    · subst same
      simp only [State.withManager, Function.update_self] at failed
      rw [serving] at ran
      exact sessionStep_failure ran failed thread
    · simp only [State.withManager, Function.update_of_ne same] at failed
      rw [serving] at failed
      cases failed
      exact absurd rfl before
  | host | job | call | signal | openReader | closeReader =>
    simp only [State.withHost, State.withJob, serving, ManagerPc.session.injEq, true_and] at failed
    exact absurd failed before

/-- If slots are found free only after the tail of their last session and an end
of file is not taken for a DISCONNECT, the flag of a client that has been
answered goes down only in a step of its own manager, after its own DISCONNECT or
after a read or a write that failed on its own pipes. -/
theorem ended_by_own_client
    (run : Run (machine slots managers jobs) Assumed (initial slots managers jobs sigpipeDefault)
      trace state) :
    ∀ action next, Assumed state action → step state action = some next →
      ∀ thread request slot pc, state.managers thread = .session request slot pc → pc.answered = true →
        OwnPipes state.shared slot request ∧
        ((state.shared.sessions slot).active = true → (next.shared.sessions slot).active = false →
          OwnEnding thread pc action) ∧
        (next.managers thread = .session request slot (.tail true) →
          pc = .tail true ∨ Failure state.shared slot thread pc action) := by
  intro action next assumed taken thread request slot pc serving answered
  have settled := settled_run run
  have running : pc ≠ .tailPost := by
    intro ended
    rw [ended] at answered
    cases answered
  have own : OwnSlot state.shared request slot pc := by
    have knows := settled.knows thread
    rw [serving] at knows
    exact knows running
  refine ⟨own.ownPipes (answered_opened answered), fun active cleared => ?_, fun failed => ?_⟩
  · obtain ⟨owner, answer, request', pc', same, serving', clears, running'⟩ :=
      cleared_by_claimant settled assumed taken active cleared
    have claims : claimant (state.managers thread) = some slot := by
      simp [serving, claimant, running]
    have claims' : claimant (state.managers owner) = some slot := by
      simp [serving', claimant, running']
    have alone := settled.exclusive owner thread slot claims' claims
    subst alone
    rw [serving] at serving'
    cases serving'
    subst same
    cases pc with
    | abort => cases answered
    | disconnectActive localBuffer bytesRead =>
      obtain ⟨delivered, asked⟩ := own.asked localBuffer bytesRead rfl
      exact .disconnect delivered asked
    | tail broken =>
      cases broken with
      | true => exact .failed
      | false =>
        rw [own.ended rfl] at active
        cases active
    | _ => cases clears
  · by_cases before : pc = .tail true
    · exact .inl before
    · exact .inr (failed_of_tail taken serving failed before)

/-- A first client connects on slot 0 and asks to disconnect. -/
def disconnecting (thread : Fin managers) : List (Action managers jobs) :=
  firstSession thread ++ receive thread [OP_CODE_DISCONNECT] ++ advance thread 1

theorem ended_by_own_disconnect : ∃ trace state next,
    Run (machine MAX_SESSION_COUNT 2 0) Assumed (initial MAX_SESSION_COUNT 2 0 true) trace state ∧
      step state (.manager 0 {}) = some next ∧ (state.shared.sessions 0).active = true ∧
      (next.shared.sessions 0).active = false ∧
      OwnPipes state.shared 0 (connectionRequest [OP_CODE_CONNECT, 97]) ∧
      OwnEnding 0 (.disconnectActive [OP_CODE_DISCONNECT] 1) (.manager 0 {} : Action 2 0) := by
  obtain ⟨trace, state, run, assumed, serving, active, cleared⟩ := exists_run
    (machine MAX_SESSION_COUNT 2 0) Assumed (initial MAX_SESSION_COUNT 2 0 true)
    (fun _ state => Assumed state (.manager 0 {}) ∧
      state.managers 0 = .session (connectionRequest [OP_CODE_CONNECT, 97]) 0
        (.disconnectActive [OP_CODE_DISCONNECT] 1) ∧
      (state.shared.sessions 0).active = true ∧
      ((step state (.manager 0 {})).any fun next => !(next.shared.sessions 0).active) = true)
    (disconnecting 0) (by decide)
  obtain ⟨next, taken, cleared⟩ := (Option.any_eq_true _ _).mp cleared
  rw [Bool.not_eq_true'] at cleared
  obtain ⟨pipes, ending, _⟩ := ended_by_own_client run _ next assumed taken 0 _ 0 _ serving rfl
  exact ⟨trace, state, next, run, taken, active, cleared, pipes, ending active cleared⟩

/-- The first client's manager has left its loop; a second client is connected on
the slot and answered before the first manager runs its tail. -/
def overlapping (first second : Fin managers) : List (Action managers jobs) :=
  disconnecting first ++ advance first 4 ++ arrive 98 ++ advance second 8 ++ openSession second 6

/-- The tail of the first client's session ends the second client's session. -/
theorem ended_by_earlier_manager : ∃ trace state next,
    Run (machine MAX_SESSION_COUNT 2 0) AtomicClaim (initial MAX_SESSION_COUNT 2 0 true) trace state ∧
      AtomicClaim state (.manager 0 {}) ∧ step state (.manager 0 {}) = some next ∧
      state.managers 0 = .session (connectionRequest [OP_CODE_CONNECT, 97]) 0 (.tail false) ∧
      state.managers 1 = .session (connectionRequest [OP_CODE_CONNECT, 98]) 0 (.loop []) ∧
      (state.shared.sessions 0).active = true ∧ (next.shared.sessions 0).active = false := by
  obtain ⟨trace, state, run, atomic, leaving, serving, active, cleared⟩ := exists_run
    (machine MAX_SESSION_COUNT 2 0) AtomicClaim (initial MAX_SESSION_COUNT 2 0 true)
    (fun _ state => AtomicClaim state (.manager 0 {}) ∧
      state.managers 0 = .session (connectionRequest [OP_CODE_CONNECT, 97]) 0 (.tail false) ∧
      state.managers 1 = .session (connectionRequest [OP_CODE_CONNECT, 98]) 0 (.loop []) ∧
      (state.shared.sessions 0).active = true ∧
      ((step state (.manager 0 {})).any fun next => !(next.shared.sessions 0).active) = true)
    (overlapping 0 1) (by decide)
  obtain ⟨next, taken, cleared⟩ := (Option.any_eq_true _ _).mp cleared
  rw [Bool.not_eq_true'] at cleared
  exact ⟨trace, state, next, run, atomic, taken, leaving, serving, active, cleared⟩

end IstKvs.SessionOwner
