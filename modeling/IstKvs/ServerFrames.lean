import IstKvs.Server

/-! What one step of each thread leaves alone, and where its counter goes. Every
invariant of the server is derived from these frames and from the few steps
that touch what it speaks of. -/

namespace IstKvs.Server
open LabelledRuns

variable {slots managers jobs : Nat} {shared : Shared slots} {answer : Answer}

section Shared
variable (shared : Shared slots) (slot : Fin slots) (change : SessionData → SessionData)

@[simp] theorem modify_semEmpty : (shared.modify slot change).semEmpty = shared.semEmpty := rfl
@[simp] theorem modify_semFull : (shared.modify slot change).semFull = shared.semFull := rfl
@[simp] theorem modify_buffer : (shared.modify slot change).buffer = shared.buffer := rfl
@[simp] theorem modify_descriptors : (shared.modify slot change).descriptors = shared.descriptors := rfl
@[simp] theorem modify_sigusr1Received :
    (shared.modify slot change).sigusr1Received = shared.sigusr1Received := rfl
@[simp] theorem modify_sigpipeDefault :
    (shared.modify slot change).sigpipeDefault = shared.sigpipeDefault := rfl

@[simp] theorem modify_sessions_self :
    (shared.modify slot change).sessions slot = change (shared.sessions slot) :=
  Function.update_self ..

@[simp] theorem modify_sessions_of_ne {other : Fin slots} (different : other ≠ slot) :
    (shared.modify slot change).sessions other = shared.sessions other :=
  Function.update_of_ne different ..

variable {shared slot change} in
/-- What holds of the changed session and of the others as they were holds of all of them. -/
theorem modify_cases {P : Fin slots → SessionData → Prop} (self : P slot (change (shared.sessions slot)))
    (rest : ∀ other, other ≠ slot → P other (shared.sessions other)) (other : Fin slots) :
    P other ((shared.modify slot change).sessions other) := by
  by_cases same : other = slot
  · rw [same, modify_sessions_self]
    exact self
  · rw [modify_sessions_of_ne shared slot change same]
    exact rest other same

end Shared

@[simp] theorem setKey_active (session : SessionData) (j : Int) (key : CString) :
    (session.setKey j key).active = session.active := rfl

/-- Every open descriptor stays open on the same pipe. -/
def Extends (before after : Nat → Option Descriptor) : Prop :=
  ∀ fd opened, before fd = some opened → after fd = some opened

@[simp] theorem extends_refl (descriptors : Nat → Option Descriptor) : Extends descriptors descriptors :=
  fun _ _ held => held

theorem openFile_extends {descriptors after : Nat → Option Descriptor} {opened : Descriptor}
    {fd : Option Nat} (ran : openFile descriptors opened fd = some after) : Extends descriptors after := by
  intro other held before
  cases fd with
  | none => cases ran; exact before
  | some fd =>
    simp only [openFile] at ran
    split at ran
    next unused =>
      cases ran
      have different : other ≠ fd := by
        intro same
        rw [same, unused] at before
        cases before
      rwa [Function.update_of_ne different]
    next => cases ran

theorem openFile_opened {descriptors after : Nat → Option Descriptor} {opened : Descriptor}
    {fd : Nat} (ran : openFile descriptors opened (some fd) = some after) : after fd = some opened := by
  simp only [openFile] at ran
  split at ran
  · cases ran
    exact Function.update_self ..
  · cases ran

theorem openForWriting_opened {shared : Shared slots} {path : PipePath} {fd : Option Nat}
    {after : Nat → Option Descriptor} (ran : shared.openForWriting path fd = some after) :
    openFile shared.descriptors ⟨path, true⟩ fd = some after ∧
      (fd.isSome → shared.readers path = true) := by
  unfold Shared.openForWriting at ran
  split at ran
  next => cases ran
  next ready =>
    refine ⟨ran, fun opened => ?_⟩
    simpa [opened] using ready

/-- The points of `handle_session` that assign `active = 0`. -/
def SessionPc.clears : SessionPc → Bool
  | .abort | .disconnectActive _ _ | .tail _ => true
  | _ => false

/-- Between the check of the opens and the last assignment to the flag. -/
def SessionPc.opened : SessionPc → Bool
  | .openReq | .openResp | .openNotif | .checkOpen | .abort | .tailPost => false
  | _ => true

/-- From the successful connect response on, as long as the session lasts. -/
def SessionPc.answered (pc : SessionPc) : Bool := pc.opened && pc != .connectWrite

/-- The points from which `handle_session` returns. -/
def SessionPc.leaves : SessionPc → Bool
  | .abort | .tailPost => true
  | _ => false

section Dispatch
variable (answer : Answer) (session : SessionData) (localBuffer : List UInt8) (bytesRead : Nat)

/-- Where the switch may go. -/
theorem dispatchStep_cases :
    dispatchStep answer session localBuffer bytesRead = .subscribeStore localBuffer ∧
        opCode localBuffer = OP_CODE_SUBSCRIBE ∧ answer.keyExists = true ∧
        session.numSubscribedKeys < MAX_NUMBER_SUB ∨
      (∃ result, dispatchStep answer session localBuffer bytesRead = .respond localBuffer result) ∨
      dispatchStep answer session localBuffer bytesRead = .unsubscribeFind localBuffer 0 ∧
        opCode localBuffer = OP_CODE_UNSUBSCRIBE ∨
      dispatchStep answer session localBuffer bytesRead = .disconnectActive localBuffer bytesRead ∧
        opCode localBuffer = OP_CODE_DISCONNECT := by
  unfold dispatchStep
  split_ifs <;> simp_all

@[simp] theorem dispatchStep_ne_tailPost :
    dispatchStep answer session localBuffer bytesRead ≠ .tailPost := by
  unfold dispatchStep
  split_ifs <;> simp

end Dispatch

/-- A step inside `handle_session` on `slot` posts `semEmpty` only at the end of
the tail, changes no other slot, and closes no descriptor. -/
structure SessionFrame (shared : Shared slots) (request : ConnectionRequest) (slot : Fin slots)
    (pc : SessionPc) (result : Shared slots × ManagerPc slots) : Prop where
  semEmpty : result.1.semEmpty = shared.semEmpty + if pc = .tailPost then 1 else 0
  semFull : result.1.semFull = shared.semFull
  buffer : result.1.buffer = shared.buffer
  sigusr1Received : result.1.sigusr1Received = shared.sigusr1Received
  descriptors : Extends shared.descriptors result.1.descriptors
  others : ∀ other, other ≠ slot → result.1.sessions other = shared.sessions other
  posted : pc = .tailPost → result.1.sessions = shared.sessions
  active : (result.1.sessions slot).active = (!pc.clears && (shared.sessions slot).active)
  next : if pc.leaves then result.2 = .waitFull
    else ∃ after, result.2 = .session request slot after ∧ (after = .tailPost → pc.clears = true)

theorem sessionStep_frame {request : ConnectionRequest} {slot : Fin slots} {pc : SessionPc}
    {result : Shared slots × ManagerPc slots}
    (ran : sessionStep answer shared request slot pc = some result) :
    SessionFrame shared request slot pc result := by
  revert ran
  fun_cases sessionStep answer shared request slot pc <;> intro ran
  case case1 | case2 | case3 =>
    obtain ⟨descriptors, opened, same⟩ := Option.map_eq_some_iff.mp ran
    subst same
    have extends_ : Extends shared.descriptors descriptors := by
      first
        | exact openFile_extends opened
        | exact openFile_extends (openForWriting_opened opened).1
    constructor <;> simp +contextual [SessionPc.clears, SessionPc.leaves, extends_]
  all_goals cases ran
  all_goals constructor <;> simp +contextual [SessionPc.clears, SessionPc.leaves, Shared.afterWrite]
  -- the two writes go on or give up
  all_goals split <;> simp

theorem SessionFrame.lands {shared : Shared slots} {request : ConnectionRequest} {slot : Fin slots}
    {pc : SessionPc} {result : Shared slots × ManagerPc slots}
    (frame : SessionFrame shared request slot pc result) :
    result.2 = .waitFull ∨ ∃ after, result.2 = .session request slot after := by
  have next := frame.next
  split at next
  · exact .inl next
  · obtain ⟨after, same, _⟩ := next
    exact .inr ⟨after, same⟩

theorem SessionFrame.running {shared : Shared slots} {request : ConnectionRequest} {slot : Fin slots}
    {pc after : SessionPc} {result : Shared slots × ManagerPc slots}
    (frame : SessionFrame shared request slot pc result)
    (same : result.2 = .session request slot after) : pc ≠ .tailPost := by
  intro ended
  subst ended
  have returned : result.2 = .waitFull := frame.next
  rw [same] at returned
  cases returned

/-- Filling in `slot` changes no other slot, and sets its flag last. -/
structure SetupFrame (shared : Shared slots) (request : ConnectionRequest) (slot : Fin slots)
    (pc : SetupPc) (result : Shared slots × ManagerPc slots) : Prop where
  semEmpty : result.1.semEmpty = shared.semEmpty
  semFull : result.1.semFull = shared.semFull
  buffer : result.1.buffer = shared.buffer
  descriptors : result.1.descriptors = shared.descriptors
  others : ∀ other, other ≠ slot → result.1.sessions other = shared.sessions other
  active : (result.1.sessions slot).active = (decide (pc = .activate) || (shared.sessions slot).active)
  next : if pc = .activate then result.2 = .session request slot .openReq
    else ∃ after, result.2 = .setup request slot after

theorem SetupFrame.lands {shared : Shared slots} {request : ConnectionRequest} {slot : Fin slots}
    {pc : SetupPc} {result : Shared slots × ManagerPc slots}
    (frame : SetupFrame shared request slot pc result) :
    result.2 = .session request slot .openReq ∨ ∃ after, result.2 = .setup request slot after := by
  have next := frame.next
  split at next
  · exact .inl next
  · exact .inr next

/-- The slot holds the three pipe names of a request. -/
def PathsOf (session : SessionData) (request : ConnectionRequest) : Prop :=
  session.reqPipePath = request.reqPipePath ∧ session.respPipePath = request.respPipePath ∧
    session.notifPipePath = request.notifPipePath

/-- The names that the lines before `active = 1` have copied so far. -/
def Filled (request : ConnectionRequest) (session : SessionData) : SetupPc → Prop
  | .reqPath => True
  | .respPath => session.reqPipePath = request.reqPipePath
  | .notifPath =>
      session.reqPipePath = request.reqPipePath ∧ session.respPipePath = request.respPipePath
  | .activate => PathsOf session request

theorem setupStep_frame (shared : Shared slots) (request : ConnectionRequest) (slot : Fin slots)
    (pc : SetupPc) : SetupFrame shared request slot pc (setupStep shared request slot pc) := by
  cases pc <;> constructor <;> simp +contextual [setupStep]

/-- The lines of `host_task` inside `if (sigusr1_received)`. -/
def HostPc.sweeps : HostPc slots → Bool
  | .sweepLock | .sweepTest _ | .sweepCloseReq _ | .sweepCloseResp _ | .sweepCloseNotif _
  | .sweepActive _ | .sweepKeys _ | .resetSignal => true
  | _ => false

/-- The host's sweep clears flags and counts and raises neither; nothing else of
the host touches a session, a descriptor or the signal. -/
structure HostFrame (shared : Shared slots) (pc : HostPc slots)
    (result : Shared slots × HostPc slots) : Prop where
  active : ∀ slot, (result.1.sessions slot).active = true → (shared.sessions slot).active = true
  sessions : pc.sweeps = false → result.1.sessions = shared.sessions
  descriptors : pc.sweeps = false → result.1.descriptors = shared.descriptors
  sigusr1Received : pc.sweeps = false → result.1.sigusr1Received = shared.sigusr1Received
  next : pc.sweeps = false → shared.sigusr1Received = false → result.2.sweeps = false

theorem hostStep_frame {pc : HostPc slots} {result : Shared slots × HostPc slots}
    (ran : hostStep answer shared pc = some result) : HostFrame shared pc result := by
  cases pc with
  | sweepActive i | sweepKeys i =>
    cases ran
    constructor
    case active =>
      intro slot
      by_cases same : slot = i
      · subst same
        simp
      · simp [same]
    all_goals exact fun outside => nomatch outside
  | _ =>
    simp only [hostStep] at ran
    repeat' split at ran
    all_goals cases ran
    all_goals constructor <;> simp_all [Shared.close, HostPc.sweeps]

theorem jobStep_sessions {pc : JobPc slots} {result : Shared slots × JobPc slots}
    (ran : jobStep answer shared pc = some result) :
    ∃ terminated, result.1 = { shared with terminated := terminated } := by
  revert ran
  fun_cases jobStep answer shared pc <;> intro ran
  all_goals cases ran
  all_goals exact ⟨_, rfl⟩

end IstKvs.Server
