import IstKvs.ServerFrames
import IstKvs.Library.Ledger

/-! The descriptors that `handle_session` opens. Only the host's sweep closes them, from
another thread and by the numbers in the slot, which stay there when a session has ended. -/

namespace IstKvs.DescriptorBalance
open LabelledRuns Ledgers Server

variable {slots managers jobs : Nat}

inductive Pipe where
  | req
  | resp
  | notif
  deriving DecidableEq

instance : Fintype Pipe := ⟨{.req, .resp, .notif}, fun pipe => by cases pipe <;> decide⟩

/-- The field of a slot with the descriptor of the pipe. -/
def fdOf (session : SessionData) : Pipe → Option Nat
  | .req => session.reqFd
  | .resp => session.respFd
  | .notif => session.notifFd

/-! What a step does with a descriptor. -/

/-- The slot and the field that the host is about to close. -/
def closes : HostPc slots → Option (Fin slots × Pipe)
  | .sweepCloseReq i => some (i, .req)
  | .sweepCloseResp i => some (i, .resp)
  | .sweepCloseNotif i => some (i, .notif)
  | _ => none

/-- `handle_session` is called with the slot. -/
def begins : ManagerPc slots → Option (Fin slots)
  | .setup _ slot .activate => some slot
  | _ => none

def opens : ManagerPc slots → Option (Fin slots × Pipe)
  | .session _ slot .openReq => some (slot, .req)
  | .session _ slot .openResp => some (slot, .resp)
  | .session _ slot .openNotif => some (slot, .notif)
  | _ => none

/-- `handle_session` returns. -/
def ends : ManagerPc slots → Option (Fin slots)
  | .session _ slot .abort | .session _ slot .tailPost => some slot
  | _ => none

def hostEntries (shared : Shared slots) (pc : HostPc slots) : List (Entry (Fin slots) Nat) :=
  (closes pc).toList.map fun (slot, pipe) => .closed slot (fdOf (shared.sessions slot) pipe)

def managerEntries (answer : Answer) (pc : ManagerPc slots) : List (Entry (Fin slots) Nat) :=
  (begins pc).toList.map .began ++
    (opens pc).toList.flatMap (fun (slot, _) => answer.fd.toList.map (.opened slot)) ++
    (ends pc).toList.map .ended

def entries (state : State slots managers jobs) : Action managers jobs → List (Entry (Fin slots) Nat)
  | .host _ => hostEntries state.shared state.host
  | .manager thread answer => managerEntries answer (state.managers thread)
  | _ => []

/-- Whether the sweep has come to its assignment to `active` since the slot was filled in. -/
abbrev Cleared (slots : Nat) := Fin slots → Bool

/-- The slot whose flag the host is about to clear. -/
def clears : HostPc slots → Option (Fin slots)
  | .sweepActive i => some i
  | _ => none

def note (state : State slots managers jobs) (action : Action managers jobs) (cleared : Cleared slots) :
    Cleared slots :=
  match action with
  | .host _ =>
      match clears state.host with
      | some slot => Function.update cleared slot true
      | none => cleared
  | .manager thread _ =>
      match begins (state.managers thread) with
      | some slot => Function.update cleared slot false
      | none => cleared
  | _ => cleared

/-- The server, observed in its descriptors, with the record of the sweep. -/
def machine (slots managers jobs : Nat) :
    Machine (State slots managers jobs × Cleared slots) (Action managers jobs) (Entry (Fin slots) Nat) :=
  (Machine.mk step entries).withGhost fun state action _ cleared => note state action cleared

/-! The condition on the steps. -/

/-- The open of the pipe is behind. -/
def past (pc : SessionPc) : Pipe → Bool
  | .req => pc != .openReq
  | .resp => pc != .openReq && pc != .openResp
  | .notif => pc != .openReq && pc != .openResp && pc != .openNotif

/-- The slot that a manager serves, with the pipes whose open is behind. -/
def place : ManagerPc slots → Option (Fin slots × (Pipe → Bool))
  | .session _ slot pc => some (slot, past pc)
  | _ => none

def inSession (slot : Fin slots) (pc : ManagerPc slots) : Bool := (place pc).any fun served => served.1 = slot

/-- A session begins when there is none in the slot. -/
def OneAtATime (state : State slots managers jobs) : Action managers jobs → Prop
  | .manager thread _ => ∀ slot ∈ begins (state.managers thread), ∀ other, inSession slot (state.managers other) = false
  | _ => True

instance (state : State slots managers jobs) : (action : Action managers jobs) → Decidable (OneAtATime state action)
  | .manager _ _ => inferInstanceAs (Decidable (∀ slot ∈ _, ∀ _, _ = false))
  | .host _ | .job _ _ | .call _ _ _ | .signal | .openReader _ | .closeReader _ => isTrue trivial

/-- The slot that the test of the sweep finds in use. -/
def tests (shared : Shared slots) : HostPc slots → Option (Fin slots)
  | .sweepTest i =>
      if bound : i < slots then
        if (shared.sessions ⟨i, bound⟩).active then some ⟨i, bound⟩ else none
      else none
  | _ => none

/-- The session in the slot is behind its third open, and all three have succeeded. -/
def Connected (state : State slots managers jobs) (slot : Fin slots) : Prop :=
  (∃ thread, (place (state.managers thread)).any (fun served => served.1 = slot && served.2 .notif) = true) ∧
    ∀ pipe, (fdOf (state.shared.sessions slot) pipe).isSome = true

/-- The sweep finds a slot in use only when its session is connected; a session returns when
the pass of the sweep has cleared its flag, or when none of its opens has succeeded. -/
def Swept (held : State slots managers jobs × Cleared slots) : Action managers jobs → Prop
  | .host _ => ∀ slot ∈ tests held.1.shared held.1.host, Connected held.1 slot
  | .manager thread _ => ∀ slot ∈ ends (held.1.managers thread),
      held.2 slot = true ∨ ∀ pipe, (fdOf (held.1.shared.sessions slot) pipe).isNone = true
  | _ => True

instance (held : State slots managers jobs × Cleared slots) :
    (action : Action managers jobs) → Decidable (Swept held action)
  | .host _ => inferInstanceAs (Decidable (∀ slot ∈ _, _ ∧ _))
  | .manager _ _ => inferInstanceAs (Decidable (∀ slot ∈ _, _ = true ∨ ∀ _, _ = true))
  | .job _ _ | .call _ _ _ | .signal | .openReader _ | .closeReader _ => isTrue trivial

def Orderly (held : State slots managers jobs × Cleared slots) (action : Action managers jobs) : Prop :=
  OneAtATime held.1 action ∧ Swept held action

instance (held : State slots managers jobs × Cleared slots) (action : Action managers jobs) :
    Decidable (Orderly held action) :=
  inferInstanceAs (Decidable (_ ∧ _))

/-! What the ledger asks of a step. -/

/-- Which fields of a slot the sweep has closed since the slot was filled in. -/
abbrev Closed (slots : Nat) := Fin slots → Pipe → Bool

def record (state : State slots managers jobs) (action : Action managers jobs) (closed : Closed slots) :
    Closed slots :=
  match action with
  | .host _ =>
      match closes state.host with
      | some (slot, pipe) => Function.update closed slot (Function.update (closed slot) pipe true)
      | none => closed
  | .manager thread _ =>
      match begins (state.managers thread) with
      | some slot => Function.update closed slot fun _ => false
      | none => closed
  | _ => closed

/-- The session in the slot has opened the pipe itself, and the open succeeded. -/
def OpenedBySession (state : State slots managers jobs) (slot : Fin slots) (pipe : Pipe) : Prop :=
  (∃ thread, (place (state.managers thread)).any (fun served => served.1 = slot && served.2 pipe) = true) ∧
    (fdOf (state.shared.sessions slot) pipe).isSome = true

/-- A close is of a pipe that the session has opened, and a session returns with all of
them closed. -/
def Accountable (state : State slots managers jobs) (closed : Closed slots) : Action managers jobs → Prop
  | .host _ => ∀ close ∈ closes state.host, OpenedBySession state close.1 close.2
  | .manager thread _ => ∀ slot ∈ ends (state.managers thread), ∀ pipe,
      (fdOf (state.shared.sessions slot) pipe).isSome = true → closed slot pipe = true
  | _ => True

/-! What one step of the host or of a manager does. -/

/-- The sweep is between its test of the slot and the assignment to `active`. -/
def sweeping (slot : Fin slots) : HostPc slots → Bool
  | .sweepCloseReq i | .sweepCloseResp i | .sweepCloseNotif i | .sweepActive i => i = slot
  | _ => false

/-- The sweep is still to close the field. -/
def ahead (slot : Fin slots) (pipe : Pipe) : HostPc slots → Bool
  | .sweepCloseReq i => i = slot
  | .sweepCloseResp i => i = slot && pipe != .req
  | .sweepCloseNotif i => i = slot && pipe == .notif
  | _ => false

/-- A step that opens and closes nothing and raises no flag. -/
structure Quiet (shared after : Shared slots) : Prop where
  descriptors : after.descriptors = shared.descriptors
  fds : ∀ slot, fdOf (after.sessions slot) = fdOf (shared.sessions slot)
  active : ∀ slot, (after.sessions slot).active = true → (shared.sessions slot).active = true

theorem quiet_refl (shared : Shared slots) : Quiet shared shared := ⟨rfl, fun _ => rfl, fun _ => id⟩

theorem quiet_modify (shared : Shared slots) (slot : Fin slots) {change : SessionData → SessionData}
    (fds : fdOf (change (shared.sessions slot)) = fdOf (shared.sessions slot))
    (active : (change (shared.sessions slot)).active = true → (shared.sessions slot).active = true) :
    Quiet shared (shared.modify slot change) where
  descriptors := rfl
  fds := modify_cases (P := fun other session => fdOf session = fdOf (shared.sessions other)) fds fun _ _ => rfl
  active := modify_cases (P := fun other session => session.active = true → (shared.sessions other).active = true)
    active fun _ _ => id

/-- A flag that is not raised stays down. -/
theorem Quiet.lowered {shared after : Shared slots} (quiet : Quiet shared after) {slot : Fin slots}
    (down : (shared.sessions slot).active = false) : (after.sessions slot).active = false := by
  by_contra raised
  have before := quiet.active slot (Bool.eq_true_of_not_eq_false raised)
  rw [down] at before
  cases before

inductive HostMove (shared : Shared slots) (pc : HostPc slots) : Shared slots × HostPc slots → Prop where
  | close {slot : Fin slots} {pipe : Pipe} {next : HostPc slots} (closing : closes pc = some (slot, pipe))
      (due : ahead slot pipe pc = true)
      (rest : ∀ other field, ahead other field next = (ahead other field pc && !decide (field = pipe)))
      (still : ∀ other, sweeping other next = sweeping other pc) :
      HostMove shared pc (shared.close (fdOf (shared.sessions slot) pipe), next)
  | quiet {after : Shared slots} {next : HostPc slots} (closing : closes pc = none) (quiet : Quiet shared after)
      (due : ∀ slot pipe, ahead slot pipe next = true →
        (shared.sessions slot).active = true ∧ sweeping slot pc = false)
      (left : ∀ slot, sweeping slot pc = true → (after.sessions slot).active = false) : HostMove shared pc (after, next)

theorem hostStep_cases {answer : Answer} {shared : Shared slots} {pc : HostPc slots} {result : Shared slots × HostPc slots}
    (ran : hostStep answer shared pc = some result) : HostMove shared pc result := by
  cases pc with
  | sweepCloseReq i =>
    cases ran
    show HostMove shared _ (shared.close (fdOf (shared.sessions i) .req), .sweepCloseResp i)
    refine .close rfl (by simp [ahead]) (fun other field => ?_) fun other => rfl
    cases field <;> simp [ahead]
  | sweepCloseResp i =>
    cases ran
    show HostMove shared _ (shared.close (fdOf (shared.sessions i) .resp), .sweepCloseNotif i)
    refine .close rfl (by simp [ahead]) (fun other field => ?_) fun other => rfl
    cases field <;> simp [ahead]
  | sweepCloseNotif i =>
    cases ran
    show HostMove shared _ (shared.close (fdOf (shared.sessions i) .notif), .sweepActive i)
    refine .close rfl (by simp [ahead]) (fun other field => ?_) fun other => rfl
    cases field <;> simp [ahead]
  | sweepActive i =>
    cases ran
    refine .quiet rfl (quiet_modify shared i rfl fun raised => ?_) (fun slot pipe due => by cases due) fun slot here => ?_
    · cases raised
    · have same : i = slot := by simpa [sweeping] using here
      subst same
      rw [modify_sessions_self]
  | sweepKeys i =>
    cases ran
    exact .quiet rfl (quiet_modify shared i rfl id) (fun slot pipe due => by cases due) fun slot here => by cases here
  | sweepTest i =>
    simp only [hostStep] at ran
    split at ran
    next bound =>
      split at ran
      next active =>
        cases ran
        refine .quiet rfl (quiet_refl shared) (fun slot pipe due => ?_) fun slot here => by cases here
        have same : ⟨i, bound⟩ = slot := by simpa [ahead] using due
        exact ⟨same ▸ active, rfl⟩
      next =>
        cases ran
        exact .quiet rfl (quiet_refl shared) (fun slot pipe due => by cases due) fun slot here => by cases here
    next =>
      cases ran
      exact .quiet rfl ⟨rfl, fun _ => rfl, fun _ => id⟩ (fun slot pipe due => by cases due) fun slot here => by cases here
  | checkSignal | sweepLock | resetSignal | readRegister | waitEmpty | store | postFull =>
    simp only [hostStep] at ran
    repeat' split at ran
    all_goals cases ran
    all_goals
      exact .quiet rfl ⟨rfl, fun _ => rfl, fun _ => id⟩ (fun slot pipe due => by cases due) fun slot here => by cases here

/-- The open of a pipe, and what comes after it. -/
def openPc : Pipe → SessionPc
  | .req => .openReq
  | .resp => .openResp
  | .notif => .openNotif

def nextPc : Pipe → SessionPc
  | .req => .openResp
  | .resp => .openNotif
  | .notif => .checkOpen

inductive ManagerMove (answer : Answer) (shared : Shared slots) :
    ManagerPc slots → Shared slots × ManagerPc slots → Prop where
  | began {request : ConnectionRequest} {slot : Fin slots} :
      ManagerMove answer shared (.setup request slot .activate)
        (shared.modify slot fun session => { session with active := true }, .session request slot .openReq)
  | opened {request : ConnectionRequest} {slot : Fin slots} {pipe : Pipe} {file : Descriptor}
      {descriptors : Nat → Option Descriptor} {change : SessionData → SessionData}
      (ran : openFile shared.descriptors file answer.fd = some descriptors)
      (assigned : ∀ session, fdOf (change session) = Function.update (fdOf session) pipe answer.fd)
      (active : ∀ session, (change session).active = session.active) :
      ManagerMove answer shared (.session request slot (openPc pipe))
        ({ shared with descriptors := descriptors }.modify slot change, .session request slot (nextPc pipe))
  | ended {request : ConnectionRequest} {slot : Fin slots} {pc : SessionPc} {after : Shared slots}
      (leaving : ends (.session request slot pc) = some slot) (quiet : Quiet shared after) :
      ManagerMove answer shared (.session request slot pc) (after, .waitFull)
  | quiet {pc next : ManagerPc slots} {after : Shared slots} (silent : managerEntries answer pc = [])
      (kept : begins pc = none) (quiet : Quiet shared after) (same : place next = place pc) :
      ManagerMove answer shared pc (after, next)

theorem setupStep_cases (answer : Answer) (shared : Shared slots) (request : ConnectionRequest) (slot : Fin slots)
    (pc : SetupPc) : ManagerMove answer shared (.setup request slot pc) (setupStep shared request slot pc) := by
  cases pc with
  | activate => exact .began
  | reqPath | respPath | notifPath => exact .quiet rfl rfl (quiet_modify shared slot rfl id) rfl

theorem fdOf_update (session : SessionData) (fd : Option Nat) :
    fdOf { session with reqFd := fd } = Function.update (fdOf session) .req fd ∧
      fdOf { session with respFd := fd } = Function.update (fdOf session) .resp fd ∧
      fdOf { session with notifFd := fd } = Function.update (fdOf session) .notif fd := by
  refine ⟨?_, ?_, ?_⟩ <;>
    · funext pipe
      cases pipe <;> rfl

theorem past_all {pc : SessionPc} (opened : pc ≠ .openReq ∧ pc ≠ .openResp ∧ pc ≠ .openNotif) :
    past pc = fun _ => true := by
  obtain ⟨notReq, notResp, notNotif⟩ := opened
  funext pipe
  cases pipe <;> simp [past, notReq, notResp, notNotif]

/-- Behind the three opens and before the return a step is quiet. -/
theorem quiet_session {answer : Answer} {shared after : Shared slots} {request : ConnectionRequest} {slot : Fin slots}
    {pc next : SessionPc} (opened : pc ≠ .openReq ∧ pc ≠ .openResp ∧ pc ≠ .openNotif)
    (opened' : next ≠ .openReq ∧ next ≠ .openResp ∧ next ≠ .openNotif)
    (silent : managerEntries answer (.session request slot pc) = []) (quiet : Quiet shared after) :
    ManagerMove answer shared (.session request slot pc) (after, .session request slot next) := by
  refine .quiet silent rfl quiet ?_
  rw [place, place, past_all opened, past_all opened']

theorem sessionStep_cases {answer : Answer} {shared : Shared slots} {request : ConnectionRequest} {slot : Fin slots}
    {pc : SessionPc} {result : Shared slots × ManagerPc slots}
    (ran : sessionStep answer shared request slot pc = some result) :
    ManagerMove answer shared (.session request slot pc) result := by
  have same : Quiet shared shared := quiet_refl shared
  have written (fd : Option Nat) : Quiet shared (shared.afterWrite fd answer) := ⟨rfl, fun _ => rfl, fun _ => id⟩
  cases pc with
  | openReq =>
    obtain ⟨descriptors, opened, same⟩ := Option.map_eq_some_iff.mp ran
    subst same
    show ManagerMove answer shared (.session request slot (openPc .req)) (_, .session request slot (nextPc .req))
    exact .opened opened (fun session => (fdOf_update session answer.fd).1) fun _ => rfl
  | openResp =>
    obtain ⟨descriptors, opened, same⟩ := Option.map_eq_some_iff.mp ran
    subst same
    show ManagerMove answer shared (.session request slot (openPc .resp)) (_, .session request slot (nextPc .resp))
    exact .opened (openForWriting_opened opened).1 (fun session => (fdOf_update session answer.fd).2.1) fun _ => rfl
  | openNotif =>
    obtain ⟨descriptors, opened, same⟩ := Option.map_eq_some_iff.mp ran
    subst same
    show ManagerMove answer shared (.session request slot (openPc .notif)) (_, .session request slot (nextPc .notif))
    exact .opened (openForWriting_opened opened).1 (fun session => (fdOf_update session answer.fd).2.2) fun _ => rfl
  | abort =>
    cases ran
    exact .ended rfl (quiet_modify shared slot rfl fun raised => by cases raised)
  | tailPost =>
    cases ran
    exact .ended rfl ⟨rfl, fun _ => rfl, fun _ => id⟩
  | checkOpen | loop | read | unsubscribeFind =>
    simp only [sessionStep] at ran
    repeat' split at ran
    all_goals cases ran
    all_goals exact quiet_session (by simp) (by simp) rfl same
  | dispatch localBuffer bytesRead =>
    cases ran
    refine quiet_session (by simp) ?_ rfl same
    rcases dispatchStep_cases answer (shared.sessions slot) localBuffer bytesRead with
      ⟨goes, _⟩ | ⟨result, goes⟩ | ⟨goes, _⟩ | ⟨goes, _⟩ <;> simp [goes]
  | connectWrite | respond =>
    cases ran
    refine quiet_session (by simp) ?_ rfl (written _)
    split <;> simp
  | resetSubs | subscribeStore | subscribeCount | unsubscribeCount | disconnectKeys =>
    cases ran
    exact quiet_session (by simp) (by simp) rfl (quiet_modify shared slot rfl id)
  | unsubscribeShift =>
    simp only [sessionStep] at ran
    split at ran
    all_goals cases ran
    · exact quiet_session (by simp) (by simp) rfl (quiet_modify shared slot rfl id)
    · exact quiet_session (by simp) (by simp) rfl same
  | disconnectActive =>
    cases ran
    exact quiet_session (by simp) (by simp) rfl (quiet_modify shared slot rfl fun raised => by cases raised)
  | tail =>
    simp only [sessionStep] at ran
    split at ran
    all_goals cases ran
    exact quiet_session (by simp) (by simp) rfl (quiet_modify shared slot rfl fun raised => by cases raised)

theorem managerStep_cases {answer : Answer} {shared : Shared slots} {pc : ManagerPc slots}
    {result : Shared slots × ManagerPc slots} (ran : managerStep answer shared pc = some result) :
    ManagerMove answer shared pc result := by
  cases pc with
  | session request slot pc => exact sessionStep_cases ran
  | setup request slot pc =>
    cases ran
    exact setupStep_cases answer shared request slot pc
  | waitFull | copy | postEmpty | scan =>
    simp only [managerStep] at ran
    repeat' split at ran
    all_goals cases ran
    all_goals exact .quiet rfl rfl ⟨rfl, fun _ => rfl, fun _ => id⟩ rfl

theorem managerEntries_openPc (answer : Answer) (request : ConnectionRequest) (slot : Fin slots) (pipe : Pipe) :
    managerEntries answer (.session request slot (openPc pipe)) = answer.fd.toList.map (.opened slot) := by
  cases pipe <;> simp [managerEntries, begins, opens, ends, openPc]

theorem managerEntries_ends {answer : Answer} {request : ConnectionRequest} {slot : Fin slots} {pc : SessionPc}
    (leaving : ends (.session request slot pc) = some slot) :
    managerEntries answer (.session request slot pc) = [.ended slot] := by
  cases pc <;> first | rfl | cases leaving

/-! What a session holds. -/

section Owned
variable {fds : Pipe → Option Nat} {closed opened : Pipe → Bool} {pipe : Pipe} {fd : Nat}

def part (fds : Pipe → Option Nat) (closed opened : Pipe → Bool) (pipe : Pipe) : List Nat :=
  if opened pipe && !closed pipe then (fds pipe).toList else []

/-- The descriptors of the pipes that are open, in the order of the opens. -/
def owned (fds : Pipe → Option Nat) (closed opened : Pipe → Bool) : List Nat :=
  part fds closed opened .req ++ part fds closed opened .resp ++ part fds closed opened .notif

theorem part_subset_owned (pipe : Pipe) : part fds closed opened pipe ⊆ owned fds closed opened := by
  intro fd member
  simp only [owned, List.mem_append]
  cases pipe with
  | req => exact .inl (.inl member)
  | resp => exact .inl (.inr member)
  | notif => exact .inr member

theorem part_length_le (pipe : Pipe) : (part fds closed opened pipe).length ≤ 1 := by
  unfold part
  split
  · exact Option.length_toList_le
  · exact Nat.zero_le 1

theorem owned_length_le : (owned fds closed opened).length ≤ 3 := by
  have each := @part_length_le fds closed opened
  have first := each .req
  have second := each .resp
  have third := each .notif
  rw [owned, List.length_append, List.length_append]
  omega

theorem owned_nil (all : ∀ pipe, (fds pipe).isSome = true → closed pipe = true) : owned fds closed opened = [] := by
  have none (pipe : Pipe) : part fds closed opened pipe = [] := by
    unfold part
    cases held : fds pipe with
    | none => simp
    | some fd => rw [all pipe (by rw [held]; rfl)]; simp
  rw [owned, none, none, none]
  rfl

theorem part_of_owned (found : fds pipe = some fd) (opened' : opened pipe = true) (unclosed : closed pipe = false) :
    part fds closed opened pipe = [fd] := by
  rw [part, found, opened', unclosed]
  rfl

theorem part_closed_self : part fds (Function.update closed pipe true) opened pipe = [] := by
  simp [part]

theorem part_closed_of_ne {other : Pipe} (different : other ≠ pipe) :
    part fds (Function.update closed pipe true) opened other = part fds closed opened other := by
  rw [part, part, Function.update_of_ne different]

/-- Closing a pipe takes its descriptor off. -/
theorem owned_close (found : fds pipe = some fd) (opened' : opened pipe = true) (unclosed : closed pipe = false)
    (once : (owned fds closed opened).Nodup) :
    (owned fds closed opened).erase fd = owned fds (Function.update closed pipe true) opened := by
  have here := part_of_owned found opened' unclosed
  unfold owned at once ⊢
  cases pipe with
  | req =>
    rw [here, part_closed_self, part_closed_of_ne (by decide), part_closed_of_ne (by decide)]
    simp
  | resp =>
    rw [here] at once ⊢
    rw [part_closed_self, part_closed_of_ne (by decide), part_closed_of_ne (by decide)]
    have absent : fd ∉ part fds closed opened .req := by
      intro member
      simp only [List.append_assoc, List.singleton_append] at once
      exact (List.disjoint_of_nodup_append once) member List.mem_cons_self
    rw [List.append_assoc, List.erase_append_right _ absent]
    simp
  | notif =>
    rw [here] at once ⊢
    rw [part_closed_self, part_closed_of_ne (by decide), part_closed_of_ne (by decide)]
    have absent : fd ∉ part fds closed opened .req ++ part fds closed opened .resp := fun member =>
      (List.disjoint_of_nodup_append once) member (List.mem_singleton_self fd)
    rw [List.erase_append_right _ absent]
    simp

/-- Opening a pipe adds its descriptor. -/
theorem owned_open {answer : Option Nat} (unclosed : closed pipe = false) :
    owned (Function.update fds pipe answer) closed (past (nextPc pipe)) =
      owned fds closed (past (openPc pipe)) ++ answer.toList := by
  cases pipe <;> simp [owned, part, past, nextPc, openPc, unclosed, Function.update]

theorem past_openPc : past (openPc pipe) pipe = false := by
  cases pipe <;> rfl

theorem past_nextPc {other : Pipe} (opened : past (openPc pipe) other = true) : past (nextPc pipe) other = true := by
  cases pipe <;> cases other <;> first | rfl | cases opened

end Owned

/-! The ledger over a run. -/

/-- The ledger lists what each session in progress holds, and nothing else is open. -/
structure Invariant (held : Ledger (Fin slots) Nat) (state : State slots managers jobs) (closed : Closed slots) : Prop where
  busy : ∀ {thread slot opened}, place (state.managers thread) = some (slot, opened) →
    held slot = some (owned (fdOf (state.shared.sessions slot)) (closed slot) opened)
  idle : ∀ {slot}, (∀ thread, inSession slot (state.managers thread) = false) → held slot = none
  single : ∀ {first second slot}, inSession slot (state.managers first) = true →
    inSession slot (state.managers second) = true → first = second
  behind : ∀ {thread slot opened pipe}, place (state.managers thread) = some (slot, opened) →
    closed slot pipe = true → opened pipe = true
  due : ∀ {slot pipe}, ahead slot pipe state.host = true → closed slot pipe = false
  settled : ∀ {slot pipe}, closed slot pipe = true →
    (state.shared.sessions slot).active = false ∨ sweeping slot state.host = true
  fits : Matches held fun fd => (state.shared.descriptors fd).isSome = true

section Steps
variable {held : Ledger (Fin slots) Nat} {state next : State slots managers jobs} {closed : Closed slots}

theorem inSession_of_place {slot : Fin slots} {pc : ManagerPc slots} {opened : Pipe → Bool}
    (found : place pc = some (slot, opened)) : inSession slot pc = true := by
  rw [inSession, found]
  simp

theorem place_of_inSession {slot : Fin slots} {pc : ManagerPc slots} (inside : inSession slot pc = true) :
    ∃ opened, place pc = some (slot, opened) := by
  obtain ⟨⟨own, opened⟩, found, same⟩ := (Option.any_eq_true _ _).mp inside
  have same : own = slot := by simpa using same
  subst same
  exact ⟨opened, found⟩

/-- A step that moves no session and no descriptor. -/
theorem Invariant.quiet (invariant : Invariant held state closed) (quiet : Quiet state.shared next.shared)
    (places : ∀ thread, place (next.managers thread) = place (state.managers thread))
    (due : ∀ {slot pipe}, ahead slot pipe next.host = true → closed slot pipe = false)
    (left : ∀ {slot}, sweeping slot state.host = true →
      (next.shared.sessions slot).active = false ∨ sweeping slot next.host = true) :
    Invariant held next closed := by
  have inside (slot : Fin slots) (thread : Fin managers) :
      inSession slot (next.managers thread) = inSession slot (state.managers thread) := by
    rw [inSession, inSession, places]
  constructor
  case busy =>
    intro thread slot opened found
    rw [quiet.fds, invariant.busy (places thread ▸ found)]
  case idle =>
    intro slot away
    exact invariant.idle fun thread => inside slot thread ▸ away thread
  case single =>
    intro first second slot here here'
    exact invariant.single (inside slot first ▸ here) (inside slot second ▸ here')
  case behind =>
    intro thread slot opened pipe found
    exact invariant.behind (places thread ▸ found)
  case due => exact due
  case settled =>
    intro slot pipe shut
    rcases invariant.settled shut with lowered | midway
    · exact .inl (quiet.lowered lowered)
    · exact left midway
  case fits => exact invariant.fits.congr fun fd => by rw [quiet.descriptors]

theorem sweeping_of_closes {slot : Fin slots} {pipe : Pipe} {pc : HostPc slots} (closing : closes pc = some (slot, pipe)) :
    sweeping slot pc = true := by
  cases pc <;> simp_all [closes, sweeping]

theorem Invariant.alone (invariant : Invariant held state closed) {thread other : Fin managers} {slot : Fin slots}
    {opened opened' : Pipe → Bool} (found : place (state.managers thread) = some (slot, opened))
    (found' : place (state.managers other) = some (slot, opened')) : other = thread ∧ opened' = opened := by
  have same := invariant.single (inSession_of_place found') (inSession_of_place found)
  subst same
  rw [found] at found'
  cases found'
  exact ⟨rfl, rfl⟩

/-! A change in one slot, seen from the others. -/

theorem managers_cases {thread other : Fin managers} {pc : ManagerPc slots} {slot : Fin slots} {opened : Pipe → Bool}
    (moved : next.managers = Function.update state.managers thread pc)
    (found : place (next.managers other) = some (slot, opened)) :
    other = thread ∧ place pc = some (slot, opened) ∨
      other ≠ thread ∧ place (state.managers other) = some (slot, opened) := by
  rw [moved] at found
  by_cases same : other = thread
  · subst same
    rw [Function.update_self] at found
    exact .inl ⟨rfl, found⟩
  · rw [Function.update_of_ne same] at found
    exact .inr ⟨same, found⟩

/-- A slot changes hands, or what its session holds changes, where at most one manager is. -/
theorem Invariant.replaced (invariant : Invariant held state closed) {thread : Fin managers} {slot : Fin slots}
    {pc : ManagerPc slots} {holds : Option (List Nat)} {shut : Pipe → Bool}
    (moved : next.managers = Function.update state.managers thread pc)
    (only : ∀ {other opened}, place (state.managers other) = some (slot, opened) → other = thread)
    (before : ∀ {own opened}, place (state.managers thread) = some (own, opened) → own = slot)
    (into : ∀ {own opened}, place pc = some (own, opened) → own = slot ∧
      holds = some (owned (fdOf (next.shared.sessions slot)) shut opened) ∧ ∀ pipe, shut pipe = true → opened pipe = true)
    (gone : place pc = none → holds = none)
    (others : ∀ own, own ≠ slot → fdOf (next.shared.sessions own) = fdOf (state.shared.sessions own))
    (due : ∀ own pipe, ahead own pipe next.host = true → Function.update closed slot shut own pipe = false)
    (settled : ∀ own pipe, Function.update closed slot shut own pipe = true →
      (next.shared.sessions own).active = false ∨ sweeping own next.host = true)
    (fits : Matches (Function.update held slot holds) fun fd => (next.shared.descriptors fd).isSome = true) :
    Invariant (Function.update held slot holds) next (Function.update closed slot shut) := by
  have apart {other : Fin managers} {own : Fin slots} {opened : Pipe → Bool} (different : other ≠ thread)
      (found : place (state.managers other) = some (own, opened)) : own ≠ slot :=
    fun same => different (only (same ▸ found))
  constructor
  case busy =>
    intro other own opened found
    rcases managers_cases moved found with ⟨_, found⟩ | ⟨different, found⟩
    · obtain ⟨same, listed, _⟩ := into found
      subst same
      rw [Function.update_self, Function.update_self]
      exact listed
    · have elsewhere := apart different found
      rw [Function.update_of_ne elsewhere, Function.update_of_ne elsewhere, invariant.busy found, others own elsewhere]
  case idle =>
    intro own away
    rw [moved] at away
    have left : inSession own pc = false := by
      have here := away thread
      rwa [Function.update_self] at here
    by_cases same : own = slot
    · subst same
      rw [Function.update_self]
      apply gone
      by_contra served
      obtain ⟨⟨own', opened⟩, found⟩ := Option.ne_none_iff_exists'.mp served
      have same := (into found).1
      subst same
      rw [inSession_of_place found] at left
      cases left
    · rw [Function.update_of_ne same]
      apply invariant.idle
      intro other
      by_contra inside
      obtain ⟨opened, found⟩ := place_of_inSession (Bool.eq_true_of_not_eq_false inside)
      by_cases mover : other = thread
      · exact same (before (mover ▸ found))
      · have here := away other
        rw [Function.update_of_ne mover, inSession_of_place found] at here
        cases here
  case single =>
    intro first second own here here'
    obtain ⟨opened, found⟩ := place_of_inSession here
    obtain ⟨opened', found'⟩ := place_of_inSession here'
    rcases managers_cases moved found with ⟨same, found⟩ | ⟨different, found⟩ <;>
      rcases managers_cases moved found' with ⟨same', found'⟩ | ⟨different', found'⟩
    · exact same.trans same'.symm
    · exact absurd (into found).1 (apart different' found')
    · exact absurd (into found').1 (apart different found)
    · exact invariant.single (inSession_of_place found) (inSession_of_place found')
  case behind =>
    intro other own opened pipe found shut'
    rcases managers_cases moved found with ⟨_, found⟩ | ⟨different, found⟩
    · obtain ⟨same, _, behind⟩ := into found
      subst same
      rw [Function.update_self] at shut'
      exact behind pipe shut'
    · rw [Function.update_of_ne (apart different found)] at shut'
      exact invariant.behind found shut'
  case due => exact due _ _
  case settled => exact settled _ _
  case fits => exact fits

/-- A move of a manager, which leaves the host where it is. -/
theorem Invariant.managed (invariant : Invariant held state closed) {thread : Fin managers} {slot : Fin slots}
    {shared : Shared slots} {pc : ManagerPc slots} {holds : Option (List Nat)} {shut : Pipe → Bool}
    (only : ∀ {other opened}, place (state.managers other) = some (slot, opened) → other = thread)
    (before : ∀ {own opened}, place (state.managers thread) = some (own, opened) → own = slot)
    (into : ∀ {own opened}, place pc = some (own, opened) → own = slot ∧
      holds = some (owned (fdOf (shared.sessions slot)) shut opened) ∧ ∀ pipe, shut pipe = true → opened pipe = true)
    (gone : place pc = none → holds = none)
    (fds : ∀ own, own ≠ slot → fdOf (shared.sessions own) = fdOf (state.shared.sessions own))
    (active : ∀ own, own ≠ slot → (state.shared.sessions own).active = false → (shared.sessions own).active = false)
    (due : ∀ {pipe}, ahead slot pipe state.host = true → shut pipe = false)
    (settled : ∀ {pipe}, shut pipe = true → (shared.sessions slot).active = false ∨ sweeping slot state.host = true)
    (fits : Matches (Function.update held slot holds) fun fd => (shared.descriptors fd).isSome = true) :
    Invariant (Function.update held slot holds) (state.withManager thread (shared, pc)) (Function.update closed slot shut) := by
  apply invariant.replaced rfl only before into gone fds
  · intro own pipe ahead
    by_cases same : own = slot
    · subst same
      rw [Function.update_self]
      exact due ahead
    · rw [Function.update_of_ne same]
      exact invariant.due ahead
  · intro own pipe shut'
    by_cases same : own = slot
    · subst same
      rw [Function.update_self] at shut'
      exact settled shut'
    · rw [Function.update_of_ne same] at shut'
      exact (invariant.settled shut').imp_left (active own same)
  · exact fits

theorem open_after_close (descriptors : Nat → Option Descriptor) (fd other : Nat) :
    (closeFile descriptors (some fd) other).isSome = true ↔ (descriptors other).isSome = true ∧ other ≠ fd := by
  rw [closeFile]
  by_cases here : other = fd
  · simp [here]
  · simp [here]

/-- A close of the sweep that meets the condition takes a descriptor off the session's own. -/
theorem close_accounts (invariant : Invariant held state closed) {slot : Fin slots} {pipe : Pipe} {host : HostPc slots}
    (closing : closes state.host = some (slot, pipe)) (due : ahead slot pipe state.host = true)
    (rest : ∀ other field, ahead other field host = (ahead other field state.host && !decide (field = pipe)))
    (still : ∀ other, sweeping other host = sweeping other state.host) (met : OpenedBySession state slot pipe) :
    ∃ after, held.account (.closed slot (fdOf (state.shared.sessions slot) pipe)) = some after ∧
      Invariant after (state.withHost (state.shared.close (fdOf (state.shared.sessions slot) pipe), host))
        (Function.update closed slot (Function.update (closed slot) pipe true)) := by
  obtain ⟨⟨thread, served⟩, successful⟩ := met
  obtain ⟨⟨own, opened⟩, found, ready⟩ := (Option.any_eq_true _ _).mp served
  obtain ⟨same, opened'⟩ : own = slot ∧ opened pipe = true := by simpa using ready
  subst same
  obtain ⟨fd, number⟩ := Option.isSome_iff_exists.mp successful
  have unclosed := invariant.due due
  have busy := invariant.busy found
  have once := invariant.fits.nodup busy
  have member : fd ∈ owned (fdOf (state.shared.sessions own)) (closed own) opened := by
    apply part_subset_owned pipe
    rw [part_of_owned number opened' unclosed]
    exact List.mem_singleton_self fd
  have erased := owned_close number opened' unclosed once
  refine ⟨Function.update held own (some (owned (fdOf (state.shared.sessions own))
    (Function.update (closed own) pipe true) opened)), ?_, ?_⟩
  · rw [number, Ledger.account, busy, Option.bind_some, if_pos member, erased]
  · rw [number]
    have stayed : (state.withHost (state.shared.close (some fd), host)).managers =
        Function.update state.managers thread (state.managers thread) := (Function.update_eq_self ..).symm
    apply invariant.replaced stayed
    · exact fun found' => (invariant.alone found found').1
    · intro slot opened'' found'
      rw [found] at found'
      cases found'
      rfl
    · intro slot opened'' found'
      rw [found] at found'
      cases found'
      refine ⟨rfl, rfl, fun field shut => ?_⟩
      by_cases target : field = pipe
      · exact target ▸ opened'
      · rw [Function.update_of_ne target] at shut
        exact invariant.behind found shut
    · intro away
      rw [found] at away
      cases away
    · exact fun _ _ => rfl
    · intro slot field ahead'
      have before : (ahead slot field state.host && !decide (field = pipe)) = true := rest slot field ▸ ahead'
      obtain ⟨before, target⟩ : ahead slot field state.host = true ∧ field ≠ pipe := by simpa using before
      by_cases here : slot = own
      · subst here
        rw [Function.update_self, Function.update_of_ne target]
        exact invariant.due before
      · rw [Function.update_of_ne here]
        exact invariant.due before
    · intro slot field shut
      show _ ∨ sweeping slot host = true
      rw [still]
      by_cases here : slot = own
      · subst here
        exact .inr (sweeping_of_closes closing)
      · rw [Function.update_of_ne here] at shut
        exact invariant.settled shut
    · have fits := invariant.fits.closed busy member
      rw [erased] at fits
      exact fits.congr fun other => open_after_close state.shared.descriptors fd other

theorem host_accounts (invariant : Invariant held state closed) {answer : Answer} {result : Shared slots × HostPc slots}
    (met : Accountable state closed (.host answer : Action managers jobs))
    (ran : hostStep answer state.shared state.host = some result) :
    ∃ after, (hostEntries state.shared state.host).foldlM Ledger.account held = some after ∧
      Invariant after (state.withHost result) (record state (.host answer) closed) := by
  obtain ⟨shared, host⟩ := result
  have move := hostStep_cases ran
  generalize place' : state.host = pc at move
  cases move with
  | quiet closing quiet due left =>
    have same : record state (.host answer) closed = closed := by simp only [record, place', closing]
    refine ⟨held, by rw [hostEntries, closing]; rfl, ?_⟩
    rw [same]
    refine invariant.quiet quiet (fun thread => rfl) (fun {slot pipe} ahead => ?_) fun {slot} midway => ?_
    · obtain ⟨active, outside⟩ := due slot pipe ahead
      by_contra shut
      rcases invariant.settled (Bool.eq_true_of_not_eq_false shut) with lowered | midway
      · rw [active] at lowered
        cases lowered
      · rw [place', outside] at midway
        cases midway
    · exact .inl (left slot (place' ▸ midway))
  | @close slot pipe _ closing ahead' rest still =>
    subst place'
    obtain ⟨after, counted, invariant⟩ := close_accounts invariant closing ahead' rest still
      (met (slot, pipe) closing)
    have changed : record state (.host answer) closed =
        Function.update closed slot (Function.update (closed slot) pipe true) := by simp only [record, closing]
    refine ⟨after, ?_, changed ▸ invariant⟩
    rw [hostEntries, closing, ← counted]
    exact account_single held _

/-! The moves of a manager. -/

theorem place_session (request : ConnectionRequest) (slot : Fin slots) (pc : SessionPc) :
    place (.session request slot pc) = some (slot, past pc) := rfl

theorem began_accounts (invariant : Invariant held state closed) {thread : Fin managers} {request : ConnectionRequest}
    {slot : Fin slots} (here : state.managers thread = .setup request slot .activate)
    (met : ∀ other, inSession slot (state.managers other) = false) :
    ∃ after, held.account (.began slot) = some after ∧
      Invariant after (state.withManager thread
          (state.shared.modify slot fun session => { session with active := true }, .session request slot .openReq))
        (Function.update closed slot fun _ => false) := by
  have idle := invariant.idle met
  refine ⟨Function.update held slot (some []), by rw [Ledger.account, if_pos idle], ?_⟩
  apply invariant.managed
  · intro other opened found
    have outside := met other
    rw [inSession_of_place found] at outside
    cases outside
  · intro own opened found
    rw [here] at found
    cases found
  · intro own opened found
    cases found
    exact ⟨rfl, rfl, fun pipe shut => by cases shut⟩
  · intro gone
    cases gone
  · intro own different
    rw [modify_sessions_of_ne _ _ _ different]
  · intro own different
    rw [modify_sessions_of_ne _ _ _ different]
    exact id
  · exact fun _ => rfl
  · intro pipe shut
    cases shut
  · exact invariant.fits.began idle

theorem opened_accounts (invariant : Invariant held state closed) {answer : Answer} {thread : Fin managers}
    {request : ConnectionRequest} {slot : Fin slots} {pipe : Pipe} {file : Descriptor}
    {descriptors : Nat → Option Descriptor} {change : SessionData → SessionData}
    (here : state.managers thread = .session request slot (openPc pipe))
    (ran : openFile state.shared.descriptors file answer.fd = some descriptors)
    (assigned : ∀ session, fdOf (change session) = Function.update (fdOf session) pipe answer.fd)
    (active : ∀ session, (change session).active = session.active) :
    ∃ after, (answer.fd.toList.map (Entry.opened slot)).foldlM Ledger.account held = some after ∧
      Invariant after (state.withManager thread
        ({ state.shared with descriptors := descriptors }.modify slot change, .session request slot (nextPc pipe))) closed := by
  have found : place (state.managers thread) = some (slot, past (openPc pipe)) := by rw [here, place_session]
  have busy := invariant.busy found
  have unclosed : closed slot pipe = false := by
    by_contra shut
    have behind := invariant.behind found (Bool.eq_true_of_not_eq_false shut)
    rw [past_openPc] at behind
    cases behind
  have grown := @owned_open (fdOf (state.shared.sessions slot)) (closed slot) pipe answer.fd unclosed
  have moved (fits : Matches (Function.update held slot (some (owned (fdOf (state.shared.sessions slot)) (closed slot)
      (past (openPc pipe)) ++ answer.fd.toList))) fun fd => (descriptors fd).isSome = true) :
      Invariant (Function.update held slot (some (owned (fdOf (state.shared.sessions slot)) (closed slot)
        (past (openPc pipe)) ++ answer.fd.toList))) (state.withManager thread
          ({ state.shared with descriptors := descriptors }.modify slot change, .session request slot (nextPc pipe)))
        (Function.update closed slot (closed slot)) := by
    apply invariant.managed
    · exact fun found' => (invariant.alone found found').1
    · intro own opened found'
      rw [found] at found'
      cases found'
      rfl
    · intro own opened found'
      cases found'
      refine ⟨rfl, ?_, fun other shut => past_nextPc (invariant.behind found shut)⟩
      rw [modify_sessions_self, assigned, grown]
    · intro gone
      cases gone
    · intro own different
      rw [modify_sessions_of_ne _ _ _ different]
    · intro own different
      rw [modify_sessions_of_ne _ _ _ different]
      exact id
    · exact invariant.due
    · intro other shut
      rw [modify_sessions_self, active]
      exact invariant.settled shut
    · exact fits
  rw [Function.update_eq_self] at moved
  cases number : answer.fd with
  | none =>
    rw [number] at ran moved
    cases ran
    rw [Option.toList_none, List.append_nil, ← busy, Function.update_eq_self] at moved
    exact ⟨held, rfl, moved invariant.fits⟩
  | some fd =>
    rw [number, openFile] at ran
    rw [number] at moved
    split at ran
    next unused =>
      cases ran
      have fresh : ¬(state.shared.descriptors fd).isSome = true := by simp [unused]
      refine ⟨_, ?_, moved ((invariant.fits.opened busy fresh).congr fun other => ?_)⟩
      · simp [Ledger.account, busy]
      · by_cases same : other = fd
        · subst same
          simp
        · simp [same]
    next => cases ran

theorem ended_accounts (invariant : Invariant held state closed) {thread : Fin managers} {request : ConnectionRequest}
    {slot : Fin slots} {pc : SessionPc} {shared : Shared slots}
    (here : state.managers thread = .session request slot pc) (quiet : Quiet state.shared shared)
    (met : ∀ pipe, (fdOf (state.shared.sessions slot) pipe).isSome = true → closed slot pipe = true) :
    ∃ after, held.account (.ended slot) = some after ∧
      Invariant after (state.withManager thread (shared, .waitFull)) closed := by
  have found : place (state.managers thread) = some (slot, past pc) := by rw [here, place_session]
  have busy := invariant.busy found
  rw [owned_nil met] at busy
  refine ⟨Function.update held slot none, by rw [Ledger.account, if_pos busy], ?_⟩
  rw [← Function.update_eq_self slot closed]
  apply invariant.managed
  · exact fun found' => (invariant.alone found found').1
  · intro own opened found'
    rw [found] at found'
    cases found'
    rfl
  · intro own opened found'
    cases found'
  · exact fun _ => rfl
  · exact fun own _ => quiet.fds own
  · exact fun own _ => quiet.lowered
  · exact invariant.due
  · exact fun shut => (invariant.settled shut).imp_left quiet.lowered
  · exact (invariant.fits.ended busy).congr fun fd => by rw [quiet.descriptors]

theorem manager_accounts (invariant : Invariant held state closed) {answer : Answer} {thread : Fin managers}
    {result : Shared slots × ManagerPc slots}
    (one : OneAtATime state (.manager thread answer : Action managers jobs))
    (met : Accountable state closed (.manager thread answer : Action managers jobs))
    (taken : managerStep answer state.shared (state.managers thread) = some result) :
    ∃ after, (managerEntries answer (state.managers thread)).foldlM Ledger.account held = some after ∧
      Invariant after (state.withManager thread result) (record state (.manager thread answer) closed) := by
  have move := managerStep_cases taken
  generalize here : state.managers thread = pc at move
  have unchanged (kept : begins pc = none) : record state (.manager thread answer) closed = closed := by
    simp only [record, here, kept]
  have nobody : ∀ slot ∈ begins (state.managers thread), ∀ other, inSession slot (state.managers other) = false := one
  have swept : ∀ slot ∈ ends (state.managers thread), ∀ pipe,
      (fdOf (state.shared.sessions slot) pipe).isSome = true → closed slot pipe = true := met
  rw [here] at nobody swept
  cases move with
  | @began request slot =>
    have filled : record state (.manager thread answer) closed = Function.update closed slot fun _ => false := by
      simp only [record, here, begins]
    obtain ⟨after, counted, invariant⟩ := began_accounts invariant here (nobody slot rfl)
    rw [filled]
    refine ⟨after, ?_, invariant⟩
    rw [← counted]
    exact account_single held _
  | opened ran assigned active =>
    obtain ⟨after, counted, invariant⟩ := opened_accounts invariant here ran assigned active
    rw [unchanged rfl]
    refine ⟨after, ?_, invariant⟩
    rw [← counted, managerEntries_openPc]
  | ended leaving quiet =>
    obtain ⟨after, counted, invariant⟩ := ended_accounts invariant here quiet (swept _ leaving)
    rw [unchanged rfl]
    refine ⟨after, ?_, invariant⟩
    rw [managerEntries_ends leaving, account_single, counted]
  | @quiet _ next shared silent kept quiet same =>
    rw [unchanged kept]
    refine ⟨held, by rw [silent]; rfl, ?_⟩
    refine invariant.quiet quiet (fun other => ?_) invariant.due fun midway => .inr midway
    show place (Function.update state.managers thread next other) = _
    by_cases mover : other = thread
    · subst mover
      rw [Function.update_self, same, here]
    · rw [Function.update_of_ne mover]

theorem step_accounts (invariant : Invariant held state closed) {action : Action managers jobs}
    (one : OneAtATime state action) (met : Accountable state closed action) (taken : step state action = some next) :
    ∃ after, (entries state action).foldlM Ledger.account held = some after ∧
      Invariant after next (record state action closed) := by
  obtain ⟨_, steps⟩ := steps_of_step taken
  cases steps with
  | host ran => exact host_accounts invariant met ran
  | manager ran => exact manager_accounts invariant one met ran
  | job ran =>
    obtain ⟨terminated, same⟩ := jobStep_sessions ran
    refine ⟨held, rfl, invariant.quiet ?_ (fun thread => rfl) invariant.due fun midway => .inr midway⟩
    rw [State.withJob, same]
    exact ⟨rfl, fun _ => rfl, fun _ => id⟩
  | call | signal | openReader | closeReader =>
    refine ⟨held, rfl, invariant.quiet ⟨rfl, fun _ => rfl, fun _ => id⟩ (fun thread => rfl) invariant.due ?_⟩
    exact fun midway => .inr midway

end Steps

/-! The schedule of the sweep gives what the ledger asks: a pass that has found a connected
session closes its three pipes before it clears the flag, and the session waits for that. -/

/-- Where the pass stands. `through` is what it has done to the slot it is at. -/
structure Scheduled (state : State slots managers jobs) (closed : Closed slots) (cleared : Cleared slots) : Prop where
  swept : ∀ {slot}, cleared slot = true → ∀ pipe, closed slot pipe = true
  down : ∀ {slot}, cleared slot = true → (state.shared.sessions slot).active = false
  waits : ∀ {slot}, sweeping slot state.host = true → cleared slot = false
  connected : ∀ {slot}, sweeping slot state.host = true → Connected state slot
  through : ∀ {slot}, sweeping slot state.host = true → ∀ pipe,
    ahead slot pipe state.host = true ∨ closed slot pipe = true

/-- The steps of the host, by where they are in the sweep. -/
inductive SweepMove (shared : Shared slots) (pc : HostPc slots) : Shared slots × HostPc slots → Prop where
  | found {slot : Fin slots} (tested : tests shared pc = some slot) (outside : closes pc = none ∧ clears pc = none) :
      SweepMove shared pc (shared, .sweepCloseReq slot)
  | close {slot : Fin slots} {pipe : Pipe} {next : HostPc slots} (closing : closes pc = some (slot, pipe))
      (kept : clears pc = none)
      (rest : ∀ other field, ahead other field next = (ahead other field pc && !decide (field = pipe)))
      (still : ∀ other, sweeping other next = sweeping other pc) :
      SweepMove shared pc (shared.close (fdOf (shared.sessions slot) pipe), next)
  | clear {slot : Fin slots} (clearing : pc = .sweepActive slot) :
      SweepMove shared pc (shared.modify slot fun session => { session with active := false }, .sweepKeys slot)
  | away {after : Shared slots} {next : HostPc slots} (outside : closes pc = none ∧ clears pc = none)
      (left : ∀ slot, sweeping slot next = false) (quiet : Quiet shared after) : SweepMove shared pc (after, next)

theorem hostStep_sweep {answer : Answer} {shared : Shared slots} {pc : HostPc slots}
    {result : Shared slots × HostPc slots} (ran : hostStep answer shared pc = some result) :
    SweepMove shared pc result := by
  obtain ⟨after, next⟩ := result
  have move := hostStep_cases ran
  cases pc with
  | sweepTest i =>
    simp only [hostStep] at ran
    split at ran
    next bound =>
      split at ran
      next active =>
        cases ran
        exact .found (by simp only [tests, dif_pos bound, active, ↓reduceIte]) ⟨rfl, rfl⟩
      next =>
        cases ran
        exact .away ⟨rfl, rfl⟩ (fun _ => rfl) (quiet_refl shared)
    next =>
      cases ran
      exact .away ⟨rfl, rfl⟩ (fun _ => rfl) ⟨rfl, fun _ => rfl, fun _ => id⟩
  | sweepActive i =>
    cases ran
    exact .clear rfl
  | sweepCloseReq i | sweepCloseResp i | sweepCloseNotif i =>
    cases move with
    | close closing ahead' rest still => exact .close closing rfl rest still
    | quiet closing => cases closing
  | sweepKeys | checkSignal | sweepLock | resetSignal | readRegister | waitEmpty | store | postFull =>
    cases move with
    | close closing => cases closing
    | quiet closing quiet =>
      refine .away ⟨rfl, rfl⟩ (fun slot => ?_) quiet
      simp only [hostStep] at ran
      repeat' split at ran
      all_goals cases ran
      all_goals rfl

section Schedule
variable {held : Ledger (Fin slots) Nat} {state next : State slots managers jobs} {closed : Closed slots}
  {cleared : Cleared slots}

theorem sweeping_unique {slot other : Fin slots} {pc : HostPc slots} (here : sweeping slot pc = true)
    (there : sweeping other pc = true) : slot = other := by
  cases pc <;> simp_all [sweeping]

theorem Connected.served {slot : Fin slots} (connected : Connected state slot) : ∃ thread opened,
    place (state.managers thread) = some (slot, opened) ∧ ∀ pipe, opened pipe = true := by
  obtain ⟨⟨thread, served⟩, _⟩ := connected
  obtain ⟨⟨own, opened⟩, found, ready⟩ := (Option.any_eq_true _ _).mp served
  obtain ⟨same, opened'⟩ : own = slot ∧ opened .notif = true := by simpa using ready
  subst same
  refine ⟨thread, opened, found, fun pipe => ?_⟩
  -- the third open is the last
  cases inside : state.managers thread with
  | session request slot pc =>
    rw [inside] at found
    cases found
    have last : pc ≠ .openReq ∧ pc ≠ .openResp ∧ pc ≠ .openNotif := by simpa [past, and_assoc] using opened'
    rw [past_all last]
  | waitFull | copy | postEmpty | scan | setup =>
    rw [inside] at found
    cases found

theorem Connected.openedBySession {slot : Fin slots} (connected : Connected state slot) (pipe : Pipe) :
    OpenedBySession state slot pipe := by
  obtain ⟨thread, opened, found, all⟩ := connected.served
  refine ⟨⟨thread, ?_⟩, connected.2 pipe⟩
  rw [found]
  simp [all pipe]

/-- A connected session stays so while its slot and its manager's place in it do. -/
theorem Connected.keeps {slot : Fin slots} (connected : Connected state slot)
    (fds : fdOf (next.shared.sessions slot) = fdOf (state.shared.sessions slot))
    (stays : ∀ {thread opened}, place (state.managers thread) = some (slot, opened) →
      place (next.managers thread) = some (slot, opened)) : Connected next slot := by
  obtain ⟨thread, opened, found, all⟩ := connected.served
  refine ⟨⟨thread, ?_⟩, fun pipe => ?_⟩
  · rw [stays found]
    simp [all .notif]
  · rw [fds]
    exact connected.2 pipe

theorem Scheduled.accountable (scheduled : Scheduled state closed cleared) {action : Action managers jobs}
    (met : Swept (state, cleared) action) : Accountable state closed action := by
  cases action with
  | host answer =>
    intro close closing
    have here : sweeping close.1 state.host = true := sweeping_of_closes closing
    exact (scheduled.connected here).openedBySession close.2
  | manager thread answer =>
    intro slot leaving pipe opened
    rcases met slot leaving with gone | none
    · exact scheduled.swept gone pipe
    · have failed := none pipe
      rw [Option.isNone_iff_eq_none] at failed
      rw [failed] at opened
      cases opened
  | job | call | signal | openReader | closeReader => trivial

theorem host_scheduled (scheduled : Scheduled state closed cleared) {answer : Answer}
    {result : Shared slots × HostPc slots} (met : Swept (state, cleared) (.host answer : Action managers jobs))
    (ran : hostStep answer state.shared state.host = some result) :
    Scheduled (state.withHost result) (record state (.host answer) closed) (note state (.host answer) cleared) := by
  have tested : ∀ slot ∈ tests state.shared state.host, Connected state slot := met
  have move := hostStep_sweep ran
  generalize here : state.host = pc at move tested
  have unrecorded (kept : closes pc = none) : record state (.host answer) closed = closed := by
    simp only [record, here, kept]
  have unnoted (kept : clears pc = none) : note state (.host answer) cleared = cleared := by
    simp only [note, here, kept]
  cases move with
  | @found slot found outside =>
    rw [unrecorded outside.1, unnoted outside.2]
    have connected := tested slot found
    have active : (state.shared.sessions slot).active = true := by
      cases pc with
      | sweepTest i =>
        simp only [tests] at found
        split_ifs at found with bound active
        cases found
        exact active
      | _ => cases found
    have at_slot {other : Fin slots} (midway : sweeping other (.sweepCloseReq slot : HostPc slots) = true) :
        other = slot := by simpa [sweeping, eq_comm] using midway
    constructor
    case swept => exact scheduled.swept
    case down => exact scheduled.down
    case waits =>
      intro other midway
      rw [at_slot midway]
      by_contra raised
      have lowered := scheduled.down (Bool.eq_true_of_not_eq_false raised)
      rw [active] at lowered
      cases lowered
    case connected =>
      intro other midway
      rw [at_slot midway]
      exact connected.keeps rfl id
    case through =>
      intro other midway pipe
      rw [at_slot midway]
      exact .inl (decide_eq_true rfl)
  | @close slot pipe following closing kept rest still =>
    have changed : record state (.host answer) closed =
        Function.update closed slot (Function.update (closed slot) pipe true) := by simp only [record, here, closing]
    have midway_of {other : Fin slots} (midway : sweeping other following = true) :
        sweeping other state.host = true := by
      rw [here, ← still]
      exact midway
    rw [changed, unnoted kept]
    constructor
    case swept =>
      intro other gone field
      have all := scheduled.swept gone field
      by_cases same : other = slot
      · subst same
        rw [Function.update_self]
        by_cases target : field = pipe
        · rw [target, Function.update_self]
        · rw [Function.update_of_ne target]
          exact all
      · rw [Function.update_of_ne same]
        exact all
    case down => exact scheduled.down
    case waits => exact fun midway => scheduled.waits (midway_of midway)
    case connected => exact fun midway => (scheduled.connected (midway_of midway)).keeps rfl id
    case through =>
      intro other midway field
      have before := midway_of midway
      have same : other = slot := by
        rw [here] at before
        exact sweeping_unique before (sweeping_of_closes closing)
      subst same
      show ahead other field following = true ∨ _
      rw [rest, Function.update_self]
      by_cases target : field = pipe
      · rw [target, Function.update_self]
        exact .inr rfl
      · rw [Function.update_of_ne target]
        refine (scheduled.through before field).imp_left fun ahead' => ?_
        rw [here] at ahead'
        simp [ahead', target]
  | @clear slot clearing =>
    subst clearing
    have changed : note state (.host answer) cleared = Function.update cleared slot true := by
      simp only [note, here, clears]
    have midway : sweeping slot state.host = true := by simp [here, sweeping]
    rw [unrecorded rfl, changed]
    constructor
    case swept =>
      intro other gone pipe
      by_cases same : other = slot
      · subst same
        refine (scheduled.through midway pipe).resolve_left ?_
        rw [here]
        exact nofun
      · rw [Function.update_of_ne same] at gone
        exact scheduled.swept gone pipe
    case down =>
      intro other gone
      simp only [State.withHost]
      by_cases same : other = slot
      · subst same
        rw [modify_sessions_self]
      · rw [modify_sessions_of_ne _ _ _ same]
        rw [Function.update_of_ne same] at gone
        exact scheduled.down gone
    case waits => exact nofun
    case connected => exact nofun
    case through => exact nofun
  | @away after following outside left quiet =>
    rw [unrecorded outside.1, unnoted outside.2]
    have nowhere {other : Fin slots} (midway : sweeping other following = true) : False := by
      rw [left] at midway
      cases midway
    constructor
    case swept => exact scheduled.swept
    case down => exact fun gone => quiet.lowered (scheduled.down gone)
    case waits => exact fun midway => (nowhere midway).elim
    case connected => exact fun midway => (nowhere midway).elim
    case through => exact fun midway => (nowhere midway).elim

/-- A step of a manager in one slot, which the sweep is not at. -/
theorem Scheduled.managed (scheduled : Scheduled state closed cleared) {thread : Fin managers} {slot : Fin slots}
    {shared : Shared slots} {pc : ManagerPc slots} {closed' : Closed slots} {cleared' : Cleared slots}
    (elsewhere : sweeping slot state.host = false)
    (before : ∀ {own opened}, place (state.managers thread) = some (own, opened) → own = slot)
    (fds : ∀ own, own ≠ slot → fdOf (shared.sessions own) = fdOf (state.shared.sessions own))
    (active : ∀ own, own ≠ slot → (state.shared.sessions own).active = false → (shared.sessions own).active = false)
    (recorded : ∀ own, own ≠ slot → closed' own = closed own) (noted : ∀ own, own ≠ slot → cleared' own = cleared own)
    (here : cleared' slot = true → (∀ pipe, closed' slot pipe = true) ∧ (shared.sessions slot).active = false) :
    Scheduled (state.withManager thread (shared, pc)) closed' cleared' := by
  have other {own : Fin slots} (midway : sweeping own state.host = true) : own ≠ slot := by
    intro same
    rw [same, elsewhere] at midway
    cases midway
  constructor
  case swept =>
    intro own gone
    by_cases same : own = slot
    · subst same
      exact (here gone).1
    · rw [recorded own same]
      exact scheduled.swept (noted own same ▸ gone)
  case down =>
    intro own gone
    by_cases same : own = slot
    · subst same
      exact (here gone).2
    · exact active own same (scheduled.down (noted own same ▸ gone))
  case waits =>
    intro own midway
    rw [noted own (other midway)]
    exact scheduled.waits midway
  case connected =>
    intro own midway
    apply (scheduled.connected midway).keeps (fds own (other midway))
    intro mover opened found
    have different : mover ≠ thread := fun same => other midway (before (same ▸ found))
    show place (Function.update state.managers thread pc mover) = _
    rw [Function.update_of_ne different]
    exact found
  case through =>
    intro own midway pipe
    rw [recorded own (other midway)]
    exact scheduled.through midway pipe

theorem Scheduled.quiet (scheduled : Scheduled state closed cleared) (quiet : Quiet state.shared next.shared)
    (places : ∀ thread, place (next.managers thread) = place (state.managers thread)) (host : next.host = state.host) :
    Scheduled next closed cleared where
  swept := scheduled.swept
  down := fun gone => quiet.lowered (scheduled.down gone)
  waits := fun midway => scheduled.waits (host ▸ midway)
  connected := fun midway =>
    (scheduled.connected (host ▸ midway)).keeps (quiet.fds _) fun found => (places _).trans found
  through := fun midway pipe => host ▸ scheduled.through (host ▸ midway) pipe

theorem manager_scheduled (invariant : Invariant held state closed) (scheduled : Scheduled state closed cleared)
    {answer : Answer} {thread : Fin managers} {result : Shared slots × ManagerPc slots}
    (one : OneAtATime state (.manager thread answer : Action managers jobs))
    (met : Swept (state, cleared) (.manager thread answer : Action managers jobs))
    (taken : managerStep answer state.shared (state.managers thread) = some result) :
    Scheduled (state.withManager thread result) (record state (.manager thread answer) closed)
      (note state (.manager thread answer) cleared) := by
  have move := managerStep_cases taken
  generalize here : state.managers thread = pc at move
  have unchanged (kept : begins pc = none) : record state (.manager thread answer) closed = closed ∧
      note state (.manager thread answer) cleared = cleared := by
    simp only [record, note, here, kept, and_self]
  have nobody : ∀ slot ∈ begins (state.managers thread), ∀ other, inSession slot (state.managers other) = false := one
  have swept : ∀ slot ∈ ends (state.managers thread),
      cleared slot = true ∨ ∀ pipe, (fdOf (state.shared.sessions slot) pipe).isNone = true := met
  rw [here] at nobody swept
  cases move with
  | @began request slot =>
    have filled : record state (.manager thread answer) closed = Function.update closed slot fun _ => false := by
      simp only [record, here, begins]
    have reset : note state (.manager thread answer) cleared = Function.update cleared slot false := by
      simp only [note, here, begins]
    rw [filled, reset]
    apply scheduled.managed
    · by_contra midway
      obtain ⟨other, opened, found, _⟩ := (scheduled.connected (Bool.eq_true_of_not_eq_false midway)).served
      have outside := nobody slot rfl other
      rw [inSession_of_place found] at outside
      cases outside
    · intro own opened found
      rw [here] at found
      cases found
    · intro own different
      rw [modify_sessions_of_ne _ _ _ different]
    · intro own different
      rw [modify_sessions_of_ne _ _ _ different]
      exact id
    · exact fun own different => Function.update_of_ne different ..
    · exact fun own different => Function.update_of_ne different ..
    · intro gone
      rw [Function.update_self] at gone
      cases gone
  | @opened request slot pipe file descriptors change ran assigned active =>
    have found : place (state.managers thread) = some (slot, past (openPc pipe)) := by rw [here, place_session]
    obtain ⟨same, same'⟩ := unchanged rfl
    rw [same, same']
    apply scheduled.managed
    · by_contra midway
      -- a slot that the sweep is at has no open ahead
      obtain ⟨other, opened, found', all⟩ := (scheduled.connected (Bool.eq_true_of_not_eq_false midway)).served
      have behind := all pipe
      rw [(invariant.alone found found').2, past_openPc] at behind
      cases behind
    · intro own opened found'
      rw [found] at found'
      cases found'
      rfl
    · intro own different
      rw [modify_sessions_of_ne _ _ _ different]
    · intro own different
      rw [modify_sessions_of_ne _ _ _ different]
      exact id
    · exact fun _ _ => rfl
    · exact fun _ _ => rfl
    · intro gone
      refine ⟨scheduled.swept gone, ?_⟩
      rw [modify_sessions_self, active]
      exact scheduled.down gone
  | @ended request slot pc shared leaving quiet =>
    have found : place (state.managers thread) = some (slot, past pc) := by rw [here, place_session]
    obtain ⟨same, same'⟩ := unchanged (by cases pc <;> rfl)
    rw [same, same']
    apply scheduled.managed
    · by_contra midway
      have midway := Bool.eq_true_of_not_eq_false midway
      rcases swept slot leaving with gone | none
      · rw [scheduled.waits midway] at gone
        cases gone
      · have opened := (scheduled.connected midway).2 .req
        have failed := none .req
        rw [Option.isNone_iff_eq_none] at failed
        rw [failed] at opened
        cases opened
    · intro own opened found'
      rw [found] at found'
      cases found'
      rfl
    · exact fun own _ => quiet.fds own
    · exact fun own _ => quiet.lowered
    · exact fun _ _ => rfl
    · exact fun _ _ => rfl
    · exact fun gone => ⟨scheduled.swept gone, quiet.lowered (scheduled.down gone)⟩
  | @quiet _ next shared silent kept quiet same =>
    obtain ⟨unrecorded, unnoted⟩ := unchanged kept
    rw [unrecorded, unnoted]
    refine scheduled.quiet quiet (fun other => ?_) rfl
    show place (Function.update state.managers thread next other) = _
    by_cases mover : other = thread
    · subst mover
      rw [Function.update_self, same, here]
    · rw [Function.update_of_ne mover]

theorem step_scheduled (invariant : Invariant held state closed) (scheduled : Scheduled state closed cleared)
    {action : Action managers jobs} (met : Orderly (state, cleared) action) (taken : step state action = some next) :
    Scheduled next (record state action closed) (note state action cleared) := by
  obtain ⟨one, swept⟩ := met
  obtain ⟨_, steps⟩ := steps_of_step taken
  cases steps with
  | host ran => exact host_scheduled scheduled swept ran
  | manager ran => exact manager_scheduled invariant scheduled one swept ran
  | job ran =>
    obtain ⟨terminated, same⟩ := jobStep_sessions ran
    refine scheduled.quiet ?_ (fun thread => rfl) rfl
    rw [State.withJob, same]
    exact ⟨rfl, fun _ => rfl, fun _ => id⟩
  | call | signal | openReader | closeReader =>
    exact scheduled.quiet ⟨rfl, fun _ => rfl, fun _ => id⟩ (fun thread => rfl) rfl

end Schedule

theorem scheduled_initial (slots managers jobs : Nat) (sigpipeDefault : Bool) :
    Scheduled (initial slots managers jobs sigpipeDefault) (fun _ _ => false) fun _ => false where
  swept := nofun
  down := nofun
  waits := fun _ => rfl
  connected := nofun
  through := nofun

theorem invariant_initial (slots managers jobs : Nat) (sigpipeDefault : Bool) :
    Invariant (fun _ => none) (initial slots managers jobs sigpipeDefault) fun _ _ => false where
  busy := fun found => by cases found
  idle := fun _ => rfl
  single := fun inside => by cases inside
  behind := fun found => by cases found
  due := fun _ => rfl
  settled := fun shut => by cases shut
  fits :=
    { listed := fun opened => by cases opened
      live := fun owned => by cases owned
      nodup := fun owned => by cases owned
      alone := fun owned => by cases owned }

/-- The number of open session descriptors is at most three for each session in progress,
and no entry of the ledger is refused. -/
def Balanced (trace : List (Entry (Fin slots) Nat)) (state : State slots managers jobs) : Prop :=
  ∃ held, accounts trace = some held ∧ ∀ fds : Finset Nat,
    (∀ fd ∈ fds, (state.shared.descriptors fd).isSome = true) → fds.card ≤ (inBusiness held).card * 3

theorem Invariant.length_le {held : Ledger (Fin slots) Nat} {state : State slots managers jobs} {closed : Closed slots}
    (invariant : Invariant held state closed) {slot : Fin slots} {fds : List Nat} (found : held slot = some fds) :
    fds.length ≤ 3 := by
  by_cases away : ∀ thread, inSession slot (state.managers thread) = false
  · rw [invariant.idle away] at found
    cases found
  · obtain ⟨thread, inside⟩ := not_forall.mp away
    obtain ⟨opened, served⟩ := place_of_inSession (Bool.eq_true_of_not_eq_false inside)
    rw [invariant.busy served] at found
    cases found
    exact owned_length_le

/-- If the sweep comes to a slot in use only when its session is connected, and a session
waits with its return for the sweep to clear its flag, then every descriptor is closed once,
by the session that owns it, before the session ends. -/
theorem descriptors_balanced {sigpipeDefault : Bool} {trace : List (Entry (Fin slots) Nat)}
    {last : State slots managers jobs × Cleared slots}
    (run : Run (machine slots managers jobs) Orderly
      (initial slots managers jobs sigpipeDefault, fun _ => false) trace last) : Balanced trace last.1 := by
  have invariant : ∃ held closed, accounts trace = some held ∧ Invariant held last.1 closed ∧
      Scheduled last.1 closed last.2 := by
    apply run.induct fun trace last => ∃ held closed, accounts trace = some held ∧ Invariant held last.1 closed ∧
      Scheduled last.1 closed last.2
    · exact ⟨_, _, rfl, invariant_initial slots managers jobs sigpipeDefault,
        scheduled_initial slots managers jobs sigpipeDefault⟩
    · rintro trace ⟨state, cleared⟩ action next ⟨held, closed, counted, invariant, scheduled⟩ met taken
      obtain ⟨after, stepped, same⟩ := Option.map_eq_some_iff.mp taken
      subst same
      obtain ⟨held', counted', invariant'⟩ := step_accounts invariant met.1 (scheduled.accountable met.2) stepped
      refine ⟨held', _, ?_, invariant', step_scheduled invariant scheduled met stepped⟩
      rw [accounts_append counted]
      exact counted'
  obtain ⟨held, closed, counted, invariant, _⟩ := invariant
  exact ⟨held, counted, invariant.fits.card_le fun slot fds found => invariant.length_le found⟩

/-! Sessions that the sweep ends, and one that its client ends. -/

/-- A client connects; on the signal the host sweeps its session, which then returns. -/
def sweptSession (thread : Fin managers) : List (Action managers jobs) :=
  firstSession thread ++ [.signal] ++ List.replicate 11 (.host {}) ++ advance thread 3

/-- Two sessions in one slot with the same descriptor numbers. -/
theorem balanced_of_swept_sessions : ∃ trace last,
    Run (machine MAX_SESSION_COUNT 1 0) Orderly (initial MAX_SESSION_COUNT 1 0 true, fun _ => false) trace last ∧
      trace.count (.ended 0) = 2 ∧ Balanced trace last.1 := by
  obtain ⟨trace, last, run, ended⟩ := exists_run (machine MAX_SESSION_COUNT 1 0) Orderly
    (initial MAX_SESSION_COUNT 1 0 true, fun _ => false) (fun trace _ => trace.count (.ended 0) = 2)
    (sweptSession 0 ++ [.host {}] ++ sweptSession 0) (by decide)
  exact ⟨trace, last, run, ended, descriptors_balanced run⟩

/-- A session that ends by DISCONNECT returns with its three descriptors open. -/
theorem descriptors_left_open :
    ¬∀ (slots managers jobs : Nat) (sigpipeDefault : Bool) (trace : List (Entry (Fin slots) Nat))
      (last : State slots managers jobs × Cleared slots),
      Run (machine slots managers jobs) (fun held action => OneAtATime held.1 action)
        (initial slots managers jobs sigpipeDefault, fun _ => false) trace last → Balanced trace last.1 := by
  intro balanced
  obtain ⟨trace, last, run, refused⟩ := exists_run (machine MAX_SESSION_COUNT 1 0)
    (fun held action => OneAtATime held.1 action) (initial MAX_SESSION_COUNT 1 0 true, fun _ => false)
    (fun trace _ => (accounts trace).isNone = true)
    (firstSession 0 ++ receive 0 [OP_CODE_DISCONNECT] ++ advance 0 7) (by decide)
  obtain ⟨held, counted, _⟩ := balanced MAX_SESSION_COUNT 1 0 true trace last run
  rw [counted] at refused
  cases refused

end IstKvs.DescriptorBalance
