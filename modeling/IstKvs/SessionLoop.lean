import IstKvs.ServerFrames

/-! `handle_session` as one client sees it: what a whole request does to the
slot, and the loop over the requests of one session. A manager that runs alone
computes it. The loop looks at the result of `read` for -1 only, so an end of file
is served as the request that is still in the buffer. -/

namespace IstKvs.SessionLoop
open LabelledRuns Server

/-- What a session does for its client: the cases of the switch it runs, with the
key, and the responses it sends. -/
inductive Effect where
  | subscribe (key : CString)
  | unsubscribe (key : CString)
  | disconnect
  | response (opCode result : UInt8)
  deriving DecidableEq

structure Served where
  session : SessionData
  result : UInt8
  effects : List Effect

/-- `for (i = 0; i < num_subscribed_keys; i++) if (strcmp(..) == 0)`, with the
number of turns left. -/
def findKey (session : SessionData) (key : CString) (i : Int) : Nat → Option Int
  | 0 => none
  | turns + 1 =>
      if session.subscribedKeys i = key then some i else findKey session key (i + 1) turns

/-- `for (j = i; j < num_subscribed_keys - 1; j++)`, with the number of turns left. -/
def shiftKeys (session : SessionData) (j : Int) : Nat → SessionData
  | 0 => session
  | turns + 1 => shiftKeys (session.setKey j (session.subscribedKeys (j + 1))) (j + 1) turns

def serveSubscribe (keyExists : Bool) (key : CString) (session : SessionData) : Served :=
  if keyExists then
    if session.numSubscribedKeys < MAX_NUMBER_SUB then
      let stored := session.setKey session.numSubscribedKeys key
      ⟨{ stored with numSubscribedKeys := stored.numSubscribedKeys + 1 }, 1, [.subscribe key]⟩
    else ⟨session, 1, [.subscribe key]⟩
  else ⟨session, 0, [.subscribe key]⟩

def serveUnsubscribe (key : CString) (session : SessionData) : Served :=
  match findKey session key 0 session.numSubscribedKeys.toNat with
  | some i =>
      let shifted := shiftKeys session i (session.numSubscribedKeys - 1 - i).toNat
      ⟨{ shifted with numSubscribedKeys := shifted.numSubscribedKeys - 1 }, 0, [.unsubscribe key]⟩
  | none => ⟨session, 1, [.unsubscribe key]⟩

/-- The switch on the opcode. -/
def serve (keyExists : Bool) (localBuffer : List UInt8) (session : SessionData) : Served :=
  if opCode localBuffer = OP_CODE_SUBSCRIBE then
    serveSubscribe keyExists (requestKey localBuffer) session
  else if opCode localBuffer = OP_CODE_UNSUBSCRIBE then
    serveUnsubscribe (requestKey localBuffer) session
  else if opCode localBuffer = OP_CODE_DISCONNECT then
    ⟨{ session with active := false, numSubscribedKeys := 0 }, 0, [.disconnect]⟩
  else ⟨session, 1, []⟩

/-- What the outside answers during one turn of the loop. -/
structure Turn where
  read : Option (List UInt8)
  keyExists : Bool
  written : Written

/-- Where `handle_session` stands: before a `read`, or at its end. -/
inductive Progress where
  | reading (session : SessionData) (localBuffer : List UInt8)
  | returned (session : SessionData)
  | killed (session : SessionData)

/-- `while (session->active)`, and the lines after the loop. -/
def testActive (session : SessionData) (localBuffer : List UInt8) : Progress :=
  if session.active then .reading session localBuffer else .returned { session with active := false }

def takeTurn (turn : Turn) (session : SessionData) (localBuffer : List UInt8) :
    Progress × List Effect :=
  match turn.read with
  | none => (.returned { session with active := false }, [])
  | some data =>
      let localBuffer := readInto localBuffer data
      let served := serve turn.keyExists localBuffer session
      match turn.written with
      | .ok =>
          (testActive served.session localBuffer,
            served.effects ++ [.response (opCode localBuffer) served.result])
      | .failed => (.returned { served.session with active := false }, served.effects)
      | .killed => (.killed served.session, served.effects)

def sessionLoop : List Turn → Progress → Progress × List Effect
  | turn :: turns, .reading session localBuffer =>
      let taken := takeTurn turn session localBuffer
      let rest := sessionLoop turns taken.1
      (rest.1, taken.2 ++ rest.2)
  | _, progress => (progress, [])

/-- `handle_session` on a slot that `manager_task` has filled in: the results of
the three opens, of the connect response, and the bytes on the stack. -/
def handleSession (reqFd respFd notifFd : Option Nat) (connected : Written)
    (localBuffer : List UInt8) (turns : List Turn) (session : SessionData) :
    Progress × List Effect :=
  let opened := { session with reqFd := reqFd, respFd := respFd, notifFd := notifFd }
  if reqFd = none ∨ respFd = none ∨ notifFd = none then
    (.returned { opened with active := false }, [])
  else match connected with
  | .failed => (.returned { opened with active := false }, [])
  | .killed => (.killed opened, [])
  | .ok =>
      let rest := sessionLoop turns (testActive { opened with numSubscribedKeys := 0 } localBuffer)
      (rest.1, .response OP_CODE_CONNECT 0 :: rest.2)

theorem serveSubscribe_effects (keyExists : Bool) (key : CString) (session : SessionData) :
    (serveSubscribe keyExists key session).effects = [.subscribe key] := by
  unfold serveSubscribe
  split_ifs <;> rfl

theorem serveUnsubscribe_effects (key : CString) (session : SessionData) :
    (serveUnsubscribe key session).effects = [.unsubscribe key] := by
  unfold serveUnsubscribe
  split <;> rfl

/-! The manager that runs alone. -/

variable {slots : Nat}

def managerAlone (slots : Nat) : Machine (Shared slots × ManagerPc slots) Answer (Event slots) where
  step := fun state answer => managerStep answer state.1 state.2
  observe := fun state _ => managerEvents state.1 state.2

def Reaches (start last : Shared slots × ManagerPc slots) : Prop :=
  ∃ trace, Run (managerAlone slots) Always start trace last

theorem reaches_refl (state : Shared slots × ManagerPc slots) : Reaches state state :=
  ⟨[], .refl⟩

theorem Reaches.trans {start middle last : Shared slots × ManagerPc slots}
    (first : Reaches start middle) (rest : Reaches middle last) : Reaches start last := by
  obtain ⟨trace, run⟩ := first
  obtain ⟨later, run'⟩ := rest
  exact ⟨trace ++ later, run.append run'⟩

theorem reaches_step {start next : Shared slots × ManagerPc slots} (answer : Answer)
    (ran : managerStep answer start.1 start.2 = some next) : Reaches start next :=
  ⟨_, .tail .refl trivial ran⟩

/-- The slot holds `session`, all else as in `shared`. -/
def put (shared : Shared slots) (slot : Fin slots) (session : SessionData) : Shared slots :=
  { shared with sessions := Function.update shared.sessions slot session }

@[simp] theorem put_self (shared : Shared slots) (slot : Fin slots) (session : SessionData) :
    (put shared slot session).sessions slot = session :=
  Function.update_self ..

@[simp] theorem put_put (shared : Shared slots) (slot : Fin slots) (session later : SessionData) :
    put (put shared slot session) slot later = put shared slot later := by
  unfold put
  simp only [Function.update_idem]

theorem put_same {shared : Shared slots} {slot : Fin slots} {session : SessionData}
    (same : shared.sessions slot = session) : put shared slot session = shared := by
  unfold put
  rw [← same, Function.update_eq_self]

theorem modify_eq_put (shared : Shared slots) (slot : Fin slots) (change : SessionData → SessionData) :
    shared.modify slot change = put shared slot (change (shared.sessions slot)) := rfl

theorem put_write (shared : Shared slots) (slot : Fin slots) (session : SessionData) (fd : Option Nat)
    (answer : Answer) : (put shared slot session).write fd answer = shared.write fd answer := rfl

section Simulation
variable {request : ConnectionRequest} {slot : Fin slots} {localBuffer : List UInt8}

theorem find_reaches (shared : Shared slots) (session : SessionData) (turns : Nat) (i : Int)
    (same : shared.sessions slot = session) (left : turns = (session.numSubscribedKeys - i).toNat) :
    Reaches (shared, .session request slot (.unsubscribeFind localBuffer i))
      (shared, .session request slot
        (match findKey session (requestKey localBuffer) i turns with
          | some j => .unsubscribeShift localBuffer j
          | none => .respond localBuffer 1)) := by
  induction turns generalizing i with
  | zero =>
    apply reaches_step {}
    simp only [managerStep, sessionStep, same, findKey]
    rw [if_neg (by omega)]
  | succ turns ih =>
    have bound : i < session.numSubscribedKeys := by omega
    by_cases found : session.subscribedKeys i = requestKey localBuffer
    · apply reaches_step {}
      simp only [managerStep, sessionStep, same, findKey, if_pos bound, if_pos found]
    · simp only [findKey, if_neg found]
      refine (reaches_step {} ?_).trans (ih (i + 1) (by omega))
      simp only [managerStep, sessionStep, same, if_pos bound, if_neg found]

theorem setKey_count (session : SessionData) (j : Int) (key : CString) :
    (session.setKey j key).numSubscribedKeys = session.numSubscribedKeys := rfl

theorem shift_reaches (shared : Shared slots) (session : SessionData) (turns : Nat) (j : Int)
    (same : shared.sessions slot = session)
    (left : turns = (session.numSubscribedKeys - 1 - j).toNat) :
    Reaches (shared, .session request slot (.unsubscribeShift localBuffer j))
      (put shared slot (shiftKeys session j turns), .session request slot (.unsubscribeCount localBuffer)) := by
  induction turns generalizing j session shared with
  | zero =>
    apply reaches_step {}
    simp only [managerStep, sessionStep, same, shiftKeys, put_same same]
    rw [if_neg (by omega)]
  | succ turns ih =>
    have bound : j < session.numSubscribedKeys - 1 := by omega
    have first : managerStep {} shared (.session request slot (.unsubscribeShift localBuffer j)) =
        some (put shared slot (session.setKey j (session.subscribedKeys (j + 1))),
          .session request slot (.unsubscribeShift localBuffer (j + 1))) := by
      simp only [managerStep, sessionStep, same, if_pos bound, modify_eq_put]
    have rest := ih (put shared slot (session.setKey j (session.subscribedKeys (j + 1))))
      (session.setKey j (session.subscribedKeys (j + 1))) (j + 1) (put_self ..)
      (by rw [setKey_count]; omega)
    rw [put_put] at rest
    exact (reaches_step {} first).trans rest

theorem subscribe_reaches (shared : Shared slots) (session : SessionData)
    (same : shared.sessions slot = session) :
    Reaches (shared, .session request slot (.subscribeStore localBuffer))
      (put shared slot { session.setKey session.numSubscribedKeys (requestKey localBuffer) with
          numSubscribedKeys := session.numSubscribedKeys + 1 },
        .session request slot (.respond localBuffer 1)) := by
  have stored : managerStep {} shared (.session request slot (.subscribeStore localBuffer)) =
      some (put shared slot (session.setKey session.numSubscribedKeys (requestKey localBuffer)),
        .session request slot (.subscribeCount localBuffer)) := by
    simp only [managerStep, sessionStep, modify_eq_put, same]
  refine (reaches_step {} stored).trans (reaches_step {} ?_)
  simp only [managerStep, sessionStep, modify_eq_put, put_self, put_put, setKey_count]

theorem disconnect_reaches (shared : Shared slots) (session : SessionData) (bytesRead : Nat)
    (same : shared.sessions slot = session) :
    Reaches (shared, .session request slot (.disconnectActive localBuffer bytesRead))
      (put shared slot { session with active := false, numSubscribedKeys := 0 },
        .session request slot (.respond localBuffer 0)) := by
  have cleared : managerStep {} shared (.session request slot (.disconnectActive localBuffer bytesRead)) =
      some (put shared slot { session with active := false },
        .session request slot (.disconnectKeys localBuffer)) := by
    simp only [managerStep, sessionStep, modify_eq_put, same]
  refine (reaches_step {} cleared).trans (reaches_step {} ?_)
  simp only [managerStep, sessionStep, modify_eq_put, put_self, put_put]

theorem unsubscribe_reaches (shared : Shared slots) (session : SessionData)
    (same : shared.sessions slot = session) :
    Reaches (shared, .session request slot (.unsubscribeFind localBuffer 0))
      (put shared slot (serveUnsubscribe (requestKey localBuffer) session).session,
        .session request slot
          (.respond localBuffer (serveUnsubscribe (requestKey localBuffer) session).result)) := by
  have searched : Reaches (shared, .session request slot (.unsubscribeFind localBuffer 0)) _ :=
    find_reaches shared session session.numSubscribedKeys.toNat 0 same (by rw [Int.sub_zero])
  refine searched.trans ?_
  unfold serveUnsubscribe
  cases findKey session (requestKey localBuffer) 0 session.numSubscribedKeys.toNat with
  | none =>
    rw [put_same same]
    exact reaches_refl _
  | some i =>
    refine (shift_reaches shared session _ i same rfl).trans (reaches_step {} ?_)
    simp only [managerStep, sessionStep, modify_eq_put, put_self, put_put]

/-- From the switch to the response, a manager alone does what `serve` says. -/
theorem serve_reaches (shared : Shared slots) (session : SessionData) (keyExists : Bool)
    (bytesRead : Nat) (same : shared.sessions slot = session) :
    Reaches (shared, .session request slot (.dispatch localBuffer bytesRead))
      (put shared slot (serve keyExists localBuffer session).session,
        .session request slot (.respond localBuffer (serve keyExists localBuffer session).result)) := by
  have entered : Reaches (shared, .session request slot (.dispatch localBuffer bytesRead))
      (shared, .session request slot (dispatchStep { keyExists } session localBuffer bytesRead)) := by
    apply reaches_step { keyExists }
    simp only [managerStep, sessionStep, same]
  refine entered.trans ?_
  unfold serve dispatchStep
  by_cases subscribes : opCode localBuffer = OP_CODE_SUBSCRIBE
  · simp only [if_pos subscribes, serveSubscribe]
    cases keyExists with
    | false => exact (put_same same).symm ▸ reaches_refl _
    | true =>
      by_cases room : session.numSubscribedKeys < MAX_NUMBER_SUB
      · simp only [if_pos room, ↓reduceIte]
        exact subscribe_reaches shared session same
      · simp only [if_neg room, ↓reduceIte, put_same same]
        exact reaches_refl _
  · by_cases unsubscribes : opCode localBuffer = OP_CODE_UNSUBSCRIBE
    · simp only [if_neg subscribes, if_pos unsubscribes]
      exact unsubscribe_reaches shared session same
    · by_cases disconnects : opCode localBuffer = OP_CODE_DISCONNECT
      · simp only [if_neg subscribes, if_neg unsubscribes, if_pos disconnects]
        exact disconnect_reaches shared session bytesRead same
      · simp only [if_neg subscribes, if_neg unsubscribes, if_neg disconnects, put_same same]
        exact reaches_refl _

theorem serve_respFd (keyExists : Bool) (localBuffer : List UInt8) (session : SessionData) :
    (serve keyExists localBuffer session).session.respFd = session.respFd := by
  have shifted : ∀ turns (session : SessionData) j, (shiftKeys session j turns).respFd = session.respFd := by
    intro turns
    induction turns with
    | zero => exact fun _ _ => rfl
    | succ turns ih => exact fun session j => ih _ _
  unfold serve serveSubscribe serveUnsubscribe
  split_ifs
  case pos => rfl
  all_goals first | rfl | (split <;> first | rfl | exact shifted ..)

/-- How the fine steps show where the loop stands. -/
def Shows (shared : Shared slots) (request : ConnectionRequest) (slot : Fin slots) :
    Progress → Shared slots × ManagerPc slots → Prop
  | .reading session localBuffer, last =>
      last = (put shared slot session, .session request slot (.read localBuffer))
  | .returned session, last =>
      last = ({ put shared slot session with semEmpty := shared.semEmpty + 1 }, .waitFull)
  | .killed session, last => last.1 = { put shared slot session with terminated := true }

theorem tail_reaches (shared : Shared slots) (session : SessionData) (broken : Bool)
    (unlocked : shared.bufferMutex = false) (same : shared.sessions slot = session) :
    Reaches (shared, .session request slot (.tail broken))
      ({ put shared slot { session with active := false } with semEmpty := shared.semEmpty + 1 },
        .waitFull) := by
  have cleared : managerStep {} shared (.session request slot (.tail broken)) =
      some (put shared slot { session with active := false }, .session request slot .tailPost) := by
    simp only [managerStep, sessionStep, unlocked, Bool.false_eq_true, ↓reduceIte, modify_eq_put, same]
  exact (reaches_step {} cleared).trans (reaches_step {} rfl)

theorem testActive_reaches (shared : Shared slots) (session : SessionData)
    (unlocked : shared.bufferMutex = false) (same : shared.sessions slot = session) :
    ∃ last, Reaches (shared, .session request slot (.loop localBuffer)) last ∧
      Shows shared request slot (testActive session localBuffer) last := by
  unfold testActive
  by_cases active : session.active = true
  · have entered : managerStep {} shared (.session request slot (.loop localBuffer)) =
        some (shared, .session request slot (.read localBuffer)) := by
      simp only [managerStep, sessionStep, same, active, ↓reduceIte]
    refine ⟨_, reaches_step {} entered, ?_⟩
    simp only [active, ↓reduceIte, Shows, put_same same]
  · have left : managerStep {} shared (.session request slot (.loop localBuffer)) =
        some (shared, .session request slot (.tail false)) := by
      simp only [managerStep, sessionStep, same, active, Bool.false_eq_true, ↓reduceIte]
    refine ⟨_, (reaches_step {} left).trans (tail_reaches shared session false unlocked same), ?_⟩
    simp only [active, Bool.false_eq_true, ↓reduceIte, Shows]

theorem shows_put {shared : Shared slots} {session : SessionData} {progress : Progress}
    {last : Shared slots × ManagerPc slots}
    (shows : Shows (put shared slot session) request slot progress last) :
    Shows shared request slot progress last := by
  cases progress <;> simp only [Shows, put] at shows ⊢ <;> simpa using shows

/-- One turn of the loop, by a manager that runs alone. -/
theorem takeTurn_reaches (shared : Shared slots) (session : SessionData) (turn : Turn) (answer : Answer)
    (alive : shared.terminated = false) (unlocked : shared.bufferMutex = false)
    (same : shared.sessions slot = session) (written : shared.write session.respFd answer = turn.written) :
    ∃ last, Reaches (shared, .session request slot (.read localBuffer)) last ∧
      Shows shared request slot (takeTurn turn session localBuffer).1 last := by
  unfold takeTurn
  cases read : turn.read with
  | none =>
    have failed : managerStep { bytes := none } shared (.session request slot (.read localBuffer)) =
        some (shared, .session request slot (.tail true)) := rfl
    exact ⟨_, (reaches_step _ failed).trans (tail_reaches shared session true unlocked same), rfl⟩
  | some data =>
    have received : Reaches (shared, .session request slot (.read localBuffer))
        (shared, .session request slot (.dispatch (readInto localBuffer data) data.length)) :=
      reaches_step { bytes := some data } rfl
    simp only
    generalize readInto localBuffer data = buffer at received ⊢
    have served := received.trans (serve_reaches shared session turn.keyExists data.length same)
    have respFd := serve_respFd turn.keyExists buffer session
    generalize serve turn.keyExists buffer session = outcome at served respFd ⊢
    have responded : managerStep answer (put shared slot outcome.session)
        (.session request slot (.respond buffer outcome.result)) =
        some ({ put shared slot outcome.session with terminated := decide (turn.written = .killed) },
          .session request slot (if turn.written = .ok then .loop buffer else .tail true)) := by
      simp only [managerStep, sessionStep, put_self, Shared.afterWrite, respFd, put_write, written]
    cases outcome' : turn.written with
    | ok =>
      have back : Reaches (shared, .session request slot (.read localBuffer))
          (put shared slot outcome.session, .session request slot (.loop buffer)) := by
        refine served.trans (reaches_step answer ?_)
        simpa [outcome', put, alive] using responded
      obtain ⟨last, tested, shows⟩ := testActive_reaches (put shared slot outcome.session)
        outcome.session unlocked (put_self ..)
      exact ⟨last, back.trans tested, shows_put shows⟩
    | failed =>
      have left : Reaches (shared, .session request slot (.read localBuffer))
          (put shared slot outcome.session, .session request slot (.tail true)) := by
        refine served.trans (reaches_step answer ?_)
        simpa [outcome', put, alive] using responded
      have ended : Reaches (put shared slot outcome.session, .session request slot (.tail true)) _ :=
        tail_reaches _ outcome.session true unlocked (put_self ..)
      rw [put_put] at ended
      exact ⟨_, left.trans ended, rfl⟩
    | killed =>
      refine ⟨_, served.trans (reaches_step answer responded), ?_⟩
      simp [Shows, outcome']

/-- A turn after which the loop goes on has served the request it read. -/
theorem takeTurn_goesOn {turn : Turn} {session after : SessionData} {buffer : List UInt8}
    (reading : (takeTurn turn session localBuffer).1 = .reading after buffer) :
    ∃ data, buffer = readInto localBuffer data ∧ after = (serve turn.keyExists buffer session).session := by
  unfold takeTurn testActive at reading
  split at reading
  · cases reading
  next data _ =>
    simp only at reading
    split at reading
    · split at reading
      · cases reading
        exact ⟨data, rfl, rfl⟩
      · cases reading
    · cases reading
    · cases reading

theorem takeTurn_respFd {turn : Turn} {session after : SessionData} {buffer : List UInt8}
    (reading : (takeTurn turn session localBuffer).1 = .reading after buffer) :
    after.respFd = session.respFd := by
  obtain ⟨data, _, served⟩ := takeTurn_goesOn reading
  rw [served]
  exact serve_respFd ..

theorem sessionLoop_over {progress : Progress} (past : ∀ session localBuffer, progress ≠ .reading session localBuffer)
    (turns : List Turn) : sessionLoop turns progress = (progress, []) := by
  cases progress with
  | reading session localBuffer => exact absurd rfl (past session localBuffer)
  | returned | killed => cases turns <;> rfl

/-- All turns of a session, by a manager that runs alone: its fine steps compute the loop. -/
theorem sessionLoop_reaches (request : ConnectionRequest) (turns : List Turn) (shared : Shared slots)
    (session : SessionData) (localBuffer : List UInt8) (alive : shared.terminated = false)
    (unlocked : shared.bufferMutex = false) (same : shared.sessions slot = session)
    (written : ∀ turn ∈ turns, ∃ answer, shared.write session.respFd answer = turn.written) :
    ∃ last, Reaches (shared, .session request slot (.read localBuffer)) last ∧
      Shows shared request slot (sessionLoop turns (.reading session localBuffer)).1 last := by
  induction turns generalizing shared session localBuffer with
  | nil => exact ⟨_, reaches_refl _, by simp [sessionLoop, Shows, put_same same]⟩
  | cons turn turns ih =>
    obtain ⟨answer, first⟩ := written turn List.mem_cons_self
    obtain ⟨middle, taken, shows⟩ :
        ∃ middle, Reaches (shared, .session request slot (.read localBuffer)) middle ∧
          Shows shared request slot (takeTurn turn session localBuffer).1 middle :=
      takeTurn_reaches shared session turn answer alive unlocked same first
    simp only [sessionLoop]
    cases progress : (takeTurn turn session localBuffer).1 with
    | reading after buffer =>
      rw [progress] at shows
      have respFd := takeTurn_respFd progress
      obtain ⟨last, rest, shows'⟩ := ih (put shared slot after) after buffer alive unlocked (put_self ..)
        (fun later member => by rw [respFd]; exact written later (List.mem_cons_of_mem _ member))
      exact ⟨last, (shows ▸ taken).trans rest, shows_put shows'⟩
    | returned after | killed after =>
      rw [progress] at shows
      rw [sessionLoop_over (by simp)]
      exact ⟨middle, taken, shows⟩

end Simulation

end IstKvs.SessionLoop
