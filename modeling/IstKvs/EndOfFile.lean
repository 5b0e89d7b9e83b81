import IstKvs.SessionLoop

/-! What a session does when its client has closed the request pipe. The `read`
returns 0, the buffer keeps the last request, and the loop serves it again. -/

namespace IstKvs.EndOfFile
open Server SessionLoop

/-- The session ends with no action and no response after `served`, inactive and
without a subscription. -/
def CleanEnd (served : List Effect) (outcome : Progress × List Effect) : Prop :=
  outcome.2 = served ∧ ∃ session, outcome.1 = .returned session ∧ session.active = false ∧
    ∀ key, ¬session.Subscribed key

theorem sessionLoop_append (before later : List Turn) (progress : Progress) :
    sessionLoop (before ++ later) progress =
      ((sessionLoop later (sessionLoop before progress).1).1,
        (sessionLoop before progress).2 ++ (sessionLoop later (sessionLoop before progress).1).2) := by
  induction before generalizing progress with
  | nil => simp [sessionLoop]
  | cons turn before ih =>
    cases progress with
    | reading session localBuffer =>
      simp only [List.cons_append, sessionLoop]
      rw [ih]
      simp only [List.append_assoc]
    | returned session =>
      have past (turns) : sessionLoop turns (.returned session) = (.returned session, []) :=
        sessionLoop_over (by simp) turns
      simp only [past, List.append_nil]
    | killed session =>
      have past (turns) : sessionLoop turns (.killed session) = (.killed session, []) :=
        sessionLoop_over (by simp) turns
      simp only [past, List.append_nil]

variable {reqFd respFd notifFd : Option Nat} {connected : Written} {stack : List UInt8}
  {before later : List Turn} {session current : SessionData} {localBuffer : List UInt8}
  {served : List Effect}

theorem handleSession_append
    (history : handleSession reqFd respFd notifFd connected stack before session =
      (.reading current localBuffer, served)) :
    handleSession reqFd respFd notifFd connected stack (before ++ later) session =
      ((sessionLoop later (.reading current localBuffer)).1,
        served ++ (sessionLoop later (.reading current localBuffer)).2) := by
  unfold handleSession at history ⊢
  split at history
  · cases history
  next opened =>
    simp only [if_neg opened]
    cases connected with
    | failed | killed => cases history
    | ok =>
      obtain ⟨progress, effects⟩ := Prod.mk.inj history
      simp only [sessionLoop_append, progress, ← effects, List.cons_append]

theorem subscribed_of_positive (positive : 0 < current.numSubscribedKeys) :
    current.Subscribed (current.subscribedKeys 0) :=
  ⟨0, Int.le_refl 0, positive, rfl⟩

/-- The cases of the switch that do nothing: none of the three requests. -/
theorem serve_quiet_iff (keyExists : Bool) :
    (serve keyExists localBuffer current).effects = [] ↔
      opCode localBuffer ≠ OP_CODE_SUBSCRIBE ∧ opCode localBuffer ≠ OP_CODE_UNSUBSCRIBE ∧
        opCode localBuffer ≠ OP_CODE_DISCONNECT := by
  unfold serve
  split_ifs with subscribes unsubscribes disconnects
  · simp [serveSubscribe_effects, subscribes]
  · simp [serveUnsubscribe_effects, unsubscribes]
  · simp [disconnects]
  · simp [subscribes, unsubscribes, disconnects]

theorem serve_quiet_session (keyExists : Bool)
    (quiet : (serve keyExists localBuffer current).effects = []) :
    (serve keyExists localBuffer current).session = current := by
  obtain ⟨subscribes, unsubscribes, disconnects⟩ := (serve_quiet_iff keyExists).mp quiet
  simp only [serve, if_neg subscribes, if_neg unsubscribes, if_neg disconnects]

/-- After an end of file the session ends cleanly exactly when the buffer holds
none of the three requests, the response cannot be written, and no subscription
is left. -/
theorem clean_end_iff {eof : Turn}
    (history : handleSession reqFd respFd notifFd connected stack before session =
      (.reading current localBuffer, served))
    (closed : eof.read = some []) :
    CleanEnd served
        (handleSession reqFd respFd notifFd connected stack (before ++ eof :: later) session) ↔
      (opCode localBuffer ≠ OP_CODE_SUBSCRIBE ∧ opCode localBuffer ≠ OP_CODE_UNSUBSCRIBE ∧
        opCode localBuffer ≠ OP_CODE_DISCONNECT) ∧
      eof.written = .failed ∧ current.numSubscribedKeys ≤ 0 := by
  rw [handleSession_append history, ← serve_quiet_iff eof.keyExists]
  have kept : readInto localBuffer [] = localBuffer := rfl
  simp only [CleanEnd, List.append_right_eq_self, sessionLoop, takeTurn, closed, kept]
  cases written : eof.written with
  | ok =>
    simp
  | killed =>
    simp only [reduceCtorEq, false_and, and_false, iff_false]
    rw [sessionLoop_over (by simp)]
    simp
  | failed =>
    rw [sessionLoop_over (by simp)]
    simp only [List.append_nil, true_and, Progress.returned.injEq]
    constructor
    · rintro ⟨quiet, after, same, _, unsubscribed⟩
      refine ⟨quiet, ?_⟩
      rw [serve_quiet_session _ quiet] at same
      subst same
      by_contra positive
      exact unsubscribed _ (subscribed_of_positive (by simpa using positive))
    · rintro ⟨quiet, empty⟩
      refine ⟨quiet, _, rfl, rfl, ?_⟩
      rw [serve_quiet_session _ quiet]
      rintro key ⟨j, low, high, _⟩
      have high : j < current.numSubscribedKeys := high
      omega

/-- A slot as `manager_task` hands it over. -/
def freshSession : SessionData := { SessionData.zero with active := true }

/-- A request with an unknown opcode is the last one before the client goes away. -/
theorem clean_end_after_unknown :
    CleanEnd [.response OP_CODE_CONNECT 0, .response 9 1]
      (handleSession (some 3) (some 4) (some 5) .ok []
        ([⟨some [9], false, .ok⟩] ++ ⟨some [], false, .failed⟩ :: []) freshSession) :=
  (clean_end_iff rfl rfl).mpr ⟨by decide, rfl, Int.le_refl 0⟩

/-- The client subscribes to a key and closes its pipes: the end of file is served
as a second SUBSCRIBE, and both subscriptions stay in the slot. -/
theorem subscribed_again_at_eof :
    (∃ current, handleSession (some 3) (some 4) (some 5) .ok []
        [⟨some [OP_CODE_SUBSCRIBE, 107], true, .ok⟩] freshSession =
      (.reading current [OP_CODE_SUBSCRIBE, 107], [.response OP_CODE_CONNECT 0,
        .subscribe (requestKey [OP_CODE_SUBSCRIBE, 107]), .response OP_CODE_SUBSCRIBE 1])) ∧
    ¬CleanEnd [.response OP_CODE_CONNECT 0, .subscribe (requestKey [OP_CODE_SUBSCRIBE, 107]),
        .response OP_CODE_SUBSCRIBE 1]
      (handleSession (some 3) (some 4) (some 5) .ok []
        ([⟨some [OP_CODE_SUBSCRIBE, 107], true, .ok⟩] ++ ⟨some [], true, .failed⟩ :: []) freshSession) := by
  refine ⟨⟨_, rfl⟩, ?_⟩
  rintro ⟨same, _⟩
  exact absurd same (by decide)

end IstKvs.EndOfFile
