import IstKvs.SubscriptionSet

/-! What the answer 1 to a SUBSCRIBE is worth. The result byte is set before the switch,
so a full list answers 1 as well and stores nothing. -/

namespace IstKvs.SubscribeAnswer
open NotifyClients SessionLoop SubscriptionList SubscriptionSet

/-- The session as the requests leave it. -/
def after (session : SessionData) (notifFd : Nat) (requests : List Request) : SessionData :=
  (serveAll (connected session notifFd) requests).1

/-- Answered 1, the key is in the list and a write of it is notified; otherwise the list
is as it was. -/
def Honoured (session : SessionData) (request : Request) : Prop :=
  let served := serve request.keyExists request.localBuffer session
  let key := requestKey request.localBuffer
  (served.result = 1 → key ∈ subscriptions served.session ∧
    ∀ (slots : Nat) (sessions : Fin slots → SessionData) (slot : Fin slots),
      sessions slot = served.session → ∀ value, 0 < sentTo slot (notifyClients sessions key value)) ∧
  (served.result ≠ 1 → subscriptions served.session = subscriptions session)

section Count
variable {session : SessionData}

theorem entries_length (session : SessionData) (i : Int) (turns : Nat) :
    (entries session i turns).length = turns := by
  induction turns generalizing i with
  | zero => rfl
  | succ turns ih => rw [entries, List.length_cons, ih]

theorem subscriptions_length (session : SessionData) :
    (subscriptions session).length = session.numSubscribedKeys.toNat := entries_length ..

theorem serve_low (request : Request) (low : 0 ≤ session.numSubscribedKeys) :
    0 ≤ (serve request.keyExists request.localBuffer session).session.numSubscribedKeys := by
  rcases request.known with code | code
  · rw [serve_subscribe code]
    exact serveSubscribe_low _ _ low
  · rw [serve_unsubscribe code]
    exact serveUnsubscribe_low low

theorem serveAll_low (requests : List Request) (low : 0 ≤ session.numSubscribedKeys) :
    0 ≤ (serveAll session requests).1.numSubscribedKeys := by
  induction requests generalizing session with
  | nil => exact low
  | cons request requests ih => exact ih (serve_low request low)

/-- SUBSCRIBE of a key that exists appends it to a list that is not full. -/
theorem subscriptions_serveSubscribe (keyExists : Bool) (key : CString) (low : 0 ≤ session.numSubscribedKeys) :
    subscriptions (serveSubscribe keyExists key session).session =
      if keyExists = true ∧ (subscriptions session).length < MAX_NUMBER_SUB then subscriptions session ++ [key]
      else subscriptions session := by
  rw [subscriptions_length]
  cases keyExists with
  | false => rfl
  | true =>
    by_cases room : session.numSubscribedKeys < MAX_NUMBER_SUB
    · rw [serveSubscribe_stored low room, if_pos ⟨rfl, by omega⟩]
    · rw [if_neg (by omega)]
      simp only [serveSubscribe, ↓reduceIte, if_neg room]

end Count

section Answer
variable {session : SessionData} {request : Request} {fd : Nat}

/-- A session in its loop notifies the keys that its list holds. -/
theorem notified_of_mem {key : CString} (active : session.active = true) (opened : session.notifFd = some fd)
    (member : key ∈ subscriptions session) {slots : Nat} {sessions : Fin slots → SessionData}
    {slot : Fin slots} (held : sessions slot = session) (value : CString) :
    0 < sentTo slot (notifyClients sessions key value) := by
  subst held
  rw [sentTo_session active opened]
  exact List.count_pos_iff.mpr member

theorem honoured_iff (code : opCode request.localBuffer = OP_CODE_SUBSCRIBE)
    (active : session.active = true) (opened : session.notifFd = some fd)
    (low : 0 ≤ session.numSubscribedKeys) :
    Honoured session request ↔ request.keyExists = false ∨
      (subscriptions session).length < MAX_NUMBER_SUB ∨ requestKey request.localBuffer ∈ subscriptions session := by
  have kept := serve_keeps request session
  unfold Honoured
  simp only [serve_subscribe code] at kept ⊢
  rw [serveSubscribe_result, subscriptions_length]
  cases found : request.keyExists with
  | false => simp [serveSubscribe]
  | true =>
    rw [found] at kept
    by_cases room : session.numSubscribedKeys < MAX_NUMBER_SUB
    · have few : session.numSubscribedKeys.toNat < MAX_NUMBER_SUB := by omega
      have stored : requestKey request.localBuffer ∈
          subscriptions (serveSubscribe true (requestKey request.localBuffer) session).session := by
        rw [serveSubscribe_stored low room]
        simp
      have notified := @notified_of_mem _ _ _ (kept.1.trans active) (kept.2.trans opened) stored
      simpa [few, stored] using fun slots => @notified slots
    · have full : ¬session.numSubscribedKeys.toNat < MAX_NUMBER_SUB := by omega
      have unchanged : (serveSubscribe true (requestKey request.localBuffer) session).session = session := by
        simp only [serveSubscribe, ↓reduceIte, if_neg room]
      rw [unchanged]
      constructor
      · intro honoured
        exact .inr (.inr (honoured.1 rfl).1)
      · rintro (absent | few | member)
        · cases absent
        · exact absurd few full
        · exact ⟨fun _ => ⟨member, fun _ _ _ => notified_of_mem active opened member⟩,
            fun other => absurd rfl other⟩

/-- After any requests, the answer to a SUBSCRIBE is honoured exactly when the store lacks
the key, the list is not full, or the list already holds the key. -/
theorem answer_honoured_iff (session : SessionData) (notifFd : Nat) (requests : List Request)
    (code : opCode request.localBuffer = OP_CODE_SUBSCRIBE) :
    Honoured (after session notifFd requests) request ↔ request.keyExists = false ∨
      (subscriptions (after session notifFd requests)).length < MAX_NUMBER_SUB ∨
      requestKey request.localBuffer ∈ subscriptions (after session notifFd requests) := by
  obtain ⟨active, opened⟩ := serveAll_keeps (connected session notifFd) requests
  exact honoured_iff code active opened (serveAll_low requests (Int.le_refl 0))

end Answer

/-! A full list. -/

theorem answer_honoured_of_first_subscription :
    Honoured (after SessionData.zero 0 []) (subscribeTo 107) ↔ true = false ∨
      (subscriptions (after SessionData.zero 0 [])).length < MAX_NUMBER_SUB ∨
      CString.ofBytes [107] ∈ subscriptions (after SessionData.zero 0 []) :=
  answer_honoured_iff SessionData.zero 0 [] rfl

def tenSubscriptions : List Request :=
  (List.range MAX_NUMBER_SUB).map fun i => subscribeTo (UInt8.ofNat (97 + i))

/-- The eleventh key is answered 1 and is not in the list. -/
theorem eleventh_key_not_stored : opCode (subscribeTo 107).localBuffer = OP_CODE_SUBSCRIBE ∧
    ¬Honoured (after SessionData.zero 0 tenSubscriptions) (subscribeTo 107) := by
  refine ⟨rfl, fun honoured => ?_⟩
  have member := (honoured.1 (by decide)).1
  exact absurd member (by decide)

end IstKvs.SubscribeAnswer
