import IstKvs.SubscriptionList

/-! Whether the subscriptions of a session behave as a set. The list keeps a key once for
each SUBSCRIBE of it, so the notifications count the subscriptions. -/

namespace IstKvs.SubscriptionSet
open NotifyClients SessionLoop SubscriptionList

/-- A SUBSCRIBE or an UNSUBSCRIBE as the read leaves it in the buffer, and whether the
store has its key when it is served. -/
structure Request where
  localBuffer : List UInt8
  keyExists : Bool
  known : opCode localBuffer = OP_CODE_SUBSCRIBE ∨ opCode localBuffer = OP_CODE_UNSUBSCRIBE

def Request.Subscribes (key : CString) (request : Request) : Prop :=
  opCode request.localBuffer = OP_CODE_SUBSCRIBE ∧ requestKey request.localBuffer = key

def Request.Unsubscribes (key : CString) (request : Request) : Prop :=
  opCode request.localBuffer = OP_CODE_UNSUBSCRIBE ∧ requestKey request.localBuffer = key

/-- A SUBSCRIBE for a key that the store has. -/
def Request.Grants (key : CString) (request : Request) : Prop :=
  request.Subscribes key ∧ request.keyExists = true

/-- The slot as `handle_session` leaves it before its loop. -/
def connected (session : SessionData) (notifFd : Nat) : SessionData :=
  { session with notifFd := some notifFd, active := true, numSubscribedKeys := 0 }

/-- The slot after the requests, and each request with its answer. -/
def serveAll : SessionData → List Request → SessionData × List (Request × UInt8)
  | session, [] => (session, [])
  | session, request :: requests =>
      let served := serve request.keyExists request.localBuffer session
      let last := serveAll served.session requests
      (last.1, (request, served.result) :: last.2)

/-- Some step of the history opens, and no later one closes. -/
def Since {α : Type} (opens closes : α → Prop) (history : List α) : Prop :=
  ∃ before step after, history = before ++ step :: after ∧ opens step ∧ ∀ later ∈ after, ¬closes later

/-- Some SUBSCRIBE of the key answered 1 since the last UNSUBSCRIBE of it. -/
def Promised (key : CString) (history : List (Request × UInt8)) : Prop :=
  Since (fun step => step.1.Subscribes key ∧ step.2 = 1) (fun step => step.1.Unsubscribes key) history

/-- Between any two requests, a write of a key notifies the session once if it is
promised, and not at all if it is not. -/
def NotifiesOnce (session : SessionData) (notifFd : Nat) (requests : List Request) : Prop :=
  ∀ before after, requests = before ++ after →
    ∀ (slots : Nat) (sessions : Fin slots → SessionData) (slot : Fin slots),
      sessions slot = (serveAll (connected session notifFd) before).1 → ∀ key value,
        (Promised key (serveAll (connected session notifFd) before).2 →
          sentTo slot (notifyClients sessions key value) = 1) ∧
        (¬Promised key (serveAll (connected session notifFd) before).2 →
          sentTo slot (notifyClients sessions key value) = 0)

/-- No SUBSCRIBE finds its key in the store while an earlier one of the same key that did
is not yet undone by an UNSUBSCRIBE. -/
def NoRepeat (requests : List Request) : Prop :=
  ∀ before request after key, requests = before ++ request :: after → request.Grants key →
    ¬Since (Request.Grants key) (Request.Unsubscribes key) before

def subscribeCount (requests : List Request) : Nat :=
  requests.countP fun request => opCode request.localBuffer = OP_CODE_SUBSCRIBE

/-! Histories. -/

theorem since_concat {α : Type} {opens closes : α → Prop} (history : List α) (step : α) :
    Since opens closes (history ++ [step]) ↔ opens step ∨ Since opens closes history ∧ ¬closes step := by
  constructor
  · rintro ⟨before, opener, after, split, opened, kept⟩
    rcases List.eq_nil_or_concat after with ended | ⟨middle, last, ended⟩
    · subst ended
      obtain ⟨_, same⟩ := List.append_inj' split rfl
      cases same
      exact .inl opened
    · subst ended
      rw [List.concat_eq_append, ← List.cons_append, ← List.append_assoc] at split
      obtain ⟨earlier, same⟩ := List.append_inj' split rfl
      cases same
      refine .inr ⟨⟨before, opener, middle, earlier, opened, fun later member => kept later ?_⟩, kept step ?_⟩ <;>
        simp [List.concat_eq_append, *]
  · rintro (opened | ⟨⟨before, opener, after, split, opened, kept⟩, open'⟩)
    · exact ⟨history, step, [], rfl, opened, by simp⟩
    · subst split
      refine ⟨before, opener, after ++ [step], by simp, opened, ?_⟩
      intro later member
      rcases List.mem_append.mp member with inside | last
      · exact kept later inside
      · exact List.mem_singleton.mp last ▸ open'

theorem not_since_nil {α : Type} {opens closes : α → Prop} : ¬Since opens closes [] := by
  rintro ⟨before, step, after, split, _⟩
  exact absurd split.symm (by simp)

/-! The list that the requests leave. -/

def applyRequest (keys : List CString) (request : Request) : List CString :=
  if opCode request.localBuffer = OP_CODE_SUBSCRIBE then
    if request.keyExists then keys ++ [requestKey request.localBuffer] else keys
  else keys.erase (requestKey request.localBuffer)

section Served
variable {session : SessionData} {requests : List Request} {request : Request}

theorem unsubscribe_ne_subscribe : OP_CODE_UNSUBSCRIBE ≠ OP_CODE_SUBSCRIBE := by decide

theorem serve_subscribe (code : opCode request.localBuffer = OP_CODE_SUBSCRIBE) (session : SessionData) :
    serve request.keyExists request.localBuffer session =
      serveSubscribe request.keyExists (requestKey request.localBuffer) session := by
  rw [serve, if_pos code]

theorem serve_unsubscribe (code : opCode request.localBuffer = OP_CODE_UNSUBSCRIBE) (session : SessionData) :
    serve request.keyExists request.localBuffer session =
      serveUnsubscribe (requestKey request.localBuffer) session := by
  rw [serve, if_neg (fun same => unsubscribe_ne_subscribe (code.symm.trans same)), if_pos code]

theorem Request.stays (request : Request) : opCode request.localBuffer ≠ OP_CODE_DISCONNECT := by
  rcases request.known with code | code
  · rw [code]
    decide
  · rw [code]
    decide

/-- A request that is served leaves the session active with the same pipe. -/
theorem serve_keeps (request : Request) (session : SessionData) :
    (serve request.keyExists request.localBuffer session).session.active = session.active ∧
      (serve request.keyExists request.localBuffer session).session.notifFd = session.notifFd :=
  serve_running request.stays request.keyExists session

theorem serveAll_concat (session : SessionData) (requests : List Request) (request : Request) :
    serveAll session (requests ++ [request]) =
      let served := serve request.keyExists request.localBuffer (serveAll session requests).1
      (served.session, (serveAll session requests).2 ++ [(request, served.result)]) := by
  induction requests generalizing session with
  | nil => rfl
  | cons first requests ih => simp only [List.cons_append, serveAll, ih]

theorem serveAll_keeps (session : SessionData) (requests : List Request) :
    (serveAll session requests).1.active = session.active ∧
      (serveAll session requests).1.notifFd = session.notifFd := by
  induction requests generalizing session with
  | nil => exact ⟨rfl, rfl⟩
  | cons request requests ih =>
    obtain ⟨active, opened⟩ := serve_keeps request session
    obtain ⟨active', opened'⟩ := ih (serve request.keyExists request.localBuffer session).session
    exact ⟨active'.trans active, opened'.trans opened⟩

/-- What the outside answers when the request arrives whole. -/
def turnOf (request : Request) : Turn := ⟨some request.localBuffer, request.keyExists, .ok⟩

/-- The loop of `handle_session` serves the requests one after the other. -/
theorem sessionLoop_serveAll {localBuffer : List UInt8} (active : session.active = true)
    (whole : ∀ request ∈ requests, request.localBuffer.length = localBuffer.length) :
    ∃ lastBuffer, (sessionLoop (requests.map turnOf) (.reading session localBuffer)).1 =
      .reading (serveAll session requests).1 lastBuffer := by
  induction requests generalizing session localBuffer with
  | nil => exact ⟨localBuffer, rfl⟩
  | cons request requests ih =>
    obtain ⟨here, later⟩ := List.forall_mem_cons.mp whole
    have stays := (serve_keeps request session).1.trans active
    obtain ⟨lastBuffer, rest⟩ := ih stays fun other member => (later other member).trans here.symm
    refine ⟨lastBuffer, ?_⟩
    rw [List.map_cons, turnOf, sessionLoop_request active here request.stays, rest]
    rfl

/-- A session with room for the SUBSCRIBE requests to come keeps the list of their effects. -/
theorem subscriptions_serveAll (low : 0 ≤ session.numSubscribedKeys)
    (room : session.numSubscribedKeys + subscribeCount requests ≤ MAX_NUMBER_SUB) :
    subscriptions (serveAll session requests).1 = requests.foldl applyRequest (subscriptions session) := by
  induction requests generalizing session with
  | nil => rfl
  | cons request requests ih =>
    rw [serveAll, List.foldl_cons]
    rcases request.known with code | code
    · have more : subscribeCount (request :: requests) = subscribeCount requests + 1 := by
        simp [subscribeCount, code]
      rw [more] at room
      rw [serve_subscribe code, applyRequest, if_pos code]
      cases found : request.keyExists with
      | false =>
        have fits : session.numSubscribedKeys + subscribeCount requests ≤ MAX_NUMBER_SUB := by omega
        exact ih low fits
      | true =>
        have free : session.numSubscribedKeys < MAX_NUMBER_SUB := by omega
        have count : (serveSubscribe true (requestKey request.localBuffer) session).session.numSubscribedKeys =
            session.numSubscribedKeys + 1 := by
          simp only [serveSubscribe, ↓reduceIte, if_pos free, setKey_count]
        simp only [↓reduceIte]
        rw [← serveSubscribe_stored low free]
        exact ih (by omega) (by omega)
    · have same : subscribeCount (request :: requests) = subscribeCount requests := by
        simp [subscribeCount, code, unsubscribe_ne_subscribe]
      have fewer : (serveUnsubscribe (requestKey request.localBuffer) session).session.numSubscribedKeys ≤
          session.numSubscribedKeys := by
        unfold serveUnsubscribe
        split
        · simp only [shiftKeys_count]
          omega
        · exact Int.le_refl _
      rw [same] at room
      rw [serve_unsubscribe code, applyRequest,
        if_neg (fun subscribes => unsubscribe_ne_subscribe (code.symm.trans subscribes)),
        ← (serveUnsubscribe_spec _ session).1]
      exact ih (serveUnsubscribe_low low) (by omega)

/-- A SUBSCRIBE is answered 1 when the store has the key. -/
theorem promised_iff (session : SessionData) (requests : List Request) (key : CString) :
    Promised key (serveAll session requests).2 ↔
      Since (Request.Grants key) (Request.Unsubscribes key) requests := by
  induction requests using List.reverseRecOn with
  | nil => exact iff_of_false not_since_nil not_since_nil
  | append_singleton requests request ih =>
    unfold Promised at ih ⊢
    rw [serveAll_concat, since_concat, since_concat, ih]
    apply or_congr
    · refine and_congr_right fun subscribes => ?_
      rw [serve_subscribe subscribes.1, serveSubscribe_result]
      cases request.keyExists <;> simp
    · exact Iff.rfl

end Served

/-! Counting. -/

section Count
variable {requests : List Request} {key : CString}

theorem noRepeat_of_concat {request : Request} (once : NoRepeat (requests ++ [request])) : NoRepeat requests :=
  fun before earlier after key split => once before earlier (after ++ [request]) key (by rw [split]; simp)

theorem count_grants {request : Request} (grants : request.Grants key) (keys : List CString) :
    (applyRequest keys request).count key = keys.count key + 1 := by
  obtain ⟨⟨code, same⟩, found⟩ := grants
  rw [applyRequest, if_pos code, if_pos found, same, List.count_append, List.count_singleton_self]

theorem count_unsubscribes {request : Request} (undoes : request.Unsubscribes key) (keys : List CString) :
    (applyRequest keys request).count key = keys.count key - 1 := by
  obtain ⟨code, same⟩ := undoes
  rw [applyRequest, if_neg (fun subscribes => unsubscribe_ne_subscribe (code.symm.trans subscribes)), same,
    List.count_erase_self]

theorem count_other {request : Request} (grants : ¬request.Grants key) (undoes : ¬request.Unsubscribes key)
    (keys : List CString) : (applyRequest keys request).count key = keys.count key := by
  rw [applyRequest]
  split_ifs with code found
  · have other : requestKey request.localBuffer ≠ key := fun same => grants ⟨⟨code, same⟩, found⟩
    rw [List.count_append, List.count_singleton, if_neg (by simpa using other), Nat.add_zero]
  · rfl
  · have code' := request.known.resolve_left code
    exact List.count_erase_of_ne (fun same => undoes ⟨code', same.symm⟩)

/-- Without a repeated SUBSCRIBE the list holds a key once if it is subscribed. -/
theorem count_of_noRepeat (once : NoRepeat requests) (key : CString) :
    (Since (Request.Grants key) (Request.Unsubscribes key) requests →
      (requests.foldl applyRequest []).count key = 1) ∧
    (¬Since (Request.Grants key) (Request.Unsubscribes key) requests →
      (requests.foldl applyRequest []).count key = 0) := by
  induction requests using List.reverseRecOn with
  | nil => exact ⟨fun since => absurd since not_since_nil, fun _ => rfl⟩
  | append_singleton requests request ih =>
    obtain ⟨subscribed, unsubscribed⟩ := ih (noRepeat_of_concat once)
    rw [List.foldl_append, List.foldl_cons, List.foldl_nil, since_concat]
    by_cases grants : request.Grants key
    · have absent := unsubscribed (once requests request [] key rfl grants)
      rw [count_grants grants, absent]
      exact ⟨fun _ => rfl, fun none => absurd (.inl grants) none⟩
    · by_cases undoes : request.Unsubscribes key
      · rw [count_unsubscribes undoes]
        refine ⟨fun since => ?_, fun _ => ?_⟩
        · exact absurd undoes (since.resolve_left grants).2
        · by_cases before : Since (Request.Grants key) (Request.Unsubscribes key) requests
          · rw [subscribed before]
          · rw [unsubscribed before]
      · rw [count_other grants undoes]
        exact ⟨fun since => subscribed (since.resolve_left grants).1,
          fun none => unsubscribed fun since => none (.inr ⟨since, undoes⟩)⟩

end Count

/-! The notifications. -/

section Notifications
variable {session : SessionData} {notifFd : Nat} {requests before after : List Request}

theorem subscribeCount_append (first second : List Request) :
    subscribeCount (first ++ second) = subscribeCount first + subscribeCount second := by
  unfold subscribeCount
  exact List.countP_append

theorem sentTo_served (few : subscribeCount before ≤ MAX_NUMBER_SUB) {slots : Nat}
    {sessions : Fin slots → SessionData} {slot : Fin slots}
    (held : sessions slot = (serveAll (connected session notifFd) before).1) (key value : CString) :
    sentTo slot (notifyClients sessions key value) = (before.foldl applyRequest []).count key := by
  obtain ⟨active, opened⟩ := serveAll_keeps (connected session notifFd) before
  rw [sentTo_session (by rw [held, active]; rfl) (by rw [held, opened]; rfl), held,
    subscriptions_serveAll (Int.le_refl 0) (by simp only [connected]; omega)]
  rfl

/-- With at most `MAX_NUMBER_SUB` SUBSCRIBE requests the subscriptions of a session are a
set exactly when it does not subscribe to a key that it is subscribed to. -/
theorem notifies_once_iff (session : SessionData) (notifFd : Nat) (requests : List Request)
    (few : subscribeCount requests ≤ MAX_NUMBER_SUB) :
    NotifiesOnce session notifFd requests ↔ NoRepeat requests := by
  constructor
  · intro once before request after key split grants since
    have count := subscribeCount_append before (request :: after)
    rw [← split] at count
    have count' := subscribeCount_append (before ++ [request]) after
    rw [List.append_assoc, List.singleton_append, ← split] at count'
    have first := (once before (request :: after) split 1 (fun _ => _) 0 rfl key key).1
      ((promised_iff _ before key).mpr since)
    have second := (once (before ++ [request]) after (by rw [split]; simp) 1 (fun _ => _) 0 rfl key key).1
      ((promised_iff _ _ key).mpr ((since_concat before request).mpr (.inl grants)))
    rw [sentTo_served (by omega) rfl] at first
    rw [sentTo_served (by omega) rfl, List.foldl_append, List.foldl_cons, List.foldl_nil, count_grants grants,
      first] at second
    exact absurd second (by decide)
  · intro once before after split slots sessions slot held key value
    have count := subscribeCount_append before after
    rw [← split] at count
    have once' : NoRepeat before := fun earlier request later key split' =>
      once earlier request (later ++ after) key (by rw [split, split']; simp)
    rw [sentTo_served (by omega) held, promised_iff]
    exact count_of_noRepeat once' key

end Notifications

/-! One key. -/

def message (code byte : UInt8) : List UInt8 := code :: byte :: List.replicate (MAX_STRING_SIZE - 1) 0

def subscribeTo (byte : UInt8) : Request := ⟨message OP_CODE_SUBSCRIBE byte, true, .inl rfl⟩

def unsubscribeFrom (byte : UInt8) : Request := ⟨message OP_CODE_UNSUBSCRIBE byte, true, .inr rfl⟩

theorem notifies_once_of_resubscription :
    NotifiesOnce SessionData.zero 0 [subscribeTo 107, unsubscribeFrom 107, subscribeTo 107] ↔
      NoRepeat [subscribeTo 107, unsubscribeFrom 107, subscribeTo 107] :=
  notifies_once_iff _ _ _ (by decide)

/-- A session that subscribes twice gets two notifications for one write. -/
theorem notified_twice_after_two_subscriptions :
    subscribeCount [subscribeTo 107, subscribeTo 107] ≤ MAX_NUMBER_SUB ∧
      ¬NotifiesOnce SessionData.zero 0 [subscribeTo 107, subscribeTo 107] := by
  refine ⟨by decide, fun once => ?_⟩
  have promised : Promised (CString.ofBytes [107])
      (serveAll (connected SessionData.zero 0) [subscribeTo 107, subscribeTo 107]).2 :=
    ⟨[(subscribeTo 107, 1)], (subscribeTo 107, 1), [], rfl, ⟨⟨rfl, by decide⟩, rfl⟩, by simp⟩
  have sent := (once [subscribeTo 107, subscribeTo 107] [] rfl 1 (fun _ => _) 0 rfl
    (CString.ofBytes [107]) (CString.ofBytes [49])).1 promised
  exact absurd sent (by decide)

end IstKvs.SubscriptionSet
