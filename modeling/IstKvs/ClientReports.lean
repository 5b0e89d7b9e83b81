import IstKvs.UnsubscribeExact

/-! What `kvs_subscribe` and `kvs_unsubscribe` tell their caller. Both check the result byte
of the response for 0 and 1 and return 0 for either, whatever `api.h` promises. -/

namespace IstKvs.ClientReports
open Messages SessionLoop SubscriptionList SubscribeAnswer UnsubscribeExact
open SubscriptionSet (unsubscribe_ne_subscribe)

/-- How the two calls on the pipes end: -1 of `write`, -1 of `read`, or the bytes read. -/
inductive Exchange where
  | writeFailed
  | readFailed
  | response (data : List UInt8)

/-- The body that `kvs_subscribe` and `kvs_unsubscribe` share: the arrays hold what the
stack held, and `exchange` is what the pipes do with the message. -/
def callServer (opcode : UInt8) (message response : List UInt8) (exchange : List UInt8 → Exchange)
    (key : CString) : Int :=
  match exchange (keyMessage opcode message key) with
  | .writeFailed => 1
  | .readFailed => 1
  | .response data =>
      let result := (readInto response data).getD 1 0
      if result ≠ 0 ∧ result ≠ 1 then 1 else 0

def kvsSubscribe (message response : List UInt8) (exchange : List UInt8 → Exchange) (key : CString) : Int :=
  callServer OP_CODE_SUBSCRIBE message response exchange key

def kvsUnsubscribe (message response : List UInt8) (exchange : List UInt8 → Exchange) (key : CString) : Int :=
  callServer OP_CODE_UNSUBSCRIBE message response exchange key

/-- The calls return 0 for every response with a result of 0 or 1, and 1 otherwise. -/
theorem callServer_eq_zero_iff (opcode : UInt8) (message response : List UInt8)
    (exchange : List UInt8 → Exchange) (key : CString) :
    callServer opcode message response exchange key = 0 ↔
      ∃ data, exchange (keyMessage opcode message key) = .response data ∧
        ((readInto response data).getD 1 0 = 0 ∨ (readInto response data).getD 1 0 = 1) := by
  unfold callServer
  cases exchange (keyMessage opcode message key) with
  | writeFailed | readFailed => simp
  | response data =>
    simp only [Exchange.response.injEq, exists_eq_left']
    split_ifs with invalid
    · exact iff_of_false Int.one_ne_zero (not_or.mpr invalid)
    · exact iff_of_true rfl ((not_and_or.mp invalid).imp not_not.mp not_not.mp)

/-- One turn of `handle_session`: the slot it leaves and the bytes it responds. -/
def handleRequest (keyExists : CString → Bool) (localBuffer message : List UInt8) (session : SessionData) :
    SessionData × List UInt8 :=
  let received := readInto localBuffer message
  let served := serve (keyExists (requestKey received)) received session
  (served.session, [opCode received, served.result])

theorem takeTurn_handleRequest (keyExists : CString → Bool) (localBuffer message : List UInt8)
    (session : SessionData) :
    let received := readInto localBuffer message
    let served := handleRequest keyExists localBuffer message session
    ∃ effects result, served.2 = [opCode received, result] ∧
      takeTurn ⟨some message, keyExists (requestKey received), .ok⟩ session localBuffer =
        (testActive served.1 received, effects ++ [.response (opCode received) result]) :=
  ⟨_, _, rfl, rfl⟩

/-- What a call meets: the requests that the session has served, the keys of the store, and
what is in the arrays of both sides. -/
structure Call where
  session : SessionData
  requests : List Request
  keyExists : CString → Bool
  localBuffer : List UInt8
  message : Fin (1 + MAX_STRING_SIZE) → UInt8
  response : List UInt8

namespace Call

def before (call : Call) : SessionData := afterRequests call.session call.requests

def serves (call : Call) (message : List UInt8) : SessionData × List UInt8 :=
  handleRequest call.keyExists call.localBuffer message call.before

/-- The slot behind a request for the key. -/
def behind (call : Call) (opcode : UInt8) (key : CString) : SessionData :=
  (call.serves (keyMessage opcode (List.ofFn call.message) key)).1

/-- No call on a pipe fails. -/
def exchange (call : Call) (message : List UInt8) : Exchange := .response (call.serves message).2

def subscribe (call : Call) (key : CString) : Int :=
  kvsSubscribe (List.ofFn call.message) call.response call.exchange key

def unsubscribe (call : Call) (key : CString) : Int :=
  kvsUnsubscribe (List.ofFn call.message) call.response call.exchange key

/-- `handle_session` took a subscription for the key out of the list. -/
def Removes (call : Call) (key : CString) : Prop :=
  (subscriptions (call.behind OP_CODE_UNSUBSCRIBE key)).count key < (subscriptions call.before).count key

/-- `handle_session` put a subscription for the key into the list. -/
def Adds (call : Call) (key : CString) : Prop :=
  (subscriptions call.before).count key < (subscriptions (call.behind OP_CODE_SUBSCRIBE key)).count key

end Call

/-! The request that the session sees. -/

section Received
variable {key : CString} {localBuffer message : List UInt8}

theorem snprintf_short (key : CString) :
    (CString.snprintf MAX_STRING_SIZE key).bytes.length < MAX_STRING_SIZE := by
  have kept : (CString.snprintf MAX_STRING_SIZE key).bytes.length ≤ MAX_STRING_SIZE - 1 :=
    List.length_take_le (MAX_STRING_SIZE - 1) key.bytes
  have room : MAX_STRING_SIZE - 1 < MAX_STRING_SIZE := by decide
  exact Nat.lt_of_le_of_lt kept room

/-- Only a key that fits is sent as it is. -/
theorem snprintf_eq_iff : CString.snprintf MAX_STRING_SIZE key = key ↔ key.bytes.length < MAX_STRING_SIZE := by
  constructor
  · intro same
    rw [← same]
    exact snprintf_short key
  · exact CString.snprintf_of_fits

theorem keyMessage_snprintf (opcode : UInt8) (message : List UInt8) (key : CString) :
    keyMessage opcode message (CString.snprintf MAX_STRING_SIZE key) = keyMessage opcode message key := by
  unfold keyMessage snprintfAt
  rw [CString.snprintf_of_fits (snprintf_short key)]

theorem requestKey_keyMessage (opcode : UInt8) (sized : message.length = 1 + MAX_STRING_SIZE)
    (localBuffer : List UInt8) (key : CString) :
    requestKey (readInto localBuffer (keyMessage opcode message key)) =
      CString.snprintf MAX_STRING_SIZE key := by
  rw [← decodedKey_eq [], ← keyMessage_snprintf]
  exact key_decoded opcode sized (snprintf_short key) [] localBuffer

end Received

/-! What the session does with it. -/

section Served
variable {session : SessionData} {key : CString}

theorem serveSubscribe_binary (keyExists : Bool) (key : CString) (session : SessionData) :
    (serveSubscribe keyExists key session).result = 0 ∨ (serveSubscribe keyExists key session).result = 1 := by
  rw [serveSubscribe_result]
  cases keyExists with
  | false => exact .inl rfl
  | true => exact .inr rfl

theorem serveUnsubscribe_binary (key : CString) (session : SessionData) :
    (serveUnsubscribe key session).result = 0 ∨ (serveUnsubscribe key session).result = 1 := by
  rw [(serveUnsubscribe_spec key session).2]
  exact ite_eq_or_eq ..

/-- A count goes down by the removal of the key itself. -/
theorem count_erase_lt_iff {keys : List CString} {sent : CString} :
    (keys.erase sent).count key < keys.count key ↔ sent = key ∧ key ∈ keys := by
  rw [List.count_erase]
  by_cases same : sent = key
  · subst same
    have positive : 0 < keys.count sent ↔ sent ∈ keys := List.count_pos_iff
    rw [if_pos (beq_self_eq_true sent), ← positive]
    constructor
    · intro less
      exact ⟨rfl, by omega⟩
    · intro held
      have present := held.2
      omega
  · simp [same]

theorem count_concat_lt_iff {keys : List CString} {sent : CString} :
    keys.count key < (keys ++ [sent]).count key ↔ sent = key := by
  rw [List.count_append, List.count_singleton]
  by_cases same : sent = key
  · simp [same]
  · simp [same]

end Served

namespace Call
variable {call : Call} {key : CString}

theorem message_sized (call : Call) : (List.ofFn call.message).length = 1 + MAX_STRING_SIZE :=
  List.length_ofFn

theorem opCode_received (call : Call) (opcode : UInt8) (key : CString) (valid : opcode ≠ 0) :
    opCode (readInto call.localBuffer (keyMessage opcode (List.ofFn call.message) key)) = opcode :=
  opCode_readInto call.localBuffer opCode_keyMessage valid

theorem serves_subscribe (call : Call) (key : CString) :
    call.serves (keyMessage OP_CODE_SUBSCRIBE (List.ofFn call.message) key) =
      let sent := CString.snprintf MAX_STRING_SIZE key
      let served := serveSubscribe (call.keyExists sent) sent call.before
      (served.session, [OP_CODE_SUBSCRIBE, served.result]) := by
  have code := call.opCode_received OP_CODE_SUBSCRIBE key (by decide)
  simp only [serves, handleRequest, requestKey_keyMessage _ call.message_sized, serve, code, ↓reduceIte]

theorem serves_unsubscribe (call : Call) (key : CString) :
    call.serves (keyMessage OP_CODE_UNSUBSCRIBE (List.ofFn call.message) key) =
      let served := serveUnsubscribe (CString.snprintf MAX_STRING_SIZE key) call.before
      (served.session, [OP_CODE_UNSUBSCRIBE, served.result]) := by
  have code := call.opCode_received OP_CODE_UNSUBSCRIBE key (by decide)
  simp only [serves, handleRequest, requestKey_keyMessage _ call.message_sized, serve, code,
    unsubscribe_ne_subscribe, ↓reduceIte]

/-- A result byte of 0 or 1 is reported as 0. -/
theorem callServer_binary {opcode result : UInt8} {message : List UInt8} (binary : result = 0 ∨ result = 1)
    (answered : (call.serves (keyMessage opcode message key)).2 = [opcode, result]) :
    callServer opcode message call.response call.exchange key = 0 := by
  rw [callServer_eq_zero_iff, exchange, answered]
  exact ⟨[opcode, result], rfl, binary⟩

theorem subscribe_eq (call : Call) (key : CString) : call.subscribe key = 0 := by
  have served := call.serves_subscribe key
  exact callServer_binary (serveSubscribe_binary ..) (congrArg Prod.snd served)

theorem unsubscribe_eq (call : Call) (key : CString) : call.unsubscribe key = 0 := by
  have served := call.serves_unsubscribe key
  exact callServer_binary (serveUnsubscribe_binary ..) (congrArg Prod.snd served)

/-- A key too long to be sent whole is in no list. -/
theorem removes_iff (call : Call) (key : CString) : call.Removes key ↔ key ∈ subscriptions call.before := by
  unfold Removes behind
  rw [serves_unsubscribe]
  simp only
  rw [(serveUnsubscribe_spec ..).1, count_erase_lt_iff, snprintf_eq_iff]
  have within : WithinArray call.before := afterRequests_within call.session call.requests
  exact ⟨And.right, fun member => ⟨within.short key member, member⟩⟩

/-- The key goes through whole and the list has room for it. -/
def Fits (call : Call) (key : CString) : Prop :=
  key.bytes.length < MAX_STRING_SIZE ∧ (subscriptions call.before).length < MAX_NUMBER_SUB

theorem subscriptions_behind (call : Call) (key : CString) :
    subscriptions (call.behind OP_CODE_SUBSCRIBE key) =
      if call.keyExists (CString.snprintf MAX_STRING_SIZE key) = true ∧
          (subscriptions call.before).length < MAX_NUMBER_SUB then
        subscriptions call.before ++ [CString.snprintf MAX_STRING_SIZE key]
      else subscriptions call.before := by
  have within : WithinArray call.before := afterRequests_within call.session call.requests
  rw [behind, serves_subscribe]
  exact subscriptions_serveSubscribe _ _ within.low

theorem adds_iff (call : Call) (key : CString) : call.Adds key ↔ call.keyExists key = true ∧ call.Fits key := by
  rw [Adds, subscriptions_behind, Fits]
  split_ifs with stored
  · rw [count_concat_lt_iff, snprintf_eq_iff]
    constructor
    · intro fits
      rw [CString.snprintf_of_fits fits] at stored
      exact ⟨stored.1, fits, stored.2⟩
    · intro held
      exact held.2.1
  · refine iff_of_false (Nat.lt_irrefl _) fun held => stored ?_
    rw [CString.snprintf_of_fits held.2.1]
    exact ⟨held.1, held.2.2⟩

theorem listed_iff (call : Call) (key : CString) :
    call.keyExists key = true ∧ key ∈ subscriptions (call.behind OP_CODE_SUBSCRIBE key) ↔
      call.keyExists key = true ∧ (key ∈ subscriptions call.before ∨ call.Fits key) := by
  refine and_congr_right fun found => ?_
  rw [subscriptions_behind, Fits]
  split_ifs with stored
  · rw [List.mem_append, List.mem_singleton, @eq_comm _ key, snprintf_eq_iff]
    exact or_congr_right ⟨fun fits => ⟨fits, stored.2⟩, And.left⟩
  · refine ⟨Or.inl, fun held => held.resolve_right fun fits => stored ?_⟩
    rw [CString.snprintf_of_fits fits.1]
    exact ⟨found, fits.2⟩

/-- `kvs_unsubscribe` returns 0 for a removed subscription and for nothing else. -/
def ReportsRemoval (call : Call) (key : CString) : Prop := call.unsubscribe key = 0 ↔ call.Removes key

/-- `kvs_subscribe` returns 1 for a key that exists and was subscribed. -/
def ReportsSubscription (call : Call) (key : CString) : Prop :=
  call.subscribe key = 1 ↔ call.keyExists key = true ∧ call.Adds key

/-- The same, where a key that the list already held counts as subscribed. -/
def ReportsListing (call : Call) (key : CString) : Prop :=
  call.subscribe key = 1 ↔
    call.keyExists key = true ∧ key ∈ subscriptions (call.behind OP_CODE_SUBSCRIBE key)

/-- After any requests and for any key, `kvs_unsubscribe` reports the outcome exactly when
the session is subscribed to the key, and `kvs_subscribe` exactly when there is no
subscription to report. -/
theorem client_reports_iff (call : Call) (key : CString) :
    (call.ReportsRemoval key ↔ key ∈ subscriptions call.before) ∧
    (call.ReportsSubscription key ↔ ¬(call.keyExists key = true ∧ call.Fits key)) ∧
    (call.ReportsListing key ↔
      ¬(call.keyExists key = true ∧ (key ∈ subscriptions call.before ∨ call.Fits key))) := by
  have subscribed : call.subscribe key ≠ 1 := by
    rw [subscribe_eq]
    decide
  refine ⟨?_, ?_, ?_⟩
  · rw [ReportsRemoval, unsubscribe_eq, removes_iff]
    exact iff_true_left rfl
  · rw [ReportsSubscription, adds_iff, iff_false_left subscribed]
    exact not_congr ⟨And.right, fun held => ⟨held.1, held⟩⟩
  · rw [ReportsListing, listed_iff, iff_false_left subscribed]

end Call

/-! A session without subscriptions, and a store that has every key. -/

def firstCall : Call where
  session := SessionData.zero
  requests := []
  keyExists := fun _ => true
  localBuffer := List.replicate (1 + MAX_STRING_SIZE) 0
  message := fun _ => 0
  response := [0, 0]

/-- The server answers 1 to the UNSUBSCRIBE and stores the key of the SUBSCRIBE. The
client returns 0 from both calls. -/
theorem outcome_not_reported :
    ¬firstCall.ReportsRemoval (CString.ofBytes [107]) ∧
      ¬firstCall.ReportsSubscription (CString.ofBytes [107]) ∧
      ¬firstCall.ReportsListing (CString.ofBytes [107]) := by
  unfold Call.ReportsRemoval Call.ReportsSubscription Call.ReportsListing Call.Removes Call.Adds
  decide

end IstKvs.ClientReports
