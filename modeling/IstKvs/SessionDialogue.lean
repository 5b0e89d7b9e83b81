import IstKvs.ClientParser
import IstKvs.ClientReports
import IstKvs.ScriptRoundTrip
import IstKvs.Library.Dialogue

/-! A client and its session over their three pipes. `main` and `api.c` of the client run on
one side and `handle_session` on the other, one call on a pipe at a time. Neither looks at
how many bytes it read, and none goes wrong: in every interleaving each read returns one
whole message, and the answers are those of a list of keys. -/

namespace IstKvs.SessionDialogue
open Operations JobParser Dialogue LabelledRuns Fields Messages SessionLoop SubscriptionList
open ScriptRoundTrip (decimal)
open ClientReports (requestKey_keyMessage)

/-- The pipes that a client makes before it registers. -/
inductive SessionPipe where
  | req
  | resp
  | notif
  deriving DecidableEq

def writer : SessionPipe → Side
  | .req => .left
  | .resp | .notif => .right

/-! The client: the main thread, on the turns that its input is read as. -/

/-- A command that is sent to the server. -/
inductive Ask where
  | subscribe (key : CString)
  | unsubscribe (key : CString)
  | disconnect
  deriving DecidableEq

/-- What the main thread has written. -/
structure Console where
  stdout : List UInt8
  stderr : List UInt8
  deriving DecidableEq

def Console.printf (console : Console) (line : List UInt8) : Console := { console with stdout := console.stdout ++ line }

def Console.fprintf (console : Console) (line : String) : Console := { console with stderr := console.stderr ++ text line }

/-- `%d` of a `char`. -/
def charDigits (ch : UInt8) : List UInt8 :=
  if ch < 128 then decimal ch.toNat else minus :: decimal (256 - ch.toNat)

/-- `"Server returned %d for operation: ..\n"`. -/
def returnedLine (result : UInt8) (operation : String) : List UInt8 :=
  text "Server returned " ++ charDigits result ++ text " for operation: " ++ text operation ++ [newline]

/-- Where the main thread is: in `kvs_connect`, in one of the calls of `api.c` before its
`write` or its `read`, at `get_next` with nothing to read, or gone. -/
inductive ClientPc where
  | openReq
  | openResp
  | openNotif
  | connectRead
  | write (ask : Ask)
  | read (ask : Ask)
  | waitInput
  | exited (code : Int)
  deriving DecidableEq

structure Client where
  pc : ClientPc
  input : List ClientParser.Turn
  asked : Nat
  console : Console
  deriving DecidableEq

/-- The loop of `main` up to the next call of `api.c`. -/
def getCommand (asked : Nat) : List ClientParser.Turn → Console → Client
  | [], console => ⟨.waitInput, [], asked, console⟩
  | .disconnect :: input, console => ⟨.write .disconnect, input, asked, console⟩
  | .subscribe key :: input, console => ⟨.write (.subscribe key), input, asked, console⟩
  | .unsubscribe key :: input, console => ⟨.write (.unsubscribe key), input, asked, console⟩
  | .delay delayMs :: input, console =>
      getCommand asked input (if delayMs > 0 then console.printf (text "Waiting...\n") else console)
  | .invalid :: input, console => getCommand asked input (console.fprintf "Invalid command. See HELP for usage\n")
  | .empty :: input, console | .endOfInput :: input, console => getCommand asked input console

/-- The end of `kvs_connect`, and `main` behind it. -/
def Client.connected (client : Client) (result : UInt8) : Client :=
  let console := client.console.printf (returnedLine result "connect")
  if result ≠ 0 then { client with pc := .exited 1, console := console.fprintf "Failed to connect to the server\n" }
  else getCommand client.asked client.input console

/-- The end of `kvs_subscribe` or `kvs_unsubscribe`, and `main` behind it. -/
def Client.answered (client : Client) (result : UInt8) (operation : String) : Client :=
  if result ≠ 0 ∧ result ≠ 1 then
    getCommand (client.asked + 1) client.input
      ((client.console.fprintf ("Server returned an invalid response for " ++ operation ++ "\n")).fprintf
        ("Command " ++ operation ++ " failed\n"))
  else getCommand (client.asked + 1) client.input (client.console.printf (returnedLine result operation))

/-- The end of `kvs_disconnect`, and `main` behind it. -/
def Client.disconnected (client : Client) (result : UInt8) : Client :=
  let console := client.console.printf (returnedLine result "disconnect")
  if result ≠ 0 then
    { client with
      pc := .exited 1
      console := (console.fprintf "Server failed to disconnect\n").fprintf "Failed to disconnect to the server\n" }
  else { client with pc := .exited 0, console := console }

/-- `response[1]` of the answer that the client waits for. -/
def Client.hear (client : Client) (result : UInt8) : Client :=
  match client.pc with
  | .connectRead => client.connected result
  | .write (.subscribe _) | .read (.subscribe _) => client.answered result "subscribe"
  | .write (.unsubscribe _) | .read (.unsubscribe _) => client.answered result "unsubscribe"
  | .write .disconnect | .read .disconnect => client.disconnected result
  | .openReq | .openResp | .openNotif | .waitInput | .exited _ => client

/-- The bytes of a request, in an array that held `message`. -/
def Ask.message (message : List UInt8) : Ask → List UInt8
  | .subscribe key => subscribeMessage message key
  | .unsubscribe key => unsubscribeMessage message key
  | .disconnect => [OP_CODE_DISCONNECT]

/-! The session: `handle_session`. -/

inductive Session where
  | openReq (session : SessionData)
  | openResp (session : SessionData)
  | openNotif (session : SessionData)
  | connectWrite (session : SessionData)
  | read (served : Nat) (session : SessionData) (localBuffer : List UInt8)
  | respond (served : Nat) (session : SessionData) (localBuffer : List UInt8) (result : UInt8)
  | returned (session : SessionData)

/-- `while (session->active)`. -/
def Session.loop (served : Nat) (session : SessionData) (localBuffer : List UInt8) : Session :=
  if session.active then .read served session localBuffer else .returned { session with active := false }

inductive Control where
  | client (client : Client)
  | session (session : Session)

/-- The slot that `manager_task` has filled in, and all that the two sides find: the
descriptors of the opens, what is in the arrays on both stacks, whether the store has a key
when it is asked for, and the turns of the client's input. -/
structure Setting where
  slot : SessionData
  active : slot.active = true
  reqFd : Nat
  respFd : Nat
  notifFd : Nat
  localBuffer : List UInt8
  keyExists : Nat → CString → Bool
  message : Nat → Fin (1 + MAX_STRING_SIZE) → UInt8
  response : Nat → Fin 2 → UInt8
  input : List ClientParser.Turn
  capacity : Nat
  room : MAX_PIPE_PATH_LENGTH + 1 ≤ capacity

namespace Setting
variable (setting : Setting)

def clientAct (client : Client) : Act SessionPipe UInt8 Control :=
  let hear := fun response data => Control.client (client.hear ((readInto (List.ofFn response) data).getD 1 0))
  match client.pc with
  | .openReq => .opens .req (.client { client with pc := .openResp })
  | .openResp => .opens .resp (.client { client with pc := .openNotif })
  | .openNotif => .opens .notif (.client { client with pc := .connectRead })
  | .connectRead => .receive .resp 2 (hear (setting.response 0))
  | .write ask =>
      .send .req (ask.message (List.ofFn (setting.message client.asked))) (.client { client with pc := .read ask })
  | .read _ => .receive .resp 2 (hear (setting.response (client.asked + 1)))
  | .waitInput | .exited _ => .halt

def sessionAct : Session → Act SessionPipe UInt8 Control
  | .openReq session => .opens .req (.session (.openResp { session with reqFd := some setting.reqFd }))
  | .openResp session => .opens .resp (.session (.openNotif { session with respFd := some setting.respFd }))
  | .openNotif session => .opens .notif (.session (.connectWrite { session with notifFd := some setting.notifFd }))
  | .connectWrite session =>
      .send .resp [OP_CODE_CONNECT, 0] (.session (.loop 0 { session with numSubscribedKeys := 0 } setting.localBuffer))
  | .read count session localBuffer =>
      .receive .req (MAX_PIPE_PATH_LENGTH + 1) fun data =>
        let localBuffer := readInto localBuffer data
        let served := serve (setting.keyExists count (requestKey localBuffer)) localBuffer session
        .session (.respond count served.session localBuffer served.result)
  | .respond count session localBuffer result =>
      .send .resp [opCode localBuffer, result] (.session (.loop (count + 1) session localBuffer))
  | .returned _ => .halt

def parties : Parties SessionPipe UInt8 Control where
  act := fun control => match control with
    | .client client => setting.clientAct client
    | .session session => setting.sessionAct session
  writer := writer
  capacity := setting.capacity

def firstClient : Client := ⟨.openReq, setting.input, 0, ⟨[], []⟩⟩

def pairing (client : Client) (session : Session) : Side → Control
  | .left => .client client
  | .right => .session session

/-- Both sides before their first `open`. -/
def start : Side → Control := pairing setting.firstClient (.openReq setting.slot)

end Setting

/-! The same dialogue one turn after the other. -/

/-- The requests of the input, up to a DISCONNECT. -/
def asks : List ClientParser.Turn → List Ask
  | [] => []
  | .disconnect :: _ => [.disconnect]
  | .subscribe key :: input => .subscribe key :: asks input
  | .unsubscribe key :: input => .unsubscribe key :: asks input
  | .delay _ :: input | .invalid :: input | .empty :: input | .endOfInput :: input => asks input

namespace Setting
variable (setting : Setting)

def data (count : Nat) (ask : Ask) : List UInt8 := ask.message (List.ofFn (setting.message count))

/-- `local_buffer` behind the read of a request. -/
def received (count : Nat) (localBuffer : List UInt8) (ask : Ask) : List UInt8 :=
  readInto localBuffer (setting.data count ask)

/-- The switch, behind that read. -/
def serveAsk (count : Nat) (localBuffer : List UInt8) (ask : Ask) (session : SessionData) : Served :=
  let localBuffer := setting.received count localBuffer ask
  serve (setting.keyExists count (requestKey localBuffer)) localBuffer session

/-- What the outside answers to `handle_session` during these requests. -/
def turns : Nat → List UInt8 → List Ask → List SessionLoop.Turn
  | _, _, [] => []
  | count, localBuffer, ask :: later =>
      let received := setting.received count localBuffer ask
      ⟨some (setting.data count ask), setting.keyExists count (requestKey received), .ok⟩ ::
        turns (count + 1) received later

/-- `handle_session` with the requests of the input. -/
def served : Progress × List Effect :=
  handleSession (some setting.reqFd) (some setting.respFd) (some setting.notifFd) .ok setting.localBuffer
    (setting.turns 0 setting.localBuffer (asks setting.input)) setting.slot

end Setting

/-- The result bytes that the client is sent. -/
def results (effects : List Effect) : List UInt8 :=
  effects.filterMap fun effect => match effect with
    | .response _ result => some result
    | .subscribe _ | .unsubscribe _ | .disconnect => none

/-- Where the loop stands, as one side of the dialogue. -/
def Session.at (served : Nat) : Progress → Session
  | .reading session localBuffer => .read served session localBuffer
  | .returned session | .killed session => .returned session

namespace Setting
variable (setting : Setting)

/-- The client that has heard the results of `served`. -/
def told : Client := (results setting.served.2).foldl Client.hear { setting.firstClient with pc := .connectRead }

/-- Where the sequential dialogue ends. -/
def outcome : Side → Control := pairing setting.told (.at (asks setting.input).length setting.served.1)

end Setting

/-! One request. -/

section Request
variable {setting : Setting} {opened : SessionPipe → Bool} {outcome : Side → Control} {client : Client}
  {slot : SessionData} {localBuffer message : List UInt8} {ask : Ask} {count left : Nat}

theorem keyMessage_length (sized : message.length = 1 + MAX_STRING_SIZE) (opcode : UInt8) (key : CString) :
    (keyMessage opcode message key).length = 1 + MAX_STRING_SIZE := by
  have start : (splice message 0 [opcode]).length = 1 + MAX_STRING_SIZE := by
    rw [length_splice (by rw [sized, List.length_singleton]; omega), sized]
  rw [← ClientReports.keyMessage_snprintf, keyMessage,
    length_snprintfAt (ClientReports.snprintf_short key) (Nat.le_of_eq start.symm), start]

theorem message_fits (sized : message.length = 1 + MAX_STRING_SIZE) (ask : Ask) :
    ask.message message ≠ [] ∧ (ask.message message).length ≤ MAX_PIPE_PATH_LENGTH + 1 := by
  have nonempty : 1 + MAX_STRING_SIZE ≠ 0 := by decide
  cases ask with
  | subscribe key =>
    have length := keyMessage_length sized OP_CODE_SUBSCRIBE key
    exact ⟨List.ne_nil_of_length_pos (by rw [Ask.message, subscribeMessage, length]; omega), Nat.le_of_eq length⟩
  | unsubscribe key =>
    have length := keyMessage_length sized OP_CODE_UNSUBSCRIBE key
    exact ⟨List.ne_nil_of_length_pos (by rw [Ask.message, unsubscribeMessage, length]; omega), Nat.le_of_eq length⟩
  | disconnect => exact ⟨List.cons_ne_nil _ _, Nat.le_add_left 1 MAX_PIPE_PATH_LENGTH⟩

theorem data_fits (setting : Setting) (count : Nat) (ask : Ask) :
    setting.data count ask ≠ [] ∧ (setting.data count ask).length ≤ MAX_PIPE_PATH_LENGTH + 1 :=
  message_fits List.length_ofFn ask

theorem attends_loop (count : Nat) (slot : SessionData) (localBuffer : List UInt8) :
    Attends setting.parties .right (.session (.loop count slot localBuffer)) := by
  unfold Session.loop
  split_ifs
  · exact .inr ⟨.req, _, _, rfl, rfl⟩
  · exact .inl rfl

theorem hear_sent (writes : client.pc = .write ask) (result : UInt8) :
    { client with pc := .read ask }.hear result = client.hear result := by
  unfold Client.hear
  rw [writes]
  cases ask <;> rfl

/-- The client sends a request that the session reads. -/
theorem meets_sent (req : opened .req = true) (writes : client.pc = .write ask) :
    Meets setting.parties opened (Setting.pairing client (.read client.asked slot localBuffer)) opened
      (Setting.pairing { client with pc := .read ask } (.respond client.asked
        (setting.serveAsk client.asked localBuffer ask slot).session (setting.received client.asked localBuffer ask)
        (setting.serveAsk client.asked localBuffer ask slot).result)) := by
  obtain ⟨some, fits⟩ := data_fits setting client.asked ask
  have sends : setting.clientAct client =
      .send .req (setting.data client.asked ask) (.client { client with pc := .read ask }) := by
    unfold Setting.clientAct
    rw [writes]
    rfl
  exact .message .left rfl req some fits (Nat.le_trans fits setting.room) sends rfl rfl (.inr ⟨.resp, _, _, rfl, rfl⟩)

/-- The session sends the answer that the client reads. -/
theorem meets_answered (resp : opened .resp = true) (writes : client.pc = .write ask) (result : UInt8) :
    Meets setting.parties opened
      (Setting.pairing { client with pc := .read ask } (.respond count slot localBuffer result)) opened
      (Setting.pairing (client.hear result) (.loop (count + 1) slot localBuffer)) := by
  have short : [opCode localBuffer, result].length ≤ MAX_PIPE_PATH_LENGTH + 1 := by
    show 2 ≤ 41
    omega
  refine .message .right rfl resp (List.cons_ne_nil _ _) (Nat.le_refl 2) (Nat.le_trans short setting.room) rfl rfl ?_
    (attends_loop ..)
  show Control.client (client.hear result) = .client ({ client with pc := .read ask }.hear result)
  rw [hear_sent writes]

theorem converses_request (req : opened .req = true) (resp : opened .resp = true) (writes : client.pc = .write ask)
    (rest : Converses setting.parties outcome opened
      (Setting.pairing (client.hear (setting.serveAsk client.asked localBuffer ask slot).result)
        (.loop (client.asked + 1) (setting.serveAsk client.asked localBuffer ask slot).session
          (setting.received client.asked localBuffer ask))) left) :
    Converses setting.parties outcome opened (Setting.pairing client (.read client.asked slot localBuffer)) (left + 2) :=
  .meets (meets_sent req writes) (.meets (meets_answered resp writes _) rest)

theorem results_append (effects later : List Effect) : results (effects ++ later) = results effects ++ results later :=
  List.filterMap_append ..

theorem serve_results (present : Bool) (localBuffer : List UInt8) (slot : SessionData) :
    results (serve present localBuffer slot).effects = [] := by
  unfold serve
  split_ifs
  · rw [serveSubscribe_effects]
    rfl
  · rw [serveUnsubscribe_effects]
    rfl
  · rfl
  · rfl

/-- A turn of the session sends one result. -/
theorem sessionLoop_results (setting : Setting) (count : Nat) (localBuffer : List UInt8) (slot : SessionData) (ask : Ask)
    (later : List Ask) :
    let served := setting.serveAsk count localBuffer ask slot
    let received := setting.received count localBuffer ask
    let whole := sessionLoop (setting.turns count localBuffer (ask :: later)) (.reading slot localBuffer)
    let rest := sessionLoop (setting.turns (count + 1) received later) (testActive served.session received)
    whole.1 = rest.1 ∧ results whole.2 = served.result :: results rest.2 := by
  refine ⟨rfl, ?_⟩
  show results ((_ ++ [.response _ _]) ++ _) = _
  rw [results_append, results_append]
  exact congrArg (· ++ _ ++ _) (serve_results ..)

def Ask.opCode : Ask → UInt8
  | .subscribe _ => OP_CODE_SUBSCRIBE
  | .unsubscribe _ => OP_CODE_UNSUBSCRIBE
  | .disconnect => OP_CODE_DISCONNECT

theorem Ask.opCode_ne_zero (ask : Ask) : ask.opCode ≠ 0 := by
  cases ask with
  | subscribe => exact show OP_CODE_SUBSCRIBE ≠ 0 by decide
  | unsubscribe => exact show OP_CODE_UNSUBSCRIBE ≠ 0 by decide
  | disconnect => exact show OP_CODE_DISCONNECT ≠ 0 by decide

theorem opCode_received (setting : Setting) (count : Nat) (localBuffer : List UInt8) (ask : Ask) :
    opCode (setting.received count localBuffer ask) = ask.opCode := by
  apply opCode_readInto localBuffer _ ask.opCode_ne_zero
  cases ask with
  | subscribe | unsubscribe => exact opCode_keyMessage
  | disconnect => rfl

theorem serveAsk_active (stays : ask ≠ .disconnect) :
    (setting.serveAsk count localBuffer ask slot).session.active = slot.active := by
  have code := opCode_received setting count localBuffer ask
  apply And.left
  apply serve_running
  rw [code]
  cases ask with
  | subscribe => exact show OP_CODE_SUBSCRIBE ≠ OP_CODE_DISCONNECT by decide
  | unsubscribe => exact show OP_CODE_UNSUBSCRIBE ≠ OP_CODE_DISCONNECT by decide
  | disconnect => exact absurd rfl stays

theorem answered_getCommand (client : Client) (result : UInt8) (operation : String) :
    ∃ console, client.answered result operation = getCommand (client.asked + 1) client.input console := by
  unfold Client.answered
  split_ifs <;> exact ⟨_, rfl⟩

end Request

/-! The whole dialogue. -/

section Whole
variable {setting : Setting} {opened : SessionPipe → Bool}

theorem testActive_of_active {slot : SessionData} (active : slot.active = true) (localBuffer : List UInt8) :
    testActive slot localBuffer = .reading slot localBuffer := if_pos active

theorem loop_of_active {slot : SessionData} (active : slot.active = true) (count : Nat) (localBuffer : List UInt8) :
    Session.loop count slot localBuffer = .read count slot localBuffer := if_pos active

/-- A request that is no DISCONNECT goes back to the loops of both sides. -/
theorem converses_stays (req : opened .req = true) (resp : opened .resp = true) {client : Client} {ask : Ask}
    {slot : SessionData} {localBuffer : List UInt8} {later : List Ask} {next : Client} (writes : client.pc = .write ask)
    (stays : ask ≠ .disconnect) (active : slot.active = true)
    (heard : client.hear (setting.serveAsk client.asked localBuffer ask slot).result = next)
    (goesOn : ∀ slot localBuffer, slot.active = true →
      let rest := sessionLoop (setting.turns (client.asked + 1) localBuffer later) (.reading slot localBuffer)
      Converses setting.parties
        (Setting.pairing ((results rest.2).foldl Client.hear next) (.at (client.asked + 1 + later.length) rest.1))
        opened (Setting.pairing next (.read (client.asked + 1) slot localBuffer)) (2 * later.length)) :
    let rest := sessionLoop (setting.turns client.asked localBuffer (ask :: later)) (.reading slot localBuffer)
    Converses setting.parties
      (Setting.pairing ((results rest.2).foldl Client.hear client) (.at (client.asked + (later.length + 1)) rest.1))
      opened (Setting.pairing client (.read client.asked slot localBuffer)) (2 * (later.length + 1)) := by
  have active' := (@serveAsk_active setting slot localBuffer ask client.asked stays).trans active
  obtain ⟨progress, told⟩ := sessionLoop_results setting client.asked localBuffer slot ask later
  rw [testActive_of_active active'] at progress told
  intro rest
  rw [told, progress, List.foldl_cons, heard, show client.asked + (later.length + 1) = client.asked + 1 + later.length by omega]
  apply converses_request req resp writes
  rw [heard, loop_of_active active']
  exact goesOn _ _ active'

/-- The dialogue behind the greeting is that of the session's loop. -/
theorem converses_loop (req : opened .req = true) (resp : opened .resp = true) (input : List ClientParser.Turn)
    (count : Nat) (localBuffer : List UInt8) (slot : SessionData) (console : Console) (active : slot.active = true) :
    let rest := sessionLoop (setting.turns count localBuffer (asks input)) (.reading slot localBuffer)
    Converses setting.parties
      (Setting.pairing ((results rest.2).foldl Client.hear (getCommand count input console))
        (.at (count + (asks input).length) rest.1))
      opened (Setting.pairing (getCommand count input console) (.read count slot localBuffer))
      (2 * (asks input).length) := by
  induction input generalizing count localBuffer slot console with
  | nil =>
    apply Converses.rests
    intro side
    cases side with
    | left => exact .inl rfl
    | right => exact .inr ⟨.req, _, _, rfl, rfl⟩
  | cons turn input ih =>
    cases turn with
    | delay | invalid | empty | endOfInput => exact ih count localBuffer slot _ active
    | disconnect =>
      apply converses_request req resp rfl
      apply Converses.rests
      intro side
      cases side with
      | left => exact .inl rfl
      | right => exact .inl rfl
    | subscribe key =>
      obtain ⟨console', heard⟩ := answered_getCommand ⟨.write (.subscribe key), input, count, console⟩
        (setting.serveAsk count localBuffer (.subscribe key) slot).result "subscribe"
      exact converses_stays req resp rfl (nofun : Ask.subscribe key ≠ .disconnect) active heard
        fun slot localBuffer => ih (count + 1) localBuffer slot console'
    | unsubscribe key =>
      obtain ⟨console', heard⟩ := answered_getCommand ⟨.write (.unsubscribe key), input, count, console⟩
        (setting.serveAsk count localBuffer (.unsubscribe key) slot).result "unsubscribe"
      exact converses_stays req resp rfl (nofun : Ask.unsubscribe key ≠ .disconnect) active heard
        fun slot localBuffer => ih (count + 1) localBuffer slot console'

/-- The slot in the loop. -/
def Setting.inLoop (setting : Setting) : SessionData :=
  { setting.slot with
    reqFd := some setting.reqFd, respFd := some setting.respFd, notifFd := some setting.notifFd, numSubscribedKeys := 0 }

theorem served_eq (setting : Setting) :
    let rest := sessionLoop (setting.turns 0 setting.localBuffer (asks setting.input))
      (.reading setting.inLoop setting.localBuffer)
    setting.served = (rest.1, .response OP_CODE_CONNECT 0 :: rest.2) := by
  have active : setting.inLoop.active = true := setting.active
  have entered := testActive_of_active active setting.localBuffer
  have opened : ¬(some setting.reqFd = none ∨ some setting.respFd = none ∨ some setting.notifFd = none) := by simp
  unfold Setting.served handleSession
  rw [if_neg opened]
  exact congrArg (fun progress =>
    let rest := sessionLoop (setting.turns 0 setting.localBuffer (asks setting.input)) progress
    (rest.1, Effect.response OP_CODE_CONNECT 0 :: rest.2)) entered

theorem meets_opens {client later : Client} {session next : Session} {pipe : SessionPipe} (closed : opened pipe = false)
    (clientOpens : setting.clientAct client = .opens pipe (.client later))
    (sessionOpens : setting.sessionAct session = .opens pipe (.session next)) :
    Meets setting.parties opened (Setting.pairing client session) (Function.update opened pipe true)
      (Setting.pairing later next) := by
  apply Meets.opens closed
  intro side
  cases side with
  | left => exact clientOpens
  | right => exact sessionOpens

/-- The session sends the greeting that the client reads. -/
theorem meets_greeting (resp : opened .resp = true) {client : Client} (reads : client.pc = .connectRead)
    (slot : SessionData) :
    Meets setting.parties opened (Setting.pairing client (.connectWrite slot)) opened
      (Setting.pairing (client.hear 0) (.loop 0 { slot with numSubscribedKeys := 0 } setting.localBuffer)) := by
  have short : [OP_CODE_CONNECT, (0 : UInt8)].length ≤ MAX_PIPE_PATH_LENGTH + 1 := Nat.le_add_left 2 39
  have hears : setting.clientAct client = .receive .resp 2 fun data =>
      .client (client.hear ((readInto (List.ofFn (setting.response 0)) data).getD 1 0)) := by
    unfold Setting.clientAct
    rw [reads]
  exact .message .right rfl resp (List.cons_ne_nil _ _) (Nat.le_refl 2) (Nat.le_trans short setting.room) rfl hears rfl
    (attends_loop ..)

/-- The three openings, the greeting, and two messages for each request. -/
theorem converses_start (setting : Setting) :
    Converses setting.parties setting.outcome (fun _ => false) setting.start (2 * (asks setting.input).length + 4) := by
  have active : setting.inLoop.active = true := setting.active
  have loop := @converses_loop setting
    (Function.update (Function.update (Function.update (fun _ => false) .req true) .resp true) .notif true) rfl rfl
    setting.input 0 setting.localBuffer setting.inLoop ((⟨[], []⟩ : Console).printf (returnedLine 0 "connect")) active
  rw [← loop_of_active active, Nat.zero_add] at loop
  unfold Setting.outcome Setting.told
  rw [served_eq]
  apply Converses.meets (meets_opens rfl rfl rfl)
  apply Converses.meets (meets_opens rfl rfl rfl)
  apply Converses.meets (meets_opens rfl rfl rfl)
  exact Converses.meets (meets_greeting rfl rfl _) loop

end Whole

/-! What the session answers, on a list of keys. -/

/-- The answer to one request, and the list behind it. -/
def answer (keyExists : CString → Bool) (keys : List CString) : Ask → List CString × UInt8
  | .subscribe key =>
      let sent := CString.snprintf MAX_STRING_SIZE key
      if keyExists sent then (if keys.length < MAX_NUMBER_SUB then keys ++ [sent] else keys, 1) else (keys, 0)
  | .unsubscribe key =>
      let sent := CString.snprintf MAX_STRING_SIZE key
      (keys.erase sent, if sent ∈ keys then 0 else 1)
  | .disconnect => ([], 0)

def answers (keyExists : Nat → CString → Bool) (count : Nat) (keys : List CString) : List Ask → List CString × List UInt8
  | [] => (keys, [])
  | ask :: later =>
      let first := answer (keyExists count) keys ask
      let rest := answers keyExists (count + 1) first.1 later
      (rest.1, first.2 :: rest.2)

/-- Where the main thread ends: gone at a DISCONNECT, or waiting for more input. -/
def lastPc : List ClientParser.Turn → ClientPc
  | [] => .waitInput
  | .disconnect :: _ => .exited 0
  | _ :: input => lastPc input

/-- The slot that the loop is in or was left with. -/
def slotOf : Progress → SessionData
  | .reading session _ | .returned session | .killed session => session

section Answers
variable {setting : Setting} {slot : SessionData} {localBuffer : List UInt8} {count : Nat}

theorem received_key (setting : Setting) (count : Nat) (localBuffer : List UInt8) (key : CString) :
    requestKey (setting.received count localBuffer (.subscribe key)) = CString.snprintf MAX_STRING_SIZE key ∧
      requestKey (setting.received count localBuffer (.unsubscribe key)) = CString.snprintf MAX_STRING_SIZE key :=
  ⟨requestKey_keyMessage OP_CODE_SUBSCRIBE List.length_ofFn localBuffer key,
    requestKey_keyMessage OP_CODE_UNSUBSCRIBE List.length_ofFn localBuffer key⟩

theorem serveAsk_subscribe (setting : Setting) (count : Nat) (localBuffer : List UInt8) (key : CString) (slot : SessionData) :
    setting.serveAsk count localBuffer (.subscribe key) slot =
      let sent := CString.snprintf MAX_STRING_SIZE key
      serveSubscribe (setting.keyExists count sent) sent slot := by
  have code : opCode (setting.received count localBuffer (.subscribe key)) = OP_CODE_SUBSCRIBE := opCode_received ..
  rw [Setting.serveAsk, serve, if_pos code, (received_key setting count localBuffer key).1]

theorem serveAsk_unsubscribe (setting : Setting) (count : Nat) (localBuffer : List UInt8) (key : CString) (slot : SessionData) :
    setting.serveAsk count localBuffer (.unsubscribe key) slot =
      serveUnsubscribe (CString.snprintf MAX_STRING_SIZE key) slot := by
  have code : opCode (setting.received count localBuffer (.unsubscribe key)) = OP_CODE_UNSUBSCRIBE := opCode_received ..
  have other : opCode (setting.received count localBuffer (.unsubscribe key)) ≠ OP_CODE_SUBSCRIBE :=
    code.trans_ne SubscriptionSet.unsubscribe_ne_subscribe
  rw [Setting.serveAsk, serve, if_neg other, if_pos code, (received_key setting count localBuffer key).2]

/-- The switch answers as the list does. -/
theorem serveAsk_answer (setting : Setting) (count : Nat) (localBuffer : List UInt8) (low : 0 ≤ slot.numSubscribedKeys)
    (ask : Ask) :
    let served := setting.serveAsk count localBuffer ask slot
    subscriptions served.session = (answer (setting.keyExists count) (subscriptions slot) ask).1 ∧
      served.result = (answer (setting.keyExists count) (subscriptions slot) ask).2 ∧
      0 ≤ served.session.numSubscribedKeys := by
  cases ask with
  | subscribe key =>
    rw [serveAsk_subscribe]
    simp only [answer]
    refine ⟨?_, ?_, serveSubscribe_low _ _ low⟩
    · rw [SubscribeAnswer.subscriptions_serveSubscribe _ _ low]
      cases setting.keyExists count (CString.snprintf MAX_STRING_SIZE key) <;> simp
    · rw [serveSubscribe_result]
      split_ifs <;> rfl
  | unsubscribe key =>
    rw [serveAsk_unsubscribe]
    exact ⟨(serveUnsubscribe_spec _ _).1, (serveUnsubscribe_spec _ _).2, serveUnsubscribe_low low⟩
  | disconnect => exact ⟨rfl, rfl, Int.le_refl 0⟩

theorem loop_answers (setting : Setting) (input : List ClientParser.Turn) (count : Nat) (localBuffer : List UInt8)
    {slot : SessionData} (low : 0 ≤ slot.numSubscribedKeys) (active : slot.active = true) :
    let rest := sessionLoop (setting.turns count localBuffer (asks input)) (.reading slot localBuffer)
    let answered := answers setting.keyExists count (subscriptions slot) (asks input)
    subscriptions (slotOf rest.1) = answered.1 ∧ results rest.2 = answered.2 := by
  induction input generalizing count localBuffer slot with
  | nil => exact ⟨rfl, rfl⟩
  | cons turn input ih =>
    have goesOn (ask : Ask) (stays : ask ≠ .disconnect) :
        let rest := sessionLoop (setting.turns count localBuffer (ask :: asks input)) (.reading slot localBuffer)
        let answered := answers setting.keyExists count (subscriptions slot) (ask :: asks input)
        subscriptions (slotOf rest.1) = answered.1 ∧ results rest.2 = answered.2 := by
      obtain ⟨progress, told⟩ := sessionLoop_results setting count localBuffer slot ask (asks input)
      obtain ⟨keys, result, low'⟩ := serveAsk_answer setting count localBuffer low ask
      have active' := (@serveAsk_active setting slot localBuffer ask count stays).trans active
      rw [testActive_of_active active'] at progress told
      intro rest answered
      obtain ⟨last, later⟩ := ih (count + 1) (setting.received count localBuffer ask) low' active'
      rw [keys] at last later
      exact ⟨(congrArg (subscriptions ∘ slotOf) progress).trans last, told.trans (congrArg₂ List.cons result later)⟩
    cases turn with
    | delay | invalid | empty | endOfInput => exact ih count localBuffer low active
    | subscribe key => exact goesOn (.subscribe key) (nofun : Ask.subscribe key ≠ .disconnect)
    | unsubscribe key => exact goesOn (.unsubscribe key) (nofun : Ask.unsubscribe key ≠ .disconnect)
    | disconnect => exact ⟨rfl, rfl⟩

/-- The client goes with its DISCONNECT, whatever it was answered before. -/
theorem foldl_hear_pc (keyExists : Nat → CString → Bool) (input : List ClientParser.Turn) (count : Nat)
    (keys : List CString) (console : Console) :
    ((answers keyExists count keys (asks input)).2.foldl Client.hear (getCommand count input console)).pc =
      lastPc input := by
  induction input generalizing count keys console with
  | nil => rfl
  | cons turn input ih =>
    cases turn with
    | delay | invalid | empty | endOfInput => exact ih count keys _
    | disconnect => rfl
    | subscribe key =>
      obtain ⟨console', heard⟩ := answered_getCommand ⟨.write (.subscribe key), input, count, console⟩
        (answer (keyExists count) keys (.subscribe key)).2 "subscribe"
      exact (congrArg (fun client => (List.foldl Client.hear client _).pc) heard).trans (ih (count + 1) _ console')
    | unsubscribe key =>
      obtain ⟨console', heard⟩ := answered_getCommand ⟨.write (.unsubscribe key), input, count, console⟩
        (answer (keyExists count) keys (.unsubscribe key)).2 "unsubscribe"
      exact (congrArg (fun client => (List.foldl Client.hear client _).pc) heard).trans (ih (count + 1) _ console')

end Answers

/-! Every interleaving. -/

section Runs
variable {setting : Setting} {trace : List (Event SessionPipe UInt8)} {state : State SessionPipe UInt8 Control}

/-- A key that the store has is subscribed to, one that is not subscribed to is
unsubscribed, and the client leaves. -/
def shortSession : Setting where
  slot := { SessionData.zero with active := true }
  active := rfl
  reqFd := 3
  respFd := 4
  notifFd := 5
  localBuffer := List.replicate (MAX_PIPE_PATH_LENGTH + 1) 0
  keyExists := fun _ _ => true
  message := fun _ _ => 255
  response := fun _ _ => 255
  input := [.subscribe (CString.ofBytes [97]), .invalid, .unsubscribe (CString.ofBytes [98]), .disconnect]
  capacity := 65536
  room := by decide

/-- The session is the first to go on from each open. -/
def sessionFirst : List Side :=
  [.right, .left, .right, .right, .left, .left, .right, .right, .left, .left, .right, .right, .left, .left,
    .left, .right, .right, .left, .left, .right, .right, .left, .left, .right, .right, .left]

theorem shortSession_rests : ∃ trace : List (Event SessionPipe UInt8), ∃ state : State SessionPipe UInt8 Control,
    Run (machine shortSession.parties) Always (initial shortSession.start) trace state ∧ trace.length = 26 ∧
      AtRest shortSession.parties state := by
  obtain ⟨trace, state, run, length, left, right⟩ := exists_run (machine shortSession.parties) Always
    (initial shortSession.start) (fun trace state => trace.length = 26 ∧
      ((machine shortSession.parties).step state .left).isNone = true ∧
        ((machine shortSession.parties).step state .right).isNone = true) sessionFirst (by decide)
  refine ⟨trace, state, run, length, fun side => ?_⟩
  cases side with
  | left => exact Option.isNone_iff_eq_none.mp left
  | right => exact Option.isNone_iff_eq_none.mp right

/-- However the two sides are scheduled, they come to rest after a bounded number of calls,
the session where `handle_session` alone would be and the client with all its results. -/
theorem dialogue_ends (run : Run (machine setting.parties) Always (initial setting.start) trace state) :
    trace.length ≤ 8 * (asks setting.input).length + 16 ∧
      (∃ later last, Run (machine setting.parties) Always state later last ∧ AtRest setting.parties last) ∧
      (AtRest setting.parties state → state.stand .left = .ready (.client setting.told) ∧
        state.stand .right = .ready (.session (.at (asks setting.input).length setting.served.1))) := by
  have converses := converses_start setting
  have bound := run_bounded converses run
  refine ⟨by omega, run_reaches_rest converses run, ?_⟩
  intro rest
  exact ⟨run_outcome converses run rest .left, run_outcome converses run rest .right⟩

theorem dialogue_ends_of_shortSession : ∃ state : State SessionPipe UInt8 Control,
    state.stand .left = .ready (.client shortSession.told) ∧
      state.stand .right = .ready (.session (.at 3 shortSession.served.1)) := by
  obtain ⟨trace, state, run, _, rest⟩ := shortSession_rests
  obtain ⟨_, _, ends⟩ := dialogue_ends run
  exact ⟨state, ends rest⟩

/-- Each read on the three pipes returned one message, and at rest the client has the answers
of the list of keys and the slot holds that list. -/
theorem answers_delivered (run : Run (machine setting.parties) Always (initial setting.start) trace state) :
    let answered := answers setting.keyExists 0 [] (asks setting.input)
    (∀ pipe, sentOn pipe trace = receivedOn pipe trace ++ inFlight (state.bytes pipe)) ∧
      (AtRest setting.parties state → ∃ client progress, state.stand .left = .ready (.client client) ∧
        client = (0 :: answered.2).foldl Client.hear { setting.firstClient with pc := .connectRead } ∧
        client.pc = lastPc setting.input ∧
        state.stand .right = .ready (.session (.at (asks setting.input).length progress)) ∧
        subscriptions (slotOf progress) = answered.1) := by
  have converses := converses_start setting
  intro answered
  refine ⟨run_framed converses run, ?_⟩
  intro rest
  have active : setting.inLoop.active = true := setting.active
  obtain ⟨keys, told⟩ := loop_answers setting setting.input 0 setting.localBuffer (Int.le_refl 0) active
  refine ⟨_, _, run_outcome converses run rest .left, ?_, ?_, run_outcome converses run rest .right, ?_⟩
  · unfold Setting.told
    rw [served_eq]
    exact congrArg (fun results => List.foldl Client.hear _ (0 :: results)) told
  · unfold Setting.told
    rw [served_eq]
    have heard := foldl_hear_pc setting.keyExists setting.input 0 [] ((⟨[], []⟩ : Console).printf (returnedLine 0 "connect"))
    exact (congrArg (fun results => (List.foldl Client.hear _ (0 :: results)).pc) told).trans heard
  · rw [served_eq]
    exact keys

theorem answers_delivered_of_shortSession : ∃ state : State SessionPipe UInt8 Control, ∃ client : Client,
    state.stand .left = .ready (.client client) ∧ client.pc = .exited 0 ∧
      client = [0, 1, 1, 0].foldl Client.hear { shortSession.firstClient with pc := .connectRead } := by
  obtain ⟨trace, state, run, _, rest⟩ := shortSession_rests
  obtain ⟨_, ends⟩ := answers_delivered run
  obtain ⟨client, _, left, told, exited, _⟩ := ends rest
  exact ⟨state, client, left, exited, told⟩

end Runs

end IstKvs.SessionDialogue
