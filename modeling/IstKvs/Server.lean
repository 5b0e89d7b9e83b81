import IstKvs.Common
import IstKvs.Library.LabelledRuns
import IstKvs.Library.ThreadPool
import Mathlib.Data.Fintype.Basic

/-! The threads of `main.c` that serve clients: the host, the managers inside
`manager_task` and `handle_session`, and job threads inside `notify_clients`.
One step is one semaphore operation, one locked block, one test of a shared
field, one assignment to it, or one system call. Coarser granularities are
guards on runs. The job threads also call the store; here only its answer to
`kvs_key_exists` matters, and a step takes it from outside. -/

namespace IstKvs.Server
open LabelledRuns

/-- What a descriptor is open on. -/
structure Descriptor where
  path : PipePath
  writable : Bool
  deriving DecidableEq

/-- What the threads share. `bufferMutex` is set while the host's sweep holds it;
the other locked blocks are single steps. `descriptors` gives the client pipe a
descriptor number is open on, and `readers` the pipes whose read end a client has open. -/
structure Shared (slots : Nat) where
  semEmpty : Nat
  semFull : Nat
  bufferMutex : Bool
  buffer : Nat → ConnectionRequest
  sessions : Fin slots → SessionData
  sigusr1Received : Bool
  descriptors : Nat → Option Descriptor
  readers : PipePath → Bool
  sigpipeDefault : Bool
  terminated : Bool

/-- What the outside answers to the one call a step makes: the descriptor of an
`open`, the bytes after a `read`, the result of `kvs_key_exists`, and whether a
`write` with a reader succeeds. `none` stands for -1. -/
structure Answer where
  fd : Option Nat := none
  bytes : Option (List UInt8) := none
  keyExists : Bool := false
  written : Bool := true

/-- Where the host is in `host_task`. -/
inductive HostPc (slots : Nat) where
  | checkSignal
  | sweepLock
  | sweepTest (i : Nat)
  | sweepCloseReq (i : Fin slots)
  | sweepCloseResp (i : Fin slots)
  | sweepCloseNotif (i : Fin slots)
  | sweepActive (i : Fin slots)
  | sweepKeys (i : Fin slots)
  | resetSignal
  | readRegister
  | waitEmpty (request : ConnectionRequest)
  | store (request : ConnectionRequest)
  | postFull
  deriving DecidableEq

/-- Where a manager is in the lines of `manager_task` that fill in a slot. -/
inductive SetupPc where
  | reqPath
  | respPath
  | notifPath
  | activate
  deriving DecidableEq

/-- Where a manager is in `handle_session`, with `local_buffer` and, inside the
loop body, `bytes_read`. `tail` records whether a failed read or write left the loop. -/
inductive SessionPc where
  | openReq
  | openResp
  | openNotif
  | checkOpen
  | abort
  | connectWrite
  | resetSubs
  | loop (localBuffer : List UInt8)
  | read (localBuffer : List UInt8)
  | dispatch (localBuffer : List UInt8) (bytesRead : Nat)
  | subscribeStore (localBuffer : List UInt8)
  | subscribeCount (localBuffer : List UInt8)
  | unsubscribeFind (localBuffer : List UInt8) (i : Int)
  | unsubscribeShift (localBuffer : List UInt8) (j : Int)
  | unsubscribeCount (localBuffer : List UInt8)
  | disconnectActive (localBuffer : List UInt8) (bytesRead : Nat)
  | disconnectKeys (localBuffer : List UInt8)
  | respond (localBuffer : List UInt8) (result : UInt8)
  | tail (broken : Bool)
  | tailPost
  deriving DecidableEq

/-- Where a manager is in `manager_task`. `scan request slots` is the scan that
has ended with `session_index == -1`. -/
inductive ManagerPc (slots : Nat) where
  | waitFull
  | copy
  | postEmpty (request : ConnectionRequest)
  | scan (request : ConnectionRequest) (i : Nat)
  | setup (request : ConnectionRequest) (slot : Fin slots) (pc : SetupPc)
  | session (request : ConnectionRequest) (slot : Fin slots) (pc : SessionPc)
  deriving DecidableEq

/-- Where a job thread is in `notify_clients(key, value)`. -/
inductive JobPc (slots : Nat) where
  | idle
  | testActive (key value : CString) (i : Nat)
  | testBound (key value : CString) (i : Fin slots) (j : Int)
  | compare (key value : CString) (i : Fin slots) (j : Int)
  | send (key value : CString) (i : Fin slots) (j : Int)
  deriving DecidableEq

variable {slots managers jobs : Nat}

def Shared.modify (shared : Shared slots) (slot : Fin slots) (change : SessionData → SessionData) :
    Shared slots :=
  { shared with sessions := Function.update shared.sessions slot (change (shared.sessions slot)) }

/-- `close(fd)`; closing -1 or a closed descriptor changes nothing. -/
def closeFile (descriptors : Nat → Option Descriptor) : Option Nat → Nat → Option Descriptor
  | none => descriptors
  | some fd => Function.update descriptors fd none

def Shared.close (shared : Shared slots) (fd : Option Nat) : Shared slots :=
  { shared with descriptors := closeFile shared.descriptors fd }

/-- A field of a connection request as `strncpy` copies it out of `read_buffer`. -/
def pipeField (readBuffer : List UInt8) (offset : Nat) : PipePath :=
  let name := ((readBuffer.drop offset).take MAX_PIPE_PATH_LENGTH).takeWhile (· != 0)
  name ++ List.replicate (MAX_PIPE_PATH_LENGTH - name.length) 0

def connectionRequest (readBuffer : List UInt8) : ConnectionRequest where
  reqPipePath := pipeField readBuffer 1
  respPipePath := pipeField readBuffer (MAX_PIPE_PATH_LENGTH + 1)
  notifPipePath := pipeField readBuffer (2 * MAX_PIPE_PATH_LENGTH + 1)

inductive Written where
  | ok
  | failed
  | killed
  deriving DecidableEq

/-- A write to a pipe without a reader raises SIGPIPE, which kills the process
unless its action is not the default one; the write then fails. -/
def Shared.write (shared : Shared slots) (fd : Option Nat) (answer : Answer) : Written :=
  match fd.bind shared.descriptors with
  | some ⟨path, true⟩ =>
      if shared.readers path then
        if answer.written then .ok else .failed
      else if shared.sigpipeDefault then .killed else .failed
  | _ => .failed

/-- `open` fails or returns a descriptor that is not in use. -/
def openFile (descriptors : Nat → Option Descriptor) (opened : Descriptor) :
    Option Nat → Option (Nat → Option Descriptor)
  | none => some descriptors
  | some fd =>
      if descriptors fd = none then some (Function.update descriptors fd (some opened)) else none

/-- `open(path, O_RDONLY)`. -/
def Shared.openForReading (shared : Shared slots) (path : PipePath) (fd : Option Nat) :
    Option (Nat → Option Descriptor) :=
  openFile shared.descriptors ⟨path, false⟩ fd

/-- `open(path, O_WRONLY)` of a FIFO succeeds only once somebody has it open for reading. -/
def Shared.openForWriting (shared : Shared slots) (path : PipePath) (fd : Option Nat) :
    Option (Nat → Option Descriptor) :=
  if fd.isSome ∧ shared.readers path = false then none
  else openFile shared.descriptors ⟨path, true⟩ fd

def hostStep (answer : Answer) (shared : Shared slots) :
    HostPc slots → Option (Shared slots × HostPc slots)
  | .checkSignal =>
      if shared.sigusr1Received then some (shared, .sweepLock) else some (shared, .readRegister)
  | .sweepLock =>
      if shared.bufferMutex then none
      else some ({ shared with bufferMutex := true }, .sweepTest 0)
  | .sweepTest i =>
      if bound : i < slots then
        if (shared.sessions ⟨i, bound⟩).active then some (shared, .sweepCloseReq ⟨i, bound⟩)
        else some (shared, .sweepTest (i + 1))
      else some ({ shared with bufferMutex := false }, .resetSignal)
  | .sweepCloseReq i => some (shared.close (shared.sessions i).reqFd, .sweepCloseResp i)
  | .sweepCloseResp i => some (shared.close (shared.sessions i).respFd, .sweepCloseNotif i)
  | .sweepCloseNotif i => some (shared.close (shared.sessions i).notifFd, .sweepActive i)
  | .sweepActive i =>
      some (shared.modify i fun session => { session with active := false }, .sweepKeys i)
  | .sweepKeys i =>
      some (shared.modify i fun session => { session with numSubscribedKeys := 0 },
        .sweepTest (i + 1))
  | .resetSignal => some ({ shared with sigusr1Received := false }, .readRegister)
  | .readRegister =>
      match answer.bytes with
      | none => some (shared, .checkSignal)
      | some [] => some (shared, .checkSignal)
      | some readBuffer =>
          if readBuffer.headD 0 = OP_CODE_CONNECT then
            some (shared, .waitEmpty (connectionRequest readBuffer))
          else some (shared, .checkSignal)
  | .waitEmpty request =>
      if 0 < shared.semEmpty then
        some ({ shared with semEmpty := shared.semEmpty - 1 }, .store request)
      else none
  | .store request =>
      if shared.bufferMutex then none
      else some ({ shared with buffer := Function.update shared.buffer shared.semFull request },
        .postFull)
  | .postFull => some ({ shared with semFull := shared.semFull + 1 }, .checkSignal)

/-- The lines of `manager_task` between the scan and `handle_session`. -/
def setupStep (shared : Shared slots) (request : ConnectionRequest) (slot : Fin slots) :
    SetupPc → Shared slots × ManagerPc slots
  | .reqPath =>
      (shared.modify slot fun session => { session with reqPipePath := request.reqPipePath },
        .setup request slot .respPath)
  | .respPath =>
      (shared.modify slot fun session => { session with respPipePath := request.respPipePath },
        .setup request slot .notifPath)
  | .notifPath =>
      (shared.modify slot fun session => { session with notifPipePath := request.notifPipePath },
        .setup request slot .activate)
  | .activate =>
      (shared.modify slot fun session => { session with active := true },
        .session request slot .openReq)

/-- What a write leaves behind: SIGPIPE may have ended the process. -/
def Shared.afterWrite (shared : Shared slots) (fd : Option Nat) (answer : Answer) : Shared slots :=
  { shared with terminated := decide (shared.write fd answer = .killed) }

/-- The switch on the opcode, up to the first assignment of the case. -/
def dispatchStep (answer : Answer) (session : SessionData) (localBuffer : List UInt8)
    (bytesRead : Nat) : SessionPc :=
  if opCode localBuffer = OP_CODE_SUBSCRIBE then
    if answer.keyExists then
      if session.numSubscribedKeys < MAX_NUMBER_SUB then .subscribeStore localBuffer
      else .respond localBuffer 1
    else .respond localBuffer 0
  else if opCode localBuffer = OP_CODE_UNSUBSCRIBE then .unsubscribeFind localBuffer 0
  else if opCode localBuffer = OP_CODE_DISCONNECT then .disconnectActive localBuffer bytesRead
  else .respond localBuffer 1

def sessionStep (answer : Answer) (shared : Shared slots) (request : ConnectionRequest)
    (slot : Fin slots) : SessionPc → Option (Shared slots × ManagerPc slots)
  | .openReq =>
      (shared.openForReading (shared.sessions slot).reqPipePath answer.fd).map fun descriptors =>
        ({ shared with descriptors := descriptors }.modify slot fun session =>
          { session with reqFd := answer.fd }, .session request slot .openResp)
  | .openResp =>
      (shared.openForWriting (shared.sessions slot).respPipePath answer.fd).map fun descriptors =>
        ({ shared with descriptors := descriptors }.modify slot fun session =>
          { session with respFd := answer.fd }, .session request slot .openNotif)
  | .openNotif =>
      (shared.openForWriting (shared.sessions slot).notifPipePath answer.fd).map fun descriptors =>
        ({ shared with descriptors := descriptors }.modify slot fun session =>
          { session with notifFd := answer.fd }, .session request slot .checkOpen)
  | .checkOpen =>
      let session := shared.sessions slot
      if session.reqFd = none ∨ session.respFd = none ∨ session.notifFd = none then
        some (shared, .session request slot .abort)
      else some (shared, .session request slot .connectWrite)
  | .abort => some (shared.modify slot fun session => { session with active := false }, .waitFull)
  | .connectWrite =>
      let fd := (shared.sessions slot).respFd
      some (shared.afterWrite fd answer, .session request slot
        (if shared.write fd answer = .ok then .resetSubs else .abort))
  -- `local_buffer` starts with whatever its stack bytes hold
  | .resetSubs =>
      some (shared.modify slot fun session => { session with numSubscribedKeys := 0 },
        .session request slot (.loop (answer.bytes.getD [])))
  | .loop localBuffer =>
      if (shared.sessions slot).active then some (shared, .session request slot (.read localBuffer))
      else some (shared, .session request slot (.tail false))
  | .read localBuffer =>
      match answer.bytes with
      | none => some (shared, .session request slot (.tail true))
      | some data =>
          some (shared, .session request slot (.dispatch (readInto localBuffer data) data.length))
  | .dispatch localBuffer bytesRead =>
      some (shared, .session request slot
        (dispatchStep answer (shared.sessions slot) localBuffer bytesRead))
  | .subscribeStore localBuffer =>
      some (shared.modify slot fun session =>
        session.setKey session.numSubscribedKeys (requestKey localBuffer),
        .session request slot (.subscribeCount localBuffer))
  | .subscribeCount localBuffer =>
      some (shared.modify slot fun session =>
        { session with numSubscribedKeys := session.numSubscribedKeys + 1 },
        .session request slot (.respond localBuffer 1))
  | .unsubscribeFind localBuffer i =>
      let session := shared.sessions slot
      if i < session.numSubscribedKeys then
        if session.subscribedKeys i = requestKey localBuffer then
          some (shared, .session request slot (.unsubscribeShift localBuffer i))
        else some (shared, .session request slot (.unsubscribeFind localBuffer (i + 1)))
      else some (shared, .session request slot (.respond localBuffer 1))
  | .unsubscribeShift localBuffer j =>
      if j < (shared.sessions slot).numSubscribedKeys - 1 then
        some (shared.modify slot fun session => session.setKey j (session.subscribedKeys (j + 1)),
          .session request slot (.unsubscribeShift localBuffer (j + 1)))
      else some (shared, .session request slot (.unsubscribeCount localBuffer))
  | .unsubscribeCount localBuffer =>
      some (shared.modify slot fun session =>
        { session with numSubscribedKeys := session.numSubscribedKeys - 1 },
        .session request slot (.respond localBuffer 0))
  | .disconnectActive localBuffer _ =>
      some (shared.modify slot fun session => { session with active := false },
        .session request slot (.disconnectKeys localBuffer))
  | .disconnectKeys localBuffer =>
      some (shared.modify slot fun session => { session with numSubscribedKeys := 0 },
        .session request slot (.respond localBuffer 0))
  | .respond localBuffer _ =>
      let fd := (shared.sessions slot).respFd
      some (shared.afterWrite fd answer, .session request slot
        (if shared.write fd answer = .ok then .loop localBuffer else .tail true))
  | .tail _ =>
      if shared.bufferMutex then none
      else some (shared.modify slot fun session => { session with active := false },
        .session request slot .tailPost)
  | .tailPost => some ({ shared with semEmpty := shared.semEmpty + 1 }, .waitFull)

def managerStep (answer : Answer) (shared : Shared slots) :
    ManagerPc slots → Option (Shared slots × ManagerPc slots)
  | .waitFull =>
      if 0 < shared.semFull then some ({ shared with semFull := shared.semFull - 1 }, .copy)
      else none
  | .copy =>
      if shared.bufferMutex then none
      else some (shared, .postEmpty (shared.buffer shared.semFull))
  | .postEmpty request => some ({ shared with semEmpty := shared.semEmpty + 1 }, .scan request 0)
  | .scan request i =>
      if bound : i < slots then
        if (shared.sessions ⟨i, bound⟩).active then some (shared, .scan request (i + 1))
        else some (shared, .setup request ⟨i, bound⟩ .reqPath)
      else some (shared, .waitFull)
  | .setup request slot pc => some (setupStep shared request slot pc)
  | .session request slot pc => sessionStep answer shared request slot pc

def jobStep (answer : Answer) (shared : Shared slots) :
    JobPc slots → Option (Shared slots × JobPc slots)
  | .idle => none
  | .testActive key value i =>
      if bound : i < slots then
        if (shared.sessions ⟨i, bound⟩).active then some (shared, .testBound key value ⟨i, bound⟩ 0)
        else some (shared, .testActive key value (i + 1))
      else some (shared, .idle)
  | .testBound key value i j =>
      if j < (shared.sessions i).numSubscribedKeys then some (shared, .compare key value i j)
      else some (shared, .testActive key value (i + 1))
  | .compare key value i j =>
      if (shared.sessions i).subscribedKeys j = key then some (shared, .send key value i j)
      else some (shared, .testBound key value i (j + 1))
  | .send key value i j =>
      let fd := (shared.sessions i).notifFd
      if fd = none then some (shared, .testBound key value i (j + 1))
      else some (shared.afterWrite fd answer, .testBound key value i (j + 1))

structure State (slots managers jobs : Nat) where
  shared : Shared slots
  host : HostPc slots
  managers : Fin managers → ManagerPc slots
  jobs : Fin jobs → JobPc slots

/-- `call` is a job thread entering `notify_clients`; `signal` delivers SIGUSR1;
the last two are clients opening and closing the read end of a pipe. -/
inductive Action (managers jobs : Nat) where
  | host (answer : Answer)
  | manager (thread : Fin managers) (answer : Answer)
  | job (thread : Fin jobs) (answer : Answer)
  | call (thread : Fin jobs) (key value : CString)
  | signal
  | openReader (path : PipePath)
  | closeReader (path : PipePath)

def State.withHost (state : State slots managers jobs) (result : Shared slots × HostPc slots) :
    State slots managers jobs :=
  { state with shared := result.1, host := result.2 }

def State.withManager (state : State slots managers jobs) (thread : Fin managers)
    (result : Shared slots × ManagerPc slots) : State slots managers jobs :=
  { state with shared := result.1, managers := Function.update state.managers thread result.2 }

def State.withJob (state : State slots managers jobs) (thread : Fin jobs)
    (result : Shared slots × JobPc slots) : State slots managers jobs :=
  { state with shared := result.1, jobs := Function.update state.jobs thread result.2 }

def step (state : State slots managers jobs) (action : Action managers jobs) :
    Option (State slots managers jobs) :=
  if state.shared.terminated then none
  else match action with
  | .host answer => (hostStep answer state.shared state.host).map state.withHost
  | .manager thread answer =>
      (managerStep answer state.shared (state.managers thread)).map (state.withManager thread)
  | .job thread answer =>
      (jobStep answer state.shared (state.jobs thread)).map (state.withJob thread)
  | .call thread key value =>
      if state.jobs thread = .idle then
        some (state.withJob thread (state.shared, .testActive key value 0))
      else none
  | .signal => some { state with shared := { state.shared with sigusr1Received := true } }
  | .openReader path =>
      some { state with shared :=
        { state.shared with readers := Function.update state.shared.readers path true } }
  | .closeReader path =>
      some { state with shared :=
        { state.shared with readers := Function.update state.shared.readers path false } }

/-- The steps the results speak of. `subscribed` and `unsubscribed` are the two
assignments that complete a request; `notified` is the write of a notification. -/
inductive Event (slots : Nat) where
  | stored (index : Nat) (request : ConnectionRequest)
  | copied (index : Nat) (request : ConnectionRequest)
  | tailPosted
  | started (slot : Fin slots) (request : ConnectionRequest)
  | subscribed (slot : Fin slots) (key : CString)
  | unsubscribed (slot : Fin slots) (key : CString)
  | notified (slot : Fin slots) (key value : CString)
  deriving DecidableEq

def hostEvents (shared : Shared slots) : HostPc slots → List (Event slots)
  | .store request => [.stored shared.semFull request]
  | _ => []

def managerEvents (shared : Shared slots) : ManagerPc slots → List (Event slots)
  | .copy => [.copied shared.semFull (shared.buffer shared.semFull)]
  | .setup request slot .reqPath => [.started slot request]
  | .session _ slot (.subscribeCount localBuffer) => [.subscribed slot (requestKey localBuffer)]
  | .session _ slot (.unsubscribeCount localBuffer) => [.unsubscribed slot (requestKey localBuffer)]
  | .session _ _ .tailPost => [.tailPosted]
  | _ => []

def jobEvents (shared : Shared slots) : JobPc slots → List (Event slots)
  | .send key value i _ =>
      if (shared.sessions i).notifFd.isSome then [.notified i key value] else []
  | _ => []

def observe (state : State slots managers jobs) : Action managers jobs → List (Event slots)
  | .host _ => hostEvents state.shared state.host
  | .manager thread _ => managerEvents state.shared (state.managers thread)
  | .job thread _ => jobEvents state.shared (state.jobs thread)
  | _ => []

def machine (slots managers jobs : Nat) :
    Machine (State slots managers jobs) (Action managers jobs) (Event slots) where
  step := step
  observe := observe

/-- The state after `main` has started every thread. The process inherits its
action for SIGPIPE; nothing in the server sets one. -/
def initial (slots managers jobs : Nat) (sigpipeDefault : Bool) : State slots managers jobs where
  shared :=
    { semEmpty := slots
      semFull := 0
      bufferMutex := false
      buffer := fun _ => ⟨List.replicate MAX_PIPE_PATH_LENGTH 0,
        List.replicate MAX_PIPE_PATH_LENGTH 0, List.replicate MAX_PIPE_PATH_LENGTH 0⟩
      sessions := fun _ => SessionData.zero
      sigusr1Received := false
      descriptors := fun _ => none
      readers := fun _ => false
      sigpipeDefault := sigpipeDefault
      terminated := false }
  host := .checkSignal
  managers := fun _ => .waitFull
  jobs := fun _ => .idle

theorem run_tail {guard : State slots managers jobs → Action managers jobs → Prop}
    {start state next : State slots managers jobs} {trace : List (Event slots)}
    {action : Action managers jobs} (run : Run (machine slots managers jobs) guard start trace state)
    (met : guard state action) (taken : step state action = some next) :
    Run (machine slots managers jobs) guard start (trace ++ observe state action) next := by
  have moved : (machine slots managers jobs).step state action = some next := taken
  exact run.tail met moved

/-- Everything one step can be. -/
inductive Steps (state : State slots managers jobs) :
    Action managers jobs → State slots managers jobs → Prop where
  | host {answer result} (ran : hostStep answer state.shared state.host = some result) :
      Steps state (.host answer) (state.withHost result)
  | manager {thread answer result}
      (ran : managerStep answer state.shared (state.managers thread) = some result) :
      Steps state (.manager thread answer) (state.withManager thread result)
  | job {thread answer result} (ran : jobStep answer state.shared (state.jobs thread) = some result) :
      Steps state (.job thread answer) (state.withJob thread result)
  | call {thread key value} (idle : state.jobs thread = .idle) :
      Steps state (.call thread key value)
        (state.withJob thread (state.shared, .testActive key value 0))
  | signal : Steps state .signal
      { state with shared := { state.shared with sigusr1Received := true } }
  | openReader {path} : Steps state (.openReader path)
      { state with shared :=
        { state.shared with readers := Function.update state.shared.readers path true } }
  | closeReader {path} : Steps state (.closeReader path)
      { state with shared :=
        { state.shared with readers := Function.update state.shared.readers path false } }

theorem steps_of_step {state next : State slots managers jobs} {action : Action managers jobs}
    (taken : step state action = some next) :
    state.shared.terminated = false ∧ Steps state action next := by
  unfold step at taken
  split at taken
  next => cases taken
  next alive =>
    refine ⟨by simpa using alive, ?_⟩
    cases action with
    | host answer =>
      obtain ⟨result, ran, same⟩ := Option.map_eq_some_iff.mp taken
      exact same ▸ .host ran
    | manager thread answer =>
      obtain ⟨result, ran, same⟩ := Option.map_eq_some_iff.mp taken
      exact same ▸ .manager ran
    | job thread answer =>
      obtain ⟨result, ran, same⟩ := Option.map_eq_some_iff.mp taken
      exact same ▸ .job ran
    | call thread key value =>
      by_cases idle : state.jobs thread = .idle
      · simp only [if_pos idle, Option.some.injEq] at taken
        exact taken ▸ .call idle
      · simp only [if_neg idle] at taken
        cases taken
    | signal => cases taken; exact .signal
    | openReader path => cases taken; exact .openReader
    | closeReader path => cases taken; exact .closeReader

/-! Pieces of the schedules that the examples below run. -/

def noPath : PipePath := List.replicate MAX_PIPE_PATH_LENGTH 0

/-- A CONNECT request, told apart by the first byte of its request pipe, up to the
host's `sem_wait(&semEmpty)`. -/
def register (name : UInt8) : List (Action managers jobs) :=
  [.host {}, .host { bytes := some [OP_CODE_CONNECT, name] }, .host {}]

def storeAndPost : List (Action managers jobs) := [.host {}, .host {}]

def arrive (name : UInt8) : List (Action managers jobs) := register name ++ storeAndPost

def advance (thread : Fin managers) (count : Nat) : List (Action managers jobs) :=
  List.replicate count (.manager thread {})

/-- The three opens, the check, the connect response and the reset: up to the loop. -/
def openSession (thread : Fin managers) (fd : Nat) : List (Action managers jobs) :=
  [.manager thread { fd := some fd }, .manager thread { fd := some (fd + 1) },
    .manager thread { fd := some (fd + 2) }] ++ advance thread 3

/-- A first client registers and `thread` serves it, up to the test of the loop. -/
def firstSession (thread : Fin managers) : List (Action managers jobs) :=
  .openReader noPath :: arrive 97 ++ advance thread 8 ++ openSession thread 3

/-- One turn of the loop that reads `bytes`, up to the switch. -/
def receive (thread : Fin managers) (bytes : List UInt8) : List (Action managers jobs) :=
  [.manager thread {}, .manager thread { bytes := some bytes }]

end IstKvs.Server
