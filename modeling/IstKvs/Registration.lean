import IstKvs.Messages
import IstKvs.JobDispatch
import IstKvs.Library.RecordPipe

/-! Clients that register. Each names three pipes after its identifier and writes one request
into the register pipe, in one call; `host_task` reads as many bytes as a request has. No
request is lost, torn or taken twice, and no two sessions open the same pipe. -/

namespace IstKvs.Registration
open LabelledRuns RecordPipe Messages Fields
open JobDispatch (literal strcat)

/-! The names of the pipes, in `main` of the client. -/

/-- `snprintf(path, MAX_PIPE_PATH_LENGTH, "/tmp/.._%s", argv[1])`. -/
def pipeName (kind : CString) (id : CString) : CString := CString.snprintf MAX_PIPE_PATH_LENGTH (strcat kind id)

def reqName (id : CString) : CString := pipeName (literal "/tmp/req_") id
def respName (id : CString) : CString := pipeName (literal "/tmp/resp_") id
def notifName (id : CString) : CString := pipeName (literal "/tmp/notif_") id

def pipeNames (id : CString) : List CString := [reqName id, respName id, notifName id]

/-- How much of an identifier is left in the longest of the three names. -/
def ID_LENGTH : Nat := 28

def shortened (id : CString) : List UInt8 := id.bytes.take ID_LENGTH

section Names
variable {first second : CString}

theorem pipeName_fits (kind id : CString) : (pipeName kind id).bytes.length < MAX_PIPE_PATH_LENGTH := by
  have short : (pipeName kind id).bytes.length ≤ MAX_PIPE_PATH_LENGTH - 1 := List.length_take_le ..
  exact lt_of_le_of_lt short (by decide)

/-- Names of one kind are as different as what is left of the identifiers. -/
theorem pipeName_eq_iff (kind : CString) (short : kind.bytes.length ≤ MAX_PIPE_PATH_LENGTH - 1) :
    pipeName kind first = pipeName kind second ↔
      first.bytes.take (MAX_PIPE_PATH_LENGTH - 1 - kind.bytes.length) =
        second.bytes.take (MAX_PIPE_PATH_LENGTH - 1 - kind.bytes.length) := by
  have bytes (id : CString) : (pipeName kind id).bytes =
      kind.bytes ++ id.bytes.take (MAX_PIPE_PATH_LENGTH - 1 - kind.bytes.length) := by
    show (kind.bytes ++ id.bytes).take (MAX_PIPE_PATH_LENGTH - 1) = _
    rw [List.take_append, List.take_of_length_le short]
  constructor
  · intro same
    have same' := congrArg CString.bytes same
    rw [bytes, bytes] at same'
    exact List.append_cancel_left same'
  · intro same
    apply CString.ext
    rw [bytes, bytes, same]

theorem take_eq_of_take {count more : Nat} (fewer : count ≤ more) {left right : List UInt8}
    (same : left.take more = right.take more) : left.take count = right.take count := by
  have cut := congrArg (List.take count) same
  rwa [List.take_take, List.take_take, min_eq_left fewer] at cut

/-- Names of two kinds differ in the byte at some place. -/
theorem pipeName_ne {kind other : CString} (place : Nat)
    (inside : place < kind.bytes.length ∧ place < other.bytes.length) (low : place < MAX_PIPE_PATH_LENGTH - 1) (differ : kind.bytes[place]? ≠ other.bytes[place]?) :
    pipeName kind first ≠ pipeName other second := by
  intro same
  have byte (name id : CString) (within : place < name.bytes.length) :
      (pipeName name id).bytes[place]? = name.bytes[place]? := by
    show ((name.bytes ++ id.bytes).take (MAX_PIPE_PATH_LENGTH - 1))[place]? = _
    rw [List.getElem?_take_of_lt low, List.getElem?_append_left within]
  apply differ
  rw [← byte kind first inside.1, ← byte other second inside.2, same]

/-- Two clients share a pipe exactly where their identifiers agree in what is left of them. -/
theorem share_iff : (∃ name ∈ pipeNames first, name ∈ pipeNames second) ↔ shortened first = shortened second := by
  have req : reqName first = reqName second ↔ first.bytes.take 30 = second.bytes.take 30 :=
    pipeName_eq_iff _ (by decide)
  have resp : respName first = respName second ↔ first.bytes.take 29 = second.bytes.take 29 :=
    pipeName_eq_iff _ (by decide)
  have notif : notifName first = notifName second ↔ shortened first = shortened second :=
    pipeName_eq_iff _ (by decide)
  constructor
  · rintro ⟨name, mine, theirs⟩
    simp only [pipeNames, List.mem_cons, List.not_mem_nil, or_false] at mine theirs
    rcases mine with mine | mine | mine <;> rcases theirs with theirs | theirs | theirs <;>
      have same := mine.symm.trans theirs
    · exact take_eq_of_take (by decide) (req.mp same)
    · exact absurd same (pipeName_ne 7 (by decide) (by decide) (by decide))
    · exact absurd same (pipeName_ne 5 (by decide) (by decide) (by decide))
    · exact absurd same (pipeName_ne 7 (by decide) (by decide) (by decide))
    · exact take_eq_of_take (by decide) (resp.mp same)
    · exact absurd same (pipeName_ne 5 (by decide) (by decide) (by decide))
    · exact absurd same (pipeName_ne 5 (by decide) (by decide) (by decide))
    · exact absurd same (pipeName_ne 5 (by decide) (by decide) (by decide))
    · exact notif.mp same
  · intro same
    refine ⟨notifName first, by simp [pipeNames], ?_⟩
    rw [notif.mpr same]
    simp [pipeNames]

end Names

/-! The register pipe. -/

/-- The clients: their identifiers, and what `message` in `kvs_connect` holds before. -/
structure Clients (Client : Type) where
  id : Client → CString
  message : Client → List UInt8
  sized : ∀ client, (message client).length = 1 + 3 * MAX_PIPE_PATH_LENGTH
  capacity : Nat
  room : 1 + 3 * MAX_PIPE_PATH_LENGTH ≤ capacity

section Pipe
variable {Client : Type} (clients : Clients Client)

/-- What `kvs_connect` writes. -/
def Clients.request (client : Client) : List UInt8 :=
  connectMessage (clients.message client) (reqName (clients.id client)) (respName (clients.id client))
    (notifName (clients.id client))

/-- The names that the session of the client is to open. -/
def Clients.names (client : Client) : CString × CString × CString :=
  (reqName (clients.id client), respName (clients.id client), notifName (clients.id client))

theorem length_request (client : Client) : (clients.request client).length = 1 + 3 * MAX_PIPE_PATH_LENGTH := by
  have sized : (clients.message client).length = 121 := clients.sized client
  have opcode : (splice (clients.message client) 0 [OP_CODE_CONNECT]).length = 121 := by
    rw [length_splice (by simp [sized]), sized]
  have first := @length_snprintfAt _ 1 _ _ (pipeName_fits (literal "/tmp/req_") (clients.id client))
    (by rw [opcode]; decide : 1 + MAX_PIPE_PATH_LENGTH ≤ _)
  have second := @length_snprintfAt _ (MAX_PIPE_PATH_LENGTH + 1) _ _
    (pipeName_fits (literal "/tmp/resp_") (clients.id client))
    (by rw [first, opcode]; decide : MAX_PIPE_PATH_LENGTH + 1 + MAX_PIPE_PATH_LENGTH ≤ _)
  have third := @length_snprintfAt _ (2 * MAX_PIPE_PATH_LENGTH + 1) _ _
    (pipeName_fits (literal "/tmp/notif_") (clients.id client))
    (by rw [second, first, opcode]; decide : 2 * MAX_PIPE_PATH_LENGTH + 1 + MAX_PIPE_PATH_LENGTH ≤ _)
  exact third.trans (second.trans (first.trans opcode))

/-- The request of each client is less than `PIPE_BUF`, so one call writes it whole. -/
def Clients.writers : Writers Client UInt8 where
  size := 1 + 3 * MAX_PIPE_PATH_LENGTH
  record := clients.request
  sized := length_request clients
  positive := Nat.lt_add_right _ Nat.one_pos
  capacity := clients.capacity
  room := clients.room

/-- The requests that `host_task` stores, from what its reads return; `cells` is what the
cells of `buffer` hold before. -/
def hostRequests (cells : Nat → ConnectionRequest) :
    Nat → List UInt8 → List (List UInt8) → List ConnectionRequest
  | _, _, [] => []
  | count, readBuffer, data :: later =>
      -- `bytes_read <= 0`: the next turn.
      if data = [] then hostRequests cells count readBuffer later
      else if opCode (readInto readBuffer data) = OP_CODE_CONNECT then
        hostCopy (cells count) (readInto readBuffer data) ::
          hostRequests cells (count + 1) (readInto readBuffer data) later
      else hostRequests cells count (readInto readBuffer data) later

/-- Each request is decoded to the names of its client. -/
theorem hostRequests_names (cells : Nat → ConnectionRequest) (count : Nat) (readBuffer : List UInt8)
    (taken : List Client) (session : SessionData) :
    (hostRequests cells count readBuffer (taken.map clients.request)).map
        (fun request => sessionPaths (managerCopy session request)) = taken.map clients.names := by
  induction taken generalizing count readBuffer with
  | nil => rfl
  | cons client taken ih =>
    have code : opCode (readInto readBuffer (clients.request client)) = OP_CODE_CONNECT :=
      opCode_readInto readBuffer opCode_connectMessage (by decide)
    have names := connect_decoded (clients.sized client) (pipeName_fits (literal "/tmp/req_") (clients.id client))
      (pipeName_fits (literal "/tmp/resp_") (clients.id client))
      (pipeName_fits (literal "/tmp/notif_") (clients.id client)) readBuffer (cells count) session
    have some : clients.request client ≠ [] := by
      apply List.ne_nil_of_length_pos
      rw [length_request]
      decide
    rw [List.map_cons, hostRequests]
    simp only [if_neg some, if_pos code]
    exact congrArg₂ List.cons names (ih (count + 1) _)

variable {clients} [DecidableEq Client] {trace : List (RecordPipe.Event Client UInt8)}
  {state : RecordPipe.State Client UInt8}

/-- However the clients write and whatever of the reads is interrupted, the host takes each
request once and whole, in the order of the writes, and whichever slot it comes to, its
session opens the pipes of this client; where the identifiers of the clients differ in what
is left of them, no two of the requests share a pipe. -/
theorem registered_once (run : Run (RecordPipe.machine clients.writers) Always RecordPipe.initial trace state)
    (cells : Nat → ConnectionRequest) (readBuffer : List UInt8) : ∃ taken inFlight,
      wroteIn trace = taken ++ inFlight ∧ state.bytes = inFlight.flatMap clients.request ∧
      (∀ session, (hostRequests cells 0 readBuffer (gotIn trace)).map
        (fun request => sessionPaths (managerCopy session request)) = taken.map clients.names) ∧
      ((∀ first second, first ≠ second → shortened (clients.id first) ≠ shortened (clients.id second)) →
        taken.Pairwise fun first second =>
          ∀ name ∈ pipeNames (clients.id first), name ∉ pipeNames (clients.id second)) ∧
      ((∀ client, state.written client = true) → state.bytes = [] → ∀ client, taken.count client = 1) := by
  obtain ⟨taken, inFlight, framed⟩ := framed_of_run run
  have once := framed.once
  rw [framed.order] at once
  refine ⟨taken, inFlight, framed.order, framed.bytes, ?_, ?_, ?_⟩
  · intro session
    rw [framed.got]
    exact hostRequests_names clients cells 0 readBuffer taken session
  · intro apart
    apply (List.nodup_append.mp once).1.imp
    intro first second different name mine theirs
    exact apart first second different (share_iff.mp ⟨name, mine, theirs⟩)
  · intro all empty client
    have member := (framed.wrote client).mp (all client)
    rw [framed.order, framed.nothing_left empty, List.append_nil] at member
    exact List.count_eq_one_of_mem (List.nodup_append.mp once).1 member

/-- Two clients, of the identifiers `a` and `b`. -/
def twoClients : Clients Bool where
  id := fun second => literal (if second then "b" else "a")
  message := fun _ => List.replicate (1 + 3 * MAX_PIPE_PATH_LENGTH) 1
  sized := fun _ => List.length_replicate ..
  capacity := 65536
  room := Nat.le_of_ble_eq_true rfl

theorem registered_once_of_two :
    ∃ (trace : List (RecordPipe.Event Bool UInt8)) (state : RecordPipe.State Bool UInt8),
    wroteIn trace = [true, false] ∧ (gotIn trace).length = 2 ∧
    ∃ taken inFlight, wroteIn trace = taken ++ inFlight ∧ state.bytes = inFlight.flatMap twoClients.request ∧
      (∀ session, (hostRequests (fun _ => ⟨[], [], []⟩) 0 [] (gotIn trace)).map
        (fun request => sessionPaths (managerCopy session request)) = taken.map twoClients.names) ∧
      ((∀ first second, first ≠ second → shortened (twoClients.id first) ≠ shortened (twoClients.id second)) →
        taken.Pairwise fun first second =>
          ∀ name ∈ pipeNames (twoClients.id first), name ∉ pipeNames (twoClients.id second)) ∧
      ((∀ client, state.written client = true) → state.bytes = [] → ∀ client, taken.count client = 1) := by
  obtain ⟨trace, state, run, order, reads⟩ := exists_run (RecordPipe.machine twoClients.writers) Always
    RecordPipe.initial (fun trace _ => wroteIn trace = [true, false] ∧ (gotIn trace).length = 2)
    [.write true, .interrupted, .write false, .read, .read] (by decide +kernel)
  exact ⟨trace, state, order, reads, registered_once run (fun _ => ⟨[], [], []⟩) []⟩

end Pipe

end IstKvs.Registration
