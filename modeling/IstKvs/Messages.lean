import IstKvs.Server
import IstKvs.Library.Fields

/-! The requests of `api.c` and what the server decodes them to. The client writes
each string with `snprintf` into an array it does not clear; the server copies it out
with `strncpy` into arrays that hold earlier requests. -/

namespace IstKvs.Messages
open Fields Server

/-- `snprintf(array + offset, size, "%s", s)`. -/
def snprintfAt (array : List UInt8) (offset size : Nat) (s : CString) : List UInt8 :=
  splice array offset ((CString.snprintf size s).bytes ++ [0])

def copied (source : List UInt8) (count : Nat) : List UInt8 := (source.take count).takeWhile (· != 0)

/-- `strncpy(array, source, count)`, which fills up with zeros. -/
def strncpy (array source : List UInt8) (count : Nat) : List UInt8 :=
  splice array 0 (copied source count ++ List.replicate (count - (copied source count).length) 0)

/-- The message of `kvs_connect`, in an array that held `message`. -/
def connectMessage (message : List UInt8) (reqPipePath respPipePath notifPipePath : CString) : List UInt8 :=
  let opcode := splice message 0 [OP_CODE_CONNECT]
  let req := snprintfAt opcode 1 MAX_PIPE_PATH_LENGTH reqPipePath
  let resp := snprintfAt req (MAX_PIPE_PATH_LENGTH + 1) MAX_PIPE_PATH_LENGTH respPipePath
  snprintfAt resp (2 * MAX_PIPE_PATH_LENGTH + 1) MAX_PIPE_PATH_LENGTH notifPipePath

def keyMessage (opcode : UInt8) (message : List UInt8) (key : CString) : List UInt8 :=
  snprintfAt (splice message 0 [opcode]) 1 MAX_STRING_SIZE key

/-- The message of `kvs_subscribe`. -/
def subscribeMessage (message : List UInt8) (key : CString) : List UInt8 :=
  keyMessage OP_CODE_SUBSCRIBE message key

/-- The message of `kvs_unsubscribe`. -/
def unsubscribeMessage (message : List UInt8) (key : CString) : List UInt8 :=
  keyMessage OP_CODE_UNSUBSCRIBE message key

/-- The three copies of `host_task` into a cell of `buffer`. -/
def hostCopy (cell : ConnectionRequest) (readBuffer : List UInt8) : ConnectionRequest where
  reqPipePath := strncpy cell.reqPipePath (readBuffer.drop 1) MAX_PIPE_PATH_LENGTH
  respPipePath := strncpy cell.respPipePath (readBuffer.drop (MAX_PIPE_PATH_LENGTH + 1)) MAX_PIPE_PATH_LENGTH
  notifPipePath :=
    strncpy cell.notifPipePath (readBuffer.drop (2 * MAX_PIPE_PATH_LENGTH + 1)) MAX_PIPE_PATH_LENGTH

/-- The three copies of `manager_task` into a slot of `sessions`. -/
def managerCopy (session : SessionData) (request : ConnectionRequest) : SessionData :=
  { session with
    reqPipePath := strncpy session.reqPipePath request.reqPipePath MAX_PIPE_PATH_LENGTH
    respPipePath := strncpy session.respPipePath request.respPipePath MAX_PIPE_PATH_LENGTH
    notifPipePath := strncpy session.notifPipePath request.notifPipePath MAX_PIPE_PATH_LENGTH }

/-- `strncpy(array, source, count)` and `array[count] = '\0'`. -/
def terminatedCopy (array source : List UInt8) (count : Nat) : List UInt8 :=
  splice (strncpy array source count) count [0]

/-- The key that `handle_session` copies out of `local_buffer` into its array. -/
def decodedKey (array localBuffer : List UInt8) : CString :=
  CString.ofBytes (terminatedCopy array (localBuffer.drop 1) (MAX_STRING_SIZE - 1))

/-! What the encoders leave at each offset, whatever the array held. -/

section Encoders
variable {array message : List UInt8} {offset size : Nat} {s : CString}

theorem snprintfAt_starts (inside : offset ≤ array.length) (fits : s.bytes.length < size) :
    StartsAt 0 (snprintfAt array offset size s) offset s.bytes := by
  unfold snprintfAt
  rw [CString.snprintf_of_fits fits]
  exact startsAt_splice inside

theorem length_snprintfAt (fits : s.bytes.length < size) (inside : offset + size ≤ array.length) :
    (snprintfAt array offset size s).length = array.length := by
  unfold snprintfAt
  rw [CString.snprintf_of_fits fits]
  apply length_splice
  rw [List.length_append, List.length_singleton]
  omega

theorem snprintfAt_keeps {place : Nat} {word : List UInt8} (starts : StartsAt 0 array offset word)
    (after : offset + word.length < place) (inside : place ≤ array.length) :
    StartsAt 0 (snprintfAt array place size s) offset word :=
  starts.splice_after after inside

end Encoders

section Connect
variable {message : List UInt8} {req resp notif : CString}

theorem connectMessage_starts (sized : message.length = 1 + 3 * MAX_PIPE_PATH_LENGTH)
    (reqFits : req.bytes.length < MAX_PIPE_PATH_LENGTH)
    (respFits : resp.bytes.length < MAX_PIPE_PATH_LENGTH)
    (notifFits : notif.bytes.length < MAX_PIPE_PATH_LENGTH) :
    StartsAt 0 (connectMessage message req resp notif) 1 req.bytes ∧
      StartsAt 0 (connectMessage message req resp notif) (MAX_PIPE_PATH_LENGTH + 1) resp.bytes ∧
      StartsAt 0 (connectMessage message req resp notif) (2 * MAX_PIPE_PATH_LENGTH + 1) notif.bytes := by
  unfold connectMessage
  simp only [MAX_PIPE_PATH_LENGTH] at *
  have opcode : (splice message 0 [OP_CODE_CONNECT]).length = 121 := by
    rw [length_splice (by simp [sized]), sized]
  have first : (snprintfAt (splice message 0 [OP_CODE_CONNECT]) 1 40 req).length = 121 := by
    rw [length_snprintfAt reqFits (by omega), opcode]
  have second : (snprintfAt (snprintfAt (splice message 0 [OP_CODE_CONNECT]) 1 40 req) 41 40 resp).length =
      121 := by
    rw [length_snprintfAt respFits (by omega), first]
  generalize splice message 0 [OP_CODE_CONNECT] = start at *
  have reqStarts := snprintfAt_starts (show 1 ≤ start.length by omega) reqFits
  generalize snprintfAt start 1 40 req = middle at *
  have respStarts := snprintfAt_starts (show 41 ≤ middle.length by omega) respFits
  have reqKept : StartsAt 0 (snprintfAt middle 41 40 resp) 1 req.bytes :=
    snprintfAt_keeps reqStarts (by omega) (by omega)
  generalize snprintfAt middle 41 40 resp = last at *
  exact ⟨snprintfAt_keeps reqKept (by omega) (by omega), snprintfAt_keeps respStarts (by omega) (by omega),
    snprintfAt_starts (by omega) notifFits⟩

theorem opCode_connectMessage : opCode (connectMessage message req resp notif) = OP_CODE_CONNECT := by
  show opCode (snprintfAt (snprintfAt (snprintfAt (splice message 0 [OP_CODE_CONNECT]) 1 40 req) 41 40 resp)
    81 40 notif) = _
  unfold snprintfAt
  rw [splice_first, splice_cons, splice_cons, splice_cons]
  rfl

end Connect

section Key
variable {message : List UInt8} {opcode : UInt8} {key : CString}

theorem keyMessage_starts (sized : message.length = 1 + MAX_STRING_SIZE)
    (fits : key.bytes.length < MAX_STRING_SIZE) : StartsAt 0 (keyMessage opcode message key) 1 key.bytes := by
  have length : (splice message 0 [opcode]).length = 1 + MAX_STRING_SIZE := by
    rw [length_splice (by simp [sized]), sized]
  exact snprintfAt_starts (by omega) fits

theorem opCode_keyMessage : opCode (keyMessage opcode message key) = opcode := by
  unfold keyMessage snprintfAt
  rw [splice_first, splice_cons]
  rfl

end Key

/-! What the decoders take from an array with the string at their offset. -/

section Decoders
variable {array source : List UInt8} {offset count : Nat} {s : CString}

theorem ofBytes_of_startsAt (starts : StartsAt 0 array 0 s.bytes) : CString.ofBytes array = s :=
  CString.ext (starts.whole s.noNul)

/-- A string shorter than the count is copied with its terminator. -/
theorem strncpy_starts (array : List UInt8) (starts : StartsAt 0 source offset s.bytes)
    (fits : s.bytes.length < count) : StartsAt 0 (strncpy array (source.drop offset) count) 0 s.bytes := by
  obtain ⟨more, later⟩ := Nat.exists_eq_add_of_lt fits
  have name : copied (source.drop offset) count = s.bytes := starts.read s.noNul (by omega)
  unfold strncpy
  rw [name, show count - s.bytes.length = more + 1 by omega, List.replicate_succ]
  exact ⟨List.replicate more 0 ++ array.drop (s.bytes ++ 0 :: List.replicate more 0).length, by simp [splice]⟩

theorem length_copied (source : List UInt8) (count : Nat) : (copied source count).length ≤ count :=
  calc
    _ ≤ (source.take count).length := (List.takeWhile_sublist _).length_le
    _ ≤ count := List.length_take_le count source

theorem length_filled (source : List UInt8) (count : Nat) :
    (copied source count ++ List.replicate (count - (copied source count).length) 0).length = count := by
  have short := length_copied source count
  rw [List.length_append, List.length_replicate]
  omega

theorem strncpy_eq_pipeField {old : PipePath} (sized : old.length = MAX_PIPE_PATH_LENGTH)
    (readBuffer : List UInt8) (offset : Nat) :
    strncpy old (readBuffer.drop offset) MAX_PIPE_PATH_LENGTH = pipeField readBuffer offset := by
  unfold strncpy splice
  rw [length_filled, Nat.zero_add, List.drop_of_length_le (Nat.le_of_eq sized), List.take_zero,
    List.nil_append, List.append_nil]
  rfl

theorem zeros_concat (count : Nat) : List.replicate count (0 : UInt8) ++ [0] = 0 :: List.replicate count 0 := by
  rw [← List.replicate_succ', List.replicate_succ]

/-- The terminator stands behind the bytes that were copied, if not before. -/
theorem terminatedCopy_starts (array source : List UInt8) (count : Nat) :
    StartsAt 0 (terminatedCopy array source count) 0 (copied source count) := by
  have filled := length_filled source count
  unfold terminatedCopy strncpy
  generalize copied source count = name at *
  have last := zeros_concat (count - name.length)
  generalize List.replicate (count - name.length) (0 : UInt8) = zeros at *
  refine ⟨zeros ++ (splice array 0 (name ++ zeros)).drop (count + 1), ?_⟩
  rw [List.drop_zero, ← List.cons_append, ← last]
  have front : (splice array 0 (name ++ zeros)).take count = name ++ zeros := by
    unfold splice
    rw [List.take_zero, List.nil_append]
    exact List.take_left' filled
  conv_lhs => rw [splice, front]
  simp

theorem ofBytes_terminatedCopy (array source : List UInt8) (count : Nat) :
    CString.ofBytes (terminatedCopy array source count) = CString.ofBytes (source.take count) :=
  ofBytes_of_startsAt (terminatedCopy_starts array source count)

theorem decodedKey_eq (array localBuffer : List UInt8) :
    decodedKey array localBuffer = requestKey localBuffer :=
  ofBytes_terminatedCopy array (localBuffer.drop 1) (MAX_STRING_SIZE - 1)

theorem opCode_readInto {data : List UInt8} {opcode : UInt8} (buffer : List UInt8)
    (first : opCode data = opcode) (valid : opcode ≠ 0) : opCode (readInto buffer data) = opcode := by
  cases data with
  | nil => exact absurd first.symm valid
  | cons byte rest => exact first

end Decoders

/-! The copies are those of the server's machine, whose fields are whole arrays. -/

section Machine
variable {slots : Nat} {old : PipePath}

/-- Each name is an array of the size its declaration gives it. -/
def Sized (reqPipePath respPipePath notifPipePath : PipePath) : Prop :=
  reqPipePath.length = MAX_PIPE_PATH_LENGTH ∧ respPipePath.length = MAX_PIPE_PATH_LENGTH ∧
    notifPipePath.length = MAX_PIPE_PATH_LENGTH

theorem hostCopy_eq {cell : ConnectionRequest}
    (sized : Sized cell.reqPipePath cell.respPipePath cell.notifPipePath) (readBuffer : List UInt8) :
    hostCopy cell readBuffer = connectionRequest readBuffer := by
  unfold hostCopy connectionRequest
  rw [strncpy_eq_pipeField sized.1, strncpy_eq_pipeField sized.2.1, strncpy_eq_pipeField sized.2.2]

/-- A field that was filled by one copy is what the next copy leaves. -/
theorem strncpy_pipeField (sized : old.length = MAX_PIPE_PATH_LENGTH) (readBuffer : List UInt8) (offset : Nat) :
    strncpy old (pipeField readBuffer offset) MAX_PIPE_PATH_LENGTH = pipeField readBuffer offset := by
  have filled : (pipeField readBuffer offset).length = MAX_PIPE_PATH_LENGTH :=
    length_filled (readBuffer.drop offset) MAX_PIPE_PATH_LENGTH
  have name : copied (pipeField readBuffer offset) MAX_PIPE_PATH_LENGTH =
      copied (readBuffer.drop offset) MAX_PIPE_PATH_LENGTH := by
    have plain : (0 : UInt8) ∉ copied (readBuffer.drop offset) MAX_PIPE_PATH_LENGTH :=
      (CString.ofBytes ((readBuffer.drop offset).take MAX_PIPE_PATH_LENGTH)).noNul
    calc
      copied (pipeField readBuffer offset) MAX_PIPE_PATH_LENGTH =
          (pipeField readBuffer offset).takeWhile (· != 0) := by
        rw [copied, List.take_of_length_le (Nat.le_of_eq filled)]
      _ = copied (readBuffer.drop offset) MAX_PIPE_PATH_LENGTH := by
        show (copied _ _ ++ List.replicate _ 0).takeWhile _ = _
        rw [List.takeWhile_append_of_pos (differs_of_plain plain)]
        cases MAX_PIPE_PATH_LENGTH - (copied (readBuffer.drop offset) MAX_PIPE_PATH_LENGTH).length with
        | zero => simp
        | succ more => simp
  have whole := strncpy_eq_pipeField sized (pipeField readBuffer offset) 0
  rw [List.drop_zero] at whole
  rw [whole]
  show copied (pipeField readBuffer offset) MAX_PIPE_PATH_LENGTH ++ List.replicate (MAX_PIPE_PATH_LENGTH -
    (copied (pipeField readBuffer offset) MAX_PIPE_PATH_LENGTH).length) 0 = _
  rw [name]
  rfl

theorem setup_eq_managerCopy (shared : Shared slots) (slot : Fin slots) (readBuffer : List UInt8)
    (sized : Sized (shared.sessions slot).reqPipePath (shared.sessions slot).respPipePath
      (shared.sessions slot).notifPipePath) :
    let request := connectionRequest readBuffer
    let req := (setupStep shared request slot .reqPath).1
    let resp := (setupStep req request slot .respPath).1
    (setupStep resp request slot .notifPath).1.sessions slot = managerCopy (shared.sessions slot) request := by
  simp only [setupStep, Shared.modify, Function.update_self, managerCopy, connectionRequest,
    strncpy_pipeField sized.1, strncpy_pipeField sized.2.1, strncpy_pipeField sized.2.2]

end Machine

/-- The names that `handle_session` hands to `open`. -/
def sessionPaths (session : SessionData) : CString × CString × CString :=
  (CString.ofBytes session.reqPipePath, CString.ofBytes session.respPipePath,
    CString.ofBytes session.notifPipePath)

section Requests
variable {req resp notif key s : CString} {message : List UInt8}

/-- A name goes through two copies. -/
theorem field_decoded {received : List UInt8} {offset : Nat} (starts : StartsAt 0 received offset s.bytes)
    (fits : s.bytes.length < MAX_PIPE_PATH_LENGTH) (cell field : PipePath) :
    CString.ofBytes (strncpy field (strncpy cell (received.drop offset) MAX_PIPE_PATH_LENGTH)
      MAX_PIPE_PATH_LENGTH) = s := by
  have first := strncpy_starts cell starts fits
  have second := strncpy_starts field first fits
  rw [List.drop_zero] at second
  exact ofBytes_of_startsAt second

theorem connect_decoded (sized : message.length = 1 + 3 * MAX_PIPE_PATH_LENGTH)
    (reqFits : req.bytes.length < MAX_PIPE_PATH_LENGTH) (respFits : resp.bytes.length < MAX_PIPE_PATH_LENGTH)
    (notifFits : notif.bytes.length < MAX_PIPE_PATH_LENGTH) (readBuffer : List UInt8)
    (cell : ConnectionRequest) (session : SessionData) :
    sessionPaths (managerCopy session
      (hostCopy cell (readInto readBuffer (connectMessage message req resp notif)))) = (req, resp, notif) := by
  obtain ⟨reqStarts, respStarts, notifStarts⟩ := connectMessage_starts sized reqFits respFits notifFits
  apply Prod.ext
  · exact field_decoded (reqStarts.append _) reqFits _ _
  · apply Prod.ext
    · exact field_decoded (respStarts.append _) respFits _ _
    · exact field_decoded (notifStarts.append _) notifFits _ _

theorem key_decoded (opcode : UInt8) (sized : message.length = 1 + MAX_STRING_SIZE)
    (fits : key.bytes.length < MAX_STRING_SIZE) (keyArray localBuffer : List UInt8) :
    decodedKey keyArray (readInto localBuffer (keyMessage opcode message key)) = key := by
  have starts : StartsAt 0 (keyMessage opcode message key) 1 key.bytes := keyMessage_starts sized fits
  rw [decodedKey_eq]
  exact CString.ext ((starts.append _).read key.noNul (by omega))

/-- Requests decode to what was encoded, whatever was in the arrays on the way: the
CONNECT message to its three names after both copies, the others to their key. -/
theorem requests_decoded {connect keyed : List UInt8}
    (connectSized : connect.length = 1 + 3 * MAX_PIPE_PATH_LENGTH)
    (keyedSized : keyed.length = 1 + MAX_STRING_SIZE)
    (reqFits : req.bytes.length < MAX_PIPE_PATH_LENGTH) (respFits : resp.bytes.length < MAX_PIPE_PATH_LENGTH)
    (notifFits : notif.bytes.length < MAX_PIPE_PATH_LENGTH) (keyFits : key.bytes.length < MAX_STRING_SIZE)
    (readBuffer localBuffer keyArray : List UInt8) (cell : ConnectionRequest) (session : SessionData) :
    (let received := readInto readBuffer (connectMessage connect req resp notif)
     opCode received = OP_CODE_CONNECT ∧
       sessionPaths (managerCopy session (hostCopy cell received)) = (req, resp, notif)) ∧
    (let received := readInto localBuffer (subscribeMessage keyed key)
     opCode received = OP_CODE_SUBSCRIBE ∧ decodedKey keyArray received = key) ∧
    (let received := readInto localBuffer (unsubscribeMessage keyed key)
     opCode received = OP_CODE_UNSUBSCRIBE ∧ decodedKey keyArray received = key) := by
  refine ⟨⟨?_, ?_⟩, ⟨?_, ?_⟩, ⟨?_, ?_⟩⟩
  · exact opCode_readInto readBuffer opCode_connectMessage (by decide)
  · exact connect_decoded connectSized reqFits respFits notifFits readBuffer cell session
  · exact opCode_readInto localBuffer opCode_keyMessage (by decide)
  · exact key_decoded OP_CODE_SUBSCRIBE keyedSized keyFits keyArray localBuffer
  · exact opCode_readInto localBuffer opCode_keyMessage (by decide)
  · exact key_decoded OP_CODE_UNSUBSCRIBE keyedSized keyFits keyArray localBuffer

/-- Names and a key of one byte, in arrays that were full of other bytes. -/
theorem requests_decoded_over_ones :
    let a := CString.ofBytes [97]
    let b := CString.ofBytes [98]
    let ones := fun size => List.replicate size (1 : UInt8)
    sessionPaths (managerCopy SessionData.zero (hostCopy ⟨ones 40, ones 40, ones 40⟩
      (readInto (ones 121) (connectMessage (ones 121) a b a)))) = (a, b, a) ∧
    decodedKey (ones 40) (readInto (ones 41) (unsubscribeMessage (ones 41) b)) = b := by
  intro a b ones
  have decoded := requests_decoded (List.length_replicate : (ones 121).length = 121)
    (List.length_replicate : (ones 41).length = 41) (show a.bytes.length < 40 by decide)
    (show b.bytes.length < 40 by decide) (show a.bytes.length < 40 by decide)
    (show b.bytes.length < 40 by decide) (ones 121) (ones 41) (ones 40) ⟨ones 40, ones 40, ones 40⟩
    SessionData.zero
  exact ⟨decoded.1.2, decoded.2.2.2⟩

end Requests

end IstKvs.Messages
