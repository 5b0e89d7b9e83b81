import IstKvs.Messages

/-! The notification pipe from `notify_clients` to `notification_thread`. Messages have
one size, and `read_all` puts each of them together from what the reads return. -/

namespace IstKvs.NotificationStream
open Fields Messages

/-- The size of `message` and of the client's `buffer`. -/
def MESSAGE_SIZE : Nat := 2 * (MAX_STRING_SIZE + 1)

/-- A message of `notify_clients`, and what its array held before. -/
structure Notification where
  key : CString
  value : CString
  message : List UInt8
  keyFits : key.bytes.length < MAX_STRING_SIZE
  valueFits : value.bytes.length < MAX_STRING_SIZE
  sized : message.length = MESSAGE_SIZE

def Notification.encode (notification : Notification) : List UInt8 :=
  snprintfAt (snprintfAt notification.message 0 (MAX_STRING_SIZE + 1) notification.key)
    (MAX_STRING_SIZE + 1) (MAX_STRING_SIZE + 1) notification.value

/-- What a call of `read` comes to: it fails with EINTR or otherwise, or it returns at
most `limit + 1` bytes. -/
inductive ReadOutcome where
  | interrupted
  | failed
  | atMost (limit : Nat)
  deriving DecidableEq

/-- The bytes that are still to come before the end of the file, and the outcomes of
the next reads. The reads after those return as much as they can. -/
structure Pipe where
  stream : List UInt8
  schedule : List ReadOutcome

inductive ReadResult where
  | bytes (data : List UInt8)
  | interrupted
  | failed

def Pipe.read (pipe : Pipe) (count : Nat) : ReadResult × Pipe :=
  match pipe.schedule with
  | [] => (.bytes (pipe.stream.take count), ⟨pipe.stream.drop count, []⟩)
  | .interrupted :: schedule => (.interrupted, ⟨pipe.stream, schedule⟩)
  | .failed :: schedule => (.failed, ⟨pipe.stream, schedule⟩)
  | .atMost limit :: schedule =>
      (.bytes (pipe.stream.take (min count (limit + 1))),
        ⟨pipe.stream.drop (min count (limit + 1)), schedule⟩)

/-- The result of `read_all`, `*intr` after it, the buffer and the pipe. -/
structure ReadAll where
  result : Int
  intr : Option Bool
  buffer : List UInt8
  pipe : Pipe

/-- The loop of `read_all`, with a bound on its turns. -/
def readLoop (size : Nat) : Nat → Option Bool → List UInt8 → Nat → Pipe → Option ReadAll
  | 0, _, _, _, _ => none
  | turns + 1, intr, buffer, bytesRead, pipe =>
      if bytesRead < size then
        match pipe.read (size - bytesRead) with
        | (.interrupted, pipe) =>
            if intr.isSome then
              if bytesRead = 0 then some ⟨-1, some true, buffer, pipe⟩
              else readLoop size turns (some true) buffer bytesRead pipe
            else readLoop size turns intr buffer bytesRead pipe
        | (.failed, pipe) => some ⟨-1, intr, buffer, pipe⟩
        | (.bytes [], pipe) => some ⟨0, intr, buffer, pipe⟩
        | (.bytes data, pipe) =>
            readLoop size turns intr (splice buffer bytesRead data) (bytesRead + data.length) pipe
      else some ⟨1, intr, buffer, pipe⟩

/-- `read_all`; `intr` is `none` where the caller passes `NULL`. Each turn takes an
outcome of the schedule or reads a byte. -/
def readAll (intr : Option Bool) (buffer : List UInt8) (size : Nat) (pipe : Pipe) : Option ReadAll :=
  if intr = some true then some ⟨-1, intr, buffer, pipe⟩
  else readLoop size (pipe.schedule.length + size + 1) intr buffer 0 pipe

/-- The loop of `notification_thread`: the pairs it prints until a read fails, with
its three arrays and a bound on its turns. -/
def notificationLoop : Nat → List UInt8 → List UInt8 → List UInt8 → Pipe →
    Option (List (CString × CString))
  | 0, _, _, _, _ => none
  | turns + 1, buffer, key, value, pipe => do
      let read ← readAll none buffer MESSAGE_SIZE pipe
      if read.result ≤ 0 then some []
      else
        let key := terminatedCopy key read.buffer MAX_STRING_SIZE
        let value := terminatedCopy value (read.buffer.drop (MAX_STRING_SIZE + 1)) MAX_STRING_SIZE
        let later ← notificationLoop turns read.buffer key value read.pipe
        some ((CString.ofBytes key, CString.ofBytes value) :: later)

def notificationThread (buffer key value : List UInt8) (pipe : Pipe) :
    Option (List (CString × CString)) :=
  notificationLoop (pipe.stream.length + 1) buffer key value pipe

/-! One message, whatever its array held. -/

namespace Notification
variable (notification : Notification)

theorem length_first :
    (snprintfAt notification.message 0 (MAX_STRING_SIZE + 1) notification.key).length = MESSAGE_SIZE := by
  have fits := notification.keyFits
  rw [length_snprintfAt (by omega) (by rw [notification.sized]; decide), notification.sized]

theorem length_encode : notification.encode.length = MESSAGE_SIZE := by
  have fits := notification.valueFits
  unfold encode
  rw [length_snprintfAt (by omega) (by rw [notification.length_first]; decide), notification.length_first]

theorem key_starts : StartsAt 0 notification.encode 0 notification.key.bytes := by
  have fits := notification.keyFits
  have first := snprintfAt_starts (Nat.zero_le notification.message.length)
    (show notification.key.bytes.length < MAX_STRING_SIZE + 1 by omega)
  exact snprintfAt_keeps first (by omega) (by rw [notification.length_first]; decide)

theorem value_starts : StartsAt 0 notification.encode (MAX_STRING_SIZE + 1) notification.value.bytes := by
  have fits := notification.valueFits
  exact snprintfAt_starts (by rw [notification.length_first]; decide) (by omega)

end Notification

/-! `read_all` on a pipe whose reads fail with EINTR only. -/

def Steady (schedule : List ReadOutcome) : Prop := .failed ∉ schedule

section Read
variable {size : Nat} {pipe : Pipe}

theorem read_of_steady (steady : Steady pipe.schedule) {count : Nat} (positive : 0 < count) :
    (∃ schedule, pipe.read count = (.interrupted, ⟨pipe.stream, schedule⟩) ∧ Steady schedule ∧
      schedule.length < pipe.schedule.length) ∨
    ∃ data rest schedule, pipe.read count = (.bytes data, ⟨rest, schedule⟩) ∧ pipe.stream = data ++ rest ∧
      data.length ≤ count ∧ (data = [] → rest = []) ∧ Steady schedule ∧
      schedule.length ≤ pipe.schedule.length := by
  have split : ∀ part, 0 < part → pipe.stream.take part = [] → pipe.stream.drop part = [] := by
    intro part some nothing
    rcases List.take_eq_nil_iff.mp nothing with zero | ended
    · omega
    · rw [ended, List.drop_nil]
  obtain ⟨stream, schedule⟩ := pipe
  cases schedule with
  | nil =>
    exact .inr ⟨stream.take count, stream.drop count, [], rfl, (List.take_append_drop count stream).symm,
      List.length_take_le count stream, split count positive, steady, le_refl _⟩
  | cons outcome schedule =>
    have later : Steady schedule := fun member => steady (List.mem_cons_of_mem _ member)
    cases outcome with
    | interrupted => exact .inl ⟨schedule, rfl, later, Nat.lt_succ_self _⟩
    | failed => exact absurd List.mem_cons_self steady
    | atMost limit =>
      have part : 0 < min count (limit + 1) := by omega
      refine .inr ⟨stream.take (min count (limit + 1)), stream.drop (min count (limit + 1)), schedule, rfl,
        (List.take_append_drop _ stream).symm, ?_, split _ part, later, Nat.le_succ _⟩
      exact (List.length_take_le _ stream).trans (min_le_left _ _)

theorem split_front {data rest front back : List UInt8} (same : data ++ rest = front ++ back)
    (bound : data.length ≤ front.length) : ∃ missing, front = data ++ missing ∧ rest = missing ++ back := by
  rcases List.append_eq_append_iff.mp same with ⟨missing, longer, remains⟩ | ⟨extra, shorter, remains⟩
  · exact ⟨missing, longer, remains⟩
  · have nothing : extra = [] := by
      have lengths := congrArg List.length shorter
      rw [List.length_append] at lengths
      exact List.eq_nil_of_length_eq_zero (by omega)
    rw [nothing, List.append_nil] at shorter
    rw [nothing, List.nil_append] at remains
    exact ⟨[], by rw [shorter, List.append_nil], by rw [remains, List.nil_append]⟩

/-- A whole message in the stream is put together in the buffer. -/
theorem readLoop_complete {turns : Nat} (buffer : List UInt8) (bytesRead : Nat) (pipe : Pipe)
    (front back : List UInt8) (steady : Steady pipe.schedule) (stream : pipe.stream = front ++ back)
    (sized : buffer.length = size) (missing : bytesRead + front.length = size)
    (enough : pipe.schedule.length + front.length < turns) :
    ∃ schedule, Steady schedule ∧ readLoop size turns none buffer bytesRead pipe =
      some ⟨1, none, splice buffer bytesRead front, ⟨back, schedule⟩⟩ := by
  induction turns generalizing buffer bytesRead pipe front with
  | zero => omega
  | succ turns ih =>
    unfold readLoop
    by_cases more : bytesRead < size
    · rw [if_pos more]
      rcases read_of_steady steady (show 0 < size - bytesRead by omega) with
        ⟨schedule, read, later, shorter⟩ | ⟨data, rest, schedule, read, whole, bound, ended, later, kept⟩
      · rw [read]
        exact ih buffer bytesRead ⟨pipe.stream, schedule⟩ front later stream sized missing
          (by show schedule.length + front.length < turns; omega)
      · rw [stream] at whole
        obtain ⟨missed, longer, remains⟩ := split_front whole.symm (by omega)
        have lengths := congrArg List.length longer
        rw [List.length_append] at lengths
        cases data with
        | nil =>
          -- the end of the file is not reached while bytes of the message are missing
          have nothing := ended rfl
          rw [remains] at nothing
          rw [List.nil_append] at longer
          rw [longer, (List.append_eq_nil_iff.mp nothing).1] at missing
          simp only [List.length_nil] at missing
          omega
        | cons first tail =>
          rw [read, longer, ← splice_splice (by omega)]
          apply ih (splice buffer bytesRead (first :: tail)) (bytesRead + (first :: tail).length) ⟨rest, schedule⟩
            missed later remains
          · rw [length_splice (by omega), sized]
          · omega
          · show schedule.length + missed.length < turns
            rw [List.length_cons] at lengths
            omega
    · have nothing : front = [] := List.eq_nil_of_length_eq_zero (by omega)
      rw [if_neg more, nothing, splice_nil]
      rw [nothing, List.nil_append] at stream
      exact ⟨pipe.schedule, steady, by rw [← stream]⟩

/-- A stream that ends before the message is complete ends the call with 0. -/
theorem readLoop_short {turns : Nat} (buffer : List UInt8) (bytesRead : Nat) (pipe : Pipe)
    (steady : Steady pipe.schedule) (short : bytesRead + pipe.stream.length < size)
    (enough : pipe.schedule.length + pipe.stream.length < turns) :
    ∃ read, readLoop size turns none buffer bytesRead pipe = some read ∧ read.result = 0 := by
  induction turns generalizing buffer bytesRead pipe with
  | zero => omega
  | succ turns ih =>
    unfold readLoop
    rw [if_pos (by omega)]
    rcases read_of_steady steady (show 0 < size - bytesRead by omega) with
      ⟨schedule, read, later, shorter⟩ | ⟨data, rest, schedule, read, whole, bound, ended, later, kept⟩
    · rw [read]
      exact ih buffer bytesRead ⟨pipe.stream, schedule⟩ later short
        (by show schedule.length + pipe.stream.length < turns; omega)
    · have lengths := congrArg List.length whole
      rw [List.length_append] at lengths
      rw [read]
      cases data with
      | nil => exact ⟨_, rfl, rfl⟩
      | cons first tail =>
        rw [List.length_cons] at lengths
        apply ih (splice buffer bytesRead (first :: tail)) (bytesRead + (first :: tail).length) ⟨rest, schedule⟩
          later
        · show bytesRead + (tail.length + 1) + rest.length < size
          omega
        · show schedule.length + rest.length < turns
          omega

theorem readAll_complete {buffer front back : List UInt8} {schedule : List ReadOutcome}
    (steady : Steady schedule) (sized : buffer.length = size) (whole : front.length = size) :
    ∃ later, Steady later ∧ readAll none buffer size ⟨front ++ back, schedule⟩ =
      some ⟨1, none, front, ⟨back, later⟩⟩ := by
  obtain ⟨later, kept, read⟩ := readLoop_complete buffer 0 ⟨front ++ back, schedule⟩ front back steady rfl sized
    (by omega) (show schedule.length + front.length < schedule.length + size + 1 by omega)
  have filled : splice buffer 0 front = front := by
    unfold splice
    rw [List.take_zero, List.nil_append, List.drop_of_length_le (by omega), List.append_nil]
  rw [filled] at read
  exact ⟨later, kept, read⟩

theorem readAll_short {buffer stream : List UInt8} {schedule : List ReadOutcome} (steady : Steady schedule)
    (short : stream.length < size) :
    ∃ read, readAll none buffer size ⟨stream, schedule⟩ = some read ∧ read.result = 0 :=
  readLoop_short buffer 0 ⟨stream, schedule⟩ steady (show 0 + stream.length < size by omega)
    (show schedule.length + stream.length < schedule.length + size + 1 by omega)

end Read

/-! The loop over the messages. -/

/-- The bytes that the notifications put into the pipe. -/
def written (sent : List Notification) : List UInt8 := sent.flatMap Notification.encode

def Notification.pair (notification : Notification) : CString × CString :=
  (notification.key, notification.value)

theorem length_le_written (sent : List Notification) : sent.length ≤ (written sent).length := by
  induction sent with
  | nil => exact le_refl 0
  | cons first sent ih =>
    have size := first.length_encode
    show sent.length + 1 ≤ (first.encode ++ written sent).length
    rw [List.length_append, size, MESSAGE_SIZE]
    omega

namespace Notification
variable (notification : Notification)

theorem key_decoded (array : List UInt8) :
    CString.ofBytes (terminatedCopy array notification.encode MAX_STRING_SIZE) = notification.key := by
  have fits := notification.keyFits
  rw [ofBytes_terminatedCopy]
  exact CString.ext (notification.key_starts.read notification.key.noNul (by omega))

theorem value_decoded (array : List UInt8) :
    CString.ofBytes (terminatedCopy array (notification.encode.drop (MAX_STRING_SIZE + 1)) MAX_STRING_SIZE) =
      notification.value := by
  have fits := notification.valueFits
  rw [ofBytes_terminatedCopy]
  exact CString.ext (notification.value_starts.read notification.value.noNul (by omega))

end Notification

theorem notificationLoop_received (sent : List Notification) {cut : List UInt8}
    (short : cut.length < MESSAGE_SIZE) {turns : Nat} (enough : sent.length < turns)
    {buffer : List UInt8} (sized : buffer.length = MESSAGE_SIZE) (key value : List UInt8)
    {schedule : List ReadOutcome} (steady : Steady schedule) :
    notificationLoop turns buffer key value ⟨written sent ++ cut, schedule⟩ =
      some (sent.map Notification.pair) := by
  induction sent generalizing turns buffer key value schedule with
  | nil =>
    cases turns with
    | zero => exact absurd enough (Nat.not_lt_zero _)
    | succ turns =>
      obtain ⟨read, returned, ended⟩ : ∃ read, readAll none buffer MESSAGE_SIZE ⟨cut, schedule⟩ = some read ∧
        read.result = 0 := readAll_short steady short
      show (readAll none buffer MESSAGE_SIZE ⟨cut, schedule⟩).bind _ = _
      rw [returned, Option.bind_some, ended]
      rfl
  | cons first sent ih =>
    cases turns with
    | zero => exact absurd enough (Nat.not_lt_zero _)
    | succ turns =>
      have stream : written (first :: sent) ++ cut = first.encode ++ (written sent ++ cut) := by
        show first.encode ++ written sent ++ cut = _
        rw [List.append_assoc]
      obtain ⟨later, kept, returned⟩ : ∃ later, Steady later ∧ readAll none buffer MESSAGE_SIZE
          ⟨first.encode ++ (written sent ++ cut), schedule⟩ =
            some ⟨1, none, first.encode, ⟨written sent ++ cut, later⟩⟩ :=
        readAll_complete steady sized first.length_encode
      rw [stream]
      show (readAll none buffer MESSAGE_SIZE _).bind _ = _
      rw [returned, Option.bind_some]
      show (notificationLoop turns first.encode _ _ ⟨written sent ++ cut, later⟩).bind _ = _
      rw [ih (Nat.lt_of_succ_lt_succ enough) first.length_encode _ _ kept, Option.bind_some, first.key_decoded,
        first.value_decoded]
      rfl

theorem notificationThread_received (sent : List Notification) {cut : List UInt8}
    (short : cut.length < MESSAGE_SIZE) {buffer : List UInt8} (sized : buffer.length = MESSAGE_SIZE)
    (key value : List UInt8) {schedule : List ReadOutcome} (steady : Steady schedule) :
    notificationThread buffer key value ⟨written sent ++ cut, schedule⟩ =
      some (sent.map Notification.pair) := by
  apply notificationLoop_received sent short ?_ sized key value steady
  show sent.length < (written sent ++ cut).length + 1
  have more := length_le_written sent
  rw [List.length_append]
  omega

/-- The client prints the pairs that were sent, in order, for every way the reads split
the stream or are interrupted, and nothing for a message that is cut off. -/
theorem notifications_received (sent : List Notification) {cut : List UInt8}
    (short : cut.length < MESSAGE_SIZE) {buffer : List UInt8} (sized : buffer.length = MESSAGE_SIZE)
    (key value : List UInt8) {schedule : List ReadOutcome} (steady : Steady schedule) :
    notificationThread buffer key value ⟨written sent ++ cut, schedule⟩ =
      some (sent.map Notification.pair) :=
  notificationThread_received sent short sized key value steady

theorem short_fits {bytes : List UInt8} (short : bytes.length ≤ 2) :
    (CString.ofBytes bytes).bytes.length < MAX_STRING_SIZE :=
  calc
    _ ≤ bytes.length := (List.takeWhile_sublist _).length_le
    _ < MAX_STRING_SIZE := lt_of_le_of_lt short (by decide)

def sample (byte : UInt8) : Notification where
  key := CString.ofBytes [byte]
  value := CString.ofBytes [byte, byte]
  message := List.replicate MESSAGE_SIZE 1
  keyFits := short_fits (Nat.le_succ 1)
  valueFits := short_fits (Nat.le_refl 2)
  sized := List.length_replicate

/-- Two messages and the start of a third one, read in pieces between interruptions. -/
theorem notifications_received_in_pieces :
    notificationThread (List.replicate MESSAGE_SIZE 0) [] []
      ⟨written [sample 97, sample 98] ++ (sample 99).encode.take 50,
        [.interrupted, .atMost 2, .interrupted, .atMost 100, .atMost 0]⟩ =
      some [(CString.ofBytes [97], CString.ofBytes [97, 97]),
        (CString.ofBytes [98], CString.ofBytes [98, 98])] :=
  notifications_received [sample 97, sample 98] (by decide) List.length_replicate [] [] (by simp [Steady])

end IstKvs.NotificationStream
