import IstKvs.JobNotices
import IstKvs.NotificationStream
import IstKvs.SubscriptionList
import IstKvs.ParserReadings

/-! What the jobs tell a client: the messages that the calls of `notify_clients` of all the
jobs put into the notification pipe of one session, and the pairs that the client prints.
The sessions may be others for each call: their clients come and go, and subscribe to keys
and to others no more, between two calls. -/

namespace IstKvs.JobSubscribers
open LabelledRuns ReadWriteLock AtomicCalls Footprint CommandLogic ChainedTable
open Kvs Operations JobParser ParserReadings StoreMemory TableLock RunJob JobDispatch JobMeaning
open JobThreads JobSerial JobNotices NotifyClients SubscriptionList Messages NotificationStream

/-! The keys and values of a job file fit into the fields of a message. -/

def Fits (s : CString) : Prop := s.bytes.length < MAX_STRING_SIZE

def FittingPair (pair : CString × CString) : Prop := Fits pair.1 ∧ Fits pair.2

section Files
variable {stack : Nat → UInt8} {stream rest : List UInt8} {room : Nat} {consumed : List UInt8}

theorem fits_ofBytes {item : List UInt8} (kept : Item item) : Fits (CString.ofBytes item) :=
  lt_of_le_of_lt (List.takeWhile_sublist _).length_le kept.1

theorem fitting_of_acceptedPair {pair : CString × CString} (accepted : AcceptedPair pair consumed) : FittingPair pair := by
  cases accepted with
  | pair item item' => exact ⟨fits_ofBytes item, fits_ofBytes item'⟩

theorem fitting_of_acceptedPairs {pairs : List (CString × CString)} (accepted : AcceptedPairs room pairs consumed) :
    ∀ pair ∈ pairs, FittingPair pair := by
  induction accepted with
  | last accepted _ => exact List.forall_mem_singleton.mpr (fitting_of_acceptedPair accepted)
  | more accepted _ ih => exact List.forall_mem_cons.mpr ⟨fitting_of_acceptedPair accepted, ih⟩

theorem fits_of_acceptedKeys {keys : List CString} (accepted : AcceptedKeys room keys consumed) : ∀ key ∈ keys, Fits key := by
  induction accepted with
  | last item _ => exact List.forall_mem_singleton.mpr (fits_ofBytes item)
  | more item _ ih => exact List.forall_mem_cons.mpr ⟨fits_ofBytes item, ih⟩

theorem fitting_of_next {command : JobCommand} (read : nextCommand stack stream = some (some command, rest)) :
    ∀ pair ∈ notices command, FittingPair pair := by
  have parsed : ∀ {α : Type} {make : α → JobCommand} {outcome : Option (Parsed α)},
      outcome.map (dispatched make) = some (some command, rest) →
        command = .invalid ∨ ∃ arguments, command = make arguments ∧ outcome = some (some arguments, rest) := by
    intro α make outcome ran
    obtain ⟨⟨result, last⟩, returned, made⟩ := Option.map_eq_some_iff.mp ran
    cases result with
    | none =>
      cases made
      exact .inl rfl
    | some arguments =>
      cases made
      exact .inr ⟨arguments, rfl, returned⟩
  have nothing : ∀ {other : JobCommand}, notices other = [] → command = other →
      ∀ pair ∈ notices command, FittingPair pair := by
    intro other none same pair member
    rw [same, none] at member
    cases member
  unfold nextCommand at read
  split at read
  next =>
    rcases parsed read with invalid | ⟨pairs, same, returned⟩
    · exact nothing rfl invalid
    · obtain ⟨consumed, _, accepted⟩ := (parseWrite_describes MAX_WRITE_SIZE).accepted_iff.mp returned
      cases accepted with
      | after later =>
        cases later with
        | after later => exact same ▸ fitting_of_acceptedPairs later
  next =>
    rcases parsed read with invalid | ⟨keys, same, _⟩
    · exact nothing rfl invalid
    · exact nothing rfl same
  next =>
    rcases parsed read with invalid | ⟨keys, same, returned⟩
    · exact nothing rfl invalid
    · obtain ⟨consumed, _, accepted⟩ := (parseReadDelete_describes MAX_WRITE_SIZE).accepted_iff.mp returned
      cases accepted with
      | after later =>
        rw [same]
        intro pair member
        obtain ⟨key, named, made⟩ := List.mem_map.mp member
        subst made
        exact ⟨fits_of_acceptedKeys later key named, (by decide : DELETED.bytes.length < MAX_STRING_SIZE)⟩
  next =>
    cases read
    exact nothing rfl rfl
  next =>
    rcases parsed read with invalid | ⟨delay, same, _⟩
    · exact nothing rfl invalid
    · exact nothing rfl same
  next =>
    cases read
    exact nothing rfl rfl
  next =>
    cases read
    exact nothing rfl rfl
  next =>
    cases read
    exact nothing rfl rfl
  next =>
    cases read
    exact nothing rfl rfl
  next => cases read

theorem fitting_of_commands {script : List JobCommand} (read : commands stack stream = some (script, rest)) :
    ∀ command ∈ script, ∀ pair ∈ notices command, FittingPair pair := by
  induction script generalizing stream with
  | nil => exact fun _ member => absurd member List.not_mem_nil
  | cons command script ih =>
    cases here : nextCommand stack stream with
    | none =>
      rw [commands_undefined here] at read
      cases read
    | some parsed =>
      obtain ⟨result, later⟩ := parsed
      cases result with
      | none =>
        rw [commands_end here] at read
        cases read
      | some first =>
        rw [commands_turn here] at read
        obtain ⟨⟨commands', last⟩, returned, made⟩ := Option.map_eq_some_iff.mp read
        cases made
        exact List.forall_mem_cons.mpr ⟨fitting_of_next here, ih returned⟩

theorem fitting_of_script (setting : Setting) (entry : Nat) :
    ∀ command ∈ script setting entry, ∀ pair ∈ notices command, FittingPair pair := by
  intro command member
  unfold script at member
  split at member
  next => cases member
  next files found =>
    split at member
    next =>
      cases read : commands (setting.stack entry) (setting.contents files.inPath) with
      | none =>
        rw [read] at member
        cases member
      | some result =>
        rw [read] at member
        exact fitting_of_commands read command member
    next => cases member

end Files

/-! The calls for the pairs at one session. -/

/-- A session that its client keeps, with no key twice in its list. -/
structure Listens (session : SessionData) : Prop where
  active : session.active = true
  opened : session.notifFd.isSome = true
  distinct : (subscriptions session).Nodup

/-- The client is subscribed to the key of the pair. -/
def wants (session : SessionData) (pair : CString × CString) : Bool := (subscriptions session).contains pair.1

section Pipe
variable {slots : Nat} {slot : Fin slots}

/-- What the calls write to the pipe of the slot, where each call finds the sessions of its
own number. A call is for a pair, and by the job of an entry. -/
def writesTo (sessions : Nat → Fin slots → SessionData) (slot : Fin slots) :
    Nat → List (Nat × (CString × CString)) → List (NotifyClients.Notification slots)
  | _, [] => []
  | call, told :: order =>
      (notifyClients (sessions call) told.2.1 told.2.2).filter (fun sent => sent.slot = slot) ++
        writesTo sessions slot (call + 1) order

/-- The calls that the client is to hear of. -/
def heard (sessions : Nat → Fin slots → SessionData) (slot : Fin slots) :
    Nat → List (Nat × (CString × CString)) → List (Nat × (CString × CString))
  | _, [] => []
  | call, told :: order =>
      (if wants (sessions call slot) told.2 then [told] else []) ++ heard sessions slot (call + 1) order

/-- A client that keeps its subscriptions hears of all the calls for their keys. -/
theorem heard_kept {sessions : Nat → Fin slots → SessionData} {want : CString × CString → Bool}
    (kept : ∀ call, wants (sessions call slot) = want) (call : Nat) (order : List (Nat × (CString × CString))) :
    heard sessions slot call order = order.filter fun step => want step.2 := by
  induction order generalizing call with
  | nil => rfl
  | cons told order ih =>
    rw [heard, ih, kept, List.filter_cons]
    split <;> rfl

/-- The bytes of the messages; `arrays` is what `message` holds before each of them is made. -/
def pipeBytes (arrays : Nat → List UInt8) : Nat → List (NotifyClients.Notification slots) → List UInt8
  | _, [] => []
  | count, sent :: later =>
      snprintfAt (snprintfAt (arrays count) 0 (MAX_STRING_SIZE + 1) sent.key) (MAX_STRING_SIZE + 1) (MAX_STRING_SIZE + 1)
          sent.value ++
        pipeBytes arrays (count + 1) later

/-- One call writes at most one message to the pipe. -/
theorem filter_notifyClients {sessions : Fin slots → SessionData} (listens : Listens (sessions slot)) {pair : CString × CString} (fits : FittingPair pair) :
    ((notifyClients sessions pair.1 pair.2).filter fun sent => sent.slot = slot).map (fun sent => (sent.key, sent.value)) =
      if wants (sessions slot) pair then [pair] else [] := by
  obtain ⟨fd, opened⟩ := Option.isSome_iff_exists.mp listens.opened
  have same : ∀ sent ∈ (notifyClients sessions pair.1 pair.2).filter fun sent => sent.slot = slot,
      (sent.key, sent.value) = pair := by
    intro sent member
    obtain ⟨_, _, _, key, value⟩ := mem_notifyClients.mp (List.mem_filter.mp member).1
    have key' : messageField pair.1 = pair.1 := CString.snprintf_of_fits (Nat.lt_succ_of_lt fits.1)
    have value' : messageField pair.2 = pair.2 := CString.snprintf_of_fits (Nat.lt_succ_of_lt fits.2)
    rw [key, value, key', value']
  have length : ((notifyClients sessions pair.1 pair.2).filter fun sent => sent.slot = slot).length =
      if wants (sessions slot) pair then 1 else 0 := by
    rw [← List.countP_eq_length_filter]
    calc
      _ = (subscriptions (sessions slot)).count pair.1 := sentTo_session listens.active opened
      _ = _ := by simp [wants, listens.distinct.count]
  have all := List.map_congr_left same
  rw [List.map_const', length] at all
  rw [all]
  split <;> rfl

variable {sessions : Nat → Fin slots → SessionData} {order : List (Nat × (CString × CString))}

theorem writesTo_pairs (listens : ∀ call, Listens (sessions call slot)) (call : Nat)
    (fits : ∀ step ∈ order, FittingPair step.2) :
    (writesTo sessions slot call order).map (fun sent => (sent.key, sent.value)) =
      (heard sessions slot call order).map Prod.snd := by
  induction order generalizing call with
  | nil => rfl
  | cons step order ih =>
    obtain ⟨here, later⟩ := List.forall_mem_cons.mp fits
    rw [writesTo, heard, List.map_append, List.map_append, ih (call + 1) later, filter_notifyClients (listens call) here]
    split <;> rfl

theorem heard_fits (call : Nat) (fits : ∀ step ∈ order, FittingPair step.2) :
    ∀ pair ∈ (heard sessions slot call order).map Prod.snd, FittingPair pair := by
  induction order generalizing call with
  | nil => exact fun _ member => absurd member List.not_mem_nil
  | cons step order ih =>
    obtain ⟨here, later⟩ := List.forall_mem_cons.mp fits
    intro pair member
    rw [heard, List.map_append, List.mem_append] at member
    rcases member with first | rest
    · split at first
      · exact List.mem_singleton.mp first ▸ here
      · cases first
    · exact ih (call + 1) later pair rest

/-- The bytes are those of whole messages. -/
theorem pipeBytes_written (arrays : Nat → List UInt8) (sized : ∀ count, (arrays count).length = MESSAGE_SIZE) (count : Nat)
    (writes : List (NotifyClients.Notification slots)) (fits : ∀ sent ∈ writes, FittingPair (sent.key, sent.value)) :
    ∃ sent : List NotificationStream.Notification, pipeBytes arrays count writes = NotificationStream.written sent ∧
      sent.map Notification.pair = writes.map fun sent => (sent.key, sent.value) := by
  induction writes generalizing count with
  | nil => exact ⟨[], rfl, rfl⟩
  | cons first writes ih =>
    obtain ⟨here, later⟩ := List.forall_mem_cons.mp fits
    obtain ⟨sent, bytes, pairs⟩ := ih (count + 1) later
    refine ⟨⟨first.key, first.value, arrays count, here.1, here.2, sized count⟩ :: sent, ?_, ?_⟩
    · exact congrArg _ bytes
    · exact congrArg _ pairs

/-- What is cut off after some bytes ends inside a message. -/
theorem take_written (sent : List NotificationStream.Notification) (count : Nat) :
    ∃ cut, (NotificationStream.written sent).take count =
        NotificationStream.written (sent.take (count / MESSAGE_SIZE)) ++ cut ∧
      cut.length < MESSAGE_SIZE := by
  induction sent generalizing count with
  | nil => exact ⟨[], by simp [NotificationStream.written], by decide⟩
  | cons first sent ih =>
    have size := first.length_encode
    have whole : NotificationStream.written (first :: sent) = first.encode ++ NotificationStream.written sent := rfl
    by_cases inside : count < MESSAGE_SIZE
    · refine ⟨first.encode.take count, ?_, ?_⟩
      · rw [Nat.div_eq_of_lt inside, whole, List.take_append_of_le_length (by omega)]
        rfl
      · rw [List.length_take]
        omega
    · obtain ⟨more, same⟩ := Nat.exists_eq_add_of_le (Nat.not_lt.mp inside)
      obtain ⟨cut, split, short⟩ := ih more
      have quotient : count / MESSAGE_SIZE = more / MESSAGE_SIZE + 1 := by
        rw [same]
        exact Nat.add_div_left more (by decide)
      refine ⟨cut, ?_, short⟩
      calc
        (NotificationStream.written (first :: sent)).take count
            = first.encode ++ (NotificationStream.written sent).take more := by
          rw [whole, same, ← size, List.take_length_add_append]
        _ = NotificationStream.written ((first :: sent).take (count / MESSAGE_SIZE)) ++ cut := by
          rw [split, quotient, ← List.append_assoc]
          rfl

/-- The client prints the pairs of the keys that it is subscribed to at their calls. -/
theorem prints_wanted (listens : ∀ call, Listens (sessions call slot)) (fits : ∀ step ∈ order, FittingPair step.2)
    {arrays : Nat → List UInt8} (sized : ∀ count, (arrays count).length = MESSAGE_SIZE) {buffer : List UInt8}
    (bufferSized : buffer.length = MESSAGE_SIZE) (key value : List UInt8) {schedule : List ReadOutcome} (steady : Steady schedule)
    (count : Nat) :
    notificationThread buffer key value ⟨(pipeBytes arrays 0 (writesTo sessions slot 0 order)).take count, schedule⟩ =
      some (((heard sessions slot 0 order).map Prod.snd).take (count / MESSAGE_SIZE)) := by
  have named := writesTo_pairs listens 0 fits
  have fits' : ∀ sent ∈ writesTo sessions slot 0 order, FittingPair (sent.key, sent.value) := by
    intro sent member
    have among : (sent.key, sent.value) ∈ (writesTo sessions slot 0 order).map fun sent => (sent.key, sent.value) :=
      List.mem_map_of_mem member
    rw [named] at among
    exact heard_fits 0 fits _ among
  obtain ⟨sent, bytes, same⟩ := pipeBytes_written arrays sized 0 _ fits'
  obtain ⟨cut, split, short⟩ := take_written sent count
  rw [bytes, split, notificationThread_received _ short bufferSized key value steady, List.map_take, same, named]

end Pipe

/-! Runs. -/

section Runs
variable {setting : Setting} {maxThreads : Nat} {Session : Type} [DecidableEq Session] [Fintype Session]
  {lookups : Session → List CString} {table : KeyTable} {trace : List JobThreads.Event}
  {state : AtomicCalls.State (Fin maxThreads ⊕ Session) LockedCall HashTable Stage Reply Shared Pc}
  {guard : AtomicCalls.State (Fin maxThreads ⊕ Session) LockedCall HashTable Stage Reply Shared Pc →
    AtomicCalls.Action (Fin maxThreads ⊕ Session) → Prop}
  {slots : Nat} {sessions : Nat → Fin slots → SessionData} {slot : Fin slots}

end Runs

/-- The client is subscribed to the key that the first job writes, until some call. -/
def subscribed (last : Nat) (call : Nat) (_slot : Fin 1) : SessionData :=
  { SessionData.zero with
    active := true, notifFd := some 5, subscribedKeys := fun _ => literal "a", numSubscribedKeys := if call < last then 1 else 0 }

theorem subscribed_listens (last : Nat) (slot : Fin 1) (call : Nat) : Listens (subscribed last call slot) where
  active := rfl
  opened := rfl
  distinct := by
    unfold subscriptions subscribed
    split <;> decide

end IstKvs.JobSubscribers
