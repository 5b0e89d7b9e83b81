import IstKvs.FiniteMap
import IstKvs.NotifyClients

/-! Job threads in `run_job`. A WRITE or DELETE updates the store in one step, under
the table lock, and then calls `notify_clients` once for each of its pairs, each
call one step. The sessions are changed by others, in any way. -/

namespace IstKvs.JobNotifications
open LabelledRuns Kvs Operations FiniteMap NotifyClients

variable {slots jobs : Nat}

/-- A string as the parser leaves it in `char[MAX_STRING_SIZE]`. -/
structure Field where
  text : CString
  fits : text.bytes.length < MAX_STRING_SIZE
  deriving DecidableEq

def DELETED : Field := ⟨CString.ofBytes [68, 69, 76, 69, 84, 69, 68], by decide⟩

inductive Command where
  | write (pairs : List (Field × Field))
  | delete (keys : List Field)

/-- The call on the store, and the pairs left to notify: none unless it returned 0. -/
def Command.execute (kvsTable : KvsTable) : Command → Option (KvsTable × List (Field × Field))
  | .write pairs =>
      (kvsWrite kvsTable (pairs.map fun pair => (pair.1.text, pair.2.text))).map fun (next, result) =>
        (next, if result.code ≠ 0 then [] else pairs)
  | .delete keys =>
      (kvsDelete kvsTable (keys.map Field.text)).map fun (next, result) =>
        (next, if result.code ≠ 0 then [] else keys.map fun key => (key, DELETED))

def named (pairs : List (Field × Field)) : List CString := pairs.map fun pair => pair.1.text

/-- `pending` holds the pairs each thread has still to notify. `latest` is history: the
thread whose command named the key last. -/
structure State (slots jobs : Nat) where
  kvsTable : KvsTable
  sessions : Fin slots → SessionData
  pending : Fin jobs → List (Field × Field)
  latest : CString → Option (Fin jobs)

inductive Action (slots jobs : Nat) where
  | command (thread : Fin jobs) (command : Command)
  | notify (thread : Fin jobs)
  | sessions (next : Fin slots → SessionData)

inductive Event (slots : Nat) where
  | executed (keys : List CString)
  | sent (notification : Notification slots)
  deriving DecidableEq

def step (state : State slots jobs) : Action slots jobs → Option (State slots jobs)
  | .command thread command =>
      if state.pending thread = [] then
        (command.execute state.kvsTable).map fun (next, pairs) =>
          { state with
            kvsTable := next
            pending := Function.update state.pending thread pairs
            latest := fun key => if key ∈ named pairs then some thread else state.latest key }
      else none
  | .notify thread =>
      match state.pending thread with
      | [] => none
      | _ :: rest => some { state with pending := Function.update state.pending thread rest }
  | .sessions next => some { state with sessions := next }

def observe (state : State slots jobs) : Action slots jobs → List (Event slots)
  | .command _ command =>
      match command.execute state.kvsTable with
      | some (_, pairs) => [.executed (named pairs)]
      | none => []
  | .notify thread =>
      match state.pending thread with
      | [] => []
      | (key, value) :: _ => (notifyClients state.sessions key.text value.text).map .sent
  | .sessions _ => []

def machine (slots jobs : Nat) : Machine (State slots jobs) (Action slots jobs) (Event slots) where
  step := step
  observe := observe

def initial (table : KeyTable) (sessions : Fin slots → SessionData) (jobs : Nat) : State slots jobs where
  kvsTable := some (KeyTable.raw table)
  sessions := sessions
  pending := fun _ => []
  latest := fun _ => none

/-! What the claim speaks of. -/

/-- An active session with an open notification pipe and the key in its list. -/
def Listening (session : SessionData) (key : CString) : Prop :=
  session.active = true ∧ session.Subscribed key ∧ session.notifFd.isSome = true

instance (session : SessionData) (key : CString) : Decidable (Listening session key) :=
  inferInstanceAs (Decidable (_ ∧ _ ∧ _))

/-- The session in the slot stays subscribed to the key. -/
def Continuous (slot : Fin slots) (key : CString) (_ : State slots jobs) : Action slots jobs → Prop
  | .sessions next => Listening (next slot) key
  | _ => True

instance (slot : Fin slots) (key : CString) (state : State slots jobs) (action : Action slots jobs) :
    Decidable (Continuous slot key state action) :=
  match action with
  | .sessions next => inferInstanceAs (Decidable (Listening (next slot) key))
  | .command _ _ | .notify _ => isTrue trivial

/-- The value of the last of the pairs that has the key. -/
def lastFor (key : CString) : List (Field × Field) → Option CString
  | [] => none
  | (own, value) :: rest =>
      (lastFor key rest).or (if own.text = key then some value.text else none)

/-- A notification for the key goes out only while the thread that named the key
last has still one to send, its own last one included. -/
def InOrder (key : CString) (state : State slots jobs) : Action slots jobs → Prop
  | .notify thread => (∃ pair ∈ (state.pending thread).head?, pair.1.text = key) →
      ∃ writer ∈ state.latest key, key ∈ named (state.pending writer)
  | _ => True

instance (key : CString) (state : State slots jobs) (action : Action slots jobs) :
    Decidable (InOrder key state action) :=
  match action with
  | .notify thread => inferInstanceAs (Decidable ((∃ pair ∈ (state.pending thread).head?, _) →
      ∃ writer ∈ state.latest key, key ∈ named (state.pending writer)))
  | .command _ _ | .sessions _ => isTrue trivial

/-- The value that an event sends to the slot for the key. -/
def valueSent (slot : Fin slots) (key : CString) : Event slots → Option CString
  | .sent notification =>
      if notification.slot = slot ∧ notification.key = key then some notification.value else none
  | .executed _ => none

def lastSent (trace : List (Event slots)) (slot : Fin slots) (key : CString) : Option CString :=
  (trace.filterMap (valueSent slot key)).getLast?

/-- What a look at the store finds for the key; the inner `none` is `NULL`. -/
def held (kvsTable : KvsTable) (key : CString) : Option (Option CString) :=
  kvsTable.bind fun ht => readPair ht key

/-- What a notification says of a key: its value, or that it is absent. -/
def shown (found : Option CString) : CString := found.getD DELETED.text

/-! One command. -/

section Command
variable {key : CString} {pairs : List (Field × Field)}

theorem lastFor_eq_none_iff : lastFor key pairs = none ↔ key ∉ named pairs := by
  induction pairs with
  | nil => simp [lastFor, named]
  | cons pair rest ih =>
    obtain ⟨own, value⟩ := pair
    unfold named at ih ⊢
    by_cases same : own.text = key
    · simp [lastFor, same]
    · simp [lastFor, same, ih, Ne.symm same]

theorem exists_lastFor (member : key ∈ named pairs) : ∃ value, lastFor key pairs = some value := by
  rw [← Option.ne_none_iff_exists']
  exact fun none => lastFor_eq_none_iff.mp none member

theorem specWrite_apply (store : Store) (pairs : List (Field × Field)) (key : CString) :
    specWrite store (pairs.map fun pair => (pair.1.text, pair.2.text)) key =
      (lastFor key pairs).or (store key) := by
  induction pairs generalizing store with
  | nil => rfl
  | cons pair rest ih =>
    obtain ⟨own, value⟩ := pair
    simp only [List.map_cons, specWrite, List.foldl_cons, lastFor]
    have later := ih (Function.update store own.text (some value.text))
    simp only [specWrite] at later
    rw [later, Option.or_assoc]
    by_cases same : own.text = key
    · subst same
      simp
    · simp [same, Function.update_of_ne (Ne.symm same)]

theorem lastFor_deleted (keys : List Field) (key : CString) :
    lastFor key (keys.map fun own => (own, DELETED)) =
      if key ∈ keys.map Field.text then some DELETED.text else none := by
  induction keys with
  | nil => rfl
  | cons own keys ih =>
    simp only [List.map_cons, lastFor, ih, List.mem_cons]
    by_cases same : own.text = key
    · simp [same]
      split <;> rfl
    · simp [same, Ne.symm same]

theorem hashed_of_cell {index : Fin TABLE_SIZE} (inside : cell (hash key) = some index) : Hashed key :=
  ⟨index, inside⟩

theorem writePairs_hashed {ht last : HashTable} {printed : List UInt8} {pairs : List (CString × CString)}
    (ran : writePairs ht pairs = some (last, printed)) : ∀ key ∈ pairs.map Prod.fst, Hashed key := by
  induction pairs generalizing ht last printed with
  | nil => exact fun _ member => nomatch member
  | cons pair pairs ih =>
    obtain ⟨own, value⟩ := pair
    simp only [writePairs, Option.bind_eq_bind, Option.bind_eq_some_iff] at ran
    obtain ⟨⟨next, status⟩, written, ⟨final, lines⟩, rest, _⟩ := ran
    obtain ⟨index, inside, _⟩ := Option.map_eq_some_iff.mp written
    intro key member
    rcases List.mem_cons.mp member with here | later
    · exact here ▸ hashed_of_cell inside
    · exact ih rest key later

theorem deletePairs_hashed {ht last : HashTable} {aux opened : Bool} {lines : List UInt8}
    {keys : List CString} (ran : deletePairs ht aux keys = some (last, opened, lines)) :
    ∀ key ∈ keys, Hashed key := by
  induction keys generalizing ht aux last opened lines with
  | nil => exact fun _ member => nomatch member
  | cons own keys ih =>
    simp only [deletePairs, Option.bind_eq_bind, Option.bind_eq_some_iff] at ran
    obtain ⟨⟨next, status⟩, deleted, rest⟩ := ran
    obtain ⟨index, inside, _⟩ := Option.map_eq_some_iff.mp deleted
    intro key member
    rcases List.mem_cons.mp member with here | later
    · exact here ▸ hashed_of_cell inside
    · split at rest
      · obtain ⟨_, rest, _⟩ := Option.bind_eq_some_iff.mp rest
        exact ih rest key later
      · exact ih rest key later

theorem write_executes {table : KeyTable} {own : List (Field × Field)} {next : KvsTable}
    (ran : (Command.write own).execute (some (KeyTable.raw table)) = some (next, pairs)) :
    pairs = own ∧ (∀ key ∈ named own, Hashed key) ∧ ∃ after : KeyTable, next = some (KeyTable.raw after) ∧
      after.contents = specWrite table.contents (own.map fun pair => (pair.1.text, pair.2.text)) := by
  simp only [Command.execute, kvsWrite, Option.map_map, Option.map_eq_some_iff] at ran
  obtain ⟨⟨last, printed⟩, ran, made⟩ := ran
  cases made
  have hashed := writePairs_hashed ran
  obtain ⟨after, written, contents⟩ := writePairs_raw table _ hashed
  rw [written] at ran
  cases ran
  refine ⟨rfl, fun key member => hashed key ?_, after, rfl, contents⟩
  rw [List.map_map]
  exact member

theorem delete_executes {table : KeyTable} {keys : List Field} {next : KvsTable}
    (ran : (Command.delete keys).execute (some (KeyTable.raw table)) = some (next, pairs)) :
    pairs = keys.map (fun key => (key, DELETED)) ∧ (∀ key ∈ keys.map Field.text, Hashed key) ∧
      ∃ after : KeyTable, next = some (KeyTable.raw after) ∧
        after.contents = specDelete table.contents (keys.map Field.text) := by
  simp only [Command.execute, kvsDelete, Option.map_map, Option.map_eq_some_iff] at ran
  obtain ⟨⟨last, aux, lines⟩, ran, made⟩ := ran
  cases made
  have hashed := deletePairs_hashed ran
  obtain ⟨after, deleted, contents⟩ := deletePairs_raw table false _ hashed
  rw [deleted] at ran
  cases ran
  exact ⟨rfl, hashed, after, rfl, contents⟩

/-- A command that runs leaves each key it names as its last notification for the
key will say, and leaves all other keys as they were. -/
theorem execute_effect (key : CString) {table : KeyTable} {command : Command} {next : KvsTable}
    (ran : command.execute (some (KeyTable.raw table)) = some (next, pairs)) :
    ∃ after : KeyTable, next = some (KeyTable.raw after) ∧
      (∀ value, lastFor key pairs = some value → Hashed key ∧ shown (after.contents key) = value) ∧
      (lastFor key pairs = none → after.contents key = table.contents key) := by
  cases command with
  | write own =>
    obtain ⟨same, hashed, after, made, contents⟩ := write_executes ran
    subst same
    refine ⟨after, made, fun value final => ⟨hashed key ?_, ?_⟩, fun none => ?_⟩
    · by_contra absent
      rw [lastFor_eq_none_iff.mpr absent] at final
      cases final
    · rw [contents, specWrite_apply, final]
      rfl
    · rw [contents, specWrite_apply, none]
      rfl
  | delete keys =>
    obtain ⟨same, hashed, after, made, contents⟩ := delete_executes ran
    subst same
    rw [lastFor_deleted]
    refine ⟨after, made, ?_⟩
    rw [contents, specDelete_apply]
    by_cases member : key ∈ keys.map Field.text
    · rw [if_pos member, if_pos member]
      exact ⟨fun value final => ⟨hashed key member, Option.some.inj final⟩, nofun⟩
    · rw [if_neg member, if_neg member]
      exact ⟨nofun, fun _ => rfl⟩

end Command

/-! One notification. -/

section Notify
variable {slot : Fin slots} {key : CString} {sessions : Fin slots → SessionData} {trace later : List (Event slots)}

theorem messageField_text (field : Field) : messageField field.text = field.text := by
  have fits : field.text.bytes.length < MAX_STRING_SIZE := field.fits
  exact CString.snprintf_of_fits (by omega)

theorem lastSent_append : lastSent (trace ++ later) slot key = (lastSent later slot key).or (lastSent trace slot key) := by
  unfold lastSent
  rw [List.filterMap_append, List.getLast?_append]

theorem lastSent_executed (keys : List CString) :
    lastSent (trace ++ [.executed keys]) slot key = lastSent trace slot key := by
  rw [lastSent_append]
  rfl

theorem lastSent_other {own value : Field} (other : own.text ≠ key) :
    lastSent (trace ++ (notifyClients sessions own.text value.text).map .sent) slot key =
      lastSent trace slot key := by
  have silent : ∀ event ∈ (notifyClients sessions own.text value.text).map Event.sent,
      valueSent slot key event = none := by
    intro event member
    obtain ⟨notification, sent, made⟩ := List.mem_map.mp member
    obtain ⟨_, _, _, sameKey, _⟩ := mem_notifyClients.mp sent
    subst made
    simp [valueSent, sameKey, messageField_text, other]
  rw [lastSent_append]
  unfold lastSent
  rw [List.filterMap_eq_nil_iff.mpr silent]
  rfl

theorem lastSent_own {own value : Field} (same : own.text = key) (listening : Listening (sessions slot) key) :
    lastSent (trace ++ (notifyClients sessions own.text value.text).map .sent) slot key =
      some value.text := by
  subst same
  obtain ⟨active, subscribed, opened⟩ := listening
  obtain ⟨fd, opened⟩ := Option.isSome_iff_exists.mp opened
  have sent : ⟨slot, fd, messageField own.text, messageField value.text⟩ ∈
      notifyClients sessions own.text value.text :=
    mem_notifyClients.mpr ⟨active, subscribed, opened, rfl, rfl⟩
  have values : ∀ text ∈ ((notifyClients sessions own.text value.text).map Event.sent).filterMap
      (valueSent slot own.text), text = value.text := by
    intro text member
    obtain ⟨event, member, said⟩ := List.mem_filterMap.mp member
    obtain ⟨notification, sent, made⟩ := List.mem_map.mp member
    obtain ⟨_, _, _, _, sameValue⟩ := mem_notifyClients.mp sent
    subst made
    simp only [valueSent, Option.ite_none_right_eq_some, Option.some.injEq] at said
    rw [← said.2, sameValue, messageField_text]
  have first : value.text ∈ ((notifyClients sessions own.text value.text).map Event.sent).filterMap
      (valueSent slot own.text) := by
    refine List.mem_filterMap.mpr ⟨_, List.mem_map_of_mem sent, ?_⟩
    simp [valueSent, messageField_text]
  rw [lastSent_append]
  unfold lastSent
  rw [List.getLast?_eq_some_getLast (List.ne_nil_of_mem first)]
  rw [values _ (List.getLast_mem _)]
  rfl

end Notify

/-! The invariant, over one step and over a run. -/

/-- Some command that was executed named the key. -/
def Changed (key : CString) (trace : List (Event slots)) : Prop :=
  ∃ keys, Event.executed keys ∈ trace ∧ key ∈ keys

/-- What the store holds for the key is what the thread that named it last has still
to send last, or what was sent last when that thread has sent all it had. -/
structure Agrees (slot : Fin slots) (key : CString) (trace : List (Event slots))
    (state : State slots jobs) : Prop where
  listening : Listening (state.sessions slot) key
  recorded : Changed key trace → (state.latest key).isSome
  settled : ∃ table : KeyTable, state.kvsTable = some (KeyTable.raw table) ∧
    ∀ writer, state.latest key = some writer → Hashed key ∧
      (lastFor key (state.pending writer)).or (lastSent trace slot key) =
        some (shown (table.contents key))

section Steps
variable {slot : Fin slots} {key : CString} {trace : List (Event slots)} {state next : State slots jobs}

theorem changed_append {later : List (Event slots)} (changed : Changed key (trace ++ later)) :
    Changed key trace ∨ Changed key later := by
  obtain ⟨keys, executed, member⟩ := changed
  rcases List.mem_append.mp executed with before | now
  · exact .inl ⟨keys, before, member⟩
  · exact .inr ⟨keys, now, member⟩

theorem unchanged_of_sent {sent : List (Notification slots)} : ¬Changed key (sent.map Event.sent) := by
  rintro ⟨keys, executed, _⟩
  obtain ⟨_, _, made⟩ := List.mem_map.mp executed
  cases made

theorem command_agrees (agrees : Agrees slot key trace state) {thread : Fin jobs} {command : Command}
    (taken : step state (.command thread command) = some next) :
    Agrees slot key (trace ++ observe state (.command thread command)) next := by
  obtain ⟨listening, recorded, table, holds, settled⟩ := agrees
  simp only [step] at taken
  split at taken
  next free =>
    obtain ⟨⟨kvsTable, pairs⟩, ran, made⟩ := Option.map_eq_some_iff.mp taken
    subst made
    simp only [observe, ran]
    rw [holds] at ran
    obtain ⟨after, holds', fresh, old⟩ := execute_effect key ran
    by_cases names : key ∈ named pairs
    · refine ⟨listening, fun _ => by simp [names], after, holds', fun writer latest => ?_⟩
      simp only [if_pos names, Option.some.injEq] at latest
      subst latest
      obtain ⟨value, final⟩ := exists_lastFor names
      obtain ⟨hashed, stated⟩ := fresh value final
      refine ⟨hashed, ?_⟩
      show (lastFor key (Function.update state.pending thread pairs thread)).or _ = _
      rw [Function.update_self, final, stated]
      rfl
    · have silent := lastFor_eq_none_iff.mpr names
      refine ⟨listening, fun changed => ?_, after, holds', fun writer latest => ?_⟩
      · show (if key ∈ named pairs then some thread else state.latest key).isSome = true
        rw [if_neg names]
        rcases changed_append changed with before | ⟨keys, executed, member⟩
        · exact recorded before
        · cases List.mem_singleton.mp executed
          exact absurd member names
      · simp only [if_neg names] at latest
        have before := settled writer latest
        rw [lastSent_executed, old silent]
        show Hashed key ∧ (lastFor key (Function.update state.pending thread pairs writer)).or _ = _
        by_cases moved : writer = thread
        · subst moved
          rw [free] at before
          rw [Function.update_self, silent]
          exact before
        · rw [Function.update_of_ne moved]
          exact before
  next => cases taken

theorem notify_agrees (agrees : Agrees slot key trace state) {thread : Fin jobs}
    (ordered : InOrder key state (.notify thread)) (taken : step state (.notify thread) = some next) :
    Agrees slot key (trace ++ observe state (.notify thread)) next := by
  obtain ⟨listening, recorded, table, holds, settled⟩ := agrees
  simp only [step] at taken
  cases left : state.pending thread with
  | nil =>
    rw [left] at taken
    cases taken
  | cons pair rest =>
    obtain ⟨own, value⟩ := pair
    rw [left] at taken
    cases taken
    simp only [observe, left]
    refine ⟨listening, fun changed => ?_, table, holds, fun writer latest => ?_⟩
    · exact recorded ((changed_append changed).resolve_right unchanged_of_sent)
    · obtain ⟨hashed, before⟩ := settled writer latest
      refine ⟨hashed, ?_⟩
      simp only at latest ⊢
      by_cases same : own.text = key
      · rw [lastSent_own same listening]
        obtain ⟨writer', latest', member⟩ := ordered ⟨(own, value), by simp [left], same⟩
        cases latest.symm.trans latest'
        obtain ⟨last, final⟩ := exists_lastFor member
        by_cases moved : writer = thread
        · subst moved
          rw [Function.update_self]
          rw [left] at before
          -- what this call sends counts only if it is the thread's last for the key
          simpa [lastFor, same, Option.or_assoc] using before
        · rw [Function.update_of_ne moved]
          rw [final] at before ⊢
          exact before
      · rw [lastSent_other same]
        by_cases moved : writer = thread
        · subst moved
          rw [Function.update_self]
          rw [left] at before
          simpa [lastFor, same] using before
        · rw [Function.update_of_ne moved]
          exact before

theorem step_agrees (agrees : Agrees slot key trace state) {action : Action slots jobs}
    (continuous : Continuous slot key state action) (ordered : InOrder key state action)
    (taken : step state action = some next) : Agrees slot key (trace ++ observe state action) next := by
  cases action with
  | command thread command => exact command_agrees agrees taken
  | notify thread => exact notify_agrees agrees ordered taken
  | sessions sessions =>
    cases taken
    rw [observe, List.append_nil]
    exact ⟨continuous, agrees.recorded, agrees.settled⟩

theorem run_agrees {table : KeyTable} {sessions : Fin slots → SessionData}
    (subscribed : Listening (sessions slot) key)
    (run : Run (machine slots jobs) (fun state action => Continuous slot key state action ∧ InOrder key state action)
      (initial table sessions jobs) trace state) : Agrees slot key trace state := by
  refine run.induct (Agrees slot key) ⟨subscribed, ?_, table, rfl, nofun⟩ ?_
  · rintro ⟨_, executed, _⟩
    cases executed
  · exact fun _ _ _ _ agrees met taken => step_agrees agrees met.1 met.2 taken

/-- If no notification for the key goes out after those of the thread that named it
last, then whenever no thread has notifications left to send, the last one sent to
a session subscribed throughout says what the store holds. -/
theorem last_notification_agrees {table : KeyTable} {sessions : Fin slots → SessionData}
    (subscribed : Listening (sessions slot) key)
    (run : Run (machine slots jobs) (fun state action => Continuous slot key state action ∧ InOrder key state action)
      (initial table sessions jobs) trace state)
    (quiet : ∀ thread, state.pending thread = []) (changed : Changed key trace) :
    ∃ found, held state.kvsTable key = some found ∧
      lastSent trace slot key = some (shown found) := by
  obtain ⟨_, recorded, after, holds, settled⟩ := run_agrees subscribed run
  obtain ⟨writer, latest⟩ := Option.isSome_iff_exists.mp (recorded changed)
  obtain ⟨hashed, stated⟩ := settled writer latest
  rw [quiet writer] at stated
  refine ⟨after.contents key, ?_, stated⟩
  rw [held, holds]
  exact readPair_raw after hashed

end Steps

/-! Two writers of one key. -/

def fieldOf (byte : UInt8) (nonzero : byte ≠ 0) : Field :=
  ⟨⟨[byte], by simpa using nonzero.symm⟩, Nat.le_of_ble_eq_true rfl⟩

def sharedKey : Field := fieldOf 107 (by decide)

/-- A session that has subscribed to the shared key. -/
def subscriber : SessionData :=
  { SessionData.zero.setKey 0 sharedKey.text with active := true, numSubscribedKeys := 1 }

def writes (byte : UInt8) (nonzero : byte ≠ 0) : Command := .write [(sharedKey, fieldOf byte nonzero)]

def emptyTable : KeyTable := ChainedTable.Table.empty CString bucket

/-- Two overlapping WRITEs notify in the order of their updates, then the key is deleted. -/
def orderly (first second : Fin jobs) : List (Action slots jobs) :=
  [.command first (writes 49 (by decide)), .command second (writes 50 (by decide)), .notify first,
    .notify second, .command first (.delete [sharedKey]), .notify first]

theorem last_notification_of_orderly : ∃ trace state, Run (machine 1 2)
      (fun state action => Continuous 0 sharedKey.text state action ∧ InOrder sharedKey.text state action)
      (initial emptyTable (fun _ => subscriber) 2) trace state ∧
    (∀ thread, state.pending thread = []) ∧ Event.executed [sharedKey.text] ∈ trace ∧
    ∃ found, held state.kvsTable sharedKey.text = some found ∧
      lastSent trace 0 sharedKey.text = some (shown found) := by
  obtain ⟨trace, state, run, quiet, executed⟩ := exists_run (machine 1 2)
    (fun state action => Continuous 0 sharedKey.text state action ∧ InOrder sharedKey.text state action)
    (initial emptyTable (fun _ => subscriber) 2)
    (fun trace state => (∀ thread, state.pending thread = []) ∧ Event.executed [sharedKey.text] ∈ trace)
    (orderly 0 1) (by decide)
  exact ⟨trace, state, run, quiet, executed,
    last_notification_agrees (by decide) run quiet ⟨_, executed, List.mem_singleton_self _⟩⟩

/-- Thread 0 updates the store first and notifies last: the session is left with its
value while the store holds that of thread 1. -/
theorem stale_notification : ∃ trace state, Listening subscriber sharedKey.text ∧
    Run (machine 1 2) (Continuous 0 sharedKey.text) (initial emptyTable (fun _ => subscriber) 2)
      trace state ∧
    (∀ thread, state.pending thread = []) ∧ Event.executed [sharedKey.text] ∈ trace ∧
    held state.kvsTable sharedKey.text = some (some (CString.ofBytes [50])) ∧
    lastSent trace 0 sharedKey.text = some (CString.ofBytes [49]) := by
  obtain ⟨trace, state, run, rest⟩ := exists_run (machine 1 2) (Continuous 0 sharedKey.text)
    (initial emptyTable (fun _ => subscriber) 2)
    (fun trace state => (∀ thread, state.pending thread = []) ∧ Event.executed [sharedKey.text] ∈ trace ∧
      held state.kvsTable sharedKey.text = some (some (CString.ofBytes [50])) ∧
      lastSent trace 0 sharedKey.text = some (CString.ofBytes [49]))
    [.command 0 (writes 49 (by decide)), .command 1 (writes 50 (by decide)), .notify 1, .notify 0] (by decide)
  exact ⟨trace, state, by decide, run, rest⟩

end IstKvs.JobNotifications
