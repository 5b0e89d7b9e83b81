import IstKvs.JobSerial

/-! What the jobs notify. `notify_clients` is called when the lock has been given back, so
calls of different jobs come in any order; but no job loses, repeats or reorders one, and
where one job alone changes a key its last call tells what the table holds. -/

namespace IstKvs.JobNotices
open LabelledRuns ReadWriteLock AtomicCalls Footprint CommandLogic ChainedTable
open Kvs Operations StoreMemory TableLock RunJob JobDispatch JobMeaning JobThreads JobSerial

/-- The calls of `notify_clients`, each with the entry of its job. -/
def noticesIn : List JobThreads.Event → List (Nat × (CString × CString)) :=
  List.filterMap fun event => match event with
    | .notified entry pair => some (entry, pair)
    | .dispatched _ | .performed _ _ _ | .answered _ _ => none

/-- The pairs that the thread is still to notify. -/
def pending : Pc → List (CString × CString)
  | .notifying _ _ _ pairs => pairs
  | .dispatch _ | .running _ _ _ | .session _ => []

/-- The pairs of the job that are still to be notified. -/
def Owes {Thread : Type} (locals : Thread → Pc) (entry : Nat) (pairs : List (CString × CString)) : Prop :=
  (∃ thread, (locals thread).job = some entry ∧ pending (locals thread) = pairs) ∨
    (∀ thread, (locals thread).job ≠ some entry) ∧ pairs = []

/-- The calls of each job and those it still owes are the pairs of its commands, in order. -/
def Told {Thread : Type} (trace : List JobThreads.Event) (locals : Thread → Pc) : Prop :=
  ∀ entry pairs, Owes locals entry pairs →
    own entry (noticesIn trace) ++ pairs = (own entry (performedIn trace)).flatMap notices

theorem noticesIn_append (trace later : List JobThreads.Event) :
    noticesIn (trace ++ later) = noticesIn trace ++ noticesIn later :=
  List.filterMap_append

/-! Steps. -/

section Steps
variable {setting : Setting} {maxThreads : Nat} {Session : Type} [DecidableEq Session] {lookups : Session → List CString}
  {table : KeyTable} {trace events : List JobThreads.Event} {shared : Shared} {locals : Fin maxThreads ⊕ Session → Pc}
  {memory : HashTable} {thread : Fin maxThreads ⊕ Session} {next : Pc} {entry : Nat}

omit [DecidableEq Session] in
/-- A job that the step does not touch. -/
theorem told_other (told : Told trace locals) {pairs : List (CString × CString)} (owes : Owes locals entry pairs)
    (unheard : own entry (noticesIn events) = []) (undone : own entry (performedIn events) = []) :
    own entry (noticesIn (trace ++ events)) ++ pairs = (own entry (performedIn (trace ++ events))).flatMap notices := by
  rw [noticesIn_append, performedIn_append, own_append, own_append, unheard, undone, List.append_nil, List.append_nil]
  exact told entry pairs owes

theorem owes_other (away : (locals thread).job ≠ some entry) (away' : next.job ≠ some entry)
    {pairs : List (CString × CString)} (owes : Owes (Function.update locals thread next) entry pairs) :
    Owes locals entry pairs := by
  rcases owes with ⟨other, job, same⟩ | ⟨nobody, none⟩
  · by_cases here : other = thread
    · subst here
      rw [Function.update_self] at job
      exact absurd job away'
    · rw [Function.update_of_ne here] at job same
      exact .inl ⟨other, job, same⟩
  · refine .inr ⟨fun other => ?_, none⟩
    by_cases here : other = thread
    · exact here ▸ away
    · have kept := nobody other
      rwa [Function.update_of_ne here] at kept

/-- A step outside the jobs. -/
theorem Told.aside (told : Told trace locals) (away : (locals thread).job = none) (away' : next.job = none)
    (unheard : noticesIn events = []) (undone : performedIn events = []) :
    Told (trace ++ events) (Function.update locals thread next) := by
  intro entry pairs owes
  have owes' : Owes locals entry pairs := owes_other (by simp [away]) (by simp [away']) owes
  exact told_other told owes' (by rw [unheard]; rfl) (by rw [undone]; rfl)

/-- A step of the job: what it adds to the pairs and to the calls balances what it owes. -/
theorem Told.job (told : Told trace locals) (serves : Serves setting table trace shared locals memory)
    (holding : held (locals thread).getFile = some entry) (was : (locals thread).job = some entry ∨ (locals thread).job = none)
    (is : next.job = some entry ∨ next.job = none)
    (others : ∀ other, entry ≠ other → own other (noticesIn events) = [] ∧ own other (performedIn events) = [])
    (balance : own entry (noticesIn events) ++ pending next =
      pending (locals thread) ++ (own entry (performedIn events)).flatMap notices) :
    Told (trace ++ events) (Function.update locals thread next) := by
  obtain ⟨_, only⟩ := serves.sole holding
  have idle : ∀ pc : Pc, pc.job = none → pending pc = [] := by
    intro pc nowhere
    cases pc with
    | running | notifying => cases nowhere
    | dispatch | session => rfl
  intro other pairs owes
  by_cases same : entry = other
  · subst same
    have before : Owes locals entry (pending (locals thread)) := by
      rcases was with inside | outside
      · exact .inl ⟨thread, inside, rfl⟩
      · refine .inr ⟨fun other job => ?_, idle _ outside⟩
        rw [← only other job] at outside
        exact Option.some_ne_none entry (job.symm.trans outside)
    have after : pairs = pending next := by
      rcases owes with ⟨other, job, same⟩ | ⟨nobody, none⟩
      · by_cases here : other = thread
        · rw [← same, here, Function.update_self]
        · rw [Function.update_of_ne here] at job
          exact absurd (only other job) here
      · have left := nobody thread
        rw [Function.update_self] at left
        rw [none, idle next (is.resolve_left left)]
    have told := told entry _ before
    calc
      own entry (noticesIn (trace ++ events)) ++ pairs
          = own entry (noticesIn trace) ++ (own entry (noticesIn events) ++ pending next) := by
        rw [noticesIn_append, own_append, after, List.append_assoc]
      _ = (own entry (noticesIn trace) ++ pending (locals thread)) ++ (own entry (performedIn events)).flatMap notices := by
        rw [balance, List.append_assoc]
      _ = (own entry (performedIn (trace ++ events))).flatMap notices := by
        rw [told, performedIn_append, own_append, List.flatMap_append]
  · obtain ⟨unheard, undone⟩ := others other same
    have elsewhere : ∀ pc : Pc, pc.job = some entry ∨ pc.job = none → pc.job ≠ some other := by
      rintro pc (inside | outside) job
      · exact same (Option.some.inj (inside.symm.trans job))
      · exact Option.some_ne_none other (job.symm.trans outside)
    exact told_other told (owes_other (elsewhere _ was) (elsewhere _ is) owes) unheard undone

omit [DecidableEq Session] in
theorem noticesIn_dispatched (events : List JobDispatch.Event) : noticesIn (events.map .dispatched) = [] := by
  induction events with
  | nil => rfl
  | cons event events ih => exact ih

theorem notices_of_own {command : JobCommand} (made : tableCall command = none) : notices command = [] := by
  cases command with
  | write | delete => cases made
  | read | showAll | wait | backup | help | empty | invalid => rfl

/-- A command done, where the thread then owes its pairs. -/
theorem Told.performed (told : Told trace locals) (serves : Serves setting table trace shared locals memory)
    {files : JobPaths} {stream : List UInt8} (here : locals thread = .running entry files stream) (is : next.job = some entry)
    {command : JobCommand} {reply : Option Reply} (owed : pending next = notices command) :
    Told (trace ++ [.performed entry command reply]) (Function.update locals thread next) := by
  have holding : held (locals thread).getFile = some entry := by rw [here]; rfl
  have was : (locals thread).job = some entry := by rw [here]; rfl
  have nothing : pending (locals thread) = [] := by rw [here]; rfl
  apply told.job serves holding (.inl was) (.inl is)
  · intro other different
    exact ⟨rfl, own_cons_of_ne different⟩
  · have mine : own entry (performedIn [.performed entry command reply]) = [command] := own_cons_self
    rw [owed, nothing, mine, List.flatMap_singleton]
    rfl

theorem Told.keeps (sound : Sound setting lookups) (serves : Serves setting table trace shared locals memory)
    (told : Told trace locals) {shared' : Shared} {memory' : HashTable}
    (turns : Turns setting (locals thread) shared memory next shared' memory' events) :
    Told (trace ++ events) (Function.update locals thread next) := by
  cases turns with
  | @opened entry files here =>
    have holding : held (locals thread).getFile = some entry := by rw [here]; rfl
    have was : (locals thread).job = none := by rw [here]; rfl
    apply told.job serves holding (.inr was) (.inl rfl)
    · exact fun _ _ => ⟨rfl, rfl⟩
    · rw [here]
      rfl
  | @dispatched result stepped finished =>
    have unheard := noticesIn_dispatched (threadEvents setting.directory shared (locals thread).getFile)
    have undone := performedIn_dispatched (threadEvents setting.directory shared (locals thread).getFile)
    cases job : (locals thread).job with
    | none => exact told.aside job rfl unheard undone
    | some entry =>
      obtain ⟨files, running⟩ := runJob_of_job job
      obtain ⟨stream, rest, here, _⟩ := finished entry files running
      apply told.job serves (held_of_job job) (.inl job) (.inr rfl)
      · exact fun _ _ => ⟨by rw [unheard]; rfl, by rw [undone]; rfl⟩
      · rw [unheard, undone, here]
        rfl
  | kept here read made => exact told.performed serves here rfl (notices_of_own made).symm
  | @called entry files stream command rest call reply _ here read made reached =>
    obtain ⟨later, _, _, whole⟩ := serves.command_next here read
    have member : command ∈ script setting entry := whole ▸ List.mem_append_right _ List.mem_cons_self
    rw [serves.settled] at reached
    obtain ⟨_, _, _, owed⟩ := call_meaning made (sound.keyed entry command member) reached
    exact told.performed serves here rfl owed
  | @noticed entry files stream pair pairs here =>
    have was : (locals thread).job = some entry := by rw [here]; rfl
    apply told.job serves (held_of_job was) (.inl was) (.inl rfl)
    · exact fun other different => ⟨own_cons_of_ne different, rfl⟩
    · have mine : own entry (noticesIn [.notified entry pair]) = [pair] := own_cons_self
      rw [mine, here]
      exact (List.append_nil _).symm
  | @resumed entry files stream here =>
    have was : (locals thread).job = some entry := by rw [here]; rfl
    apply told.job serves (held_of_job was) (.inl was) (.inl rfl)
    · exact fun _ _ => ⟨rfl, rfl⟩
    · rw [here]
      rfl
  | answered here reached => exact told.aside (by rw [here]; rfl) rfl rfl rfl

theorem told_of_atomic (sound : Sound setting lookups) {whole : Whole (Fin maxThreads ⊕ Session) HashTable Shared Pc}
    (atomic : Atomic tableCode (program setting) (start maxThreads table lookups) trace whole) : Told trace whole.locals := by
  induction atomic with
  | refl =>
    rintro entry pairs (⟨thread, job, _⟩ | ⟨_, none⟩)
    · cases thread <;> cases job
    · rw [none]
      rfl
  | @own _ whole _ _ _ _ _ before turn stepped ih =>
    have turns : Turns setting _ _ whole.memory _ _ whole.memory _ := turns_of_own turn stepped
    exact ih.keeps sound (serves_of_atomic sound before) turns
  | call before turn reached ih => exact ih.keeps sound (serves_of_atomic sound before) (turns_of_call turn reached)

end Steps

/-! The last value for a key. -/

section Last
variable {key : CString} {entry : Nat}

/-- The value of the last pair with the key. -/
def lastOf (key : CString) (pairs : List (CString × CString)) : Option CString :=
  (pairs.reverse.find? fun pair => pair.1 = key).map Prod.snd

/-- What `notify_clients` was last called with for the key. -/
def lastNotice (key : CString) (trace : List JobThreads.Event) : Option CString := lastOf key ((noticesIn trace).map Prod.snd)

theorem lastOf_append (pairs later : List (CString × CString)) :
    lastOf key (pairs ++ later) = (lastOf key later).or (lastOf key pairs) := by
  unfold lastOf
  rw [List.reverse_append, List.find?_append]
  cases later.reverse.find? fun pair => pair.1 = key <;> rfl

theorem lastOf_cons (pair : CString × CString) (pairs : List (CString × CString)) :
    lastOf key (pair :: pairs) = (lastOf key pairs).or (if pair.1 = key then some pair.2 else none) := by
  have first : lastOf key [pair] = if pair.1 = key then some pair.2 else none := by
    by_cases same : pair.1 = key <;> simp [lastOf, same]
  rw [← first]
  exact lastOf_append [pair] pairs

theorem lastOf_eq_none (pairs : List (CString × CString)) (absent : ∀ pair ∈ pairs, pair.1 ≠ key) :
    lastOf key pairs = none := by
  induction pairs with
  | nil => rfl
  | cons pair pairs ih =>
    obtain ⟨here, later⟩ := List.forall_mem_cons.mp absent
    rw [lastOf_cons, ih later, if_neg here]
    rfl

/-- What a command sets a key to, as it is notified. -/
theorem lastOf_notices (command : JobCommand) :
    lastOf key (notices command) = (sets command key).map fun value => value.getD DELETED := by
  cases command with
  | write pairs =>
    simp only [notices, sets, lastOf, Option.map_map]
    rfl
  | delete keys =>
    simp only [notices, sets]
    induction keys with
    | nil => rfl
    | cons own keys ih =>
      rw [List.map_cons, lastOf_cons, ih]
      by_cases later : key ∈ keys
      · simp [later]
      · by_cases here : own = key
        · simp [here, later]
        · simp [here, later, Ne.symm here]
  | read | showAll | wait | backup | help | empty | invalid => rfl

theorem lastOf_flatMap (script : List JobCommand) :
    lastOf key (script.flatMap notices) = (lastSet sets key script).map fun value => value.getD DELETED := by
  induction script with
  | nil => rfl
  | cons command script ih =>
    rw [List.flatMap_cons, lastOf_append, ih, lastOf_notices, lastSet]
    cases lastSet sets key script <;> rfl

/-- Where only one party names the key, the last pair is the party's last one. -/
theorem lastOf_own (order : List (Nat × (CString × CString)))
    (others : ∀ step ∈ order, step.1 ≠ entry → step.2.1 ≠ key) :
    lastOf key (order.map Prod.snd) = lastOf key (own entry order) := by
  induction order with
  | nil => rfl
  | cons step order ih =>
    obtain ⟨here, later⟩ := List.forall_mem_cons.mp others
    obtain ⟨other, pair⟩ := step
    rw [List.map_cons, lastOf_cons, ih later]
    by_cases same : other = entry
    · subst same
      rw [own_cons_self, lastOf_cons]
    · rw [own_cons_of_ne same, if_neg (here same), Option.or_none]

theorem lastSet_own (order : List (Nat × JobCommand))
    (others : ∀ step ∈ order, step.1 ≠ entry → sets step.2 key = none) :
    lastSet sets key (order.map Prod.snd) = lastSet sets key (own entry order) := by
  induction order with
  | nil => rfl
  | cons step order ih =>
    obtain ⟨here, later⟩ := List.forall_mem_cons.mp others
    obtain ⟨other, command⟩ := step
    rw [List.map_cons, lastSet, ih later]
    by_cases same : other = entry
    · subst same
      rw [own_cons_self, lastSet]
    · rw [own_cons_of_ne same, here same, Option.or_none]

theorem sets_of_notice {command : JobCommand} {pair : CString × CString} (member : pair ∈ notices command) :
    sets command pair.1 ≠ none := by
  intro untouched
  have last : lastOf pair.1 (notices command) = (sets command pair.1).map fun value => value.getD DELETED :=
    lastOf_notices command
  rw [untouched] at last
  have found : (notices command).reverse.find? (fun other => other.1 = pair.1) = none := Option.map_eq_none_iff.mp last
  have apart := List.find?_eq_none.mp found pair (List.mem_reverse.mpr member)
  exact apart (decide_eq_true rfl)

end Last

/-! Runs. -/

section Runs
variable {setting : Setting} {maxThreads : Nat} {Session : Type} [DecidableEq Session] [Fintype Session]
  {lookups : Session → List CString} {table : KeyTable} {trace : List JobThreads.Event} {entry : Nat} {key : CString}
  {state : AtomicCalls.State (Fin maxThreads ⊕ Session) LockedCall HashTable Stage Reply Shared Pc}
  {guard : AtomicCalls.State (Fin maxThreads ⊕ Session) LockedCall HashTable Stage Reply Shared Pc →
    AtomicCalls.Action (Fin maxThreads ⊕ Session) → Prop}

theorem owes_some {Thread : Type} (locals : Thread → Pc) (entry : Nat) : ∃ pairs, Owes locals entry pairs := by
  by_cases inside : ∃ thread, (locals thread).job = some entry
  · obtain ⟨thread, job⟩ := inside
    exact ⟨_, .inl ⟨thread, job, rfl⟩⟩
  · exact ⟨[], .inr ⟨not_exists.mp inside, rfl⟩⟩

omit [DecidableEq Session] [Fintype Session] in
/-- What was notified for a job are pairs of commands in its file. -/
theorem Told.of_script {shared : Shared} {locals : Fin maxThreads ⊕ Session → Pc} {memory : HashTable}
    (told : Told trace locals) (serves : Serves setting table trace shared locals memory) {step : Nat × (CString × CString)}
    (member : step ∈ noticesIn trace) : ∃ command ∈ script setting step.1, step.2 ∈ notices command := by
  obtain ⟨pairs, owes⟩ := owes_some locals step.1
  have mine : step.2 ∈ own step.1 (noticesIn trace) ++ pairs := List.mem_append_left _ (mem_own.mpr member)
  rw [told step.1 pairs owes] at mine
  obtain ⟨command, done, named⟩ := List.mem_flatMap.mp mine
  exact ⟨command, (serves.own_done step.1).subset done, named⟩

/-- No notification is lost, repeated, invented or out of its job's order: in every state of
every run the calls of `notify_clients` for a job, and the pairs that it still owes, are
those of the commands that it has done, and at the end those of its whole file. -/
theorem notices_exactly_once (sound : Sound setting lookups)
    (run : Run (AtomicCalls.machine tableCode (program setting)) guard
      (AtomicCalls.initial (start maxThreads table lookups)) trace state) :
    (∀ entry pairs, Owes state.locals entry pairs →
      own entry (noticesIn trace) ++ pairs = (own entry (performedIn trace)).flatMap notices) ∧
    ((getFiles state.shared state.locals).Finished → ∀ entry, own entry (noticesIn trace) =
      if setting.directory.failuresBefore entry < maxThreads then (script setting entry).flatMap notices else []) := by
  obtain ⟨settled, follows⟩ := follows_of_run run
  have serves := serves_of_atomic sound follows.atomic
  have told : Told trace state.locals := told_of_atomic sound follows.atomic
  refine ⟨told, ?_⟩
  intro finished entry
  have whole := told entry [] (.inr ⟨serves.idle_of_finished finished entry, rfl⟩)
  rw [List.append_nil, serves.all_done finished entry] at whole
  rw [whole]
  split_ifs <;> rfl

theorem notices_exactly_once_of_twoJobs :
    ∃ (trace : List JobThreads.Event) (state : AtomicCalls.State (Fin 2 ⊕ Unit) LockedCall HashTable Stage Reply Shared Pc),
      (getFiles state.shared state.locals).Finished ∧
        (∀ entry pairs, Owes state.locals entry pairs →
          own entry (noticesIn trace) ++ pairs = (own entry (performedIn trace)).flatMap notices) ∧
        ((getFiles state.shared state.locals).Finished → ∀ entry, own entry (noticesIn trace) =
          if twoJobs.directory.failuresBefore entry < 2 then (script twoJobs entry).flatMap notices else []) := by
  obtain ⟨trace, state, run, finished⟩ := exists_run (AtomicCalls.machine tableCode (program twoJobs)) Always
    (AtomicCalls.initial (start 2 (Table.empty CString bucket) oneKey))
    (fun _ state => (getFiles state.shared state.locals).Finished) meeting (by decide)
  exact ⟨trace, state, finished, notices_exactly_once twoJobs_sound run⟩

/-- Where one job alone gives a key values, the last call of `notify_clients` for the key
tells what the table then holds, once the job owes none for it: a client that follows the
notifications knows the table. -/
theorem last_notice_agrees (sound : Sound setting lookups)
    (run : Run (AtomicCalls.machine tableCode (program setting)) guard
      (AtomicCalls.initial (start maxThreads table lookups)) trace state)
    (valid : Alphanumeric key) (alone : ∀ other, other ≠ entry → ∀ command ∈ script setting other, sets command key = none)
    (quiet : ∀ pairs, Owes state.locals entry pairs → ∀ pair ∈ pairs, pair.1 ≠ key) (free : state.lock.writing = false) :
    ∃ found, readPair state.lock.memory key = some found ∧
      (lastNotice key trace = none ∧ found = table.contents key ∨ lastNotice key trace = some (found.getD DELETED)) := by
  obtain ⟨settled, follows⟩ := follows_of_run run
  have serves := serves_of_atomic sound follows.atomic
  have told : Told trace state.locals := told_of_atomic sound follows.atomic
  have unset : ∀ step ∈ performedIn trace, step.1 ≠ entry → sets step.2 key = none := by
    intro step member different
    exact alone step.1 different step.2 ((serves.own_done step.1).subset (mem_own.mpr member))
  have unheard : ∀ step ∈ noticesIn trace, step.1 ≠ entry → step.2.1 ≠ key := by
    intro step member different same
    obtain ⟨command, done, named⟩ := told.of_script serves member
    apply sets_of_notice named
    rw [same]
    exact alone step.1 different command done
  have last : lastNotice key trace =
      (lastSet sets key ((performedIn trace).map Prod.snd)).map fun value => value.getD DELETED := by
    obtain ⟨pairs, owes⟩ := owes_some state.locals entry
    calc
      lastNotice key trace = lastOf key (own entry (noticesIn trace)) := lastOf_own (noticesIn trace) unheard
      _ = lastOf key (own entry (noticesIn trace) ++ pairs) := by
        rw [lastOf_append, lastOf_eq_none pairs (quiet pairs owes), Option.none_or]
      _ = (lastSet sets key (own entry (performedIn trace))).map _ := by
        rw [told entry pairs owes]
        exact lastOf_flatMap (own entry (performedIn trace))
      _ = (lastSet sets key ((performedIn trace).map Prod.snd)).map _ := by rw [lastSet_own (performedIn trace) unset]
  have holds : readPair state.lock.memory key = some ((bindingsAfter (Bindings.ofTable table) trace).contents key) := by
    have memory : state.lock.memory = _ := (follows.settles.unwritten free).trans serves.settled
    rw [memory]
    exact readPair_table (hashed_of_alphanumeric valid) _
  have value : (bindingsAfter (Bindings.ofTable table) trace).contents key = _ :=
    lookup_run (meaning_sets true) ((performedIn trace).map Prod.snd) (Bindings.ofTable table) key
  rw [contents_ofTable] at value
  refine ⟨_, holds, ?_⟩
  rw [last, value]
  cases lastSet sets key ((performedIn trace).map Prod.snd) with
  | none => exact .inl ⟨rfl, rfl⟩
  | some value => exact .inr rfl

theorem last_notice_agrees_of_twoJobs :
    ∃ (trace : List JobThreads.Event) (state : AtomicCalls.State (Fin 2 ⊕ Unit) LockedCall HashTable Stage Reply Shared Pc),
      lastNotice (literal "a") trace = some (literal "b") ∧ ∃ found, readPair state.lock.memory (literal "a") = some found ∧
        (lastNotice (literal "a") trace = none ∧ found = (Table.empty CString bucket).contents (literal "a") ∨
          lastNotice (literal "a") trace = some (found.getD DELETED)) := by
  obtain ⟨trace, state, run, finished, free, notified⟩ := exists_run (AtomicCalls.machine tableCode (program twoJobs)) Always
    (AtomicCalls.initial (start 2 (Table.empty CString bucket) oneKey))
    (fun trace state => (getFiles state.shared state.locals).Finished ∧ state.lock.writing = false ∧
      lastNotice (literal "a") trace = some (literal "b")) meeting (by decide)
  obtain ⟨settled, follows⟩ := follows_of_run run
  have serves := serves_of_atomic twoJobs_sound follows.atomic
  refine ⟨trace, state, notified, @last_notice_agrees _ _ _ _ _ _ _ _ 0 _ _ _ twoJobs_sound run (by decide) ?_ ?_ free⟩
  · apply twoJobs_entries
    · intro different
      exact absurd rfl different
    · decide
    · intro entry none _ command member
      simp [script, none] at member
  · rintro pairs (⟨thread, job, _⟩ | ⟨_, nothing⟩) pair member
    · exact absurd job (serves.idle_of_finished finished 0 thread)
    · rw [nothing] at member
      cases member

end Runs

end IstKvs.JobNotices
