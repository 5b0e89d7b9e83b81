import IstKvs.JobThreads

/-! Serializability of the jobs. The calls give the lock back in one order; done one after
the other in this order, whole commands explain all that the threads have written. -/

namespace IstKvs.JobSerial
open LabelledRuns ReadWriteLock AtomicCalls ThreadPool Footprint CommandLogic ChainedTable
open Kvs Operations StoreMemory TableLock RunJob JobDispatch JobMeaning JobThreads

/-! What holds in every state. -/

section Serves
variable {setting : Setting} {maxThreads : Nat} {Session : Type} [DecidableEq Session]
  {lookups : Session → List CString} {table : KeyTable}

/-- The `get_file` threads. -/
def getFiles (shared : Shared) (locals : Fin maxThreads ⊕ Session → Pc) : JobDispatch.State maxThreads :=
  ⟨shared, fun thread => (locals (.inl thread)).getFile⟩

/-- The commands done and those still in the file are the commands of the job. -/
def Begun (setting : Setting) (trace : List JobThreads.Event) : Pc → Prop
  | .running entry _ stream | .notifying entry _ stream _ => ∃ later rest,
      commands (setting.stack entry) stream = some (later, rest) ∧ own entry (performedIn trace) ++ later = script setting entry
  | .dispatch _ | .session _ => True

/-- The keys to look up have a bucket. -/
def Looked : Pc → Prop
  | .session keys => ∀ key ∈ keys, Alphanumeric key
  | .dispatch _ | .running _ _ _ | .notifying _ _ _ _ => True

structure Serves (setting : Setting) (table : KeyTable) (trace : List JobThreads.Event) (shared : Shared)
    (locals : Fin maxThreads ⊕ Session → Pc) (memory : HashTable) : Prop where
  settled : memory = (bindingsAfter (Bindings.ofTable table) trace).table
  explained : Explained (Bindings.ofTable table) trace
  files : Invariant setting.directory (dispatchedIn trace) (getFiles shared locals)
  sessions : ∀ thread, thread.isRight = true → ∃ keys, locals thread = .session keys
  looked : ∀ thread, Looked (locals thread)
  begun : ∀ thread, Begun setting trace (locals thread)
  ended : ∀ entry, .ran entry ∈ dispatchedIn trace → own entry (performedIn trace) = script setting entry
  fresh : ∀ entry, (∀ thread, (locals thread).job ≠ some entry) → .ran entry ∉ dispatchedIn trace →
    own entry (performedIn trace) = []

theorem held_of_job {pc : Pc} {entry : Nat} (job : pc.job = some entry) : held pc.getFile = some entry := by
  cases pc with
  | running | notifying => exact job
  | dispatch | session => cases job

theorem getFiles_update (shared : Shared) (locals : Fin maxThreads ⊕ Session → Pc) (thread : Fin maxThreads) (pc : Pc) :
    (getFiles shared (Function.update locals (.inl thread) pc)).threads =
      Function.update (getFiles shared locals).threads thread pc.getFile := by
  funext other
  by_cases same : other = thread
  · subst same
    simp [getFiles]
  · simp [getFiles, Function.update_of_ne, same]

theorem getFiles_kept (shared : Shared) {locals : Fin maxThreads ⊕ Session → Pc} {thread : Fin maxThreads ⊕ Session}
    {pc : Pc}
    (same : pc.getFile = (locals thread).getFile) :
    getFiles shared (Function.update locals thread pc) = getFiles shared locals := by
  unfold getFiles
  congr 1
  funext other
  by_cases here : Sum.inl other = thread
  · subst here
    rw [Function.update_self, same]
  · rw [Function.update_of_ne here]

variable {trace : List JobThreads.Event} {shared : Shared} {locals : Fin maxThreads ⊕ Session → Pc} {memory : HashTable}

/-- Where a thread has an entry, nobody has run it, and no other thread is in its job. -/
theorem Serves.sole (serves : Serves setting table trace shared locals memory) {thread : Fin maxThreads ⊕ Session}
    {entry : Nat} (holding : held (locals thread).getFile = some entry) :
    .ran entry ∉ dispatchedIn trace ∧
      ∀ other, (locals other).job = some entry → other = thread := by
  have job : ∀ other, held (locals other).getFile = some entry → ∃ worker, other = .inl worker := by
    intro other holding
    cases other with
    | inl worker => exact ⟨worker, rfl⟩
    | inr session =>
      obtain ⟨keys, here⟩ := serves.sessions (.inr session) rfl
      rw [here] at holding
      cases holding
  obtain ⟨worker, same⟩ := job thread holding
  subst same
  have placed := serves.files.placed entry
  have weight : ∀ {other}, held (locals (.inl other)).getFile = some entry →
      holds entry ((getFiles shared locals).threads other) = 1 := fun holding => if_pos holding
  have most : reached setting.directory (getFiles shared locals).shared.position entry ≤ 1 := by
    unfold reached
    split_ifs <;> omega
  constructor
  · intro ran
    have once := List.count_pos_iff.mpr ran
    have counted := weight_le_total (holds entry) (getFiles shared locals).threads worker
    rw [weight holding] at counted
    omega
  · intro other inJob
    have holding' := held_of_job inJob
    obtain ⟨worker', same⟩ := job other holding'
    subst same
    by_contra different
    have counted := pair_le_total (holds entry) (getFiles shared locals).threads
      (fun same => different (congrArg Sum.inl same) : worker' ≠ worker)
    rw [weight holding, weight holding'] at counted
    omega

variable {thread : Fin maxThreads ⊕ Session} {entry : Nat} {files : JobPaths} {stream rest : List UInt8}

omit [DecidableEq Session] in
/-- A thread that is not in a session is a `get_file` thread. -/
theorem Serves.worker (serves : Serves setting table trace shared locals memory)
    (busy : ∀ keys, locals thread ≠ .session keys) : ∃ worker, thread = .inl worker := by
  cases thread with
  | inl worker => exact ⟨worker, rfl⟩
  | inr session =>
    obtain ⟨keys, here⟩ := serves.sessions (.inr session) rfl
    exact absurd here (busy keys)

theorem Serves.sessions_keep (serves : Serves setting table trace shared locals memory) {next : Pc}
    (kept : (∃ keys, locals thread = .session keys) → ∃ keys, next = .session keys) :
    ∀ other, other.isRight = true → ∃ keys, Function.update locals thread next other = .session keys := by
  apply (Function.forall_update_iff locals fun other pc => other.isRight = true → ∃ keys, pc = .session keys).mpr
  exact ⟨fun right => kept (serves.sessions thread right), fun other _ right => serves.sessions other right⟩

/-- What holds of each thread holds after the step of one. -/
theorem update_keeps {holds : Pc → Prop} {next : Pc} (here : holds next) (others : ∀ other, holds (locals other)) :
    ∀ other, holds (Function.update locals thread next other) :=
  (Function.forall_update_iff locals fun _ => holds).mpr ⟨here, fun other _ => others other⟩

theorem script_of_files (found : setting.directory.files entry = some files) (opens : setting.directory.opens files = true)
    {commands' : List JobCommand}
    (read : commands (setting.stack entry) (setting.contents files.inPath) = some (commands', rest)) :
    script setting entry = commands' := by
  simp only [script, found, opens, ↓reduceIte, read, Option.map_some, Option.getD_some]

/-- `run_job` begins with the whole file before it. -/
theorem Serves.opened (sound : Sound setting lookups) (serves : Serves setting table trace shared locals memory)
    (here : locals thread = .dispatch (.runJob entry files)) :
    Serves setting table trace shared
      (Function.update locals thread (.running entry files (setting.contents files.inPath))) memory := by
  have holding : held (locals thread).getFile = some entry := by rw [here]; rfl
  obtain ⟨notRan, only⟩ := serves.sole holding
  have nothing : own entry (performedIn trace) = [] := by
    apply serves.fresh entry _ notRan
    intro other inJob
    have same := only other inJob
    subst same
    rw [here] at inJob
    cases inJob
  obtain ⟨worker, same⟩ := serves.worker fun keys session => Pc.noConfusion (here.symm.trans session)
  have fits := serves.files.fits worker
  have inRunJob : (getFiles shared locals).threads worker = .runJob entry files := by
    simp only [getFiles, ← same, here, Pc.getFile]
  rw [inRunJob] at fits
  obtain ⟨⟨commands', rest⟩, read⟩ := Option.isSome_iff_exists.mp (sound.parsed entry files fits.1 fits.2)
  refine ⟨serves.settled, serves.explained, ?_, ?_, ?_, ?_, serves.ended, ?_⟩
  · rw [getFiles_kept shared (by rw [here]; rfl)]
    exact serves.files
  · apply serves.sessions_keep
    rintro ⟨keys, session⟩
    cases here.symm.trans session
  · exact update_keeps (by trivial : Looked (.running _ _ _)) serves.looked
  · apply update_keeps _ serves.begun
    refine ⟨commands', rest, read, ?_⟩
    rw [nothing, List.nil_append, script_of_files fits.1 fits.2 read]
  · intro entry' unstarted notRan'
    apply serves.fresh entry' _ notRan'
    intro other inJob
    apply unstarted other
    rwa [Function.update_of_ne]
    intro same
    subst same
    rw [here] at inJob
    cases inJob

theorem performedIn_dispatched (events : List JobDispatch.Event) : performedIn (events.map .dispatched) = [] := by
  induction events with
  | nil => rfl
  | cons event events ih => exact ih

theorem dispatchedIn_dispatched (events : List JobDispatch.Event) : dispatchedIn (events.map .dispatched) = events := by
  induction events with
  | nil => rfl
  | cons event events ih => exact congrArg (List.cons event) ih

theorem explained_dispatched (events : List JobDispatch.Event) (bindings : Bindings) :
    Explained bindings (events.map .dispatched) := by
  induction events with
  | nil => trivial
  | cons event events ih => exact ih

theorem runJob_of_ran {pc : ThreadPc} (ran : .ran entry ∈ threadEvents setting.directory shared pc) :
    ∃ files, pc = .runJob entry files := by
  cases pc with
  | runJob other files =>
    cases List.mem_singleton.mp ran
    exact ⟨files, rfl⟩
  | readdir =>
    simp only [threadEvents] at ran
    split at ran
    · cases ran
    · split at ran <;> simp at ran
  | openInput _ _ | openOutput _ _ =>
    simp only [threadEvents] at ran
    split_ifs at ran <;> simp at ran
  | lock | failed | exited => cases ran

theorem runJob_of_job {pc : Pc} (job : pc.job = some entry) : ∃ files, pc.getFile = .runJob entry files := by
  cases pc with
  | running other files | notifying other files =>
    cases job
    exact ⟨files, rfl⟩
  | dispatch | session => cases job

/-- A statement of `get_file`, of which the last turn of `run_job` is one. -/
theorem Serves.dispatched (serves : Serves setting table trace shared locals memory) {next : Shared × ThreadPc}
    (stepped : threadStep setting.directory shared (locals thread).getFile = some next)
    (finished : ∀ entry files, (locals thread).getFile = .runJob entry files → ∃ stream rest,
      locals thread = .running entry files stream ∧ commands (setting.stack entry) stream = some ([], rest)) :
    Serves setting table (trace ++ (threadEvents setting.directory shared (locals thread).getFile).map .dispatched)
      next.1 (Function.update locals thread (.dispatch next.2)) memory := by
  obtain ⟨events, emitted⟩ := Exists.intro _ (Eq.refl (threadEvents setting.directory shared (locals thread).getFile))
  rw [emitted]
  have sameOrder : performedIn (trace ++ events.map .dispatched) = performedIn trace := by
    rw [performedIn_append, performedIn_dispatched, List.append_nil]
  have moreEvents : dispatchedIn (trace ++ events.map .dispatched) = dispatchedIn trace ++ events := by
    rw [dispatchedIn_append, dispatchedIn_dispatched]
  have busy : ∀ keys, locals thread ≠ .session keys := by
    intro keys session
    rw [session] at stepped
    cases stepped
  obtain ⟨worker, same⟩ := serves.worker busy
  refine ⟨?_, ?_, ?_, ?_, ?_, ?_, ?_, ?_⟩
  · unfold bindingsAfter
    rw [sameOrder]
    exact serves.settled
  · exact explained_append.mpr ⟨serves.explained, explained_dispatched events _⟩
  · have stepped' : (JobDispatch.machine setting.directory maxThreads).step (getFiles shared locals) worker =
        some ((getFiles shared locals).withThread worker next) := by
      show Option.map _ (threadStep setting.directory shared (locals (.inl worker)).getFile) = _
      rw [← same, stepped]
      rfl
    have after := invariant_step serves.files stepped'
    have observed : (JobDispatch.machine setting.directory maxThreads).observe (getFiles shared locals) worker = events := by
      rw [← emitted, same]
      rfl
    have moved : (getFiles shared locals).withThread worker next =
        getFiles next.1 (Function.update locals thread (.dispatch next.2)) := by
      rw [same]
      exact congrArg (JobDispatch.State.mk next.1) (getFiles_update next.1 locals worker (.dispatch next.2)).symm
    rwa [observed, moved, ← moreEvents] at after
  · apply serves.sessions_keep
    rintro ⟨keys, session⟩
    exact absurd session (busy keys)
  · exact update_keeps (by trivial : Looked (.dispatch next.2)) serves.looked
  · apply update_keeps (by trivial : Begun setting _ (.dispatch next.2))
    intro other
    unfold Begun
    rw [sameOrder]
    exact serves.begun other
  · intro entry ran
    rw [moreEvents] at ran
    rw [sameOrder]
    rcases List.mem_append.mp ran with before | now
    · exact serves.ended entry before
    · rw [← emitted] at now
      obtain ⟨files, here⟩ := runJob_of_ran now
      obtain ⟨stream, rest, running, nothing⟩ := finished entry files here
      have begun := serves.begun thread
      rw [running] at begun
      obtain ⟨later, rest', read, whole⟩ := begun
      rw [nothing] at read
      cases read
      rwa [List.append_nil] at whole
  · intro entry unstarted notRan
    rw [moreEvents, List.mem_append, not_or] at notRan
    rw [sameOrder]
    apply serves.fresh entry _ notRan.1
    intro other inJob
    by_cases here : other = thread
    · subst here
      apply notRan.2
      obtain ⟨files, running⟩ := runJob_of_job inJob
      rw [← emitted, running]
      exact List.mem_singleton_self _
    · apply unstarted other
      rwa [Function.update_of_ne here]

theorem own_performed (trace : List JobThreads.Event) (entry : Nat) (command : JobCommand) (reply : Option Reply) :
    own entry (performedIn (trace ++ [.performed entry command reply])) = own entry (performedIn trace) ++ [command] := by
  rw [performedIn_append, own_append]
  exact congrArg _ own_cons_self

theorem own_performed_of_ne {other : Nat} (different : entry ≠ other) (trace : List JobThreads.Event) (command : JobCommand)
    (reply : Option Reply) :
    own other (performedIn (trace ++ [.performed entry command reply])) = own other (performedIn trace) := by
  rw [performedIn_append, own_append]
  have nothing : own other (performedIn [.performed entry command reply]) = [] := own_cons_of_ne different
  rw [nothing, List.append_nil]

omit [DecidableEq Session] in
/-- The command that `run_job` comes to is the next one of its job. -/
theorem Serves.command_next (serves : Serves setting table trace shared locals memory) {command : JobCommand}
    (here : locals thread = .running entry files stream)
    (read : nextCommand (setting.stack entry) stream = some (some command, rest)) :
    ∃ later last, commands (setting.stack entry) rest = some (later, last) ∧
      own entry (performedIn trace) ++ command :: later = script setting entry := by
  have begun := serves.begun thread
  rw [here] at begun
  obtain ⟨whole', last, parsed, whole⟩ := begun
  rw [commands_turn read] at parsed
  obtain ⟨⟨later, last'⟩, parsed', made⟩ := Option.map_eq_some_iff.mp parsed
  cases made
  exact ⟨later, last', parsed', whole⟩

/-- A thread in the job with these bytes left. -/
inductive InJob (entry : Nat) (files : JobPaths) (stream : List UInt8) : Pc → Prop where
  | running : InJob entry files stream (.running entry files stream)
  | notifying (pairs : List (CString × CString)) : InJob entry files stream (.notifying entry files stream pairs)

/-- A command of `run_job` that does to the table what it means. -/
theorem Serves.performed (sound : Sound setting lookups) (serves : Serves setting table trace shared locals memory)
    {command : JobCommand} {reply : Option Reply} {next : HashTable} {pc : Pc}
    (here : locals thread = .running entry files stream)
    (read : nextCommand (setting.stack entry) stream = some (some command, rest)) (inJob : InJob entry files rest pc)
    (does : ∀ bindings : Bindings, memory = bindings.table → (∀ key ∈ command.keys, Alphanumeric key) →
      next = (meaning true command bindings).1.table ∧ fileBytes reply = (meaning true command bindings).2.out ∧
        copied reply = (meaning true command bindings).2.backups.map fun kvsTable => (kvsTable.map traversal).getD []) :
    Serves setting table (trace ++ [.performed entry command reply]) shared (Function.update locals thread pc) next := by
  obtain ⟨later, last, parsed, whole⟩ := serves.command_next here read
  have member : command ∈ script setting entry := whole ▸ List.mem_append_right _ List.mem_cons_self
  obtain ⟨settled, bytes, copies⟩ := does _ serves.settled (sound.keyed entry command member)
  have holding : held (locals thread).getFile = some entry := by rw [here]; rfl
  obtain ⟨notRan, only⟩ := serves.sole holding
  have sameEvents : dispatchedIn (trace ++ [.performed entry command reply]) = dispatchedIn trace := by
    rw [dispatchedIn_append]
    exact List.append_nil _
  have job : pc.job = some entry := by cases inJob <;> rfl
  refine ⟨?_, ?_, ?_, ?_, ?_, ?_, ?_, ?_⟩
  · rw [bindingsAfter_append]
    exact settled
  · exact explained_append.mpr ⟨serves.explained, ⟨bytes, copies⟩, trivial⟩
  · have sameFile : pc.getFile = (locals thread).getFile := by
      rw [here]
      cases inJob <;> rfl
    rw [sameEvents, getFiles_kept shared sameFile]
    exact serves.files
  · apply serves.sessions_keep
    rintro ⟨keys, session⟩
    cases here.symm.trans session
  · have looked : Looked pc := by cases inJob <;> trivial
    exact update_keeps looked serves.looked
  · intro other
    by_cases same : other = thread
    · subst same
      rw [Function.update_self]
      have begun : Begun setting (trace ++ [.performed entry command reply]) (.running entry files rest) := by
        refine ⟨later, last, parsed, ?_⟩
        rw [own_performed, List.append_assoc]
        exact whole
      cases inJob <;> exact begun
    · rw [Function.update_of_ne same]
      have before := serves.begun other
      have elsewhere : ∀ entry', (locals other).job = some entry' → entry ≠ entry' := by
        intro entry' job' equal
        subst equal
        exact same (only other job')
      cases here' : locals other with
      | dispatch pc => trivial
      | session keys => trivial
      | running entry' | notifying entry' =>
        rw [here'] at before elsewhere
        simp only [Begun, own_performed_of_ne (elsewhere entry' rfl)]
        exact before
  · intro entry' ran
    rw [sameEvents] at ran
    have different : entry ≠ entry' := by
      intro equal
      subst equal
      exact notRan ran
    rw [own_performed_of_ne different]
    exact serves.ended entry' ran
  · intro entry' unstarted notRan'
    rw [sameEvents] at notRan'
    have different : entry ≠ entry' := by
      intro equal
      subst equal
      apply unstarted thread
      rwa [Function.update_self]
    rw [own_performed_of_ne different]
    apply serves.fresh entry' _ notRan'
    intro other job'
    apply unstarted other
    rwa [Function.update_of_ne]
    intro same
    subst same
    rw [here] at job'
    exact different (Option.some.inj job')

/-- A step that leaves the table and the place in the job: a call of `notify_clients`, the
end of that loop, and a lookup. -/
theorem Serves.aside (serves : Serves setting table trace shared locals memory) {events : List JobThreads.Event} {next : Pc}
    (uncounted : performedIn events = []) (unseen : dispatchedIn events = [])
    (explained : ∀ bindings : Bindings, memory = bindings.table → Explained bindings events)
    (sameFile : next.getFile = (locals thread).getFile) (sameJob : next.job = (locals thread).job)
    (session : (∃ keys, locals thread = .session keys) → ∃ keys, next = .session keys) (looked : Looked next)
    (begun : Begun setting trace (locals thread) → Begun setting trace next) :
    Serves setting table (trace ++ events) shared (Function.update locals thread next) memory := by
  have sameOrder : performedIn (trace ++ events) = performedIn trace := by rw [performedIn_append, uncounted, List.append_nil]
  have sameEvents : dispatchedIn (trace ++ events) = dispatchedIn trace := by
    rw [dispatchedIn_append, unseen, List.append_nil]
  refine ⟨?_, ?_, ?_, serves.sessions_keep session, update_keeps looked serves.looked, ?_, ?_, ?_⟩
  · unfold bindingsAfter
    rw [sameOrder]
    exact serves.settled
  · exact explained_append.mpr ⟨serves.explained, explained _ serves.settled⟩
  · rw [sameEvents, getFiles_kept shared sameFile]
    exact serves.files
  · unfold Begun at begun ⊢
    rw [sameOrder]
    exact update_keeps (begun (serves.begun thread)) serves.begun
  · rw [sameEvents, sameOrder]
    exact serves.ended
  · intro entry unstarted notRan
    rw [sameEvents] at notRan
    rw [sameOrder]
    apply serves.fresh entry _ notRan
    intro other job
    apply unstarted other
    by_cases same : other = thread
    · subst same
      rw [Function.update_self, sameJob, job]
    · rwa [Function.update_of_ne same]

theorem Serves.keeps (sound : Sound setting lookups) (serves : Serves setting table trace shared locals memory) {next : Pc}
    {shared' : Shared} {memory' : HashTable} {events : List JobThreads.Event}
    (turns : Turns setting (locals thread) shared memory next shared' memory' events) :
    Serves setting table (trace ++ events) shared' (Function.update locals thread next) memory' := by
  cases turns with
  | opened here =>
    rw [List.append_nil]
    exact serves.opened sound here
  | dispatched stepped finished => exact serves.dispatched stepped finished
  | kept here read made =>
    apply serves.performed sound here read .running
    intro bindings settled valid
    obtain ⟨same, out, backups⟩ := own_meaning made
    rw [same, out, backups]
    exact ⟨settled, rfl, rfl⟩
  | called here read made reached =>
    apply serves.performed sound here read (.notifying _)
    intro bindings settled valid
    subst settled
    obtain ⟨settled, bytes, copies, _⟩ := call_meaning made valid reached
    exact ⟨settled, bytes, copies⟩
  | noticed here | resumed here =>
    refine serves.aside rfl rfl ?_ ?_ ?_ ?_ trivial ?_
    · exact fun _ _ => trivial
    · rw [here]
      rfl
    · rw [here]
      rfl
    · rintro ⟨keys, session⟩
      cases here.symm.trans session
    · rw [here]
      exact id
  | @answered key keys reply _ here reached =>
    have looked := serves.looked thread
    rw [here] at looked
    obtain ⟨valid, valid'⟩ := List.forall_mem_cons.mp looked
    have answer : ∀ bindings : Bindings, memory = bindings.table →
        memory' = memory ∧ reply = .status (if (bindings.contents key).isSome then 1 else 0) := by
      intro bindings settled
      subst settled
      exact lookup_meaning valid reached
    obtain ⟨same, _⟩ := answer _ serves.settled
    subst same
    refine serves.aside rfl rfl ?_ ?_ ?_ ?_ valid' ?_
    · exact fun bindings settled => ⟨(answer bindings settled).2, trivial⟩
    · rw [here]
      rfl
    · rw [here]
      rfl
    · exact fun _ => ⟨keys, rfl⟩
    · exact fun _ => trivial

omit [DecidableEq Session] in
theorem serves_start (sound : Sound setting lookups) :
    Serves setting table [] (start maxThreads table lookups).shared (start maxThreads table lookups).locals
      (start maxThreads table lookups).memory where
  settled := (table_ofTable table).symm
  explained := trivial
  files := invariant_initial setting.directory maxThreads
  sessions := fun thread right => by
    cases thread with
    | inl worker => cases right
    | inr session => exact ⟨lookups session, rfl⟩
  looked := fun thread => by
    cases thread with
    | inl worker => trivial
    | inr session => exact sound.looked session
  begun := fun thread => by cases thread <;> trivial
  ended := fun _ member => absurd member List.not_mem_nil
  fresh := fun _ _ _ => rfl

theorem serves_of_atomic (sound : Sound setting lookups) {whole : Whole (Fin maxThreads ⊕ Session) HashTable Shared Pc}
    (atomic : Atomic tableCode (program setting) (start maxThreads table lookups) trace whole) :
    Serves setting table trace whole.shared whole.locals whole.memory := by
  induction atomic with
  | refl => exact serves_start sound
  | own _ turn stepped ih => exact ih.keeps sound (turns_of_own turn stepped)
  | call _ turn reached ih => exact ih.keeps sound (turns_of_call turn reached)

omit [DecidableEq Session] in
/-- The commands of an entry that were done, at any time. -/
theorem Serves.own_done (serves : Serves setting table trace shared locals memory) (entry : Nat) :
    own entry (performedIn trace) <+: script setting entry := by
  by_cases inJob : ∃ thread, (locals thread).job = some entry
  · obtain ⟨thread, job⟩ := inJob
    have begun := serves.begun thread
    cases here : locals thread with
    | dispatch | session =>
      rw [here] at job
      cases job
    | running | notifying =>
      rw [here] at begun job
      cases job
      obtain ⟨later, _, _, whole⟩ := begun
      exact ⟨later, whole⟩
  · by_cases ran : .ran entry ∈ dispatchedIn trace
    · rw [serves.ended entry ran]
    · rw [serves.fresh entry (not_exists.mp inJob) ran]
      exact List.nil_prefix

omit [DecidableEq Session] in
theorem script_eq_nil (idle : setting.directory.runnable entry = false) : script setting entry = [] := by
  unfold Directory.runnable at idle
  unfold script
  cases found : setting.directory.files entry with
  | none => rfl
  | some files =>
    rw [found, Option.any_some] at idle
    simp only [idle, Bool.false_eq_true, ↓reduceIte]

omit [DecidableEq Session] in
theorem Serves.idle_of_finished (serves : Serves setting table trace shared locals memory)
    (finished : (getFiles shared locals).Finished) (entry : Nat) (thread : Fin maxThreads ⊕ Session) :
    (locals thread).job ≠ some entry := by
  intro job
  have busy : ∀ keys, locals thread ≠ .session keys := by
    intro keys session
    rw [session] at job
    cases job
  obtain ⟨worker, same⟩ := serves.worker busy
  obtain ⟨files, running⟩ := runJob_of_job job
  have ended := finished worker
  simp only [getFiles, ← same, running] at ended
  cases ended

omit [DecidableEq Session] in
/-- When the `get_file` threads have ended, the jobs are done but for those that nobody was left to take. -/
theorem Serves.all_done (serves : Serves setting table trace shared locals memory)
    (finished : (getFiles shared locals).Finished) (entry : Nat) : own entry (performedIn trace) =
      if setting.directory.failuresBefore entry < maxThreads then script setting entry else [] := by
  have idle := serves.idle_of_finished finished entry
  by_cases runs : setting.directory.runnable entry = true
  · have counted := count_of_finished serves.files finished runs
    have few := reached_iff serves.files finished runs
    by_cases before : setting.directory.failuresBefore entry < maxThreads
    · rw [if_pos (few.mpr before)] at counted
      rw [if_pos before]
      exact serves.ended entry (List.count_pos_iff.mp (counted ▸ Nat.one_pos))
    · rw [if_neg (fun reached => before (few.mp reached))] at counted
      rw [if_neg before]
      exact serves.fresh entry idle (List.count_eq_zero.mp counted)
  · have nothing := script_eq_nil (Bool.eq_false_iff.mpr runs)
    have none := serves.own_done entry
    rw [nothing, List.prefix_nil] at none
    rw [none, nothing, ite_self]

variable [Fintype Session] {state : AtomicCalls.State (Fin maxThreads ⊕ Session) LockedCall HashTable Stage Reply Shared Pc}
  {guard : AtomicCalls.State (Fin maxThreads ⊕ Session) LockedCall HashTable Stage Reply Shared Pc →
    AtomicCalls.Action (Fin maxThreads ⊕ Session) → Prop}

/-- The jobs are serializable. However the threads interleave, node by node, there is one
order of whole commands, in which each job keeps its own, that explains every byte of the
output files, every backup and every answer to a lookup, and leaves the same table. -/
theorem jobs_serializable (sound : Sound setting lookups)
    (run : Run (AtomicCalls.machine tableCode (program setting)) guard
      (AtomicCalls.initial (start maxThreads table lookups)) trace state) :
    Explained (Bindings.ofTable table) trace ∧
      (state.lock.writing = false → state.lock.memory = (bindingsAfter (Bindings.ofTable table) trace).table) ∧
      (∀ entry, own entry (performedIn trace) <+: script setting entry) ∧
      ((getFiles state.shared state.locals).Finished → ∀ entry, own entry (performedIn trace) =
        if setting.directory.failuresBefore entry < maxThreads then script setting entry else []) := by
  obtain ⟨settled, follows⟩ := follows_of_run run
  have serves := serves_of_atomic sound follows.atomic
  refine ⟨serves.explained, ?_, serves.own_done, serves.all_done⟩
  intro free
  rw [follows.settles.unwritten free]
  exact serves.settled

end Serves

/-- One job writes and reads a key that the other reads. -/
def twoJobs : Setting where
  directory := ⟨literal "jobs", [literal "a.job", literal "b.job"], fun _ => true, fun _ => true⟩
  contents := fun inPath => if inPath = literal "jobs/a.job" then text "WRITE [(a,b)]\nREAD [a]\n" else text "READ [a]\n"
  stack := fun _ _ => 0

def oneKey (_session : Unit) : List CString := [literal "a"]

/-- The second job and the session are at the same node together, with the lock taken for reading. -/
def meeting : List (AtomicCalls.Action (Fin 2 ⊕ Unit)) :=
  let writer : Fin 2 ⊕ Unit := .inl ⟨0, Nat.two_pos⟩
  let reader : Fin 2 ⊕ Unit := .inl ⟨1, Nat.one_lt_two⟩
  let session : Fin 2 ⊕ Unit := .inr ()
  List.replicate 5 (.own writer) ++ List.replicate 5 (.own reader) ++
    [.request reader, .request writer, .acquire writer, .request session, .work writer, .work writer, .release writer,
      .acquire session, .acquire reader, .work reader, .work session, .release session, .own writer, .own writer,
      .request writer, .work reader, .acquire writer, .release reader, .work writer, .work writer, .release writer] ++
    List.replicate 4 (.own writer) ++ List.replicate 4 (.own reader)

theorem twoJobs_entries {holds : Nat → Prop} (first : holds 0) (second : holds 1)
    (others : ∀ entry, twoJobs.directory.files entry = none → holds entry) (entry : Nat) : holds entry := by
  match entry with
  | 0 => exact first
  | 1 => exact second
  | entry + 2 => exact others (entry + 2) (Directory.files_eq_none_of_end (Nat.le_add_left 2 entry))

theorem twoJobs_sound : Sound twoJobs oneKey where
  parsed := by
    apply twoJobs_entries
    · intro files found _
      cases found
      decide
    · intro files found _
      cases found
      decide
    · intro entry none files found
      cases none.symm.trans found
  keyed := by
    apply twoJobs_entries
    · decide
    · decide
    · intro entry none command member
      simp [script, none] at member
  looked := by decide

theorem jobs_serializable_of_twoJobs :
    ∃ (trace : List JobThreads.Event) (state : AtomicCalls.State (Fin 2 ⊕ Unit) LockedCall HashTable Stage Reply Shared Pc),
      (getFiles state.shared state.locals).Finished ∧ Explained (Bindings.ofTable (Table.empty CString bucket)) trace ∧
        (state.lock.writing = false →
          state.lock.memory = (bindingsAfter (Bindings.ofTable (Table.empty CString bucket)) trace).table) ∧
        (∀ entry, own entry (performedIn trace) <+: script twoJobs entry) ∧
        ((getFiles state.shared state.locals).Finished → ∀ entry, own entry (performedIn trace) =
          if twoJobs.directory.failuresBefore entry < 2 then script twoJobs entry else []) := by
  obtain ⟨trace, state, run, finished⟩ := exists_run (AtomicCalls.machine tableCode (program twoJobs)) Always
    (AtomicCalls.initial (start 2 (Table.empty CString bucket) oneKey))
    (fun _ state => (getFiles state.shared state.locals).Finished) meeting (by decide)
  exact ⟨trace, state, finished, jobs_serializable twoJobs_sound run⟩

end IstKvs.JobSerial
