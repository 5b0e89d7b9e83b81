import IstKvs.Library.ReadWriteLock

/-! Threads that run programs. A thread does steps of its own, on variables that the
threads share, and makes calls on the memory under the lock. In every run each call may
be taken for one step, done at the moment when it gives the lock back. -/

namespace IstKvs.AtomicCalls
open LabelledRuns ThreadPool ReadWriteLock

/-- What a thread does next: a step of its own, or a call and where it goes on with the reply. -/
inductive Turn (Call Reply Shared Local Event : Type) where
  | own (step : Shared → Option (Shared × Local × List Event))
  | call (call : Call) (resume : Reply → Local × List Event)

structure State (Thread Call Memory Stage Reply Shared Local : Type) where
  shared : Shared
  locals : Thread → Local
  lock : ReadWriteLock.State Thread Call Memory Stage Reply

/-- The state that is left when no call is taken apart. -/
structure Whole (Thread Memory Shared Local : Type) where
  shared : Shared
  locals : Thread → Local
  memory : Memory

inductive Action (Thread : Type) where
  | own (thread : Thread)
  | request (thread : Thread)
  | acquire (thread : Thread)
  | work (thread : Thread)
  | release (thread : Thread)

variable {Thread Call Memory Stage Reply Shared Local Event : Type} [DecidableEq Thread]
  (code : Code Call Memory Stage Reply) (program : Local → Turn Call Reply Shared Local Event)

def lockStep (state : State Thread Call Memory Stage Reply Shared Local) (action : ReadWriteLock.Action Thread Call) :
    Option (State Thread Call Memory Stage Reply Shared Local) :=
  (ReadWriteLock.step code state.lock action).map fun lock => { state with lock := lock }

def step (state : State Thread Call Memory Stage Reply Shared Local) :
    Action Thread → Option (State Thread Call Memory Stage Reply Shared Local)
  | .own thread =>
      match state.lock.pool thread, program (state.locals thread) with
      | .outside, .own step => (step state.shared).map fun result =>
          ⟨result.1, Function.update state.locals thread result.2.1, state.lock⟩
      | _, _ => none
  | .request thread =>
      match program (state.locals thread) with
      | .call call _ => lockStep code state (.request thread call)
      | .own _ => none
  | .acquire thread => lockStep code state (.acquire thread)
  | .work thread => lockStep code state (.work thread)
  | .release thread =>
      match state.lock.pool thread, program (state.locals thread) with
      | .finished _ reply, .call _ resume => (lockStep code state (.release thread)).map fun next =>
          { next with locals := Function.update next.locals thread (resume reply).1 }
      | _, _ => none

def observe (state : State Thread Call Memory Stage Reply Shared Local) : Action Thread → List Event
  | .own thread =>
      match program (state.locals thread) with
      | .own step => ((step state.shared).map fun result => result.2.2).getD []
      | .call _ _ => []
  | .request _ | .acquire _ | .work _ => []
  | .release thread =>
      match state.lock.pool thread, program (state.locals thread) with
      | .finished _ reply, .call _ resume => (resume reply).2
      | _, _ => []

def machine : Machine (State Thread Call Memory Stage Reply Shared Local) (Action Thread) Event where
  step := step code program
  observe := observe program

def initial (start : Whole Thread Memory Shared Local) : State Thread Call Memory Stage Reply Shared Local :=
  ⟨start.shared, start.locals, ReadWriteLock.initial start.memory⟩

/-- The runs in which each call is one step. -/
inductive Atomic (start : Whole Thread Memory Shared Local) : List Event → Whole Thread Memory Shared Local → Prop where
  | refl : Atomic start [] start
  | own {trace whole thread step shared next events} : Atomic start trace whole →
      program (whole.locals thread) = .own step → step whole.shared = some (shared, next, events) →
      Atomic start (trace ++ events) ⟨shared, Function.update whole.locals thread next, whole.memory⟩
  | call {trace whole thread call resume memory reply} : Atomic start trace whole →
      program (whole.locals thread) = .call call resume → Reached code call whole.memory memory (.inr reply) →
      Atomic start (trace ++ (resume reply).2)
        ⟨whole.shared, Function.update whole.locals thread (resume reply).1, memory⟩

/-! What a step does. -/

/-- The steps with the events that they emit. -/
inductive Moves (state : State Thread Call Memory Stage Reply Shared Local) :
    Action Thread → State Thread Call Memory Stage Reply Shared Local → List Event → Prop where
  | own {thread step shared next events} : state.lock.pool thread = .outside →
      program (state.locals thread) = .own step → step state.shared = some (shared, next, events) →
      Moves state (.own thread) ⟨shared, Function.update state.locals thread next, state.lock⟩ events
  | request {thread call resume lock} : program (state.locals thread) = .call call resume →
      ReadWriteLock.step code state.lock (.request thread call) = some lock →
      Moves state (.request thread) { state with lock := lock } []
  | acquire {thread lock} : ReadWriteLock.step code state.lock (.acquire thread) = some lock →
      Moves state (.acquire thread) { state with lock := lock } []
  | work {thread lock} : ReadWriteLock.step code state.lock (.work thread) = some lock →
      Moves state (.work thread) { state with lock := lock } []
  | release {thread call call' reply resume lock} : state.lock.pool thread = .finished call reply →
      program (state.locals thread) = .call call' resume →
      ReadWriteLock.step code state.lock (.release thread) = some lock →
      Moves state (.release thread) ⟨state.shared, Function.update state.locals thread (resume reply).1, lock⟩
        (resume reply).2

variable {code program} {state next : State Thread Call Memory Stage Reply Shared Local} {action : Action Thread}

theorem moves_of_step (taken : step code program state action = some next) :
    Moves code program state action next (observe program state action) := by
  cases action with
  | own thread =>
    simp only [step] at taken
    split at taken
    next step outside turn =>
      obtain ⟨⟨shared, later, events⟩, stepped, made⟩ := Option.map_eq_some_iff.mp taken
      cases made
      have emitted : observe program state (.own thread) = events := by
        simp only [observe, turn, stepped, Option.map_some, Option.getD_some]
      rw [emitted]
      exact .own outside turn stepped
    next => cases taken
  | request thread =>
    simp only [step] at taken
    split at taken
    next call resume turn =>
      obtain ⟨lock, locked, made⟩ := Option.map_eq_some_iff.mp taken
      cases made
      exact .request turn locked
    next => cases taken
  | acquire thread =>
    obtain ⟨lock, locked, made⟩ := Option.map_eq_some_iff.mp taken
    cases made
    exact .acquire locked
  | work thread =>
    obtain ⟨lock, locked, made⟩ := Option.map_eq_some_iff.mp taken
    cases made
    exact .work locked
  | release thread =>
    simp only [step] at taken
    split at taken
    next call reply call' resume finished turn =>
      obtain ⟨between, released, made⟩ := Option.map_eq_some_iff.mp taken
      obtain ⟨lock, locked, between'⟩ := Option.map_eq_some_iff.mp released
      subst between'
      cases made
      have emitted : observe program state (.release thread) = (resume reply).2 := by
        simp only [observe, finished, turn]
      rw [emitted]
      exact .release finished turn locked
    next => cases taken

/-! Every run is a run of whole calls. -/

/-- A thread that has made a call is at that call in its program. -/
def Agrees (program : Local → Turn Call Reply Shared Local Event)
    (state : State Thread Call Memory Stage Reply Shared Local) : Prop :=
  ∀ thread, ∀ call ∈ (state.lock.pool thread).pending, ∃ resume, program (state.locals thread) = .call call resume

theorem Agrees.keeps {events : List Event} (agrees : Agrees program state)
    (moves : Moves code program state action next events) : Agrees program next := by
  have change : ∀ thread phase, (∀ call ∈ phase.pending, ∃ resume, program (state.locals thread) = .call call resume) →
      ∀ other, ∀ call ∈ (Function.update state.lock.pool thread phase other).pending,
        ∃ resume, program (state.locals other) = .call call resume := by
    intro thread phase good other call member
    by_cases same : other = thread
    · subst same
      rw [Function.update_self] at member
      exact good call member
    · rw [Function.update_of_ne same] at member
      exact agrees other call member
  cases moves with
  | @own thread step shared later events outside turn stepped =>
    intro other call member
    by_cases same : other = thread
    · subst same
      rw [outside] at member
      cases member
    · show ∃ resume, program (Function.update state.locals thread later other) = _
      rw [Function.update_of_ne same]
      exact agrees other call member
  | @request thread call resume lock turn locked =>
    cases ReadWriteLock.moves_of_step locked with
    | request outside =>
      apply change thread (.waiting call)
      intro own member
      exact List.mem_singleton.mp member ▸ ⟨resume, turn⟩
  | @acquire thread lock locked =>
    cases ReadWriteLock.moves_of_step locked with
    | @write _ call waiting _ _ _ =>
      exact change thread (.inside call _) (by simpa [waiting, Phase.pending] using agrees thread)
    | @read _ call waiting _ _ =>
      exact change thread (.inside call _) (by simpa [waiting, Phase.pending] using agrees thread)
  | @work thread lock locked =>
    cases ReadWriteLock.moves_of_step locked with
    | @goOn _ call _ _ later inside _ =>
      exact change thread (.inside call later) (by simpa [inside, Phase.pending] using agrees thread)
    | @finish _ call _ _ reply inside _ =>
      exact change thread (.finished call reply) (by simpa [inside, Phase.pending] using agrees thread)
  | @release thread call call' reply resume lock finished turn locked =>
    cases ReadWriteLock.moves_of_step locked with
    | release _ =>
      intro other own member
      by_cases same : other = thread
      · subst same
        change own ∈ (Function.update state.lock.pool other .outside other).pending at member
        rw [Function.update_self] at member
        cases member
      · change own ∈ (Function.update state.lock.pool thread .outside other).pending at member
        rw [Function.update_of_ne same] at member
        show ∃ resume, program (Function.update state.locals thread _ other) = _
        rw [Function.update_of_ne same]
        exact agrees other own member

omit [DecidableEq Thread] in
/-- What is coherent depends on the calls that returned only. -/
theorem coherent_congr {start : Memory} {trace trace' : List (ReadWriteLock.Event Thread Call Reply)}
    {lock : ReadWriteLock.State Thread Call Memory Stage Reply} (coherent : Coherent code start trace lock)
    (same : returns trace = returns trace') : Coherent code start trace' lock := by
  unfold Coherent at coherent ⊢
  rwa [← same]

theorem settled_of_nil {start memory : Memory} {history : List (Call × Reply)}
    (serial : Serial code start history memory) (none : history = []) : memory = start := by
  cases serial with
  | nil => rfl
  | snoc => simp at none

theorem reached_of_single {start memory : Memory} {history : List (Call × Reply)} {call : Call} {reply : Reply}
    (serial : Serial code start history memory) (single : history = [(call, reply)]) :
    Reached code call start memory (.inr reply) := by
  cases serial with
  | nil => cases single
  | @snoc earlier middle call' reply' next before reached =>
    obtain ⟨none, same⟩ := List.append_inj' (single.trans (List.nil_append _).symm) rfl
    cases same
    rwa [settled_of_nil before none] at reached

/-- The lock, and a memory from which every thread that has it set out. -/
structure Settled [Fintype Thread] (code : Code Call Memory Stage Reply) (settled : Memory)
    (lock : ReadWriteLock.State Thread Call Memory Stage Reply) : Prop where
  locked : Locked code lock
  coherent : Coherent code settled [] lock

variable [Fintype Thread] {settled : Memory} {lock lock' : ReadWriteLock.State Thread Call Memory Stage Reply}

omit [DecidableEq Thread] in
theorem Settled.unwritten (settles : Settled code settled lock) (free : lock.writing = false) : lock.memory = settled := by
  obtain ⟨settled', serial, unwritten, _⟩ := settles.coherent
  rw [unwritten free]
  exact settled_of_nil serial rfl

/-- Until a call returns, the memory stays settled where it was. -/
theorem Settled.keeps (settles : Settled code settled lock) {action : ReadWriteLock.Action Thread Call}
    (taken : ReadWriteLock.step code lock action = some lock')
    (none : returns (ReadWriteLock.observe lock action) = []) : Settled code settled lock' := by
  have moves := ReadWriteLock.moves_of_step taken
  exact ⟨settles.locked.keeps moves, coherent_congr (settles.coherent.keeps settles.locked moves) none⟩

/-- A call that returns has gone from the settled memory to the next one. -/
theorem Settled.returns (settles : Settled code settled lock) {thread : Thread} {call : Call} {reply : Reply}
    (finished : lock.pool thread = .finished call reply)
    (taken : ReadWriteLock.step code lock (.release thread) = some lock') :
    ∃ settled', Reached code call settled settled' (.inr reply) ∧ Settled code settled' lock' := by
  have moves := ReadWriteLock.moves_of_step taken
  obtain ⟨settled', serial, unwritten, reached⟩ := settles.coherent.keeps settles.locked moves
  refine ⟨settled', reached_of_single serial ?_, settles.locked.keeps moves, settled', .nil, unwritten, reached⟩
  simp only [List.nil_append, ReadWriteLock.observe, finished]
  rfl

variable {start : Whole Thread Memory Shared Local} {trace : List Event}
  {guard : State Thread Call Memory Stage Reply Shared Local → Action Thread → Prop}

/-- What holds in every state of a run, with the memory that the calls which returned have left. -/
structure Follows (code : Code Call Memory Stage Reply) (program : Local → Turn Call Reply Shared Local Event)
    (start : Whole Thread Memory Shared Local) (trace : List Event)
    (state : State Thread Call Memory Stage Reply Shared Local) (settled : Memory) : Prop where
  agrees : Agrees program state
  settles : Settled code settled state.lock
  atomic : Atomic code program start trace ⟨state.shared, state.locals, settled⟩

theorem Follows.keeps {events : List Event} (follows : Follows code program start trace state settled)
    (moves : Moves code program state action next events) :
    ∃ settled', Follows code program start (trace ++ events) next settled' := by
  obtain ⟨agrees', settles, atomic⟩ := follows
  have agrees := agrees'.keeps moves
  cases moves with
  | own outside turn stepped => exact ⟨settled, agrees, settles, atomic.own turn stepped⟩
  | request turn locked =>
    rw [List.append_nil]
    exact ⟨settled, agrees, settles.keeps locked rfl, atomic⟩
  | acquire locked | work locked =>
    rw [List.append_nil]
    exact ⟨settled, agrees, settles.keeps locked rfl, atomic⟩
  | @release thread call call' reply resume lock finished turn locked =>
    obtain ⟨settled', reached, settles'⟩ := settles.returns finished locked
    obtain ⟨resume', turn'⟩ := agrees' thread call (by simp [finished, Phase.pending])
    rw [turn] at turn'
    cases turn'
    exact ⟨settled', agrees, settles', atomic.call turn reached⟩

/-- Every run is a run of whole calls with the same events. -/
theorem follows_of_run (run : Run (machine code program) guard (initial start) trace state) :
    ∃ settled, Follows code program start trace state settled := by
  apply run.induct fun trace state => ∃ settled, Follows code program start trace state settled
  · have idle : Locked code (ReadWriteLock.initial start.memory : ReadWriteLock.State Thread Call Memory Stage Reply) :=
      (linearized (Run.refl : Run (ReadWriteLock.machine code) Always (ReadWriteLock.initial start.memory) [] _)).1
    refine ⟨start.memory, ?_, ⟨idle, start.memory, .nil, fun _ => rfl, ?_⟩, .refl⟩
    · intro thread call member
      cases member
    · intro thread call result holds
      cases holds
  · rintro trace state action next ⟨settled, follows⟩ _ taken
    exact follows.keeps (moves_of_step taken)

/-! Every schedule comes to an end, when the programs and the calls do. -/

section Ending

/-- A call that nobody disturbs takes this many steps to its reply. -/
inductive Lasts (code : Code Call Memory Stage Reply) : Memory → Stage → Nat → Prop where
  | last {memory stage next reply} : code.step memory stage = some (next, .inr reply) → Lasts code memory stage 1
  | more {memory stage next later steps} : code.step memory stage = some (next, .inl later) → Lasts code next later steps →
      Lasts code memory stage (steps + 1)

omit [DecidableEq Thread] [Fintype Thread] in
theorem lasts_of_ends {memory : Memory} {stage : Stage} (ends : Ends code memory stage) : ∃ steps, Lasts code memory stage steps := by
  induction ends with
  | last worked => exact ⟨1, .last worked⟩
  | more worked _ ih =>
    obtain ⟨steps, lasts⟩ := ih
    exact ⟨steps + 1, .more worked lasts⟩

theorem Lasts.positive {memory : Memory} {stage : Stage} {steps : Nat} (lasts : Lasts code memory stage steps) : 0 < steps := by
  cases lasts <;> exact Nat.succ_pos _

theorem Lasts.later {memory memory' : Memory} {stage stage' : Stage} {steps : Nat} (lasts : Lasts code memory stage steps)
    (worked : code.step memory stage = some (memory', .inl stage')) : Lasts code memory' stage' (steps - 1) := by
  cases lasts with
  | last worked' => cases worked'.symm.trans worked
  | more worked' rest =>
    cases worked'.symm.trans worked
    exact rest

/-- Each step of a program's own and each return of a call lowers the measure, and each
call that a program makes comes to its end. -/
structure Bounded (code : Code Call Memory Stage Reply) (program : Local → Turn Call Reply Shared Local Event)
    (start : Whole Thread Memory Shared Local) (measure : Shared → (Thread → Local) → Nat) : Prop where
  own : ∀ {trace whole thread step shared next events}, Atomic code program start trace whole →
    program (whole.locals thread) = .own step → step whole.shared = some (shared, next, events) →
    measure shared (Function.update whole.locals thread next) < measure whole.shared whole.locals
  call : ∀ {trace whole thread call resume memory reply}, Atomic code program start trace whole →
    program (whole.locals thread) = .call call resume → Reached code call whole.memory memory (.inr reply) →
    measure whole.shared (Function.update whole.locals thread (resume reply).1) < measure whole.shared whole.locals
  ends : ∀ {trace whole thread call resume memory stage}, Atomic code program start trace whole →
    program (whole.locals thread) = .call call resume → Reached code call whole.memory memory (.inl stage) →
    Ends code memory stage

/-- The steps that are left of the calls inside. -/
def Budget (code : Code Call Memory Stage Reply) (lock : ReadWriteLock.State Thread Call Memory Stage Reply)
    (left : Thread → Nat) : Prop :=
  ∀ thread call stage, lock.pool thread = .inside call stage → Lasts code lock.memory stage (left thread)

def outsideWeight : Phase Call Stage Reply → Nat
  | .outside => 1
  | .waiting _ | .inside _ _ | .finished _ _ => 0

def waitingWeight : Phase Call Stage Reply → Nat
  | .waiting _ => 1
  | .outside | .inside _ _ | .finished _ _ => 0

omit [DecidableEq Thread] in
theorem Settled.reached (settles : Settled code settled lock) {thread : Thread} {call : Call} {result : Stage ⊕ Reply}
    (holds : (lock.pool thread).holding = some (call, result)) : Reached code call settled lock.memory result := by
  obtain ⟨settled', serial, _, reached⟩ := settles.coherent
  have here := reached thread call result holds
  rwa [settled_of_nil serial rfl] at here

variable {measure : Shared → (Thread → Local) → Nat}

theorem Follows.budget (follows : Follows code program start trace state settled)
    (bounded : Bounded code program start measure) : ∃ left, Budget code state.lock left := by
  have each : ∀ thread, ∃ left, ∀ call stage, state.lock.pool thread = .inside call stage →
      Lasts code state.lock.memory stage left := by
    intro thread
    cases phase : state.lock.pool thread with
    | outside | waiting | finished =>
      refine ⟨0, ?_⟩
      intro call stage same
      cases same
    | inside call stage =>
      obtain ⟨resume, turn⟩ := follows.agrees thread call (by simp [phase, Phase.pending])
      have reached := follows.settles.reached (congrArg Phase.holding phase)
      obtain ⟨left, lasts⟩ := lasts_of_ends (bounded.ends follows.atomic turn reached)
      refine ⟨left, ?_⟩
      intro call' stage' same
      cases same
      exact lasts
  choose left budget using each
  exact ⟨left, budget⟩

/-- A step of a call inside uses up one of its steps, and none of the others'. -/
theorem budget_work {left : Thread → Nat} (settles : Settled code settled lock) (budget : Budget code lock left) {thread : Thread}
    (taken : ReadWriteLock.step code lock (.work thread) = some lock') :
    Budget code lock' (Function.update left thread (left thread - 1)) ∧ 0 < left thread := by
  have others : ∀ {call stage memory result}, lock.pool thread = .inside call stage →
      code.step lock.memory stage = some (memory, result) → ∀ {phase}, ∀ other, other ≠ thread → ∀ call' stage',
      Function.update lock.pool thread phase other = .inside call' stage' → Lasts code memory stage' (left other) := by
    intro call stage memory result inside worked phase other different call' stage' inside'
    rw [Function.update_of_ne different] at inside'
    have holds : (lock.pool thread).holding = some (call, .inl stage) := congrArg Phase.holding inside
    cases writes : code.writes call with
    | true =>
      have none := (settles.locked.alone holds writes).2 other different
      rw [inside'] at none
      cases none
    | false =>
      have mode := (settles.reached holds).mode rfl
      rw [code.reads_only _ _ _ _ (mode.trans writes) worked]
      exact budget other call' stage' inside'
  cases ReadWriteLock.moves_of_step taken with
  | @goOn _ call stage memory later inside worked =>
    have lasts := budget thread call stage inside
    refine ⟨?_, lasts.positive⟩
    intro other call' stage' inside'
    by_cases same : other = thread
    · subst same
      have here : Function.update lock.pool other (.inside call later) other = .inside call' stage' := inside'
      rw [Function.update_self] at here ⊢
      cases here
      exact lasts.later worked
    · rw [Function.update_of_ne same]
      exact others inside worked other same call' stage' inside'
  | @finish _ call stage memory reply inside worked =>
    have lasts := budget thread call stage inside
    refine ⟨?_, lasts.positive⟩
    intro other call' stage' inside'
    by_cases same : other = thread
    · subst same
      have here : Function.update lock.pool other (.finished call reply) other = .inside call' stage' := inside'
      rw [Function.update_self] at here
      cases here
    · rw [Function.update_of_ne same]
      exact others inside worked other same call' stage' inside'

/-- A state that another one leads to in one step. -/
def Follower (code : Code Call Memory Stage Reply) (program : Local → Turn Call Reply Shared Local Event)
    (next state : State Thread Call Memory Stage Reply Shared Local) : Prop :=
  ∃ action, step code program state action = some next

/-- The steps of the programs are bounded; between them threads can only ask for the lock,
take it, and use up the steps of their calls, in this order of weight. -/
theorem Follows.acc (bounded : Bounded code program start measure) (count outside waiting steps : Nat) :
    ∀ {trace state settled left}, Follows code program start trace state settled →
      measure state.shared state.locals = count → total outsideWeight state.lock.pool = outside →
      total waitingWeight state.lock.pool = waiting → Budget code state.lock left → total id left = steps →
      Acc (Follower code program) state := by
  induction count using Nat.strong_induction_on generalizing outside waiting steps with
  | _ count programs =>
  induction outside using Nat.strong_induction_on generalizing waiting steps with
  | _ outside requests =>
  induction waiting using Nat.strong_induction_on generalizing steps with
  | _ waiting acquires =>
  induction steps using Nat.strong_induction_on with
  | _ steps works =>
  intro trace state settled left follows counted out wait budget total
  apply Acc.intro
  rintro next ⟨action, taken⟩
  have moves := moves_of_step taken
  generalize observe program state action = events at moves
  obtain ⟨settled', follows'⟩ := follows.keeps moves
  obtain ⟨left', budget'⟩ := follows'.budget bounded
  cases moves with
  | own _ turn stepped =>
    have less := bounded.own follows.atomic turn stepped
    exact programs _ (counted ▸ less) _ _ _ follows' rfl rfl rfl budget' rfl
  | @request thread call resume lock turn locked =>
    cases ReadWriteLock.moves_of_step locked with
    | request idle =>
      have changed := total_update outsideWeight state.lock.pool thread (.waiting call)
      rw [idle] at changed
      simp only [outsideWeight] at changed
      have fewer : ThreadPool.total outsideWeight (Function.update state.lock.pool thread (.waiting call)) < outside := by omega
      exact requests _ fewer _ _ follows' counted rfl rfl budget' rfl
  | @acquire thread lock locked =>
    have entered : ∀ call phase, state.lock.pool thread = .waiting call → outsideWeight phase = 0 → waitingWeight phase = 0 →
        ThreadPool.total outsideWeight (Function.update state.lock.pool thread phase) = outside ∧
          ThreadPool.total waitingWeight (Function.update state.lock.pool thread phase) < waiting := by
      intro call phase before none none'
      have changed := total_update outsideWeight state.lock.pool thread phase
      have changed' := total_update waitingWeight state.lock.pool thread phase
      rw [before, none] at changed
      rw [before, none'] at changed'
      simp only [outsideWeight, waitingWeight] at changed changed'
      omega
    cases ReadWriteLock.moves_of_step locked with
    | @write _ call before _ _ _ =>
      obtain ⟨same, fewer⟩ := entered call (.inside call (code.enter call)) before rfl rfl
      exact acquires _ fewer _ follows' counted same rfl budget' rfl
    | @read _ call before _ _ =>
      obtain ⟨same, fewer⟩ := entered call (.inside call (code.enter call)) before rfl rfl
      exact acquires _ fewer _ follows' counted same rfl budget' rfl
  | @work thread lock locked =>
    obtain ⟨budget', some'⟩ := budget_work follows.settles budget locked
    have changed := total_update id left thread (left thread - 1)
    simp only [id] at changed
    have kept : ∀ call stage phase, state.lock.pool thread = .inside call stage → outsideWeight phase = 0 → waitingWeight phase = 0 →
        ThreadPool.total outsideWeight (Function.update state.lock.pool thread phase) = outside ∧
          ThreadPool.total waitingWeight (Function.update state.lock.pool thread phase) = waiting := by
      intro call stage phase before none none'
      have changed := total_update outsideWeight state.lock.pool thread phase
      have changed' := total_update waitingWeight state.lock.pool thread phase
      rw [before, none] at changed
      rw [before, none'] at changed'
      simp only [outsideWeight, waitingWeight] at changed changed'
      omega
    cases ReadWriteLock.moves_of_step locked with
    | @goOn _ call stage memory later inside worked =>
      obtain ⟨same, same'⟩ := kept call stage (.inside call later) inside rfl rfl
      exact works _ (by omega) follows' counted same same' budget' rfl
    | @finish _ call stage memory reply inside worked =>
      obtain ⟨same, same'⟩ := kept call stage (.finished call reply) inside rfl rfl
      exact works _ (by omega) follows' counted same same' budget' rfl
  | @release thread call call' reply resume lock finished turn locked =>
    obtain ⟨_, reached, _⟩ := follows.settles.returns finished locked
    obtain ⟨resume', turn'⟩ := follows.agrees thread call (by simp [finished, Phase.pending])
    cases turn.symm.trans turn'
    have less := bounded.call follows.atomic turn reached
    exact programs _ (counted ▸ less) _ _ _ follows' rfl rfl rfl budget' rfl

theorem acc_of_bounded (bounded : Bounded code program start measure) : Acc (Follower code program) (initial start) := by
  obtain ⟨settled, follows⟩ := follows_of_run (Run.refl : Run (machine code program) Always (initial start) [] _)
  obtain ⟨left, budget⟩ := follows.budget bounded
  exact follows.acc bounded _ _ _ _ rfl rfl rfl budget rfl

/-- No run goes on for ever. -/
theorem ends_of_bounded (bounded : Bounded code program start measure) :
    ¬∃ states : Nat → State Thread Call Memory Stage Reply Shared Local, states 0 = initial start ∧
      ∀ count, ∃ action, step code program (states count) action = some (states (count + 1)) :=
  fun endless => not_acc_iff_exists_descending_chain.mpr endless (acc_of_bounded bounded)

/-- Where no step is possible, no call is pending and no program can go on. -/
theorem Follows.stuck (follows : Follows code program start trace state settled)
    (bounded : Bounded code program start measure) (stuck : ∀ action, step code program state action = none) :
    (∀ thread, state.lock.pool thread = .outside) ∧
      ∀ thread, ∃ step, program (state.locals thread) = .own step ∧ step state.shared = none := by
  have still : ∀ thread, (state.lock.pool thread).holding = none := by
    intro thread
    cases phase : state.lock.pool thread with
    | outside | waiting => rfl
    | inside call stage =>
      obtain ⟨resume, turn⟩ := follows.agrees thread call (by simp [phase, Phase.pending])
      have reached := follows.settles.reached (congrArg Phase.holding phase)
      have blocked := stuck (.work thread)
      cases bounded.ends follows.atomic turn reached with
      | last worked | more worked => simp [step, lockStep, ReadWriteLock.step, phase, worked] at blocked
    | finished call reply =>
      obtain ⟨resume, turn⟩ := follows.agrees thread call (by simp [phase, Phase.pending])
      have blocked := stuck (.release thread)
      simp [step, lockStep, ReadWriteLock.step, phase, turn] at blocked
  obtain ⟨free, nobody⟩ := follows.settles.locked.free still
  have outside : ∀ thread, state.lock.pool thread = .outside := by
    intro thread
    cases phase : state.lock.pool thread with
    | outside => rfl
    | inside | finished =>
      have none := still thread
      rw [phase] at none
      cases none
    | waiting call =>
      have blocked := stuck (.acquire thread)
      by_cases writes : code.writes call = true
      · simp [step, lockStep, ReadWriteLock.step, phase, free, nobody, writes] at blocked
      · simp [step, lockStep, ReadWriteLock.step, phase, free, writes] at blocked
  refine ⟨outside, ?_⟩
  intro thread
  cases turn : program (state.locals thread) with
  | own step' =>
    have blocked := stuck (.own thread)
    refine ⟨step', rfl, ?_⟩
    simpa [step, outside thread, turn] using blocked
  | call call resume =>
    have blocked := stuck (.request thread)
    simp [step, lockStep, ReadWriteLock.step, outside thread, turn] at blocked

end Ending

end IstKvs.AtomicCalls
