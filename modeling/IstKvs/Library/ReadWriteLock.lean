import IstKvs.Library.LabelledRuns
import IstKvs.Library.ThreadPool

/-! Calls on a shared memory under a readers–writer lock. A call takes the lock, works in
steps, and gives the lock back with its reply. In every run the replies and the memory
are those of the same calls made one after the other, in the order of their returns. -/

namespace IstKvs.ReadWriteLock
open LabelledRuns ThreadPool

/-- How the calls are done: each step reads and may change the memory, and goes to a next
stage or ends with the reply. Where the lock is taken for reading nothing is changed. -/
structure Code (Call Memory Stage Reply : Type) where
  enter : Call → Stage
  writing : Stage → Bool
  step : Memory → Stage → Option (Memory × (Stage ⊕ Reply))
  mode_kept : ∀ memory stage next later, step memory stage = some (next, .inl later) → writing later = writing stage
  reads_only : ∀ memory stage next result, writing stage = false → step memory stage = some (next, result) → next = memory

variable {Call Memory Stage Reply : Type} (code : Code Call Memory Stage Reply)

/-- The lock is taken for writing. -/
def Code.writes (call : Call) : Bool := code.writing (code.enter call)

/-! A call alone. -/

/-- What a call that started in `start` reaches when nobody else changes the memory. -/
inductive Reached (call : Call) (start : Memory) : Memory → Stage ⊕ Reply → Prop where
  | enter : Reached call start start (.inl (code.enter call))
  | step {memory stage next result} : Reached call start memory (.inl stage) →
      code.step memory stage = some (next, result) → Reached call start next result

/-- Calls made one after the other, with their replies. -/
inductive Serial (start : Memory) : List (Call × Reply) → Memory → Prop where
  | nil : Serial start [] start
  | snoc {earlier memory call reply next} : Serial start earlier memory →
      Reached code call memory next (.inr reply) → Serial start (earlier ++ [(call, reply)]) next

variable {code}

theorem Reached.mode {call : Call} {start memory : Memory} {result : Stage ⊕ Reply}
    (reached : Reached code call start memory result) {stage : Stage} (here : result = .inl stage) :
    code.writing stage = code.writes call := by
  induction reached generalizing stage with
  | enter =>
    cases here
    rfl
  | step before taken ih =>
    subst here
    rw [code.mode_kept _ _ _ _ taken]
    exact ih rfl

/-! Threads. -/

inductive Phase (Call Stage Reply : Type) where
  | outside
  | waiting (call : Call)
  | inside (call : Call) (stage : Stage)
  | finished (call : Call) (reply : Reply)

/-- The call of a thread that has the lock, and how far it is. -/
def Phase.holding : Phase Call Stage Reply → Option (Call × (Stage ⊕ Reply))
  | .outside | .waiting _ => none
  | .inside call stage => some (call, .inl stage)
  | .finished call reply => some (call, .inr reply)

/-- The call that a thread has made and that has not returned. -/
def Phase.pending : Phase Call Stage Reply → List Call
  | .outside => []
  | .waiting call | .inside call _ | .finished call _ => [call]

structure State (Thread Call Memory Stage Reply : Type) where
  memory : Memory
  writing : Bool
  readers : Nat
  pool : Thread → Phase Call Stage Reply

inductive Action (Thread Call : Type) where
  | request (thread : Thread) (call : Call)
  | acquire (thread : Thread)
  | work (thread : Thread)
  | release (thread : Thread)

inductive Event (Thread Call Reply : Type) where
  | requested (thread : Thread) (call : Call)
  | returned (thread : Thread) (call : Call) (reply : Reply)

variable {Thread : Type} [DecidableEq Thread] (code)

def step (state : State Thread Call Memory Stage Reply) : Action Thread Call → Option (State Thread Call Memory Stage Reply)
  | .request thread call =>
      match state.pool thread with
      | .outside => some { state with pool := Function.update state.pool thread (.waiting call) }
      | _ => none
  | .acquire thread =>
      match state.pool thread with
      | .waiting call =>
          if state.writing then none
          else if code.writes call then
            if state.readers = 0 then
              some { state with
                writing := true, pool := Function.update state.pool thread (.inside call (code.enter call)) }
            else none
          else
            some { state with
              readers := state.readers + 1
              pool := Function.update state.pool thread (.inside call (code.enter call)) }
      | _ => none
  | .work thread =>
      match state.pool thread with
      | .inside call stage =>
          match code.step state.memory stage with
          | some (next, .inl later) =>
              some { state with memory := next, pool := Function.update state.pool thread (.inside call later) }
          | some (next, .inr reply) =>
              some { state with memory := next, pool := Function.update state.pool thread (.finished call reply) }
          | none => none
      | _ => none
  | .release thread =>
      match state.pool thread with
      | .finished call _ =>
          some { state with
            writing := if code.writes call then false else state.writing
            readers := if code.writes call then state.readers else state.readers - 1
            pool := Function.update state.pool thread .outside }
      | _ => none

def observe (state : State Thread Call Memory Stage Reply) : Action Thread Call → List (Event Thread Call Reply)
  | .request thread call => [.requested thread call]
  | .acquire _ | .work _ => []
  | .release thread =>
      match state.pool thread with
      | .finished call reply => [.returned thread call reply]
      | _ => []

def machine : Machine (State Thread Call Memory Stage Reply) (Action Thread Call) (Event Thread Call Reply) where
  step := step code
  observe := observe

def initial (memory : Memory) : State Thread Call Memory Stage Reply := ⟨memory, false, 0, fun _ => .outside⟩

/-- The calls that returned, in the order in which they gave the lock back. -/
def returns : List (Event Thread Call Reply) → List (Call × Reply) :=
  List.filterMap fun event => match event with
    | .requested _ _ => none
    | .returned _ call reply => some (call, reply)

def requestsOf (thread : Thread) : List (Event Thread Call Reply) → List Call :=
  List.filterMap fun event => match event with
    | .requested caller call => if caller = thread then some call else none
    | .returned _ _ _ => none

def returnsOf (thread : Thread) : List (Event Thread Call Reply) → List Call :=
  List.filterMap fun event => match event with
    | .requested _ _ => none
    | .returned caller call _ => if caller = thread then some call else none

/-! What a step does. -/

variable {code} {state next : State Thread Call Memory Stage Reply} {action : Action Thread Call}

/-- The steps, each with the thread's phase before it. -/
inductive Moves (code : Code Call Memory Stage Reply) (state : State Thread Call Memory Stage Reply) :
    Action Thread Call → State Thread Call Memory Stage Reply → Prop where
  | request {thread call} : state.pool thread = .outside →
      Moves code state (.request thread call) { state with pool := Function.update state.pool thread (.waiting call) }
  | write {thread call} : state.pool thread = .waiting call → state.writing = false → code.writes call = true →
      state.readers = 0 → Moves code state (.acquire thread)
        { state with writing := true, pool := Function.update state.pool thread (.inside call (code.enter call)) }
  | read {thread call} : state.pool thread = .waiting call → state.writing = false → code.writes call = false →
      Moves code state (.acquire thread) { state with
        readers := state.readers + 1, pool := Function.update state.pool thread (.inside call (code.enter call)) }
  | goOn {thread call stage memory later} : state.pool thread = .inside call stage →
      code.step state.memory stage = some (memory, .inl later) → Moves code state (.work thread)
        { state with memory := memory, pool := Function.update state.pool thread (.inside call later) }
  | finish {thread call stage memory reply} : state.pool thread = .inside call stage →
      code.step state.memory stage = some (memory, .inr reply) → Moves code state (.work thread)
        { state with memory := memory, pool := Function.update state.pool thread (.finished call reply) }
  | release {thread call reply} : state.pool thread = .finished call reply → Moves code state (.release thread)
      { state with
        writing := if code.writes call then false else state.writing
        readers := if code.writes call then state.readers else state.readers - 1
        pool := Function.update state.pool thread .outside }

theorem moves_of_step (taken : step code state action = some next) : Moves code state action next := by
  cases action with
  | request thread call =>
    simp only [step] at taken
    split at taken
    next outside =>
      cases taken
      exact .request outside
    next => cases taken
  | acquire thread =>
    simp only [step] at taken
    split at taken
    next call waiting =>
      by_cases writing : state.writing = true
      · rw [if_pos writing] at taken
        cases taken
      · rw [if_neg writing] at taken
        have free : state.writing = false := Bool.eq_false_iff.mpr writing
        by_cases writes : code.writes call = true
        · rw [if_pos writes] at taken
          by_cases none : state.readers = 0
          · rw [if_pos none] at taken
            cases taken
            exact .write waiting free writes none
          · rw [if_neg none] at taken
            cases taken
        · rw [if_neg writes] at taken
          cases taken
          exact .read waiting free (Bool.eq_false_iff.mpr writes)
    next => cases taken
  | work thread =>
    simp only [step] at taken
    split at taken
    next call stage inside =>
      split at taken
      next memory later worked =>
        cases taken
        exact .goOn inside worked
      next memory reply worked =>
        cases taken
        exact .finish inside worked
      next => cases taken
    next => cases taken
  | release thread =>
    simp only [step] at taken
    split at taken
    next call reply finished =>
      cases taken
      exact .release finished
    next => cases taken

/-! The lock. -/

section Lock
variable (code)

def writerWeight (phase : Phase Call Stage Reply) : Nat :=
  match phase.holding with
  | some (call, _) => if code.writes call then 1 else 0
  | none => 0

def readerWeight (phase : Phase Call Stage Reply) : Nat :=
  match phase.holding with
  | some (call, _) => if code.writes call then 0 else 1
  | none => 0

variable [Fintype Thread]

/-- The lock counts the threads that have it; one writer or any number of readers. -/
structure Locked (state : State Thread Call Memory Stage Reply) : Prop where
  writers : total (writerWeight code) state.pool = if state.writing then 1 else 0
  readers : total (readerWeight code) state.pool = state.readers
  apart : state.writing = true → state.readers = 0

variable {code}

theorem Locked.keeps (locked : Locked code state) (moves : Moves code state action next) : Locked code next := by
  obtain ⟨writers, readers, apart⟩ := locked
  have moved := fun thread phase => And.intro
    (total_update (writerWeight code) state.pool thread phase) (total_update (readerWeight code) state.pool thread phase)
  cases moves with
  | @request thread call outside =>
    obtain ⟨writers', readers'⟩ := moved thread (.waiting call)
    simp only [outside, writerWeight, readerWeight, Phase.holding, Nat.add_zero] at writers' readers'
    exact ⟨writers'.trans writers, readers'.trans readers, apart⟩
  | @write thread call waiting free writes none =>
    obtain ⟨writers', readers'⟩ := moved thread (.inside call (code.enter call))
    simp only [waiting, writerWeight, readerWeight, Phase.holding, writes, ↓reduceIte, Nat.add_zero] at writers' readers'
    simp only [free, Bool.false_eq_true, ↓reduceIte] at writers
    refine ⟨?_, readers'.trans readers, fun _ => none⟩
    show total (writerWeight code) _ = 1
    exact writers'.trans (congrArg (· + 1) writers)
  | @read thread call waiting free reads =>
    obtain ⟨writers', readers'⟩ := moved thread (.inside call (code.enter call))
    simp only [waiting, writerWeight, readerWeight, Phase.holding, reads, Bool.false_eq_true, ↓reduceIte,
      Nat.add_zero] at writers' readers'
    refine ⟨writers'.trans writers, readers'.trans (congrArg (· + 1) readers), ?_⟩
    intro writing
    exact absurd (free.symm.trans writing) Bool.false_ne_true
  | @goOn thread call stage memory later inside worked =>
    obtain ⟨writers', readers'⟩ := moved thread (.inside call later)
    simp only [inside, writerWeight, readerWeight, Phase.holding, Nat.add_right_cancel_iff] at writers' readers'
    exact ⟨writers'.trans writers, readers'.trans readers, apart⟩
  | @finish thread call stage memory reply inside worked =>
    obtain ⟨writers', readers'⟩ := moved thread (.finished call reply)
    simp only [inside, writerWeight, readerWeight, Phase.holding, Nat.add_right_cancel_iff] at writers' readers'
    exact ⟨writers'.trans writers, readers'.trans readers, apart⟩
  | @release thread call reply finished =>
    obtain ⟨writers', readers'⟩ := moved thread .outside
    by_cases writes : code.writes call = true
    · simp only [finished, writerWeight, readerWeight, Phase.holding, writes, ↓reduceIte, Nat.add_zero] at writers' readers'
      simp only [writes, ↓reduceIte]
      refine ⟨?_, readers'.trans readers, fun writing => absurd writing Bool.false_ne_true⟩
      show total (writerWeight code) (Function.update state.pool thread .outside) = 0
      rw [writers] at writers'
      split at writers' <;> omega
    · simp only [finished, writerWeight, readerWeight, Phase.holding, writes, Bool.false_eq_true, ↓reduceIte,
        Nat.add_zero] at writers' readers'
      simp only [writes, Bool.false_eq_true, ↓reduceIte]
      refine ⟨writers'.trans writers, ?_, ?_⟩
      · show total (readerWeight code) (Function.update state.pool thread .outside) = state.readers - 1
        omega
      · intro writing
        have none := apart writing
        omega

variable {thread other : Thread} {call : Call} {result : Stage ⊕ Reply}

/-- A thread that has the lock for writing has it alone. -/
theorem Locked.alone (locked : Locked code state) (holds : (state.pool thread).holding = some (call, result))
    (writes : code.writes call = true) : state.writing = true ∧ ∀ other, other ≠ thread → (state.pool other).holding = none := by
  have one : writerWeight code (state.pool thread) = 1 := by simp only [writerWeight, holds, writes, ↓reduceIte]
  have counted := weight_le_total (writerWeight code) state.pool thread
  have writing : state.writing = true := by
    by_contra free
    rw [locked.writers, one, if_neg free] at counted
    omega
  refine ⟨writing, fun other different => ?_⟩
  have writers := pair_le_total (writerWeight code) state.pool different
  have readers := weight_le_total (readerWeight code) state.pool other
  rw [locked.writers, one, if_pos writing] at writers
  rw [locked.readers, locked.apart writing] at readers
  cases held : (state.pool other).holding with
  | none => rfl
  | some entry =>
    obtain ⟨call', result'⟩ := entry
    simp only [writerWeight, held] at writers
    simp only [readerWeight, held] at readers
    by_cases writes' : code.writes call' = true
    · rw [if_pos writes'] at writers
      omega
    · rw [if_neg writes'] at readers
      omega

omit [DecidableEq Thread] in
/-- Nobody writes while a thread has the lock for reading. -/
theorem Locked.unwritten (locked : Locked code state) (holds : (state.pool thread).holding = some (call, result))
    (reads : code.writes call = false) : state.writing = false := by
  have one : readerWeight code (state.pool thread) = 1 := by
    simp only [readerWeight, holds, reads, Bool.false_eq_true, ↓reduceIte]
  have counted := weight_le_total (readerWeight code) state.pool thread
  by_contra writing
  rw [locked.readers, locked.apart (Bool.not_eq_false _ ▸ writing), one] at counted
  omega

end Lock

/-! The replies. -/

section Replies
variable (code)

/-- The calls that returned are serial, and each thread that has the lock is where its
call alone would be. -/
def Coherent (start : Memory) (trace : List (Event Thread Call Reply)) (state : State Thread Call Memory Stage Reply) : Prop :=
  ∃ settled, Serial code start (returns trace) settled ∧ (state.writing = false → state.memory = settled) ∧
    ∀ thread call result, (state.pool thread).holding = some (call, result) →
      Reached code call settled state.memory result

variable {code} {start : Memory} {trace : List (Event Thread Call Reply)}

omit [DecidableEq Thread] in
theorem returns_append (first second : List (Event Thread Call Reply)) :
    returns (first ++ second) = returns first ++ returns second := List.filterMap_append

/-- A thread that changes its phase, among threads that keep theirs. -/
theorem holding_update {pool : Thread → Phase Call Stage Reply} {thread other : Thread} {phase : Phase Call Stage Reply}
    {call : Call} {result : Stage ⊕ Reply}
    (holds : (Function.update pool thread phase other).holding = some (call, result)) :
    other = thread ∧ phase.holding = some (call, result) ∨ other ≠ thread ∧ (pool other).holding = some (call, result) := by
  by_cases same : other = thread
  · subst same
    rw [Function.update_self] at holds
    exact .inl ⟨rfl, holds⟩
  · rw [Function.update_of_ne same] at holds
    exact .inr ⟨same, holds⟩

/-- A step of a call that has the lock, to the next stage or to its reply. -/
theorem coherent_work [Fintype Thread] (locked : Locked code state) (coherent : Coherent code start trace state)
    {thread : Thread} {call : Call} {stage : Stage} {memory : Memory} {result : Stage ⊕ Reply}
    {phase : Phase Call Stage Reply} (inside : state.pool thread = .inside call stage)
    (worked : code.step state.memory stage = some (memory, result)) (holds : phase.holding = some (call, result)) :
    Coherent code start trace { state with memory := memory, pool := Function.update state.pool thread phase } := by
  obtain ⟨settled, serial, unwritten, reached⟩ := coherent
  have held : (state.pool thread).holding = some (call, .inl stage) := by rw [inside]; rfl
  have here := reached thread call _ held
  have mode := here.mode rfl
  refine ⟨settled, serial, ?_, ?_⟩
  · intro free
    have reads : code.writing stage = false := by
      by_contra writes
      have writes := Bool.not_eq_false _ ▸ writes
      rw [mode] at writes
      exact absurd (free.symm.trans (locked.alone held writes).1) Bool.false_ne_true
    exact (code.reads_only _ _ _ _ reads worked).trans (unwritten free)
  · intro other call' result' holds'
    rcases holding_update holds' with ⟨_, same⟩ | ⟨different, elsewhere⟩
    · rw [holds] at same
      cases same
      exact here.step worked
    · cases writes : code.writes call with
      | true =>
        rw [(locked.alone held writes).2 other different] at elsewhere
        cases elsewhere
      | false =>
        have kept : memory = state.memory := code.reads_only _ _ _ _ (mode.trans writes) worked
        subst kept
        exact reached other call' result' elsewhere

/-- A thread that takes the lock finds the memory settled. -/
theorem coherent_enter (coherent : Coherent code start trace state) (free : state.writing = false) (thread : Thread)
    (call : Call) (writing : Bool) (readers : Nat) (kept : writing = false → state.writing = false) :
    Coherent code start trace
      ⟨state.memory, writing, readers, Function.update state.pool thread (.inside call (code.enter call))⟩ := by
  obtain ⟨settled, serial, unwritten, reached⟩ := coherent
  refine ⟨settled, serial, fun open' => unwritten (kept open'), ?_⟩
  intro other call' result holds
  rcases holding_update holds with ⟨_, entered⟩ | ⟨_, elsewhere⟩
  · cases entered
    show Reached code call settled state.memory _
    rw [unwritten free]
    exact .enter
  · exact reached other call' result elsewhere

theorem Coherent.keeps [Fintype Thread] (locked : Locked code state) (coherent : Coherent code start trace state)
    (moves : Moves code state action next) : Coherent code start (trace ++ observe state action) next := by
  cases moves with
  | @request thread call outside =>
    obtain ⟨settled, serial, unwritten, reached⟩ := coherent
    refine ⟨settled, ?_, unwritten, ?_⟩
    · rw [returns_append]
      exact (List.append_nil _).symm ▸ serial
    · intro other call' result holds
      rcases holding_update holds with ⟨_, impossible⟩ | ⟨_, elsewhere⟩
      · cases impossible
      · exact reached other call' result elsewhere
  | @write thread call waiting free writes none =>
    rw [observe, List.append_nil]
    exact coherent_enter coherent free thread call true state.readers fun _ => free
  | @read thread call waiting free reads =>
    rw [observe, List.append_nil]
    exact coherent_enter coherent free thread call state.writing (state.readers + 1) fun _ => free
  | goOn inside worked =>
    rw [observe, List.append_nil]
    exact coherent_work locked coherent inside worked rfl
  | finish inside worked =>
    rw [observe, List.append_nil]
    exact coherent_work locked coherent inside worked rfl
  | @release thread call reply finished =>
    obtain ⟨settled, serial, unwritten, reached⟩ := coherent
    have held : (state.pool thread).holding = some (call, .inr reply) := by rw [finished]; rfl
    have done := reached thread call _ held
    have returned : returns (observe state (.release thread)) = [(call, reply)] := by
      simp only [observe, finished]
      rfl
    refine ⟨state.memory, ?_, fun _ => rfl, ?_⟩
    · rw [returns_append, returned]
      exact serial.snoc done
    · intro other call' result holds
      rcases holding_update holds with ⟨_, impossible⟩ | ⟨different, elsewhere⟩
      · cases impossible
      · cases writes : code.writes call with
        | true =>
          rw [(locked.alone held writes).2 other different] at elsewhere
          cases elsewhere
        | false =>
          have same := unwritten (locked.unwritten held writes)
          have elsewhere' := reached other call' result elsewhere
          rwa [← same] at elsewhere'

/-- Every thread has returned, in order, from the calls that it made, but for the last one. -/
def InOrder (trace : List (Event Thread Call Reply)) (state : State Thread Call Memory Stage Reply) : Prop :=
  ∀ thread, requestsOf thread trace = returnsOf thread trace ++ (state.pool thread).pending

theorem InOrder.keeps (inOrder : InOrder trace state) (moves : Moves code state action next) :
    InOrder (trace ++ observe state action) next := by
  intro other
  have before := inOrder other
  simp only [requestsOf, returnsOf, List.filterMap_append] at before ⊢
  rw [before]
  cases moves with
  | @request thread call outside =>
    by_cases same : other = thread
    · subst same
      simp [observe, outside, Phase.pending]
    · simp [observe, Function.update_of_ne same, Ne.symm same]
  | @write thread call waiting free writes none =>
    by_cases same : other = thread
    · subst same
      simp [observe, waiting, Phase.pending]
    · simp [observe, Function.update_of_ne same]
  | @read thread call waiting free reads =>
    by_cases same : other = thread
    · subst same
      simp [observe, waiting, Phase.pending]
    · simp [observe, Function.update_of_ne same]
  | @goOn thread call stage memory later inside worked =>
    by_cases same : other = thread
    · subst same
      simp [observe, inside, Phase.pending]
    · simp [observe, Function.update_of_ne same]
  | @finish thread call stage memory reply inside worked =>
    by_cases same : other = thread
    · subst same
      simp [observe, inside, Phase.pending]
    · simp [observe, Function.update_of_ne same]
  | @release thread call reply finished =>
    by_cases same : other = thread
    · subst same
      simp [observe, finished, Phase.pending]
    · simp [observe, finished, Function.update_of_ne same, Ne.symm same]

/-- Linearizability: in the order of their returns the calls are serial, nothing is in the
memory but what they left, and each thread's calls are in the order in which it made them. -/
theorem linearized [Fintype Thread] {memory : Memory}
    {guard : State Thread Call Memory Stage Reply → Action Thread Call → Prop}
    (run : Run (machine code) guard (initial memory) trace state) :
    Locked code state ∧ Coherent code memory trace state ∧ InOrder trace state := by
  apply run.induct fun trace state => Locked code state ∧ Coherent code memory trace state ∧ InOrder trace state
  · have idle : ∀ weight : Phase Call Stage Reply → Nat, weight .outside = 0 →
        total weight (fun _ : Thread => Phase.outside) = 0 :=
      fun weight zero => total_eq_zero weight _ fun _ => zero
    refine ⟨⟨idle _ rfl, idle _ rfl, fun _ => rfl⟩, ⟨memory, .nil, fun _ => rfl, ?_⟩, fun _ => rfl⟩
    intro thread call result holds
    cases holds
  · rintro trace state action next ⟨locked, coherent, inOrder⟩ _ taken
    have moves := moves_of_step taken
    exact ⟨locked.keeps moves, coherent.keeps locked moves, inOrder.keeps moves⟩

end Replies

/-! No deadlock: where the calls themselves come to an end, all that were made can return. -/

section Progress
variable (code)

/-- A call that nobody disturbs comes to an end. -/
inductive Ends : Memory → Stage → Prop where
  | last {memory stage next reply} : code.step memory stage = some (next, .inr reply) → Ends memory stage
  | more {memory stage next later} : code.step memory stage = some (next, .inl later) → Ends next later → Ends memory stage

variable {code} (admitted : Call → Prop)

/-- Only admitted calls are made. -/
def Admits (_state : State Thread Call Memory Stage Reply) (action : Action Thread Call) : Prop :=
  ∀ thread call, action = .request thread call → admitted call

/-- No call is made. -/
def Quiet (_state : State Thread Call Memory Stage Reply) (action : Action Thread Call) : Prop :=
  ∀ thread call, action ≠ .request thread call

def AllAdmitted (state : State Thread Call Memory Stage Reply) : Prop :=
  ∀ thread, ∀ call ∈ (state.pool thread).pending, admitted call

/-- What holds in every state of a run of admitted calls. -/
structure Sound (code : Code Call Memory Stage Reply) (admitted : Call → Prop) [Fintype Thread] (start : Memory)
    (trace : List (Event Thread Call Reply)) (state : State Thread Call Memory Stage Reply) : Prop where
  locked : Locked code state
  coherent : Coherent code start trace state
  admitted : AllAdmitted admitted state

variable {admitted} {start : Memory} {trace later : List (Event Thread Call Reply)}

theorem AllAdmitted.keeps (all : AllAdmitted admitted state) (met : Admits admitted state action)
    (moves : Moves code state action next) : AllAdmitted admitted next := by
  have change : ∀ thread phase, (∀ call ∈ phase.pending, admitted call) →
      ∀ other, ∀ call ∈ (Function.update state.pool thread phase other).pending, admitted call := by
    intro thread phase good other call member
    by_cases same : other = thread
    · subst same
      rw [Function.update_self] at member
      exact good call member
    · rw [Function.update_of_ne same] at member
      exact all other call member
  cases moves with
  | @request thread call outside =>
    apply change thread (.waiting call)
    intro own member
    exact List.mem_singleton.mp member ▸ met thread call rfl
  | @write thread call waiting _ _ _ => exact change thread (.inside call _) (by simpa [waiting, Phase.pending] using all thread)
  | @read thread call waiting _ _ => exact change thread (.inside call _) (by simpa [waiting, Phase.pending] using all thread)
  | @goOn thread call _ _ later inside _ =>
    exact change thread (.inside call later) (by simpa [inside, Phase.pending] using all thread)
  | @finish thread call _ _ reply inside _ =>
    exact change thread (.finished call reply) (by simpa [inside, Phase.pending] using all thread)
  | @release thread call reply finished =>
    apply change thread .outside
    intro own member
    cases member

variable [Fintype Thread]

theorem sound_of_run {memory : Memory} (run : Run (machine code) (Admits admitted) (initial memory) trace state) :
    Sound code admitted memory trace state := by
  obtain ⟨locked, coherent, _⟩ := linearized run
  refine ⟨locked, coherent, ?_⟩
  apply run.invariant
  · intro thread call member
    cases member
  · intro state action next all met taken
    exact all.keeps met (moves_of_step taken)

omit [Fintype Thread] in
/-- Only admitted calls return. -/
theorem returned_admitted {memory : Memory} (run : Run (machine code) (Admits admitted) (initial memory) trace state) :
    ∀ returned ∈ returns trace, admitted returned.1 := by
  have both : AllAdmitted admitted state ∧ ∀ returned ∈ returns trace, admitted returned.1 := by
    apply run.induct fun trace state => AllAdmitted admitted state ∧ ∀ returned ∈ returns trace, admitted returned.1
    · exact ⟨fun _ _ member => (nomatch member), fun _ member => (nomatch member)⟩
    · rintro trace state action next ⟨all, earlier⟩ met taken
      have moves := moves_of_step taken
      refine ⟨all.keeps met moves, ?_⟩
      intro returned member
      rw [returns_append] at member
      rcases List.mem_append.mp member with before | last
      · exact earlier returned before
      · cases moves with
        | @release thread call reply finished =>
          have same : returned = (call, reply) := by
            simpa [machine, observe, finished, returns] using last
          subst same
          exact all thread call (by simp [finished, Phase.pending])
        | request | write | read | goOn | finish => cases last
  exact both.2

theorem Sound.run (sound : Sound code admitted start trace state) (run : Run (machine code) Quiet state later next) :
    Sound code admitted start (trace ++ later) next := by
  apply run.induct fun later next => Sound code admitted start (trace ++ later) next
  · rwa [List.append_nil]
  · intro later state action next sound quiet taken
    have moves := moves_of_step taken
    refine ⟨sound.locked.keeps moves, ?_, sound.admitted.keeps (fun thread call same => absurd same (quiet thread call)) moves⟩
    rw [← List.append_assoc]
    exact sound.coherent.keeps sound.locked moves

omit [Fintype Thread] in
theorem run_step (taken : step code state action = some next) (quiet : Quiet state action) :
    Run (machine code) Quiet state (observe state action) next :=
  @Run.single _ _ _ (machine code) Quiet state next action quiet taken

omit [Fintype Thread] in
/-- A call inside can be run to its end and return. -/
theorem return_of_inside {memory : Memory} {stage : Stage} (ends : Ends code memory stage) {thread : Thread} {call : Call}
    (inside : state.pool thread = .inside call stage) (here : state.memory = memory) :
    ∃ later next, Run (machine code) Quiet state later next ∧ next.pool = Function.update state.pool thread .outside := by
  induction ends generalizing state with
  | @last memory stage after reply worked =>
    subst here
    let done := { state with memory := after, pool := Function.update state.pool thread (.finished call reply) }
    have first : step code state (.work thread) = some done := by simp only [step, inside, worked, done]
    have second : step code done (.release thread) = some { done with
        writing := if code.writes call then false else done.writing
        readers := if code.writes call then done.readers else done.readers - 1
        pool := Function.update done.pool thread .outside } := by
      simp only [step, done, Function.update_self]
    have run := (run_step first (fun _ _ => by simp)).append (run_step second (fun _ _ => by simp))
    refine ⟨_, _, run, ?_⟩
    simp only [done, Function.update_idem]
  | @more memory stage after later worked _ ih =>
    subst here
    let moved := { state with memory := after, pool := Function.update state.pool thread (.inside call later) }
    have first : step code state (.work thread) = some moved := by simp only [step, inside, worked, moved]
    have here : moved.pool thread = .inside call later := Function.update_self ..
    obtain ⟨trace, last, run, pool⟩ := ih here rfl
    refine ⟨_, last, (run_step first (fun _ _ => by simp)).append run, ?_⟩
    rw [pool]
    simp only [moved, Function.update_idem]

omit [DecidableEq Thread] in
/-- When nobody has the lock, it is free. -/
theorem Locked.free (locked : Locked code state) (none : ∀ thread, (state.pool thread).holding = none) :
    state.writing = false ∧ state.readers = 0 := by
  have writers := total_eq_zero (writerWeight code) state.pool fun thread => by simp only [writerWeight, none thread]
  have readers := total_eq_zero (readerWeight code) state.pool fun thread => by simp only [readerWeight, none thread]
  rw [locked.writers] at writers
  rw [locked.readers] at readers
  refine ⟨?_, readers⟩
  by_contra writing
  rw [if_pos (Bool.not_eq_false _ ▸ writing)] at writers
  cases writers

/-- Where every admitted call comes to an end by itself, one more call can return. -/
theorem Sound.one_returns (sound : Sound code admitted start trace state)
    (ends : ∀ call start memory stage, admitted call → Reached code call start memory (.inl stage) → Ends code memory stage)
    {busy : Thread} (pending : (state.pool busy).pending ≠ []) :
    ∃ thread later next, (state.pool thread).pending ≠ [] ∧ Run (machine code) Quiet state later next ∧
      next.pool = Function.update state.pool thread .outside := by
  obtain ⟨settled, _, _, reached⟩ := sound.coherent
  by_cases held : ∃ thread, (state.pool thread).holding ≠ none
  · obtain ⟨thread, held⟩ := held
    cases phase : state.pool thread with
    | outside => exact absurd (congrArg Phase.holding phase) held
    | waiting call => exact absurd (congrArg Phase.holding phase) held
    | inside call stage =>
      have admits : admitted call := sound.admitted thread call (by simp [phase, Phase.pending])
      have here := reached thread call (.inl stage) (congrArg Phase.holding phase)
      obtain ⟨later, next, run, pool⟩ := return_of_inside (ends call settled _ stage admits here) phase rfl
      exact ⟨thread, later, next, by simp [phase, Phase.pending], run, pool⟩
    | finished call reply =>
      have taken : step code state (.release thread) = some { state with
          writing := if code.writes call then false else state.writing
          readers := if code.writes call then state.readers else state.readers - 1
          pool := Function.update state.pool thread .outside } := by
        simp only [step, phase]
      exact ⟨thread, _, _, by simp [phase, Phase.pending], run_step taken (fun _ _ => by simp), rfl⟩
  · have none : ∀ thread, (state.pool thread).holding = none := by simpa using held
    obtain ⟨free, nobody⟩ := sound.locked.free none
    cases phase : state.pool busy with
    | outside => exact absurd (congrArg Phase.pending phase) pending
    | inside call stage => exact absurd (none busy) (by simp [phase, Phase.holding])
    | finished call reply => exact absurd (none busy) (by simp [phase, Phase.holding])
    | waiting call =>
      have admits : admitted call := sound.admitted busy call (by simp [phase, Phase.pending])
      have entered := ends call state.memory state.memory _ admits .enter
      let inside := Function.update state.pool busy (.inside call (code.enter call))
      by_cases writes : code.writes call = true
      · have taken : step code state (.acquire busy) = some { state with writing := true, pool := inside } := by
          simp [step, phase, free, nobody, writes, inside]
        have here : ({ state with writing := true, pool := inside } : State Thread Call Memory Stage Reply).pool busy =
            .inside call (code.enter call) := Function.update_self ..
        obtain ⟨later, next, run, pool⟩ := return_of_inside entered here rfl
        refine ⟨busy, _, next, by simp [phase, Phase.pending], (run_step taken (fun _ _ => by simp)).append run, ?_⟩
        rw [pool]
        exact Function.update_idem ..
      · have taken : step code state (.acquire busy) =
            some { state with readers := state.readers + 1, pool := inside } := by
          simp [step, phase, free, writes, inside]
        have here : ({ state with readers := state.readers + 1, pool := inside } : State Thread Call Memory Stage Reply).pool busy =
            .inside call (code.enter call) := Function.update_self ..
        obtain ⟨later, next, run, pool⟩ := return_of_inside entered here rfl
        refine ⟨busy, _, next, by simp [phase, Phase.pending], (run_step taken (fun _ _ => by simp)).append run, ?_⟩
        rw [pool]
        exact Function.update_idem ..

/-- From every state of a run of such calls, all that were made can return, with no new call. -/
theorem Sound.drains (sound : Sound code admitted start trace state)
    (ends : ∀ call start memory stage, admitted call → Reached code call start memory (.inl stage) → Ends code memory stage) :
    ∃ later next, Run (machine code) Quiet state later next ∧ ∀ thread, next.pool thread = .outside := by
  obtain ⟨count, counted⟩ := Exists.intro (total (fun phase => phase.pending.length) state.pool) rfl
  induction count using Nat.strong_induction_on generalizing trace state with
  | _ count ih =>
    by_cases busy : ∃ thread, (state.pool thread).pending ≠ []
    · obtain ⟨busy, pending⟩ := busy
      obtain ⟨thread, later, next, pending', run, pool⟩ := sound.one_returns ends pending
      have moved := total_update (fun phase : Phase Call Stage Reply => phase.pending.length) state.pool thread .outside
      have none : (Phase.outside : Phase Call Stage Reply).pending.length = 0 := rfl
      rw [← pool, none, Nat.add_zero] at moved
      have fewer : total (fun phase => phase.pending.length) next.pool < count := by
        have positive : 0 < (state.pool thread).pending.length := List.length_pos_iff.mpr pending'
        omega
      obtain ⟨rest, last, run', outside⟩ := ih _ fewer (sound.run run) rfl
      exact ⟨later ++ rest, last, run.append run', outside⟩
    · have idle : ∀ thread, (state.pool thread).pending = [] := by simpa using busy
      refine ⟨[], state, .refl, fun thread => ?_⟩
      have empty := idle thread
      cases phase : state.pool thread with
      | outside => rfl
      | waiting call | inside call stage | finished call reply => simp [phase, Phase.pending] at empty

end Progress

end IstKvs.ReadWriteLock
