import IstKvs.ServerFrames
import Mathlib.Data.Multiset.AddSub

/-! The producer-consumer buffer between the host and the managers. Both sides
use the value of `semFull` as the index, so the buffer is meant to be a stack
whose height is that value. The accounting of the two semaphores is exact up to
the second `sem_post(&semEmpty)` at the end of a session; the stack itself only
survives runs in which nothing separates a semaphore step from its block. -/

namespace IstKvs.Handover
open LabelledRuns ThreadPool Server

variable {slots managers jobs : Nat}

/-- Between the wait on `semEmpty` and the post on `semFull`. -/
def hostWindow : HostPc slots → Nat
  | .store _ | .postFull => 1
  | _ => 0

/-- Between the wait on `semFull` and the post on `semEmpty` after the copy. -/
def managerWindow : ManagerPc slots → Nat
  | .copy | .postEmpty _ => 1
  | _ => 0

/-- What a step of the host does to the semaphores and the buffer. -/
inductive HostMove (shared : Shared slots) : HostPc slots → Shared slots × HostPc slots → Prop where
  | wait {request} (ready : 0 < shared.semEmpty) : HostMove shared (.waitEmpty request)
      ({ shared with semEmpty := shared.semEmpty - 1 }, .store request)
  | store {request} : HostMove shared (.store request)
      ({ shared with buffer := Function.update shared.buffer shared.semFull request }, .postFull)
  | post : HostMove shared .postFull
      ({ shared with semFull := shared.semFull + 1 }, .checkSignal)
  | other {pc result} (semEmpty : result.1.semEmpty = shared.semEmpty)
      (semFull : result.1.semFull = shared.semFull) (buffer : result.1.buffer = shared.buffer)
      (left : hostWindow pc = 0) (reached : hostWindow result.2 = 0) : HostMove shared pc result

theorem hostStep_move {answer : Answer} {shared : Shared slots} {pc : HostPc slots}
    {result : Shared slots × HostPc slots} (ran : hostStep answer shared pc = some result) :
    HostMove shared pc result := by
  cases pc with
  | waitEmpty request =>
    simp only [hostStep] at ran
    split at ran
    next ready => cases ran; exact .wait ready
    next => cases ran
  | store request =>
    simp only [hostStep] at ran
    split at ran
    next => cases ran
    next => cases ran; exact .store
  | postFull => cases ran; exact .post
  | _ =>
    simp only [hostStep] at ran
    repeat' split at ran
    all_goals cases ran
    all_goals exact .other rfl rfl rfl rfl rfl

/-- The events that move a request into the buffer or out of it. -/
def isTransfer : Event slots → Bool
  | .stored _ _ | .copied _ _ => true
  | _ => false

/-- The events this module is about. -/
def isHandover (event : Event slots) : Bool := isTransfer event || event == .tailPosted

theorem not_transfer {event : Event slots} (quiet : isHandover event = false) :
    isTransfer event = false :=
  (Bool.or_eq_false_iff.mp quiet).1

/-- What a step of a manager does to the semaphores and the buffer. -/
inductive ManagerMove (shared : Shared slots) :
    ManagerPc slots → Shared slots × ManagerPc slots → Prop where
  | take (ready : 0 < shared.semFull) : ManagerMove shared .waitFull
      ({ shared with semFull := shared.semFull - 1 }, .copy)
  | copy : ManagerMove shared .copy (shared, .postEmpty (shared.buffer shared.semFull))
  | free {request} : ManagerMove shared (.postEmpty request)
      ({ shared with semEmpty := shared.semEmpty + 1 }, .scan request 0)
  | tailPost {request slot} : ManagerMove shared (.session request slot .tailPost)
      ({ shared with semEmpty := shared.semEmpty + 1 }, .waitFull)
  | other {pc result} (semEmpty : result.1.semEmpty = shared.semEmpty)
      (semFull : result.1.semFull = shared.semFull) (buffer : result.1.buffer = shared.buffer)
      (left : managerWindow pc = 0) (reached : managerWindow result.2 = 0)
      (quiet : ∀ event ∈ managerEvents shared pc, isHandover event = false) :
      ManagerMove shared pc result

theorem managerEvents_session_quiet (shared : Shared slots) (request : ConnectionRequest)
    (slot : Fin slots) {pc : SessionPc} (notPost : pc ≠ .tailPost) :
    ∀ event ∈ managerEvents shared (.session request slot pc), isHandover event = false := by
  cases pc <;> simp_all [managerEvents, isHandover, isTransfer]

theorem managerStep_move {answer : Answer} {shared : Shared slots} {pc : ManagerPc slots}
    {result : Shared slots × ManagerPc slots} (ran : managerStep answer shared pc = some result) :
    ManagerMove shared pc result := by
  cases pc with
  | waitFull =>
    simp only [managerStep] at ran
    split at ran
    next ready => cases ran; exact .take ready
    next => cases ran
  | copy =>
    simp only [managerStep] at ran
    split at ran
    next => cases ran
    next => cases ran; exact .copy
  | postEmpty request => cases ran; exact .free
  | scan request i =>
    simp only [managerStep] at ran
    repeat' split at ran
    all_goals cases ran
    all_goals exact .other rfl rfl rfl rfl rfl (by simp [managerEvents])
  | setup request slot pc =>
    cases ran
    have frame := setupStep_frame shared request slot pc
    refine .other frame.semEmpty frame.semFull frame.buffer rfl ?_ ?_
    · cases pc <;> rfl
    · cases pc <;> simp [managerEvents, isHandover, isTransfer]
  | session request slot pc =>
    have frame := sessionStep_frame ran
    by_cases post : pc = .tailPost
    · subst post
      cases ran
      exact .tailPost
    · have reached : managerWindow result.2 = 0 := by
        rcases frame.lands with returned | ⟨after, same⟩
        · rw [returned]; rfl
        · rw [same]; rfl
      refine .other ?_ frame.semFull frame.buffer rfl reached
        (managerEvents_session_quiet shared request slot post)
      simpa [post] using frame.semEmpty

/-- What any step does to the hand-over: it is a host move, a manager move, or
leaves the semaphores, the buffer and both counters alone. -/
inductive Move (state : State slots managers jobs) :
    Action managers jobs → State slots managers jobs → Prop where
  | host {answer result} (move : HostMove state.shared state.host result) :
      Move state (.host answer) (state.withHost result)
  | manager {thread answer result}
      (move : ManagerMove state.shared (state.managers thread) result) :
      Move state (.manager thread answer) (state.withManager thread result)
  | aside {action next} (semEmpty : next.shared.semEmpty = state.shared.semEmpty)
      (semFull : next.shared.semFull = state.shared.semFull)
      (buffer : next.shared.buffer = state.shared.buffer) (sameHost : next.host = state.host)
      (sameManagers : next.managers = state.managers)
      (quiet : ∀ event ∈ observe state action, isHandover event = false) : Move state action next

theorem step_move {state next : State slots managers jobs} {action : Action managers jobs}
    (taken : step state action = some next) : Move state action next := by
  cases (steps_of_step taken).2 with
  | host ran => exact .host (hostStep_move ran)
  | manager ran => exact .manager (managerStep_move ran)
  | @job thread answer result ran =>
    obtain ⟨terminated, same⟩ := jobStep_sessions ran
    refine .aside ?_ ?_ ?_ rfl rfl ?_
    · simp only [State.withJob, same]
    · simp only [State.withJob, same]
    · simp only [State.withJob, same]
    · simp only [observe]
      cases state.jobs thread <;> simp +contextual [jobEvents, isHandover, isTransfer]
  | call | signal | openReader | closeReader => exact .aside rfl rfl rfl rfl rfl (by simp [observe])

/-- How many sessions have ended through the tail of `handle_session`. -/
def tailPosts (trace : List (Event slots)) : Nat := trace.count .tailPosted

@[simp] theorem tailPosts_append (trace later : List (Event slots)) :
    tailPosts (trace ++ later) = tailPosts trace + tailPosts later :=
  List.count_append

theorem tailPosts_quiet {events : List (Event slots)}
    (quiet : ∀ event ∈ events, isHandover event = false) : tailPosts events = 0 := by
  apply List.count_eq_zero.mpr
  intro member
  cases quiet _ member

/-- The sum that the accounting of `semEmpty` and `semFull` keeps. -/
def places (state : State slots managers jobs) : Nat :=
  state.shared.semEmpty + state.shared.semFull + hostWindow state.host +
    total managerWindow state.managers

theorem hostEvents_quiet (shared : Shared slots) {pc : HostPc slots} (outside : hostWindow pc = 0) :
    hostEvents shared pc = [] := by
  cases pc <;> first | rfl | cases outside

theorem places_step {state next : State slots managers jobs} {action : Action managers jobs}
    (taken : step state action = some next) :
    places next = places state + tailPosts (observe state action) := by
  cases step_move taken with
  | host move =>
    simp only [places, State.withHost, observe]
    generalize state.host = pc at move
    cases move with
    | wait ready => simp only [hostWindow, hostEvents, tailPosts, List.count_nil]; omega
    | store => simp [hostWindow, hostEvents, tailPosts]
    | post => simp only [hostWindow, hostEvents, tailPosts, List.count_nil]; omega
    | other semEmpty semFull buffer left reached =>
      simp only [hostEvents_quiet _ left, tailPosts, List.count_nil]
      omega
  | @manager thread answer result move =>
    have moved := total_update managerWindow state.managers thread result.2
    simp only [places, State.withManager, observe]
    generalize state.managers thread = pc at move moved
    cases move with
    | take ready => simp only [managerWindow, managerEvents, tailPosts, List.count_nil] at moved ⊢; omega
    | copy => simp [managerWindow, managerEvents, tailPosts] at moved ⊢; omega
    | free => simp only [managerWindow, managerEvents, tailPosts, List.count_nil] at moved ⊢; omega
    | tailPost => simp [managerWindow, managerEvents, tailPosts] at moved ⊢; omega
    | other semEmpty semFull buffer left reached quiet =>
      have silent := tailPosts_quiet quiet
      omega
  | aside semEmpty semFull buffer sameHost sameManagers quiet =>
    simp only [places, semEmpty, semFull, sameHost, sameManagers, tailPosts_quiet quiet, Nat.add_zero]

theorem places_initial (sigpipeDefault : Bool) :
    places (initial slots managers jobs sigpipeDefault) = slots := by
  have none := total_eq_zero managerWindow
    (initial slots managers jobs sigpipeDefault).managers (fun _ => rfl)
  simp only [places, none]
  simp [initial, hostWindow]

variable {guard : State slots managers jobs → Action managers jobs → Prop} {sigpipeDefault : Bool}
  {trace : List (Event slots)} {state : State slots managers jobs}

/-- In every run the sum has drifted by exactly the sessions that ended through the tail. -/
theorem places_run
    (run : Run (machine slots managers jobs) guard (initial slots managers jobs sigpipeDefault) trace state) :
    places state = slots + tailPosts trace := by
  refine run.induct (fun trace state => places state = slots + tailPosts trace) ?_ ?_
  · rw [places_initial]
    rfl
  · intro trace state action next holds _ taken
    have moved := places_step taken
    simp only [machine, tailPosts_append]
    omega

def isStore : HostPc slots → Bool
  | .store _ => true
  | _ => false

/-- Whoever is about to index `buffer` finds the index inside it. -/
def IndexInBounds (state : State slots managers jobs) : Prop :=
  (∀ request, state.host = .store request → state.shared.semFull < slots) ∧
    ∀ thread, state.managers thread = .copy → state.shared.semFull < slots

theorem index_in_bounds (accounted : places state = slots) : IndexInBounds state := by
  constructor
  · intro request storing
    simp only [places, storing, hostWindow] at accounted
    omega
  · intro thread copying
    have inside := weight_le_total managerWindow state.managers thread
    simp only [copying, managerWindow] at inside
    simp only [places] at accounted
    omega

/-- The accounting of the semaphores holds, and with it the bound on the index,
exactly as long as no session has ended through the tail of `handle_session`. -/
theorem accounted_iff_no_tail_post
    (run : Run (machine slots managers jobs) Always (initial slots managers jobs sigpipeDefault) trace state) :
    (places state = slots ∧ IndexInBounds state) ↔ Event.tailPosted ∉ trace := by
  have drift := places_run run
  constructor
  · rintro ⟨accounted, _⟩
    apply List.count_eq_zero.mp
    simp only [tailPosts] at drift
    omega
  · intro absent
    have none : tailPosts trace = 0 := List.count_eq_zero.mpr absent
    have accounted : places state = slots := by omega
    exact ⟨accounted, index_in_bounds accounted⟩

/-- A run that meets the condition: a client that cannot be connected to, and a
second request that waits to be copied. -/
theorem accounted_after_failed_open : ∃ trace state,
    Run (machine MAX_SESSION_COUNT 2 0) Always (initial MAX_SESSION_COUNT 2 0 true) trace state ∧
      state.managers 1 = .copy ∧ Event.tailPosted ∉ trace ∧
        places state = MAX_SESSION_COUNT ∧ IndexInBounds state := by
  obtain ⟨trace, state, run, copying, none⟩ := exists_run
    (machine MAX_SESSION_COUNT 2 0) Always (initial MAX_SESSION_COUNT 2 0 true)
    (fun trace state => state.managers 1 = .copy ∧ Event.tailPosted ∉ trace)
    (arrive 97 ++ advance 0 13 ++ arrive 98 ++ advance 1 1) (by decide)
  exact ⟨trace, state, run, copying, none, (accounted_iff_no_tail_post run).mpr none⟩

/-- One session served by the first manager and ended by a failed read, and then
three requests that the host alone takes in. -/
def driftingSchedule (thread : Fin managers) : List (Action managers jobs) :=
  firstSession thread ++ advance thread 4 ++ arrive 98 ++ arrive 99 ++ register 100

/-- After one complete session the host stores a request behind the end of `buffer`. -/
theorem index_out_of_bounds : ∃ trace state,
    Run (machine MAX_SESSION_COUNT 2 0) Always (initial MAX_SESSION_COUNT 2 0 true) trace state ∧
      places state ≠ MAX_SESSION_COUNT ∧ ¬IndexInBounds state := by
  obtain ⟨trace, state, run, drifted, storing, beyond⟩ := exists_run
    (machine MAX_SESSION_COUNT 2 0) Always (initial MAX_SESSION_COUNT 2 0 true)
    (fun _ state => places state ≠ MAX_SESSION_COUNT ∧ isStore state.host = true ∧
      state.shared.semFull = MAX_SESSION_COUNT) (driftingSchedule 0) (by decide)
  refine ⟨trace, state, run, drifted, fun inside => ?_⟩
  cases pc : state.host with
  | store request =>
    have bound := inside.1 request pc
    omega
  | _ => rw [pc] at storing; cases storing

/-! The buffer as a stack. -/

def storedRequests (trace : List (Event slots)) : List ConnectionRequest :=
  trace.filterMap fun
    | .stored _ request => some request
    | _ => none

def copiedRequests (trace : List (Event slots)) : List ConnectionRequest :=
  trace.filterMap fun
    | .copied _ request => some request
    | _ => none

theorem storedRequests_append (trace later : List (Event slots)) :
    storedRequests (trace ++ later) = storedRequests trace ++ storedRequests later :=
  List.filterMap_append

theorem copiedRequests_append (trace later : List (Event slots)) :
    copiedRequests (trace ++ later) = copiedRequests trace ++ copiedRequests later :=
  List.filterMap_append

/-- The requests stored in a cell and not copied since. -/
def afterEvent (cells : Nat → Option ConnectionRequest) : Event slots → Nat → Option ConnectionRequest
  | .stored index request => Function.update cells index (some request)
  | .copied index _ => Function.update cells index none
  | _ => cells

def pendingCells (cells : Nat → Option ConnectionRequest) (trace : List (Event slots)) :
    Nat → Option ConnectionRequest :=
  trace.foldl afterEvent cells

/-- A store finds its cell free, and a copy finds in its cell the pending request it takes. -/
def Orderly (cells : Nat → Option ConnectionRequest) : List (Event slots) → Prop
  | [] => True
  | event :: rest =>
      (match event with
        | .stored index _ => cells index = none
        | .copied index request => cells index = some request
        | _ => True) ∧ Orderly (afterEvent cells event) rest

instance decidableOrderly : (cells : Nat → Option ConnectionRequest) → (trace : List (Event slots)) →
    Decidable (Orderly cells trace)
  | _, [] => isTrue trivial
  | cells, event :: rest =>
      have := decidableOrderly (afterEvent cells event) rest
      match event with
      | .stored index _ => inferInstanceAs (Decidable (cells index = none ∧ _))
      | .copied index request => inferInstanceAs (Decidable (cells index = some request ∧ _))
      | .tailPosted | .started _ _ | .subscribed _ _ | .unsubscribed _ _ | .notified _ _ _ =>
          inferInstanceAs (Decidable (True ∧ _))

theorem orderly_append (cells : Nat → Option ConnectionRequest) (trace later : List (Event slots)) :
    Orderly cells (trace ++ later) ↔ Orderly cells trace ∧ Orderly (pendingCells cells trace) later := by
  induction trace generalizing cells with
  | nil => simp [Orderly, pendingCells]
  | cons event rest ih => simp only [List.cons_append, Orderly, ih, pendingCells, List.foldl_cons, and_assoc]

/-- Every request is handed over at most once, only from a cell where it is
pending, and no pending request is overwritten. -/
structure ExactlyOnce (trace : List (Event slots)) : Prop where
  copied_le : (copiedRequests trace : Multiset ConnectionRequest) ≤ storedRequests trace
  orderly : Orderly (fun _ => none) trace

/-- Nobody stands between a step on `semFull` and the block that goes with it
while somebody else uses the value: the host stores only while no manager is
about to copy, and a manager copies only while no other manager is about to copy
and the host is not about to post. -/
def Undisturbed (state : State slots managers jobs) : Action managers jobs → Prop
  | .host _ => isStore state.host = true → ∀ thread, state.managers thread ≠ .copy
  | .manager thread _ => state.managers thread = .copy →
      state.host ≠ .postFull ∧ ∀ other, state.managers other = .copy → other = thread
  | _ => True

instance (state : State slots managers jobs) (action : Action managers jobs) :
    Decidable (Undisturbed state action) :=
  match action with
  | .host _ => inferInstanceAs (Decidable (_ → ∀ _, _))
  | .manager _ _ => inferInstanceAs (Decidable (_ → _ ∧ ∀ _, _ → _))
  | .job _ _ | .call _ _ _ | .signal | .openReader _ | .closeReader _ => isTrue trivial

/-- The pending requests are the cells below `height`. -/
structure Stacked (trace : List (Event slots)) (height : Nat) (buffer : Nat → ConnectionRequest) :
    Prop where
  cells : ∀ index, pendingCells (fun _ => none) trace index =
    if index < height then some (buffer index) else none
  conserved : (storedRequests trace : Multiset ConnectionRequest) =
    copiedRequests trace + ((List.range height).map buffer : List ConnectionRequest)
  orderly : Orderly (fun _ => none) trace

theorem stacked_nil (buffer : Nat → ConnectionRequest) : Stacked ([] : List (Event slots)) 0 buffer where
  cells := fun _ => rfl
  conserved := rfl
  orderly := trivial

theorem pendingCells_quiet {events : List (Event slots)}
    (quiet : ∀ event ∈ events, isTransfer event = false) (cells : Nat → Option ConnectionRequest) :
    pendingCells cells events = cells ∧ Orderly cells events ∧
      storedRequests events = [] ∧ copiedRequests events = [] := by
  induction events with
  | nil => simp [pendingCells, Orderly, storedRequests, copiedRequests]
  | cons event rest ih =>
    have first := quiet event (by simp)
    have later := ih (fun other member => quiet other (by simp [member]))
    cases event with
    | stored | copied => cases first
    | _ => exact ⟨later.1, ⟨trivial, later.2.1⟩, later.2.2⟩

namespace Stacked
variable {trace : List (Event slots)} {height : Nat} {buffer : Nat → ConnectionRequest}

theorem aside (stacked : Stacked trace height buffer) {events : List (Event slots)}
    (quiet : ∀ event ∈ events, isTransfer event = false) :
    Stacked (trace ++ events) height buffer := by
  obtain ⟨cells, orderly, stored, copied⟩ :=
    pendingCells_quiet quiet (pendingCells (fun _ => none) trace)
  constructor
  · intro index
    rw [pendingCells, List.foldl_append]
    exact (congrFun cells index).trans (stacked.cells index)
  · simp only [storedRequests, copiedRequests, List.filterMap_append] at stored copied ⊢
    rw [stored, copied, List.append_nil, List.append_nil]
    exact stacked.conserved
  · exact (orderly_append _ _ _).mpr ⟨stacked.orderly, orderly⟩

/-- A store at the height pushes. -/
theorem push (stacked : Stacked trace height buffer) (request : ConnectionRequest) :
    Stacked (trace ++ [.stored height request]) (height + 1)
      (Function.update buffer height request) := by
  have free : pendingCells (fun _ => none) trace height = none := by
    rw [stacked.cells, if_neg (Nat.lt_irrefl height)]
  constructor
  · intro index
    rw [pendingCells, List.foldl_append]
    change Function.update (pendingCells (fun _ => none) trace) height (some request) index = _
    by_cases top : index = height
    · subst top
      simp
    · rw [Function.update_of_ne top, Function.update_of_ne top, stacked.cells]
      exact if_congr (by omega) rfl rfl
  · have below : (List.range height).map (Function.update buffer height request) =
        (List.range height).map buffer := by
      apply List.map_congr_left
      intro index member
      exact Function.update_of_ne (Nat.ne_of_lt (List.mem_range.mp member)) ..
    calc
      (storedRequests (trace ++ [.stored height request]) : Multiset ConnectionRequest)
        = storedRequests trace + ([request] : List ConnectionRequest) := by
          rw [storedRequests_append]; rfl
      _ = copiedRequests trace +
          (((List.range height).map buffer ++ [request] : List ConnectionRequest)) := by
          rw [stacked.conserved, add_assoc, Multiset.coe_add]
      _ = _ := by
          rw [copiedRequests_append, List.range_succ, List.map_append, below]
          simp [copiedRequests]
  · exact (orderly_append _ _ _).mpr ⟨stacked.orderly, free, trivial⟩

/-- A copy from just below the height pops. -/
theorem pop (stacked : Stacked trace (height + 1) buffer) :
    Stacked (trace ++ [.copied height (buffer height)]) height buffer := by
  have top : pendingCells (fun _ => none) trace height = some (buffer height) := by
    rw [stacked.cells, if_pos (Nat.lt_succ_self height)]
  constructor
  · intro index
    rw [pendingCells, List.foldl_append]
    change Function.update (pendingCells (fun _ => none) trace) height none index = _
    by_cases same : index = height
    · subst same
      simp
    · rw [Function.update_of_ne same, stacked.cells]
      exact if_congr (by omega) rfl rfl
  · calc
      (storedRequests (trace ++ [.copied height (buffer height)]) : Multiset ConnectionRequest)
        = storedRequests trace := by
          rw [storedRequests_append]
          exact congrArg _ (List.append_nil _)
      _ = copiedRequests trace +
          (([buffer height] ++ (List.range height).map buffer : List ConnectionRequest)) := by
          rw [stacked.conserved, List.range_succ, List.map_append]
          exact congrArg _ (Multiset.coe_eq_coe.mpr List.perm_append_comm)
      _ = _ := by
          rw [copiedRequests_append, ← Multiset.coe_add, ← Multiset.coe_add, add_assoc]
          rfl
  · exact (orderly_append _ _ _).mpr ⟨stacked.orderly, top, trivial⟩

theorem exactlyOnce (stacked : Stacked trace height buffer) : ExactlyOnce trace where
  copied_le := by
    rw [stacked.conserved]
    exact Multiset.le_add_right _ _
  orderly := stacked.orderly

end Stacked

/-- Stored, but `semFull` not posted yet. -/
def hostPosting : HostPc slots → Nat
  | .postFull => 1
  | _ => 0

/-- `semFull` taken, but not copied yet. -/
def managerTaking : ManagerPc slots → Nat
  | .copy => 1
  | _ => 0

theorem hostPosting_outside {pc : HostPc slots} (outside : hostWindow pc = 0) : hostPosting pc = 0 := by
  cases pc <;> first | rfl | cases outside

theorem managerTaking_outside {pc : ManagerPc slots} (outside : managerWindow pc = 0) :
    managerTaking pc = 0 := by
  cases pc <;> first | rfl | cases outside

/-- The number of pending requests, as the counters tell it. -/
def height (state : State slots managers jobs) : Nat :=
  state.shared.semFull + hostPosting state.host + total managerTaking state.managers

theorem stacked_step {state next : State slots managers jobs} {action : Action managers jobs}
    {trace : List (Event slots)} (stacked : Stacked trace (height state) state.shared.buffer)
    (undisturbed : Undisturbed state action) (taken : step state action = some next) :
    Stacked (trace ++ observe state action) (height next) next.shared.buffer := by
  cases step_move taken with
  | host move =>
    simp only [height, State.withHost, observe] at stacked ⊢
    generalize fromPc : state.host = pc at move stacked
    cases move with
    | wait ready => simpa [hostEvents, hostPosting] using stacked
    | @store request =>
      have none : total managerTaking state.managers = 0 := by
        apply total_eq_zero
        intro thread
        have away := undisturbed (by rw [fromPc]; rfl) thread
        cases pc : state.managers thread <;> first | rfl | exact absurd pc away
      simp only [hostPosting, none, Nat.add_zero, hostEvents] at stacked ⊢
      exact stacked.push request
    | post =>
      simp only [hostPosting, hostEvents, List.append_nil] at stacked ⊢
      exact stacked
    | other semEmpty semFull buffer left reached =>
      rw [hostPosting_outside left] at stacked
      rw [hostPosting_outside reached, semFull, buffer, hostEvents_quiet _ left, List.append_nil]
      exact stacked
  | @manager thread answer result move =>
    have moved := total_update managerTaking state.managers thread result.2
    simp only [height, State.withManager, observe] at stacked ⊢
    generalize fromPc : state.managers thread = pc at move moved
    cases move with
    | take ready =>
      simp only [managerTaking, managerEvents, List.append_nil] at moved stacked ⊢
      have same : state.shared.semFull - 1 + hostPosting state.host +
          total managerTaking (Function.update state.managers thread .copy) =
          state.shared.semFull + hostPosting state.host + total managerTaking state.managers := by omega
      rw [same]
      exact stacked
    | copy =>
      obtain ⟨notPosting, alone⟩ := undisturbed fromPc
      have idle : hostPosting state.host = 0 := by
        cases pc : state.host <;> first | rfl | exact absurd pc notPosting
      have one : total managerTaking state.managers = 1 := by
        rw [total_eq_weight managerTaking state.managers thread, fromPc]
        · rfl
        · intro other different
          have away : state.managers other ≠ .copy := fun copying => different (alone other copying)
          cases pc : state.managers other <;> first | rfl | exact absurd pc away
      simp only [managerTaking, one] at moved
      simp only [idle, one, managerEvents, Nat.add_zero] at stacked ⊢
      rw [Nat.add_right_cancel moved, Nat.add_zero]
      exact stacked.pop
    | free | tailPost =>
      simp only [managerTaking, Nat.add_zero] at moved
      rw [moved]
      exact stacked.aside (by simp [managerEvents, isTransfer])
    | other semEmpty semFull buffer left reached quiet =>
      rw [managerTaking_outside left, managerTaking_outside reached, Nat.add_zero, Nat.add_zero] at moved
      rw [moved, semFull, buffer]
      exact stacked.aside (fun event member => not_transfer (quiet event member))
  | aside semEmpty semFull buffer sameHost sameManagers quiet =>
    simp only [height, semFull, sameHost, sameManagers, buffer] at stacked ⊢
    exact stacked.aside (fun event member => not_transfer (quiet event member))

theorem stacked_initial (sigpipeDefault : Bool) :
    Stacked ([] : List (Event slots)) (height (initial slots managers jobs sigpipeDefault))
      (initial slots managers jobs sigpipeDefault).shared.buffer := by
  have none := total_eq_zero managerTaking
    (initial slots managers jobs sigpipeDefault).managers (fun _ => rfl)
  simp only [height, none]
  exact stacked_nil _

/-- In a run in which no semaphore step is separated from its block, every
request is handed over at most once, from its own cell, and none is overwritten. -/
theorem exactly_once_of_undisturbed
    (run : Run (machine slots managers jobs) Undisturbed (initial slots managers jobs sigpipeDefault)
      trace state) : ExactlyOnce trace := by
  have stacked : Stacked trace (height state) state.shared.buffer :=
    run.induct (fun trace state => Stacked trace (height state) state.shared.buffer)
      (stacked_initial sigpipeDefault)
      (fun _ _ _ _ stacked undisturbed taken => stacked_step stacked undisturbed taken)
  exact stacked.exactlyOnce

/-- Two requests, the second stored while the first is pending, and both copied. -/
theorem exactly_once_of_two_requests : ∃ trace state,
    Run (machine MAX_SESSION_COUNT 2 0) Undisturbed (initial MAX_SESSION_COUNT 2 0 true) trace state ∧
      (copiedRequests trace).length = 2 ∧ ExactlyOnce trace := by
  obtain ⟨trace, state, run, copied⟩ := exists_run
    (machine MAX_SESSION_COUNT 2 0) Undisturbed (initial MAX_SESSION_COUNT 2 0 true)
    (fun trace _ => (copiedRequests trace).length = 2)
    (arrive 97 ++ arrive 98 ++ advance 0 2 ++ advance 1 2) (by decide)
  exact ⟨trace, state, run, copied, exactly_once_of_undisturbed run⟩

/-- The host stores between a manager's `sem_wait(&semFull)` and its copy: the
first request is overwritten and the manager copies a cell nobody stored to. -/
theorem request_overwritten : ∃ trace state,
    Run (machine MAX_SESSION_COUNT 2 0) Always (initial MAX_SESSION_COUNT 2 0 true) trace state ∧
      ¬(copiedRequests trace : Multiset ConnectionRequest) ≤ storedRequests trace ∧
      ¬ExactlyOnce trace := by
  obtain ⟨trace, state, run, lost⟩ := exists_run
    (machine MAX_SESSION_COUNT 2 0) Always (initial MAX_SESSION_COUNT 2 0 true)
    (fun trace _ =>
      ¬(copiedRequests trace : Multiset ConnectionRequest) ≤ storedRequests trace)
    (arrive 97 ++ advance 0 1 ++ arrive 98 ++ advance 0 1) (by decide)
  exact ⟨trace, state, run, lost, fun once => lost once.copied_le⟩

end IstKvs.Handover
