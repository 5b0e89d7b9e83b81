import IstKvs.ServerFrames

/-! How managers claim session slots. A manager scans the flags without a lock,
fills in the first slot it found free and raises its flag last. The scan never
misses: managers at or beyond a slot are too few for all of them to be busy.
But two managers may find the same slot free. -/

namespace IstKvs.SlotScan
open LabelledRuns ThreadPool Server

variable {slots managers jobs : Nat}

/-- The slot a manager has found free and not returned from yet. -/
def holder : ManagerPc slots → Option (Fin slots)
  | .setup _ slot _ | .session _ slot _ => some slot
  | _ => none

theorem holder_of_setup {shared : Shared slots} {request : ConnectionRequest} {slot : Fin slots}
    {pc : SetupPc} {result : Shared slots × ManagerPc slots}
    (frame : SetupFrame shared request slot pc result) : holder result.2 = some slot := by
  rcases frame.lands with raised | ⟨after, same⟩
  · rw [raised]; rfl
  · rw [same]; rfl

theorem holder_of_session {shared : Shared slots} {request : ConnectionRequest} {slot : Fin slots}
    {pc : SessionPc} {result : Shared slots × ManagerPc slots}
    (frame : SessionFrame shared request slot pc result) :
    holder result.2 = none ∨ holder result.2 = some slot := by
  rcases frame.lands with returned | ⟨after, same⟩
  · rw [returned]; exact .inl rfl
  · rw [same]; exact .inr rfl

/-- What a step of a manager does to the flags and to what the manager holds. -/
inductive SlotMove (shared : Shared slots) :
    ManagerPc slots → Shared slots × ManagerPc slots → Prop where
  | away {pc result} (sessions : result.1.sessions = shared.sessions)
      (descriptors : result.1.descriptors = shared.descriptors)
      (left : holder pc = none) (notScanning : ∀ request i, pc ≠ .scan request i)
      (reached : holder result.2 = none) (start : ∀ request i, result.2 = .scan request i → i = 0) :
      SlotMove shared pc result
  | busy {request i} (bound : i < slots) (active : (shared.sessions ⟨i, bound⟩).active = true) :
      SlotMove shared (.scan request i) (shared, .scan request (i + 1))
  | found {request i} (bound : i < slots) (free : (shared.sessions ⟨i, bound⟩).active = false) :
      SlotMove shared (.scan request i) (shared, .setup request ⟨i, bound⟩ .reqPath)
  | dropped {request i} (past : ¬i < slots) : SlotMove shared (.scan request i) (shared, .waitFull)
  | setup {request slot pc result} (frame : SetupFrame shared request slot pc result) :
      SlotMove shared (.setup request slot pc) result
  | session {request slot pc result} (frame : SessionFrame shared request slot pc result) :
      SlotMove shared (.session request slot pc) result

theorem managerStep_slotMove {answer : Answer} {shared : Shared slots} {pc : ManagerPc slots}
    {result : Shared slots × ManagerPc slots} (ran : managerStep answer shared pc = some result) :
    SlotMove shared pc result := by
  cases pc with
  | waitFull | copy =>
    simp only [managerStep] at ran
    split at ran
    all_goals cases ran
    all_goals exact .away rfl rfl rfl (by simp) rfl (by simp)
  | postEmpty request => cases ran; exact .away rfl rfl rfl (by simp) rfl (by simp)
  | scan request i =>
    simp only [managerStep] at ran
    split at ran
    next bound =>
      split at ran
      next active => cases ran; exact .busy bound active
      next free => cases ran; exact .found bound (Bool.eq_false_iff.mpr free)
    next past => cases ran; exact .dropped past
  | setup request slot pc => cases ran; exact .setup (setupStep_frame shared request slot pc)
  | session request slot pc => exact .session (sessionStep_frame ran)

/-! A raised flag has an owner, for any interleaving. -/

/-- The session that raised or may still clear the flag of `slot`. -/
def Serves (slot : Fin slots) (pc : ManagerPc slots) : Prop :=
  ∃ request inner, pc = .session request slot inner ∧ inner ≠ .tailPost

def FlagsOwned (state : State slots managers jobs) : Prop :=
  ∀ slot, (state.shared.sessions slot).active = true → ∃ thread, Serves slot (state.managers thread)

theorem serves_holder {slot : Fin slots} {pc : ManagerPc slots} (serves : Serves slot pc) :
    holder pc = some slot := by
  obtain ⟨request, inner, same, _⟩ := serves
  rw [same]
  rfl

/-- A manager's step hands a raised flag on to its owner, or owns it itself. -/
theorem slotMove_flag {shared : Shared slots} {pc : ManagerPc slots}
    {result : Shared slots × ManagerPc slots} (move : SlotMove shared pc result) (slot : Fin slots)
    (active : (result.1.sessions slot).active = true) :
    Serves slot result.2 ∨ (shared.sessions slot).active = true ∧ ¬Serves slot pc := by
  cases move with
  | away sessions _ left =>
    rw [sessions] at active
    refine .inr ⟨active, fun serves => ?_⟩
    rw [serves_holder serves] at left
    cases left
  | busy | found | dropped => exact .inr ⟨active, fun serves => nomatch serves_holder serves⟩
  | @setup request own pc _ frame =>
    by_cases same : slot = own
    · subst same
      rw [frame.active] at active
      have next := frame.next
      split at next
      next raised => exact .inl ⟨request, .openReq, next, by simp⟩
      next notRaised =>
        simp only [notRaised, decide_false, Bool.false_or] at active
        exact .inr ⟨active, fun ⟨_, _, same, _⟩ => nomatch same⟩
    · rw [frame.others slot same] at active
      exact .inr ⟨active, fun ⟨_, _, same, _⟩ => nomatch same⟩
  | @session request own pc _ frame =>
    by_cases same : slot = own
    · subst same
      rw [frame.active, Bool.and_eq_true, Bool.not_eq_true'] at active
      obtain ⟨keeps, was⟩ := active
      have next := frame.next
      split at next
      next leaves =>
        refine .inr ⟨was, fun ⟨_, inner, same, running⟩ => ?_⟩
        cases same
        cases pc <;> simp_all [SessionPc.leaves, SessionPc.clears]
      next stays =>
        obtain ⟨after, same, ended⟩ := next
        exact .inl ⟨request, after, same, fun last => by simp [ended last] at keeps⟩
    · rw [frame.others slot same] at active
      exact .inr ⟨active, fun serves => same (Option.some.inj (serves_holder serves)).symm⟩

theorem flagsOwned_step {state next : State slots managers jobs} {action : Action managers jobs}
    (owned : FlagsOwned state) (taken : step state action = some next) : FlagsOwned next := by
  intro slot active
  cases (steps_of_step taken).2 with
  | host ran => exact owned slot ((hostStep_frame ran).active slot active)
  | @manager thread answer result ran =>
    simp only [State.withManager] at active ⊢
    rcases slotMove_flag (managerStep_slotMove ran) slot active with here | ⟨was, elsewhere⟩
    · exact ⟨thread, by rwa [Function.update_self]⟩
    · obtain ⟨owner, serves⟩ := owned slot was
      have other : owner ≠ thread := fun same => elsewhere (same ▸ serves)
      exact ⟨owner, by rwa [Function.update_of_ne other]⟩
  | job ran =>
    obtain ⟨terminated, same⟩ := jobStep_sessions ran
    simp only [State.withJob, same] at active
    exact owned slot active
  | call | signal | openReader | closeReader => exact owned slot active

/-! The counting argument of the scan. -/

/-- How far along the slots a manager is: the next slot it tests, or the slot it holds. -/
def position : ManagerPc slots → Nat
  | .scan _ i => i
  | .setup _ slot _ | .session _ slot _ => slot.val
  | _ => 0

@[simp] theorem position_scan (request : ConnectionRequest) (i : Nat) :
    position (.scan request i : ManagerPc slots) = i := rfl

def atPosition (i : Nat) (pc : ManagerPc slots) : Nat := if position pc = i then 1 else 0

def beyond (i : Nat) (pc : ManagerPc slots) : Nat := if i ≤ position pc then 1 else 0

theorem beyond_split (i : Nat) (pc : ManagerPc slots) : beyond i pc = atPosition i pc + beyond (i + 1) pc := by
  unfold beyond atPosition
  split_ifs <;> omega

/-- At most `slots - i` managers are at slot `i` or beyond it. -/
def Spread (pool : Fin managers → ManagerPc slots) : Prop :=
  ∀ i, i ≤ slots → total (beyond i) pool + i ≤ slots

/-- A step that does not move a manager forward keeps the spread. -/
theorem spread_of_le {pool : Fin managers → ManagerPc slots} (spread : Spread pool)
    (thread : Fin managers) (next : ManagerPc slots) (back : position next ≤ position (pool thread)) :
    Spread (Function.update pool thread next) := by
  intro i bound
  have moved := total_update (beyond i) pool thread next
  have fewer : beyond i next ≤ beyond i (pool thread) := by
    unfold beyond
    split_ifs <;> omega
  have before := spread i bound
  omega

/-- A scan passes a busy slot: its owner and the scanning manager are both there,
so one of the two is not counted beyond it. -/
theorem spread_of_pass {pool : Fin managers → ManagerPc slots} (spread : Spread pool)
    {thread owner : Fin managers} {request : ConnectionRequest} {i : Nat} (bound : i < slots)
    (scanning : pool thread = .scan request i) (serves : Serves ⟨i, bound⟩ (pool owner)) :
    Spread (Function.update pool thread (.scan request (i + 1))) := by
  obtain ⟨served, inner, owning, _⟩ := serves
  have different : thread ≠ owner := by
    intro same
    rw [← same, scanning] at owning
    cases owning
  have both := pair_le_total (atPosition i) pool different
  simp only [scanning, owning, atPosition, position, ↓reduceIte] at both
  intro k within
  have moved := total_update (beyond k) pool thread (.scan request (i + 1))
  rw [scanning] at moved
  have before := spread k within
  by_cases here : k = i + 1
  · have split : total (beyond i) pool = total (atPosition i) pool + total (beyond (i + 1)) pool := by
      rw [← total_add]
      exact congrArg (fun weight => total weight pool) (funext (beyond_split i))
    have behind := spread i (Nat.le_of_lt bound)
    subst here
    simp only [beyond, position_scan, Nat.not_succ_le_self, ↓reduceIte, le_refl] at moved split
    omega
  · have same : beyond k (.scan request (i + 1) : ManagerPc slots) = beyond k (.scan request i : ManagerPc slots) := by
      simp only [beyond, position_scan]
      exact if_congr (by omega) rfl rfl
    omega

theorem spread_step {state next : State slots managers jobs} {action : Action managers jobs}
    (spread : Spread state.managers) (owned : FlagsOwned state) (taken : step state action = some next) :
    Spread next.managers := by
  cases (steps_of_step taken).2 with
  | @manager thread answer result ran =>
    simp only [State.withManager]
    have move := managerStep_slotMove ran
    generalize fromPc : state.managers thread = pc at move
    cases move with
    | away _ _ left notScanning reached start =>
      apply spread_of_le spread
      cases pc' : result.2 <;> simp_all [position, holder]
    | busy bound active =>
      obtain ⟨owner, serves⟩ := owned _ active
      exact spread_of_pass spread bound fromPc serves
    | found bound free => exact spread_of_le spread thread _ (by rw [fromPc]; rfl)
    | dropped past => exact spread_of_le spread thread _ (Nat.zero_le _)
    | setup frame =>
      apply spread_of_le spread
      rw [fromPc]
      rcases frame.lands with raised | ⟨after, same⟩
      · rw [raised]; rfl
      · rw [same]; rfl
    | session frame =>
      apply spread_of_le spread
      rw [fromPc]
      rcases frame.lands with returned | ⟨after, same⟩
      · rw [returned]; exact Nat.zero_le _
      · rw [same]; rfl
  | host | job | call | signal | openReader | closeReader => exact spread

variable {guard : State slots managers jobs → Action managers jobs → Prop} {sigpipeDefault : Bool}
  {trace : List (Event slots)} {state : State slots managers jobs}

theorem spread_initial (sigpipeDefault : Bool) :
    Spread (initial slots slots jobs sigpipeDefault).managers := by
  intro i bound
  by_cases first : i = 0
  · subst first
    have few := total_le_card (beyond 0) (initial slots slots jobs sigpipeDefault).managers
      (fun pc => by unfold beyond; split_ifs <;> omega)
    simpa using few
  · have none : total (beyond i) (initial slots slots jobs sigpipeDefault).managers = 0 := by
      apply total_eq_zero
      intro thread
      simp [initial, beyond, position, first]
    omega

theorem spread_run {guard : State slots slots jobs → Action slots jobs → Prop}
    {state : State slots slots jobs}
    (run : Run (machine slots slots jobs) guard (initial slots slots jobs sigpipeDefault) trace state) :
    Spread state.managers := by
  have both : FlagsOwned state ∧ Spread state.managers := by
    refine run.invariant (fun state => FlagsOwned state ∧ Spread state.managers)
      ⟨fun _ active => (nomatch active), spread_initial sigpipeDefault⟩ ?_
    intro state action next ⟨owned, spread⟩ _ taken
    exact ⟨flagsOwned_step owned taken, spread_step spread owned taken⟩
  exact both.2

theorem position_lt {pool : Fin managers → ManagerPc slots} (spread : Spread pool)
    {thread : Fin managers} {request : ConnectionRequest} {i : Nat}
    (scanning : pool thread = .scan request i) : i < slots := by
  by_contra past
  have counted := weight_le_total (beyond slots) pool thread
  have few := spread slots (Nat.le_refl _)
  simp only [scanning, beyond, position_scan, Nat.le_of_not_lt past, ↓reduceIte] at counted
  omega

/-- With as many managers as slots, a step of a scan that is at slot `i` either finds it
free or goes on to a next slot that exists. -/
theorem scan_next {state next : State slots slots jobs} {thread : Fin slots} {answer : Answer}
    {request : ConnectionRequest} {i : Nat}
    (run : Run (machine slots slots jobs) Always (initial slots slots jobs sigpipeDefault) trace state)
    (scanning : state.managers thread = .scan request i) (bound : i < slots)
    (taken : step state (.manager thread answer) = some next) :
    next.managers thread = .setup request ⟨i, bound⟩ .reqPath ∨
      next.managers thread = .scan request (i + 1) ∧ i + 1 < slots := by
  have later := spread_run (run_tail run trivial taken)
  cases (steps_of_step taken).2 with
  | @manager _ _ result ran =>
    have move := managerStep_slotMove ran
    rw [scanning] at move
    simp only [State.withManager, Function.update_self] at later ⊢
    cases move with
    | away _ _ left notScanning => exact absurd rfl (notScanning request i)
    | busy bound active => exact .inr ⟨rfl, position_lt later (Function.update_self ..)⟩
    | found bound free => exact .inl rfl
    | dropped past => exact absurd bound past

/-- Nothing that the others do keeps a scan from its next step. -/
theorem scan_enabled {state : State slots managers jobs} {thread : Fin managers} {request : ConnectionRequest}
    {i : Nat} (scanning : state.managers thread = .scan request i) (alive : state.shared.terminated = false)
    (answer : Answer) : (step state (.manager thread answer)).isSome = true := by
  simp only [step, alive, Bool.false_eq_true, ↓reduceIte, Option.isSome_map, scanning, managerStep]
  split_ifs <;> rfl

/-- The steps that are the manager's own. -/
def isOwn (thread : Fin managers) : Action managers jobs → Bool
  | .manager other _ => other = thread
  | .host _ | .job _ _ | .call _ _ _ | .signal | .openReader _ | .closeReader _ => false

def ownSteps (thread : Fin managers) (schedule : List (Action managers jobs)) : Nat :=
  schedule.countP (isOwn thread)

theorem managers_of_others {state next : State slots managers jobs} {action : Action managers jobs}
    {thread : Fin managers} (other : isOwn thread action = false) (taken : step state action = some next) :
    next.managers thread = state.managers thread := by
  cases (steps_of_step taken).2 with
  | manager ran =>
    have different : _ ≠ thread := of_decide_eq_false other
    exact Function.update_of_ne different.symm ..
  | host | job | call | signal | openReader | closeReader => rfl

/-- The scan has ended with the index of a slot. -/
def SlotFound (thread : Fin managers) (request : ConnectionRequest) (state : State slots managers jobs) : Prop :=
  ∃ slot, state.managers thread = .setup request slot .reqPath

/-- However the threads take turns, the scan ends within `slots - i` steps of its own. -/
theorem scan_ends {thread : Fin slots} {request : ConnectionRequest} {state : State slots slots jobs} {i : Nat}
    (run : Run (machine slots slots jobs) Always (initial slots slots jobs sigpipeDefault) trace state)
    (scanning : state.managers thread = .scan request i) {schedule : List (Action slots jobs)}
    {result : List (Event slots) × State slots slots jobs}
    (played : play (machine slots slots jobs) Always state schedule = some result)
    (enough : slots - i ≤ ownSteps thread schedule) :
    ∃ before after, schedule = before ++ after ∧ ownSteps thread before ≤ slots - i ∧
      ∃ middle, play (machine slots slots jobs) Always state before = some middle ∧
        SlotFound thread request middle.2 := by
  have bound := position_lt (spread_run run) scanning
  induction schedule generalizing state trace i result with
  | nil =>
    have none : slots - i ≤ 0 := enough
    omega
  | cons action schedule ih =>
    simp only [play, Always, ↓reduceIte] at played
    split at played
    next next taken =>
      obtain ⟨rest, playedRest, _⟩ := Option.map_eq_some_iff.mp played
      have taken' : step state action = some next := taken
      have later := run_tail run trivial taken'
      -- one step more in front of what the rest of the schedule plays
      have first {before : List (Action slots jobs)} {middle : List (Event slots) × State slots slots jobs}
          (played : play (machine slots slots jobs) Always next before = some middle) :
          play (machine slots slots jobs) Always state (action :: before) =
            some ((machine slots slots jobs).observe state action ++ middle.1, middle.2) := by
        simp only [play, Always, ↓reduceIte, taken, played, Option.map_some]
      cases own : isOwn thread action with
      | true =>
        have counted (before : List (Action slots jobs)) :
            ownSteps thread (action :: before) = ownSteps thread before + 1 := List.countP_cons_of_pos own
        obtain ⟨answer, same⟩ : ∃ answer, action = .manager thread answer := by
          cases action with
          | manager other answer => exact ⟨answer, by rw [of_decide_eq_true own]⟩
          | host | job | call | signal | openReader | closeReader => cases own
        subst same
        rcases scan_next run scanning bound taken' with found | ⟨goesOn, inside⟩
        · refine ⟨[.manager thread answer], schedule, rfl, ?_, _, first rfl, ⟨i, bound⟩, found⟩
          rw [counted]
          exact Nat.sub_pos_of_lt bound
        · rw [counted] at enough
          obtain ⟨before, after, split, few, middle, played, found⟩ :=
            ih later goesOn playedRest (by omega) inside
          refine ⟨.manager thread answer :: before, after, by rw [split, List.cons_append], ?_, _, first played, found⟩
          rw [counted]
          omega
      | false =>
        have counted (before : List (Action slots jobs)) :
            ownSteps thread (action :: before) = ownSteps thread before :=
          List.countP_cons_of_neg (Bool.eq_false_iff.mp own)
        have still := (managers_of_others own taken').trans scanning
        rw [counted] at enough
        obtain ⟨before, after, split, few, middle, played, found⟩ := ih later still playedRest enough bound
        refine ⟨action :: before, after, by rw [split, List.cons_append], ?_, _, first played, found⟩
        rwa [counted]
    next => cases played

/-- No request is dropped: a scan that has come to slot `i` can always take its next step,
each step finds the slot free or goes on to one that exists, and whatever the other threads
do in between, it has found a slot after `slots - i` steps of its own at the latest. -/
theorem scan_finds_slot {state : State slots slots jobs} {thread : Fin slots}
    {request : ConnectionRequest} {i : Nat}
    (run : Run (machine slots slots jobs) Always (initial slots slots jobs sigpipeDefault) trace state)
    (scanning : state.managers thread = .scan request i) :
    (∃ bound : i < slots, ∀ answer next, step state (.manager thread answer) = some next →
      next.managers thread = .setup request ⟨i, bound⟩ .reqPath ∨
        next.managers thread = .scan request (i + 1) ∧ i + 1 < slots) ∧
    (state.shared.terminated = false → ∀ answer, (step state (.manager thread answer)).isSome = true) ∧
    ∀ schedule result, play (machine slots slots jobs) Always state schedule = some result →
      slots - i ≤ ownSteps thread schedule →
      ∃ before after, schedule = before ++ after ∧ ownSteps thread before ≤ slots - i ∧
        ∃ middle, play (machine slots slots jobs) Always state before = some middle ∧
          SlotFound thread request middle.2 := by
  have bound := position_lt (spread_run run) scanning
  refine ⟨⟨bound, fun answer next => scan_next run scanning bound⟩, scan_enabled scanning, ?_⟩
  intro schedule result played enough
  exact scan_ends run scanning played enough

/-- The second manager's scan has passed slot 0, which the first one serves. -/
theorem scan_finds_second_slot : ∃ trace state,
    Run (machine MAX_SESSION_COUNT MAX_SESSION_COUNT 0) Always
      (initial MAX_SESSION_COUNT MAX_SESSION_COUNT 0 true) trace state ∧
    state.managers 1 = .scan (connectionRequest [OP_CODE_CONNECT, 98]) 1 ∧
    (∃ bound : 1 < MAX_SESSION_COUNT, ∀ answer next, step state (.manager 1 answer) = some next →
      next.managers 1 = .setup (connectionRequest [OP_CODE_CONNECT, 98]) ⟨1, bound⟩ .reqPath ∨
        next.managers 1 = .scan (connectionRequest [OP_CODE_CONNECT, 98]) 2 ∧ 2 < MAX_SESSION_COUNT) ∧
    (state.shared.terminated = false → ∀ answer, (step state (.manager 1 answer)).isSome = true) ∧
    ∀ schedule result, play (machine MAX_SESSION_COUNT MAX_SESSION_COUNT 0) Always state schedule = some result →
      MAX_SESSION_COUNT - 1 ≤ ownSteps 1 schedule →
      ∃ before after, schedule = before ++ after ∧ ownSteps 1 before ≤ MAX_SESSION_COUNT - 1 ∧
        ∃ middle, play (machine MAX_SESSION_COUNT MAX_SESSION_COUNT 0) Always state before = some middle ∧
          SlotFound 1 (connectionRequest [OP_CODE_CONNECT, 98]) middle.2 := by
  obtain ⟨trace, state, run, scanning⟩ := exists_run
    (machine MAX_SESSION_COUNT MAX_SESSION_COUNT 0) Always
    (initial MAX_SESSION_COUNT MAX_SESSION_COUNT 0 true)
    (fun _ state => state.managers 1 = .scan (connectionRequest [OP_CODE_CONNECT, 98]) 1)
    (arrive 97 ++ advance 0 8 ++ arrive 98 ++ advance 1 4) (by decide)
  exact ⟨trace, state, run, scanning, scan_finds_slot run scanning⟩

/-! Exclusive ownership of slots. -/

/-- The slot that a manager's next step finds free. -/
def found (shared : Shared slots) : ManagerPc slots → Option (Fin slots)
  | .scan _ i =>
      if bound : i < slots then
        if (shared.sessions ⟨i, bound⟩).active then none else some ⟨i, bound⟩
      else none
  | _ => none

/-- A slot is found free only while no other manager is between finding it free
itself and returning from `handle_session` on it. -/
def FindsUnheld (state : State slots managers jobs) : Action managers jobs → Prop
  | .manager thread _ => ∀ slot ∈ found state.shared (state.managers thread),
      ∀ other, holder (state.managers other) ≠ some slot
  | _ => True

instance (state : State slots managers jobs) (action : Action managers jobs) :
    Decidable (FindsUnheld state action) :=
  match action with
  | .manager thread _ => inferInstanceAs (Decidable (∀ slot ∈ found state.shared (state.managers thread), _))
  | .host _ | .job _ _ | .call _ _ _ | .signal | .openReader _ | .closeReader _ => isTrue trivial

theorem exclusive_step {state next : State slots managers jobs} {action : Action managers jobs}
    (exclusive : Exclusive holder state.managers) (unheld : FindsUnheld state action)
    (taken : step state action = some next) : Exclusive holder next.managers := by
  cases (steps_of_step taken).2 with
  | @manager thread answer result ran =>
    simp only [State.withManager, FindsUnheld] at unheld ⊢
    have move := managerStep_slotMove ran
    generalize fromPc : state.managers thread = pc at move unheld
    cases move with
    | away _ _ _ _ reached => exact exclusive.update_of_kept (.inl reached)
    | busy bound active => exact exclusive.update_of_kept (.inl rfl)
    | found bound free =>
      apply exclusive.update
      intro slot holds other _
      apply unheld slot _ other
      simp only [found, dif_pos bound, free, Bool.false_eq_true, ↓reduceIte]
      exact holds
    | dropped past => exact exclusive.update_of_kept (.inl rfl)
    | setup frame =>
      apply exclusive.update_of_kept
      rw [fromPc]
      exact .inr (holder_of_setup frame)
    | session frame =>
      apply exclusive.update_of_kept
      rw [fromPc]
      exact holder_of_session frame
  | host | job | call | signal | openReader | closeReader => exact exclusive

/-- Between its assignment `sessions[i].active = 1` and its return from `handle_session`. -/
def InSession (slot : Fin slots) : ManagerPc slots → Bool
  | .session _ own _ => own == slot
  | _ => false

theorem inSession_holder {slot : Fin slots} {pc : ManagerPc slots} (inside : InSession slot pc = true) :
    holder pc = some slot := by
  cases pc <;> simp_all [InSession, holder]

theorem exclusive_run
    (run : Run (machine slots managers jobs) FindsUnheld (initial slots managers jobs sigpipeDefault)
      trace state) : Exclusive holder state.managers :=
  run.invariant (fun state => Exclusive holder state.managers) (fun _ _ _ holds => nomatch holds)
    (fun _ _ _ exclusive unheld taken => exclusive_step exclusive unheld taken)

/-- If every slot is found free only while nobody holds it, no two managers are
in a session on one slot. -/
theorem session_exclusive
    (run : Run (machine slots managers jobs) FindsUnheld (initial slots managers jobs sigpipeDefault)
      trace state) :
    ∀ slot first second, InSession slot (state.managers first) = true →
      InSession slot (state.managers second) = true → first = second := by
  intro slot first second inside inside'
  exact exclusive_run run first second slot (inSession_holder inside) (inSession_holder inside')

/-- Two managers in sessions at once, each on a slot of its own. -/
theorem session_exclusive_of_two_clients : ∃ trace state,
    Run (machine MAX_SESSION_COUNT 2 0) FindsUnheld (initial MAX_SESSION_COUNT 2 0 true) trace state ∧
      InSession 0 (state.managers 0) = true ∧ InSession 1 (state.managers 1) = true ∧
      ∀ slot first second, InSession slot (state.managers first) = true →
        InSession slot (state.managers second) = true → first = second := by
  obtain ⟨trace, state, run, inside, inside'⟩ := exists_run
    (machine MAX_SESSION_COUNT 2 0) FindsUnheld (initial MAX_SESSION_COUNT 2 0 true)
    (fun _ state => InSession 0 (state.managers 0) = true ∧ InSession 1 (state.managers 1) = true)
    (arrive 97 ++ advance 0 8 ++ arrive 98 ++ advance 1 9) (by decide)
  exact ⟨trace, state, run, inside, inside', session_exclusive run⟩

/-- Both managers test slot 0 before either has raised its flag. -/
theorem slot_claimed_twice : ∃ trace state,
    Run (machine MAX_SESSION_COUNT 2 0) Always (initial MAX_SESSION_COUNT 2 0 true) trace state ∧
      InSession 0 (state.managers 0) = true ∧ InSession 0 (state.managers 1) = true := by
  apply exists_run (machine MAX_SESSION_COUNT 2 0) Always (initial MAX_SESSION_COUNT 2 0 true)
    (fun _ state => InSession 0 (state.managers 0) = true ∧ InSession 0 (state.managers 1) = true)
    (arrive 97 ++ advance 0 4 ++ arrive 98 ++ advance 1 4 ++ advance 0 4 ++ advance 1 4)
  decide

end IstKvs.SlotScan
