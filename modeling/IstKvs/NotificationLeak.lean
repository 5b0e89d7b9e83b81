import IstKvs.SlotScan

/-! Who may be sent a notification. A slot keeps the subscriptions of its last
session until the next one resets the count, which happens after the new paths
are in place and the flag is up. A slot that starts empty leaks nothing. -/

namespace IstKvs.NotificationLeak
open LabelledRuns ThreadPool Server SlotScan

variable {slots managers jobs : Nat}

/-- The session a slot was last filled in for, and what its client has
subscribed to and not unsubscribed since. -/
structure Client where
  request : ConnectionRequest
  subscribed : List CString
  deriving DecidableEq

def follow (slot : Fin slots) (before : Option Client) : Event slots → Option Client
  | .started own request => if own = slot then some ⟨request, []⟩ else before
  | .subscribed own key =>
      if own = slot then
        before.map fun client => { client with subscribed := key :: client.subscribed }
      else before
  | .unsubscribed own key =>
      if own = slot then
        before.map fun client => { client with subscribed := client.subscribed.filter (· ≠ key) }
      else before
  | _ => before

def current (trace : List (Event slots)) (slot : Fin slots) : Option Client :=
  trace.foldl (follow slot) none

theorem current_append (trace later : List (Event slots)) (slot : Fin slots) :
    current (trace ++ later) slot = later.foldl (follow slot) (current trace slot) :=
  List.foldl_append

/-- The client whose paths are in the slot is the one of its current session and
is subscribed to the key. -/
def Entitled (current : Option Client) (session : SessionData) (key : CString) : Prop :=
  ∃ client, current = some client ∧ PathsOf session client.request ∧ key ∈ client.subscribed

/-- Between a bound test that holds and the end of its entry. -/
def midEntry : JobPc slots → Bool
  | .compare _ _ _ _ | .send _ _ _ _ => true
  | _ => false

/-- The test of an entry, with the notification it leads to, is one step. -/
def EntryAtomic (state : State slots managers jobs) : Action managers jobs → Prop
  | .job thread _ => ∀ other, midEntry (state.jobs other) = true → other = thread
  | _ => ∀ other, midEntry (state.jobs other) = false

/-- Entry tests are atomic and a slot is used by one manager at a time. -/
def Assumed (state : State slots managers jobs) (action : Action managers jobs) : Prop :=
  EntryAtomic state action ∧ FindsUnheld state action

/-- The key is in the list at most once. -/
def AtMostOnce (session : SessionData) (key : CString) : Prop :=
  ∀ p < session.numSubscribedKeys.toNat, ∀ q < session.numSubscribedKeys.toNat,
    session.subscribedKeys p = key → session.subscribedKeys q = key → p = q

/-- A slot is filled in only when its count is not positive; a key is unsubscribed only when
it is in the list once; a key is stored only while the count is not negative. -/
def CleanPc (sessions : Fin slots → SessionData) : ManagerPc slots → Prop
  | .setup _ slot .reqPath => (sessions slot).numSubscribedKeys ≤ 0
  | .session _ slot (.dispatch localBuffer _) =>
      opCode localBuffer = OP_CODE_UNSUBSCRIBE → AtMostOnce (sessions slot) (requestKey localBuffer)
  | .session _ slot (.subscribeStore _) => 0 ≤ (sessions slot).numSubscribedKeys
  | _ => True

def Clean (state : State slots managers jobs) : Action managers jobs → Prop
  | .manager thread _ => CleanPc state.shared.sessions (state.managers thread)
  | _ => True

instance (session : SessionData) (key : CString) : Decidable (AtMostOnce session key) :=
  inferInstanceAs (Decidable (∀ p < session.numSubscribedKeys.toNat, ∀ q < session.numSubscribedKeys.toNat, _))

instance (session : SessionData) (request : ConnectionRequest) : Decidable (PathsOf session request) :=
  inferInstanceAs (Decidable (_ ∧ _))

instance (sessions : Fin slots → SessionData) (pc : ManagerPc slots) :
    Decidable (CleanPc sessions pc) := by
  unfold CleanPc
  split <;> infer_instance

instance (state : State slots managers jobs) (action : Action managers jobs) :
    Decidable (EntryAtomic state action) :=
  match action with
  | .job _ _ => inferInstanceAs (Decidable (∀ _, _ → _))
  | .host _ | .manager _ _ | .call _ _ _ | .signal | .openReader _ | .closeReader _ =>
      inferInstanceAs (Decidable (∀ _, _ = false))

instance (state : State slots managers jobs) (action : Action managers jobs) :
    Decidable (Assumed state action) :=
  inferInstanceAs (Decidable (_ ∧ _))

instance (state : State slots managers jobs) (action : Action managers jobs) :
    Decidable (Clean state action) :=
  match action with
  | .manager thread _ => inferInstanceAs (Decidable (CleanPc state.shared.sessions (state.managers thread)))
  | .host _ | .job _ _ | .call _ _ _ | .signal | .openReader _ | .closeReader _ => isTrue trivial

/-! What a slot and the manager on it know of the current session. -/

/-- Every entry notifications are sent for is one of the current client's. -/
def Covered (current : Option Client) (session : SessionData) : Prop :=
  ∀ j : Int, 0 ≤ j → j < session.numSubscribedKeys → Entitled current session (session.subscribedKeys j)

theorem covered_of_empty {current : Option Client} {session : SessionData}
    (empty : session.numSubscribedKeys ≤ 0) : Covered current session := by
  intro j low high
  omega

/-- What the body of the loop has established when it stands at `pc`. -/
def PointFacts (client : Client) (session : SessionData) : SessionPc → Prop
  | .subscribeCount localBuffer =>
      ∃ last : Int, 0 ≤ last ∧ session.numSubscribedKeys ≤ last ∧ ∀ p, 0 ≤ p → p ≤ last →
        session.subscribedKeys p = requestKey localBuffer ∨ session.subscribedKeys p ∈ client.subscribed
  | .unsubscribeFind localBuffer i => 0 ≤ i ∧ AtMostOnce session (requestKey localBuffer)
  -- `j` is the hole that the shift moves to the end
  | .unsubscribeShift localBuffer j => 0 ≤ j ∧ ∀ p, 0 ≤ p → p < session.numSubscribedKeys → p ≠ j →
      session.subscribedKeys p ≠ requestKey localBuffer
  | .unsubscribeCount localBuffer => ∀ p, 0 ≤ p → p < session.numSubscribedKeys - 1 →
      session.subscribedKeys p ≠ requestKey localBuffer
  | _ => True

def Facts (current : Option Client) (session : SessionData) : ManagerPc slots → Prop
  | .setup _ _ .reqPath => True
  | .setup request _ pc => session.numSubscribedKeys ≤ 0 ∧ Filled request session pc ∧
      ∃ client, current = some client ∧ client.request = request
  | .session request _ pc => ∃ client, current = some client ∧ client.request = request ∧
      PathsOf session request ∧ PointFacts client session pc
  | _ => True

/-- The sweep changes a session to one of these. -/
inductive Swept (before : SessionData) : SessionData → Prop where
  | same : Swept before before
  | active : Swept before { before with active := false }
  | keys : Swept before { before with numSubscribedKeys := 0 }

theorem hostStep_swept {answer : Answer} {shared : Shared slots} {pc : HostPc slots}
    {result : Shared slots × HostPc slots} (ran : hostStep answer shared pc = some result)
    (slot : Fin slots) : Swept (shared.sessions slot) (result.1.sessions slot) := by
  cases pc with
  | sweepActive i =>
    cases ran
    show Swept _ ((shared.modify i fun session => { session with active := false }).sessions slot)
    refine modify_cases (P := fun other session => Swept (shared.sessions other) session) ?_ (fun _ _ => .same) slot
    exact .active
  | sweepKeys i =>
    cases ran
    show Swept _ ((shared.modify i fun session => { session with numSubscribedKeys := 0 }).sessions slot)
    refine modify_cases (P := fun other session => Swept (shared.sessions other) session) ?_ (fun _ _ => .same) slot
    exact .keys
  | _ =>
    simp only [hostStep] at ran
    repeat' split at ran
    all_goals cases ran
    all_goals exact .same

theorem covered_swept {current : Option Client} {before after : SessionData}
    (swept : Swept before after) (covered : Covered current before) : Covered current after := by
  cases swept with
  | same => exact covered
  | active => exact covered
  | keys => exact covered_of_empty (Int.le_refl 0)

theorem pointFacts_swept {client : Client} {before after : SessionData} {pc : SessionPc}
    (swept : Swept before after) (facts : PointFacts client before pc) : PointFacts client after pc := by
  cases swept with
  | same => exact facts
  | active => cases pc <;> exact facts
  | keys =>
    cases pc with
    | subscribeCount localBuffer =>
      obtain ⟨last, nonneg, _, below⟩ := facts
      exact ⟨last, nonneg, nonneg, below⟩
    | unsubscribeFind localBuffer i => exact ⟨facts.1, fun p bound => absurd bound (by simp)⟩
    | unsubscribeShift localBuffer j => exact ⟨facts.1, fun p low high => by simp at high; omega⟩
    | unsubscribeCount localBuffer => exact fun p low high => by simp at high; omega
    | _ => trivial

theorem facts_swept {current : Option Client} {before after : SessionData} {pc : ManagerPc slots}
    (swept : Swept before after) (facts : Facts current before pc) : Facts current after pc := by
  cases pc with
  | setup request slot pc =>
    cases pc with
    | reqPath => trivial
    | _ =>
      obtain ⟨empty, filled, client⟩ := facts
      cases swept with
      | same => exact ⟨empty, filled, client⟩
      | active => exact ⟨empty, filled, client⟩
      | keys => exact ⟨Int.le_refl 0, filled, client⟩
  | session request slot pc =>
    obtain ⟨client, is_, same, paths, facts⟩ := facts
    refine ⟨client, is_, same, ?_, pointFacts_swept swept facts⟩
    cases swept <;> exact paths
  | _ => trivial

/-! One step of the manager on the slot. -/

theorem setup_step {current : Option Client} {shared : Shared slots} {request : ConnectionRequest}
    {slot : Fin slots} {pc : SetupPc} (facts : Facts current (shared.sessions slot) (.setup request slot pc))
    (clean : CleanPc shared.sessions (.setup request slot pc)) :
    Covered ((managerEvents shared (.setup request slot pc)).foldl (follow slot) current)
        ((setupStep shared request slot pc).1.sessions slot) ∧
      Facts ((managerEvents shared (.setup request slot pc)).foldl (follow slot) current)
        ((setupStep shared request slot pc).1.sessions slot) (setupStep shared request slot pc).2 := by
  have empty : (shared.sessions slot).numSubscribedKeys ≤ 0 := by
    cases pc with
    | reqPath => exact clean
    | _ => exact facts.1
  constructor
  · apply covered_of_empty
    cases pc <;> simpa [setupStep] using empty
  · cases pc with
    | reqPath => simp [setupStep, Facts, Filled, managerEvents, follow, empty]
    | activate =>
      obtain ⟨_, filled, client, is_, same⟩ := facts
      refine ⟨client, by simpa [managerEvents] using is_, same, ?_, trivial⟩
      simpa [setupStep, Filled, PathsOf] using filled
    | respPath | notifPath =>
      obtain ⟨_, filled, client, is_, same⟩ := facts
      refine ⟨by simpa [setupStep] using empty, ?_, client, by simpa [managerEvents] using is_, same⟩
      simp_all [setupStep, Filled, PathsOf]

/-- The slot and its manager agree on the current session. -/
def Agree (current : Option Client) (session : SessionData) (pc : ManagerPc slots) : Prop :=
  Covered current session ∧ Facts current session pc

theorem pointFacts_dispatch {client : Client} {session : SessionData} {localBuffer : List UInt8}
    (answer : Answer) (bytesRead : Nat)
    (unique : opCode localBuffer = OP_CODE_UNSUBSCRIBE → AtMostOnce session (requestKey localBuffer)) :
    PointFacts client session (dispatchStep answer session localBuffer bytesRead) := by
  obtain stores | ⟨result, answers⟩ | finds | clears :=
    dispatchStep_cases answer session localBuffer bytesRead
  · rw [stores.1]; trivial
  · rw [answers]; trivial
  · rw [finds.1]; exact ⟨Int.le_refl 0, unique finds.2⟩
  · rw [clears.1]; trivial

/-- Storing behind the entries keeps them, and the next count takes in the new key. -/
theorem covered_store {client : Client} {session : SessionData} {slot : Fin slots}
    {localBuffer : List UInt8} (covered : Covered (some client) session)
    (paths : PathsOf session client.request) (clean : 0 ≤ session.numSubscribedKeys) :
    Agree (some client) (session.setKey session.numSubscribedKeys (requestKey localBuffer))
      (.session client.request slot (.subscribeCount localBuffer)) := by
  have old : ∀ p, 0 ≤ p → p < session.numSubscribedKeys → session.subscribedKeys p ∈ client.subscribed ∧
      (session.setKey session.numSubscribedKeys (requestKey localBuffer)).subscribedKeys p =
        session.subscribedKeys p := by
    intro p low high
    obtain ⟨_, same, _, member⟩ := covered p low high
    cases same
    exact ⟨member, Function.update_of_ne (by omega) ..⟩
  constructor
  · intro p low high
    obtain ⟨member, same⟩ := old p low high
    exact ⟨client, rfl, paths, by rwa [same]⟩
  · refine ⟨client, rfl, rfl, paths, session.numSubscribedKeys, clean, Int.le_refl _, fun p low high => ?_⟩
    by_cases last : p = session.numSubscribedKeys
    · subst last
      exact .inl (Function.update_self ..)
    · obtain ⟨member, same⟩ := old p low (by omega)
      exact .inr (by rwa [same])

theorem covered_count {client : Client} {session : SessionData} {slot : Fin slots}
    {localBuffer : List UInt8} (paths : PathsOf session client.request)
    (facts : PointFacts client session (.subscribeCount localBuffer)) :
    Agree (some { client with subscribed := requestKey localBuffer :: client.subscribed })
      { session with numSubscribedKeys := session.numSubscribedKeys + 1 }
      (.session client.request slot (.respond localBuffer 1)) := by
  obtain ⟨last, _, bound, below⟩ := facts
  refine ⟨fun p low high => ?_, _, rfl, rfl, paths, trivial⟩
  have high : p < session.numSubscribedKeys + 1 := high
  refine ⟨_, rfl, paths, List.mem_cons.mpr ?_⟩
  exact below p low (by omega)

/-- Once the key is found at `i`, every other entry differs from it. -/
theorem hole_of_found {session : SessionData} {key : CString} {i : Int} (nonneg : 0 ≤ i)
    (bound : i < session.numSubscribedKeys) (found : session.subscribedKeys i = key)
    (unique : AtMostOnce session key) :
    ∀ p, 0 ≤ p → p < session.numSubscribedKeys → p ≠ i → session.subscribedKeys p ≠ key := by
  intro p low high other same
  have indices : (p.toNat : Int) = p ∧ (i.toNat : Int) = i := by omega
  have both := unique p.toNat (by omega) i.toNat (by omega)
    (by rw [indices.1]; exact same) (by rw [indices.2]; exact found)
  omega

theorem covered_shift {client : Client} {session : SessionData} {slot : Fin slots}
    {localBuffer : List UInt8} {j : Int} (covered : Covered (some client) session)
    (paths : PathsOf session client.request)
    (facts : PointFacts client session (.unsubscribeShift localBuffer j))
    (bound : j < session.numSubscribedKeys - 1) :
    Agree (some client) (session.setKey j (session.subscribedKeys (j + 1)))
      (.session client.request slot (.unsubscribeShift localBuffer (j + 1))) := by
  obtain ⟨nonneg, others⟩ := facts
  have moved : ∀ p, (session.setKey j (session.subscribedKeys (j + 1))).subscribedKeys p =
      session.subscribedKeys (if p = j then j + 1 else p) := by
    intro p
    by_cases here : p = j
    · subst here
      rw [if_pos rfl]
      exact Function.update_self ..
    · rw [if_neg here]
      exact Function.update_of_ne here ..
  constructor
  · intro p low high
    have high : p < session.numSubscribedKeys := high
    obtain ⟨_, same, _, member⟩ := covered (if p = j then j + 1 else p) (by split <;> omega)
      (by split <;> omega)
    cases same
    exact ⟨client, rfl, paths, by rwa [moved]⟩
  · refine ⟨client, rfl, rfl, paths, by omega, fun p low high other => ?_⟩
    have high : p < session.numSubscribedKeys := high
    rw [moved]
    exact others _ (by split <;> omega) (by split <;> omega) (by split <;> omega)

theorem covered_uncount {client : Client} {session : SessionData} {slot : Fin slots}
    {localBuffer : List UInt8} (covered : Covered (some client) session)
    (paths : PathsOf session client.request)
    (facts : PointFacts client session (.unsubscribeCount localBuffer)) :
    Agree (some { client with
        subscribed := client.subscribed.filter (· ≠ requestKey localBuffer) })
      { session with numSubscribedKeys := session.numSubscribedKeys - 1 }
      (.session client.request slot (.respond localBuffer 0)) := by
  refine ⟨fun p low high => ?_, _, rfl, rfl, paths, trivial⟩
  have high : p < session.numSubscribedKeys - 1 := high
  obtain ⟨_, same, _, member⟩ := covered p low (by omega)
  cases same
  refine ⟨_, rfl, paths, List.mem_filter.mpr ⟨member, ?_⟩⟩
  exact decide_eq_true (facts p low high)

theorem session_step {answer : Answer} {current : Option Client} {shared : Shared slots}
    {request : ConnectionRequest} {slot : Fin slots} {pc : SessionPc}
    {result : Shared slots × ManagerPc slots}
    (agree : Agree current (shared.sessions slot) (.session request slot pc))
    (clean : CleanPc shared.sessions (.session request slot pc))
    (ran : sessionStep answer shared request slot pc = some result) :
    Agree ((managerEvents shared (.session request slot pc)).foldl (follow slot) current)
      (result.1.sessions slot) result.2 := by
  obtain ⟨covered, client, is_, same, paths, facts⟩ := agree
  subst same is_
  revert ran
  fun_cases sessionStep answer shared client.request slot pc <;> intro ran
  case case1 | case2 | case3 =>
    obtain ⟨descriptors, opens, made⟩ := Option.map_eq_some_iff.mp ran
    subst made
    rw [modify_sessions_self]
    exact ⟨covered, client, rfl, rfl, paths, trivial⟩
  all_goals cases ran
  all_goals simp only [managerEvents, List.foldl_nil, List.foldl_cons, follow, ↓reduceIte,
    modify_sessions_self, Shared.afterWrite]
  case case6 | case27 => exact ⟨covered, trivial⟩
  case case7 | case24 =>
    refine ⟨covered, client, rfl, rfl, paths, ?_⟩
    split <;> trivial
  case case8 | case23 => exact ⟨covered_of_empty (Int.le_refl 0), client, rfl, rfl, paths, trivial⟩
  case case13 localBuffer bytesRead =>
    exact ⟨covered, client, rfl, rfl, paths, pointFacts_dispatch answer bytesRead clean⟩
  case case14 localBuffer => exact covered_store covered paths clean
  case case15 localBuffer => exact covered_count paths facts
  case case16 localBuffer i session bound found =>
    exact ⟨covered, client, rfl, rfl, paths, facts.1, hole_of_found facts.1 bound found facts.2⟩
  case case17 localBuffer i session bound other =>
    exact ⟨covered, client, rfl, rfl, paths, Int.le_add_one facts.1, facts.2⟩
  case case19 localBuffer j bound => exact covered_shift covered paths facts bound
  case case20 localBuffer j bound =>
    refine ⟨covered, client, rfl, rfl, paths, fun p low high => facts.2 p low (by omega) (by omega)⟩
  case case21 localBuffer => exact covered_uncount covered paths facts
  all_goals exact ⟨covered, client, rfl, rfl, paths, trivial⟩

/-! The invariant of the assumed runs. -/

/-- What a job thread knows of the entry it is at. -/
def JobFacts (sessions : Fin slots → SessionData) : JobPc slots → Prop
  | .testBound _ _ _ j => 0 ≤ j
  | .compare _ _ i j => 0 ≤ j ∧ j < (sessions i).numSubscribedKeys
  | .send key _ i j =>
      0 ≤ j ∧ j < (sessions i).numSubscribedKeys ∧ (sessions i).subscribedKeys j = key
  | _ => True

theorem jobFacts_between {sessions after : Fin slots → SessionData} {pc : JobPc slots}
    (facts : JobFacts sessions pc) (between : midEntry pc = false) : JobFacts after pc := by
  cases pc with
  | compare | send => cases between
  | _ => exact facts

theorem jobFacts_step {answer : Answer} {shared : Shared slots} {pc : JobPc slots}
    {result : Shared slots × JobPc slots} (facts : JobFacts shared.sessions pc)
    (ran : jobStep answer shared pc = some result) : JobFacts shared.sessions result.2 := by
  revert ran
  fun_cases jobStep answer shared pc <;> intro ran
  all_goals cases ran
  case case2 => exact Int.le_refl 0
  case case5 bound => exact ⟨facts, bound⟩
  case case7 => exact ⟨facts.1, facts.2, rfl⟩
  case case8 => exact Int.le_add_one facts.1
  case case9 => exact Int.le_add_one facts.1
  case case10 => exact Int.le_add_one facts.1
  all_goals trivial

structure Sound (trace : List (Event slots)) (state : State slots managers jobs) : Prop where
  exclusive : Exclusive holder state.managers
  covered : ∀ slot, Covered (current trace slot) (state.shared.sessions slot)
  facts : ∀ thread slot, holder (state.managers thread) = some slot →
    Facts (current trace slot) (state.shared.sessions slot) (state.managers thread)
  jobs : ∀ thread, JobFacts state.shared.sessions (state.jobs thread)

theorem sound_initial (sigpipeDefault : Bool) :
    Sound [] (initial slots managers jobs sigpipeDefault) where
  exclusive := fun _ _ _ holds => nomatch holds
  covered := fun _ => covered_of_empty (Int.le_refl 0)
  facts := fun _ _ holds => nomatch holds
  jobs := fun _ => trivial

/-- A manager's events are about the slot it holds. -/
theorem follow_others {shared : Shared slots} {pc : ManagerPc slots} {slot : Fin slots}
    (away : holder pc ≠ some slot) (before : Option Client) :
    (managerEvents shared pc).foldl (follow slot) before = before := by
  cases pc with
  | setup request own pc =>
    have other : own ≠ slot := fun same => away (same ▸ rfl)
    cases pc <;> simp [managerEvents, follow, other]
  | session request own pc =>
    have other : own ≠ slot := fun same => away (same ▸ rfl)
    cases pc <;> simp [managerEvents, follow, other]
  | _ => rfl

theorem agree_step {answer : Answer} {before : Option Client} {shared : Shared slots}
    {pc : ManagerPc slots} {slot : Fin slots} {result : Shared slots × ManagerPc slots}
    (held : holder pc = some slot) (agree : Agree before (shared.sessions slot) pc)
    (clean : CleanPc shared.sessions pc) (ran : managerStep answer shared pc = some result) :
    Agree ((managerEvents shared pc).foldl (follow slot) before) (result.1.sessions slot) result.2 := by
  cases pc with
  | setup request own pc =>
    cases held
    cases ran
    exact setup_step agree.2 clean
  | session request own pc =>
    cases held
    exact session_step agree clean ran
  | _ => cases held

theorem sessions_of_away {answer : Answer} {shared : Shared slots} {pc : ManagerPc slots}
    {slot : Fin slots} {result : Shared slots × ManagerPc slots} (away : holder pc ≠ some slot)
    (ran : managerStep answer shared pc = some result) :
    result.1.sessions slot = shared.sessions slot := by
  cases managerStep_slotMove ran with
  | away sessions => rw [sessions]
  | busy | found | dropped => rfl
  | setup frame => exact frame.others slot (fun same => away (same ▸ rfl))
  | session frame => exact frame.others slot (fun same => away (same ▸ rfl))

/-- A slot that a step takes hold of is one found free, and nothing is known of it yet. -/
theorem facts_of_new {before : Option Client} {session : SessionData} {shared : Shared slots}
    {pc : ManagerPc slots} {slot : Fin slots} {result : Shared slots × ManagerPc slots}
    (move : SlotMove shared pc result) (held : holder result.2 = some slot)
    (away : holder pc ≠ some slot) : Facts before session result.2 := by
  cases move with
  | away _ _ _ _ reached => rw [reached] at held; cases held
  | busy => cases held
  | found => trivial
  | dropped => cases held
  | setup frame =>
    rw [holder_of_setup frame] at held
    exact absurd held away
  | session frame =>
    rcases holder_of_session frame with returned | kept
    · rw [returned] at held
      cases held
    · rw [kept] at held
      exact absurd held away

theorem follow_hostEvents (shared : Shared slots) (pc : HostPc slots) (slot : Fin slots)
    (before : Option Client) : (hostEvents shared pc).foldl (follow slot) before = before := by
  cases pc <;> rfl

theorem follow_jobEvents (shared : Shared slots) (pc : JobPc slots) (slot : Fin slots)
    (before : Option Client) : (jobEvents shared pc).foldl (follow slot) before = before := by
  cases pc with
  | send key value i j =>
    simp only [jobEvents]
    split <;> rfl
  | _ => rfl

theorem sound_step {trace : List (Event slots)} {state next : State slots managers jobs}
    {action : Action managers jobs} (sound : Sound trace state) (assumed : Assumed state action)
    (clean : Clean state action) (taken : step state action = some next) :
    Sound (trace ++ observe state action) next := by
  have exclusive := exclusive_step sound.exclusive assumed.2 taken
  obtain ⟨before, covered, facts, threads⟩ := sound
  have atomic := assumed.1
  cases (steps_of_step taken).2 with
  | host ran =>
    have same : ∀ slot, current (trace ++ hostEvents state.shared state.host) slot = current trace slot := by
      intro slot
      rw [current_append, follow_hostEvents]
    refine ⟨exclusive, fun slot => ?_, fun thread slot held => ?_, fun thread => ?_⟩
    · exact (same slot).symm ▸ covered_swept (hostStep_swept ran slot) (covered slot)
    · exact (same slot).symm ▸ facts_swept (hostStep_swept ran slot) (facts thread slot held)
    · exact jobFacts_between (threads thread) (atomic thread)
  | @manager thread answer result ran =>
    have others : ∀ slot, holder (state.managers thread) ≠ some slot →
        current (trace ++ managerEvents state.shared (state.managers thread)) slot = current trace slot ∧
          result.1.sessions slot = state.shared.sessions slot := by
      intro slot away
      rw [current_append, follow_others away]
      exact ⟨rfl, sessions_of_away away ran⟩
    have own : ∀ slot, holder (state.managers thread) = some slot →
        Agree (current (trace ++ managerEvents state.shared (state.managers thread)) slot)
          (result.1.sessions slot) result.2 := by
      intro slot held
      rw [current_append]
      exact agree_step held ⟨covered slot, facts thread slot held⟩ clean ran
    refine ⟨exclusive, fun slot => ?_, fun other slot held => ?_, fun thread => ?_⟩
    · by_cases held : holder (state.managers thread) = some slot
      · exact (own slot held).1
      · obtain ⟨same, same'⟩ := others slot held
        simp only [observe, State.withManager, same, same']
        exact covered slot
    · by_cases moved : other = thread
      · subst moved
        simp only [State.withManager, Function.update_self] at held ⊢
        by_cases here : holder (state.managers other) = some slot
        · exact (own slot here).2
        · exact facts_of_new (managerStep_slotMove ran) held here
      · simp only [State.withManager, Function.update_of_ne moved] at held ⊢
        have away : holder (state.managers thread) ≠ some slot := by
          intro both
          exact moved (before other thread slot held both)
        obtain ⟨same, same'⟩ := others slot away
        simp only [observe, same, same']
        exact facts other slot held
    · exact jobFacts_between (threads thread) (atomic thread)
  | @job thread answer result ran =>
    obtain ⟨terminated, unchanged⟩ := jobStep_sessions ran
    have same : ∀ slot, current (trace ++ jobEvents state.shared (state.jobs thread)) slot =
        current trace slot := by
      intro slot
      rw [current_append, follow_jobEvents]
    refine ⟨exclusive, fun slot => ?_, fun other slot held => ?_, ?_⟩
    · simp only [observe, same, State.withJob, unchanged]
      exact covered slot
    · simp only [observe, same, State.withJob, unchanged]
      exact facts other slot held
    · simp only [State.withJob, unchanged]
      apply (Function.forall_update_iff state.jobs fun _ => JobFacts state.shared.sessions).mpr
      exact ⟨jobFacts_step (threads thread) ran, fun other _ => threads other⟩
  | @call thread key value idle =>
    simp only [observe, List.append_nil]
    refine ⟨exclusive, covered, facts, ?_⟩
    apply (Function.forall_update_iff state.jobs fun _ => JobFacts state.shared.sessions).mpr
    exact ⟨trivial, fun other _ => threads other⟩
  | signal | openReader | closeReader =>
    simp only [observe, List.append_nil]
    exact ⟨exclusive, covered, facts, threads⟩

variable {sigpipeDefault : Bool} {trace : List (Event slots)} {state : State slots managers jobs}

theorem sound_run
    (run : Run (machine slots managers jobs) (fun state action => Assumed state action ∧ Clean state action)
      (initial slots managers jobs sigpipeDefault) trace state) : Sound trace state :=
  run.induct Sound (sound_initial sigpipeDefault)
    (fun _ _ _ _ sound met taken => sound_step sound met.1 met.2 taken)

theorem send_of_notified {shared : Shared slots} {pc : JobPc slots} {slot : Fin slots}
    {key value : CString} (sent : Event.notified slot key value ∈ jobEvents shared pc) :
    ∃ j, pc = .send key value slot j := by
  cases pc with
  | send own other i j =>
    simp only [jobEvents] at sent
    split at sent
    · cases List.mem_singleton.mp sent
      exact ⟨j, rfl⟩
    · cases sent
  | _ => cases sent

def subscribedKey : CString := requestKey [OP_CODE_SUBSCRIBE, 107]

/-- A first client connects on slot 0 and subscribes to a key. -/
def subscribing (thread : Fin managers) : List (Action managers jobs) :=
  firstSession thread ++ receive thread [OP_CODE_SUBSCRIBE, 107] ++
    [.manager thread { keyExists := true }] ++ advance thread 3

/-- A job thread that changes the key, up to the write of the notification. -/
def changing (thread : Fin jobs) : List (Action managers jobs) :=
  .call thread subscribedKey CString.empty :: List.replicate 3 (.job thread {})

end IstKvs.NotificationLeak
