import IstKvs.SubscribeAnswer
import IstKvs.Messages

/-! UNSUBSCRIBE after any requests. The count stays between 0 and `MAX_NUMBER_SUB`, and the
search with its shift takes the first entry with the key out of the list. The cells are
arrays of fixed width; what they hold follows the list. -/

namespace IstKvs.UnsubscribeExact
open Fields Messages SessionLoop SubscriptionList SubscribeAnswer

/-- A request as the read leaves it in the buffer, and whether the store has its key when
it is served. -/
structure Request where
  localBuffer : List UInt8
  keyExists : Bool

/-- The slot with the empty list, as `handle_session` enters its loop. -/
def emptied (session : SessionData) : SessionData := { session with numSubscribedKeys := 0 }

def afterRequests (session : SessionData) (requests : List Request) : SessionData :=
  requests.foldl (fun session request => (serve request.keyExists request.localBuffer session).session)
    (emptied session)

/-- A list that fits the array `subscribed_keys` and its cells. -/
structure WithinArray (session : SessionData) : Prop where
  low : 0 ≤ session.numSubscribedKeys
  high : session.numSubscribedKeys ≤ MAX_NUMBER_SUB
  short : ∀ key ∈ subscriptions session, key.bytes.length < MAX_STRING_SIZE

/-! What one request keeps. -/

section Served
variable {session : SessionData} {key : CString}

theorem requestKey_short (localBuffer : List UInt8) :
    (requestKey localBuffer).bytes.length < MAX_STRING_SIZE := by
  have kept : (requestKey localBuffer).bytes.length ≤ MAX_STRING_SIZE - 1 :=
    length_copied (localBuffer.drop 1) (MAX_STRING_SIZE - 1)
  have room : MAX_STRING_SIZE - 1 < MAX_STRING_SIZE := by decide
  exact Nat.lt_of_le_of_lt kept room

theorem serveSubscribe_within (keyExists : Bool) (fits : key.bytes.length < MAX_STRING_SIZE)
    (within : WithinArray session) : WithinArray (serveSubscribe keyExists key session).session := by
  have low := serveSubscribe_low keyExists key within.low
  have high := within.high
  have list := subscriptions_serveSubscribe keyExists key within.low
  have count := congrArg List.length list
  rw [subscriptions_length, subscriptions_length] at count
  constructor
  · exact low
  · split_ifs at count with stored
    · rw [List.length_append, List.length_singleton, subscriptions_length] at count
      omega
    · rw [subscriptions_length] at count
      omega
  · intro other member
    rw [list] at member
    split_ifs at member
    · rcases List.mem_append.mp member with old | new
      · exact within.short other old
      · exact List.mem_singleton.mp new ▸ fits
    · exact within.short other member

theorem serveUnsubscribe_within (key : CString) (within : WithinArray session) :
    WithinArray (serveUnsubscribe key session).session := by
  have low := @serveUnsubscribe_low session key within.low
  have erased := (serveUnsubscribe_spec key session).1
  have fewer : (subscriptions (serveUnsubscribe key session).session).length ≤
      (subscriptions session).length := by
    rw [erased]
    exact List.length_erase_le
  have high := within.high
  rw [subscriptions_length, subscriptions_length] at fewer
  constructor
  · exact low
  · omega
  · intro other member
    rw [erased] at member
    exact within.short other (List.mem_of_mem_erase member)

theorem within_of_empty (empty : session.numSubscribedKeys = 0) : WithinArray session := by
  constructor
  · rw [empty]
  · rw [empty]
    exact Int.natCast_nonneg MAX_NUMBER_SUB
  · intro key member
    rw [subscriptions, empty] at member
    cases member

theorem serve_within (request : Request) (within : WithinArray session) :
    WithinArray (serve request.keyExists request.localBuffer session).session := by
  unfold serve
  split_ifs
  · exact serveSubscribe_within request.keyExists (requestKey_short request.localBuffer) within
  · exact serveUnsubscribe_within (requestKey request.localBuffer) within
  · exact within_of_empty rfl
  · exact within

theorem afterRequests_concat (session : SessionData) (requests : List Request) (request : Request) :
    afterRequests session (requests ++ [request]) =
      (serve request.keyExists request.localBuffer (afterRequests session requests)).session := by
  simp only [afterRequests, List.foldl_append, List.foldl_cons, List.foldl_nil]

/-- Induction on the requests, the last one first. -/
theorem afterRequests_within (session : SessionData) (requests : List Request) :
    WithinArray (afterRequests session requests) := by
  induction requests using List.reverseRecOn with
  | nil => exact within_of_empty rfl
  | append_singleton requests request ih =>
    rw [afterRequests_concat]
    exact serve_within request ih

end Served

/-! The loop of `handle_session` reaches these sessions, and with requests that keep it
running all of them. -/

section Loop
variable {session last : SessionData} {localBuffer lastBuffer : List UInt8}

theorem loop_serves (requests : List Request) (turns : List Turn)
    (reading : (sessionLoop turns (.reading (afterRequests session requests) localBuffer)).1 =
      .reading last lastBuffer) :
    ∃ served, last = afterRequests session (requests ++ served) := by
  induction turns generalizing requests localBuffer with
  | nil =>
    cases reading
    exact ⟨[], by rw [List.append_nil]⟩
  | cons turn turns ih =>
    simp only [sessionLoop] at reading
    cases taken : (takeTurn turn (afterRequests session requests) localBuffer).1 with
    | reading next buffer =>
      obtain ⟨_, _, served⟩ := takeTurn_goesOn taken
      have request := afterRequests_concat session requests ⟨buffer, turn.keyExists⟩
      rw [taken, served, ← request] at reading
      obtain ⟨later, same⟩ := ih _ reading
      exact ⟨⟨buffer, turn.keyExists⟩ :: later, by simpa using same⟩
    | returned | killed =>
      rw [taken, sessionLoop_over (by simp)] at reading
      cases reading

/-- A session in its loop has served some requests from the empty list. -/
theorem loop_reaches (turns : List Turn)
    (reading : (sessionLoop turns (testActive (emptied session) localBuffer)).1 = .reading last lastBuffer) :
    ∃ requests, last = afterRequests session requests := by
  unfold testActive at reading
  split_ifs at reading
  · exact loop_serves [] turns reading
  · rw [sessionLoop_over (by simp)] at reading
    cases reading

theorem loop_serves_all {requests : List Request} (active : session.active = true)
    (whole : ∀ request ∈ requests, request.localBuffer.length = localBuffer.length)
    (stays : ∀ request ∈ requests, opCode request.localBuffer ≠ OP_CODE_DISCONNECT) :
    ∃ turns lastBuffer, (sessionLoop turns (.reading session localBuffer)).1 =
      .reading (requests.foldl (fun session request =>
        (serve request.keyExists request.localBuffer session).session) session) lastBuffer := by
  induction requests generalizing session localBuffer with
  | nil => exact ⟨[], localBuffer, rfl⟩
  | cons request requests ih =>
    obtain ⟨here, later⟩ := List.forall_mem_cons.mp whole
    obtain ⟨stays, stays'⟩ := List.forall_mem_cons.mp stays
    have running := (serve_running stays request.keyExists session).1.trans active
    obtain ⟨turns, lastBuffer, rest⟩ :=
      ih running (fun other member => (later other member).trans here.symm) stays'
    refine ⟨⟨some request.localBuffer, request.keyExists, .ok⟩ :: turns, lastBuffer, ?_⟩
    rw [sessionLoop_request active here stays, rest, List.foldl_cons]

/-- Requests that arrive whole and do not disconnect are all served by one loop. -/
theorem afterRequests_reached {requests : List Request} (active : session.active = true)
    (whole : ∀ request ∈ requests, request.localBuffer.length = localBuffer.length)
    (stays : ∀ request ∈ requests, opCode request.localBuffer ≠ OP_CODE_DISCONNECT) :
    ∃ turns lastBuffer, (sessionLoop turns (testActive (emptied session) localBuffer)).1 =
      .reading (afterRequests session requests) lastBuffer := by
  have running : (emptied session).active = true := active
  rw [testActive, if_pos running]
  exact loop_serves_all running whole stays

end Loop

/-! The cells of the array. The copies move whole strings with their terminators, so the
cells hold what the list says. -/

section Cells
variable {session : SessionData} {cells : Int → List UInt8} {array cell source : List UInt8} {key : CString}

/-- The key and its terminator, in an array of `MAX_STRING_SIZE` bytes. -/
def Holds (cell : List UInt8) (key : CString) : Prop :=
  cell.length = MAX_STRING_SIZE ∧ StartsAt 0 cell 0 key.bytes

/-- `subscribed_keys` as `session` has it. -/
def HoldsKeys (cells : Int → List UInt8) (session : SessionData) : Prop :=
  ∀ i, 0 ≤ i → i < session.numSubscribedKeys → Holds (cells i) (session.subscribedKeys i)

/-- `strncpy(subscribed_keys[i], key, MAX_STRING_SIZE)`. -/
def copyCell (cells : Int → List UInt8) (i : Int) (key : List UInt8) : Int → List UInt8 :=
  Function.update cells i (strncpy (cells i) key MAX_STRING_SIZE)

/-- The inner loop of UNSUBSCRIBE on the cells, with the number of turns left. -/
def shiftCells (cells : Int → List UInt8) (j : Int) : Nat → Int → List UInt8
  | 0 => cells
  | turns + 1 => shiftCells (copyCell cells j (cells (j + 1))) (j + 1) turns

/-- The search of UNSUBSCRIBE on the cells; `strcmp` compares up to the terminators. -/
def findCell (cells : Int → List UInt8) (key : List UInt8) (i : Int) : Nat → Option Int
  | 0 => none
  | turns + 1 =>
      if CString.ofBytes (cells i) = CString.ofBytes key then some i else findCell cells key (i + 1) turns

/-- The cells after the switch, where `array` is what the local `key` holds before. -/
def serveCells (request : Request) (array : List UInt8) (count : Int) (cells : Int → List UInt8) : Int → List UInt8 :=
  let key := terminatedCopy array (request.localBuffer.drop 1) (MAX_STRING_SIZE - 1)
  if opCode request.localBuffer = OP_CODE_SUBSCRIBE then
    if request.keyExists = true ∧ count < MAX_NUMBER_SUB then copyCell cells count key else cells
  else if opCode request.localBuffer = OP_CODE_UNSUBSCRIBE then
    match findCell cells key 0 count.toNat with
    | some i => shiftCells cells i (count - 1 - i).toNat
    | none => cells
  else cells

/-- The slot with its cells after some requests, each with its local array. -/
def afterCells (session : SessionData) (cells : Int → List UInt8) (requests : List (Request × List UInt8)) :
    SessionData × (Int → List UInt8) :=
  requests.foldl (fun slot request => ((serve request.1.keyExists request.1.localBuffer slot.1).session,
    serveCells request.1 request.2 slot.1.numSubscribedKeys slot.2)) (emptied session, cells)

theorem length_strncpy (sized : array.length = MAX_STRING_SIZE) :
    (strncpy array source MAX_STRING_SIZE).length = MAX_STRING_SIZE := by
  unfold strncpy
  rw [length_splice, sized]
  rw [length_filled, sized, Nat.zero_add]

theorem copyCell_sized (sized : ∀ i, (cells i).length = MAX_STRING_SIZE) (j i : Int) :
    (copyCell cells j source i).length = MAX_STRING_SIZE := by
  unfold copyCell
  by_cases same : i = j
  · subst same
    rw [Function.update_self]
    exact length_strncpy (sized i)
  · rw [Function.update_of_ne same]
    exact sized i

theorem shiftCells_sized (sized : ∀ i, (cells i).length = MAX_STRING_SIZE) (turns : Nat) (j i : Int) :
    (shiftCells cells j turns i).length = MAX_STRING_SIZE := by
  induction turns generalizing cells j with
  | zero => exact sized i
  | succ turns ih => exact ih (copyCell_sized sized j) (j + 1)

theorem holds_strncpy (sized : array.length = MAX_STRING_SIZE) (holds : Holds source key) :
    Holds (strncpy array source MAX_STRING_SIZE) key := by
  obtain ⟨full, starts⟩ := holds
  have fits : key.bytes.length < MAX_STRING_SIZE := by
    obtain ⟨rest, split⟩ := starts
    have size := congrArg List.length split
    rw [List.drop_zero, full, List.length_append, List.length_cons] at size
    omega
  exact ⟨length_strncpy sized, strncpy_starts array starts fits⟩

theorem findKey_range {i j : Int} {turns : Nat} (found : findKey session key i turns = some j) :
    i ≤ j ∧ j < i + turns := by
  induction turns generalizing i with
  | zero => cases found
  | succ turns ih =>
    rw [findKey] at found
    split_ifs at found
    · have here : i = j := Option.some.inj found
      omega
    · have later := ih found
      omega

theorem ofBytes_of_holds (holds : Holds cell key) : CString.ofBytes cell = key :=
  ofBytes_of_startsAt holds.2

theorem findCell_eq (held : HoldsKeys cells session) (holds : Holds source key) {i : Int} {turns : Nat}
    (low : 0 ≤ i) (inside : i + turns ≤ session.numSubscribedKeys) :
    findCell cells source i turns = findKey session key i turns := by
  induction turns generalizing i with
  | zero => rfl
  | succ turns ih =>
    rw [findCell, findKey, ofBytes_of_holds (held i low (by omega)), ofBytes_of_holds holds,
      ih (by omega) (by omega)]

/-- The local array `key` of both requests. -/
theorem holds_requestKey (sized : array.length = MAX_STRING_SIZE) (localBuffer : List UInt8) :
    Holds (terminatedCopy array (localBuffer.drop 1) (MAX_STRING_SIZE - 1)) (requestKey localBuffer) := by
  refine ⟨?_, terminatedCopy_starts array (localBuffer.drop 1) (MAX_STRING_SIZE - 1)⟩
  have copied : (strncpy array (localBuffer.drop 1) (MAX_STRING_SIZE - 1)).length = MAX_STRING_SIZE := by
    unfold strncpy
    rw [length_splice, sized]
    rw [length_filled, sized]
    decide
  rw [terminatedCopy, length_splice, copied]
  rw [copied]
  decide

/-- The store of SUBSCRIBE, from its local array. -/
theorem subscribe_holds (room : session.numSubscribedKeys < MAX_NUMBER_SUB)
    (sized : (cells session.numSubscribedKeys).length = MAX_STRING_SIZE) (holds : Holds source key)
    (held : HoldsKeys cells session) :
    HoldsKeys (copyCell cells session.numSubscribedKeys source) (serveSubscribe true key session).session := by
  intro i from_zero below
  simp only [serveSubscribe, ↓reduceIte, if_pos room, setKey_count] at below ⊢
  simp only [copyCell, SessionData.setKey]
  by_cases new : i = session.numSubscribedKeys
  · rw [new, Function.update_self, Function.update_self]
    exact holds_strncpy sized holds
  · rw [Function.update_of_ne new, Function.update_of_ne new]
    exact held i from_zero (by omega)

theorem shiftCells_holds {j : Int} {turns : Nat} (low : 0 ≤ j) (inside : j + turns < session.numSubscribedKeys)
    (held : HoldsKeys cells session) : HoldsKeys (shiftCells cells j turns) (shiftKeys session j turns) := by
  induction turns generalizing cells session j with
  | zero => exact held
  | succ turns ih =>
    have moved : HoldsKeys (copyCell cells j (cells (j + 1)))
        (session.setKey j (session.subscribedKeys (j + 1))) := by
      intro i from_zero below
      simp only [copyCell, SessionData.setKey]
      by_cases here : i = j
      · rw [here, Function.update_self, Function.update_self]
        exact holds_strncpy (held j low (by omega)).1 (held (j + 1) (by omega) (by omega))
      · rw [Function.update_of_ne here, Function.update_of_ne here]
        exact held i from_zero below
    apply ih
    · omega
    · rw [setKey_count]
      omega
    · exact moved

/-- The shift of UNSUBSCRIBE, from the cell that the search found. -/
theorem unsubscribe_holds {i : Int} (held : HoldsKeys cells session)
    (found : findKey session key 0 session.numSubscribedKeys.toNat = some i) :
    HoldsKeys (shiftCells cells i (session.numSubscribedKeys - 1 - i).toNat)
      (serveUnsubscribe key session).session := by
  obtain ⟨low, high⟩ := findKey_range found
  have inside : i + (session.numSubscribedKeys - 1 - i).toNat < session.numSubscribedKeys := by omega
  have shifted := shiftCells_holds low inside held
  intro j from_zero below
  simp only [serveUnsubscribe, found] at below ⊢
  exact shifted j from_zero (by omega)

/-- One request keeps the cells holding what the list says. -/
theorem serveCells_holds (request : Request) (sized : ∀ i, (cells i).length = MAX_STRING_SIZE)
    (arraySized : array.length = MAX_STRING_SIZE) (within : WithinArray session) (held : HoldsKeys cells session) :
    HoldsKeys (serveCells request array session.numSubscribedKeys cells)
      (serve request.keyExists request.localBuffer session).session := by
  have low := within.low
  have holds := holds_requestKey arraySized request.localBuffer
  unfold serveCells serve
  split_ifs with isSubscribe room isUnsubscribe isDisconnect
  · rw [room.1]
    exact subscribe_holds room.2 (sized _) holds held
  · have kept : (serveSubscribe request.keyExists (requestKey request.localBuffer) session).session = session := by
      unfold serveSubscribe
      split_ifs with exists' less
      · exact absurd ⟨exists', less⟩ room
      · rfl
      · rfl
    rw [kept]
    exact held
  · have all : 0 + (session.numSubscribedKeys.toNat : Int) ≤ session.numSubscribedKeys := by omega
    have search := findCell_eq held holds (Int.le_refl 0) all
    cases found : findKey session (requestKey request.localBuffer) 0 session.numSubscribedKeys.toNat with
    | some i =>
      simp only [search, found]
      exact unsubscribe_holds held found
    | none =>
      simp only [serveUnsubscribe, search, found]
      exact held
  · intro i from_zero below
    exact absurd below (Int.not_lt.mpr from_zero)
  · exact held

theorem serveCells_sized (request : Request) (count : Int) (sized : ∀ i, (cells i).length = MAX_STRING_SIZE) (i : Int) :
    (serveCells request array count cells i).length = MAX_STRING_SIZE := by
  unfold serveCells
  split_ifs
  · exact copyCell_sized sized count i
  · exact sized i
  · cases findCell cells _ 0 count.toNat with
    | some j => exact shiftCells_sized sized _ _ i
    | none => exact sized i
  · exact sized i

/-- After any requests `subscribed_keys` holds the list, whatever the arrays held before. -/
theorem afterCells_holds (session : SessionData) (sized : ∀ i, (cells i).length = MAX_STRING_SIZE)
    {requests : List (Request × List UInt8)} (arrays : ∀ request ∈ requests, request.2.length = MAX_STRING_SIZE) :
    (afterCells session cells requests).1 = afterRequests session (requests.map Prod.fst) ∧
      (∀ i, ((afterCells session cells requests).2 i).length = MAX_STRING_SIZE) ∧
      HoldsKeys (afterCells session cells requests).2 (afterCells session cells requests).1 := by
  induction requests using List.reverseRecOn with
  | nil => exact ⟨rfl, sized, fun i from_zero below => absurd below (Int.not_lt.mpr from_zero)⟩
  | append_singleton requests request ih =>
    obtain ⟨session', sized', held⟩ := ih fun other member => arrays other (List.mem_append_left _ member)
    have arraySized := arrays request (List.mem_append_right _ (List.mem_singleton_self request))
    have within : WithinArray (afterCells session cells requests).1 := session' ▸ afterRequests_within session _
    have last : afterCells session cells (requests ++ [request]) =
        ((serve request.1.keyExists request.1.localBuffer (afterCells session cells requests).1).session,
          serveCells request.1 request.2 (afterCells session cells requests).1.numSubscribedKeys
            (afterCells session cells requests).2) := by
      simp only [afterCells, List.foldl_append, List.foldl_cons, List.foldl_nil]
    rw [last]
    refine ⟨?_, serveCells_sized request.1 _ sized', serveCells_holds request.1 sized' arraySized within held⟩
    rw [List.map_append, List.map_cons, List.map_nil, afterRequests_concat, session']

end Cells

/-! UNSUBSCRIBE. -/

/-- What UNSUBSCRIBE does to the list and answers. -/
structure Exact (session : SessionData) (key : CString) (served : Served) : Prop where
  answer : served.result = 0 ↔ key ∈ subscriptions session
  removed : key ∈ subscriptions session →
    subscriptions served.session = (subscriptions session).erase key
  absent : key ∉ subscriptions session →
    served.result = 1 ∧ subscriptions served.session = subscriptions session

theorem serveUnsubscribe_exact (key : CString) (session : SessionData) :
    Exact session key (serveUnsubscribe key session) := by
  obtain ⟨erased, result⟩ := serveUnsubscribe_spec key session
  constructor
  · rw [result]
    split_ifs with member
    · exact iff_of_true rfl member
    · exact iff_of_false (by decide) member
  · intro _
    exact erased
  · intro absent
    rw [result, if_neg absent, erased, List.erase_of_not_mem absent]
    exact ⟨rfl, rfl⟩

/-- After any requests the count is within the array, and UNSUBSCRIBE of any key takes
its first entry out, or answers 1 and leaves the list. -/
theorem unsubscribe_exact (session : SessionData) (requests : List Request) :
    (0 ≤ (afterRequests session requests).numSubscribedKeys ∧
      (afterRequests session requests).numSubscribedKeys ≤ MAX_NUMBER_SUB) ∧
    ∀ (keyExists : Bool) (field : List UInt8), Exact (afterRequests session requests)
      (requestKey (OP_CODE_UNSUBSCRIBE :: field))
      (serve keyExists (OP_CODE_UNSUBSCRIBE :: field) (afterRequests session requests)) := by
  have within := afterRequests_within session requests
  refine ⟨⟨within.low, within.high⟩, fun keyExists field => ?_⟩
  have served : serve keyExists (OP_CODE_UNSUBSCRIBE :: field) (afterRequests session requests) =
      serveUnsubscribe (requestKey (OP_CODE_UNSUBSCRIBE :: field)) (afterRequests session requests) := rfl
  rw [served]
  exact serveUnsubscribe_exact ..

end IstKvs.UnsubscribeExact
