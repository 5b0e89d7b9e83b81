import IstKvs.NotifyClients
import IstKvs.SessionLoop

/-! The array `subscribed_keys` as a list. SUBSCRIBE appends to it, UNSUBSCRIBE removes
the first entry with its key, and `notify_clients` sends one notification for each
entry with its key. -/

namespace IstKvs.SubscriptionList
open NotifyClients SessionLoop

/-- `turns` entries of the array from `i` on. -/
def entries (session : SessionData) (i : Int) : Nat → List CString
  | 0 => []
  | turns + 1 => session.subscribedKeys i :: entries session (i + 1) turns

def subscriptions (session : SessionData) : List CString :=
  entries session 0 session.numSubscribedKeys.toNat

theorem entries_congr {session other : SessionData} {i : Int} {turns : Nat}
    (same : ∀ j, i ≤ j → j < i + turns → session.subscribedKeys j = other.subscribedKeys j) :
    entries session i turns = entries other i turns := by
  induction turns generalizing i with
  | zero => rfl
  | succ turns ih =>
    have here := same i (Int.le_refl i) (by omega)
    have later := ih (i := i + 1) fun j low high => same j (by omega) (by omega)
    simp only [entries, here, later]

theorem mem_entries {session : SessionData} {i : Int} {turns : Nat} {key : CString} :
    key ∈ entries session i turns ↔ ∃ j, i ≤ j ∧ j < i + turns ∧ session.subscribedKeys j = key := by
  induction turns generalizing i with
  | zero =>
    refine iff_of_false List.not_mem_nil ?_
    rintro ⟨j, low, high, _⟩
    omega
  | succ turns ih =>
    rw [entries, List.mem_cons, ih]
    constructor
    · rintro (here | ⟨j, low, high, same⟩)
      · exact ⟨i, Int.le_refl i, by omega, here.symm⟩
      · exact ⟨j, by omega, by omega, same⟩
    · rintro ⟨j, low, high, same⟩
      by_cases here : j = i
      · exact .inl (here ▸ same.symm)
      · exact .inr ⟨j, by omega, by omega, same⟩

/-- In a list without duplicates a key has one place. -/
theorem entries_place {session : SessionData} {i : Int} {turns : Nat} (distinct : (entries session i turns).Nodup)
    {first second : Int} (low : i ≤ first) (high : first < i + turns) (low' : i ≤ second) (high' : second < i + turns)
    (same : session.subscribedKeys first = session.subscribedKeys second) : first = second := by
  induction turns generalizing i with
  | zero => omega
  | succ turns ih =>
    rw [entries] at distinct
    obtain ⟨fresh, distinct⟩ := List.nodup_cons.mp distinct
    rw [mem_entries] at fresh
    by_cases here : first = i
    · by_cases here' : second = i
      · exact here.trans here'.symm
      · exact absurd ⟨second, by omega, by omega, by rw [← same, here]⟩ fresh
    · by_cases here' : second = i
      · exact absurd ⟨first, by omega, by omega, by rw [same, here']⟩ fresh
      · exact ih distinct (by omega) (by omega) (by omega) (by omega)

theorem entries_concat (session : SessionData) (i : Int) (turns : Nat) :
    entries session i (turns + 1) = entries session i turns ++ [session.subscribedKeys (i + turns)] := by
  induction turns generalizing i with
  | zero => simp [entries]
  | succ turns ih =>
    have next : i + 1 + (turns : Int) = i + (turns + 1 : Nat) := by omega
    rw [entries, ih (i + 1), next]
    rfl

theorem subscriptions_subscribe {session : SessionData} (low : 0 ≤ session.numSubscribedKeys)
    (key : CString) :
    subscriptions { session.setKey session.numSubscribedKeys key with
        numSubscribedKeys := session.numSubscribedKeys + 1 } = subscriptions session ++ [key] := by
  have count : (session.numSubscribedKeys + 1).toNat = session.numSubscribedKeys.toNat + 1 := by omega
  have last : (0 : Int) + session.numSubscribedKeys.toNat = session.numSubscribedKeys := by omega
  simp only [subscriptions, count, entries_concat, last]
  congr 1
  · apply entries_congr
    intro j _ high
    exact Function.update_of_ne (by omega) ..
  · simp [SessionData.setKey]

theorem shiftKeys_apply (session : SessionData) (i : Int) (turns : Nat) (j : Int) :
    (shiftKeys session i turns).subscribedKeys j =
      if i ≤ j ∧ j < i + turns then session.subscribedKeys (j + 1) else session.subscribedKeys j := by
  induction turns generalizing session i with
  | zero => rw [shiftKeys, if_neg (by omega)]
  | succ turns ih =>
    rw [shiftKeys, ih]
    simp only [SessionData.setKey]
    by_cases here : j = i
    · subst here
      rw [if_neg (by omega), if_pos (by omega), Function.update_self]
    · by_cases moved : i + 1 ≤ j ∧ j < i + 1 + turns
      · rw [if_pos moved, if_pos (by omega), Function.update_of_ne (by omega)]
      · rw [if_neg moved, if_neg (by omega), Function.update_of_ne here]

theorem shiftKeys_count (session : SessionData) (i : Int) (turns : Nat) :
    (shiftKeys session i turns).numSubscribedKeys = session.numSubscribedKeys := by
  induction turns generalizing session i with
  | zero => rfl
  | succ turns ih => rw [shiftKeys, ih, setKey_count]

theorem shiftKeys_keeps (session : SessionData) (i : Int) (turns : Nat) :
    (shiftKeys session i turns).active = session.active ∧
      (shiftKeys session i turns).notifFd = session.notifFd := by
  induction turns generalizing session i with
  | zero => exact ⟨rfl, rfl⟩
  | succ turns ih => exact ih _ (i + 1)

theorem findKey_none_iff {session : SessionData} {key : CString} {i : Int} {turns : Nat} :
    findKey session key i turns = none ↔ key ∉ entries session i turns := by
  induction turns generalizing i with
  | zero => simp [findKey, entries]
  | succ turns ih =>
    simp only [findKey, entries, List.mem_cons, not_or]
    by_cases here : session.subscribedKeys i = key
    · simp [here]
    · rw [if_neg here, ih]
      exact ⟨fun later => ⟨Ne.symm here, later⟩, And.right⟩

theorem entries_moved {session : SessionData} {i first : Int} {turns count : Nat} (low : i ≤ first)
    (high : first + count ≤ i + turns) :
    entries (shiftKeys session i turns) first count = entries session (first + 1) count := by
  induction count generalizing first with
  | zero => rfl
  | succ count ih => rw [entries, entries, ih (by omega) (by omega), shiftKeys_apply, if_pos (by omega)]

/-- The shift removes the entry that the search found, the first with the key. -/
theorem entries_shiftKeys {session : SessionData} {key : CString} {i j : Int} {turns : Nat}
    (found : findKey session key i (turns + 1) = some j) :
    i ≤ j ∧ entries (shiftKeys session j (i + turns - j).toNat) i turns =
      (entries session i (turns + 1)).erase key := by
  induction turns generalizing i with
  | zero =>
    by_cases here : session.subscribedKeys i = key
    · simp only [findKey, if_pos here, Option.some.injEq] at found
      exact ⟨Int.le_of_eq found, by simp [entries, here]⟩
    · simp only [findKey, if_neg here] at found
      cases found
  | succ turns ih =>
    by_cases here : session.subscribedKeys i = key
    · rw [findKey, if_pos here] at found
      have same : i = j := Option.some.inj found
      subst same
      refine ⟨Int.le_refl i, ?_⟩
      rw [entries_moved (Int.le_refl i) (by omega), entries.eq_2 session i, here, List.erase_cons_head]
    · rw [findKey, if_neg here] at found
      obtain ⟨low, rest⟩ := ih found
      have stretch : i + 1 + (turns : Int) = i + (turns + 1 : Nat) := by omega
      rw [stretch] at rest
      refine ⟨by omega, ?_⟩
      have kept : (shiftKeys session j (i + (turns + 1 : Nat) - j).toNat).subscribedKeys i =
          session.subscribedKeys i := by
        rw [shiftKeys_apply, if_neg (by omega)]
      rw [entries, rest, kept, entries.eq_2 session i, List.erase_cons_tail (by simpa using here)]

/-! The two requests. -/

section Requests
variable {session : SessionData} {key : CString}

theorem serveSubscribe_result (keyExists : Bool) (key : CString) (session : SessionData) :
    (serveSubscribe keyExists key session).result = if keyExists then 1 else 0 := by
  unfold serveSubscribe
  split
  · split <;> rfl
  · rfl

theorem serveSubscribe_stored (low : 0 ≤ session.numSubscribedKeys)
    (room : session.numSubscribedKeys < MAX_NUMBER_SUB) :
    subscriptions (serveSubscribe true key session).session = subscriptions session ++ [key] := by
  simp only [serveSubscribe, ↓reduceIte, if_pos room]
  exact subscriptions_subscribe low key

/-- UNSUBSCRIBE removes the first entry with the key, and answers 0 when there is one. -/
theorem serveUnsubscribe_spec (key : CString) (session : SessionData) :
    subscriptions (serveUnsubscribe key session).session = (subscriptions session).erase key ∧
      (serveUnsubscribe key session).result = if key ∈ subscriptions session then 0 else 1 := by
  unfold serveUnsubscribe
  cases search : findKey session key 0 session.numSubscribedKeys.toNat with
  | none =>
    have absent := findKey_none_iff.mp search
    exact ⟨(List.erase_of_not_mem absent).symm, (if_neg absent).symm⟩
  | some j =>
    have present : key ∈ subscriptions session := by
      by_contra absent
      rw [findKey_none_iff.mpr absent] at search
      cases search
    cases count : session.numSubscribedKeys.toNat with
    | zero =>
      rw [count] at search
      cases search
    | succ turns =>
      rw [count] at search
      obtain ⟨_, shifted⟩ := entries_shiftKeys search
      have stretch : session.numSubscribedKeys - 1 - j = 0 + turns - j := by omega
      have left : (session.numSubscribedKeys - 1).toNat = turns := by omega
      refine ⟨?_, (if_pos present).symm⟩
      rw [subscriptions, subscriptions, count, ← shifted]
      simp only [stretch, shiftKeys_count, left]
      exact entries_congr fun _ _ _ => rfl

theorem serveUnsubscribe_low (low : 0 ≤ session.numSubscribedKeys) :
    0 ≤ (serveUnsubscribe key session).session.numSubscribedKeys := by
  unfold serveUnsubscribe
  split
  next j found =>
    have positive : session.numSubscribedKeys.toNat ≠ 0 := by
      intro zero
      rw [zero] at found
      cases found
    simp only [shiftKeys_count]
    omega
  next => exact low

theorem serveSubscribe_low (keyExists : Bool) (key : CString) (low : 0 ≤ session.numSubscribedKeys) :
    0 ≤ (serveSubscribe keyExists key session).session.numSubscribedKeys := by
  unfold serveSubscribe
  split_ifs
  · exact Int.add_nonneg low Int.one_nonneg
  · exact low
  · exact low

/-- A request that does not disconnect leaves the session active with the same pipe. -/
theorem serve_running {localBuffer : List UInt8} (stays : opCode localBuffer ≠ OP_CODE_DISCONNECT)
    (keyExists : Bool) (session : SessionData) :
    (serve keyExists localBuffer session).session.active = session.active ∧
      (serve keyExists localBuffer session).session.notifFd = session.notifFd := by
  unfold serve
  split_ifs
  · unfold serveSubscribe
    split_ifs <;> exact ⟨rfl, rfl⟩
  · unfold serveUnsubscribe
    split
    · exact shiftKeys_keeps ..
    · exact ⟨rfl, rfl⟩
  · exact ⟨rfl, rfl⟩

/-- The loop serves a request that arrives whole and goes on. -/
theorem sessionLoop_request {localBuffer data : List UInt8} (active : session.active = true)
    (whole : data.length = localBuffer.length) (stays : opCode data ≠ OP_CODE_DISCONNECT) (keyExists : Bool)
    (turns : List Turn) :
    (sessionLoop (⟨some data, keyExists, .ok⟩ :: turns) (.reading session localBuffer)).1 =
      (sessionLoop turns (.reading (serve keyExists data session).session data)).1 := by
  have stored : readInto localBuffer data = data := by
    rw [readInto, whole, List.drop_length, List.append_nil]
  have running := (serve_running stays keyExists session).1.trans active
  simp only [sessionLoop, takeTurn, stored, testActive, if_pos running]

end Requests

/-! Notifications. -/

section Notify
variable {slots : Nat} {session : SessionData} {slot : Fin slots} {key value : CString}

theorem notifyEntries_length {fd : Nat} (opened : session.notifFd = some fd) (i : Int) (turns : Nat) :
    (notifyEntries session slot key value i turns).length = (entries session i turns).count key := by
  induction turns generalizing i with
  | zero => rfl
  | succ turns ih =>
    rw [notifyEntries, entries, List.length_append, ih, opened, List.count_cons]
    by_cases here : session.subscribedKeys i = key
    · simp [here, Nat.add_comm]
    · simp [here]

theorem notifySlot_slot {sessions : Fin slots → SessionData} {sent : Notification slots}
    (member : sent ∈ notifySlot sessions key value slot) : sent.slot = slot := by
  unfold notifySlot at member
  split at member
  · obtain ⟨_, fd, _, made⟩ := mem_notifyEntries.mp member
    rw [made]
  · cases member

/-- How many notifications one call of `notify_clients` sends to the slot. -/
def sentTo (slot : Fin slots) (sent : List (Notification slots)) : Nat :=
  sent.countP fun notification => notification.slot = slot

theorem sentTo_notifyClients (sessions : Fin slots → SessionData) :
    sentTo slot (notifyClients sessions key value) = (notifySlot sessions key value slot).length := by
  have each (other : Fin slots) : sentTo slot (notifySlot sessions key value other) =
      if other = slot then (notifySlot sessions key value slot).length else 0 := by
    unfold sentTo
    split
    next same =>
      subst same
      exact List.countP_eq_length.mpr fun sent member => by simpa using notifySlot_slot member
    next different =>
      exact List.countP_eq_zero.mpr fun sent member => by simpa [notifySlot_slot member] using different
  have split (order : List (Fin slots)) (once : order.Nodup) :
      sentTo slot (order.flatMap (notifySlot sessions key value)) =
        if slot ∈ order then (notifySlot sessions key value slot).length else 0 := by
    induction order with
    | nil => rfl
    | cons other order ih =>
      obtain ⟨absent, once⟩ := List.nodup_cons.mp once
      have rest := ih once
      rw [List.flatMap_cons, sentTo, List.countP_append, ← sentTo, ← sentTo, each, rest]
      by_cases same : other = slot
      · subst same
        simp [absent]
      · simp [same, Ne.symm same]
  rw [notifyClients, split _ (List.nodup_finRange slots), if_pos (List.mem_finRange slot)]

/-- An active session with an open pipe gets one notification for each entry. -/
theorem sentTo_session {sessions : Fin slots → SessionData} {fd : Nat} (active : (sessions slot).active = true)
    (opened : (sessions slot).notifFd = some fd) :
    sentTo slot (notifyClients sessions key value) = (subscriptions (sessions slot)).count key := by
  rw [sentTo_notifyClients, notifySlot, if_pos active, notifyEntries_length opened]
  rfl

end Notify

end IstKvs.SubscriptionList
