import IstKvs.ServerFrames
import Mathlib.Data.List.FinRange

/-! One whole call of `notify_clients`: which clients it writes to, in which order.
A job thread that runs alone through the fine steps sends exactly these. -/

namespace IstKvs.NotifyClients
open LabelledRuns Server

variable {slots : Nat}

/-- A write to a client: the slot, its descriptor, and the two fields of the message. -/
structure Notification (slots : Nat) where
  slot : Fin slots
  fd : Nat
  key : CString
  value : CString
  deriving DecidableEq

/-- `snprintf` into a field of `MAX_STRING_SIZE + 1` bytes. -/
def messageField (s : CString) : CString := CString.snprintf (MAX_STRING_SIZE + 1) s

/-- `for (j = 0; j < num_subscribed_keys; j++)`, with the number of turns left. -/
def notifyEntries (session : SessionData) (slot : Fin slots) (key value : CString) (j : Int) :
    Nat → List (Notification slots)
  | 0 => []
  | turns + 1 =>
      (if session.subscribedKeys j = key then
        match session.notifFd with
        | some fd => [⟨slot, fd, messageField key, messageField value⟩]
        | none => []
      else []) ++ notifyEntries session slot key value (j + 1) turns

def notifySlot (sessions : Fin slots → SessionData) (key value : CString) (slot : Fin slots) :
    List (Notification slots) :=
  if (sessions slot).active then
    notifyEntries (sessions slot) slot key value 0 (sessions slot).numSubscribedKeys.toNat
  else []

def notifyClients (sessions : Fin slots → SessionData) (key value : CString) :
    List (Notification slots) :=
  (List.finRange slots).flatMap (notifySlot sessions key value)

theorem mem_notifyEntries {session : SessionData} {slot : Fin slots} {key value : CString} {j : Int}
    {turns : Nat} {sent : Notification slots} :
    sent ∈ notifyEntries session slot key value j turns ↔
      (∃ i : Int, j ≤ i ∧ i < j + turns ∧ session.subscribedKeys i = key) ∧
        ∃ fd, session.notifFd = some fd ∧ sent = ⟨slot, fd, messageField key, messageField value⟩ := by
  induction turns generalizing j with
  | zero =>
    simp only [notifyEntries, List.not_mem_nil, false_iff]
    rintro ⟨⟨i, low, high, _⟩, _⟩
    omega
  | succ turns ih =>
    simp only [notifyEntries, List.mem_append, ih]
    constructor
    · rintro (here | ⟨⟨i, low, high, same⟩, written⟩)
      · split at here
        next same =>
          split at here
          next fd opened =>
            exact ⟨⟨j, Int.le_refl j, by omega, same⟩, fd, opened, List.mem_singleton.mp here⟩
          next => cases here
        next => cases here
      · exact ⟨⟨i, by omega, by omega, same⟩, written⟩
    · rintro ⟨⟨i, low, high, same⟩, fd, opened, made⟩
      by_cases here : i = j
      · subst here
        simp [same, opened, made]
      · exact .inr ⟨⟨i, by omega, by omega, same⟩, fd, opened, made⟩

/-- A notification goes to every active slot whose list holds the key. -/
theorem mem_notifyClients {sessions : Fin slots → SessionData} {key value : CString}
    {sent : Notification slots} :
    sent ∈ notifyClients sessions key value ↔
      (sessions sent.slot).active = true ∧ (sessions sent.slot).Subscribed key ∧
        (sessions sent.slot).notifFd = some sent.fd ∧
        sent.key = messageField key ∧ sent.value = messageField value := by
  unfold notifyClients
  rw [List.mem_flatMap]
  constructor
  · rintro ⟨slot, _, member⟩
    unfold notifySlot at member
    split at member
    next active =>
      obtain ⟨⟨j, low, high, same⟩, fd, opened, made⟩ := mem_notifyEntries.mp member
      subst made
      have high' : j < (sessions slot).numSubscribedKeys := by omega
      exact ⟨active, ⟨j, low, high', same⟩, opened, rfl, rfl⟩
    next => cases member
  · rintro ⟨active, ⟨j, low, high, same⟩, opened, sameKey, sameValue⟩
    refine ⟨sent.slot, List.mem_finRange _, ?_⟩
    rw [notifySlot, if_pos active]
    refine mem_notifyEntries.mpr ⟨⟨j, low, by omega, same⟩, sent.fd, opened, ?_⟩
    rw [← sameKey, ← sameValue]

/-! The job thread that runs alone. -/

def jobAlone (slots : Nat) : Machine (Shared slots × JobPc slots) Answer (Event slots) where
  step := fun state answer => jobStep answer state.1 state.2
  observe := fun state _ => jobEvents state.1 state.2

/-- The events that the fine steps show for the writes. -/
def sentEvents (key value : CString) (sent : List (Notification slots)) : List (Event slots) :=
  sent.map fun notification => .notified notification.slot key value

theorem jobAlone_first {shared : Shared slots} {pc : JobPc slots} {next last : Shared slots × JobPc slots}
    {later : List (Event slots)} (ran : jobStep {} shared pc = some next)
    (rest : Run (jobAlone slots) Always next later last) :
    Run (jobAlone slots) Always (shared, pc) (jobEvents shared pc ++ later) last := by
  have moved : (jobAlone slots).step (shared, pc) {} = some next := ran
  have first : Run (jobAlone slots) Always (shared, pc) ([] ++ jobEvents shared pc) next :=
    Run.tail .refl trivial moved
  exact first.append rest

section Alone
variable {shared : Shared slots} {key value : CString} (alive : shared.terminated = false)
  (survives : ∀ slot, shared.write (shared.sessions slot).notifFd {} ≠ .killed)
include alive survives

theorem notifyEntries_run (slot : Fin slots) (turns : Nat) (j : Int)
    (left : turns = ((shared.sessions slot).numSubscribedKeys - j).toNat) :
    Run (jobAlone slots) Always (shared, .testBound key value slot j)
      (sentEvents key value (notifyEntries (shared.sessions slot) slot key value j turns))
      (shared, .testActive key value (slot + 1)) := by
  induction turns generalizing j with
  | zero =>
    refine jobAlone_first ?_ .refl
    simp only [jobStep]
    rw [if_neg (by omega)]
  | succ turns ih =>
    have bound : j < (shared.sessions slot).numSubscribedKeys := by omega
    have rest := ih (j + 1) (by omega)
    have tested : jobStep {} shared (.testBound key value slot j) =
        some (shared, .compare key value slot j) := by
      simp only [jobStep, if_pos bound]
    refine jobAlone_first tested ?_
    by_cases same : (shared.sessions slot).subscribedKeys j = key
    · have compared : jobStep {} shared (.compare key value slot j) =
          some (shared, .send key value slot j) := by
        simp only [jobStep, if_pos same]
      refine jobAlone_first compared ?_
      have unchanged : shared.afterWrite (shared.sessions slot).notifFd {} = shared := by
        unfold Shared.afterWrite
        rw [decide_eq_false (survives slot), ← alive]
      have written : jobStep {} shared (.send key value slot j) =
          some (shared, .testBound key value slot (j + 1)) := by
        simp only [jobStep, unchanged, ite_self]
      have sent := jobAlone_first written rest
      cases opened : (shared.sessions slot).notifFd with
      | none => simpa [notifyEntries, same, opened, jobEvents, sentEvents] using sent
      | some fd => simpa [notifyEntries, same, opened, jobEvents, sentEvents] using sent
    · have compared : jobStep {} shared (.compare key value slot j) =
          some (shared, .testBound key value slot (j + 1)) := by
        simp only [jobStep, if_neg same]
      have passed := jobAlone_first compared rest
      simpa [notifyEntries, same, jobEvents, sentEvents] using passed

theorem notifySlots_run (left i : Nat) (together : i + left = slots) :
    Run (jobAlone slots) Always (shared, .testActive key value i)
      (sentEvents key value (((List.finRange slots).drop i).flatMap (notifySlot shared.sessions key value)))
      (shared, .idle) := by
  induction left generalizing i with
  | zero =>
    have past : (List.finRange slots).drop i = [] := List.drop_of_length_le (by simp; omega)
    rw [past]
    refine jobAlone_first ?_ .refl
    simp only [jobStep]
    rw [dif_neg (by omega)]
  | succ left ih =>
    have bound : i < slots := by omega
    have rest := ih (i + 1) (by omega)
    rw [List.drop_eq_getElem_cons (by simpa using bound), List.getElem_finRange, List.flatMap_cons]
    by_cases active : (shared.sessions ⟨i, bound⟩).active = true
    · have entered : jobStep {} shared (.testActive key value i) =
          some (shared, .testBound key value ⟨i, bound⟩ 0) := by
        simp only [jobStep, dif_pos bound, active, ↓reduceIte]
      have through := jobAlone_first entered
        ((notifyEntries_run alive survives ⟨i, bound⟩ _ 0 rfl).append rest)
      simpa [notifySlot, active, sentEvents, jobEvents] using through
    · have passed : jobStep {} shared (.testActive key value i) =
          some (shared, .testActive key value (i + 1)) := by
        simp only [jobStep, dif_pos bound, active, Bool.false_eq_true, ↓reduceIte]
      have through := jobAlone_first passed rest
      simpa [notifySlot, active, sentEvents, jobEvents] using through

/-- A job thread that no other thread interrupts writes what `notifyClients` lists. -/
theorem notifyClients_run :
    Run (jobAlone slots) Always (shared, .testActive key value 0)
      (sentEvents key value (notifyClients shared.sessions key value)) (shared, .idle) :=
  notifySlots_run alive survives slots 0 (Nat.zero_add slots)

end Alone

end IstKvs.NotifyClients
