import IstKvs.AdmittedKeys
import IstKvs.JobNotifications
import IstKvs.SubscriptionList

/-! The notifications after a DELETE. `kvs_delete` reports a missing key in the output
file only and returns 0, so `run_job` notifies for every key of the list. -/

namespace IstKvs.DeletionNotices
open Kvs Operations FiniteMap NotifyClients SubscriptionList AdmittedKeys RunJob
open JobNotifications (Field Listening messageField_text)

variable {slots : Nat}

/-- What the calls of `notify_clients` write that a command leaves to be made. -/
def deliver (sessions : Fin slots → SessionData) (notified : List (CString × CString)) :
    List (Notification slots) :=
  notified.flatMap fun pair => notifyClients sessions pair.1 pair.2

/-- How many of the notifications tell the slot that the key is deleted. -/
def deletionNotices (slot : Fin slots) (key : CString) (sent : List (Notification slots)) : Nat :=
  sent.countP fun notice => notice.slot = slot ∧ notice.key = key ∧ notice.value = DELETED

/-- The loop of `kvs_delete`, with the number of times `delete_pair` unlinks the key. -/
def removals (key : CString) : HashTable → List CString → Option Nat
  | _, [] => some 0
  | ht, own :: keys => do
      let (next, status) ← deletePair ht own
      let later ← removals key next keys
      some ((if own = key ∧ status = 0 then 1 else 0) + later)

section Removals
variable {key : CString}

/-- Only the first of several deletions of a key finds it. -/
theorem removals_raw (table : KeyTable) (keys : List CString) (valid : ∀ own ∈ keys, Hashed own) :
    removals key (KeyTable.raw table) keys =
      some (if key ∈ keys ∧ (table.contents key).isSome then 1 else 0) := by
  induction keys generalizing table with
  | nil => simp [removals]
  | cons own keys ih =>
    obtain ⟨here, later⟩ := List.forall_mem_cons.mp valid
    obtain ⟨next, deleted, contents⟩ := deletePair_raw table here
    simp only [removals, deleted, ih next later, contents, Option.bind_eq_bind, Option.bind_some]
    by_cases same : key = own
    · subst same
      cases found : table.contents key <;> simp
    · have other : own ≠ key := Ne.symm same
      simp [same, other]

end Removals

section Notices
variable {slot : Fin slots} {key : CString} {sessions : Fin slots → SessionData}

theorem deletionNotices_own {own : Field} (same : own.text = key) (active : (sessions slot).active = true)
    {fd : Nat} (opened : (sessions slot).notifFd = some fd) :
    deletionNotices slot key (notifyClients sessions own.text DELETED) =
      (subscriptions (sessions slot)).count key := by
  subst same
  have each : ∀ notice ∈ notifyClients sessions own.text DELETED,
      decide (notice.slot = slot ∧ notice.key = own.text ∧ notice.value = DELETED) = true ↔
        decide (notice.slot = slot) = true := by
    intro notice member
    obtain ⟨_, _, _, sameKey, sameValue⟩ := mem_notifyClients.mp member
    have value : messageField DELETED = DELETED := by decide
    simp [sameKey, sameValue, messageField_text, value]
  calc deletionNotices slot own.text (notifyClients sessions own.text DELETED)
      = sentTo slot (notifyClients sessions own.text DELETED) := List.countP_congr each
    _ = _ := sentTo_session active opened

theorem deletionNotices_other {own : Field} (other : own.text ≠ key) :
    deletionNotices slot key (notifyClients sessions own.text DELETED) = 0 := by
  apply List.countP_eq_zero.mpr
  intro notice member
  obtain ⟨_, _, _, sameKey, _⟩ := mem_notifyClients.mp member
  simp [sameKey, messageField_text, other]

/-- A session that holds the key once gets a notice for each mention of it in the list. -/
theorem deletionNotices_deliver (listening : Listening (sessions slot) key)
    (once : (subscriptions (sessions slot)).count key = 1) (keys : List Field) :
    deletionNotices slot key (deliver sessions (keys.map fun own => (own.text, DELETED))) =
      (keys.map Field.text).count key := by
  obtain ⟨active, _, opened⟩ := listening
  obtain ⟨fd, opened⟩ := Option.isSome_iff_exists.mp opened
  induction keys with
  | nil => rfl
  | cons own keys ih =>
    have split : deletionNotices slot key (deliver sessions ((own :: keys).map fun own => (own.text, DELETED))) =
        deletionNotices slot key (notifyClients sessions own.text DELETED) +
          deletionNotices slot key (deliver sessions (keys.map fun own => (own.text, DELETED))) :=
      List.countP_append
    rw [split, ih, List.map_cons, List.count_cons]
    by_cases same : own.text = key
    · rw [deletionNotices_own same active opened, once, if_pos (by simpa using same), Nat.add_comm]
    · rw [deletionNotices_other same, if_neg (by simpa using same), Nat.zero_add, Nat.add_zero]

theorem perform_delete {table : KeyTable} {next : KvsTable} {effects : Effects} {keys : List CString}
    (ran : perform true (some (KeyTable.raw table)) (.delete keys) = some (next, effects)) :
    (∀ key ∈ keys, Hashed key) ∧ effects.notified = keys.map fun key => (key, DELETED) := by
  simp only [perform, kvsDelete, Option.map_map, Option.map_eq_some_iff] at ran
  obtain ⟨⟨last, aux, lines⟩, deleted, made⟩ := ran
  cases made
  exact ⟨JobNotifications.deletePairs_hashed deleted, rfl⟩

theorem perform_of_hashed (table : KeyTable) {keys : List CString} (hashed : ∀ key ∈ keys, Hashed key) :
    ∃ next effects, perform true (some (KeyTable.raw table)) (.delete keys) = some (next, effects) := by
  obtain ⟨next, deleted, _⟩ := deletePairs_raw table false keys hashed
  have ran : (perform true (some (KeyTable.raw table)) (.delete keys)).isSome = true := by
    rw [perform, kvsDelete, deleted]
    rfl
  obtain ⟨⟨last, effects⟩, ran⟩ := Option.isSome_iff_exists.mp ran
  exact ⟨last, effects, ran⟩

/-- The session is sent as many notices of the key as the command removes bindings of it. -/
def NoticesMatch (table : KeyTable) (keys : List Field) (sessions : Fin slots → SessionData)
    (slot : Fin slots) (key : CString) : Prop :=
  ∃ next effects,
    perform true (some (KeyTable.raw table)) (.delete (keys.map Field.text)) = some (next, effects) ∧
      removals key (KeyTable.raw table) (keys.map Field.text) =
        some (deletionNotices slot key (deliver sessions effects.notified))

/-- The notices match exactly when the keys have a bucket and the command does not name the
key, or names it once and the store has it. -/
theorem notices_match_iff (table : KeyTable) (keys : List Field) (listening : Listening (sessions slot) key)
    (once : (subscriptions (sessions slot)).count key = 1) :
    NoticesMatch table keys sessions slot key ↔ (∀ own ∈ keys.map Field.text, Alphanumeric own) ∧
      (key ∉ keys.map Field.text ∨
        (keys.map Field.text).count key = 1 ∧ (table.contents key).isSome = true) := by
  have count (hashed : ∀ own ∈ keys.map Field.text, Hashed own) :
      removals key (KeyTable.raw table) (keys.map Field.text) = some ((keys.map Field.text).count key) ↔
        key ∉ keys.map Field.text ∨ (keys.map Field.text).count key = 1 ∧ (table.contents key).isSome = true := by
    rw [removals_raw table _ hashed, Option.some.injEq]
    by_cases named : key ∈ keys.map Field.text
    · have positive := List.count_pos_iff.mpr named
      cases found : table.contents key with
      | some value => simp [named, eq_comm]
      | none => simp [named]; omega
    · have absent := List.count_eq_zero.mpr named
      simp [named, absent]
  have sent {next : KvsTable} {effects : Effects}
      (ran : perform true (some (KeyTable.raw table)) (.delete (keys.map Field.text)) = some (next, effects)) :
      deletionNotices slot key (deliver sessions effects.notified) = (keys.map Field.text).count key := by
    rw [(perform_delete ran).2, List.map_map]
    exact deletionNotices_deliver listening once keys
  simp only [← hashed_iff]
  constructor
  · rintro ⟨next, effects, ran, matched⟩
    have hashed := (perform_delete ran).1
    rw [sent ran] at matched
    exact ⟨hashed, (count hashed).mp matched⟩
  · rintro ⟨hashed, condition⟩
    obtain ⟨next, effects, ran⟩ := perform_of_hashed table hashed
    refine ⟨next, effects, ran, ?_⟩
    rw [sent ran]
    exact (count hashed).mpr condition

end Notices

/-! A key that the store lacks. -/

open JobNotifications (subscriber sharedKey emptyTable)

theorem notices_match_of_absent_key :
    NoticesMatch emptyTable [sharedKey] (fun _ : Fin 1 => subscriber) 0 sharedKey.text ↔
      (∀ own ∈ [sharedKey].map Field.text, Alphanumeric own) ∧ (sharedKey.text ∉ [sharedKey].map Field.text ∨
        ([sharedKey].map Field.text).count sharedKey.text = 1 ∧
          (emptyTable.contents sharedKey.text).isSome = true) :=
  notices_match_iff emptyTable [sharedKey] (by decide) (by decide)

/-- The session is told of a deletion, and nothing was deleted. -/
theorem notice_without_removal : ∃ next effects,
    perform true (some (KeyTable.raw emptyTable)) (.delete [sharedKey.text]) = some (next, effects) ∧
      Listening subscriber sharedKey.text ∧ (subscriptions subscriber).count sharedKey.text = 1 ∧
      deletionNotices (0 : Fin 1) sharedKey.text (deliver (fun _ => subscriber) effects.notified) = 1 ∧
      removals sharedKey.text (KeyTable.raw emptyTable) [sharedKey.text] = some 0 :=
  ⟨_, _, rfl, by decide, by decide, by decide, by decide⟩

end IstKvs.DeletionNotices
