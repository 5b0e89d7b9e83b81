import IstKvs.ServerFrames
import IstKvs.SubscriptionList

/-! UNSUBSCRIBE while `notify_clients` scans the entries of the same session. The branch
moves the later entries down one by one and then lowers the count; the scan may meet the
entry of another key at its old place, at its new one, at both or at neither. -/

namespace IstKvs.ShiftUnderScan
open LabelledRuns SubscriptionList
open Server (Shared JobPc ManagerPc Answer jobStep managerStep sessionStep)

variable {slots : Nat}

/-- The job thread that scans, and the manager that serves the session. -/
structure Threads (slots : Nat) where
  shared : Shared slots
  job : JobPc slots
  manager : ManagerPc slots

inductive Turn where
  | scan (answer : Answer)
  | unsubscribe (answer : Answer)

/-- The atomic steps: of the scan, a test of the loop bound, the comparison of an entry and
a notification; of the branch, the copy into an entry and the decrement of the count. -/
inductive Event where
  | tested (j : Int)
  | compared (j : Int)
  | sent
  | copied (j : Int)
  | decremented
  deriving DecidableEq

def step (threads : Threads slots) (turn : Turn) : Option (Threads slots) :=
  if threads.shared.terminated then none
  else match turn with
  | .scan answer => (jobStep answer threads.shared threads.job).map fun result =>
      { threads with shared := result.1, job := result.2 }
  | .unsubscribe answer => (managerStep answer threads.shared threads.manager).map fun result =>
      { threads with shared := result.1, manager := result.2 }

def scanEvents (shared : Shared slots) : JobPc slots → List Event
  | .testBound _ _ _ j => [.tested j]
  | .compare _ _ _ j => [.compared j]
  | .send _ _ i _ => if (shared.sessions i).notifFd.isSome then [.sent] else []
  | _ => []

def branchEvents (shared : Shared slots) : ManagerPc slots → List Event
  | .session _ slot (.unsubscribeShift _ j) =>
      if j < (shared.sessions slot).numSubscribedKeys - 1 then [.copied j] else []
  | .session _ _ (.unsubscribeCount _) => [.decremented]
  | _ => []

def observe (threads : Threads slots) : Turn → List Event
  | .scan _ => scanEvents threads.shared threads.job
  | .unsubscribe _ => branchEvents threads.shared threads.manager

def machine (slots : Nat) : Machine (Threads slots) Turn Event where
  step := step
  observe := observe

def inScan (slot : Fin slots) : JobPc slots → Bool
  | .testActive _ _ i => i = slot
  | .idle => false
  | _ => true

def inBranch : ManagerPc slots → Bool
  | .session _ _ (.unsubscribeFind _ _) | .session _ _ (.unsubscribeShift _ _)
  | .session _ _ (.unsubscribeCount _) => true
  | _ => false

/-- A turn of the scan of the slot, or of the branch. -/
def Within (slot : Fin slots) (threads : Threads slots) : Turn → Prop
  | .scan _ => inScan slot threads.job = true
  | .unsubscribe _ => inBranch threads.manager = true

instance (slot : Fin slots) (threads : Threads slots) : (turn : Turn) → Decidable (Within slot threads turn)
  | .scan _ => inferInstanceAs (Decidable (_ = true))
  | .unsubscribe _ => inferInstanceAs (Decidable (_ = true))

/-- Both threads are about to work on an active session whose list has no duplicates. -/
structure Start (slot : Fin slots) (key other : CString) (threads : Threads slots) : Prop where
  active : (threads.shared.sessions slot).active = true
  opened : (threads.shared.sessions slot).notifFd.isSome = true
  distinct : (subscriptions (threads.shared.sessions slot)).Nodup
  listed : key ∈ subscriptions (threads.shared.sessions slot)
  different : other ≠ key
  scan : ∃ value, threads.job = .testActive key value slot
  branch : ∃ request localBuffer, requestKey localBuffer = other ∧
    threads.manager = .session request slot (.unsubscribeFind localBuffer 0)

/-- The scan has left the session. -/
def ScanEnded (slot : Fin slots) (threads : Threads slots) : Prop :=
  ∃ key value, threads.job = .testActive key value (slot + 1)

/-- The step of the scan that finds the entry `q` in its place, if it is the last one by
the test of the bound. -/
def visit (count q : Int) : Event := if q + 1 < count then .compared q else .tested q

/-- The step of the branch that takes the entry `q` away. -/
def leave (count q : Int) : Event := if q + 1 < count then .copied q else .decremented

/-- The scan passes both places of a moved entry on the same side of the move: it compares
the new place before the entry comes there exactly when it visits the old one before the
entry is gone. -/
def Undisturbed (session : SessionData) (key other : CString) (trace : List Event) : Prop :=
  ∀ p q : Int, 0 ≤ p → p < q → q < session.numSubscribedKeys →
    session.subscribedKeys p = other → session.subscribedKeys q = key →
    (Before (.compared (q - 1)) (.copied (q - 1)) trace ↔
      Before (visit session.numSubscribedKeys q) (leave session.numSubscribedKeys q) trace)

/-! The entries and the count, as the trace has them. -/

section Memory
variable (session : SessionData) (trace : List Event)

structure Memory (now : SessionData) : Prop where
  keys : ∀ j, now.subscribedKeys j =
    if .copied j ∈ trace then session.subscribedKeys (j + 1) else session.subscribedKeys j
  count : now.numSubscribedKeys =
    if .decremented ∈ trace then session.numSubscribedKeys - 1 else session.numSubscribedKeys
  active : now.active = session.active
  notifFd : now.notifFd = session.notifFd

structure Untouched : Prop where
  copied : ∀ j, .copied j ∉ trace
  decremented : .decremented ∉ trace

/-- The entries `p .. w - 1` have been copied into. -/
structure Shifted (other : CString) (p w : Int) : Prop where
  low : 0 ≤ p
  inside : p < session.numSubscribedKeys
  removed : session.subscribedKeys p = other
  started : p ≤ w
  bound : w ≤ session.numSubscribedKeys - 1
  copied : ∀ j, .copied j ∈ trace ↔ p ≤ j ∧ j < w

/-- Where the branch is, with what it has done. -/
inductive Branch (other : CString) (slot : Fin slots) : ManagerPc slots → Prop where
  | find {request : ConnectionRequest} {localBuffer : List UInt8} {i : Int}
      (named : requestKey localBuffer = other) (low : 0 ≤ i) (untouched : Untouched trace) :
      Branch other slot (.session request slot (.unsubscribeFind localBuffer i))
  | shift {request : ConnectionRequest} {localBuffer : List UInt8} {p j : Int}
      (shifted : Shifted session trace other p j) (counted : .decremented ∉ trace) :
      Branch other slot (.session request slot (.unsubscribeShift localBuffer j))
  | count {request : ConnectionRequest} {localBuffer : List UInt8} {p : Int}
      (shifted : Shifted session trace other p (session.numSubscribedKeys - 1)) (counted : .decremented ∉ trace) :
      Branch other slot (.session request slot (.unsubscribeCount localBuffer))
  | absent {request : ConnectionRequest} {localBuffer : List UInt8} {result : UInt8}
      (untouched : Untouched trace) : Branch other slot (.session request slot (.respond localBuffer result))
  | removed {request : ConnectionRequest} {localBuffer : List UInt8} {result : UInt8} {p : Int}
      (shifted : Shifted session trace other p (session.numSubscribedKeys - 1)) :
      Branch other slot (.session request slot (.respond localBuffer result))

end Memory

section Entries
variable {session now : SessionData} {trace : List Event} {other key : CString} {slot : Fin slots} {q : Int}

/-- What the branch has done, wherever it is. -/
inductive Written (session : SessionData) (trace : List Event) (other : CString) : Prop where
  | untouched (untouched : Untouched trace)
  | shifted {p w : Int} (shifted : Shifted session trace other p w)
      (ended : .decremented ∈ trace → w = session.numSubscribedKeys - 1)

theorem Branch.written {pc : ManagerPc slots} (branch : Branch session trace other slot pc) :
    Written session trace other := by
  cases branch with
  | find _ _ untouched => exact .untouched untouched
  | shift shifted counted => exact .shifted shifted fun ended => absurd ended counted
  | count shifted => exact .shifted shifted fun _ => rfl
  | absent untouched => exact .untouched untouched
  | removed shifted => exact .shifted shifted fun _ => rfl

theorem Written.copied_inside (written : Written session trace other) {j : Int} (copied : .copied j ∈ trace) :
    0 ≤ j ∧ j + 1 < session.numSubscribedKeys := by
  cases written with
  | untouched untouched => exact absurd copied (untouched.copied j)
  | shifted shifted =>
    have range := (shifted.copied j).mp copied
    have low := shifted.low
    have bound := shifted.bound
    omega

/-- The one entry of the key. -/
structure Position (session : SessionData) (key : CString) (q : Int) : Prop where
  low : 0 ≤ q
  high : q < session.numSubscribedKeys
  here : session.subscribedKeys q = key
  only : ∀ j, 0 ≤ j → j < session.numSubscribedKeys → session.subscribedKeys j = key → j = q

/-- A comparison finds the key at its new place or still at its old one. -/
theorem compare_iff (position : Position session key q) (written : Written session trace other)
    (memory : Memory session trace now) {j : Int} (low : 0 ≤ j) (high : j < session.numSubscribedKeys) :
    now.subscribedKeys j = key ↔ j + 1 = q ∧ .copied j ∈ trace ∨ j = q ∧ .copied j ∉ trace := by
  rw [memory.keys]
  by_cases copied : .copied j ∈ trace
  · rw [if_pos copied]
    have inside := written.copied_inside copied
    simp only [copied, not_true_eq_false, and_true, and_false, or_false]
    constructor
    · exact position.only (j + 1) (by omega) inside.2
    · intro same
      rw [same, position.here]
  · rw [if_neg copied]
    simp only [copied, not_false_eq_true, and_true, and_false, false_or]
    constructor
    · exact position.only j low high
    · intro same
      rw [same, position.here]

end Entries

/-! The notifications that the comparisons in the trace lead to. -/

section Hits
variable {q c j : Int} {trace : List Event}

/-- The comparison of the place before comes after the copy into it. -/
def MetMoved (c : Int) (trace : List Event) : Prop :=
  .compared c ∈ trace ∧ ¬Before (.compared c) (.copied c) trace

/-- The comparison of the place comes before another entry is copied into it. -/
def MetInPlace (c : Int) (trace : List Event) : Prop := Before (.compared c) (.copied c) trace

instance (c : Int) (trace : List Event) : Decidable (MetMoved c trace) := inferInstanceAs (Decidable (_ ∧ _))

instance (c : Int) (trace : List Event) : Decidable (MetInPlace c trace) :=
  inferInstanceAs (Decidable (Before _ _ _))

/-- How often the entry `q` is met. -/
def hits (q : Int) (trace : List Event) : Nat :=
  (if MetMoved (q - 1) trace then 1 else 0) + if MetInPlace q trace then 1 else 0

theorem hits_quiet {event : Event} (quiet : ∀ j, event ≠ .compared j) : hits q (trace ++ [event]) = hits q trace := by
  have other (j : Int) : Event.compared j ≠ event := Ne.symm (quiet j)
  have moved : MetMoved (q - 1) (trace ++ [event]) ↔ MetMoved (q - 1) trace := by
    simp only [MetMoved, before_concat, List.mem_append, List.mem_singleton, other, quiet, false_and, or_false]
  have inPlace : MetInPlace q (trace ++ [event]) ↔ MetInPlace q trace := by
    simp only [MetInPlace, before_concat, quiet, false_and, or_false]
  exact congrArg₂ (· + ·) (if_congr moved rfl rfl) (if_congr inPlace rfl rfl)

theorem metInPlace_concat :
    MetInPlace c (trace ++ [.compared j]) ↔ MetInPlace c trace ∨ j = c ∧ .copied c ∉ trace := by
  rw [MetInPlace, before_concat, Event.compared.injEq]
  rfl

theorem metMoved_concat (fresh : .compared j ∉ trace) :
    MetMoved c (trace ++ [.compared j]) ↔ MetMoved c trace ∨ j = c ∧ .copied c ∈ trace := by
  have unseen : ¬Before (.compared j) (.copied j) trace := fun before => fresh (mem_of_before before)
  simp only [MetMoved, before_concat, List.mem_append, List.mem_singleton, Event.compared.injEq]
  by_cases here : j = c
  · subst here
    simp [fresh, unseen]
  · simp [here, Ne.symm here]

theorem hits_compared (fresh : .compared j ∉ trace) :
    hits q (trace ++ [.compared j]) =
      hits q trace + if j + 1 = q ∧ .copied j ∈ trace ∨ j = q ∧ .copied j ∉ trace then 1 else 0 := by
  have unmoved : ¬MetMoved j trace := fun met => fresh met.1
  have unmet : ¬MetInPlace j trace := fun before => fresh (mem_of_before before)
  rw [hits, hits]
  simp only [metMoved_concat fresh, metInPlace_concat]
  by_cases before : j + 1 = q
  · have place : j = q - 1 := by omega
    have apart : j ≠ q := by omega
    subst place
    by_cases copied : .copied (q - 1) ∈ trace
    · simp [unmoved, copied, apart, Nat.add_comm]
    · simp [copied, apart]
  · have apart : j ≠ q - 1 := by omega
    by_cases here : j = q
    · subst here
      by_cases copied : .copied j ∈ trace
      · simp [copied, apart]
      · simp [unmet, copied, apart]
    · simp [apart, here, before]

end Hits

/-! Where the scan is. -/

section Scan
variable (session : SessionData) (key : CString) (q : Int) (trace : List Event)

/-- The steps of the scan so far, and a notification that is still to be sent. The last
entry is only compared if its test comes before the decrement. -/
structure Scanned (tests compares : Int) (pending : Nat) : Prop where
  tested : ∀ j, .tested j ∈ trace ↔ 0 ≤ j ∧ j < tests
  compared : ∀ j, .compared j ∈ trace ↔ 0 ≤ j ∧ j < compares
  sent : trace.count .sent + pending = hits q trace

def PassedLast : Prop := Before (.tested (session.numSubscribedKeys - 1)) .decremented trace

inductive Scan (slot : Fin slots) : JobPc slots → Prop where
  | start {value : CString} (scanned : Scanned q trace 0 0 0) : Scan slot (.testActive key value slot)
  | test {value : CString} {j : Int} (low : 0 ≤ j) (high : j ≤ session.numSubscribedKeys)
      (last : j = session.numSubscribedKeys → PassedLast session trace) (scanned : Scanned q trace j j 0) :
      Scan slot (.testBound key value slot j)
  | compare {value : CString} {j : Int} (low : 0 ≤ j) (high : j < session.numSubscribedKeys)
      (last : j + 1 = session.numSubscribedKeys → PassedLast session trace) (scanned : Scanned q trace (j + 1) j 0) :
      Scan slot (.compare key value slot j)
  | send {value : CString} {j : Int} (low : 0 ≤ j) (high : j < session.numSubscribedKeys)
      (last : j + 1 = session.numSubscribedKeys → PassedLast session trace)
      (scanned : Scanned q trace (j + 1) (j + 1) 1) : Scan slot (.send key value slot j)
  | ended {value : CString} {j : Int} (high : session.numSubscribedKeys - 1 ≤ j)
      (last : PassedLast session trace ↔ session.numSubscribedKeys ≤ j) (scanned : Scanned q trace (j + 1) j 0) :
      Scan slot (.testActive key value (slot + 1))

/-- What holds in every run of the two threads. -/
structure Invariant (other : CString) (slot : Fin slots) (threads : Threads slots) : Prop where
  memory : Memory session trace (threads.shared.sessions slot)
  branch : Branch session trace other slot threads.manager
  scan : Scan session key q trace slot threads.job

end Scan

/-! One turn. -/

section Turn
variable {session : SessionData} {key other : CString} {q : Int} {trace : List Event} {slot : Fin slots}
  {threads : Threads slots}

theorem scanned_quiet {tests compares : Int} {pending : Nat} (scanned : Scanned q trace tests compares pending)
    {event : Event} (tested : ∀ j, event ≠ .tested j) (compared : ∀ j, event ≠ .compared j) (sent : event ≠ .sent) :
    Scanned q (trace ++ [event]) tests compares pending where
  tested := fun j => by
    rw [List.mem_append, List.mem_singleton, scanned.tested, or_iff_left (Ne.symm (tested j))]
  compared := fun j => by
    rw [List.mem_append, List.mem_singleton, scanned.compared, or_iff_left (Ne.symm (compared j))]
  sent := by
    rw [List.count_append, List.count_singleton, if_neg (by simpa using sent), Nat.add_zero, scanned.sent,
      hits_quiet compared]

theorem scan_quiet {pc : JobPc slots} (scan : Scan session key q trace slot pc) {event : Event}
    (tested : ∀ j, event ≠ .tested j) (compared : ∀ j, event ≠ .compared j) (sent : event ≠ .sent) :
    Scan session key q (trace ++ [event]) slot pc := by
  have quiet {tests compares : Int} {pending : Nat} (scanned : Scanned q trace tests compares pending) :=
    scanned_quiet scanned tested compared sent
  have passed : PassedLast session (trace ++ [event]) ↔ PassedLast session trace := by
    rw [PassedLast, before_concat, or_iff_left fun made => tested _ made.1]
    rfl
  cases scan with
  | start scanned => exact .start (quiet scanned)
  | test low high last scanned => exact .test low high (passed.mpr ∘ last) (quiet scanned)
  | compare low high last scanned => exact .compare low high (passed.mpr ∘ last) (quiet scanned)
  | send low high last scanned => exact .send low high (passed.mpr ∘ last) (quiet scanned)
  | ended high last scanned => exact .ended high (passed.trans last) (quiet scanned)

theorem memory_quiet {now : SessionData} (memory : Memory session trace now) {event : Event}
    (copied : ∀ j, event ≠ .copied j) (decremented : event ≠ .decremented) :
    Memory session (trace ++ [event]) now where
  keys := fun j => by
    rw [memory.keys]
    simp only [List.mem_append, List.mem_singleton, Ne.symm (copied j), or_false]
  count := by
    rw [memory.count]
    simp only [List.mem_append, List.mem_singleton, Ne.symm decremented, or_false]
  active := memory.active
  notifFd := memory.notifFd

theorem shifted_quiet {p w : Int} (shifted : Shifted session trace other p w) {event : Event}
    (copied : ∀ j, event ≠ .copied j) : Shifted session (trace ++ [event]) other p w := by
  have same (j : Int) : .copied j ∈ trace ++ [event] ↔ p ≤ j ∧ j < w := by
    rw [List.mem_append, List.mem_singleton, shifted.copied, or_iff_left (Ne.symm (copied j))]
  exact { shifted with copied := same }

theorem branch_quiet {pc : ManagerPc slots} (branch : Branch session trace other slot pc) {event : Event}
    (copied : ∀ j, event ≠ .copied j) (decremented : event ≠ .decremented) :
    Branch session (trace ++ [event]) other slot pc := by
  have counted (before : .decremented ∉ trace) : .decremented ∉ trace ++ [event] := by
    rw [List.mem_append, List.mem_singleton]
    exact not_or.mpr ⟨before, Ne.symm decremented⟩
  have kept (untouched : Untouched trace) : Untouched (trace ++ [event]) :=
    { copied := fun j => by
        rw [List.mem_append, List.mem_singleton]
        exact not_or.mpr ⟨untouched.copied j, Ne.symm (copied j)⟩
      decremented := counted untouched.decremented }
  cases branch with
  | find named low untouched => exact .find named low (kept untouched)
  | shift shifted before => exact .shift (shifted_quiet shifted copied) (counted before)
  | count shifted before => exact .count (shifted_quiet shifted copied) (counted before)
  | absent untouched => exact .absent (kept untouched)
  | removed shifted => exact .removed (shifted_quiet shifted copied)

theorem scanned_tested {j : Int} {pending : Nat} (low : 0 ≤ j) (scanned : Scanned q trace j j pending) :
    Scanned q (trace ++ [.tested j]) (j + 1) j pending where
  tested := fun i => by
    rw [List.mem_append, List.mem_singleton, scanned.tested, Event.tested.injEq]
    omega
  compared := fun i => by
    rw [List.mem_append, List.mem_singleton, scanned.compared]
    simp
  sent := by
    rw [List.count_append, List.count_singleton, if_neg (by simp), Nat.add_zero, scanned.sent, hits_quiet (by simp)]

theorem scanned_compared {j : Int} (low : 0 ≤ j) (scanned : Scanned q trace (j + 1) j 0) :
    Scanned q (trace ++ [.compared j]) (j + 1) (j + 1)
      (if j + 1 = q ∧ .copied j ∈ trace ∨ j = q ∧ .copied j ∉ trace then 1 else 0) where
  tested := fun i => by
    rw [List.mem_append, List.mem_singleton, scanned.tested]
    simp
  compared := fun i => by
    rw [List.mem_append, List.mem_singleton, scanned.compared, Event.compared.injEq]
    omega
  sent := by
    have fresh : .compared j ∉ trace := fun member => by
      have range := (scanned.compared j).mp member
      omega
    have sent := scanned.sent
    rw [List.count_append, List.count_singleton, if_neg (by simp), Nat.add_zero, hits_compared fresh, ← sent,
      Nat.add_zero]

theorem scanned_sent {tests compares : Int} (scanned : Scanned q trace tests compares 1) :
    Scanned q (trace ++ [.sent]) tests compares 0 where
  tested := fun i => by simpa using scanned.tested i
  compared := fun i => by simpa using scanned.compared i
  sent := by
    rw [List.count_append, List.count_singleton_self, hits_quiet (by simp), ← scanned.sent]

theorem passedLast_tested {j : Int} : PassedLast session (trace ++ [.tested j]) ↔
    PassedLast session trace ∨ j = session.numSubscribedKeys - 1 ∧ .decremented ∉ trace := by
  rw [PassedLast, before_concat, Event.tested.injEq]
  rfl

/-- A test that finds no further entry has found all of them, or the count has been
decremented before the test of the last one. -/
theorem passedLast_of_reached {now : SessionData} {j : Int} (memory : Memory session trace now)
    (high : j ≤ session.numSubscribedKeys) (last : j = session.numSubscribedKeys → PassedLast session trace)
    (scanned : Scanned q trace j j 0) (reached : ¬j < now.numSubscribedKeys) :
    PassedLast session (trace ++ [.tested j]) ↔ session.numSubscribedKeys ≤ j := by
  have count := memory.count
  rw [passedLast_tested]
  by_cases whole : j = session.numSubscribedKeys
  · exact iff_of_true (.inl (last whole)) (by omega)
  · have decremented : .decremented ∈ trace := by
      by_contra absent
      rw [if_neg absent] at count
      omega
    have untested : ¬PassedLast session trace := fun before => by
      have range := (scanned.tested _).mp (mem_of_before before)
      rw [if_pos decremented] at count
      omega
    refine iff_of_false ?_ (by omega)
    rintro (before | ⟨_, absent⟩)
    · exact untested before
    · exact absent decremented

/-- One turn of the scan. -/
theorem scan_turn (position : Position session key q) (opened : session.notifFd.isSome = true)
    (active : session.active = true) (written : Written session trace other)
    (memory : Memory session trace (threads.shared.sessions slot))
    (scan : Scan session key q trace slot threads.job) (inside : inScan slot threads.job = true)
    {answer : Answer} {result : Shared slots × JobPc slots}
    (ran : jobStep answer threads.shared threads.job = some result) :
    Scan session key q (trace ++ scanEvents threads.shared threads.job) slot result.2 := by
  generalize threads.job = pc at scan inside ran
  cases scan with
  | @start value scanned =>
    have here : (threads.shared.sessions slot).active = true := memory.active.trans active
    simp only [jobStep, dif_pos slot.isLt, Fin.eta, here, ↓reduceIte, Option.some.injEq] at ran
    subst ran
    simp only [scanEvents, List.append_nil]
    have low := position.low
    have high := position.high
    exact .test (Int.le_refl 0) (by omega) (fun ended => by omega) scanned
  | @test value j low high last scanned =>
    have count := memory.count
    simp only [jobStep] at ran
    simp only [scanEvents]
    split at ran
    next under =>
      cases ran
      refine .compare low ?_ ?_ (scanned_tested low scanned)
      · split at count <;> omega
      · intro isLast
        refine passedLast_tested.mpr (.inr ⟨by omega, fun decremented => ?_⟩)
        rw [if_pos decremented] at count
        omega
    next reached =>
      cases ran
      refine .ended ?_ (passedLast_of_reached memory high last scanned reached) (scanned_tested low scanned)
      split at count <;> omega
  | @compare value j low high last scanned =>
    have met := compare_iff position written memory low high
    have next := scanned_compared low scanned
    have passed : PassedLast session trace → PassedLast session (trace ++ [.compared j]) :=
      fun before => before_concat.mpr (.inl before)
    simp only [jobStep] at ran
    simp only [scanEvents]
    split at ran
    next same =>
      cases ran
      rw [if_pos (met.mp same)] at next
      exact .send low high (passed ∘ last) next
    next differs =>
      cases ran
      rw [if_neg (differs ∘ met.mpr)] at next
      exact .test (by omega) high (passed ∘ last) next
  | @send value j low high last scanned =>
    have here : (threads.shared.sessions slot).notifFd.isSome = true := memory.notifFd ▸ opened
    have open' : (threads.shared.sessions slot).notifFd ≠ none := Option.isSome_iff_ne_none.mp here
    simp only [jobStep, if_neg open', Option.some.injEq] at ran
    subst ran
    simp only [scanEvents, here, ↓reduceIte]
    have passed : PassedLast session trace → PassedLast session (trace ++ [.sent]) :=
      fun before => before_concat.mpr (.inl before)
    exact .test (by omega) high (passed ∘ last) (scanned_sent scanned)
  | ended => simp [inScan] at inside

theorem memory_copied {now : SessionData} {p j : Int} (memory : Memory session trace now)
    (shifted : Shifted session trace other p j) :
    Memory session (trace ++ [.copied j]) (now.setKey j (now.subscribedKeys (j + 1))) where
  keys := fun i => by
    have next : .copied (j + 1) ∉ trace := fun member => by
      have range := (shifted.copied _).mp member
      omega
    have member : .copied i ∈ trace ++ [.copied j] ↔ .copied i ∈ trace ∨ i = j := by
      rw [List.mem_append, List.mem_singleton, Event.copied.injEq]
    by_cases here : i = j
    · subst here
      rw [if_pos (member.mpr (.inr rfl))]
      show Function.update now.subscribedKeys i _ i = _
      rw [Function.update_self, memory.keys, if_neg next]
    · rw [if_congr (member.trans (or_iff_left here)) rfl rfl]
      show Function.update now.subscribedKeys j _ i = _
      rw [Function.update_of_ne here, memory.keys]
  count := by
    have count := memory.count
    simpa [SessionData.setKey] using count
  active := memory.active
  notifFd := memory.notifFd

theorem shifted_copied {p j : Int} (shifted : Shifted session trace other p j) (more : j < session.numSubscribedKeys - 1) :
    Shifted session (trace ++ [.copied j]) other p (j + 1) where
  low := shifted.low
  inside := shifted.inside
  removed := shifted.removed
  started := by
    have started := shifted.started
    omega
  bound := more
  copied := fun i => by
    have started := shifted.started
    rw [List.mem_append, List.mem_singleton, shifted.copied, Event.copied.injEq]
    omega

/-- One turn of the branch. -/
theorem branch_turn (memory : Memory session trace (threads.shared.sessions slot))
    (branch : Branch session trace other slot threads.manager) (inside : inBranch threads.manager = true)
    {answer : Answer} {result : Shared slots × ManagerPc slots}
    (ran : managerStep answer threads.shared threads.manager = some result) :
    Memory session (trace ++ branchEvents threads.shared threads.manager) (result.1.sessions slot) ∧
      Branch session (trace ++ branchEvents threads.shared threads.manager) other slot result.2 := by
  generalize threads.manager = pc at branch inside ran
  have keys := memory.keys
  have count := memory.count
  cases branch with
  | @find request localBuffer i named low untouched =>
    rw [if_neg untouched.decremented] at count
    have here := keys i
    rw [if_neg (untouched.copied i)] at here
    simp only [managerStep, sessionStep, count, here, named] at ran
    simp only [branchEvents, List.append_nil]
    split at ran
    next more =>
      split at ran
      next found =>
        cases ran
        refine ⟨memory, .shift ⟨low, more, found, Int.le_refl i, by omega, fun j => ?_⟩ untouched.decremented⟩
        exact iff_of_false (untouched.copied j) (by omega)
      next =>
        cases ran
        exact ⟨memory, .find named (by omega) untouched⟩
    next =>
      cases ran
      exact ⟨memory, .absent untouched⟩
  | @shift request localBuffer p j shifted counted =>
    rw [if_neg counted] at count
    simp only [managerStep, sessionStep, count] at ran
    simp only [branchEvents, count]
    split at ran
    next more =>
      cases ran
      rw [if_pos more, Server.modify_sessions_self]
      have kept : .decremented ∉ trace ++ [.copied j] := by simpa using counted
      exact ⟨memory_copied memory shifted, .shift (shifted_copied shifted more) kept⟩
    next ended =>
      cases ran
      have last : j = session.numSubscribedKeys - 1 := by
        have bound := shifted.bound
        omega
      subst last
      rw [if_neg ended, List.append_nil]
      exact ⟨memory, .count shifted counted⟩
  | @count request localBuffer p shifted counted =>
    rw [if_neg counted] at count
    simp only [managerStep, sessionStep, Option.some.injEq] at ran
    subst ran
    simp only [branchEvents, Server.modify_sessions_self]
    refine ⟨⟨fun j => ?_, ?_, memory.active, memory.notifFd⟩, .removed (shifted_quiet shifted (by simp))⟩
    · rw [keys]
      simp
    · rw [count, if_pos (by simp)]
  | absent | removed => simp [inBranch] at inside

/-- What the branch does is no step of the scan. -/
theorem branchEvents_cases (shared : Shared slots) (pc : ManagerPc slots) :
    branchEvents shared pc = [] ∨ ∃ event, branchEvents shared pc = [event] ∧
      (∀ j, event ≠ .tested j) ∧ (∀ j, event ≠ .compared j) ∧ event ≠ .sent := by
  unfold branchEvents
  split
  · split
    · exact .inr ⟨_, rfl, by simp⟩
    · exact .inl rfl
  · exact .inr ⟨_, rfl, by simp⟩
  · exact .inl rfl

theorem scanEvents_cases (shared : Shared slots) (pc : JobPc slots) :
    scanEvents shared pc = [] ∨ ∃ event, scanEvents shared pc = [event] ∧
      (∀ j, event ≠ .copied j) ∧ event ≠ .decremented := by
  unfold scanEvents
  split
  · exact .inr ⟨_, rfl, by simp⟩
  · exact .inr ⟨_, rfl, by simp⟩
  · split
    · exact .inr ⟨_, rfl, by simp⟩
    · exact .inl rfl
  · exact .inl rfl

theorem invariant_turn (position : Position session key q) (opened : session.notifFd.isSome = true)
    (active : session.active = true) (invariant : Invariant session key q trace other slot threads)
    {turn : Turn} {next : Threads slots} (met : Within slot threads turn) (taken : step threads turn = some next) :
    Invariant session key q (trace ++ observe threads turn) other slot next := by
  obtain ⟨memory, branch, scan⟩ := invariant
  unfold step at taken
  split at taken
  next => cases taken
  next =>
    cases turn with
    | scan answer =>
      obtain ⟨result, ran, same⟩ := Option.map_eq_some_iff.mp taken
      subst same
      have scanned := scan_turn position opened active branch.written memory scan met ran
      obtain ⟨terminated, shared⟩ := Server.jobStep_sessions ran
      refine ⟨?_, ?_, scanned⟩
      · show Memory session (trace ++ scanEvents threads.shared threads.job) (result.1.sessions slot)
        rw [shared]
        rcases scanEvents_cases threads.shared threads.job with none | ⟨event, one, copied, decremented⟩
        · rwa [none, List.append_nil]
        · rw [one]
          exact memory_quiet memory copied decremented
      · show Branch session (trace ++ scanEvents threads.shared threads.job) other slot threads.manager
        rcases scanEvents_cases threads.shared threads.job with none | ⟨event, one, copied, decremented⟩
        · rwa [none, List.append_nil]
        · rw [one]
          exact branch_quiet branch copied decremented
    | unsubscribe answer =>
      obtain ⟨result, ran, same⟩ := Option.map_eq_some_iff.mp taken
      subst same
      obtain ⟨memory', branch'⟩ := branch_turn memory branch met ran
      refine ⟨memory', branch', ?_⟩
      show Scan session key q (trace ++ branchEvents threads.shared threads.manager) slot threads.job
      rcases branchEvents_cases threads.shared threads.manager with none | ⟨event, one, tested, compared, sent⟩
      · rwa [none, List.append_nil]
      · rw [one]
        exact scan_quiet scan tested compared sent

theorem invariant_start (begins : Start slot key other threads) :
    Invariant (threads.shared.sessions slot) key q [] other slot threads := by
  obtain ⟨value, scan⟩ := begins.scan
  obtain ⟨request, localBuffer, named, branch⟩ := begins.branch
  have memory : Memory (threads.shared.sessions slot) [] (threads.shared.sessions slot) := ⟨by simp, by simp, rfl, rfl⟩
  have scanned : Scanned q [] 0 0 0 := ⟨by simp, by simp, rfl⟩
  refine ⟨memory, ?_, ?_⟩
  · rw [branch]
    exact .find named (Int.le_refl 0) ⟨by simp, by simp⟩
  · rw [scan]
    exact .start scanned

theorem position_of_start (begins : Start slot key other threads) :
    ∃ q, Position (threads.shared.sessions slot) key q := by
  obtain ⟨q, low, high, here⟩ := mem_entries.mp begins.listed
  refine ⟨q, low, by omega, here, fun j low' high' same => ?_⟩
  exact entries_place begins.distinct low' (by omega) low high (same.trans here.symm)

theorem invariant_run {start : Threads slots} (begins : Start slot key other start)
    (position : Position (start.shared.sessions slot) key q)
    (run : Run (machine slots) (Within slot) start trace threads) :
    Invariant (start.shared.sessions slot) key q trace other slot threads := by
  apply run.induct fun trace threads => Invariant (start.shared.sessions slot) key q trace other slot threads
  · exact invariant_start begins
  · intro trace threads turn next invariant met taken
    exact invariant_turn position begins.opened begins.active invariant met taken

end Turn

/-! The end of the scan. -/

section End
variable {session : SessionData} {key other : CString} {q j : Int} {trace : List Event} {slot : Fin slots}

theorem hits_eq_one_iff : hits q trace = 1 ↔ (¬MetMoved (q - 1) trace ↔ MetInPlace q trace) := by
  unfold hits
  by_cases moved : MetMoved (q - 1) trace <;> by_cases inPlace : MetInPlace q trace <;> simp [moved, inPlace]

theorem metInPlace_iff (position : Position session key q) (written : Written session trace other)
    (last : PassedLast session trace ↔ session.numSubscribedKeys ≤ j) (scanned : Scanned q trace (j + 1) j 0) :
    MetInPlace q trace ↔
      Before (visit session.numSubscribedKeys q) (leave session.numSubscribedKeys q) trace := by
  have low := position.low
  have high := position.high
  unfold visit leave
  split
  next => rfl
  next outermost =>
    have place : q = session.numSubscribedKeys - 1 := by omega
    have uncopied : .copied q ∉ trace := fun copied => outermost (written.copied_inside copied).2
    have passed : Before (.tested q) .decremented trace ↔ session.numSubscribedKeys ≤ j := place ▸ last
    rw [MetInPlace, before_of_absent uncopied, scanned.compared, passed]
    omega

/-- An entry that nothing before it is removed from under is met once, in its place. -/
theorem met_of_unmoved (position : Position session key q) (written : Written session trace other)
    (different : other ≠ key) (high : session.numSubscribedKeys - 1 ≤ j)
    (last : PassedLast session trace ↔ session.numSubscribedKeys ≤ j) (scanned : Scanned q trace (j + 1) j 0)
    (unmoved : ∀ p, 0 ≤ p → p < q → session.subscribedKeys p ≠ other) :
    ¬MetMoved (q - 1) trace ∧ MetInPlace q trace := by
  have low := position.low
  have inside := position.high
  have still : (∀ i, i ≤ q → .copied i ∉ trace) ∧ (q + 1 = session.numSubscribedKeys → .decremented ∉ trace) := by
    cases written with
    | untouched untouched => exact ⟨fun i _ => untouched.copied i, fun _ => untouched.decremented⟩
    | @shifted p w shifted ended =>
      have removed := shifted.removed
      have beyond : q < p := by
        by_contra before
        rcases Int.lt_or_eq_of_le (Int.not_lt.mp before) with earlier | same
        · exact unmoved p shifted.low earlier removed
        · rw [same, position.here] at removed
          exact different removed.symm
      have bound := shifted.inside
      refine ⟨fun i below copied => ?_, fun outermost => by omega⟩
      have range := (shifted.copied i).mp copied
      omega
  constructor
  · rintro ⟨compared, late⟩
    exact late ((before_of_absent (still.1 (q - 1) (by omega))).mpr compared)
  · rw [MetInPlace, before_of_absent (still.1 q (Int.le_refl q)), scanned.compared]
    refine ⟨low, ?_⟩
    by_cases outermost : q + 1 = session.numSubscribedKeys
    · have reached : .tested (session.numSubscribedKeys - 1) ∈ trace := (scanned.tested _).mpr (by omega)
      have whole := last.mp ((before_of_absent (still.2 outermost)).mpr reached)
      omega
    · omega

theorem hits_iff_undisturbed (position : Position session key q) (written : Written session trace other)
    (different : other ≠ key) (high : session.numSubscribedKeys - 1 ≤ j)
    (last : PassedLast session trace ↔ session.numSubscribedKeys ≤ j) (scanned : Scanned q trace (j + 1) j 0) :
    hits q trace = 1 ↔ Undisturbed session key other trace := by
  have inPlace := metInPlace_iff position written last scanned
  rw [hits_eq_one_iff]
  constructor
  · intro met p q' low below inside removed here
    have same := position.only q' (by omega) inside here
    subst same
    have compared : .compared (q' - 1) ∈ trace := (scanned.compared _).mpr (by omega)
    rw [← inPlace, ← met, MetMoved, not_and_not_right]
    exact ⟨fun before _ => before, fun before => before compared⟩
  · intro undisturbed
    by_cases moved : ∃ p, 0 ≤ p ∧ p < q ∧ session.subscribedKeys p = other
    · obtain ⟨p, low, below, removed⟩ := moved
      have inside := position.high
      have compared : .compared (q - 1) ∈ trace := (scanned.compared _).mpr (by omega)
      have sides := undisturbed p q low below inside removed position.here
      rw [inPlace, ← sides, MetMoved, not_and_not_right]
      exact ⟨fun before => before compared, fun before _ => before⟩
    · have unmoved : ∀ p, 0 ≤ p → p < q → session.subscribedKeys p ≠ other :=
        fun p low below removed => moved ⟨p, low, below, removed⟩
      obtain ⟨notMoved, met⟩ := met_of_unmoved position written different high last scanned unmoved
      exact iff_of_true notMoved met

/-- Where the scan has left the session, it has sent what the comparisons met. -/
theorem sent_of_ended {threads : Threads slots} (scan : Scan session key q trace slot threads.job)
    (ended : ScanEnded slot threads) :
    ∃ j, session.numSubscribedKeys - 1 ≤ j ∧ (PassedLast session trace ↔ session.numSubscribedKeys ≤ j) ∧
      Scanned q trace (j + 1) j 0 := by
  obtain ⟨key', value', place⟩ := ended
  generalize threads.job = pc at scan place
  cases scan with
  | start =>
    rw [JobPc.testActive.injEq] at place
    omega
  | test | compare | send => cases place
  | ended high last scanned => exact ⟨_, high, last, scanned⟩

end End

/-- A scan that runs while another key is unsubscribed sends exactly one notification
exactly when it passes both places of the entry on the same side of its move. -/
theorem notified_once_iff {slot : Fin slots} {key other : CString} {start threads : Threads slots}
    {trace : List Event} (begins : Start slot key other start)
    (run : Run (machine slots) (Within slot) start trace threads) (ended : ScanEnded slot threads) :
    trace.count .sent = 1 ↔ Undisturbed (start.shared.sessions slot) key other trace := by
  obtain ⟨q, position⟩ := position_of_start begins
  have invariant := invariant_run begins position run
  obtain ⟨j, high, last, scanned⟩ := sent_of_ended invariant.scan ended
  have sent := scanned.sent
  rw [Nat.add_zero] at sent
  rw [sent]
  exact hits_iff_undisturbed position invariant.branch.written begins.different high last scanned

/-! Two keys. -/

def keyA : CString := CString.ofBytes [97]

def keyB : CString := CString.ofBytes [98]

/-- An active session with two keys, of which the branch is to remove `b`. -/
def pair (first second : CString) : Threads 1 where
  shared :=
    { (Server.initial 1 1 1 false).shared with
      sessions := fun _ => { SessionData.zero with
        active := true
        notifFd := some 5
        subscribedKeys := fun j => if j = 0 then first else second
        numSubscribedKeys := 2 }
      descriptors := fun fd => if fd = 5 then some ⟨Server.noPath, true⟩ else none
      readers := fun _ => true }
  job := .testActive keyA keyB 0
  manager := .session ⟨Server.noPath, Server.noPath, Server.noPath⟩ 0 (.unsubscribeFind [OP_CODE_UNSUBSCRIBE, 98] 0)

theorem start_pair {first second : CString} (distinct : [first, second].Nodup) (listed : keyA ∈ [first, second]) :
    Start 0 keyA keyB (pair first second) where
  active := rfl
  opened := rfl
  distinct := distinct
  listed := listed
  different := by decide
  scan := ⟨keyB, rfl⟩
  branch := ⟨_, _, by decide, rfl⟩

def scans (count : Nat) : List Turn := List.replicate count (.scan {})

/-- The key before the removed one is notified. -/
theorem notified_once_of_earlier_key :
    ∃ trace threads, Run (machine 1) (Within 0) (pair keyA keyB) trace threads ∧ ScanEnded 0 threads ∧
      trace.count .sent = 1 := by
  have begins : Start 0 keyA keyB (pair keyA keyB) := start_pair (by decide) (by decide)
  obtain ⟨trace, threads, run, ended⟩ := exists_run (machine 1) (Within 0) (pair keyA keyB)
    (fun _ threads => threads.job = .testActive keyA keyB 1) (scans 7) (by decide)
  have scanned : ScanEnded 0 threads := ⟨keyA, keyB, ended⟩
  refine ⟨trace, threads, run, scanned, (notified_once_iff begins run scanned).mpr ?_⟩
  intro p q low below _ removed here
  have place : ((pair keyA keyB).shared.sessions 0).subscribedKeys q = keyB := if_neg (by omega)
  rw [place] at here
  exact absurd here (by decide)

/-- The scan has passed the first place when the key is moved there, and ends before the
second one. -/
theorem notification_missed :
    ¬∀ (slots : Nat) (slot : Fin slots) (key other : CString) (start threads : Threads slots) (trace : List Event),
      Start slot key other start → Run (machine slots) (Within slot) start trace threads →
      ScanEnded slot threads → trace.count .sent = 1 := by
  intro once
  have begins : Start 0 keyA keyB (pair keyB keyA) := start_pair (by decide) (by decide)
  obtain ⟨trace, threads, run, ended, missed⟩ := exists_run (machine 1) (Within 0) (pair keyB keyA)
    (fun trace threads => threads.job = .testActive keyA keyB 1 ∧ trace.count .sent = 0)
    (scans 3 ++ List.replicate 4 (.unsubscribe {}) ++ scans 1) (by decide)
  have one := once 1 0 keyA keyB _ threads trace begins run ⟨keyA, keyB, ended⟩
  rw [missed] at one
  cases one

end IstKvs.ShiftUnderScan
