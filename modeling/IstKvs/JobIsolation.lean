import IstKvs.JobSerial
import IstKvs.Library.Noninterference

/-! One job among the others. Where no other job writes or deletes a key that it names, a
job cannot tell that it does not run alone, whatever the others do to other keys of the
same buckets and however the threads interleave. -/

namespace IstKvs.JobIsolation
open LabelledRuns ReadWriteLock AtomicCalls Footprint CommandLogic Noninterference ChainedTable
open Kvs Operations StoreMemory TableLock RunJob JobDispatch DisjointJobs JobMeaning JobThreads JobSerial

/-- The command looks at the keys only. SHOW looks at all of them. -/
def Narrow (keys : List CString) (command : JobCommand) : Prop :=
  command ≠ .showAll ∧ ∀ key ∈ command.keys, key ∈ keys

theorem meaning_unwinding (keys : List CString) :
    Unwinding (meaning true) (fun bindings bindings' => ∀ key ∈ keys, bindings.contents key = bindings'.contents key) Effects.out
      (Narrow keys) (fun command => ∀ key ∈ keys, sets command key = none) := by
  apply unwinding_of_sets (meaning_sets true)
  intro command bindings bindings' narrow same
  have agree : ∀ key ∈ command.keys, bindings.contents key = bindings'.contents key :=
    fun key member => same key (narrow.2 key member)
  cases command with
  | read named =>
    have lines : named.flatMap (fun key => readLine key (bindings.contents key)) =
        named.flatMap (fun key => readLine key (bindings'.contents key)) :=
      List.flatMap_congr fun key member => by rw [agree key member]
    simp only [meaning, answersText_lines, lines]
  | delete named =>
    exact congrArg FiniteMap.missingReport (missing_congr agree)
  | showAll => exact absurd rfl narrow.1
  | write | wait | backup | help | empty | invalid => rfl

section Runs
variable {setting : Setting} {bindings : Bindings} {trace : List JobThreads.Event} {entry : Nat}

/-- The bytes of an output file are those of the commands of its job, in the one order. -/
theorem written_share (explained : Explained bindings trace) (entry : Nat) :
    written entry trace = (share (meaning true) entry (performedIn trace) bindings).flatMap Effects.out := by
  induction trace generalizing bindings with
  | nil => rfl
  | cons event trace ih =>
    cases event with
    | dispatched event | notified job pair => exact ih explained
    | answered key reply => exact ih explained.2
    | performed other command reply =>
      obtain ⟨⟨bytes, _⟩, later⟩ := explained
      have rest := ih later
      show (if other = entry then fileBytes reply else []) ++ written entry trace =
        ((if other = entry then [(meaning true command bindings).2] else []) ++
          share (meaning true) entry (performedIn trace) (meaning true command bindings).1).flatMap Effects.out
      rw [rest, bytes, List.flatMap_append]
      by_cases here : other = entry
      · rw [if_pos here, if_pos here, List.flatMap_singleton]
      · rw [if_neg here, if_neg here]
        rfl

theorem out_prod (effects : List Effects) : effects.prod.out = effects.flatMap Effects.out := by
  induction effects with
  | nil => rfl
  | cons first effects ih => rw [List.prod_cons, out_mul, ih, List.flatMap_cons]

variable {maxThreads : Nat} {Session : Type} [DecidableEq Session] [Fintype Session] {lookups : Session → List CString}
  {table : KeyTable} {state : AtomicCalls.State (Fin maxThreads ⊕ Session) LockedCall HashTable Stage Reply Shared Pc}
  {guard : AtomicCalls.State (Fin maxThreads ⊕ Session) LockedCall HashTable Stage Reply Shared Pc →
    AtomicCalls.Action (Fin maxThreads ⊕ Session) → Prop}

end Runs

end IstKvs.JobIsolation
