import Mathlib.Data.List.Basic
import Mathlib.Logic.Basic
import Mathlib.Order.WellFounded

/-! Runs of a machine whose actions resolve every choice. A run carries the
events its steps emitted, and a guard that each step met in the state before it.
Scheduling assumptions and the conditions of a result are both such guards. -/

namespace IstKvs.LabelledRuns

/-- One action from a state leads to at most one state, and is observed as some events. -/
structure Machine (State Action Event : Type) where
  step : State → Action → Option State
  observe : State → Action → List Event

variable {State Action Event : Type} {machine : Machine State Action Event}
  {guard : State → Action → Prop} {start state next : State} {trace : List Event}

/-- A run from `start`, with its trace, all of whose steps met `guard`. -/
inductive Run (machine : Machine State Action Event) (guard : State → Action → Prop)
    (start : State) : List Event → State → Prop where
  | refl : Run machine guard start [] start
  | tail {trace state next action} : Run machine guard start trace state → guard state action →
      machine.step state action = some next →
      Run machine guard start (trace ++ machine.observe state action) next

/-- The guard of a run on which nothing is assumed. -/
def Always : State → Action → Prop := fun _ _ => True

instance (state : State) (action : Action) : Decidable (Always state action) := isTrue trivial

namespace Run

/-- The induction over a run, stated once: a property of the trace and the state
that holds at the start and that each guarded step keeps. -/
theorem induct (holds : List Event → State → Prop) (run : Run machine guard start trace state)
    (initial : holds [] start)
    (keeps : ∀ trace state action next, holds trace state → guard state action →
      machine.step state action = some next → holds (trace ++ machine.observe state action) next) :
    holds trace state := by
  induction run with
  | refl => exact initial
  | tail _ met taken ih => exact keeps _ _ _ _ ih met taken

/-- The same rule for a property of the state alone. -/
theorem invariant (holds : State → Prop) (run : Run machine guard start trace state)
    (initial : holds start)
    (keeps : ∀ state action next, holds state → guard state action →
      machine.step state action = some next → holds next) : holds state :=
  run.induct (fun _ state => holds state) initial (fun _ => keeps)

theorem single {action : Action} (met : guard start action) (taken : machine.step start action = some next) :
    Run machine guard start (machine.observe start action) next := by
  simpa using Run.tail Run.refl met taken

theorem append {later : List Event} (run : Run machine guard start trace state)
    (rest : Run machine guard state later next) : Run machine guard start (trace ++ later) next := by
  induction rest with
  | refl => simpa using run
  | tail _ met taken ih => rw [← List.append_assoc]; exact .tail ih met taken

end Run

/-- Where each step leads down in an outer part of the state, or keeps it and lowers a
measure, no run goes on for ever from a state whose outer part leads down so often only. -/
theorem Machine.ends_of_layers {Outer : Type} {below : Outer → Outer → Prop} {outer : State → Outer} {measure : State → Nat}
    (lowers : ∀ state action next, machine.step state action = some next →
      below (outer next) (outer state) ∨ outer next = outer state ∧ measure next < measure state)
    (ends : Acc below (outer start)) :
    ¬∃ states : Nat → State, states 0 = start ∧
      ∀ count, ∃ action, machine.step (states count) action = some (states (count + 1)) := by
  have layered : Acc (Prod.Lex below (· < ·)) (outer start, measure start) :=
    Prod.lexAccessible ends (fun left => wellFounded_lt.apply left) (measure start)
  have descends : ∀ {next state : State}, (∃ action, machine.step state action = some next) →
      Prod.Lex below (· < ·) (outer next, measure next) (outer state, measure state) := by
    rintro next state ⟨action, taken⟩
    rcases lowers state action next taken with down | ⟨same, less⟩
    · exact .left _ _ down
    · rw [same]
      exact .right _ less
  have steps := Subrelation.accessible descends (InvImage.accessible (fun state => (outer state, measure state)) layered)
  exact fun endless => not_acc_iff_exists_descending_chain.mpr endless steps

section Ghost
variable {Ghost : Type}

/-- The machine with a record of its run that no step depends on. -/
def Machine.withGhost (machine : Machine State Action Event)
    (update : State → Action → State → Ghost → Ghost) : Machine (State × Ghost) Action Event where
  step := fun state action =>
    (machine.step state.1 action).map fun next => (next, update state.1 action next state.2)
  observe := fun state action => machine.observe state.1 action

/-- Every run has its record. -/
theorem Run.withGhost (update : State → Action → State → Ghost → Ghost) (ghost : Ghost)
    (run : Run machine guard start trace state) : ∃ last,
      Run (machine.withGhost update) (fun state action => guard state.1 action) (start, ghost) trace (state, last) := by
  induction run with
  | refl => exact ⟨ghost, .refl⟩
  | @tail _ state _ action _ met taken ih =>
    obtain ⟨last, run⟩ := ih
    exact ⟨_, .tail run met (congrArg (Option.map fun next => (next, update state action next last)) taken)⟩

end Ghost

section Order
variable {first second event : Event}

/-- The first event is in the trace before any of the second. -/
def Before (first second : Event) : List Event → Prop
  | [] => False
  | event :: later => event = first ∨ event ≠ second ∧ Before first second later

instance decidableBefore [DecidableEq Event] (first second : Event) :
    (trace : List Event) → Decidable (Before first second trace)
  | [] => isFalse id
  | event :: later =>
      have := decidableBefore first second later
      inferInstanceAs (Decidable (event = first ∨ event ≠ second ∧ Before first second later))

theorem before_concat : Before first second (trace ++ [event]) ↔
    Before first second trace ∨ event = first ∧ second ∉ trace := by
  induction trace with
  | nil => simp [Before]
  | cons other trace ih =>
    rw [List.cons_append, Before, Before, ih, List.mem_cons, not_or]
    constructor
    · rintro (here | ⟨kept, before | ⟨same, absent⟩⟩)
      · exact .inl (.inl here)
      · exact .inl (.inr ⟨kept, before⟩)
      · exact .inr ⟨same, Ne.symm kept, absent⟩
    · rintro ((here | ⟨kept, before⟩) | ⟨same, kept, absent⟩)
      · exact .inl here
      · exact .inr ⟨kept, .inl before⟩
      · exact .inr ⟨Ne.symm kept, .inr ⟨same, absent⟩⟩

theorem mem_of_before (before : Before first second trace) : first ∈ trace := by
  induction trace with
  | nil => cases before
  | cons event trace ih =>
    rcases before with here | ⟨_, later⟩
    · exact here ▸ List.mem_cons_self
    · exact List.mem_cons_of_mem event (ih later)

theorem before_of_absent (absent : second ∉ trace) : Before first second trace ↔ first ∈ trace := by
  constructor
  · exact mem_of_before
  · intro member
    induction trace with
    | nil => cases member
    | cons event trace ih =>
      obtain ⟨other, absent⟩ := not_or.mp (List.mem_cons.not.mp absent)
      rcases List.mem_cons.mp member with here | later
      · exact .inl here.symm
      · exact .inr ⟨Ne.symm other, ih absent later⟩

end Order

section Play
variable [∀ state action, Decidable (guard state action)]

/-- Execute a schedule, checking the guard before each step. -/
def play (machine : Machine State Action Event) (guard : State → Action → Prop)
    [∀ state action, Decidable (guard state action)] :
    State → List Action → Option (List Event × State)
  | state, [] => some ([], state)
  | state, action :: schedule =>
      if guard state action then
        match machine.step state action with
        | some next =>
            (play machine guard next schedule).map fun rest =>
              (machine.observe state action ++ rest.1, rest.2)
        | none => none
      else none

theorem run_of_play {schedule : List Action} {result : List Event × State}
    (played : play machine guard start schedule = some result) :
    Run machine guard start result.1 result.2 := by
  induction schedule generalizing start result with
  | nil =>
    simp only [play, Option.some.injEq] at played
    subst played
    exact .refl
  | cons action schedule ih =>
    simp only [play] at played
    split at played
    next met =>
      split at played
      next next taken =>
        obtain ⟨rest, later, same⟩ := Option.map_eq_some_iff.mp played
        subst same
        exact (Run.single met taken).append (ih later)
      next => cases played
    next => cases played

/-- A schedule that plays to its end, with a checked property of where it ends. -/
theorem exists_run (machine : Machine State Action Event) (guard : State → Action → Prop)
    [∀ state action, Decidable (guard state action)] (start : State)
    (holds : List Event → State → Prop) [∀ trace state, Decidable (holds trace state)]
    (schedule : List Action)
    (checked : ((play machine guard start schedule).any fun result =>
      decide (holds result.1 result.2)) = true) :
    ∃ trace state, Run machine guard start trace state ∧ holds trace state := by
  obtain ⟨result, played, decided⟩ := (Option.any_eq_true _ _).mp checked
  exact ⟨result.1, result.2, run_of_play played, of_decide_eq_true decided⟩

end Play

end IstKvs.LabelledRuns
