import IstKvs.Library.LabelledRuns
import Mathlib.Logic.Function.Basic

/-! Two parties that talk through FIFOs. An open waits for the other side, a read of an
empty FIFO waits for bytes and takes whatever is there, up to its size. Where the parties
agree on one dialogue when they move together, every interleaving holds that dialogue:
each read gets one message, nobody waits for ever, and the dialogue comes to its end. -/

namespace IstKvs.Dialogue
open LabelledRuns

inductive Side where
  | left
  | right
  deriving DecidableEq

def Side.other : Side → Side
  | .left => .right
  | .right => .left

@[simp] theorem Side.other_other (side : Side) : side.other.other = side := by
  cases side <;> rfl

@[simp] theorem Side.other_ne (side : Side) : side.other ≠ side := by
  cases side <;> decide

theorem Side.eq_or (side actor : Side) : actor = side ∨ actor = side.other := by
  cases side <;> cases actor <;> decide

/-- What a party does next. -/
inductive Act (Pipe Byte Control : Type) where
  | halt
  | opens (pipe : Pipe) (next : Control)
  | send (pipe : Pipe) (message : List Byte) (next : Control)
  | receive (pipe : Pipe) (size : Nat) (next : List Byte → Control)

/-- The parties, the side that writes each pipe, and the bytes that a pipe holds. -/
structure Parties (Pipe Byte Control : Type) where
  act : Control → Act Pipe Byte Control
  writer : Pipe → Side
  capacity : Nat

/-- A party is between two calls, or waits in an open. -/
inductive Stand (Pipe Control : Type) where
  | ready (control : Control)
  | opening (pipe : Pipe) (next : Control)

/-- Who has come to open each pipe, and the bytes in it. -/
structure State (Pipe Byte Control : Type) where
  stand : Side → Stand Pipe Control
  arrived : Side → Pipe → Bool
  bytes : Pipe → List Byte

inductive Event (Pipe Byte : Type) where
  | came (side : Side) (pipe : Pipe)
  | opened (side : Side)
  | sent (pipe : Pipe) (message : List Byte)
  | received (pipe : Pipe) (message : List Byte)

variable {Pipe Byte Control : Type} [DecidableEq Pipe] (parties : Parties Pipe Byte Control)

def State.move (state : State Pipe Byte Control) (side : Side) (stand : Stand Pipe Control) : State Pipe Byte Control :=
  { state with stand := Function.update state.stand side stand }

def State.put (state : State Pipe Byte Control) (pipe : Pipe) (bytes : List Byte) : State Pipe Byte Control :=
  { state with bytes := Function.update state.bytes pipe bytes }

/-- The party has come to the pipe and waits there. -/
def State.come (state : State Pipe Byte Control) (side : Side) (pipe : Pipe) (next : Control) : State Pipe Byte Control :=
  { state.move side (.opening pipe next) with
    arrived := Function.update state.arrived side (Function.update (state.arrived side) pipe true) }

/-- The next call of the party on that side, and what is seen of it. -/
def stepOf (state : State Pipe Byte Control) (side : Side) : Option (State Pipe Byte Control × Event Pipe Byte) :=
  match state.stand side with
  | .opening pipe next =>
      if state.arrived side.other pipe then some (state.move side (.ready next), .opened side) else none
  | .ready control =>
      match parties.act control with
      | .halt => none
      | .opens pipe next => some (state.come side pipe next, .came side pipe)
      | .send pipe message next =>
          if state.arrived side pipe = true ∧ (state.bytes pipe).length + message.length ≤ parties.capacity then
            some ((state.move side (.ready next)).put pipe (state.bytes pipe ++ message), .sent pipe message)
          else none
      | .receive pipe size next =>
          if state.arrived side pipe = true ∧ state.bytes pipe ≠ [] then
            some ((state.move side (.ready (next ((state.bytes pipe).take size)))).put pipe ((state.bytes pipe).drop size),
              .received pipe ((state.bytes pipe).take size))
          else none

def machine : Machine (State Pipe Byte Control) Side (Event Pipe Byte) where
  step := fun state side => (stepOf parties state side).map Prod.fst
  observe := fun state side => ((stepOf parties state side).map Prod.snd).toList

/-- Neither party can move. -/
def AtRest (state : State Pipe Byte Control) : Prop := ∀ side, (machine parties).step state side = none

/-- No pipe has been opened. -/
def initial (controls : Side → Control) : State Pipe Byte Control where
  stand := fun side => .ready (controls side)
  arrived := fun _ _ => false
  bytes := fun _ => []

/-! The parties moved together. -/

/-- The party has halted or reads from the other. -/
def Attends (side : Side) (control : Control) : Prop :=
  parties.act control = .halt ∨
    ∃ pipe size next, parties.writer pipe = side.other ∧ parties.act control = .receive pipe size next

/-- The parties open a pipe that is not open, or one sends what the other reads and then
attends. -/
inductive Meets : (Pipe → Bool) → (Side → Control) → (Pipe → Bool) → (Side → Control) → Prop where
  | opens {opened controls pipe next} : opened pipe = false →
      (∀ side, parties.act (controls side) = .opens pipe (next side)) →
      Meets opened controls (Function.update opened pipe true) next
  | message {opened controls pipe message size answer next} (side : Side) : parties.writer pipe = side →
      opened pipe = true → message ≠ [] → message.length ≤ size → message.length ≤ parties.capacity →
      parties.act (controls side) = .send pipe message (next side) →
      parties.act (controls side.other) = .receive pipe size answer →
      next side.other = answer message → Attends parties side (next side) →
      Meets opened controls opened next

/-- The dialogue has that many openings and messages left, and ends in `outcome`, where
each party has halted or reads. -/
inductive Converses (outcome : Side → Control) : (Pipe → Bool) → (Side → Control) → Nat → Prop where
  | rests {opened} : (∀ side, Attends parties side (outcome side)) → Converses outcome opened outcome 0
  | meets {opened controls opened' next left} : Meets parties opened controls opened' next →
      Converses outcome opened' next left → Converses outcome opened controls (left + 1)

/-! One step. -/

/-- All that a step can do. -/
inductive Stepped (parties : Parties Pipe Byte Control) (state : State Pipe Byte Control) (side : Side) :
    State Pipe Byte Control → Event Pipe Byte → Prop where
  | pass {pipe control} : state.stand side = .opening pipe control → state.arrived side.other pipe = true →
      Stepped parties state side (state.move side (.ready control)) (.opened side)
  | come {control pipe after} : state.stand side = .ready control → parties.act control = .opens pipe after →
      Stepped parties state side (state.come side pipe after) (.came side pipe)
  | send {control pipe message after} : state.stand side = .ready control →
      parties.act control = .send pipe message after → state.arrived side pipe = true →
      (state.bytes pipe).length + message.length ≤ parties.capacity →
      Stepped parties state side ((state.move side (.ready after)).put pipe (state.bytes pipe ++ message)) (.sent pipe message)
  | receive {control pipe size answer} : state.stand side = .ready control →
      parties.act control = .receive pipe size answer → state.arrived side pipe = true → state.bytes pipe ≠ [] →
      Stepped parties state side
        ((state.move side (.ready (answer ((state.bytes pipe).take size)))).put pipe ((state.bytes pipe).drop size))
        (.received pipe ((state.bytes pipe).take size))

/-! How far the parties can be from one another. -/

/-- The party is there, or only has to leave an open that both have come to. -/
inductive Settled (state : State Pipe Byte Control) (side : Side) (control : Control) : Prop where
  | ready : state.stand side = .ready control → Settled state side control
  | passing {pipe} : state.stand side = .opening pipe control → state.arrived side.other pipe = true →
      Settled state side control

def late : Stand Pipe Control → Nat
  | .ready _ => 0
  | .opening _ _ => 1

def State.lateness (state : State Pipe Byte Control) : Nat := late (state.stand .left) + late (state.stand .right)

/-- The parties stand level, or one waits for the other at a pipe, or one has sent a message
that the other has not read. The budget bounds the steps that are left. -/
inductive Near (parties : Parties Pipe Byte Control) (outcome : Side → Control) (state : State Pipe Byte Control)
    (budget : Nat) : Prop where
  | level {opened controls left} : (∀ side, Settled state side (controls side)) →
      (∀ side, state.arrived side = opened) → (∀ pipe, state.bytes pipe = []) →
      Converses parties outcome opened controls left → 4 * left + state.lateness ≤ budget →
      Near parties outcome state budget
  | waiting {opened control pipe next left} (side : Side) : state.stand side = .opening pipe (next side) →
      Settled state side.other control → parties.act control = .opens pipe (next side.other) → opened pipe = false →
      state.arrived side = Function.update opened pipe true → state.arrived side.other = opened →
      (∀ pipe, state.bytes pipe = []) → Converses parties outcome (Function.update opened pipe true) next left →
      4 * left + 2 + state.lateness ≤ budget → Near parties outcome state budget
  | ahead {opened control pipe size answer next left} (side : Side) : state.stand side = .ready (next side) →
      Attends parties side (next side) → Settled state side.other control →
      parties.act control = .receive pipe size answer → next side.other = answer (state.bytes pipe) →
      parties.writer pipe = side → state.bytes pipe ≠ [] → (state.bytes pipe).length ≤ size →
      (∀ side, state.arrived side = opened) → opened pipe = true →
      (∀ other, other ≠ pipe → state.bytes other = []) → Converses parties outcome opened next left →
      4 * left + 3 + state.lateness ≤ budget → Near parties outcome state budget

variable {parties} {state next : State Pipe Byte Control} {side : Side} {control after : Control} {pipe : Pipe}
  {message : List Byte} {size budget : Nat} {outcome : Side → Control}

theorem stepOf_eq_some_iff {event : Event Pipe Byte} :
    stepOf parties state side = some (next, event) ↔ Stepped parties state side next event := by
  constructor
  · intro taken
    unfold stepOf at taken
    split at taken
    next pipe control here =>
      split_ifs at taken with arrived
      cases taken
      exact .pass here arrived
    next control here =>
      split at taken
      next => cases taken
      next pipe after acts =>
        cases taken
        exact .come here acts
      next pipe message after acts =>
        split_ifs at taken with may
        cases taken
        exact .send here acts may.1 may.2
      next pipe size answer acts =>
        split_ifs at taken with may
        cases taken
        exact .receive here acts may.1 may.2
  · intro stepped
    cases stepped with
    | pass here arrived => simp only [stepOf, here, arrived, ↓reduceIte]
    | come here acts => simp only [stepOf, here, acts]
    | send here acts arrived room => simp only [stepOf, here, acts, arrived, room, and_self, ↓reduceIte]
    | receive here acts arrived held => simp only [stepOf, here, acts, arrived, held, ne_eq, not_false_eq_true, and_self, ↓reduceIte]

/-- A step is seen as one event. -/
theorem stepped_of_step (taken : (machine parties).step state side = some next) :
    ∃ event, (machine parties).observe state side = [event] ∧ Stepped parties state side next event := by
  obtain ⟨⟨reached, event⟩, stepped, same⟩ := Option.map_eq_some_iff.mp taken
  cases same
  refine ⟨event, ?_, stepOf_eq_some_iff.mp stepped⟩
  show ((stepOf parties state side).map Prod.snd).toList = _
  rw [stepped]
  rfl

theorem step_of_stepped {event : Event Pipe Byte} (stepped : Stepped parties state side next event) :
    (machine parties).step state side = some next := by
  show (stepOf parties state side).map Prod.fst = _
  rw [stepOf_eq_some_iff.mpr stepped]
  rfl

/-! What each update leaves alone. -/

section Updates
variable (state : State Pipe Byte Control) (side : Side) (stand : Stand Pipe Control) (pipe : Pipe) (bytes : List Byte)
  (next : Control)

omit [DecidableEq Pipe] in
@[simp] theorem move_stand_self : (state.move side stand).stand side = stand := Function.update_self ..

omit [DecidableEq Pipe] in
@[simp] theorem move_stand_other : (state.move side stand).stand side.other = state.stand side.other :=
  Function.update_of_ne side.other_ne ..

omit [DecidableEq Pipe] in
@[simp] theorem move_other_stand : (state.move side.other stand).stand side = state.stand side :=
  Function.update_of_ne side.other_ne.symm ..

@[simp] theorem put_bytes_self : (state.put pipe bytes).bytes pipe = bytes := Function.update_self ..

theorem put_bytes_of_ne {other : Pipe} (different : other ≠ pipe) :
    (state.put pipe bytes).bytes other = state.bytes other :=
  Function.update_of_ne different ..

@[simp] theorem come_stand_self : (state.come side pipe next).stand side = .opening pipe next :=
  Function.update_self ..

@[simp] theorem come_stand_other : (state.come side pipe next).stand side.other = state.stand side.other :=
  Function.update_of_ne side.other_ne ..

@[simp] theorem come_other_stand : (state.come side.other pipe next).stand side = state.stand side :=
  Function.update_of_ne side.other_ne.symm ..

@[simp] theorem come_arrived_self :
    (state.come side pipe next).arrived side = Function.update (state.arrived side) pipe true :=
  Function.update_self ..

@[simp] theorem come_arrived_other : (state.come side pipe next).arrived side.other = state.arrived side.other :=
  Function.update_of_ne side.other_ne ..

@[simp] theorem come_other_arrived : (state.come side.other pipe next).arrived side = state.arrived side :=
  Function.update_of_ne side.other_ne.symm ..

omit [DecidableEq Pipe] in
theorem move_lateness : (state.move side stand).lateness + late (state.stand side) = state.lateness + late stand := by
  cases side with
  | left =>
    show late stand + late (state.stand .right) + _ = late (state.stand .left) + late (state.stand .right) + _
    omega
  | right =>
    show late (state.stand .left) + late stand + _ = late (state.stand .left) + late (state.stand .right) + _
    omega

end Updates

section Lateness

omit [DecidableEq Pipe] in
theorem lateness_pass (here : state.stand side = .opening pipe control) :
    (state.move side (.ready control)).lateness + 1 = state.lateness := by
  have moved := move_lateness state side (.ready control)
  rw [here] at moved
  exact moved

theorem lateness_come (here : state.stand side = .ready control) :
    (state.come side pipe after).lateness = state.lateness + 1 := by
  have moved := move_lateness state side (.opening pipe after)
  rw [here] at moved
  exact moved

omit [DecidableEq Pipe] in
theorem lateness_ready (here : state.stand side = .ready control) :
    (state.move side (.ready after)).lateness = state.lateness := by
  have moved := move_lateness state side (.ready after)
  rw [here] at moved
  exact moved

end Lateness

section Standing
variable {later : State Pipe Byte Control} {there : Control}

omit [DecidableEq Pipe] in
theorem Settled.eq_of_ready (settled : Settled state side there) (here : state.stand side = .ready control) :
    there = control := by
  cases settled with
  | ready stands =>
    rw [stands] at here
    exact Stand.ready.inj here
  | passing stands =>
    rw [stands] at here
    cases here

omit [DecidableEq Pipe] in
theorem Settled.keep (settled : Settled state side there) (stands : later.stand side = state.stand side)
    (arrived : ∀ pipe, state.arrived side.other pipe = true → later.arrived side.other pipe = true) :
    Settled later side there := by
  cases settled with
  | ready here => exact .ready (stands.trans here)
  | passing here came => exact .passing (stands.trans here) (arrived _ came)

omit [DecidableEq Pipe] in
theorem Settled.pass (settled : Settled state side there) (here : state.stand side = .opening pipe control) :
    Settled (state.move side (.ready control)) side there := by
  cases settled with
  | ready stands =>
    rw [stands] at here
    cases here
  | passing stands =>
    rw [stands] at here
    cases here
    exact .ready (move_stand_self ..)

omit [DecidableEq Pipe] in
theorem Attends.not_opens (attends : Attends parties side control) : parties.act control ≠ .opens pipe after := by
  intro acts
  rcases attends with halts | ⟨_, _, _, _, reads⟩
  · rw [acts] at halts
    cases halts
  · rw [acts] at reads
    cases reads

omit [DecidableEq Pipe] in
theorem Attends.not_sends (attends : Attends parties side control) : parties.act control ≠ .send pipe message after := by
  intro acts
  rcases attends with halts | ⟨_, _, _, _, reads⟩
  · rw [acts] at halts
    cases halts
  · rw [acts] at reads
    cases reads

end Standing

/-! Each step keeps the parties near, for a smaller budget. -/

section Steps

theorem Near.pass (near : Near parties outcome state budget) (here : state.stand side = .opening pipe control)
    (arrived : state.arrived side.other pipe = true) :
    ∃ less < budget, Near parties outcome (state.move side (.ready control)) less := by
  have less := lateness_pass here
  refine ⟨budget - 1, ?_⟩
  cases near with
  | level settled opened empty converses bound =>
    refine ⟨by omega, .level (fun actor => ?_) opened empty converses (by omega)⟩
    rcases side.eq_or actor with same | same
    · subst same
      exact (settled actor).pass here
    · subst same
      exact (settled side.other).keep (move_stand_other ..) fun _ => id
  | waiting waiter stands settled acts closed came absent empty converses bound =>
    rcases waiter.eq_or side with same | same
    · subst same
      rw [stands] at here
      cases here
      rw [absent, closed] at arrived
      cases arrived
    · subst same
      exact ⟨by omega, .waiting waiter ((move_other_stand ..).trans stands) (settled.pass here) acts closed came absent
        empty converses (by omega)⟩
  | ahead sender stands attends settled acts answers writes held short opened present others converses bound =>
    rcases sender.eq_or side with same | same
    · subst same
      rw [stands] at here
      cases here
    · subst same
      exact ⟨by omega, .ahead sender ((move_other_stand ..).trans stands) attends (settled.pass here) acts answers writes
        held short opened present others converses (by omega)⟩

theorem Near.come (near : Near parties outcome state budget) (here : state.stand side = .ready control)
    (acts : parties.act control = .opens pipe after) :
    ∃ less < budget, Near parties outcome (state.come side pipe after) less := by
  have more := @lateness_come _ _ _ _ state side control after pipe here
  refine ⟨budget - 1, ?_⟩
  cases near with
  | level settled same empty converses bound =>
    have there := (settled side).eq_of_ready here
    cases converses with
    | rests attends => exact absurd (there ▸ acts) (attends side).not_opens
    | meets meets rest =>
      cases meets with
      | opens closed opens =>
        have agree := opens side
        rw [there, acts] at agree
        cases agree
        refine ⟨by omega, .waiting side (come_stand_self ..) ?_ (opens side.other) closed ?_ ?_ empty rest (by omega)⟩
        · apply (settled side.other).keep (come_stand_other ..)
          intro _ arrived
          rw [Side.other_other] at arrived ⊢
          rw [come_arrived_self, Function.update_apply, arrived, ite_self]
        · rw [come_arrived_self, same]
        · rw [come_arrived_other, same]
      | message sender _ _ _ _ _ sends reads =>
        rcases sender.eq_or side with actor | actor
        · subst actor
          rw [there, acts] at sends
          cases sends
        · subst actor
          rw [there, acts] at reads
          cases reads
  | waiting waiter stands settled opens closed came absent empty converses bound =>
    rcases waiter.eq_or side with actor | actor
    · subst actor
      rw [stands] at here
      cases here
    · subst actor
      rw [settled.eq_of_ready here, acts] at opens
      cases opens
      refine ⟨by omega, .level (fun actor => ?_) (fun actor => ?_) empty converses (by omega)⟩
      · rcases waiter.eq_or actor with same | same
        · subst same
          apply Settled.passing ((come_other_stand ..).trans stands)
          rw [come_arrived_self, Function.update_self]
        · subst same
          apply Settled.passing (come_stand_self ..)
          rw [come_arrived_other, Side.other_other, came, Function.update_self]
      · rcases waiter.eq_or actor with same | same
        · subst same
          rw [come_other_arrived, came]
        · subst same
          rw [come_arrived_self, absent]
  | ahead sender stands attends settled reads =>
    rcases sender.eq_or side with actor | actor
    · subst actor
      rw [stands] at here
      cases here
      exact absurd acts attends.not_opens
    · subst actor
      rw [settled.eq_of_ready here, acts] at reads
      cases reads

theorem Near.send (near : Near parties outcome state budget) (here : state.stand side = .ready control)
    (acts : parties.act control = .send pipe message after) :
    state.bytes pipe = [] ∧ message ≠ [] ∧
      ∃ less < budget, Near parties outcome ((state.move side (.ready after)).put pipe (state.bytes pipe ++ message)) less := by
  have kept := @lateness_ready _ _ _ state side control after here
  cases near with
  | level settled same empty converses bound =>
    have there := (settled side).eq_of_ready here
    cases converses with
    | rests attends => exact absurd (there ▸ acts) (attends side).not_sends
    | meets meets rest =>
      cases meets with
      | opens closed opens =>
        have agree := opens side
        rw [there, acts] at agree
        cases agree
      | message sender writes present some short fits sends reads answers attends =>
        rcases sender.eq_or side with actor | actor
        · subst actor
          have held := put_bytes_self (state.move side (.ready after)) pipe message
          rw [there, acts] at sends
          cases sends
          rw [empty, List.nil_append]
          refine ⟨rfl, some, budget - 1, by omega, .ahead side (move_stand_self ..) attends ?_ reads ?_ writes ?_ ?_ same
            present ?_ rest ?_⟩
          · exact (settled side.other).keep (move_stand_other ..) fun _ => id
          · rw [held, answers]
          · rwa [held]
          · rwa [held]
          · intro other different
            exact (put_bytes_of_ne _ _ _ different).trans (empty other)
          · show _ + (state.move side (.ready _)).lateness ≤ _
            omega
        · subst actor
          rw [there, acts] at reads
          cases reads
  | waiting waiter stands settled opens =>
    rcases waiter.eq_or side with actor | actor
    · subst actor
      rw [stands] at here
      cases here
    · subst actor
      rw [settled.eq_of_ready here, acts] at opens
      cases opens
  | ahead sender stands attends settled reads =>
    rcases sender.eq_or side with actor | actor
    · subst actor
      rw [stands] at here
      cases here
      exact absurd acts attends.not_sends
    · subst actor
      rw [settled.eq_of_ready here, acts] at reads
      cases reads

theorem Near.receive {answer : List Byte → Control} (near : Near parties outcome state budget)
    (here : state.stand side = .ready control) (acts : parties.act control = .receive pipe size answer)
    (held : state.bytes pipe ≠ []) :
    (state.bytes pipe).length ≤ size ∧ ∃ less < budget, Near parties outcome
      ((state.move side (.ready (answer ((state.bytes pipe).take size)))).put pipe ((state.bytes pipe).drop size)) less := by
  cases near with
  | level _ _ empty => exact absurd (empty pipe) held
  | waiting _ _ _ _ _ _ _ empty => exact absurd (empty pipe) held
  | @ahead opened there carrier size answer next left sender stands attends settled reads answers writes some short same present others converses bound =>
    have only : pipe = carrier := by
      by_contra different
      exact held (others pipe different)
    subst only
    rcases sender.eq_or side with actor | actor
    · subst actor
      rw [stands] at here
      cases here
      rcases attends with halts | ⟨other, _, _, reader, reads⟩
      · rw [acts] at halts
        cases halts
      · rw [acts] at reads
        cases reads
        rw [writes] at reader
        exact absurd reader.symm side.other_ne
    · subst actor
      rw [settled.eq_of_ready here, acts] at reads
      cases reads
      have kept := @lateness_ready _ _ _ state sender.other control (answer (state.bytes pipe)) here
      rw [List.take_of_length_le short, List.drop_of_length_le short]
      refine ⟨short, budget - 1, by omega, .level (fun actor => ?_) same (fun other => ?_) converses ?_⟩
      · rcases sender.eq_or actor with same' | same'
        · subst same'
          exact .ready ((move_other_stand ..).trans stands)
        · subst same'
          rw [answers]
          exact .ready (move_stand_self ..)
      · by_cases same' : other = pipe
        · subst same'
          exact put_bytes_self ..
        · exact (put_bytes_of_ne _ _ _ same').trans (others other same')
      · show _ + (state.move sender.other (.ready (answer (state.bytes pipe)))).lateness ≤ _
        omega

theorem Near.stepped {event : Event Pipe Byte} (near : Near parties outcome state budget)
    (stepped : Stepped parties state side next event) : ∃ less < budget, Near parties outcome next less := by
  cases stepped with
  | pass here arrived => exact near.pass here arrived
  | come here acts => exact near.come here acts
  | send here acts => exact (near.send here acts).2.2
  | receive here acts _ held => exact (near.receive here acts held).2

end Steps

/-! The messages of a pipe. -/

section Messages
variable {event : Event Pipe Byte} {trace later : List (Event Pipe Byte)}

def Event.sentTo (pipe : Pipe) : Event Pipe Byte → Option (List Byte)
  | .sent other message => if other = pipe then some message else none
  | _ => none

def Event.receivedFrom (pipe : Pipe) : Event Pipe Byte → Option (List Byte)
  | .received other message => if other = pipe then some message else none
  | _ => none

/-- The messages written to the pipe. -/
def sentOn (pipe : Pipe) (trace : List (Event Pipe Byte)) : List (List Byte) := trace.filterMap (Event.sentTo pipe)

/-- What the reads of the pipe returned. -/
def receivedOn (pipe : Pipe) (trace : List (Event Pipe Byte)) : List (List Byte) :=
  trace.filterMap (Event.receivedFrom pipe)

/-- The bytes in a pipe as one message. -/
def inFlight (bytes : List Byte) : List (List Byte) := if bytes = [] then [] else [bytes]

theorem sentOn_append (pipe : Pipe) (trace later : List (Event Pipe Byte)) :
    sentOn pipe (trace ++ later) = sentOn pipe trace ++ sentOn pipe later := List.filterMap_append ..

theorem receivedOn_append (pipe : Pipe) (trace later : List (Event Pipe Byte)) :
    receivedOn pipe (trace ++ later) = receivedOn pipe trace ++ receivedOn pipe later := List.filterMap_append ..

omit [DecidableEq Pipe] in
theorem inFlight_nil : inFlight ([] : List Byte) = [] := if_pos rfl

omit [DecidableEq Pipe] in
theorem inFlight_some (some : message ≠ []) : inFlight message = [message] := if_neg some

/-- A write finds the pipe empty, and a read empties it. -/
theorem Near.flow (near : Near parties outcome state budget) (stepped : Stepped parties state side next event)
    (pipe : Pipe) : inFlight (state.bytes pipe) ++ sentOn pipe [event] = receivedOn pipe [event] ++ inFlight (next.bytes pipe) := by
  cases stepped with
  | pass | come => exact List.append_nil _
  | @send _ carrier message _ here acts =>
    obtain ⟨empty, some, _⟩ := near.send here acts
    by_cases same : carrier = pipe
    · subst same
      rw [put_bytes_self, empty, inFlight_nil, List.nil_append, List.nil_append, inFlight_some some]
      simp [sentOn, receivedOn, Event.sentTo, Event.receivedFrom]
    · rw [put_bytes_of_ne _ _ _ (Ne.symm same)]
      simp [sentOn, receivedOn, Event.sentTo, Event.receivedFrom, same, State.move]
  | @receive _ carrier _ _ here acts _ held =>
    obtain ⟨short, _⟩ := near.receive here acts held
    rw [List.take_of_length_le short, List.drop_of_length_le short]
    by_cases same : carrier = pipe
    · subst same
      rw [put_bytes_self, inFlight_nil, inFlight_some held]
      simp [sentOn, receivedOn, Event.sentTo, Event.receivedFrom]
    · rw [put_bytes_of_ne _ _ _ (Ne.symm same)]
      simp [sentOn, receivedOn, Event.sentTo, Event.receivedFrom, same, State.move]

end Messages

/-! Runs. -/

section Runs
variable {trace : List (Event Pipe Byte)} {controls : Side → Control} {left : Nat} {there : Control}

theorem AtRest.not_stepped {event : Event Pipe Byte} (rest : AtRest parties state) :
    ¬Stepped parties state side next event := by
  intro stepped
  have taken := step_of_stepped stepped
  rw [rest side] at taken
  cases taken

theorem Settled.of_rest (settled : Settled state side there) (rest : AtRest parties state) :
    state.stand side = .ready there := by
  cases settled with
  | ready stands => exact stands
  | passing stands arrived => exact absurd (.pass stands arrived) rest.not_stepped

/-- Near parties that cannot move have come to the outcome. -/
theorem Near.of_rest (near : Near parties outcome state budget) (rest : AtRest parties state) (side : Side) :
    state.stand side = .ready (outcome side) := by
  cases near with
  | level settled same empty converses =>
    have stands := fun side => (settled side).of_rest rest
    cases converses with
    | rests => exact stands side
    | meets meets =>
      cases meets with
      | opens _ opens => exact absurd (.come (stands side) (opens side)) rest.not_stepped
      | message sender _ present _ _ fits sends =>
        have arrived := (congrFun (same sender) _).trans present
        refine absurd (.send (stands sender) sends arrived ?_) rest.not_stepped
        rw [empty, List.length_nil, Nat.zero_add]
        exact fits
  | waiting waiter _ settled opens => exact absurd (.come (settled.of_rest rest) opens) rest.not_stepped
  | ahead sender _ _ settled reads _ _ held _ same present =>
    have arrived := (congrFun (same sender.other) _).trans present
    exact absurd (.receive (settled.of_rest rest) reads arrived held) rest.not_stepped

theorem near_initial (converses : Converses parties outcome (fun _ => false) controls left) :
    Near parties outcome (initial controls : State Pipe Byte Control) (4 * left) :=
  .level (fun _ => .ready rfl) (fun _ => rfl) (fun _ => rfl) converses (Nat.le_refl _)

/-- A run keeps the parties near and takes its steps out of the budget. -/
theorem near_of_run (converses : Converses parties outcome (fun _ => false) controls left)
    (run : Run (machine parties) Always (initial controls) trace state) :
    (∃ budget, trace.length + budget ≤ 4 * left ∧ Near parties outcome state budget) ∧
      ∀ pipe, sentOn pipe trace = receivedOn pipe trace ++ inFlight (state.bytes pipe) := by
  apply run.induct (fun trace state => (∃ budget, trace.length + budget ≤ 4 * left ∧ Near parties outcome state budget) ∧
    ∀ pipe, sentOn pipe trace = receivedOn pipe trace ++ inFlight (state.bytes pipe))
  · exact ⟨⟨4 * left, by simp, near_initial converses⟩, fun _ => rfl⟩
  · rintro trace state side next ⟨⟨budget, bound, near⟩, framed⟩ _ taken
    obtain ⟨event, observed, stepped⟩ := stepped_of_step taken
    obtain ⟨less, below, near'⟩ := near.stepped stepped
    rw [observed]
    constructor
    · refine ⟨less, ?_, near'⟩
      rw [List.length_append, List.length_singleton]
      omega
    · intro pipe
      calc
        _ = receivedOn pipe trace ++ (inFlight (state.bytes pipe) ++ sentOn pipe [event]) := by
          rw [sentOn_append, framed, List.append_assoc]
        _ = receivedOn pipe (trace ++ [event]) ++ inFlight (next.bytes pipe) := by
          rw [near.flow stepped, receivedOn_append, List.append_assoc]

/-- Near parties can go on until neither can move. -/
theorem Near.reaches_rest (near : Near parties outcome state budget) :
    ∃ later last, Run (machine parties) Always state later last ∧ AtRest parties last := by
  induction budget using Nat.strongRecOn generalizing state with
  | _ budget ih =>
    by_cases rest : AtRest parties state
    · exact ⟨[], state, .refl, rest⟩
    · obtain ⟨side, moves⟩ := not_forall.mp rest
      obtain ⟨next, taken⟩ := Option.ne_none_iff_exists'.mp moves
      obtain ⟨_, _, stepped⟩ := stepped_of_step taken
      obtain ⟨less, below, near'⟩ := near.stepped stepped
      obtain ⟨later, last, run, ended⟩ := ih less below near'
      exact ⟨_, last, (Run.single trivial taken).append run, ended⟩

theorem run_reaches_rest (converses : Converses parties outcome (fun _ => false) controls left)
    (run : Run (machine parties) Always (initial controls) trace state) :
    ∃ later last, Run (machine parties) Always state later last ∧ AtRest parties last := by
  obtain ⟨⟨_, _, near⟩, _⟩ := near_of_run converses run
  exact near.reaches_rest

/-- Every dialogue ends within its budget, however the parties are scheduled. -/
theorem run_bounded (converses : Converses parties outcome (fun _ => false) controls left)
    (run : Run (machine parties) Always (initial controls) trace state) : trace.length ≤ 4 * left := by
  obtain ⟨⟨_, bound, _⟩, _⟩ := near_of_run converses run
  omega

theorem run_outcome (converses : Converses parties outcome (fun _ => false) controls left)
    (run : Run (machine parties) Always (initial controls) trace state) (rest : AtRest parties state) (side : Side) :
    state.stand side = .ready (outcome side) := by
  obtain ⟨⟨_, _, near⟩, _⟩ := near_of_run converses run
  exact near.of_rest rest side

/-- Each read returns one message, whole, in the order of the writes. -/
theorem run_framed (converses : Converses parties outcome (fun _ => false) controls left)
    (run : Run (machine parties) Always (initial controls) trace state) (pipe : Pipe) :
    sentOn pipe trace = receivedOn pipe trace ++ inFlight (state.bytes pipe) :=
  (near_of_run converses run).2 pipe

end Runs

end IstKvs.Dialogue
