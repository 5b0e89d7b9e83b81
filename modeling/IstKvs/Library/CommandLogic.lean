import Mathlib.Algebra.Group.Defs
import Mathlib.Data.List.Basic

/-! A language of commands that change a state and put out something, one after the other,
and logics of pre- and postconditions for it. Assertions speak of the state and of all that
has been put out. A logic is given by its rules for single commands; where these are true,
and enough for each command, it derives exactly the triples that hold. -/

namespace IstKvs.CommandLogic

variable {Command State Output : Type} [Monoid Output]

/-- What a command makes of the state, and what it puts out. -/
abbrev Semantics (Command State Output : Type) := Command → State → State × Output

def run (exec : Semantics Command State Output) : List Command → State → State × Output
  | [], state => (state, 1)
  | command :: script, state =>
      let first := exec command state
      let rest := run exec script first.1
      (rest.1, first.2 * rest.2)

abbrev Assertion (State Output : Type) := State → Output → Prop

/-- The triples that are known of single commands. -/
abbrev Rules (Command State Output : Type) := Assertion State Output → Command → Assertion State Output → Prop

variable (exec : Semantics Command State Output) (rules : Rules Command State Output)

/-- From the precondition the script comes to the postcondition. -/
def Valid (pre : Assertion State Output) (script : List Command) (post : Assertion State Output) : Prop :=
  ∀ state output, pre state output → post (run exec script state).1 (output * (run exec script state).2)

/-- The weakest precondition of one command. -/
def before (command : Command) (post : Assertion State Output) : Assertion State Output :=
  fun state output => post (exec command state).1 (output * (exec command state).2)

inductive Derives : Assertion State Output → List Command → Assertion State Output → Prop where
  | nothing {post} : Derives post [] post
  | command {pre command post} : rules pre command post → Derives pre [command] post
  | append {pre middle post script later} : Derives pre script middle → Derives middle later post →
      Derives pre (script ++ later) post
  | weaken {pre pre' post post' script} : (∀ state output, pre state output → pre' state output) →
      Derives pre' script post' → (∀ state output, post' state output → post state output) → Derives pre script post
  | cases {Index : Type} {pre : Index → Assertion State Output} {script post} : (∀ index, Derives (pre index) script post) →
      Derives (fun state output => ∃ index, pre index state output) script post

/-- The rules tell of the commands only what they do. -/
def Sound : Prop := ∀ pre command post, rules pre command post → Valid exec pre [command] post

/-- Each command can be gone through, whatever is to hold behind it. -/
def Enough : Prop := ∀ command post, Derives rules (before exec command post) [command] post

variable {exec rules} {pre middle post : Assertion State Output} {script later : List Command} {command : Command}
  {state : State}

theorem run_cons : run exec (command :: script) state =
    ((run exec script (exec command state).1).1, (exec command state).2 * (run exec script (exec command state).1).2) := rfl

theorem run_append (script later : List Command) (state : State) : run exec (script ++ later) state =
    ((run exec later (run exec script state).1).1,
      (run exec script state).2 * (run exec later (run exec script state).1).2) := by
  induction script generalizing state with
  | nil => exact Prod.ext rfl (one_mul _).symm
  | cons command script ih =>
    rw [List.cons_append, run_cons, run_cons, ih]
    exact Prod.ext rfl (mul_assoc ..).symm

theorem run_single : run exec [command] state = exec command state :=
  Prod.ext rfl (mul_one _)

theorem valid_single : Valid exec pre [command] post ↔
    ∀ state output, pre state output → before exec command post state output := by
  unfold Valid before
  simp only [run_single]

theorem Valid.append (first : Valid exec pre script middle) (second : Valid exec middle later post) :
    Valid exec pre (script ++ later) post := by
  intro state output holds
  have reached := second _ _ (first state output holds)
  rw [mul_assoc] at reached
  rwa [run_append]

/-! Sound rules that are enough derive what holds. -/

theorem valid_of_derives (sound : Sound exec rules) (derives : Derives rules pre script post) :
    Valid exec pre script post := by
  induction derives with
  | nothing =>
    intro state output holds
    rw [run, mul_one]
    exact holds
  | command known => exact sound _ _ _ known
  | append _ _ first second => exact first.append second
  | weaken stronger _ weaker ih => exact fun state output holds => weaker _ _ (ih state output (stronger state output holds))
  | cases _ ih => exact fun state output ⟨index, holds⟩ => ih index state output holds

/-- A script is derived from its end. -/
theorem Derives.cons (enough : Enough exec rules) (derives : Derives rules middle script post) :
    Derives rules (before exec command middle) (command :: script) post :=
  .append (enough command middle) derives

theorem derives_weakest (enough : Enough exec rules) (script : List Command) (post : Assertion State Output) :
    Derives rules (fun state output => post (run exec script state).1 (output * (run exec script state).2)) script post := by
  induction script with
  | nil =>
    apply Derives.weaken (fun _ _ holds => ?_) .nothing fun _ _ => id
    rwa [run, mul_one] at holds
  | cons command script ih =>
    apply Derives.weaken (fun state output holds => ?_) (ih.cons enough) fun _ _ => id
    rw [run_cons, ← mul_assoc] at holds
    exact holds

theorem derives_iff_valid (sound : Sound exec rules) (enough : Enough exec rules) :
    Derives rules pre script post ↔ Valid exec pre script post :=
  ⟨valid_of_derives sound, fun valid => (derives_weakest enough script post).weaken valid fun _ _ => id⟩

/-! States with keys, where a command sets some of them. -/

section Keys
variable {Key Value : Type} {lookup : State → Key → Value} {sets : Command → Key → Option Value} {key : Key}

/-- A command gives a key the value it sets, and leaves the others. -/
def Sets (exec : Semantics Command State Output) (lookup : State → Key → Value) (sets : Command → Key → Option Value) : Prop :=
  ∀ command state key, lookup (exec command state).1 key = (sets command key).getD (lookup state key)

/-- What the script sets the key to last. -/
def lastSet (sets : Command → Key → Option Value) (key : Key) : List Command → Option Value
  | [] => none
  | command :: script => (lastSet sets key script).or (sets command key)

/-- Behind a script a key has the value that was set last. -/
theorem lookup_run (settles : Sets exec lookup sets) (script : List Command) (state : State) (key : Key) :
    lookup (run exec script state).1 key = (lastSet sets key script).getD (lookup state key) := by
  induction script generalizing state with
  | nil => rfl
  | cons command script ih =>
    rw [run_cons, ih, settles, lastSet]
    cases lastSet sets key script <;> rfl

end Keys

end IstKvs.CommandLogic
