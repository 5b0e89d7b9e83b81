import IstKvs.Library.CommandLogic
import IstKvs.Library.Footprint

/-! What a party cannot tell of the others. Parties give commands to one state in some
order. Where the commands of the others leave alone what a party can see of the state, the
party finds what it would find alone. -/

namespace IstKvs.Noninterference
open CommandLogic Footprint

variable {Party Command State Output Seen : Type} [Monoid Output] [DecidableEq Party]

/-- What the commands of a script put out, one after the other. -/
def outputs (exec : Semantics Command State Output) : List Command → State → List Output
  | [], _ => []
  | command :: script, state => (exec command state).2 :: outputs exec script (exec command state).1

/-- What the commands of one party put out. -/
def share (exec : Semantics Command State Output) (party : Party) : List (Party × Command) → State → List Output
  | [], _ => []
  | (other, command) :: order, state =>
      (if other = party then [(exec command state).2] else []) ++ share exec party order (exec command state).1

/-- States are alike where the party sees the same: the commands of the others change
nothing that it sees, and its own do and show the same in states that are alike. -/
structure Unwinding (exec : Semantics Command State Output) (Alike : State → State → Prop) (see : Output → Seen)
    (mine theirs : Command → Prop) : Prop where
  unseen : ∀ {command state state'}, theirs command → Alike state state' → Alike (exec command state).1 state'
  alike : ∀ {command state state'}, mine command → Alike state state' →
    Alike (exec command state).1 (exec command state').1
  shows : ∀ {command state state'}, mine command → Alike state state' →
    see (exec command state).2 = see (exec command state').2

variable {exec : Semantics Command State Output} {Alike : State → State → Prop} {see : Output → Seen}
  {mine theirs : Command → Prop} {party : Party} {order : List (Party × Command)} {state state' : State}

theorem outputs_prod (script : List Command) (state : State) : (outputs exec script state).prod = (run exec script state).2 := by
  induction script generalizing state with
  | nil => rfl
  | cons command script ih => rw [outputs, List.prod_cons, ih, run_cons]

/-- The party leaves, of what it sees, what it leaves alone, and sees the same on the way. -/
theorem Unwinding.alone (unwinding : Unwinding exec Alike see mine theirs)
    (kinds : ∀ step ∈ order, if step.1 = party then mine step.2 else theirs step.2) (same : Alike state state') :
    Alike (run exec (order.map Prod.snd) state).1 (run exec (own party order) state').1 ∧
      (share exec party order state).map see = (outputs exec (own party order) state').map see := by
  induction order generalizing state state' with
  | nil => exact ⟨same, rfl⟩
  | cons step order ih =>
    obtain ⟨other, command⟩ := step
    obtain ⟨kind, kinds'⟩ := List.forall_mem_cons.mp kinds
    rw [List.map_cons, run_cons, share]
    by_cases here : other = party
    · subst here
      rw [if_pos rfl] at kind ⊢
      obtain ⟨alike, shown⟩ := ih kinds' (unwinding.alike kind same)
      rw [own_cons_self, run_cons, outputs, List.map_append, List.map_cons, shown]
      refine ⟨alike, ?_⟩
      rw [List.map_cons, List.map_nil, unwinding.shows kind same]
      rfl
    · rw [if_neg here] at kind ⊢
      rw [own_cons_of_ne here, List.nil_append]
      exact ih kinds' (unwinding.unseen kind same)

omit [Monoid Output] in
/-- Where commands set keys, states are alike that give the party's keys the same values. -/
theorem unwinding_of_sets {Key Value : Type} {lookup : State → Key → Value} {sets : Command → Key → Option Value}
    {keys : List Key} (settles : Sets exec lookup sets)
    (shows : ∀ {command state state'}, mine command → (∀ key ∈ keys, lookup state key = lookup state' key) →
      see (exec command state).2 = see (exec command state').2) :
    Unwinding exec (fun state state' => ∀ key ∈ keys, lookup state key = lookup state' key) see mine
      (fun command => ∀ key ∈ keys, sets command key = none) where
  unseen := by
    intro command state state' untouched same key member
    rw [settles, untouched key member]
    exact same key member
  alike := by
    intro command state state' _ same key member
    rw [settles, settles, same key member]
  shows := shows

end IstKvs.Noninterference
