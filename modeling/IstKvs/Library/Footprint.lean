import Mathlib.Data.Set.Function
import Mathlib.Tactic.Common

/-! Programs on one map, whose commands are interleaved. A command confined to a set of
keys reads and writes there only; programs that keep to disjoint sets cannot tell the
interleavings of their commands apart. -/

namespace IstKvs.Footprint

variable {ι κ ν α ω : Type*}

/-- What a command makes of the map, and what it shows. -/
abbrev Semantics (κ ν α ω : Type*) := α → (κ → ν) → (κ → ν) × List ω

/-- The command reads and writes keys of the set only. -/
structure Confined (exec : Semantics κ ν α ω) (keys : Set κ) (command : α) : Prop where
  frame : ∀ store, ∀ key ∉ keys, (exec command store).1 key = store key
  writes : ∀ {store store'}, Set.EqOn store store' keys →
    Set.EqOn (exec command store).1 (exec command store').1 keys
  shows : ∀ {store store'}, Set.EqOn store store' keys →
    (exec command store).2 = (exec command store').2

/-- One program that runs alone. -/
def alone (exec : Semantics κ ν α ω) : (κ → ν) → List α → (κ → ν) × List ω
  | store, [] => (store, [])
  | store, command :: commands =>
      let last := alone exec (exec command store).1 commands
      (last.1, (exec command store).2 ++ last.2)

/-- Commands of several programs in one order, and what each program shows. -/
def together [DecidableEq ι] (exec : Semantics κ ν α ω) :
    (κ → ν) → List (ι × α) → (κ → ν) × (ι → List ω)
  | store, [] => (store, fun _ => [])
  | store, (program, command) :: order =>
      let last := together exec (exec command store).1 order
      (last.1, Function.update last.2 program ((exec command store).2 ++ last.2 program))

/-- The commands of one program, in their order. -/
def own [DecidableEq ι] (program : ι) (order : List (ι × α)) : List α :=
  (order.filter fun step => step.1 = program).map Prod.snd

section Own
variable [DecidableEq ι] {program other : ι} {command : α} {order : List (ι × α)}

theorem own_cons_self : own program ((program, command) :: order) = command :: own program order := by
  simp [own]

theorem own_cons_of_ne (different : other ≠ program) :
    own program ((other, command) :: order) = own program order := by
  simp [own, different]

theorem mem_own : command ∈ own program order ↔ (program, command) ∈ order := by
  simp [own]

theorem own_append (later : List (ι × α)) : own program (order ++ later) = own program order ++ own program later := by
  simp [own]

theorem own_tagged (commands : List α) : own program (commands.map (Prod.mk program)) = commands := by
  induction commands with
  | nil => rfl
  | cons command commands ih => rw [List.map_cons, own_cons_self, ih]

theorem own_tagged_of_ne (different : other ≠ program) (commands : List α) :
    own program (commands.map (Prod.mk other)) = [] := by
  induction commands with
  | nil => rfl
  | cons command commands ih => rw [List.map_cons, own_cons_of_ne different, ih]

theorem own_filter (wanted : α → Bool) : own program (order.filter fun step => wanted step.2) = (own program order).filter wanted := by
  induction order with
  | nil => rfl
  | cons step order ih =>
    obtain ⟨other, command⟩ := step
    by_cases same : other = program
    · subst same
      cases kept : wanted command <;> simp [own_cons_self, kept, ih]
    · cases kept : wanted command <;> simp [own_cons_of_ne same, kept, ih]

end Own

section Disjoint
variable [DecidableEq ι] {exec : Semantics κ ν α ω} {keys : ι → Set κ} {order order' : List (ι × α)}
  {store store' : κ → ν}

/-- A program finds its keys as if it ran alone, and shows the same. -/
theorem together_own (disjoint : ∀ first second, first ≠ second → ∀ key ∈ keys first, key ∉ keys second)
    (confined : ∀ step ∈ order, Confined exec (keys step.1) step.2) (program : ι)
    (same : Set.EqOn store store' (keys program)) :
    Set.EqOn (together exec store order).1 (alone exec store' (own program order)).1 (keys program) ∧
      (together exec store order).2 program = (alone exec store' (own program order)).2 := by
  induction order generalizing store store' with
  | nil => exact ⟨same, rfl⟩
  | cons step order ih =>
    obtain ⟨other, command⟩ := step
    obtain ⟨here, later⟩ := List.forall_mem_cons.mp confined
    by_cases different : other = program
    · subst different
      obtain ⟨stores, shown⟩ := ih later (here.writes same)
      rw [own_cons_self]
      refine ⟨stores, ?_⟩
      simp only [together, alone, Function.update_self, here.shows same, shown]
    · have untouched : Set.EqOn (exec command store).1 store' (keys program) := fun key inside =>
        (here.frame store key (disjoint program other (Ne.symm different) key inside)).trans (same inside)
      obtain ⟨stores, shown⟩ := ih later untouched
      rw [own_cons_of_ne different]
      refine ⟨stores, ?_⟩
      simp only [together, Function.update_of_ne (Ne.symm different), shown]

theorem together_outside (confined : ∀ step ∈ order, Confined exec (keys step.1) step.2) {key : κ}
    (outside : ∀ program, key ∉ keys program) : (together exec store order).1 key = store key := by
  induction order generalizing store with
  | nil => rfl
  | cons step order ih =>
    obtain ⟨here, later⟩ := List.forall_mem_cons.mp confined
    exact (ih later).trans (here.frame store key (outside step.1))

/-- Two orders of the same programs end in the same map, and each program shows the same. -/
theorem together_congr (disjoint : ∀ first second, first ≠ second → ∀ key ∈ keys first, key ∉ keys second)
    (confined : ∀ step ∈ order, Confined exec (keys step.1) step.2)
    (reordered : ∀ program, own program order = own program order') (store : κ → ν) :
    together exec store order = together exec store order' := by
  have confined' : ∀ step ∈ order', Confined exec (keys step.1) step.2 := by
    intro step member
    have here : step.2 ∈ own step.1 order' := mem_own.mpr member
    rw [← reordered] at here
    exact confined _ (mem_own.mp here)
  have each (program : ι) := together_own disjoint confined program (Set.eqOn_refl store _)
  have each' (program : ι) := together_own disjoint confined' program (Set.eqOn_refl store _)
  apply Prod.ext
  · funext key
    by_cases inside : ∃ program, key ∈ keys program
    · obtain ⟨program, inside⟩ := inside
      calc (together exec store order).1 key
          = (alone exec store (own program order)).1 key := (each program).1 inside
        _ = (alone exec store (own program order')).1 key := by rw [reordered]
        _ = (together exec store order').1 key := ((each' program).1 inside).symm
    · have outside := not_exists.mp inside
      exact (together_outside confined outside).trans (together_outside confined' outside).symm
  · funext program
    rw [(each program).2, (each' program).2, reordered]

end Disjoint

end IstKvs.Footprint
