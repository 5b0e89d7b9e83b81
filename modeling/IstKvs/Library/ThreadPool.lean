import Mathlib.Algebra.BigOperators.Fin
import Mathlib.Algebra.Order.BigOperators.Group.Finset
import Mathlib.Data.Fintype.BigOperators

/-! Facts about a family of threads that one thread's step changes at one place.
A weight read off each thread's local state is summed over the family, and the
step moves the sum by the change of its own weight. A resource read off each
local state is held exclusively when no two threads hold the same one. -/

namespace IstKvs.ThreadPool

variable {Thread Local : Type}

section Total
variable [Fintype Thread]

def total (weight : Local → Nat) (pool : Thread → Local) : Nat :=
  ∑ thread, weight (pool thread)

theorem total_update [DecidableEq Thread] (weight : Local → Nat) (pool : Thread → Local) (thread : Thread) (next : Local) :
    total weight (Function.update pool thread next) + weight (pool thread) =
      total weight pool + weight next := by
  have others : ∑ other ∈ Finset.univ.erase thread, weight (Function.update pool thread next other) =
      ∑ other ∈ Finset.univ.erase thread, weight (pool other) := by
    apply Finset.sum_congr rfl
    intro other member
    rw [Function.update_of_ne (Finset.ne_of_mem_erase member)]
  have before := Finset.add_sum_erase Finset.univ (fun other => weight (pool other)) (Finset.mem_univ thread)
  have after := Finset.add_sum_erase Finset.univ
    (fun other => weight (Function.update pool thread next other)) (Finset.mem_univ thread)
  simp only [Function.update_self] at after
  simp only [total]
  omega

theorem weight_le_total (weight : Local → Nat) (pool : Thread → Local) (thread : Thread) :
    weight (pool thread) ≤ total weight pool :=
  Finset.single_le_sum (f := fun other => weight (pool other)) (fun _ _ => Nat.zero_le _)
    (Finset.mem_univ thread)

theorem pair_le_total [DecidableEq Thread] (weight : Local → Nat) (pool : Thread → Local) {first second : Thread}
    (different : first ≠ second) : weight (pool first) + weight (pool second) ≤ total weight pool := by
  have split := Finset.add_sum_erase Finset.univ (fun other => weight (pool other)) (Finset.mem_univ first)
  have member : second ∈ Finset.univ.erase first := Finset.mem_erase.mpr ⟨different.symm, Finset.mem_univ _⟩
  have rest := Finset.single_le_sum (f := fun other => weight (pool other)) (fun _ _ => Nat.zero_le _) member
  simp only [total]
  omega

theorem total_le_card (weight : Local → Nat) (pool : Thread → Local) (small : ∀ state, weight state ≤ 1) :
    total weight pool ≤ Fintype.card Thread := by
  calc
    total weight pool ≤ ∑ _thread : Thread, 1 := Finset.sum_le_sum (fun thread _ => small (pool thread))
    _ = Fintype.card Thread := by simp

theorem total_lt_card (weight : Local → Nat) (pool : Thread → Local) (small : ∀ state, weight state ≤ 1)
    (thread : Thread) (idle : weight (pool thread) = 0) : total weight pool < Fintype.card Thread := by
  calc
    total weight pool < ∑ _thread : Thread, 1 :=
      Finset.sum_lt_sum (fun thread _ => small (pool thread)) ⟨thread, Finset.mem_univ _, by omega⟩
    _ = Fintype.card Thread := by simp

theorem total_eq_card (weight : Local → Nat) (pool : Thread → Local)
    (all : ∀ thread, weight (pool thread) = 1) : total weight pool = Fintype.card Thread := by
  simp [total, all]

theorem total_eq_zero (weight : Local → Nat) (pool : Thread → Local)
    (none : ∀ thread, weight (pool thread) = 0) : total weight pool = 0 :=
  Finset.sum_eq_zero (fun thread _ => none thread)

theorem total_eq_weight (weight : Local → Nat) (pool : Thread → Local) (thread : Thread)
    (others : ∀ other, other ≠ thread → weight (pool other) = 0) :
    total weight pool = weight (pool thread) :=
  Finset.sum_eq_single thread (fun other _ different => others other different)
    (fun missing => absurd (Finset.mem_univ thread) missing)

theorem total_add (first second : Local → Nat) (pool : Thread → Local) :
    total (fun state => first state + second state) pool = total first pool + total second pool :=
  Finset.sum_add_distrib

end Total

section Exclusive
variable {Resource : Type} {held : Local → Option Resource} {pool : Thread → Local} {thread : Thread}
  {next : Local}

/-- No resource is held by two threads. -/
def Exclusive (held : Local → Option Resource) (pool : Thread → Local) : Prop :=
  ∀ first second resource, held (pool first) = some resource → held (pool second) = some resource →
    first = second

theorem Exclusive.update [DecidableEq Thread] (exclusive : Exclusive held pool)
    (free : ∀ resource, held next = some resource →
      ∀ other, other ≠ thread → held (pool other) ≠ some resource) :
    Exclusive held (Function.update pool thread next) := by
  intro first second resource holds holds'
  by_cases firstMoved : first = thread
  · by_cases secondMoved : second = thread
    · rw [firstMoved, secondMoved]
    · subst firstMoved
      rw [Function.update_self] at holds
      rw [Function.update_of_ne secondMoved] at holds'
      exact absurd holds' (free resource holds second secondMoved)
  · rw [Function.update_of_ne firstMoved] at holds
    by_cases secondMoved : second = thread
    · subst secondMoved
      rw [Function.update_self] at holds'
      exact absurd holds (free resource holds' first firstMoved)
    · rw [Function.update_of_ne secondMoved] at holds'
      exact exclusive first second resource holds holds'

/-- A step that releases, or keeps what it holds, keeps exclusiveness. -/
theorem Exclusive.update_of_kept [DecidableEq Thread] (exclusive : Exclusive held pool)
    (kept : held next = none ∨ held next = held (pool thread)) :
    Exclusive held (Function.update pool thread next) := by
  apply exclusive.update
  intro resource holds other different taken
  rcases kept with released | same
  · rw [released] at holds
    cases holds
  · exact different (exclusive other thread resource taken (same ▸ holds))

end Exclusive

end IstKvs.ThreadPool
