import Mathlib.Data.Finmap
import Mathlib.Algebra.Order.Quantale
import Mathlib.Algebra.BigOperators.Fin
import Mathlib.Data.Fintype.EquivFin

/-! Ownership of heap blocks. An assertion is the set of the heaps that it owns
entirely, so that what a command is proved to own after it is all that is left of
what it owned before. Assertions multiply by joining disjoint heaps. A triple
carries every frame. -/

namespace IstKvs.Separation

/-- Zero is the null pointer. -/
abbrev Address := Nat

/-- The allocated blocks. -/
abbrev Heap (Block : Type) := Finmap fun _ : Address => Block

abbrev Assertion (Block : Type) := Set (Heap Block)

variable {Block Result Next : Type}

/-- The heap with one block. -/
def only (address : Address) (block : Block) : Heap Block :=
  @Finmap.singleton Address (fun _ => Block) address block

theorem mem_only {other address : Address} {block : Block} : other ∈ only address block ↔ other = address :=
  @Finmap.mem_singleton Address (fun _ => Block) other address block

theorem lookup_only (address : Address) (block : Block) : (only address block).lookup address = some block :=
  Finmap.lookup_singleton_eq

/-! Assertions. -/

section Product
variable {p q r : Assertion Block}

instance : Mul (Assertion Block) where
  mul p q := {heap | ∃ left ∈ p, ∃ right ∈ q, left.Disjoint right ∧ left ∪ right = heap}

instance : One (Assertion Block) where
  one := {∅}

theorem mem_mul {heap : Heap Block} :
    heap ∈ p * q ↔ ∃ left ∈ p, ∃ right ∈ q, left.Disjoint right ∧ left ∪ right = heap := Iff.rfl

theorem mem_one {heap : Heap Block} : heap ∈ (1 : Assertion Block) ↔ heap = ∅ := Iff.rfl

theorem join_comm (p q : Assertion Block) : p * q = q * p := by
  have swap : ∀ p q : Assertion Block, p * q ≤ q * p := by
    intro p q heap ⟨left, inLeft, right, inRight, apart, joined⟩
    refine ⟨right, inRight, left, inLeft, apart.symm, ?_⟩
    rw [← Finmap.union_comm_of_disjoint apart, joined]
  exact le_antisymm (swap p q) (swap q p)

theorem join_assoc (p q r : Assertion Block) : p * q * r = p * (q * r) := by
  ext heap
  constructor
  · rintro ⟨outer, ⟨first, inFirst, second, inSecond, apart, inner⟩, third, inThird, apart', joined⟩
    subst inner
    obtain ⟨firstThird, secondThird⟩ := (Finmap.disjoint_union_left _ _ _).mp apart'
    refine ⟨first, inFirst, second ∪ third, ⟨second, inSecond, third, inThird, secondThird, rfl⟩, ?_, ?_⟩
    · exact (Finmap.disjoint_union_right _ _ _).mpr ⟨apart, firstThird⟩
    · rw [← Finmap.union_assoc, joined]
  · rintro ⟨first, inFirst, outer, ⟨second, inSecond, third, inThird, apart, inner⟩, apart', joined⟩
    subst inner
    obtain ⟨firstSecond, firstThird⟩ := (Finmap.disjoint_union_right _ _ _).mp apart'
    refine ⟨first ∪ second, ⟨first, inFirst, second, inSecond, firstSecond, rfl⟩, third, inThird, ?_, ?_⟩
    · exact (Finmap.disjoint_union_left _ _ _).mpr ⟨firstThird, apart⟩
    · rw [Finmap.union_assoc, joined]

theorem nothing_join (p : Assertion Block) : 1 * p = p := by
  ext heap
  constructor
  · rintro ⟨left, empty, right, inRight, _, joined⟩
    rw [mem_one] at empty
    rw [empty, Finmap.empty_union] at joined
    exact joined ▸ inRight
  · intro owned
    exact ⟨∅, rfl, heap, owned, Finmap.disjoint_empty heap, Finmap.empty_union⟩

instance : CommMonoid (Assertion Block) where
  mul_assoc := join_assoc
  one_mul := nothing_join
  mul_one p := by rw [join_comm, nothing_join]
  mul_comm := join_comm

instance : IsQuantale (Assertion Block) where
  mul_sSup_distrib := by
    intro p family
    ext heap
    simp only [mem_mul, Set.sSup_eq_sUnion, Set.mem_sUnion, Set.iSup_eq_iUnion, Set.mem_iUnion, exists_prop]
    grind
  sSup_mul_distrib := by
    intro family q
    ext heap
    simp only [mem_mul, Set.sSup_eq_sUnion, Set.mem_sUnion, Set.iSup_eq_iUnion, Set.mem_iUnion, exists_prop]
    grind

theorem join_third (p q r s : Assertion Block) : p * (q * (r * s)) = r * (p * (q * s)) := by
  rw [mul_left_comm q r s, mul_left_comm p r]

/-- The heap with this block alone, which is never at the null pointer. -/
def pointsTo (address : Address) (block : Block) : Assertion Block :=
  {heap | address ≠ 0 ∧ heap = only address block}

/-- Nothing is owned, and the proposition holds. -/
def fact (holds : Prop) : Assertion Block := {heap | holds ∧ heap = ∅}

theorem fact_of {holds : Prop} (proof : holds) : (fact holds : Assertion Block) = 1 := by
  ext heap
  simp [fact, proof, mem_one]

theorem fact_of_not {holds : Prop} (refuted : ¬holds) : (fact holds : Assertion Block) = ⊥ := by
  ext heap
  simp [fact, refuted]

theorem pointsTo_nonnull (address : Address) (block : Block) :
    pointsTo address block = fact (address ≠ 0) * pointsTo address block := by
  by_cases null : address = 0
  · have nothing : pointsTo address block = ⊥ := by
      ext heap
      simp [pointsTo, null]
    rw [nothing, fact_of_not (not_not.mpr null)]
    ext heap
    simp [mem_mul]
  · rw [fact_of null, one_mul]

theorem join_mono {p' q' : Assertion Block} (left : p ≤ p') (right : q ≤ q') : p * q ≤ p' * q' := by
  intro heap ⟨first, inFirst, second, inSecond, joined⟩
  exact ⟨first, left inFirst, second, right inSecond, joined⟩

theorem le_fact_mul {holds : Prop} (proof : holds) (below : p ≤ q) : p ≤ fact holds * q := by
  rwa [fact_of proof, one_mul]

end Product

/-! Commands. -/

/-- A command reads and changes the heap; `none` where C leaves it undefined. -/
abbrev Command (Block Result : Type) := StateT (Heap Block) Option Result

/-- `malloc` finds an address that is not in use, whatever the heap. -/
structure Allocator (Block : Type) where
  choose : Heap Block → Address
  fresh : ∀ heap, choose heap ∉ heap
  nonnull : ∀ heap, choose heap ≠ 0

theorem exists_free (heap : Heap Block) : ∃ address, address ∉ heap.keys ∧ address ≠ 0 := by
  obtain ⟨address, free⟩ := Infinite.exists_notMem_finset (insert 0 heap.keys)
  rw [Finset.mem_insert, not_or] at free
  exact ⟨address, free.2, free.1⟩

/-- The allocator that takes the first free address. -/
def firstFit : Allocator Block where
  choose heap := Nat.find (exists_free heap)
  fresh heap used := (Nat.find_spec (exists_free heap)).1 (Finmap.mem_keys.mpr used)
  nonnull heap := (Nat.find_spec (exists_free heap)).2

def load (address : Address) : Command Block Block :=
  fun heap => (heap.lookup address).map fun block => (block, heap)

def store (address : Address) (block : Block) : Command Block Unit :=
  fun heap => if address ∈ heap then some ((), heap.insert address block) else none

/-- `free`, which does nothing with the null pointer. -/
def free (address : Address) : Command Block Unit :=
  fun heap => if address = 0 then some ((), heap)
    else if address ∈ heap then some ((), heap.erase address) else none

def malloc (allocator : Allocator Block) (block : Block) : Command Block Address :=
  fun heap => some (allocator.choose heap, heap.insert (allocator.choose heap) block)

/-! Triples. -/

/-- From a heap of which `p` owns a part, the command runs, leaves the rest as it
is, and leaves a part that `q` owns. -/
def Triple (p : Assertion Block) (command : Command Block Result) (q : Result → Assertion Block) : Prop :=
  ∀ own ∈ p, ∀ frame : Heap Block, own.Disjoint frame →
    ∃ result, ∃ own' ∈ q result, own'.Disjoint frame ∧ command (own ∪ frame) = some (result, own' ∪ frame)

namespace Triple
variable {p p' r : Assertion Block} {q q' : Result → Assertion Block} {s : Next → Assertion Block}
  {command : Command Block Result} {later : Result → Command Block Next}

theorem weaken (triple : Triple p command q) (before : p' ≤ p) (after : ∀ result, q result ≤ q' result) :
    Triple p' command q' := by
  intro own owned frame apart
  obtain ⟨result, own', owned', apart', ran⟩ := triple own (before owned) frame apart
  exact ⟨result, own', after result owned', apart', ran⟩

/-- What the command does not own is left alone. -/
theorem frame (triple : Triple p command q) (r : Assertion Block) :
    Triple (p * r) command fun result => q result * r := by
  intro own ⟨left, inLeft, right, inRight, apart, joined⟩ rest clear
  subst joined
  obtain ⟨leftRest, rightRest⟩ := (Finmap.disjoint_union_left _ _ _).mp clear
  have apart' := (Finmap.disjoint_union_right left right rest).mpr ⟨apart, leftRest⟩
  obtain ⟨result, own', owned', clear', ran⟩ := triple left inLeft (right ∪ rest) apart'
  obtain ⟨ownRight, ownRest⟩ := (Finmap.disjoint_union_right _ _ _).mp clear'
  refine ⟨result, own' ∪ right, ⟨own', owned', right, inRight, ownRight, rfl⟩, ?_, ?_⟩
  · exact (Finmap.disjoint_union_left _ _ _).mpr ⟨ownRest, rightRest⟩
  · rw [Finmap.union_assoc, ran, Finmap.union_assoc]

theorem ret {result : Result} (holds : p ≤ q result) : Triple p (pure result) q := by
  intro own owned frame apart
  exact ⟨result, own, holds owned, apart, rfl⟩

theorem bind (first : Triple p command q) (rest : ∀ result, Triple (q result) (later result) s) :
    Triple p (command >>= later) s := by
  intro own owned frame apart
  obtain ⟨result, own', owned', apart', ran⟩ := first own owned frame apart
  obtain ⟨last, own'', owned'', apart'', ran'⟩ := rest result own' owned' frame apart'
  refine ⟨last, own'', owned'', apart'', ?_⟩
  show (command (own ∪ frame)).bind (fun pair => later pair.1 pair.2) = _
  rw [ran, Option.bind_some, ran']

/-- A call inside a larger heap: what the callee needs is split off first. -/
theorem call (callee : Triple p command q) (split : p' = p * r)
    (rest : ∀ result, Triple (q result * r) (later result) s) : Triple p' (command >>= later) s := by
  rw [split]
  exact (callee.frame r).bind rest

theorem some_case {Choice : Type} {family : Choice → Assertion Block}
    (each : ∀ choice, Triple (family choice) command q) : Triple (⨆ choice, family choice) command q := by
  intro own owned
  obtain ⟨choice, owned⟩ := Set.mem_iUnion.mp owned
  exact each choice own owned

theorem of_fact {holds : Prop} (given : holds → Triple p command q) : Triple (fact holds * p) command q := by
  by_cases proof : holds
  · rw [fact_of proof, one_mul]
    exact given proof
  · rw [fact_of_not proof]
    intro own ⟨left, inLeft, _⟩
    cases inLeft

/-- A callee whose answer is known. -/
theorem bind_answer {answer : Result} (first : Triple p command fun result => fact (result = answer) * r)
    (rest : Triple r (later answer) s) : Triple p (command >>= later) s := by
  apply first.bind
  intro result
  apply of_fact
  intro same
  exact same ▸ rest

/-- What is returned once the facts about it are in place. -/
theorem ret_answer {answer : Result} (holds : p ≤ r) : Triple p (pure answer) fun result => fact (result = answer) * r :=
  ret (le_fact_mul rfl holds)

variable {address : Address} {block old : Block}

theorem nonnull (given : address ≠ 0 → Triple (pointsTo address block * p) command q) :
    Triple (pointsTo address block * p) command q := by
  rw [pointsTo_nonnull, mul_assoc]
  exact of_fact given

theorem load_owned (address : Address) (block : Block) :
    Triple (pointsTo address block) (load address) fun result => fact (result = block) * pointsTo address block := by
  intro own owned frame apart
  refine ⟨block, own, ?_, apart, ?_⟩
  · show own ∈ fact (block = block) * pointsTo address block
    rwa [fact_of rfl, one_mul]
  · have found : (own ∪ frame).lookup address = some block := by
      rw [owned.2, Finmap.lookup_union_left (mem_only.mpr rfl), lookup_only]
    simp only [load, found, Option.map_some]

theorem store_owned (address : Address) (old block : Block) :
    Triple (pointsTo address old) (store address block) fun _ => pointsTo address block := by
  intro own owned frame apart
  obtain ⟨nonnull, alone⟩ := owned
  subst alone
  have replaced : (only address old).insert address block = only address block := Finmap.insert_singleton_eq
  refine ⟨(), only address block, ⟨nonnull, rfl⟩, ?_, ?_⟩
  · intro other member
    exact apart other (mem_only.mpr (mem_only.mp member))
  · have inside : address ∈ only address old ∪ frame := Finmap.mem_union.mpr (.inl (mem_only.mpr rfl))
    simp only [store, if_pos inside, Finmap.insert_union, replaced]

theorem free_owned (address : Address) (old : Block) :
    Triple (pointsTo address old) (free address) fun _ => 1 := by
  intro own owned frame apart
  obtain ⟨nonnull, alone⟩ := owned
  subst alone
  have outside : address ∉ frame := apart address (mem_only.mpr rfl)
  refine ⟨(), ∅, rfl, Finmap.disjoint_empty frame, ?_⟩
  have left : (only address old ∪ frame).erase address = ∅ ∪ frame := by
    apply Finmap.ext_lookup
    intro other
    rw [Finmap.empty_union]
    by_cases same : other = address
    · rw [same, Finmap.lookup_erase, Finmap.lookup_eq_none.mpr outside]
    · rw [Finmap.lookup_erase_ne same, Finmap.lookup_union_right (mem_only.not.mpr same)]
  have inside : address ∈ only address old ∪ frame := Finmap.mem_union.mpr (.inl (mem_only.mpr rfl))
  simp only [free, if_neg nonnull, if_pos inside, left]

theorem malloc_fresh (allocator : Allocator Block) (block : Block) :
    Triple 1 (malloc allocator block) fun address => pointsTo address block := by
  intro own empty frame _
  rw [mem_one] at empty
  subst empty
  rw [Finmap.empty_union]
  refine ⟨allocator.choose frame, only (allocator.choose frame) block, ⟨allocator.nonnull _, rfl⟩, ?_, ?_⟩
  · intro other member
    rw [mem_only.mp member]
    exact allocator.fresh frame
  · have added : frame.insert (allocator.choose frame) block = only (allocator.choose frame) block ∪ frame := by
      apply Finmap.ext_lookup
      intro other
      by_cases same : other = allocator.choose frame
      · rw [same, Finmap.lookup_insert, Finmap.lookup_union_left (mem_only.mpr rfl), lookup_only]
      · rw [Finmap.lookup_insert_of_ne _ same, Finmap.lookup_union_right (mem_only.not.mpr same)]
    rw [malloc, added]

theorem free_null (p : Assertion Block) : Triple p (free 0) fun _ => p := by
  intro own owned frame apart
  exact ⟨(), own, owned, apart, rfl⟩

/-! One step of a command, the block that it is about split off. -/

theorem load_step {later : Block → Command Block Next} (split : p = pointsTo address block * r)
    (rest : Triple p (later block) s) : Triple p (load address >>= later) s := by
  apply (load_owned address block).call split
  intro result
  rw [mul_assoc, ← split]
  apply of_fact
  intro same
  exact same ▸ rest

theorem store_step {later : Unit → Command Block Next} (split : p = pointsTo address old * r)
    (rest : Triple (pointsTo address block * r) (later ()) s) : Triple p (store address block >>= later) s :=
  (store_owned address old block).call split fun _ => rest

theorem free_step {later : Unit → Command Block Next} (split : p = pointsTo address old * r)
    (rest : Triple r (later ()) s) : Triple p (free address >>= later) s := by
  apply (free_owned address old).call split
  intro _
  rw [one_mul]
  exact rest

theorem malloc_step (allocator : Allocator Block) {later : Address → Command Block Next}
    (rest : ∀ address, Triple (pointsTo address block * p) (later address) s) :
    Triple p (malloc allocator block >>= later) s :=
  (malloc_fresh allocator block).call (one_mul p).symm rest

end Triple

/-! Linked chains. The blocks of an item, with the link to the next one, are given. -/

section Chain
variable {Item : Type} (cell : Address → Address → Item → Assertion Block)

def chain : Address → List Item → Assertion Block
  | head, [] => fact (head = 0)
  | head, item :: items => ⨆ next, fact (head ≠ 0) * (cell head next item * chain next items)

theorem chain_nil : chain cell 0 [] = 1 := fact_of rfl

theorem chain_cons_le {head next : Address} {item : Item} {items : List Item} (nonnull : head ≠ 0) :
    cell head next item * chain cell next items ≤ chain cell head (item :: items) := by
  calc
    cell head next item * chain cell next items
        = fact (head ≠ 0) * (cell head next item * chain cell next items) := by rw [fact_of nonnull, one_mul]
    _ ≤ chain cell head (item :: items) :=
      le_iSup (fun next => fact (head ≠ 0) * (cell head next item * chain cell next items)) next

end Chain

/-! A family of assertions, one member of which changes. -/

section Family
variable {Index : Type} [Fintype Index] [DecidableEq Index]

theorem prod_split (family : Index → Assertion Block) (i : Index) :
    ∏ j, family j = family i * ∏ j ∈ Finset.univ.erase i, family j :=
  (Finset.mul_prod_erase Finset.univ family (Finset.mem_univ i)).symm

theorem prod_replace {family changed : Index → Assertion Block} (i : Index)
    (others : ∀ j, j ≠ i → changed j = family j) :
    ∏ j, changed j = changed i * ∏ j ∈ Finset.univ.erase i, family j := by
  rw [prod_split changed i]
  congr 1
  apply Finset.prod_congr rfl
  intro j member
  exact others j (Finset.ne_of_mem_erase member)

end Family

/-! How many blocks an assertion owns. -/

section Blocks
variable {p q : Assertion Block} {count count' : Nat}

def Owns (p : Assertion Block) (count : Nat) : Prop := ∀ heap ∈ p, heap.keys.card = count

theorem owns_one : Owns (1 : Assertion Block) 0 := by
  intro heap empty
  rw [mem_one.mp empty, Finmap.keys_empty, Finset.card_empty]

theorem owns_pointsTo (address : Address) (block : Block) : Owns (pointsTo address block) 1 := by
  intro heap owned
  rw [owned.2]
  rfl

theorem Owns.mul (left : Owns p count) (right : Owns q count') : Owns (p * q) (count + count') := by
  intro heap ⟨first, inFirst, second, inSecond, apart, joined⟩
  have keysApart : Disjoint first.keys second.keys := by
    apply Finset.disjoint_left.mpr
    intro address here there
    exact apart address (Finmap.mem_keys.mp here) (Finmap.mem_keys.mp there)
  rw [← joined, Finmap.keys_union, Finset.card_union_of_disjoint keysApart, left first inFirst, right second inSecond]

theorem Owns.fact_mul {holds : Prop} (owns : holds → Owns p count) : Owns (fact holds * p) count := by
  by_cases proof : holds
  · rw [fact_of proof, one_mul]
    exact owns proof
  · rw [fact_of_not proof]
    intro heap ⟨left, inLeft, _⟩
    cases inLeft

theorem Owns.iSup {Choice : Type} {family : Choice → Assertion Block} (each : ∀ choice, Owns (family choice) count) :
    Owns (⨆ choice, family choice) count := by
  intro heap owned
  obtain ⟨choice, owned⟩ := Set.mem_iUnion.mp owned
  exact each choice heap owned

theorem Owns.prod {Index : Type} (indices : Finset Index) {family : Index → Assertion Block} {counts : Index → Nat}
    (each : ∀ i, Owns (family i) (counts i)) : Owns (∏ i ∈ indices, family i) (∑ i ∈ indices, counts i) := by
  classical
  induction indices using Finset.induction_on with
  | empty => exact owns_one
  | insert i indices fresh ih =>
    rw [Finset.prod_insert fresh, Finset.sum_insert fresh]
    exact (each i).mul ih

theorem owns_chain {Item : Type} {cell : Address → Address → Item → Assertion Block} {size : Nat}
    (each : ∀ head next item, Owns (cell head next item) size) (head : Address) (items : List Item) :
    Owns (chain cell head items) (size * items.length) := by
  induction items generalizing head with
  | nil =>
    intro heap owned
    rw [owned.2, Finmap.keys_empty, Finset.card_empty]
    rfl
  | cons item items ih =>
    apply Owns.iSup
    intro next
    apply Owns.fact_mul
    intro _
    have both := (each head next item).mul (ih next)
    rwa [List.length_cons, Nat.mul_succ, Nat.add_comm]

end Blocks

end IstKvs.Separation
