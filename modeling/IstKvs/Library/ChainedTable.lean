import Mathlib.Data.List.Nodup
import Mathlib.Data.List.FinRange
import Mathlib.Logic.Function.Basic

/-! Hash tables with separate chaining. A chain is searched from its head; writing
overwrites in place or links a new node at the head, deleting unlinks. A table
carries the proofs that every node is in its key's bucket and that no chain holds
a key twice, and then represents a partial map. -/

namespace IstKvs.ChainedTable

structure Node (Key Value : Type) where
  key : Key
  value : Value
  deriving DecidableEq

variable {Key Value Index : Type} [DecidableEq Key]

/-! Chains. -/

def find (key : Key) : List (Node Key Value) → Option Value
  | [] => none
  | node :: next => if node.key = key then some node.value else find key next

/-- Replace the value of the first node with this key. -/
def overwrite (key : Key) (value : Value) : List (Node Key Value) → Option (List (Node Key Value))
  | [] => none
  | node :: next =>
      if node.key = key then some (⟨node.key, value⟩ :: next)
      else (overwrite key value next).map (node :: ·)

/-- Take the first node with this key out of the chain. -/
def unlink (key : Key) : List (Node Key Value) → Option (List (Node Key Value))
  | [] => none
  | node :: next => if node.key = key then some next else (unlink key next).map (node :: ·)

def write (key : Key) (value : Value) (chain : List (Node Key Value)) : List (Node Key Value) :=
  (overwrite key value chain).getD (⟨key, value⟩ :: chain)

def delete (key : Key) (chain : List (Node Key Value)) : List (Node Key Value) :=
  (unlink key chain).getD chain

variable {key other : Key} {value : Value} {chain after : List (Node Key Value)}

theorem find_eq_none_iff : find key chain = none ↔ key ∉ chain.map Node.key := by
  induction chain with
  | nil => simp [find]
  | cons node next ih =>
    by_cases same : node.key = key
    · simp [find, same]
    · simp [find, same, ih, Ne.symm same]

theorem overwrite_keys (written : overwrite key value chain = some after) :
    after.map Node.key = chain.map Node.key := by
  induction chain generalizing after with
  | nil => cases written
  | cons node next ih =>
    by_cases same : node.key = key
    · simp only [overwrite, if_pos same, Option.some.injEq] at written
      subst written
      rfl
    · simp only [overwrite, if_neg same, Option.map_eq_some_iff] at written
      obtain ⟨rest, written, made⟩ := written
      subst made
      simp only [List.map_cons, ih written]

theorem overwrite_eq_none (missing : overwrite key value chain = none) : find key chain = none := by
  induction chain with
  | nil => rfl
  | cons node next ih =>
    by_cases same : node.key = key
    · simp [overwrite, same] at missing
    · simp only [overwrite, if_neg same, Option.map_eq_none_iff] at missing
      simp only [find, if_neg same, ih missing]

theorem find_overwrite (written : overwrite key value chain = some after) :
    find other after = if other = key then some value else find other chain := by
  induction chain generalizing after with
  | nil => cases written
  | cons node next ih =>
    by_cases same : node.key = key
    · simp only [overwrite, if_pos same, Option.some.injEq] at written
      subst written
      simp only [find, same, eq_comm (a := key)]
      split_ifs <;> rfl
    · simp only [overwrite, if_neg same, Option.map_eq_some_iff] at written
      obtain ⟨rest, written, made⟩ := written
      subst made
      simp only [find, ih written]
      by_cases here : node.key = other
      · subst here
        simp [same]
      · simp only [if_neg here]

theorem unlink_eq_none (missing : unlink key chain = none) : find key chain = none := by
  induction chain with
  | nil => rfl
  | cons node next ih =>
    by_cases same : node.key = key
    · simp [unlink, same] at missing
    · simp only [unlink, if_neg same, Option.map_eq_none_iff] at missing
      simp only [find, if_neg same, ih missing]

theorem unlink_isSome_find (unlinked : unlink key chain = some after) : (find key chain).isSome = true := by
  induction chain generalizing after with
  | nil => cases unlinked
  | cons node next ih =>
    by_cases same : node.key = key
    · simp only [find, if_pos same, Option.isSome_some]
    · simp only [unlink, if_neg same, Option.map_eq_some_iff] at unlinked
      obtain ⟨rest, unlinked, _⟩ := unlinked
      simp only [find, if_neg same, ih unlinked]

theorem unlink_sublist (unlinked : unlink key chain = some after) : after.Sublist chain := by
  induction chain generalizing after with
  | nil => cases unlinked
  | cons node next ih =>
    by_cases same : node.key = key
    · simp only [unlink, if_pos same, Option.some.injEq] at unlinked
      subst unlinked
      exact List.sublist_cons_self ..
    · simp only [unlink, if_neg same, Option.map_eq_some_iff] at unlinked
      obtain ⟨rest, unlinked, made⟩ := unlinked
      subst made
      exact (ih unlinked).cons_cons node

theorem find_unlink (distinct : (chain.map Node.key).Nodup) (unlinked : unlink key chain = some after) :
    find other after = if other = key then none else find other chain := by
  induction chain generalizing after with
  | nil => cases unlinked
  | cons node next ih =>
    obtain ⟨fresh, rest⟩ := List.nodup_cons.mp distinct
    by_cases same : node.key = key
    · simp only [unlink, if_pos same, Option.some.injEq] at unlinked
      subst unlinked same
      by_cases here : other = node.key
      · rw [if_pos here, here]
        exact find_eq_none_iff.mpr fresh
      · simp only [find, if_neg here, if_neg (Ne.symm here)]
    · simp only [unlink, if_neg same, Option.map_eq_some_iff] at unlinked
      obtain ⟨more, unlinked, made⟩ := unlinked
      subst made
      simp only [find, ih rest unlinked]
      by_cases here : node.key = other
      · subst here
        simp [same]
      · simp only [if_neg here]

theorem find_write (key other : Key) (value : Value) (chain : List (Node Key Value)) :
    find other (write key value chain) = if other = key then some value else find other chain := by
  unfold write
  cases written : overwrite key value chain with
  | some after => exact find_overwrite written
  | none =>
    simp only [Option.getD_none, find]
    by_cases here : other = key
    · simp [here]
    · simp [here, Ne.symm here]

theorem find_delete (distinct : (chain.map Node.key).Nodup) (key other : Key) :
    find other (delete key chain) = if other = key then none else find other chain := by
  unfold delete
  cases unlinked : unlink key chain with
  | some after => exact find_unlink distinct unlinked
  | none =>
    by_cases here : other = key
    · rw [if_pos here, here]
      exact unlink_eq_none unlinked
    · rw [if_neg here]
      rfl

theorem write_keys (key : Key) (value : Value) (chain : List (Node Key Value)) :
    (write key value chain).map Node.key = chain.map Node.key ∨
      (write key value chain).map Node.key = key :: chain.map Node.key ∧ key ∉ chain.map Node.key := by
  unfold write
  cases written : overwrite key value chain with
  | some after => exact .inl (overwrite_keys written)
  | none => exact .inr ⟨rfl, find_eq_none_iff.mp (overwrite_eq_none written)⟩

theorem delete_sublist (key : Key) (chain : List (Node Key Value)) : (delete key chain).Sublist chain := by
  unfold delete
  cases unlinked : unlink key chain with
  | some after => exact unlink_sublist unlinked
  | none => exact List.Sublist.refl chain

theorem find_eq_some_iff (distinct : (chain.map Node.key).Nodup) :
    find key chain = some value ↔ ⟨key, value⟩ ∈ chain := by
  induction chain with
  | nil => simp [find]
  | cons node next ih =>
    obtain ⟨fresh, rest⟩ := List.nodup_cons.mp distinct
    by_cases same : node.key = key
    · subst same
      have elsewhere : (⟨node.key, value⟩ : Node Key Value) ∉ next :=
        fun member => fresh (List.mem_map.mpr ⟨_, member, rfl⟩)
      cases node
      simp [find, elsewhere, eq_comm]
    · have different : (⟨key, value⟩ : Node Key Value) ≠ node := by
        intro equal
        rw [← equal] at same
        exact same rfl
      simp only [find, if_neg same, ih rest, List.mem_cons, different, false_or]

/-! Walks. A walk that stands at a position has passed the nodes before it. -/

section Walk
variable {position : Nat} {node : Node Key Value}

/-- None of the nodes before the position has the key. -/
def Passed (key : Key) (chain : List (Node Key Value)) (position : Nat) : Prop :=
  key ∉ (chain.take position).map Node.key

omit [DecidableEq Key] in
theorem passed_zero : Passed key chain 0 := by simp [Passed]

omit [DecidableEq Key] in
theorem Passed.succ (passed : Passed key chain position) (here : chain[position]? = some node)
    (different : node.key ≠ key) : Passed key chain (position + 1) := by
  unfold Passed at *
  rw [List.take_add_one, here, List.map_append, List.mem_append]
  rintro (before | last)
  · exact passed before
  · exact different (List.mem_singleton.mp last).symm

/-- At its first node with the key, a walk finds, overwrites and unlinks that node. -/
theorem walk_found (passed : Passed key chain position) (here : chain[position]? = some node) (same : node.key = key)
    (value : Value) : find key chain = some node.value ∧
      overwrite key value chain = some (chain.set position ⟨node.key, value⟩) ∧
      unlink key chain = some (chain.eraseIdx position) := by
  induction chain generalizing position with
  | nil => cases here
  | cons first next ih =>
    cases position with
    | zero =>
      cases here
      exact ⟨by rw [find, if_pos same], by rw [overwrite, if_pos same]; rfl, by rw [unlink, if_pos same]; rfl⟩
    | succ position =>
      obtain ⟨different, passed⟩ := not_or.mp (List.mem_cons.not.mp passed)
      obtain ⟨found, written, unlinked⟩ := ih passed here
      refine ⟨?_, ?_, ?_⟩
      · rw [find, if_neg (Ne.symm different), found]
      · rw [overwrite, if_neg (Ne.symm different), written]
        rfl
      · rw [unlink, if_neg (Ne.symm different), unlinked]
        rfl

/-- A walk that passed every node finds nothing. -/
theorem walk_missed (passed : Passed key chain position) (ended : chain[position]? = none) (value : Value) :
    find key chain = none ∧ overwrite key value chain = none ∧ unlink key chain = none := by
  have all : key ∉ chain.map Node.key := by
    have whole := List.take_of_length_le (List.getElem?_eq_none_iff.mp ended)
    unfold Passed at passed
    rwa [whole] at passed
  have nothing := find_eq_none_iff.mpr all
  refine ⟨nothing, ?_, ?_⟩
  · cases written : overwrite key value chain with
    | none => rfl
    | some after =>
      have found : find key after = _ := find_overwrite written
      rw [if_pos rfl, find_eq_none_iff.mpr (overwrite_keys written ▸ all)] at found
      cases found
  · cases unlinked : unlink key chain with
    | none => rfl
    | some after =>
      have found := unlink_isSome_find unlinked
      rw [nothing] at found
      cases found

omit [DecidableEq Key] in
/-- What holds at the end of a chain, and at each node when it holds at the next one,
holds wherever a walk stands. -/
theorem walk_induct {holds : Nat → Prop} (chain : List (Node Key Value))
    (ended : ∀ position, chain[position]? = none → holds position)
    (node : ∀ position node, chain[position]? = some node → holds (position + 1) → holds position) (position : Nat) :
    holds position := by
  obtain ⟨gap, bound⟩ : ∃ gap, chain.length ≤ position + gap := ⟨chain.length, Nat.le_add_left ..⟩
  induction gap generalizing position with
  | zero => exact ended position (List.getElem?_eq_none bound)
  | succ gap ih =>
    cases here : chain[position]? with
    | none => exact ended position here
    | some found => exact node position found here (ih (position + 1) (by omega))

end Walk

/-! Tables. `bucket` is undefined on the keys that no chain may hold. -/

structure Table (Value : Type) (bucket : Key → Option Index) where
  chains : Index → List (Node Key Value)
  placed : ∀ i, ∀ node ∈ chains i, bucket node.key = some i
  distinct : ∀ i, ((chains i).map Node.key).Nodup

namespace Table
variable {bucket : Key → Option Index} {i : Index}

def empty (Value : Type) (bucket : Key → Option Index) : Table Value bucket where
  chains := fun _ => []
  placed := fun _ _ member => nomatch member
  distinct := fun _ => List.nodup_nil

/-- The partial map that a table represents. -/
def contents (table : Table Value bucket) (key : Key) : Option Value :=
  (bucket key).bind fun i => find key (table.chains i)

theorem contents_of_bucket (table : Table Value bucket) (inside : bucket key = some i) :
    table.contents key = find key (table.chains i) := by
  simp only [contents, inside, Option.bind_some]

theorem mem_chain_iff (table : Table Value bucket) {node : Node Key Value} :
    node ∈ table.chains i ↔ bucket node.key = some i ∧ table.contents node.key = some node.value := by
  constructor
  · intro member
    have inside := table.placed i node member
    refine ⟨inside, ?_⟩
    rw [table.contents_of_bucket inside]
    exact (find_eq_some_iff (table.distinct i)).mpr member
  · rintro ⟨inside, held⟩
    rw [table.contents_of_bucket inside] at held
    exact (find_eq_some_iff (table.distinct i)).mp held

/-- Every chain visited once, in some order. -/
def nodes (table : Table Value bucket) (order : List Index) : List (Node Key Value) :=
  order.flatMap table.chains

theorem mem_nodes_iff (table : Table Value bucket) {order : List Index} (complete : ∀ i, i ∈ order)
    {node : Node Key Value} :
    node ∈ table.nodes order ↔ table.contents node.key = some node.value := by
  unfold nodes
  rw [List.mem_flatMap]
  constructor
  · rintro ⟨i, _, member⟩
    exact (table.mem_chain_iff.mp member).2
  · intro held
    cases inside : bucket node.key with
    | none => simp [contents, inside] at held
    | some i => exact ⟨i, complete i, table.mem_chain_iff.mpr ⟨inside, held⟩⟩

omit [DecidableEq Key] in
theorem nodes_keys_nodup (table : Table Value bucket) {order : List Index} (once : order.Nodup) :
    ((table.nodes order).map Node.key).Nodup := by
  unfold nodes
  rw [List.map_flatMap]
  apply List.nodup_flatMap.mpr
  refine ⟨fun i _ => table.distinct i, once.imp ?_⟩
  intro i j different
  apply List.disjoint_left.mpr
  intro key here there
  obtain ⟨node, member, same⟩ := List.mem_map.mp here
  obtain ⟨node', member', same'⟩ := List.mem_map.mp there
  have first := table.placed i node member
  have second := table.placed j node' member'
  rw [same] at first
  rw [same', first] at second
  exact different (Option.some.inj second)

variable [DecidableEq Index]

def insert (table : Table Value bucket) (key : Key) (value : Value) (inside : bucket key = some i) :
    Table Value bucket where
  chains := Function.update table.chains i (write key value (table.chains i))
  placed := by
    intro j node member
    by_cases same : j = i
    · subst same
      rw [Function.update_self] at member
      have keys : node.key ∈ (write key value (table.chains j)).map Node.key :=
        List.mem_map.mpr ⟨node, member, rfl⟩
      rcases write_keys key value (table.chains j) with same | ⟨same, _⟩
      · rw [same] at keys
        obtain ⟨old, held, equal⟩ := List.mem_map.mp keys
        exact equal ▸ table.placed j old held
      · rw [same] at keys
        rcases List.mem_cons.mp keys with here | there
        · exact here ▸ inside
        · obtain ⟨old, held, equal⟩ := List.mem_map.mp there
          exact equal ▸ table.placed j old held
    · rw [Function.update_of_ne same] at member
      exact table.placed j node member
  distinct := by
    intro j
    by_cases same : j = i
    · subst same
      rw [Function.update_self]
      rcases write_keys key value (table.chains j) with same | ⟨same, fresh⟩
      · rw [same]
        exact table.distinct j
      · rw [same]
        exact List.nodup_cons.mpr ⟨fresh, table.distinct j⟩
    · rw [Function.update_of_ne same]
      exact table.distinct j

def remove (table : Table Value bucket) (key : Key) (i : Index) : Table Value bucket where
  chains := Function.update table.chains i (delete key (table.chains i))
  placed := by
    intro j node member
    by_cases same : j = i
    · subst same
      rw [Function.update_self] at member
      exact table.placed j node ((delete_sublist key _).subset member)
    · rw [Function.update_of_ne same] at member
      exact table.placed j node member
  distinct := by
    intro j
    by_cases same : j = i
    · subst same
      rw [Function.update_self]
      exact ((delete_sublist key _).map Node.key).nodup (table.distinct j)
    · rw [Function.update_of_ne same]
      exact table.distinct j

theorem contents_insert (table : Table Value bucket) (key : Key) (value : Value)
    (inside : bucket key = some i) :
    (table.insert key value inside).contents = Function.update table.contents key (some value) := by
  funext other
  by_cases same : other = key
  · subst same
    rw [Function.update_self, contents_of_bucket _ inside]
    simp only [insert, Function.update_self, find_write, ↓reduceIte]
  · rw [Function.update_of_ne same]
    unfold contents
    congr 1
    funext j
    by_cases here : j = i
    · subst here
      simp only [insert, Function.update_self, find_write, if_neg same]
    · simp only [insert, Function.update_of_ne here]

theorem contents_remove (table : Table Value bucket) (key : Key) (inside : bucket key = some i) :
    (table.remove key i).contents = Function.update table.contents key none := by
  funext other
  by_cases same : other = key
  · subst same
    rw [Function.update_self, contents_of_bucket _ inside]
    simp only [remove, Function.update_self, find_delete (table.distinct i), ↓reduceIte]
  · rw [Function.update_of_ne same]
    unfold contents
    congr 1
    funext j
    by_cases here : j = i
    · subst here
      simp only [remove, Function.update_self, find_delete (table.distinct j), if_neg same]
    · simp only [remove, Function.update_of_ne here]

end Table

end IstKvs.ChainedTable
