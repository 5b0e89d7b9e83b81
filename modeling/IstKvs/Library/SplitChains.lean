import IstKvs.Library.ChainedTable

/-! One list of nodes stands for all chains of a table: a chain is the part of the list in
its bucket. Searching, writing and deleting in the chain of a key is searching, writing and
deleting in the list, so the buckets only show in the order of a traversal. -/

namespace IstKvs.ChainedTable

variable {Key Value Index : Type} [DecidableEq Key] [DecidableEq Index] (bucket : Key → Option Index)
  {key : Key} {value : Value} {nodes after : List (Node Key Value)} {i : Index}

omit [DecidableEq Key] in
/-- The nodes of one bucket. -/
def chainOf (nodes : List (Node Key Value)) (i : Index) : List (Node Key Value) :=
  nodes.filter fun node => bucket node.key = some i

/-- Put other nodes in the place of the first one with the key. -/
def edit (replace : Node Key Value → List (Node Key Value)) (key : Key) :
    List (Node Key Value) → Option (List (Node Key Value))
  | [] => none
  | node :: next => if node.key = key then some (replace node ++ next) else (edit replace key next).map (node :: ·)

omit [DecidableEq Index] in
theorem overwrite_eq_edit (key : Key) (value : Value) (nodes : List (Node Key Value)) :
    overwrite key value nodes = edit (fun node => [⟨node.key, value⟩]) key nodes := by
  induction nodes with
  | nil => rfl
  | cons node nodes ih => rw [overwrite, edit, ih, List.singleton_append]

omit [DecidableEq Index] in
theorem unlink_eq_edit (key : Key) (nodes : List (Node Key Value)) : unlink key nodes = edit (fun _ => []) key nodes := by
  induction nodes with
  | nil => rfl
  | cons node nodes ih => rw [unlink, edit, ih, List.nil_append]

section Cons
variable {bucket} {node : Node Key Value}

omit [DecidableEq Key] in
theorem chainOf_cons_self (inside : bucket node.key = some i) :
    chainOf bucket (node :: nodes) i = node :: chainOf bucket nodes i :=
  List.filter_cons_of_pos (decide_eq_true inside)

omit [DecidableEq Key] in
theorem chainOf_cons_of_ne (outside : bucket node.key ≠ some i) :
    chainOf bucket (node :: nodes) i = chainOf bucket nodes i := by
  apply List.filter_cons_of_neg
  simpa using outside

omit [DecidableEq Key] in
theorem chainOf_append (nodes later : List (Node Key Value)) (i : Index) :
    chainOf bucket (nodes ++ later) i = chainOf bucket nodes i ++ chainOf bucket later i := List.filter_append ..

omit [DecidableEq Key] in
theorem chainOf_eq_self (inside : ∀ node ∈ nodes, bucket node.key = some i) : chainOf bucket nodes i = nodes :=
  List.filter_eq_self.mpr fun node member => decide_eq_true (inside node member)

omit [DecidableEq Key] in
theorem chainOf_eq_nil (outside : ∀ node ∈ nodes, bucket node.key ≠ some i) : chainOf bucket nodes i = [] := by
  apply List.filter_eq_nil_iff.mpr
  intro node member
  simpa using outside node member

theorem find_chainOf (inside : bucket key = some i) : find key (chainOf bucket nodes i) = find key nodes := by
  induction nodes with
  | nil => rfl
  | cons node nodes ih =>
    by_cases own : bucket node.key = some i
    · rw [chainOf_cons_self own, find, find, ih]
    · have different : node.key ≠ key := fun same => own (same ▸ inside)
      rw [chainOf_cons_of_ne own, find, if_neg different, ih]

end Cons

section Edit
variable {bucket} {replace : Node Key Value → List (Node Key Value)}

theorem edit_chainOf (keeps : ∀ node, ∀ other ∈ replace node, other.key = node.key) (inside : bucket key = some i) :
    edit replace key (chainOf bucket nodes i) = (edit replace key nodes).map (chainOf bucket · i) := by
  induction nodes with
  | nil => rfl
  | cons node nodes ih =>
    by_cases own : bucket node.key = some i
    · rw [chainOf_cons_self own, edit, edit]
      by_cases same : node.key = key
      · have placed : ∀ other ∈ replace node, bucket other.key = some i :=
          fun other member => (keeps node other member).symm ▸ own
        rw [if_pos same, if_pos same, Option.map_some, chainOf_append, chainOf_eq_self placed]
      · rw [if_neg same, if_neg same, ih, Option.map_map, Option.map_map]
        congr 1
        funext rest
        exact (chainOf_cons_self own).symm
    · have different : node.key ≠ key := fun same => own (same ▸ inside)
      rw [chainOf_cons_of_ne own, edit, if_neg different, ih, Option.map_map]
      congr 1
      funext rest
      exact (chainOf_cons_of_ne own).symm

/-- The chains of the other buckets stay as they are. -/
theorem edit_other (keeps : ∀ node, ∀ other ∈ replace node, other.key = node.key) (outside : bucket key ≠ some i)
    (edited : edit replace key nodes = some after) : chainOf bucket after i = chainOf bucket nodes i := by
  induction nodes generalizing after with
  | nil => cases edited
  | cons node nodes ih =>
    rw [edit] at edited
    by_cases same : node.key = key
    · rw [if_pos same] at edited
      cases edited
      have elsewhere : bucket node.key ≠ some i := same ▸ outside
      have placed : ∀ other ∈ replace node, bucket other.key ≠ some i :=
        fun other member => (keeps node other member).symm ▸ elsewhere
      rw [chainOf_append, chainOf_eq_nil placed, List.nil_append, chainOf_cons_of_ne elsewhere]
    · rw [if_neg same] at edited
      obtain ⟨rest, later, made⟩ := Option.map_eq_some_iff.mp edited
      subst made
      by_cases own : bucket node.key = some i
      · rw [chainOf_cons_self own, chainOf_cons_self own, ih later]
      · rw [chainOf_cons_of_ne own, chainOf_cons_of_ne own, ih later]

/-- An edit of the list, or of a list where it finds nothing to edit, is one of the chain. -/
theorem chainOf_edit (keeps : ∀ node, ∀ other ∈ replace node, other.key = node.key) (inside : bucket key = some i)
    {otherwise : List (Node Key Value) → List (Node Key Value)}
    (own : chainOf bucket (otherwise nodes) i = otherwise (chainOf bucket nodes i))
    (others : ∀ j ≠ i, chainOf bucket (otherwise nodes) j = chainOf bucket nodes j) :
    chainOf bucket ((edit replace key nodes).getD (otherwise nodes)) =
      Function.update (chainOf bucket nodes) i
        ((edit replace key (chainOf bucket nodes i)).getD (otherwise (chainOf bucket nodes i))) := by
  funext j
  by_cases same : j = i
  · subst same
    rw [Function.update_self, edit_chainOf keeps inside]
    cases edit replace key nodes with
    | some after => rfl
    | none => exact own
  · have outside : bucket key ≠ some j := by
      rw [inside]
      exact fun equal => same (Option.some.inj equal).symm
    rw [Function.update_of_ne same]
    cases edited : edit replace key nodes with
    | some after => exact edit_other keeps outside edited
    | none => exact others j same

/-- Writing in the list is writing in the chain of the key. -/
theorem chainOf_write (inside : bucket key = some i) (value : Value) :
    chainOf bucket (write key value nodes) = Function.update (chainOf bucket nodes) i (write key value (chainOf bucket nodes i)) := by
  have different (j : Index) (other : j ≠ i) : bucket key ≠ some j := by
    rw [inside]
    exact fun equal => other (Option.some.inj equal).symm
  have keeps (node other : Node Key Value) (member : other ∈ [(⟨node.key, value⟩ : Node Key Value)]) :
      other.key = node.key := by
    rw [List.mem_singleton.mp member]
  simp only [write, overwrite_eq_edit]
  exact @chainOf_edit _ _ _ _ _ bucket key nodes i _ keeps inside (⟨key, value⟩ :: ·) (chainOf_cons_self inside)
    fun j other => chainOf_cons_of_ne (different j other)

/-- Deleting in the list is deleting in the chain of the key. -/
theorem chainOf_delete (inside : bucket key = some i) :
    chainOf bucket (delete key nodes) = Function.update (chainOf bucket nodes) i (delete key (chainOf bucket nodes i)) := by
  simp only [delete, unlink_eq_edit]
  exact @chainOf_edit _ _ _ _ _ bucket key nodes i (fun _ => []) (fun _ _ member => absurd member List.not_mem_nil) inside id rfl
    fun _ _ => rfl

end Edit

section Traversal
variable {bucket}

omit [DecidableEq Key] in
/-- The nodes of a table, in the order of a traversal, stand for the table. -/
theorem chainOf_nodes (table : Table Value bucket) {order : List Index} (once : order.Nodup) (complete : ∀ i, i ∈ order) :
    chainOf bucket (table.nodes order) = table.chains := by
  funext i
  suffices part : ∀ order : List Index, order.Nodup →
      (i ∈ order → chainOf bucket (table.nodes order) i = table.chains i) ∧
      (i ∉ order → chainOf bucket (table.nodes order) i = []) from (part order once).1 (complete i)
  intro order once
  induction order with
  | nil => exact ⟨nofun, fun _ => rfl⟩
  | cons j order ih =>
    obtain ⟨fresh, once'⟩ := List.nodup_cons.mp once
    obtain ⟨held, missing⟩ := ih once'
    have split : chainOf bucket (table.nodes (j :: order)) i =
        chainOf bucket (table.chains j) i ++ chainOf bucket (table.nodes order) i := chainOf_append ..
    rw [split]
    by_cases same : j = i
    · subst same
      rw [chainOf_eq_self (table.placed j), missing fresh, List.append_nil]
      exact ⟨fun _ => rfl, fun absent => absurd List.mem_cons_self absent⟩
    · have elsewhere : ∀ node ∈ table.chains j, bucket node.key ≠ some i := by
        intro node member
        rw [table.placed j node member]
        exact fun equal => same (Option.some.inj equal)
      rw [chainOf_eq_nil elsewhere, List.nil_append, List.mem_cons, or_iff_right (Ne.symm same)]
      exact ⟨held, missing⟩

end Traversal

end IstKvs.ChainedTable
