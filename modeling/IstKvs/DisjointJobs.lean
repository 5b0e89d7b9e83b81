import IstKvs.FiniteMap
import IstKvs.RunJob
import IstKvs.Library.Footprint

/-! Two jobs that name different keys. Their keys may share buckets, so each changes
the chains of the other, but not the bindings: on the map a command is confined to the
keys it names. -/

namespace IstKvs.DisjointJobs
open Kvs Operations FiniteMap RunJob Footprint

/-- The commands on the store that a key names. -/
inductive Keyed : JobCommand → Prop where
  | write (pairs : List (CString × CString)) : Keyed (.write pairs)
  | read (keys : List CString) : Keyed (.read keys)
  | delete (keys : List CString) : Keyed (.delete keys)

/-- What a command does to the map and writes to the output file of its job. -/
def specPerform : JobCommand → Store → Store × List UInt8
  | .write pairs, store => (specWrite store pairs, [])
  | .read keys, store =>
      (store, text "[" ++ keys.flatMap (fun key => readLine key (store key)) ++ text "]\n")
  | .delete keys, store => (specDelete store keys, missingReport (missing store keys))
  | _, store => (store, [])

/-- The commands of the two jobs in one order, and what each job writes to its output; none
of them forks. -/
def performOrder : KvsTable → List (Bool × JobCommand) → Option (KvsTable × (Bool → List UInt8))
  | kvsTable, [] => some (kvsTable, fun _ => [])
  | kvsTable, (job, command) :: order => do
      let (next, effects) ← perform true kvsTable command
      let (last, outputs) ← performOrder next order
      some (last, Function.update outputs job (effects.out ++ outputs job))

/-- An interleaving of the two jobs: each keeps the order of its own commands. -/
def Interleaves (first second : List JobCommand) (order : List (Bool × JobCommand)) : Prop :=
  own false order = first ∧ own true order = second

/-- All of one job, and then all of the other. -/
def serial (job : Bool) (commands others : List JobCommand) : List (Bool × JobCommand) :=
  commands.map (Prod.mk job) ++ others.map (Prod.mk !job)

def jobKeys (commands : List JobCommand) : List CString := commands.flatMap JobCommand.keys

/-- From the table the order runs to its end, leaves the map and writes the outputs. -/
def RunsTo (table : KeyTable) (order : List (Bool × JobCommand)) (store : Store)
    (outputs : Bool → List UInt8) : Prop :=
  ∃ ht, performOrder (some (KeyTable.raw table)) order = some (some ht, outputs) ∧ Represents ht store

/-! The commands on the map. -/

section Confinement
variable {keys : Set CString} {store store' : Store}

theorem update_eqOn (same : Set.EqOn store store' keys) (key : CString) (value : Option CString) :
    Set.EqOn (Function.update store key value) (Function.update store' key value) keys := by
  intro other inside
  by_cases here : other = key
  · rw [here, Function.update_self, Function.update_self]
  · rw [Function.update_of_ne here, Function.update_of_ne here, same inside]

theorem specWrite_eqOn (same : Set.EqOn store store' keys) (pairs : List (CString × CString)) :
    Set.EqOn (specWrite store pairs) (specWrite store' pairs) keys := by
  induction pairs generalizing store store' with
  | nil => exact same
  | cons pair pairs ih => exact ih (update_eqOn same pair.1 (some pair.2))

theorem specWrite_frame (store : Store) {pairs : List (CString × CString)} {key : CString}
    (other : key ∉ pairs.map Prod.fst) : specWrite store pairs key = store key := by
  induction pairs generalizing store with
  | nil => rfl
  | cons pair pairs ih =>
    simp only [List.map_cons, List.mem_cons, not_or] at other
    calc specWrite store (pair :: pairs) key
        = specWrite (Function.update store pair.1 (some pair.2)) pairs key := rfl
      _ = Function.update store pair.1 (some pair.2) key := ih _ other.2
      _ = store key := Function.update_of_ne other.1 ..

theorem specDelete_eqOn (same : Set.EqOn store store' keys) (deleted : List CString) :
    Set.EqOn (specDelete store deleted) (specDelete store' deleted) keys := by
  intro key inside
  rw [specDelete_apply, specDelete_apply, same inside]

theorem missing_congr {deleted : List CString} (same : ∀ key ∈ deleted, store key = store' key) :
    missing store deleted = missing store' deleted := by
  induction deleted generalizing store store' with
  | nil => rfl
  | cons key deleted ih =>
    obtain ⟨here, later⟩ := List.forall_mem_cons.mp same
    have updated : ∀ other ∈ deleted, Function.update store key none other = Function.update store' key none other :=
      fun other member => update_eqOn (fun _ => later _) key none member
    rw [missing, missing, here, ih updated]

theorem confined_specPerform {command : JobCommand} (keyed : Keyed command)
    (named : ∀ key ∈ command.keys, key ∈ keys) : Confined specPerform keys command := by
  cases keyed with
  | write pairs =>
    exact ⟨fun store key outside => specWrite_frame store fun member => outside (named key member),
      fun same => specWrite_eqOn same pairs, fun _ => rfl⟩
  | read read =>
    refine ⟨fun _ _ _ => rfl, id, fun {store store'} same => ?_⟩
    have lines : read.flatMap (fun key => readLine key (store key)) =
        read.flatMap (fun key => readLine key (store' key)) :=
      List.flatMap_congr fun key member => by rw [same (named key member)]
    simp only [specPerform, lines]
  | delete deleted =>
    refine ⟨fun store key outside => ?_, fun same => specDelete_eqOn same deleted, fun same => ?_⟩
    · have other : key ∉ deleted := fun member => outside (named key member)
      exact (specDelete_apply store deleted key).trans (if_neg other)
    · have agree : ∀ key ∈ deleted, _ := fun key member => same (named key member)
      simp only [specPerform, missing_congr agree]

end Confinement

/-! The commands on the table. -/

theorem perform_refined (table : KeyTable) {command : JobCommand} (keyed : Keyed command)
    (valid : ∀ key ∈ command.keys, Hashed key) :
    ∃ (next : KeyTable) (effects : Effects),
      perform true (some (KeyTable.raw table)) command = some (some (KeyTable.raw next), effects) ∧
        specPerform command table.contents = (next.contents, effects.out) := by
  cases keyed with
  | write pairs =>
    obtain ⟨next, written, contents⟩ := writePairs_raw table pairs valid
    refine ⟨next, Effects.notifying ⟨0, [], []⟩ pairs, ?_, ?_⟩
    · simp only [perform, kvsWrite, written, Option.map_some]
      rfl
    · rw [contents]
      rfl
  | read keys =>
    have read := readPairs_raw table keys valid
    refine ⟨table, Effects.notifying ⟨0, _, []⟩ [], ?_, rfl⟩
    simp only [perform, kvsRead, read, Option.map_some]
    rfl
  | delete keys =>
    obtain ⟨next, deleted, contents⟩ := deletePairs_raw table false keys valid
    refine ⟨next, Effects.notifying ⟨0, missingReport (missing table.contents keys), []⟩
      (keys.map fun key => (key, DELETED)), ?_, ?_⟩
    · simp only [perform, kvsDelete, deleted, Option.map_some]
      by_cases none : missing table.contents keys = [] <;> simp [missingReport, none]
    · rw [contents]
      rfl

/-- An order of valid commands runs to its end, and does what it does to the map. -/
theorem runsTo_together (table : KeyTable) {order : List (Bool × JobCommand)}
    (keyed : ∀ step ∈ order, Keyed step.2) (valid : ∀ step ∈ order, ∀ key ∈ step.2.keys, Hashed key) :
    RunsTo table order (together specPerform table.contents order).1
      (together specPerform table.contents order).2 := by
  induction order generalizing table with
  | nil => exact ⟨KeyTable.raw table, rfl, represents_raw table⟩
  | cons step order ih =>
    obtain ⟨job, command⟩ := step
    obtain ⟨keyed, keyed'⟩ := List.forall_mem_cons.mp keyed
    obtain ⟨valid, valid'⟩ := List.forall_mem_cons.mp valid
    obtain ⟨next, effects, performed, refined⟩ := perform_refined table keyed valid
    obtain ⟨ht, rest, represents⟩ := ih next keyed' valid'
    refine ⟨ht, ?_, ?_⟩
    · simp only [performOrder, performed, rest, together, refined, Option.bind_eq_bind, Option.bind_some]
    · simp only [together, refined]
      exact represents

theorem serial_interleaves (first second : List JobCommand) :
    Interleaves first second (serial false first second) ∧ Interleaves first second (serial true second first) := by
  unfold Interleaves serial
  simp [own_append, own_tagged, own_tagged_of_ne]

section Jobs
variable {first second : List JobCommand} {order : List (Bool × JobCommand)}

theorem mem_interleaving (interleaved : Interleaves first second order) {step : Bool × JobCommand}
    (member : step ∈ order) : step.2 ∈ if step.1 then second else first := by
  obtain ⟨job, command⟩ := step
  have here := mem_own.mpr member
  cases job with
  | false => exact interleaved.1 ▸ here
  | true => exact interleaved.2 ▸ here

/-- The keys of each job. -/
def keysOf (first second : List JobCommand) (job : Bool) : Set CString :=
  { key | key ∈ jobKeys (if job then second else first) }

theorem keysOf_disjoint (disjoint : ∀ key ∈ jobKeys first, key ∉ jobKeys second) (job other : Bool)
    (different : job ≠ other) : ∀ key ∈ keysOf first second job, key ∉ keysOf first second other := by
  intro key inside inside'
  cases job <;> cases other
  · exact different rfl
  · exact disjoint key inside inside'
  · exact disjoint key inside' inside
  · exact different rfl

/-- Two jobs on different keys leave the same map and write the same outputs in every
interleaving of their commands, as in the two serial runs. -/
theorem disjoint_jobs_serial (table : KeyTable) (keyed : ∀ command ∈ first ++ second, Keyed command)
    (alphanumeric : ∀ key ∈ jobKeys (first ++ second), Alphanumeric key)
    (disjoint : ∀ key ∈ jobKeys first, key ∉ jobKeys second)
    (interleaved : Interleaves first second order) :
    ∃ store outputs, RunsTo table order store outputs ∧
      RunsTo table (serial false first second) store outputs ∧
      RunsTo table (serial true second first) store outputs := by
  have among {order : List (Bool × JobCommand)} (interleaved : Interleaves first second order) :
      ∀ step ∈ order, step.2 ∈ first ++ second := by
    intro step member
    have own := mem_interleaving interleaved member
    split at own
    · exact List.mem_append_right first own
    · exact List.mem_append_left second own
  have confined : ∀ step ∈ order, Confined specPerform (keysOf first second step.1) step.2 := fun step member =>
    confined_specPerform (keyed _ (among interleaved step member)) fun _ named =>
      List.mem_flatMap.mpr ⟨step.2, mem_interleaving interleaved member, named⟩
  have runs {order' : List (Bool × JobCommand)} (interleaved' : Interleaves first second order') :
      RunsTo table order' (together specPerform table.contents order).1
        (together specPerform table.contents order).2 := by
    have reordered : ∀ job, own job order = own job order' := by
      intro job
      cases job with
      | false => rw [interleaved.1, interleaved'.1]
      | true => rw [interleaved.2, interleaved'.2]
    rw [together_congr (keysOf_disjoint disjoint) confined reordered]
    apply runsTo_together
    · exact fun step member => keyed _ (among interleaved' step member)
    · exact fun step member key named => hashed_of_alphanumeric
        (alphanumeric key (List.mem_flatMap.mpr ⟨step.2, among interleaved' step member, named⟩))
  obtain ⟨firstSerial, secondSerial⟩ := serial_interleaves first second
  exact ⟨_, _, runs interleaved, runs firstSerial, runs secondSerial⟩

end Jobs

/-! `a` and `A` share a bucket. -/

def lowerKey : CString := CString.ofBytes [97]
def upperKey : CString := CString.ofBytes [65]

def lowerJob : List JobCommand := [.write [(lowerKey, CString.ofBytes [49])], .read [lowerKey]]
def upperJob : List JobCommand := [.write [(upperKey, CString.ofBytes [50])], .delete [upperKey, upperKey]]

def alternating : List (Bool × JobCommand) :=
  [(false, .write [(lowerKey, CString.ofBytes [49])]), (true, .write [(upperKey, CString.ofBytes [50])]),
    (true, .delete [upperKey, upperKey]), (false, .read [lowerKey])]

theorem disjoint_jobs_in_one_bucket : bucket lowerKey = bucket upperKey ∧ ∃ store outputs,
    RunsTo (ChainedTable.Table.empty CString bucket) alternating store outputs ∧
      RunsTo (ChainedTable.Table.empty CString bucket) (serial false lowerJob upperJob) store outputs ∧
      RunsTo (ChainedTable.Table.empty CString bucket) (serial true upperJob lowerJob) store outputs := by
  have keyed : ∀ command ∈ lowerJob ++ upperJob, Keyed command := by
    simp only [lowerJob, upperJob, List.cons_append, List.nil_append, List.forall_mem_cons]
    exact ⟨.write _, .read _, .write _, .delete _, by simp⟩
  exact ⟨by decide, disjoint_jobs_serial _ keyed (by decide) (by decide) ⟨rfl, rfl⟩⟩

end IstKvs.DisjointJobs
