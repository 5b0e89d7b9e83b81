import IstKvs.Library.LabelledRuns

/-! A FIFO with many writers. Each writes one record, whole, and the reader asks for as many
bytes as a record has; a call of it may also come to nothing. Then every read returns one
record, and the records come in the order in which they were written. -/

namespace IstKvs.RecordPipe
open LabelledRuns

variable {Writer Byte : Type}

/-- The record of each writer; all have one size, and the FIFO has room for one. -/
structure Writers (Writer Byte : Type) where
  size : Nat
  record : Writer → List Byte
  sized : ∀ writer, (record writer).length = size
  positive : 0 < size
  capacity : Nat
  room : size ≤ capacity

structure State (Writer Byte : Type) where
  written : Writer → Bool
  bytes : List Byte

inductive Action (Writer : Type) where
  | write (writer : Writer)
  | read
  | interrupted

inductive Event (Writer Byte : Type) where
  | wrote (writer : Writer)
  | got (data : List Byte)

variable [DecidableEq Writer] (writers : Writers Writer Byte)

/-- A write waits until all of the record fits, a read until there are bytes. -/
def step (state : State Writer Byte) : Action Writer → Option (State Writer Byte)
  | .write writer =>
      if state.written writer = false ∧ state.bytes.length + writers.size ≤ writers.capacity then
        some ⟨Function.update state.written writer true, state.bytes ++ writers.record writer⟩
      else none
  | .read => if state.bytes.length = 0 then none else some { state with bytes := state.bytes.drop writers.size }
  | .interrupted => some state

def observe (state : State Writer Byte) : Action Writer → List (Event Writer Byte)
  | .write writer => [.wrote writer]
  | .read => [.got (state.bytes.take writers.size)]
  | .interrupted => []

def machine : Machine (State Writer Byte) (Action Writer) (Event Writer Byte) where
  step := step writers
  observe := observe writers

def initial : State Writer Byte := ⟨fun _ => false, []⟩

/-- The writers in the order of their records. -/
def wroteIn : List (Event Writer Byte) → List Writer :=
  List.filterMap fun event => match event with
    | .wrote writer => some writer
    | .got _ => none

/-- What the reads returned. -/
def gotIn : List (Event Writer Byte) → List (List Byte) :=
  List.filterMap fun event => match event with
    | .got data => some data
    | .wrote _ => none

/-- The records that were read, and those that are still in the FIFO. -/
structure Framed (trace : List (Event Writer Byte)) (state : State Writer Byte)
    (taken inFlight : List Writer) : Prop where
  order : wroteIn trace = taken ++ inFlight
  got : gotIn trace = taken.map writers.record
  bytes : state.bytes = inFlight.flatMap writers.record
  once : (wroteIn trace).Nodup
  wrote : ∀ writer, state.written writer = true ↔ writer ∈ wroteIn trace

omit [DecidableEq Writer] in
theorem framed_initial : Framed writers [] initial [] [] where
  order := rfl
  got := rfl
  bytes := rfl
  once := List.nodup_nil
  wrote := fun _ => iff_of_false Bool.false_ne_true List.not_mem_nil

variable {writers} {trace : List (Event Writer Byte)} {state next : State Writer Byte} {taken inFlight : List Writer}

omit [DecidableEq Writer] in
/-- Where there are bytes, a whole record is at the head of the FIFO. -/
theorem Framed.head (framed : Framed writers trace state taken inFlight) (some : state.bytes.length ≠ 0) :
    ∃ first later, inFlight = first :: later ∧ state.bytes.take writers.size = writers.record first ∧
      state.bytes.drop writers.size = later.flatMap writers.record := by
  cases inFlight with
  | nil =>
    rw [framed.bytes] at some
    exact absurd rfl some
  | cons first later =>
    have size := writers.sized first
    refine ⟨first, later, rfl, ?_, ?_⟩
    · rw [framed.bytes, List.flatMap_cons, ← size, List.take_left]
    · rw [framed.bytes, List.flatMap_cons, ← size, List.drop_left]

omit [DecidableEq Writer] in
/-- A record has bytes, so an empty FIFO holds none. -/
theorem Framed.nothing_left (framed : Framed writers trace state taken inFlight) (empty : state.bytes = []) :
    inFlight = [] := by
  cases inFlight with
  | nil => rfl
  | cons first later =>
    have bytes := congrArg List.length (framed.bytes.symm.trans empty)
    have size := writers.sized first
    have positive := writers.positive
    rw [List.flatMap_cons, List.length_append, List.length_nil] at bytes
    omega

theorem Framed.keeps (framed : Framed writers trace state taken inFlight) {action : Action Writer}
    (stepped : step writers state action = some next) :
    ∃ taken' inFlight', Framed writers (trace ++ observe writers state action) next taken' inFlight' := by
  cases action with
  | write writer =>
    simp only [step] at stepped
    split_ifs at stepped with free
    cases stepped
    have wrote : wroteIn (trace ++ observe writers state (.write writer)) = wroteIn trace ++ [writer] :=
      List.filterMap_append
    have got : gotIn (trace ++ observe writers state (.write writer)) = gotIn trace :=
      List.filterMap_append.trans (List.append_nil _)
    have new : writer ∉ wroteIn trace := by
      intro member
      rw [(framed.wrote writer).mpr member] at free
      cases free.1
    refine ⟨taken, inFlight ++ [writer], ?_, ?_, ?_, ?_, ?_⟩
    · rw [wrote, framed.order, List.append_assoc]
    · rw [got, framed.got]
    · show state.bytes ++ writers.record writer = _
      rw [framed.bytes, List.flatMap_append, List.flatMap_singleton]
    · rw [wrote]
      exact List.nodup_append.mpr ⟨framed.once, List.pairwise_singleton _ writer,
        fun other member other' same => by
          rw [List.mem_singleton.mp same]
          exact fun equal => new (equal ▸ member)⟩
    · intro other
      rw [wrote, List.mem_append, List.mem_singleton, ← framed.wrote other]
      show Function.update state.written writer true other = true ↔ _
      by_cases same : other = writer
      · subst same
        simp
      · simp [same]
  | read =>
    simp only [step] at stepped
    split_ifs at stepped with empty
    cases stepped
    obtain ⟨first, later, split, head, rest⟩ := framed.head empty
    have wrote : wroteIn (trace ++ observe writers state .read) = wroteIn trace :=
      List.filterMap_append.trans (List.append_nil _)
    have got : gotIn (trace ++ observe writers state .read) = gotIn trace ++ [state.bytes.take writers.size] :=
      List.filterMap_append
    refine ⟨taken ++ [first], later, ?_, ?_, rest, ?_, ?_⟩
    · rw [wrote, framed.order, split, List.append_assoc]
      rfl
    · rw [got, framed.got, head, List.map_append]
      rfl
    · rw [wrote]
      exact framed.once
    · intro writer
      rw [wrote]
      exact framed.wrote writer
  | interrupted =>
    cases stepped
    have same : trace ++ observe writers state .interrupted = trace := List.append_nil trace
    rw [same]
    exact ⟨taken, inFlight, framed⟩

theorem framed_of_run {guard : State Writer Byte → Action Writer → Prop}
    (run : Run (machine writers) guard initial trace state) :
    ∃ taken inFlight, Framed writers trace state taken inFlight := by
  apply run.induct (fun trace state => ∃ taken inFlight, Framed writers trace state taken inFlight)
  · exact ⟨[], [], framed_initial writers⟩
  · rintro trace state action next ⟨taken, inFlight, framed⟩ _ stepped
    exact framed.keeps stepped

end IstKvs.RecordPipe
