import IstKvs.LineRecovery
import IstKvs.ParserReadings

/-! Whether refused arguments cost only their own line. A fault is noticed after the byte
that shows it has been read, and a fault inside a pair is skipped for twice. -/

namespace IstKvs.ArgumentRecovery
open Lines Operations JobParser ParserReadings BufferBounds
open LineRecovery (cleanup_eq)
open FinalNewline (parseWait_eof)
open NumberReading (digits_split)

/-- The call stays inside its buffers, and a refusal leaves what stands behind the line of
the arguments. -/
def CostsLine {α : Type} (stream : List UInt8) (outcome : Option (Parsed α)) : Prop :=
  outcome ≠ none ∧ ∀ rest, outcome = some (none, rest) → Behind newline stream rest

/-- The refused text lies in one line, and its fault is not inside a pair. -/
def FaultInLine (Refused : Bool → List UInt8 → List UInt8 → Prop) (stream : List UInt8) : Prop :=
  ∀ twice consumed rest, stream = consumed ++ rest → Refused twice consumed rest →
    twice = false ∧ newline ∉ consumed

/-- The calls of `cleanup` end behind the line exactly when they skip no line of their own. -/
theorem skipLines_behind_iff (twice : Bool) (consumed rest : List UInt8) :
    Behind newline (consumed ++ rest) (skipLines twice rest) ↔
      (twice = false ∧ newline ∉ consumed) ∨ afterMark newline (consumed ++ rest) = [] := by
  rw [behind_iff, skipLines]
  cases twice with
  | false =>
    rw [if_neg Bool.false_ne_true, cleanup_eq, afterMark_eq_iff]
    simp only [true_and]
  | true =>
    rw [if_pos rfl, cleanup_eq, cleanup_eq, afterMark_twice_iff]
    simp

theorem costs_line_iff {α : Type} {Refused : Bool → List UInt8 → List UInt8 → Prop} {stream : List UInt8}
    {outcome : Option (Parsed α)} {Overlong : Prop} (undefined : outcome = none ↔ Overlong)
    (refused : ∀ left, outcome = some (none, left) ↔
      ∃ twice consumed rest, stream = consumed ++ rest ∧ Refused twice consumed rest ∧ left = skipLines twice rest) :
    CostsLine stream outcome ↔ ¬Overlong ∧ (FaultInLine Refused stream ∨ afterMark newline stream = []) := by
  apply and_congr (not_congr undefined)
  constructor
  · intro costs
    by_cases last : afterMark newline stream = []
    · exact .inr last
    · left
      intro twice consumed rest split fault
      have behind := costs _ ((refused _).mpr ⟨twice, consumed, rest, split, fault, rfl⟩)
      subst split
      exact ((skipLines_behind_iff twice consumed rest).mp behind).resolve_right last
  · intro condition left ran
    obtain ⟨twice, consumed, rest, split, fault, same⟩ := (refused left).mp ran
    subst split same
    apply (skipLines_behind_iff twice consumed rest).mpr
    exact condition.imp_left fun inLine => inLine twice consumed rest rfl fault

/-! The argument of `WAIT`. -/

inductive RefusedWait (stack : Nat → UInt8) : Bool → List UInt8 → List UInt8 → Prop where
  | tooLarge {digits rest : List UInt8} {ch : UInt8} (all : ∀ ch ∈ digits, isDigit ch = true)
      (stop : isDigit ch = false) (short : digits.length < 16) (large : UINT_MAX < numeral digits) :
      RefusedWait stack false (digits ++ [ch]) rest
  | other {digits rest : List UInt8} {ch : UInt8} (all : ∀ ch ∈ digits, isDigit ch = true)
      (stop : isDigit ch = false) (short : digits.length < 16)
      (bad : ch ≠ space ∧ ch ≠ newline ∧ ch ≠ 0) : RefusedWait stack false (digits ++ [ch]) rest
  | cut {digits : List UInt8} (all : ∀ ch ∈ digits, isDigit ch = true) (short : digits.length < 16)
      (large : uintOf (digits ++ (initialBuf stack).drop digits.length) = some none) :
      RefusedWait stack false digits []

section Wait
variable {stack : Nat → UInt8} {digits : List UInt8}

theorem parseWait_stop (all : ∀ ch ∈ digits, isDigit ch = true) {ch : UInt8} (stop : isDigit ch = false)
    (short : digits.length < 16) (rest : List UInt8) :
    parseWait stack (digits ++ ch :: rest) =
      some (if UINT_MAX < numeral digits then (none, cleanup rest)
        else if ch = space then (some (numeral digits), cleanup rest)
        else if ch = newline ∨ ch = 0 then (some (numeral digits), rest)
        else (none, cleanup rest)) := by
  rw [parseWait, readUint_stop all stop short]
  simp only [Option.bind_eq_bind, Option.bind_some]
  split_ifs <;> rfl

theorem parseWait_refuses {twice : Bool} {consumed rest : List UInt8}
    (refused : RefusedWait stack twice consumed rest) :
    parseWait stack (consumed ++ rest) = some (none, skipLines twice rest) := by
  cases refused with
  | tooLarge all stop short large =>
    rw [List.append_assoc, List.singleton_append, parseWait_stop all stop short, if_pos large]
    rfl
  | other all stop short bad =>
    obtain ⟨notSpace, notEnd⟩ := bad
    rw [List.append_assoc, List.singleton_append, parseWait_stop all stop short, if_neg notSpace,
      if_neg (not_or.mpr notEnd), ite_self]
    rfl
  | cut all short large =>
    rw [List.append_nil, parseWait_eof all (Nat.le_of_lt short), large]
    rfl

theorem parseWait_refused {stream left : List UInt8} (ran : parseWait stack stream = some (none, left)) :
    ∃ twice consumed rest, stream = consumed ++ rest ∧ RefusedWait stack twice consumed rest ∧
      left = skipLines twice rest := by
  obtain ⟨digits, later, split, all, stop⟩ := digits_split stream
  subst split
  by_cases short : digits.length < 16
  · cases later with
    | nil =>
      rw [List.append_nil, parseWait_eof all (Nat.le_of_lt short)] at ran
      obtain ⟨value, large, same⟩ := Option.map_eq_some_iff.mp ran
      cases same
      exact ⟨false, digits, [], rfl, .cut all short large, rfl⟩
    | cons ch rest =>
      have split : digits ++ ch :: rest = digits ++ [ch] ++ rest := by simp
      have notDigit := stop ch rest rfl
      rw [parseWait_stop all notDigit short] at ran
      by_cases large : UINT_MAX < numeral digits
      · rw [if_pos large] at ran
        cases ran
        exact ⟨false, digits ++ [ch], rest, split, .tooLarge all notDigit short large, rfl⟩
      · rw [if_neg large] at ran
        split_ifs at ran with isSpace ended
        · cases ran
        · cases ran
        · cases ran
          exact ⟨false, digits ++ [ch], rest, split, .other all notDigit short ⟨isSpace, not_or.mp ended⟩, rfl⟩
  · rw [parseWait, readUint_long all (Nat.not_lt.mp short)] at ran
    cases ran

theorem parseWait_refused_iff (stack : Nat → UInt8) (stream left : List UInt8) :
    parseWait stack stream = some (none, left) ↔
      ∃ twice consumed rest, stream = consumed ++ rest ∧ RefusedWait stack twice consumed rest ∧
        left = skipLines twice rest := by
  constructor
  · exact parseWait_refused
  · rintro ⟨twice, consumed, rest, split, refused, same⟩
    rw [split, parseWait_refuses refused, same]

end Wait

/-- Refused arguments cost only their own line exactly when no item or number is too long for
its buffer and the refused text, up to the byte that shows the fault, lies in the line and
the fault is not inside a pair, or nothing follows the line. -/
theorem arguments_cost_their_line_iff (max : Nat) (stack : Nat → UInt8) (stream : List UInt8) :
    (CostsLine stream (parseWrite max stream) ↔ ¬OverlongWrite max stream ∧
      (FaultInLine (RefusedWrite max) stream ∨ afterMark newline stream = [])) ∧
    (CostsLine stream (parseReadDelete max stream) ↔ ¬OverlongReadDelete max stream ∧
      (FaultInLine (RefusedReadDelete max) stream ∨ afterMark newline stream = [])) ∧
    (CostsLine stream (parseWait stack stream) ↔ ¬OverlongWait stack stream ∧
      (FaultInLine (RefusedWait stack) stream ∨ afterMark newline stream = [])) := by
  refine ⟨?_, ?_, ?_⟩
  · exact costs_line_iff (parseWrite_none_iff max stream) fun left => (parseWrite_describes max).refused_iff
  · exact costs_line_iff (parseReadDelete_none_iff max stream) fun left => (parseReadDelete_describes max).refused_iff
  · exact costs_line_iff (parseWait_none_iff stream) (parseWait_refused_iff stack stream)

/-- A space in a key, and a command on the next line. -/
theorem next_line_skipped : ¬CostsLine (text "[(a b,c)]\nSHOW\n") (parseWrite MAX_WRITE_SIZE (text "[(a b,c)]\nSHOW\n")) := by
  intro costs
  have ran : parseWrite MAX_WRITE_SIZE (text "[(a b,c)]\nSHOW\n") = some (none, []) := by decide
  have left := behind_iff.mp (costs.2 [] ran)
  exact absurd left (by decide)

end IstKvs.ArgumentRecovery
