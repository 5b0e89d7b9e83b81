import IstKvs.FinalNewline
import IstKvs.Library.Lines

/-! Whether an error costs only its own line. The parsers skip to the newline after they
have read ahead, so a newline among the bytes already read is not seen again. -/

namespace IstKvs.LineRecovery
open Lines Operations JobParser

theorem cleanup_eq (stream : List UInt8) : cleanup stream = afterMark newline stream := by
  induction stream with
  | nil => rfl
  | cons ch rest ih => rw [cleanup, afterMark, ih]

/-! Commands. -/

/-- An unknown command and an empty line are consumed to the end of their own line. -/
def CostsItsLine (stream : List UInt8) : Prop :=
  (getNext stream).1 = .cmdInvalid ∨ (getNext stream).1 = .cmdEmpty →
    Behind newline stream (getNext stream).2

/-- The bytes behind the first one that are read before the line is skipped. `WAIT ` is
five bytes, and `WRITE ` is tried on one more. -/
def lookAhead : List UInt8 → List UInt8
  | [] => []
  | first :: rest =>
      if first = 'W'.toUInt8 then rest.take (if rest.take 4 = text "AIT " then 4 else 5)
      else if first = 'R'.toUInt8 then rest.take 4
      else if first = 'D'.toUInt8 then rest.take 6
      else if first = 'S'.toUInt8 then rest.take 3
      else if first = 'B'.toUInt8 then rest.take 5
      else if first = 'H'.toUInt8 then rest.take 3
      else []

section Commands
variable {first : UInt8} {rest : List UInt8}

/-- What a branch leaves stands behind the line if the branch gives up. -/
def Recovers (stream : List UInt8) (got : Command × List UInt8) : Prop :=
  got.1 = .cmdInvalid ∨ got.1 = .cmdEmpty → got.2 = afterMark newline stream

/-- The condition of a branch that reads `ahead` behind the first byte. -/
def Seen (stream ahead : List UInt8) : Prop := newline ∉ ahead ∨ afterMark newline stream = []

theorem recovers_ite {condition : Prop} [Decidable condition] {stream ahead ahead' : List UInt8}
    {got other : Command × List UInt8} (yes : condition → (Recovers stream got ↔ Seen stream ahead))
    (no : ¬condition → (Recovers stream other ↔ Seen stream ahead')) :
    Recovers stream (if condition then got else other) ↔
      Seen stream (if condition then ahead else ahead') := by
  split
  next holds => exact yes holds
  next fails => exact no fails

/-- A command that is recognised has no newline in its word. -/
theorem recovers_recognised {stream ahead : List UInt8} {got : Command × List UInt8} {word : List UInt8}
    (matched : ahead = word) (oneLine : newline ∉ word) (valid : got.1 ≠ .cmdInvalid) (full : got.1 ≠ .cmdEmpty) :
    Recovers stream got ↔ Seen stream ahead := by
  subst matched
  exact iff_of_true (fun failed => absurd failed (not_or.mpr ⟨valid, full⟩)) (.inl oneLine)

/-- A branch that gives up after reading a number of bytes. -/
theorem recovers_skipped (other : first ≠ newline) (count : Nat) (rest : List UInt8) :
    Recovers (first :: rest) (.cmdInvalid, cleanup (rest.drop count)) ↔
      Seen (first :: rest) (rest.take count) := by
  have split : first :: rest = first :: rest.take count ++ rest.drop count := by
    rw [List.cons_append, List.take_append_drop]
  have front : newline ∉ first :: rest.take count ↔ newline ∉ rest.take count := by
    simp [Ne.symm other]
  have skips : cleanup (rest.drop count) = afterMark newline (first :: rest) ↔ Seen (first :: rest) (rest.take count) := by
    rw [Seen, ← front, cleanup_eq, split]
    exact afterMark_eq_iff ..
  exact (forall_prop_of_true (.inl rfl)).trans skips

theorem recovers_withArguments (other : first ≠ newline) {word : List UInt8} {command : Command}
    (oneLine : newline ∉ word) (valid : command ≠ .cmdInvalid) (full : command ≠ .cmdEmpty)
    (rest : List UInt8) :
    Recovers (first :: rest) (withArguments word command rest) ↔
      Seen (first :: rest) (rest.take word.length) := by
  unfold withArguments
  split
  next matched => exact recovers_recognised matched oneLine valid full
  next => exact recovers_skipped other _ rest

theorem recovers_alone (other : first ≠ newline) {word : List UInt8} {command : Command}
    (oneLine : newline ∉ word) (valid : command ≠ .cmdInvalid) (full : command ≠ .cmdEmpty)
    (rest : List UInt8) :
    Recovers (first :: rest) (alone word command rest) ↔
      Seen (first :: rest) (rest.take word.length) := by
  unfold alone
  split
  next matched =>
    have split := List.take_append_drop word.length rest
    rw [matched] at split ⊢
    split
    next => exact recovers_recognised rfl oneLine valid full
    next ch later found =>
      split
      next => exact recovers_recognised rfl oneLine valid full
      next different =>
        rw [found] at split
        have left : afterMark newline (first :: rest) = cleanup later := by
          rw [← split, afterMark, if_neg other, afterMark_plain oneLine, afterMark, if_neg different, cleanup_eq]
        exact iff_of_true (fun _ => left.symm) (.inl oneLine)
  next => exact recovers_skipped other _ rest

theorem recovers_waitOrWrite (other : first ≠ newline) (rest : List UInt8) :
    Recovers (first :: rest) (waitOrWrite rest) ↔
      Seen (first :: rest) (rest.take (if rest.take 4 = text "AIT " then 4 else 5)) := by
  unfold waitOrWrite
  split
  next matched => exact recovers_recognised matched (by decide) (by simp) (by simp)
  next =>
    have skipped := recovers_skipped other (4 + 1) rest
    have fifth : rest.take (4 + 1) = rest.take 4 ++ (rest.drop 4).take 1 := List.take_add
    have behind : rest.drop (4 + 1) = (rest.drop 4).drop 1 := List.drop_drop.symm
    split
    next ended =>
      rw [behind, ended] at skipped
      exact skipped
    next ch later found =>
      rw [found] at fifth behind
      rw [behind] at skipped
      split
      next matched =>
        exact recovers_recognised (fifth.trans matched) (by decide) (by simp) (by simp)
      next => exact skipped

/-- An unknown command or an empty line costs only its own line exactly when no newline is
among the bytes that its branch reads ahead, or nothing follows the line. -/
theorem command_costs_its_line_iff (stream : List UInt8) :
    CostsItsLine stream ↔ newline ∉ lookAhead stream ∨ afterMark newline stream = [] := by
  cases stream with
  | nil => exact iff_of_true (fun failed => absurd failed (by decide)) (.inl (by simp [lookAhead]))
  | cons first rest =>
    have same : CostsItsLine (first :: rest) ↔ Recovers (first :: rest) (getNext (first :: rest)) := by
      simp only [CostsItsLine, Recovers, behind_iff]
    have none : newline ∉ ([] : List UInt8) := by simp
    rw [same]
    unfold getNext lookAhead
    apply recovers_ite (fun isW => recovers_waitOrWrite (by rw [isW]; decide) rest)
    intro _
    apply recovers_ite fun isR =>
      recovers_withArguments (by rw [isR]; decide) (show newline ∉ text "EAD " by decide) (by simp) (by simp) rest
    intro _
    apply recovers_ite fun isD =>
      recovers_withArguments (by rw [isD]; decide) (show newline ∉ text "ELETE " by decide) (by simp) (by simp) rest
    intro _
    apply recovers_ite fun isS =>
      recovers_alone (by rw [isS]; decide) (show newline ∉ text "HOW" by decide) (by simp) (by simp) rest
    intro _
    apply recovers_ite fun isB =>
      recovers_alone (by rw [isB]; decide) (show newline ∉ text "ACKUP" by decide) (by simp) (by simp) rest
    intro _
    apply recovers_ite fun isH =>
      recovers_alone (by rw [isH]; decide) (show newline ∉ text "ELP" by decide) (by simp) (by simp) rest
    intro _
    refine iff_of_true (fun _ => ?_) (.inl none)
    rw [afterMark, ← cleanup_eq]
    split
    next isComment =>
      have other : first ≠ newline := by rw [isComment]; decide
      rw [if_neg other]
    next =>
      split
      next => rfl
      next => rfl

end Commands

/-- `R`, and a command on the next line. -/
theorem next_command_lost : ¬CostsItsLine (text "R\nSHOW\n") := by
  intro costs
  have left := behind_iff.mp (costs (.inl (by decide)))
  exact absurd left (by decide)

end IstKvs.LineRecovery
