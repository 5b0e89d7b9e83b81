import Mathlib.Data.List.Basic

/-! Parsers that read a stream from its front. A call may accept, refuse and skip some more
of the stream, or have no defined result. A grammar of the accepted and one of the refused
texts describe it. -/

namespace IstKvs.Readings

variable {α β Kind : Type}

/-- `none` is a call without a defined result; the inner `none` is a refusal. -/
abbrev Outcome (α β : Type) := Option (Option α × List β)

/-- What one call does: the text it reads, as one of the two grammars has it, and what it
leaves. A refusal of a kind skips what is left by the rule for the kind. -/
inductive Reading (skip : Kind → List β → List β) (Accepted : α → List β → Prop)
    (Refused : Kind → List β → List β → Prop) (stream : List β) : Outcome α β → Prop where
  | undefined : Reading skip Accepted Refused stream none
  | accepted {result consumed rest} (split : stream = consumed ++ rest) (accepted : Accepted result consumed) :
      Reading skip Accepted Refused stream (some (some result, rest))
  | refused {kind consumed rest} (split : stream = consumed ++ rest) (refused : Refused kind consumed rest) :
      Reading skip Accepted Refused stream (some (none, skip kind rest))

/-- The two grammars describe the parser: every call is a reading, and every text of
theirs is read so. The grammar of the refused texts sees what is left as well, for a text
may be refused only at the end of the stream. -/
structure Describes (skip : Kind → List β → List β) (Accepted : α → List β → Prop)
    (Refused : Kind → List β → List β → Prop) (parse : List β → Outcome α β) : Prop where
  reading : ∀ stream, Reading skip Accepted Refused stream (parse stream)
  accepts : ∀ {result consumed}, Accepted result consumed →
    ∀ rest, parse (consumed ++ rest) = some (some result, rest)
  refuses : ∀ {kind consumed rest}, Refused kind consumed rest →
    parse (consumed ++ rest) = some (none, skip kind rest)

variable {skip : Kind → List β → List β} {Accepted : α → List β → Prop}
  {Refused : Kind → List β → List β → Prop} {parse : List β → Outcome α β} {stream rest : List β}

theorem Describes.accepted_iff (describes : Describes skip Accepted Refused parse) {result : α} :
    parse stream = some (some result, rest) ↔ ∃ consumed, stream = consumed ++ rest ∧ Accepted result consumed := by
  constructor
  · intro ran
    have reading := describes.reading stream
    rw [ran] at reading
    cases reading with
    | accepted split accepted => exact ⟨_, split, accepted⟩
  · rintro ⟨consumed, split, accepted⟩
    rw [split, describes.accepts accepted]

theorem Describes.refused_iff (describes : Describes skip Accepted Refused parse) {left : List β} :
    parse stream = some (none, left) ↔
      ∃ kind consumed rest, stream = consumed ++ rest ∧ Refused kind consumed rest ∧ left = skip kind rest := by
  constructor
  · intro ran
    have reading := describes.reading stream
    generalize outcome : some (none, left) = expected at ran
    rw [ran] at reading
    cases reading with
    | undefined | accepted => cases outcome
    | refused split refused =>
      cases outcome
      exact ⟨_, _, _, split, refused, rfl⟩
  · rintro ⟨kind, consumed, rest, split, refused, same⟩
    rw [split, describes.refuses refused, same]

end IstKvs.Readings
