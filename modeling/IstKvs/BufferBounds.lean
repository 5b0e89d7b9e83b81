import IstKvs.NumberReading
import IstKvs.RunJob
import IstKvs.TokenBounds

/-! When a turn of `run_job` leaves a buffer: a list with an item of `MAX_STRING_SIZE` bytes
or more, or a number of sixteen digits or more. Such a turn has no defined outcome. -/

namespace IstKvs.BufferBounds
open Operations JobParser RunJob TokenBounds
open NumberReading (leadingDigits behindDigits unsigned stale)

/-- One of the pairs has an item that is too long, and there is room for those before it. -/
inductive OverlongPairs : Nat → List UInt8 → Prop where
  | here {room : Nat} {stream : List UInt8} (long : OverlongPair stream) : OverlongPairs (room + 1) stream
  | later {room : Nat} {key value rest : List UInt8} (item : Item key) (item' : Item value)
      (later : OverlongPairs room rest) :
      OverlongPairs (room + 1) (key ++ comma :: (value ++ closeParen :: openParen :: rest))

/-- An argument of `WRITE`, behind the keyword. -/
def OverlongWrite (max : Nat) (stream : List UInt8) : Prop :=
  ∃ pairs, stream = openBracket :: openParen :: pairs ∧ OverlongPairs max pairs

def OverlongReadDelete (max : Nat) (stream : List UInt8) : Prop :=
  ∃ keys, stream = openBracket :: keys ∧ OverlongKey max keys

/-- The digits fill `buf`, or the file ends behind them and so does the text in `buf` only
with the array. -/
def OverlongWait (stack : Nat → UInt8) (stream : List UInt8) : Prop :=
  16 ≤ (leadingDigits stream).length ∨
    behindDigits stream = [] ∧ behindDigits (unsigned (stream ++ stale stack stream)) = []

/-- The command at the head of the stream makes its parser leave a buffer. -/
inductive Overflows (stack : Nat → UInt8) : List UInt8 → Prop where
  | write {rest : List UInt8} (long : OverlongWrite MAX_WRITE_SIZE rest) : Overflows stack (text "WRITE " ++ rest)
  | read {rest : List UInt8} (long : OverlongReadDelete MAX_WRITE_SIZE rest) : Overflows stack (text "READ " ++ rest)
  | delete {rest : List UInt8} (long : OverlongReadDelete MAX_WRITE_SIZE rest) :
      Overflows stack (text "DELETE " ++ rest)
  | wait {rest : List UInt8} (long : OverlongWait stack rest) : Overflows stack (text "WAIT " ++ rest)

/-! Lists. -/

section Lists
variable {stream rest : List UInt8}

theorem parsePair_items {key value : List UInt8} (item : Item key) (item' : Item value) (rest : List UInt8) :
    parsePair (key ++ comma :: (value ++ closeParen :: rest)) =
      some (some (CString.ofBytes key, CString.ofBytes value), rest) := by
  rw [parsePair, readField_item item ends_comma]
  simp only [Option.bind_eq_bind, Option.bind_some, ne_eq, not_true_eq_false, ↓reduceIte]
  rw [readField_item item' ends_closeParen]
  rfl

theorem split_at_paren {read : StringRead} (ran : readField stream = some read) (closed : read.value = 1) :
    ∃ item, Item item ∧ stream = item ++ closeParen :: read.rest := by
  have call := fieldRead stream
  rw [ran] at call
  cases call with
  | cut | space => cases closed
  | delimited item ends split =>
    rcases ends with ⟨_, other⟩ | ⟨same, _⟩ | ⟨_, other⟩
    · exact absurd (other.symm.trans closed) (by decide)
    · exact ⟨_, item, same ▸ split⟩
    · exact absurd (other.symm.trans closed) (by decide)

theorem parsePair_split {pair : CString × CString} (ran : parsePair stream = some (some pair, rest)) :
    ∃ key value, Item key ∧ Item value ∧ stream = key ++ comma :: (value ++ closeParen :: rest) := by
  simp only [parsePair, Option.bind_eq_bind, Option.bind_eq_some_iff] at ran
  obtain ⟨key, readKey, ran⟩ := ran
  split at ran
  next => cases ran
  next comma' =>
    obtain ⟨value, readValue, ran⟩ := Option.bind_eq_some_iff.mp ran
    split at ran
    next => cases ran
    next closed =>
      cases ran
      obtain ⟨item, kept, split⟩ := split_at_comma readKey (not_not.mp comma')
      obtain ⟨item', kept', split'⟩ := split_at_paren readValue (not_not.mp closed)
      exact ⟨item, item', kept, kept', by rw [split, split']⟩

theorem not_overlongPair {parsed : Parsed (CString × CString)} (ran : parsePair stream = some parsed) :
    ¬OverlongPair stream := by
  rw [← parsePair_isSome_iff, ran]
  rfl

/-- Behind a pair that was read, a later one is too long only if another parenthesis opens it. -/
theorem overlongPairs_behind_iff {room : Nat} {pair : CString × CString}
    (ran : parsePair stream = some (some pair, rest)) :
    OverlongPairs (room + 1) stream ↔ ∃ later, rest = openParen :: later ∧ OverlongPairs room later := by
  constructor
  · intro long
    cases long with
    | here long => exact absurd long (not_overlongPair ran)
    | later item item' later =>
      rw [parsePair_items item item'] at ran
      cases ran
      exact ⟨_, rfl, later⟩
  · rintro ⟨later, same, long⟩
    obtain ⟨key, value, item, item', split⟩ := parsePair_split ran
    subst split same
    exact .later item item' long

theorem parsePairs_none_iff (room : Nat) (stream : List UInt8) :
    parsePairs room stream = none ↔ OverlongPairs room stream := by
  induction room generalizing stream with
  | zero => exact iff_of_false nofun nofun
  | succ room ih =>
    cases ran : parsePair stream with
    | none =>
      have long : OverlongPair stream := by
        by_contra short
        rw [← parsePair_isSome_iff, ran] at short
        cases short
      exact iff_of_true (by simp [parsePairs, ran]) (.here long)
    | some parsed =>
      obtain ⟨pair, rest⟩ := parsed
      cases pair with
      | none =>
        refine iff_of_false (by simp [parsePairs, ran]) fun long => ?_
        cases long with
        | here long => exact not_overlongPair ran long
        | later item item' later =>
          rw [parsePair_items item item'] at ran
          cases ran
      | some pair =>
        rw [overlongPairs_behind_iff ran]
        cases rest with
        | nil => exact iff_of_false (by simp [parsePairs, ran]) (by rintro ⟨_, same, _⟩; cases same)
        | cons ch rest =>
          simp only [parsePairs, ran, Option.bind_eq_bind, Option.bind_some, List.cons.injEq]
          split_ifs with opened closed
          · subst opened
            simp only [true_and, exists_eq_left', ← ih rest]
            cases parsePairs room rest <;> simp
          · simp [opened]
          · simp [opened]

theorem parseWrite_none_iff (max : Nat) (stream : List UInt8) :
    parseWrite max stream = none ↔ OverlongWrite max stream := by
  have inner (rest : List UInt8) : ((parsePairs max rest).map (endList max)).isSome = true ↔ ¬OverlongPairs max rest := by
    rw [Option.isSome_map, ← parsePairs_none_iff, ← Option.not_isSome_iff_eq_none, not_not]
  rw [← Option.not_isSome_iff_eq_none, parseWrite, expect_isSome_iff]
  simp only [expect_isSome_iff, inner]
  unfold OverlongWrite
  push Not
  constructor
  · rintro ⟨rest, same, pairs, same', long⟩
    exact ⟨pairs, same' ▸ same, long⟩
  · rintro ⟨pairs, same, long⟩
    exact ⟨_, same, pairs, rfl, long⟩

theorem parseReadDelete_none_iff (max : Nat) (stream : List UInt8) :
    parseReadDelete max stream = none ↔ OverlongReadDelete max stream := by
  rw [← Option.not_isSome_iff_eq_none, parseReadDelete, expect_isSome_iff]
  simp only [Option.isSome_map, keys_isSome_iff]
  unfold OverlongReadDelete
  push Not
  rfl

end Lists

/-! Numbers. -/

section Numbers
variable {stack : Nat → UInt8}

theorem uintOf_none_iff (text : List UInt8) : uintOf text = none ↔ behindDigits (unsigned text) = [] := by
  have number (rest : List UInt8) (convert : Nat → Nat) :
      (decimalValue 0 rest).map convert = none ↔ behindDigits rest = [] := by
    rw [Option.map_eq_none_iff, NumberReading.decimalValue_eq]
    split <;> simp_all
  rw [uintOf, Option.map_eq_none_iff, strtoul, unsigned]
  cases text.dropWhile isspace with
  | nil => simp [behindDigits]
  | cons ch rest =>
    simp only
    by_cases negative : ch = minus
    · simp only [negative, true_or, ↓reduceIte]
      exact number rest _
    · by_cases positive : ch = plus
      · simp only [positive, or_true, ↓reduceIte]
        rw [if_neg (by decide)]
        exact number rest _
      · simp only [negative, positive, or_self, ↓reduceIte]
        exact number (ch :: rest) _

theorem readUint_none_iff (stream : List UInt8) : readUint stack stream = none ↔ OverlongWait stack stream := by
  have all := NumberReading.digits_of_leading stream
  have split := NumberReading.leading_append_behind stream
  unfold OverlongWait
  by_cases short : (leadingDigits stream).length < 16
  · rw [or_iff_right (Nat.not_le.mpr short)]
    cases found : behindDigits stream with
    | cons ch rest =>
      have ran := @readUint_stop stack _ all ch (NumberReading.stop_of_behind found) short rest
      rw [← found, split] at ran
      rw [ran]
      simp
    | nil =>
      rw [found, List.append_nil] at split
      have ran := @readUint_eof stack _ all (Nat.le_of_lt short)
      rw [split] at ran
      rw [ran, Option.map_eq_none_iff, uintOf_none_iff, stale]
      simp
  · have long := Nat.not_lt.mp short
    have ran := @readUint_long stack _ all long (behindDigits stream)
    rw [split] at ran
    exact iff_of_true ran (.inl long)

theorem parseWait_none_iff (stream : List UInt8) : parseWait stack stream = none ↔ OverlongWait stack stream := by
  rw [← readUint_none_iff, parseWait]
  cases readUint stack stream with
  | none => exact iff_of_true rfl rfl
  | some read =>
    obtain ⟨value, ch, rest⟩ := read
    simp only [Option.bind_eq_bind, Option.bind_some]
    cases value with
    | none => simp
    | some delay =>
      simp only
      split_ifs <;> simp

end Numbers

/-! One turn. -/

section Turn
variable {stack : Nat → UInt8} {stream rest : List UInt8}

/-- The keywords that their arguments follow. -/
def argumentWord : Command → Option (List UInt8)
  | .cmdWrite => some (text "WRITE ")
  | .cmdRead => some (text "READ ")
  | .cmdDelete => some (text "DELETE ")
  | .cmdWait => some (text "WAIT ")
  | _ => none

/-- A keyword that its arguments follow stands in front of what is left. -/
def Named (stream : List UInt8) (got : Command × List UInt8) : Prop :=
  ∀ word, argumentWord got.1 = some word → stream = word ++ got.2

theorem named_bare {got : Command × List UInt8} (bare : argumentWord got.1 = none) : Named stream got := by
  intro word named
  rw [bare] at named
  cases named

theorem named_ite {condition : Prop} [Decidable condition] {got other : Command × List UInt8}
    (yes : condition → Named stream got) (no : Named stream other) :
    Named stream (if condition then got else other) := by
  split
  next met => exact yes met
  next => exact no

theorem named_withArguments {word word' : List UInt8} {first : UInt8} {command : Command}
    (named : argumentWord command = some word) (whole : word = first :: word') (rest : List UInt8) :
    Named (first :: rest) (withArguments word' command rest) := by
  unfold withArguments
  split
  next found =>
    intro other named'
    rw [named] at named'
    cases named'
    rw [whole, List.cons_append]
    conv_lhs => rw [← List.take_append_drop word'.length rest, found]
  next => exact named_bare rfl

theorem named_alone (word : List UInt8) {command : Command} (bare : argumentWord command = none)
    (rest : List UInt8) : Named stream (alone word command rest) := by
  apply named_bare
  unfold alone
  repeat' split
  all_goals first | exact bare | rfl

theorem named_waitOrWrite (rest : List UInt8) : Named ('W'.toUInt8 :: rest) (waitOrWrite rest) := by
  unfold waitOrWrite
  split
  next found =>
    intro word named
    cases named
    show _ :: rest = _ :: (text "AIT " ++ rest.drop 4)
    rw [← found, List.take_append_drop]
    rfl
  next =>
    split
    next => exact named_bare rfl
    next ch later left =>
      split
      next found =>
        intro word named
        cases named
        show _ :: rest = _ :: (text "RITE " ++ later)
        rw [← found, List.append_assoc, List.singleton_append, ← left, List.take_append_drop]
        rfl
      next => exact named_bare rfl

theorem named_getNext (stream : List UInt8) : Named stream (getNext stream) := by
  cases stream with
  | nil => exact named_bare rfl
  | cons first rest =>
    rw [getNext]
    apply named_ite
    · intro isW
      subst isW
      exact named_waitOrWrite rest
    apply named_ite
    · intro isR
      subst isR
      exact named_withArguments rfl rfl rest
    apply named_ite
    · intro isD
      subst isD
      exact named_withArguments rfl rfl rest
    apply named_ite
    · exact fun _ => named_alone _ rfl rest
    apply named_ite
    · exact fun _ => named_alone _ rfl rest
    apply named_ite
    · exact fun _ => named_alone _ rfl rest
    apply named_ite
    · exact fun _ => named_bare rfl
    apply named_ite
    · exact fun _ => named_bare rfl
    · exact named_bare rfl

theorem overflows_of_none (undefined : nextCommand stack stream = none) : Overflows stack stream := by
  have named := named_getNext stream
  unfold nextCommand at undefined
  generalize getNext stream = got at named undefined
  obtain ⟨command, rest⟩ := got
  cases command with
  | cmdWrite =>
    rw [named _ rfl]
    exact .write ((parseWrite_none_iff _ rest).mp (Option.map_eq_none_iff.mp undefined))
  | cmdRead =>
    rw [named _ rfl]
    exact .read ((parseReadDelete_none_iff _ rest).mp (Option.map_eq_none_iff.mp undefined))
  | cmdDelete =>
    rw [named _ rfl]
    exact .delete ((parseReadDelete_none_iff _ rest).mp (Option.map_eq_none_iff.mp undefined))
  | cmdWait =>
    rw [named _ rfl]
    exact .wait ((parseWait_none_iff rest).mp (Option.map_eq_none_iff.mp undefined))
  | cmdShow | cmdBackup | cmdHelp | cmdEmpty | cmdInvalid | eoc => cases undefined

/-- A turn is undefined exactly when a parser leaves a buffer. -/
theorem nextCommand_none_iff : nextCommand stack stream = none ↔ Overflows stack stream := by
  refine ⟨overflows_of_none, fun overflows => ?_⟩
  cases overflows with
  | @write rest long =>
    have spelled : nextCommand stack (text "WRITE " ++ rest) = (parseWrite MAX_WRITE_SIZE rest).map _ := rfl
    rw [spelled, (parseWrite_none_iff _ rest).mpr long, Option.map_none]
  | @read rest long =>
    have spelled : nextCommand stack (text "READ " ++ rest) = (parseReadDelete MAX_WRITE_SIZE rest).map _ := rfl
    rw [spelled, (parseReadDelete_none_iff _ rest).mpr long, Option.map_none]
  | @delete rest long =>
    have spelled : nextCommand stack (text "DELETE " ++ rest) = (parseReadDelete MAX_WRITE_SIZE rest).map _ := rfl
    rw [spelled, (parseReadDelete_none_iff _ rest).mpr long, Option.map_none]
  | @wait rest long =>
    have spelled : nextCommand stack (text "WAIT " ++ rest) = (parseWait stack rest).map _ := rfl
    rw [spelled, (parseWait_none_iff rest).mpr long, Option.map_none]

/-- The commands of a file are defined exactly when no turn of its loop leaves a buffer. -/
theorem commands_isSome_iff (file : List UInt8) :
    (commands stack file).isSome = true ↔ ∀ stream, Reaches stack file stream → ¬Overflows stack stream := by
  induction size : file.length using Nat.strong_induction_on generalizing file with
  | h size ih =>
    subst size
    have here : Reaches stack file file := .start
    cases ran : nextCommand stack file with
    | none =>
      rw [commands_undefined ran]
      exact iff_of_false nofun fun bounded => bounded file here (nextCommand_none_iff.mp ran)
    | some parsed =>
      have defined : ¬Overflows stack file := by
        rw [← nextCommand_none_iff, ran]
        exact nofun
      obtain ⟨result, rest⟩ := parsed
      cases result with
      | none =>
        rw [commands_end ran]
        refine iff_of_true rfl fun stream reached => ?_
        rcases reaches_iff.mp reached with same | ⟨command, rest', ran', _⟩
        · exact same ▸ defined
        · rw [ran] at ran'
          cases ran'
      | some command =>
        rw [commands_turn ran, Option.isSome_map, ih rest.length (nextCommand_shorter ran) rest rfl]
        constructor
        · intro bounded stream reached
          rcases reaches_iff.mp reached with same | ⟨command', rest', ran', later⟩
          · exact same ▸ defined
          · rw [ran] at ran'
            cases ran'
            exact bounded stream later
        · exact fun bounded stream reached =>
            bounded stream (reaches_iff.mpr (.inr ⟨command, rest, ran, reached⟩))

end Turn

end IstKvs.BufferBounds
