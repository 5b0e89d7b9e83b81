import IstKvs.ReaderFacts

/-! What `read_uint` makes of a stream; the parsers of the server and of the client have
the same one. Its array has no room for a longer number, and at the end of the file
nothing is stored behind the digits. -/

namespace IstKvs.NumberReading
open Operations JobParser

def leadingDigits (stream : List UInt8) : List UInt8 := stream.takeWhile isDigit

def behindDigits (stream : List UInt8) : List UInt8 := stream.dropWhile isDigit

/-- The number, unless it is larger than `UINT_MAX`. -/
def expected (digits : List UInt8) : Option Nat :=
  if numeral digits > UINT_MAX then none else some (numeral digits)

/-- The stores stay inside `buf`, and the call gives the number of the leading digits and
the byte behind them, or NUL at the end of the file. -/
structure ReadsNumber (stack : Nat → UInt8) (stream : List UInt8) : Prop where
  inBounds : (readDigits (initialBuf stack) 0 stream).isSome = true
  result : readUint stack stream =
    some (expected (leadingDigits stream), (behindDigits stream).headD 0, (behindDigits stream).tail)

/-- What `buf` holds behind the digits that were stored. -/
def stale (stack : Nat → UInt8) (digits : List UInt8) : List UInt8 := (initialBuf stack).drop digits.length

/-- A text from its first digit on, if it has one behind white space and a sign. -/
def unsigned (text : List UInt8) : List UInt8 :=
  match text.dropWhile isspace with
  | [] => []
  | ch :: rest => if ch = minus ∨ ch = plus then rest else ch :: rest

/-- The bytes behind the digits end the number, and the digits among them do not change it:
there are none, or the number is too large without them, or it is 0 with them. -/
def Harmless (digits behind : List UInt8) : Prop :=
  let text := unsigned (digits ++ behind)
  behindDigits text ≠ [] ∧
    (leadingDigits text = digits ∨ numeral digits > UINT_MAX ∨ numeral (leadingDigits text) = 0)

/-! More digits. -/

section Digits
variable {digits more : List UInt8}

theorem numeral_append (digits more : List UInt8) :
    numeral (digits ++ more) =
      more.foldl (fun value ch => 10 * value + (ch.toNat - 48)) (numeral digits) :=
  List.foldl_append ..

theorem foldl_digits_ge (value : Nat) (more : List UInt8) :
    value ≤ more.foldl (fun value ch => 10 * value + (ch.toNat - 48)) value := by
  induction more generalizing value with
  | nil => exact Nat.le_refl value
  | cons ch more ih =>
    calc
      value ≤ 10 * value + (ch.toNat - 48) := by omega
      _ ≤ _ := ih _

theorem numeral_le_append (digits more : List UInt8) : numeral digits ≤ numeral (digits ++ more) := by
  rw [numeral_append]
  exact foldl_digits_ge _ more

/-- More digits leave a number as it is only if it is 0. -/
theorem numeral_append_eq_iff :
    numeral (digits ++ more) = numeral digits ↔ more = [] ∨ numeral (digits ++ more) = 0 := by
  cases more with
  | nil => simp
  | cons ch more =>
    have grows : 10 * numeral digits + (ch.toNat - 48) ≤ numeral (digits ++ ch :: more) := by
      rw [numeral_append, List.foldl_cons]
      exact foldl_digits_ge _ more
    constructor
    · intro same
      exact .inr (by omega)
    · rintro (empty | zero)
      · cases empty
      · omega

theorem expected_append_iff :
    expected (digits ++ more) = expected digits ↔
      more = [] ∨ numeral digits > UINT_MAX ∨ numeral (digits ++ more) = 0 := by
  have grows := numeral_le_append digits more
  unfold expected
  by_cases large : numeral digits > UINT_MAX
  · rw [if_pos large, if_pos (Nat.lt_of_lt_of_le large grows)]
    simp [large]
  · have fits : (if numeral (digits ++ more) > UINT_MAX then none else some (numeral (digits ++ more))) =
        some (numeral digits) ↔ numeral (digits ++ more) = numeral digits := by
      split
      next beyond =>
        refine iff_of_false (by simp) fun same => large ?_
        rwa [same] at beyond
      next => rw [Option.some.injEq]
    rw [if_neg large, fits, numeral_append_eq_iff]
    simp [large]

end Digits

/-! What `strtoul` makes of the array. -/

section Convert
variable {digits behind : List UInt8}

theorem digits_of_leading (text : List UInt8) : ∀ ch ∈ leadingDigits text, isDigit ch = true :=
  fun _ member => List.mem_takeWhile_imp member

theorem stop_of_behind {text rest : List UInt8} {ch : UInt8} (found : behindDigits text = ch :: rest) :
    isDigit ch = false := by
  have more : behindDigits text ≠ [] := by
    rw [found]
    exact List.cons_ne_nil ch rest
  have stop := List.head_dropWhile_not isDigit more
  simp only [behindDigits] at found
  simpa [found] using stop

theorem leading_append_behind (text : List UInt8) : leadingDigits text ++ behindDigits text = text :=
  List.takeWhile_append_dropWhile

theorem digits_split (stream : List UInt8) :
    ∃ digits later, stream = digits ++ later ∧ (∀ ch ∈ digits, isDigit ch = true) ∧
      ∀ ch rest, later = ch :: rest → isDigit ch = false :=
  ⟨leadingDigits stream, behindDigits stream, (leading_append_behind stream).symm, digits_of_leading stream,
    fun _ _ found => stop_of_behind found⟩

theorem decimalValue_eq (text : List UInt8) :
    decimalValue 0 text = if behindDigits text = [] then none else some (numeral (leadingDigits text)) := by
  have all := digits_of_leading text
  calc
    decimalValue 0 text = decimalValue 0 (leadingDigits text ++ behindDigits text) := by
      rw [leading_append_behind]
    _ = decimalValue (numeral (leadingDigits text)) (behindDigits text) := decimalValue_digits all ..
    _ = _ := by
      cases found : behindDigits text with
      | nil => rfl
      | cons ch rest =>
        rw [decimalValue, if_neg (by simp [stop_of_behind found]), if_neg (List.cons_ne_nil ch rest)]

/-- A text that starts with digits is read without a sign. -/
theorem unsigned_digits (all : ∀ ch ∈ digits, isDigit ch = true) (some : digits ≠ []) (behind : List UInt8) :
    unsigned (digits ++ behind) = digits ++ behind := by
  obtain ⟨first, rest, split⟩ := List.exists_cons_of_ne_nil some
  subst split
  obtain ⟨notSpace, notMinus, notPlus⟩ := digit_plain (all first List.mem_cons_self)
  rw [unsigned, List.cons_append, List.dropWhile_cons_of_neg (by simp [notSpace])]
  simp [notMinus, notPlus]

theorem leading_digits_append (all : ∀ ch ∈ digits, isDigit ch = true) (behind : List UInt8) :
    leadingDigits (digits ++ behind) = digits ++ leadingDigits behind ∧
      behindDigits (digits ++ behind) = behindDigits behind :=
  ⟨List.takeWhile_append_of_pos all, List.dropWhile_append_of_pos all⟩

theorem uintOf_digits (all : ∀ ch ∈ digits, isDigit ch = true) (some : digits ≠ []) (behind : List UInt8) :
    uintOf (digits ++ behind) =
      if behindDigits behind = [] then none else .some (expected (digits ++ leadingDigits behind)) := by
  have leading := leading_digits_append all behind
  have value : strtoul (digits ++ behind) = (decimalValue 0 (digits ++ behind)).map (min · ULONG_MAX) := by
    obtain ⟨first, rest, split⟩ := List.exists_cons_of_ne_nil some
    subst split
    exact strtoul_digit (all first List.mem_cons_self) _
  have largest : UINT_MAX < ULONG_MAX := by decide
  rw [uintOf, value, decimalValue_eq, leading.1, leading.2]
  split
  · rfl
  · rw [Option.map_some, Option.map_some, expected]
    split_ifs <;> grind

/-- A conversion that keeps 0 apart from the other numbers. -/
theorem converted_zero_iff {convert : Nat → Nat} (zero : ∀ value, convert value = 0 ↔ value = 0)
    (text : List UInt8) :
    (((decimalValue 0 text).map convert).map fun ul => if ul > UINT_MAX then none else some ul) = some (some 0) ↔
      behindDigits text ≠ [] ∧ numeral (leadingDigits text) = 0 := by
  rw [decimalValue_eq]
  by_cases ended : behindDigits text = []
  · simp [ended]
  · rw [if_neg ended, Option.map_some, Option.map_some, Option.some.injEq, ← zero]
    have same : (if convert (numeral (leadingDigits text)) > UINT_MAX then none
        else some (convert (numeral (leadingDigits text)))) = some 0 ↔ convert (numeral (leadingDigits text)) = 0 := by
      split
      next large => exact iff_of_false (by simp) (Nat.ne_zero_of_lt large)
      next => simp only [Option.some.injEq]
    rw [same]
    simp [ended]

/-- Without digits the number is 0 only if the array has a 0 there. -/
theorem uintOf_zero_iff (text : List UInt8) :
    uintOf text = some (some 0) ↔ behindDigits (unsigned text) ≠ [] ∧ numeral (leadingDigits (unsigned text)) = 0 := by
  have saturated : ∀ value, min value ULONG_MAX = 0 ↔ value = 0 := by
    intro value
    have largest : 0 < ULONG_MAX := by decide
    omega
  unfold uintOf strtoul unsigned
  cases text.dropWhile isspace with
  | nil => simp [behindDigits]
  | cons ch rest =>
    by_cases negative : ch = minus
    · simp only [negative, true_or, ↓reduceIte]
      apply converted_zero_iff
      intro value
      by_cases small : value ≤ ULONG_MAX
      · rw [if_pos small]
        unfold ULONG_MAX at *
        omega
      · rw [if_neg small]
        exact iff_of_false (by decide) (by omega)
    · by_cases positive : ch = plus
      · simp only [positive, or_true, ↓reduceIte]
        rw [if_neg (by decide)]
        exact converted_zero_iff saturated rest
      · simp only [negative, positive, or_self, ↓reduceIte]
        exact converted_zero_iff saturated (ch :: rest)

theorem uintOf_expected_iff (all : ∀ ch ∈ digits, isDigit ch = true) (behind : List UInt8) :
    uintOf (digits ++ behind) = some (expected digits) ↔ Harmless digits behind := by
  unfold Harmless
  by_cases empty : digits = []
  · subst empty
    rw [List.nil_append, show expected [] = some 0 from rfl, uintOf_zero_iff]
    apply and_congr_right
    intro _
    constructor
    · exact fun zero => .inr (.inr zero)
    · rintro (none | large | zero)
      · rw [none]
        rfl
      · cases large
      · exact zero
  · have leading := leading_digits_append all behind
    simp only [unsigned_digits all empty, leading.1, leading.2]
    rw [uintOf_digits all empty, List.append_right_eq_self]
    by_cases ended : behindDigits behind = []
    · simp [ended]
    · rw [if_neg ended, Option.some.injEq, expected_append_iff]
      simp [ended]

end Convert

section Read
variable {stack : Nat → UInt8} {digits : List UInt8}

/-- The array is full when sixteen digits have been stored. -/
theorem not_readsNumber_of_long {stream : List UInt8} (long : 16 ≤ (leadingDigits stream).length) :
    ¬ReadsNumber stack stream := by
  intro reads
  have overflow := @readUint_long stack _ (digits_of_leading stream) long (behindDigits stream)
  rw [leading_append_behind, reads.result] at overflow
  cases overflow

theorem readDigits_of_readUint {stream : List UInt8} {result : Option Nat × UInt8 × List UInt8}
    (ran : readUint stack stream = some result) : (readDigits (initialBuf stack) 0 stream).isSome = true := by
  simp only [readUint, Option.bind_eq_bind, Option.bind_eq_some_iff] at ran
  obtain ⟨filled, read, _⟩ := ran
  rw [read]
  rfl

theorem readsNumber_iff (stack : Nat → UInt8) (stream : List UInt8) :
    ReadsNumber stack stream ↔ readUint stack stream =
      some (expected (leadingDigits stream), (behindDigits stream).headD 0, (behindDigits stream).tail) :=
  ⟨ReadsNumber.result, fun ran => ⟨readDigits_of_readUint ran, ran⟩⟩

/-- `read_uint` reads the number inside its array exactly when there are at most fifteen
digits and, at the end of the file, what the array held is harmless. -/
theorem number_read_iff (stack : Nat → UInt8) (stream : List UInt8) :
    ReadsNumber stack stream ↔ (leadingDigits stream).length < 16 ∧
      (behindDigits stream ≠ [] ∨ Harmless (leadingDigits stream) (stale stack (leadingDigits stream))) := by
  have all := digits_of_leading stream
  have split := leading_append_behind stream
  by_cases short : (leadingDigits stream).length < 16
  · rw [readsNumber_iff]
    cases found : behindDigits stream with
    | cons ch rest =>
      have ran := @readUint_stop stack _ all ch (stop_of_behind found) short rest
      rw [← found, split] at ran
      exact iff_of_true ran ⟨short, .inl (List.cons_ne_nil ch rest)⟩
    | nil =>
      rw [found, List.append_nil] at split
      have ran := @readUint_eof stack _ all (Nat.le_of_lt short)
      rw [← uintOf_expected_iff all]
      generalize leadingDigits stream = digits at *
      subst split
      rw [ran]
      simp [short, stale]
  · exact iff_of_false (not_readsNumber_of_long (Nat.not_lt.mp short)) fun bounded => short bounded.1

end Read

/-- Sixteen digits overflow the array; a file that ends behind a 7 is read as 75 when the
array has a 5 behind it. -/
theorem number_misread : ¬ReadsNumber (fun _ => 0) (text "0000000000000001\n") ∧
    ¬ReadsNumber (fun i => if i = 1 then 53 else 0) (text "7") := by
  constructor
  · intro reads
    exact absurd reads.inBounds (by decide)
  · intro reads
    exact absurd reads.result (by decide)

end IstKvs.NumberReading
