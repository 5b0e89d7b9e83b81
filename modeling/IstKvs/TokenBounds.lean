import IstKvs.ClientParser
import IstKvs.ReaderFacts

/-! Where `read_string` writes. The loop stops after `max` bytes, and the terminator goes
behind them. -/

namespace IstKvs.TokenBounds
open JobParser

/-- The indices of `buffer` that the call writes. -/
def writtenAt (read : StringRead) : List Nat :=
  List.range read.stored.length ++ if read.terminated then [read.stored.length] else []

/-- The bytes up to the first that ends an item. -/
def leadingItem (stream : List UInt8) : List UInt8 := stream.takeWhile fun ch => decide (Plain ch)

def InBounds (max : Nat) (stream : List UInt8) : Prop := ∀ i ∈ writtenAt (readString max stream), i < max

/-- An item that fills a buffer of `MAX_STRING_SIZE` bytes. -/
def Overlong (stream : List UInt8) : Prop := MAX_STRING_SIZE ≤ (leadingItem stream).length

/-- One of the two items of a pair is too long. -/
inductive OverlongPair : List UInt8 → Prop where
  | key {stream : List UInt8} (long : Overlong stream) : OverlongPair stream
  | value {key rest : List UInt8} (item : Item key) (long : Overlong rest) : OverlongPair (key ++ comma :: rest)

/-- One of the items of a list is too long, and there is room for those before it. -/
inductive OverlongKey : Nat → List UInt8 → Prop where
  | here {room : Nat} {stream : List UInt8} (long : Overlong stream) : OverlongKey (room + 1) stream
  | later {room : Nat} {key rest : List UInt8} (item : Item key) (later : OverlongKey room rest) :
      OverlongKey (room + 1) (key ++ comma :: rest)

/-! One call. -/

theorem mem_writtenAt {read : StringRead} {i : Nat} : i ∈ writtenAt read ↔ i < read.size := by
  unfold writtenAt StringRead.size
  rw [List.mem_append, List.mem_range]
  split
  · rw [List.mem_singleton]
    omega
  · simp

theorem leadingItem_stop {item : List UInt8} (plain : ∀ ch ∈ item, Plain ch) {ch : UInt8} (stop : ¬Plain ch)
    (rest : List UInt8) : leadingItem (item ++ ch :: rest) = item := by
  unfold leadingItem
  rw [List.takeWhile_append_of_pos (by simpa using plain), List.takeWhile_cons_of_neg (by simpa using stop),
    List.append_nil]

theorem leadingItem_plain {item : List UInt8} (plain : ∀ ch ∈ item, Plain ch) (rest : List UInt8) :
    leadingItem (item ++ rest) = item ++ leadingItem rest :=
  List.takeWhile_append_of_pos (by simpa using plain)

/-- A call fills its buffer up to the terminator when the item is shorter, and by one byte
too much otherwise. -/
theorem size_le_iff {max : Nat} {stream : List UInt8} {read : StringRead} (scan : Scan max stream read) :
    read.size ≤ max ↔ (leadingItem stream).length < max := by
  cases scan with
  | cut plain short =>
    have whole := leadingItem_plain plain []
    rw [List.append_nil] at whole
    rw [whole]
    exact iff_of_true (Nat.le_of_lt short) (by simpa [leadingItem] using short)
  | space plain short =>
    rw [leadingItem_stop plain (by decide)]
    exact iff_of_true (Nat.le_of_lt short) short
  | comma plain short | closeParen plain short | closeBracket plain short =>
    rw [leadingItem_stop plain (by decide)]
    exact iff_of_true short short
  | full plain long =>
    rw [leadingItem_plain plain, List.length_append]
    simp only [StringRead.size, ↓reduceIte]
    omega

theorem inBounds_iff (max : Nat) (stream : List UInt8) :
    InBounds max stream ↔ (leadingItem stream).length < max := by
  rw [← size_le_iff (readString_scan max stream)]
  unfold InBounds
  simp only [mem_writtenAt]
  exact ⟨fun below => Nat.le_of_not_lt fun beyond => Nat.lt_irrefl _ (below max beyond),
    fun bound i inside => Nat.lt_of_lt_of_le inside bound⟩

/-! The calls of the parsers. -/

section Calls
variable {stream : List UInt8}

theorem readField_none_iff : readField stream = none ↔ Overlong stream := by
  have bounds := size_le_iff (readString_scan MAX_STRING_SIZE stream)
  unfold Overlong
  rw [← Nat.not_lt, ← bounds, readField]
  simp

theorem split_at_comma {read : StringRead} (ran : readField stream = some read) (comma' : read.value = 0) :
    ∃ item, Item item ∧ stream = item ++ comma :: read.rest := by
  have call := fieldRead stream
  rw [ran] at call
  cases call with
  | cut | space => cases comma'
  | delimited item ends split =>
    rcases ends with ⟨same, _⟩ | ⟨_, other⟩ | ⟨_, other⟩
    · exact ⟨_, item, same ▸ split⟩
    · exact absurd (other.symm.trans comma') (by decide)
    · exact absurd (other.symm.trans comma') (by decide)

theorem value_cases {read : StringRead} (ran : readField stream = some read) :
    (read.value < 0 ∨ read.value = 1) ∨ read.value = 2 ∨ read.value = 0 := by
  have call := fieldRead stream
  rw [ran] at call
  cases call with
  | cut | space => exact .inl (.inl (show (-1 : Int) < 0 by decide))
  | delimited item ends split =>
    rcases ends with ⟨_, same⟩ | ⟨_, same⟩ | ⟨_, same⟩
    · exact .inr (.inr same)
    · exact .inl (.inr same)
    · exact .inr (.inl same)

/-- The first call overflows its buffer, or it returns 0 and what comes behind the comma
does not fit. -/
theorem overlong_next_iff {Next Whole : List UInt8 → Prop} (whole : ∀ stream, Whole stream ↔
      Overlong stream ∨ ∃ item rest, Item item ∧ stream = item ++ comma :: rest ∧ Next rest) :
    Whole stream ↔ readField stream = none ∨
      ∃ read, readField stream = some read ∧ read.value = 0 ∧ Next read.rest := by
  rw [whole, ← readField_none_iff]
  apply or_congr Iff.rfl
  constructor
  · rintro ⟨item, rest, kept, split, next⟩
    rw [split]
    exact ⟨_, readField_item kept ends_comma rest, rfl, next⟩
  · rintro ⟨read, ran, zero, next⟩
    obtain ⟨item, kept, split⟩ := split_at_comma ran zero
    exact ⟨item, read.rest, kept, split, next⟩

theorem overlongPair_iff : OverlongPair stream ↔ readField stream = none ∨
    ∃ read, readField stream = some read ∧ read.value = 0 ∧ Overlong read.rest := by
  apply overlong_next_iff
  intro stream
  constructor
  · intro long
    cases long with
    | key long => exact .inl long
    | value item long => exact .inr ⟨_, _, item, rfl, long⟩
  · rintro (long | ⟨item, rest, kept, split, long⟩)
    · exact .key long
    · exact split ▸ .value kept long

theorem overlongKey_iff {room : Nat} : OverlongKey (room + 1) stream ↔ readField stream = none ∨
    ∃ read, readField stream = some read ∧ read.value = 0 ∧ OverlongKey room read.rest := by
  apply overlong_next_iff
  intro stream
  constructor
  · intro long
    cases long with
    | here long => exact .inl long
    | later item later => exact .inr ⟨_, _, item, rfl, later⟩
  · rintro (long | ⟨item, rest, kept, split, later⟩)
    · exact .here long
    · exact split ▸ .later kept later

theorem parsePair_isSome_iff : (parsePair stream).isSome = true ↔ ¬OverlongPair stream := by
  rw [overlongPair_iff]
  cases ran : readField stream with
  | none => simp [parsePair, ran]
  | some key =>
    by_cases zero : key.value = 0
    · cases later : readField key.rest with
      | none => simp [parsePair, ran, zero, later, readField_none_iff.mp later]
      | some value =>
        have fits : ¬Overlong key.rest := by simp [← readField_none_iff, later]
        have stored : (parsePair stream).isSome = true := by
          simp only [parsePair, ran, later, Option.bind_eq_bind, Option.bind_some, zero]
          split_ifs <;> rfl
        simp [stored, fits]
    · simp [parsePair, ran, zero]

/-- A loop that reads an item in each turn and goes on behind a comma. -/
theorem loop_isSome_iff {α : Type} {loop : Nat → List UInt8 → Option α}
    (zero : ∀ stream, (loop 0 stream).isSome = true)
    (succ : ∀ room stream, (loop (room + 1) stream).isSome =
      (readField stream).any fun read => read.value != 0 || (loop room read.rest).isSome)
    (room : Nat) (stream : List UInt8) : (loop room stream).isSome = true ↔ ¬OverlongKey room stream := by
  induction room generalizing stream with
  | zero => exact iff_of_true (zero stream) fun long => by cases long
  | succ room ih =>
    rw [succ, overlongKey_iff]
    cases ran : readField stream with
    | none => simp
    | some read =>
      by_cases goesOn : read.value = 0
      · simp [goesOn, ih]
      · simp [goesOn]

/-- The three ends of a turn of such a loop. -/
theorem turn_isSome {α : Type} {read : StringRead} (ran : readField stream = some read) {failed closed : α}
    {more : Option α} :
    (if read.value < 0 ∨ read.value = 1 then some failed else if read.value = 2 then some closed else more).isSome =
      (read.value != 0 || more.isSome) := by
  rcases value_cases ran with isFailed | isClosed | isComma
  · have other : read.value ≠ 0 := by omega
    simp [isFailed, other]
  · simp [isClosed]
  · simp [isComma]

/-- The loop of `parse_read_delete`. -/
theorem keys_isSome_iff (room : Nat) (stream : List UInt8) :
    (parseKeys room stream).isSome = true ↔ ¬OverlongKey room stream := by
  apply loop_isSome_iff (fun _ => rfl)
  intro room stream
  cases ran : readField stream with
  | none => simp [parseKeys, ran]
  | some read =>
    simp only [parseKeys, ran, Option.bind_eq_bind, Option.bind_some, turn_isSome ran, Option.any_some]
    cases parseKeys room read.rest <;> rfl

/-- The loop of `parse_list`; `output` decides nothing here. -/
theorem listKeys_isSome_iff (room : Nat) (stream : List UInt8) :
    (ClientParser.parseKeys room 2 stream).isSome = true ↔ ¬OverlongKey room stream := by
  have anyOutput (room : Nat) (output : Int) (stream : List UInt8) :
      (ClientParser.parseKeys room output stream).isSome = (ClientParser.parseKeys room 2 stream).isSome := by
    cases room <;> rfl
  refine @loop_isSome_iff _ (fun room => ClientParser.parseKeys room 2) (fun _ => rfl) ?_ room stream
  intro room stream
  cases ran : readField stream with
  | none => simp [ClientParser.parseKeys, ran]
  | some read =>
    simp only [ClientParser.parseKeys, ran, Option.bind_eq_bind, Option.bind_some, turn_isSome ran, Option.any_some]
    rw [← anyOutput room read.value]
    cases ClientParser.parseKeys room read.value read.rest <;> rfl

theorem expect_isSome_iff {α : Type} (wanted : UInt8) (next : List UInt8 → Option (Parsed α)) :
    (expect wanted stream next).isSome = true ↔ ∀ rest, stream = wanted :: rest → (next rest).isSome = true := by
  cases stream with
  | nil => simp [expect]
  | cons ch rest =>
    rw [expect]
    split
    next same => simp [same]
    next other => simp [other]

end Calls

/-- `read_string` stays inside a buffer of `max` bytes exactly when an item shorter than
that is at the front of the stream. Its callers stay inside theirs exactly when they come
to no item of `MAX_STRING_SIZE` bytes or more. -/
theorem token_in_bounds_iff (max : Nat) (stream : List UInt8) :
    (InBounds max stream ↔ (leadingItem stream).length < max) ∧
    ((parsePair stream).isSome = true ↔ ¬OverlongPair stream) ∧
    ((parseReadDelete max stream).isSome = true ↔
      ∀ keys, stream = openBracket :: keys → ¬OverlongKey max keys) ∧
    ((ClientParser.parseList max stream).isSome = true ↔
      ∀ keys, stream = openBracket :: keys → ¬OverlongKey max keys) := by
  refine ⟨inBounds_iff max stream, parsePair_isSome_iff, ?_, ?_⟩
  · rw [parseReadDelete, expect_isSome_iff]
    simp only [Option.isSome_map, keys_isSome_iff]
  · rw [ClientParser.parseList, expect_isSome_iff]
    simp only [Option.isSome_map, listKeys_isSome_iff]

/-- Forty letters without a delimiter: the terminator goes to `buffer[40]`. -/
theorem terminator_outside_buffer :
    ¬InBounds MAX_STRING_SIZE (List.replicate MAX_STRING_SIZE 97) ∧
      parsePair (List.replicate MAX_STRING_SIZE 97) = none ∧
      parseReadDelete MAX_WRITE_SIZE (openBracket :: List.replicate MAX_STRING_SIZE 97) = none ∧
      ClientParser.parseList 1 (openBracket :: List.replicate MAX_STRING_SIZE 97) = none := by
  have outside : MAX_STRING_SIZE ∈ writtenAt (readString MAX_STRING_SIZE (List.replicate MAX_STRING_SIZE 97)) := by
    decide
  exact ⟨fun inside => absurd (inside _ outside) (by decide), by decide, by decide, by decide⟩

end IstKvs.TokenBounds
