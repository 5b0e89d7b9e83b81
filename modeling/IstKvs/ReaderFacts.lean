import IstKvs.JobParser
import Mathlib.Tactic.Common

/-! What the readers of `parser.c` do, one specification for each. -/

namespace IstKvs.JobParser
open Operations

/-! What `read_string` does, by the first byte that is not plain. -/

def Plain (ch : UInt8) : Prop :=
  ch ≠ space ∧ ch ≠ comma ∧ ch ≠ closeParen ∧ ch ≠ closeBracket

instance (ch : UInt8) : Decidable (Plain ch) := inferInstanceAs (Decidable (_ ∧ _))

inductive Scan (max : Nat) : List UInt8 → StringRead → Prop where
  | cut {item : List UInt8} (plain : ∀ ch ∈ item, Plain ch) (short : item.length < max) :
      Scan max item ⟨-1, item, false, []⟩
  | space {item rest : List UInt8} (plain : ∀ ch ∈ item, Plain ch) (short : item.length < max) :
      Scan max (item ++ space :: rest) ⟨-1, item, false, rest⟩
  | comma {item rest : List UInt8} (plain : ∀ ch ∈ item, Plain ch) (short : item.length < max) :
      Scan max (item ++ comma :: rest) ⟨0, item, true, rest⟩
  | closeParen {item rest : List UInt8} (plain : ∀ ch ∈ item, Plain ch) (short : item.length < max) :
      Scan max (item ++ closeParen :: rest) ⟨1, item, true, rest⟩
  | closeBracket {item rest : List UInt8} (plain : ∀ ch ∈ item, Plain ch) (short : item.length < max) :
      Scan max (item ++ closeBracket :: rest) ⟨2, item, true, rest⟩
  | full {item rest : List UInt8} (plain : ∀ ch ∈ item, Plain ch) (long : item.length = max) :
      Scan max (item ++ rest) ⟨-1, item, true, rest⟩

theorem readString_plain (turns : Nat) {ch : UInt8} (plain : Plain ch) (rest : List UInt8) :
    readString (turns + 1) (ch :: rest) =
      { readString turns rest with stored := ch :: (readString turns rest).stored } := by
  obtain ⟨notSpace, notComma, notParen, notBracket⟩ := plain
  simp only [readString, if_neg notSpace, if_neg notComma, if_neg notParen, if_neg notBracket]

theorem scan_cons {max : Nat} {ch : UInt8} {stream : List UInt8} {read : StringRead} (plain : Plain ch)
    (later : Scan max stream read) :
    Scan (max + 1) (ch :: stream) { read with stored := ch :: read.stored } := by
  have all : ∀ {item : List UInt8}, (∀ other ∈ item, Plain other) → ∀ other ∈ ch :: item, Plain other :=
    fun rest other member => (List.mem_cons.mp member).elim (fun same => same ▸ plain) (rest other)
  cases later with
  | cut rest short => exact .cut (all rest) (Nat.succ_lt_succ short)
  | space rest short => exact .space (all rest) (Nat.succ_lt_succ short)
  | comma rest short => exact .comma (all rest) (Nat.succ_lt_succ short)
  | closeParen rest short => exact .closeParen (all rest) (Nat.succ_lt_succ short)
  | closeBracket rest short => exact .closeBracket (all rest) (Nat.succ_lt_succ short)
  | full rest long => exact .full (all rest) (congrArg Nat.succ long)

/-- Every call of `read_string` is one of the cases. -/
theorem readString_scan (max : Nat) (stream : List UInt8) : Scan max stream (readString max stream) := by
  have none : ∀ ch ∈ ([] : List UInt8), Plain ch := by simp
  induction max generalizing stream with
  | zero => exact .full none rfl
  | succ max ih =>
    cases stream with
    | nil => exact .cut none (Nat.succ_pos max)
    | cons ch rest =>
      by_cases plain : Plain ch
      · rw [readString_plain max plain]
        exact scan_cons plain (ih rest)
      · by_cases isSpace : ch = JobParser.space
        · subst isSpace
          exact .space none (Nat.succ_pos max)
        · by_cases isComma : ch = JobParser.comma
          · subst isComma
            exact .comma none (Nat.succ_pos max)
          · by_cases isParen : ch = JobParser.closeParen
            · subst isParen
              exact .closeParen none (Nat.succ_pos max)
            · by_cases isBracket : ch = JobParser.closeBracket
              · subst isBracket
                exact .closeBracket none (Nat.succ_pos max)
              · exact absurd ⟨isSpace, isComma, isParen, isBracket⟩ plain

theorem readString_append {max : Nat} {item : List UInt8} (plain : ∀ ch ∈ item, Plain ch)
    (turns : Nat) (rest : List UInt8) (total : turns + item.length = max) :
    readString max (item ++ rest) =
      { readString turns rest with stored := item ++ (readString turns rest).stored } := by
  induction item generalizing max with
  | nil =>
    subst total
    rfl
  | cons ch item ih =>
    obtain ⟨here, later⟩ := List.forall_mem_cons.mp plain
    subst total
    rw [List.cons_append, List.length_cons, ← Nat.add_assoc, readString_plain _ here, ih later rfl]
    rfl

/-- The cases do not overlap. -/
theorem readString_of_scan {max : Nat} {stream : List UInt8} {read : StringRead}
    (scan : Scan max stream read) : readString max stream = read := by
  have left : ∀ {item : List UInt8}, item.length < max → ∃ turns, turns + 1 + item.length = max :=
    fun {item} short => ⟨max - item.length - 1, by omega⟩
  cases scan with
  | cut plain short =>
    obtain ⟨turns, total⟩ := left short
    have read := readString_append plain _ [] total
    rw [List.append_nil] at read
    rw [read]
    simp [readString]
  | space plain short | comma plain short | closeParen plain short | closeBracket plain short =>
    obtain ⟨turns, total⟩ := left short
    rw [readString_append plain _ _ total]
    simp +decide [readString]
  | full plain long =>
    rw [readString_append plain 0 _ (by omega)]
    simp [readString]

/-- The bytes of an item of a list that fits its buffer. -/
def Item (item : List UInt8) : Prop := item.length < MAX_STRING_SIZE ∧ ∀ ch ∈ item, Plain ch

instance (item : List UInt8) : Decidable (Item item) :=
  @instDecidableAnd _ _ (Nat.decLt _ _) (List.decidableBAll Plain item)

/-- The delimiters, with the value for each. -/
def Ends (ch : UInt8) (value : Int) : Prop :=
  ch = comma ∧ value = 0 ∨ ch = closeParen ∧ value = 1 ∨ ch = closeBracket ∧ value = 2

theorem ends_comma : Ends comma 0 := .inl ⟨rfl, rfl⟩

theorem ends_closeParen : Ends closeParen 1 := .inr (.inl ⟨rfl, rfl⟩)

theorem ends_closeBracket : Ends closeBracket 2 := .inr (.inr ⟨rfl, rfl⟩)

theorem readField_of_scan {stream : List UInt8} {read : StringRead}
    (scan : Scan MAX_STRING_SIZE stream read) :
    readField stream = if read.size ≤ MAX_STRING_SIZE then some read else none := by
  rw [readField, readString_of_scan scan]

theorem readField_item {item : List UInt8} (kept : Item item) {ch : UInt8} {value : Int} (ends : Ends ch value)
    (rest : List UInt8) : readField (item ++ ch :: rest) = some ⟨value, item, true, rest⟩ := by
  obtain ⟨short, plain⟩ := kept
  rcases ends with ⟨same, same'⟩ | ⟨same, same'⟩ | ⟨same, same'⟩ <;> subst same same'
  · exact (readField_of_scan (.comma plain short)).trans (if_pos short)
  · exact (readField_of_scan (.closeParen plain short)).trans (if_pos short)
  · exact (readField_of_scan (.closeBracket plain short)).trans (if_pos short)

/-- Every call into a buffer of `MAX_STRING_SIZE` bytes, which the terminator of a longer
item leaves. -/
inductive FieldRead (stream : List UInt8) : Option StringRead → Prop where
  | overflow : FieldRead stream none
  | cut (kept : Item stream) : FieldRead stream (some ⟨-1, stream, false, []⟩)
  | space {item rest : List UInt8} (kept : Item item) (split : stream = item ++ space :: rest) :
      FieldRead stream (some ⟨-1, item, false, rest⟩)
  | delimited {item rest : List UInt8} {ch : UInt8} {value : Int} (kept : Item item) (ends : Ends ch value)
      (split : stream = item ++ ch :: rest) : FieldRead stream (some ⟨value, item, true, rest⟩)

theorem readField_cut {item : List UInt8} (kept : Item item) : readField item = some ⟨-1, item, false, []⟩ :=
  (readField_of_scan (.cut kept.2 kept.1)).trans (if_pos (Nat.le_of_lt kept.1))

theorem readField_space {item : List UInt8} (kept : Item item) (rest : List UInt8) :
    readField (item ++ space :: rest) = some ⟨-1, item, false, rest⟩ :=
  (readField_of_scan (.space kept.2 kept.1)).trans (if_pos (Nat.le_of_lt kept.1))

theorem fieldRead (stream : List UInt8) : FieldRead stream (readField stream) := by
  have scan := readString_scan MAX_STRING_SIZE stream
  generalize readString MAX_STRING_SIZE stream = read at scan
  have here := readField_of_scan scan
  cases scan with
  | cut plain short =>
    rw [readField_cut ⟨short, plain⟩]
    exact .cut ⟨short, plain⟩
  | space plain short =>
    rw [readField_space ⟨short, plain⟩]
    exact .space ⟨short, plain⟩ rfl
  | comma plain short =>
    rw [readField_item ⟨short, plain⟩ (.inl ⟨rfl, rfl⟩)]
    exact .delimited ⟨short, plain⟩ (.inl ⟨rfl, rfl⟩) rfl
  | closeParen plain short =>
    rw [readField_item ⟨short, plain⟩ (.inr (.inl ⟨rfl, rfl⟩))]
    exact .delimited ⟨short, plain⟩ (.inr (.inl ⟨rfl, rfl⟩)) rfl
  | closeBracket plain short =>
    rw [readField_item ⟨short, plain⟩ (.inr (.inr ⟨rfl, rfl⟩))]
    exact .delimited ⟨short, plain⟩ (.inr (.inr ⟨rfl, rfl⟩)) rfl
  | @full item rest plain long =>
    have beyond : ¬item.length + 1 ≤ MAX_STRING_SIZE := by omega
    rw [here.trans (if_neg beyond)]
    exact .overflow

/-! A call leaves an end of what it was given. -/

section Suffix
variable {stream rest : List UInt8}

theorem cleanup_suffix (stream : List UInt8) : cleanup stream <:+ stream := by
  induction stream with
  | nil => exact List.suffix_rfl
  | cons ch rest ih =>
    simp only [cleanup]
    split
    · exact List.suffix_cons ch rest
    · exact ih.trans (List.suffix_cons ch rest)

theorem suffix_of_cleanup (inside : rest <:+ stream) : cleanup rest <:+ stream :=
  (cleanup_suffix rest).trans inside

theorem Scan.suffix {max : Nat} {read : StringRead} (scan : Scan max stream read) :
    read.rest <:+ stream := by
  cases scan with
  | cut => exact List.nil_suffix
  | space | comma | closeParen | closeBracket =>
    exact (List.suffix_cons _ _).trans (List.suffix_append _ _)
  | full => exact List.suffix_append _ _

theorem readField_eq_some {read : StringRead} (ran : readField stream = some read) :
    read = readString MAX_STRING_SIZE stream ∧ read.size ≤ MAX_STRING_SIZE := by
  simp only [readField, Option.ite_none_right_eq_some, Option.some.injEq] at ran
  obtain ⟨bound, same⟩ := ran
  exact ⟨same.symm, same ▸ bound⟩

theorem readField_suffix {read : StringRead} (ran : readField stream = some read) :
    read.rest <:+ stream := by
  rw [(readField_eq_some ran).1]
  exact (readString_scan ..).suffix

theorem parsePair_suffix {pair : Option (CString × CString)}
    (ran : parsePair stream = some (pair, rest)) : rest <:+ stream := by
  simp only [parsePair, Option.bind_eq_bind, Option.bind_eq_some_iff] at ran
  obtain ⟨key, read, ran⟩ := ran
  have first := readField_suffix read
  split at ran
  · cases ran
    exact suffix_of_cleanup first
  · obtain ⟨value, read', ran⟩ := Option.bind_eq_some_iff.mp ran
    have second := (readField_suffix read').trans first
    split at ran
    · cases ran
      exact suffix_of_cleanup second
    · cases ran
      exact second

theorem parsePairs_suffix {room : Nat} {pairs : Option (List (CString × CString))}
    (ran : parsePairs room stream = some (pairs, rest)) : rest <:+ stream := by
  induction room generalizing stream rest pairs with
  | zero =>
    cases ran
    exact List.suffix_rfl
  | succ room ih =>
    simp only [parsePairs, Option.bind_eq_bind, Option.bind_eq_some_iff] at ran
    obtain ⟨⟨pair, middle⟩, parsed, ran⟩ := ran
    have first := parsePair_suffix parsed
    cases pair with
    | none =>
      cases ran
      exact suffix_of_cleanup first
    | some pair =>
      cases middle with
      | nil =>
        cases ran
        exact List.nil_suffix
      | cons ch later =>
        have second := (List.suffix_cons ch later).trans first
        simp only at ran
        split at ran
        · obtain ⟨⟨pairs, last⟩, parsed', ran⟩ := Option.bind_eq_some_iff.mp ran
          cases ran
          exact (ih parsed').trans second
        · split at ran
          · cases ran
            exact second
          · cases ran
            exact suffix_of_cleanup second

theorem parseKeys_suffix {room : Nat} {keys : Option (List CString)}
    (ran : parseKeys room stream = some (keys, rest)) : rest <:+ stream := by
  induction room generalizing stream rest keys with
  | zero =>
    cases ran
    exact List.suffix_rfl
  | succ room ih =>
    simp only [parseKeys, Option.bind_eq_bind, Option.bind_eq_some_iff] at ran
    obtain ⟨key, read, ran⟩ := ran
    have first := readField_suffix read
    split at ran
    · cases ran
      exact suffix_of_cleanup first
    · split at ran
      · cases ran
        exact first
      · obtain ⟨⟨keys, last⟩, parsed, ran⟩ := Option.bind_eq_some_iff.mp ran
        cases ran
        exact (ih parsed).trans first

theorem endList_suffix {α : Type} (max : Nat) (parsed : Parsed (List α)) :
    (endList max parsed).2 <:+ parsed.2 := by
  obtain ⟨items, stream⟩ := parsed
  cases items with
  | none => exact List.suffix_rfl
  | some items =>
    simp only [endList]
    split
    · exact cleanup_suffix stream
    · cases stream with
      | nil => exact List.nil_suffix
      | cons ch rest =>
        simp only
        split
        · exact List.suffix_cons ch rest
        · exact suffix_of_cleanup (List.suffix_cons ch rest)

theorem expect_suffix {α : Type} {wanted : UInt8} {next : List UInt8 → Option (Parsed α)}
    {result : Option α} (inside : ∀ {stream}, next stream = some (result, rest) → rest <:+ stream)
    (ran : expect wanted stream next = some (result, rest)) : rest <:+ stream := by
  cases stream with
  | nil =>
    cases ran
    exact List.nil_suffix
  | cons ch later =>
    simp only [expect] at ran
    split at ran
    · exact (inside ran).trans (List.suffix_cons ch later)
    · cases ran
      exact suffix_of_cleanup (List.suffix_cons ch later)

theorem parseWrite_suffix {max : Nat} {pairs : Option (List (CString × CString))}
    (ran : parseWrite max stream = some (pairs, rest)) : rest <:+ stream := by
  refine expect_suffix (expect_suffix fun ran => ?_) ran
  obtain ⟨parsed, loop, made⟩ := Option.map_eq_some_iff.mp ran
  have last := endList_suffix max parsed
  rw [made] at last
  exact last.trans (parsePairs_suffix loop)

theorem parseReadDelete_suffix {max : Nat} {keys : Option (List CString)}
    (ran : parseReadDelete max stream = some (keys, rest)) : rest <:+ stream := by
  refine expect_suffix (fun ran => ?_) ran
  obtain ⟨parsed, loop, made⟩ := Option.map_eq_some_iff.mp ran
  have last := endList_suffix max parsed
  rw [made] at last
  exact last.trans (parseKeys_suffix loop)

theorem readDigits_suffix {buf last : List UInt8} {i : Nat} {next : UInt8}
    (ran : readDigits buf i stream = some (last, next, rest)) : rest <:+ stream := by
  induction stream generalizing buf i with
  | nil =>
    cases ran
    exact List.suffix_rfl
  | cons ch stream ih =>
    simp only [readDigits, Option.bind_eq_bind, Option.bind_eq_some_iff] at ran
    obtain ⟨stored, _, ran⟩ := ran
    split at ran
    · exact (ih ran).trans (List.suffix_cons ch stream)
    · obtain ⟨_, _, ran⟩ := Option.bind_eq_some_iff.mp ran
      cases ran
      exact List.suffix_cons _ _

theorem readUint_suffix {stack : Nat → UInt8} {value : Option Nat} {next : UInt8}
    (ran : readUint stack stream = some (value, next, rest)) : rest <:+ stream := by
  simp only [readUint, Option.bind_eq_bind, Option.bind_eq_some_iff] at ran
  obtain ⟨⟨buf, ch, later⟩, digits, number, _, ran⟩ := ran
  cases ran
  exact readDigits_suffix digits

theorem parseWait_suffix {stack : Nat → UInt8} {delay : Option Nat}
    (ran : parseWait stack stream = some (delay, rest)) : rest <:+ stream := by
  simp only [parseWait, Option.bind_eq_bind, Option.bind_eq_some_iff] at ran
  obtain ⟨⟨value, next, later⟩, read, ran⟩ := ran
  have inside := readUint_suffix read
  cases value with
  | none =>
    cases ran
    exact suffix_of_cleanup inside
  | some value =>
    simp only at ran
    split at ran
    · cases ran
      exact suffix_of_cleanup inside
    · split at ran
      · cases ran
        exact inside
      · cases ran
        exact suffix_of_cleanup inside

theorem alone_suffix (word : List UInt8) (command : Command) (stream : List UInt8) :
    (alone word command stream).2 <:+ stream := by
  have inside := List.drop_suffix word.length stream
  unfold alone
  split
  · split
    · exact List.nil_suffix
    next ch rest found =>
      rw [found] at inside
      have later := (List.suffix_cons ch rest).trans inside
      split
      · exact later
      · exact suffix_of_cleanup later
  · exact suffix_of_cleanup inside

theorem withArguments_suffix (word : List UInt8) (command : Command) (stream : List UInt8) :
    (withArguments word command stream).2 <:+ stream := by
  have inside := List.drop_suffix word.length stream
  unfold withArguments
  split
  · exact inside
  · exact suffix_of_cleanup inside

theorem waitOrWrite_suffix (stream : List UInt8) : (waitOrWrite stream).2 <:+ stream := by
  have inside := List.drop_suffix 4 stream
  unfold waitOrWrite
  split
  · exact inside
  · split
    · exact List.nil_suffix
    next ch rest found =>
      rw [found] at inside
      have later := (List.suffix_cons ch rest).trans inside
      split
      · exact later
      · exact suffix_of_cleanup later

theorem ite_suffix {condition : Prop} [Decidable condition] {got other : Command × List UInt8}
    {stream : List UInt8} (yes : got.2 <:+ stream) (no : other.2 <:+ stream) :
    (if condition then got else other).2 <:+ stream := by
  split
  · exact yes
  · exact no

theorem getNext_suffix (first : UInt8) (stream : List UInt8) :
    (getNext (first :: stream)).2 <:+ stream := by
  rw [getNext]
  apply ite_suffix (waitOrWrite_suffix stream)
  apply ite_suffix (withArguments_suffix ..)
  apply ite_suffix (withArguments_suffix ..)
  apply ite_suffix (alone_suffix ..)
  apply ite_suffix (alone_suffix ..)
  apply ite_suffix (alone_suffix ..)
  apply ite_suffix (cleanup_suffix stream)
  apply ite_suffix List.suffix_rfl
  exact cleanup_suffix stream

end Suffix

/-! Numbers. -/

/-- The value of a run of digits. -/
def numeral (digits : List UInt8) : Nat :=
  digits.foldl (fun value ch => 10 * value + (ch.toNat - 48)) 0

theorem initialBuf_length (stack : Nat → UInt8) : (initialBuf stack).length = 16 := by
  simp [initialBuf]

theorem store_append {front back : List UInt8} {old : UInt8} (ch : UInt8) :
    store (front ++ old :: back) front.length ch = some (front ++ ch :: back) := by
  simp [store]

theorem readDigits_digits {digits : List UInt8} (all : ∀ ch ∈ digits, isDigit ch = true)
    (front back stream : List UInt8) (short : digits.length ≤ back.length) :
    readDigits (front ++ back) front.length (digits ++ stream) =
      readDigits (front ++ digits ++ back.drop digits.length) (front ++ digits).length stream := by
  induction digits generalizing front back with
  | nil => simp
  | cons ch digits ih =>
    obtain ⟨here, later⟩ := List.forall_mem_cons.mp all
    cases back with
    | nil => exact absurd short (Nat.not_succ_le_zero _)
    | cons old back =>
      have next := ih later (front ++ [ch]) back (Nat.le_of_succ_le_succ short)
      simp only [List.cons_append, readDigits, store_append, Option.bind_eq_bind, Option.bind_some, here,
        ↓reduceIte]
      simpa using next

theorem readDigits_long {digits : List UInt8} (all : ∀ ch ∈ digits, isDigit ch = true)
    (front back stream : List UInt8) (long : back.length < digits.length) :
    readDigits (front ++ back) front.length (digits ++ stream) = none := by
  induction digits generalizing front back with
  | nil => exact absurd long (Nat.not_lt_zero _)
  | cons ch digits ih =>
    obtain ⟨here, later⟩ := List.forall_mem_cons.mp all
    cases back with
    | nil => simp [readDigits, store]
    | cons old back =>
      have next := ih later (front ++ [ch]) back (Nat.lt_of_succ_lt_succ long)
      simp only [List.cons_append, readDigits, store_append, Option.bind_eq_bind, Option.bind_some, here,
        ↓reduceIte]
      simpa using next

theorem decimalValue_digits {digits : List UInt8} (all : ∀ ch ∈ digits, isDigit ch = true)
    (value : Nat) (later : List UInt8) :
    decimalValue value (digits ++ later) =
      decimalValue (digits.foldl (fun value ch => 10 * value + (ch.toNat - 48)) value) later := by
  induction digits generalizing value with
  | nil => rfl
  | cons ch digits ih =>
    obtain ⟨here, rest⟩ := List.forall_mem_cons.mp all
    rw [List.cons_append, decimalValue, if_pos here, ih rest, List.foldl_cons]

theorem digit_plain {ch : UInt8} (digit : isDigit ch = true) :
    isspace ch = false ∧ ch ≠ minus ∧ ch ≠ plus := by
  simp only [isDigit, Bool.and_eq_true, decide_eq_true_eq, UInt8.le_iff_toNat_le,
    UInt8.reduceToNat] at digit
  refine ⟨?_, fun same => ?_, fun same => ?_⟩
  · simp only [isspace, Bool.or_eq_false_iff, Bool.and_eq_false_imp, decide_eq_false_iff_not,
      decide_eq_true_eq, UInt8.le_iff_toNat_le, UInt8.reduceToNat]
    refine ⟨fun same => ?_, fun _ => by omega⟩
    subst same
    exact absurd digit.1 (by decide)
  · subst same
    exact absurd digit.1 (by decide)
  · subst same
    exact absurd digit.1 (by decide)

/-- White space and signs do not come before a digit. -/
theorem strtoul_digit {first : UInt8} (digit : isDigit first = true) (later : List UInt8) :
    strtoul (first :: later) = (decimalValue 0 (first :: later)).map (min · ULONG_MAX) := by
  obtain ⟨notSpace, notMinus, notPlus⟩ := digit_plain digit
  simp only [strtoul, List.dropWhile_cons, notSpace, Bool.false_eq_true, ↓reduceIte, if_neg notMinus,
    if_neg notPlus]

theorem uintOf_terminated {digits : List UInt8} (all : ∀ ch ∈ digits, isDigit ch = true)
    (later : List UInt8) :
    uintOf (digits ++ 0 :: later) =
      some (if numeral digits > UINT_MAX then none else some (numeral digits)) := by
  have value : strtoul (digits ++ 0 :: later) = some (min (numeral digits) ULONG_MAX) := by
    cases digits with
    | nil => rfl
    | cons first digits =>
      rw [List.cons_append, strtoul_digit (all first List.mem_cons_self), ← List.cons_append,
        decimalValue_digits all]
      rfl
  rw [uintOf, value, Option.map_some]
  have largest : UINT_MAX < ULONG_MAX := by decide
  split_ifs <;> grind

theorem uintOf_unterminated {digits : List UInt8} (all : ∀ ch ∈ digits, isDigit ch = true) :
    uintOf digits = none := by
  have value : strtoul digits = none := by
    cases digits with
    | nil => rfl
    | cons first digits =>
      rw [strtoul_digit (all first List.mem_cons_self), ← List.append_nil (first :: digits),
        decimalValue_digits all]
      rfl
  rw [uintOf, value, Option.map_none]

section ReadUint
variable {stack : Nat → UInt8} {digits : List UInt8} (all : ∀ ch ∈ digits, isDigit ch = true)
include all

theorem readUint_stop {ch : UInt8} (stop : isDigit ch = false) (short : digits.length < 16)
    (rest : List UInt8) :
    readUint stack (digits ++ ch :: rest) =
      some (if numeral digits > UINT_MAX then none else some (numeral digits), ch, rest) := by
  have bound : digits.length < (initialBuf stack).length := by rwa [initialBuf_length]
  have through := readDigits_digits all [] (initialBuf stack) (ch :: rest) bound.le
  obtain ⟨old, back, split⟩ := List.exists_cons_of_ne_nil (List.drop_eq_nil_iff.not.mpr (not_le.mpr bound))
  simp only [List.nil_append, List.length_nil, split] at through
  simp only [readUint, through, readDigits, store_append, stop, Option.bind_eq_bind, Option.bind_some,
    Bool.false_eq_true, ↓reduceIte, uintOf_terminated all]

theorem readUint_eof (short : digits.length ≤ 16) :
    readUint stack digits =
      (uintOf (digits ++ (initialBuf stack).drop digits.length)).map fun value => (value, 0, []) := by
  have bound : digits.length ≤ (initialBuf stack).length := by rwa [initialBuf_length]
  have through := readDigits_digits all [] (initialBuf stack) [] bound
  simp only [List.nil_append, List.append_nil, List.length_nil] at through
  simp only [readUint, through, readDigits, Option.bind_eq_bind, Option.bind_some]
  cases uintOf (digits ++ (initialBuf stack).drop digits.length) <;> rfl

/-- Sixteen digits leave no room for the byte after them. -/
theorem readUint_long (long : 16 ≤ digits.length) (rest : List UInt8) :
    readUint stack (digits ++ rest) = none := by
  have size := initialBuf_length stack
  by_cases exact : digits.length = 16
  · have through := readDigits_digits all [] (initialBuf stack) rest (by omega)
    rw [List.drop_of_length_le (by omega)] at through
    simp only [List.nil_append, List.append_nil, List.length_nil] at through
    cases rest with
    | nil =>
      simp only [readUint, List.append_nil] at through ⊢
      simp only [through, readDigits, Option.bind_eq_bind, Option.bind_some, uintOf_unterminated all,
        Option.bind_none]
    | cons ch rest =>
      simp [readUint, through, readDigits, store]
  · have overflow := readDigits_long all [] (initialBuf stack) rest (by omega)
    simp only [List.nil_append, List.length_nil] at overflow
    simp only [readUint, overflow, Option.bind_eq_bind, Option.bind_none]

end ReadUint

end IstKvs.JobParser
