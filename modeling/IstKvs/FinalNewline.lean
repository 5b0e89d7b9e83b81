import IstKvs.BufferBounds

/-! A job file with and without a newline at its end. The parsers meet the end of the
file byte by byte, so the two runs are compared reader by reader: the streams stay
equal but for the newline, until one of the two has consumed it. -/

namespace IstKvs.FinalNewline
open Operations JobParser RunJob
open BufferBounds (Overflows argumentWord parsePair_items)
open NumberReading (digits_split)

/-- What the two runs have left: the newline is still there, or both are at the end. -/
def Same (rest rest' : List UInt8) : Prop := rest' = rest ++ [newline] ∨ rest = [] ∧ rest' = []

/-- An item with room for one byte more, and none for the terminator after that. -/
def LongestItem (item : List UInt8) : Prop := item.length + 1 = MAX_STRING_SIZE ∧ ∀ ch ∈ item, Plain ch

/-- Keys that the end of the file cuts off after the closing bracket, or in a key of the
longest kind. `room` is the number of keys that the loop has still room for. -/
inductive OpenKeys : Nat → List UInt8 → Prop where
  | cut {room : Nat} {key : List UInt8} (longest : LongestItem key) : OpenKeys (room + 1) key
  | closed {room : Nat} {key : List UInt8} (last : Item key) : OpenKeys (room + 2) (key ++ [closeBracket])
  | more {room : Nat} {key rest : List UInt8} (item : Item key) (later : OpenKeys room rest) :
      OpenKeys (room + 1) (key ++ comma :: rest)

/-- The same for pairs; the first parenthesis comes before. -/
inductive OpenPairs : Nat → List UInt8 → Prop where
  | cutKey {room : Nat} {key : List UInt8} (longest : LongestItem key) : OpenPairs (room + 1) key
  | cutValue {room : Nat} {key value : List UInt8} (item : Item key) (longest : LongestItem value) :
      OpenPairs (room + 1) (key ++ comma :: value)
  | closed {room : Nat} {key value : List UInt8} (item : Item key) (last : Item value) :
      OpenPairs (room + 2) (key ++ comma :: (value ++ [closeParen, closeBracket]))
  | more {room : Nat} {key value rest : List UInt8} (item : Item key) (item' : Item value)
      (later : OpenPairs room rest) :
      OpenPairs (room + 1) (key ++ comma :: (value ++ closeParen :: openParen :: rest))

/-- A command that the end of the file leaves without its newline, and to which it
matters: a list that is complete or cut in an item of the longest kind, or a number that
the bytes on the stack change. -/
inductive Unterminated (stack : Nat → UInt8) : List UInt8 → Prop where
  | write {rest : List UInt8} (pairs : OpenPairs MAX_WRITE_SIZE rest) :
      Unterminated stack (text "WRITE " ++ openBracket :: openParen :: rest)
  | read {rest : List UInt8} (keys : OpenKeys MAX_WRITE_SIZE rest) :
      Unterminated stack (text "READ " ++ openBracket :: rest)
  | delete {rest : List UInt8} (keys : OpenKeys MAX_WRITE_SIZE rest) :
      Unterminated stack (text "DELETE " ++ openBracket :: rest)
  | wait {digits : List UInt8} (all : ∀ ch ∈ digits, isDigit ch = true) (short : digits.length < 16)
      (changed : uintOf (digits ++ (initialBuf stack).drop digits.length) ≠ uintOf (digits ++ [0])) :
      Unterminated stack (text "WAIT " ++ digits)

/-- The commands of the file that do something. -/
def executed (stack : Nat → UInt8) (file : List UInt8) : Option (List JobCommand) :=
  (commands stack file).map fun read => read.1.filter (· ≠ .empty)

/-! The readers. -/

section Readers
variable {rest rest' stream : List UInt8}

theorem same_nil : Same [] [] := .inr ⟨rfl, rfl⟩

theorem same_append (rest : List UInt8) : Same rest (rest ++ [newline]) := .inl rfl

theorem cleanup_append (rest : List UInt8) : Same (cleanup rest) (cleanup (rest ++ [newline])) := by
  induction rest with
  | nil => exact same_nil
  | cons ch rest ih =>
    simp only [List.cons_append, cleanup]
    split
    · exact same_append rest
    · exact ih

theorem Same.cleanup (same : Same rest rest') : Same (cleanup rest) (cleanup rest') := by
  rcases same with appended | ⟨ended, ended'⟩
  · rw [appended]
    exact cleanup_append rest
  · rw [ended, ended']
    exact same_nil

/-- One call of `read_string` without and with the newline. -/
inductive Reread (stream : List UInt8) : Option StringRead → Option StringRead → Prop where
  | cut (longest : LongestItem stream) : Reread stream (some ⟨-1, stream, false, []⟩) none
  | overflow : Reread stream none none
  | failed {read read' : StringRead} (value : read.value = -1) (value' : read'.value = -1)
      (same : Same read.rest read'.rest) : Reread stream (some read) (some read')
  | delimited {item rest : List UInt8} {ch : UInt8} {value : Int} (split : stream = item ++ ch :: rest)
      (kept : Item item) (ends : Ends ch value) :
      Reread stream (some ⟨value, item, true, rest⟩) (some ⟨value, item, true, rest ++ [newline]⟩)

theorem plain_newline {item : List UInt8} (plain : ∀ ch ∈ item, Plain ch) :
    ∀ ch ∈ item ++ [newline], Plain ch := by
  intro ch member
  rcases List.mem_append.mp member with inside | last
  · exact plain ch inside
  · rw [List.mem_singleton.mp last]
    decide

theorem reread_delimited {item : List UInt8} {ch : UInt8} {value : Int} (kept : Item item)
    (ends : Ends ch value) (rest : List UInt8) :
    Reread (item ++ ch :: rest) (readField (item ++ ch :: rest))
      (readField (item ++ ch :: rest ++ [newline])) := by
  rw [List.append_assoc, List.cons_append, readField_item kept ends, readField_item kept ends]
  exact .delimited rfl kept ends

/-- The newline is stored in the last byte, and the terminator past the buffer. -/
theorem readField_longest (longest : LongestItem stream) :
    readField stream = some ⟨-1, stream, false, []⟩ ∧ readField (stream ++ [newline]) = none := by
  obtain ⟨length, plain⟩ := longest
  have short : stream.length < MAX_STRING_SIZE := by omega
  have full : Scan MAX_STRING_SIZE (stream ++ [newline] ++ []) _ :=
    .full (plain_newline plain) (by rw [List.length_append]; exact length)
  rw [List.append_nil] at full
  have beyond : ¬(stream ++ [newline]).length + 1 ≤ MAX_STRING_SIZE := by
    rw [List.length_append, List.length_singleton]
    omega
  exact ⟨(readField_of_scan (.cut plain short)).trans (if_pos (Nat.le_of_lt short)),
    (readField_of_scan full).trans (if_neg beyond)⟩

theorem reread (stream : List UInt8) : Reread stream (readField stream) (readField (stream ++ [newline])) := by
  have scan := readString_scan MAX_STRING_SIZE stream
  generalize readString MAX_STRING_SIZE stream = read at scan
  have here := readField_of_scan scan
  cases scan with
  | cut plain short =>
    by_cases longest : stream.length + 1 = MAX_STRING_SIZE
    · rw [(readField_longest ⟨longest, plain⟩).1, (readField_longest ⟨longest, plain⟩).2]
      exact .cut ⟨longest, plain⟩
    · rw [here.trans (if_pos (Nat.le_of_lt short))]
      have again : Scan MAX_STRING_SIZE (stream ++ [newline]) _ := .cut (plain_newline plain) (by
        rw [List.length_append, List.length_singleton]
        omega)
      rw [readField_of_scan again, if_pos (by simp [StringRead.size]; omega)]
      exact .failed rfl rfl same_nil
  | @space item rest plain short =>
    have again : Scan MAX_STRING_SIZE (item ++ space :: (rest ++ [newline])) _ := .space plain short
    rw [here.trans (if_pos (Nat.le_of_lt short)), List.append_assoc, List.cons_append,
      (readField_of_scan again).trans (if_pos (Nat.le_of_lt short))]
    exact .failed rfl rfl (same_append rest)
  | comma plain short => exact reread_delimited ⟨short, plain⟩ (.inl ⟨rfl, rfl⟩) _
  | closeParen plain short => exact reread_delimited ⟨short, plain⟩ (.inr (.inl ⟨rfl, rfl⟩)) _
  | closeBracket plain short => exact reread_delimited ⟨short, plain⟩ (.inr (.inr ⟨rfl, rfl⟩)) _
  | @full item rest plain long =>
    have again : Scan MAX_STRING_SIZE (item ++ (rest ++ [newline])) _ := .full plain long
    have beyond : ¬item.length + 1 ≤ MAX_STRING_SIZE := by omega
    rw [here.trans (if_neg beyond), List.append_assoc, (readField_of_scan again).trans (if_neg beyond)]
    exact .overflow

inductive CutPair : List UInt8 → Prop where
  | key {key : List UInt8} (longest : LongestItem key) : CutPair key
  | value {key value : List UInt8} (item : Item key) (longest : LongestItem value) :
      CutPair (key ++ comma :: value)

/-- One call of `parse_pair` without and with the newline. -/
inductive RereadPair (stream : List UInt8) :
    Option (Parsed (CString × CString)) → Option (Parsed (CString × CString)) → Prop where
  | cut (open' : CutPair stream) : RereadPair stream (some (none, [])) none
  | overflow : RereadPair stream none none
  | failed {rest rest' : List UInt8} (same : Same rest rest') :
      RereadPair stream (some (none, rest)) (some (none, rest'))
  | pair {key value rest : List UInt8} (split : stream = key ++ comma :: (value ++ closeParen :: rest))
      (item : Item key) (item' : Item value) :
      RereadPair stream (some (some (CString.ofBytes key, CString.ofBytes value), rest))
        (some (some (CString.ofBytes key, CString.ofBytes value), rest ++ [newline]))

theorem rereadPair (stream : List UInt8) :
    RereadPair stream (parsePair stream) (parsePair (stream ++ [newline])) := by
  have first := reread stream
  unfold parsePair
  generalize readField stream = read, readField (stream ++ [newline]) = read' at first
  cases first with
  | cut longest => exact .cut (.key longest)
  | overflow => exact .overflow
  | failed value value' same =>
    simp +decide only [Option.bind_eq_bind, Option.bind_some, value, value', ↓reduceIte]
    exact .failed same.cleanup
  | @delimited key rest ch value split item ends =>
    subst split
    rcases ends with ⟨same, same'⟩ | ⟨same, same'⟩ | ⟨same, same'⟩ <;> subst same same'
    · simp only [Option.bind_eq_bind, Option.bind_some, ne_eq, not_true_eq_false, ↓reduceIte]
      have second := reread rest
      generalize readField rest = read, readField (rest ++ [newline]) = read' at second
      cases second with
      | cut longest => exact .cut (.value item longest)
      | overflow => exact .overflow
      | failed value value' same =>
        simp +decide only [Option.bind_some, value, value', ↓reduceIte]
        exact .failed same.cleanup
      | @delimited value later ch code split item' ends =>
        subst split
        rcases ends with ⟨same, same'⟩ | ⟨same, same'⟩ | ⟨same, same'⟩ <;> subst same same'
        · exact .failed (cleanup_append later)
        · exact .pair rfl item item'
        · exact .failed (cleanup_append later)
    · exact .failed (cleanup_append rest)
    · exact .failed (cleanup_append rest)

/-- The two calls of a parser of lists agree. -/
inductive Agree {α : Type} : Option (Parsed α) → Option (Parsed α) → Prop where
  | undefined : Agree none none
  | failed {rest rest' : List UInt8} (same : Same rest rest') : Agree (some (none, rest)) (some (none, rest'))
  | returned {result : α} {rest : List UInt8} :
      Agree (some (some result, rest)) (some (some result, rest ++ [newline]))

/-- The end of the file spoils a list: it fails, and with the newline it does not. -/
def Spoilt {α : Type} (outcome outcome' : Option (Parsed (List α))) : Prop :=
  outcome = some (none, []) ∧ (outcome' = none ∨ ∃ items, outcome' = some (some items, []))

theorem endList_agree {α : Type} (max : Nat) (items : List α) (rest : List UInt8) :
    (rest = [] ∧ items.length ≠ max) ∨
      Agree (some (endList max (some items, rest))) (some (endList max (some items, rest ++ [newline]))) := by
  unfold endList
  by_cases full : items.length = max
  · simp only [if_pos full]
    exact .inr (.failed (cleanup_append rest))
  · cases rest with
    | nil => exact .inl ⟨rfl, full⟩
    | cons ch rest =>
      simp only [if_neg full, List.cons_append]
      by_cases ended : ch = newline ∨ ch = 0
      · simp only [if_pos ended]
        exact .inr .returned
      · simp only [if_neg ended]
        exact .inr (.failed (cleanup_append rest))

theorem endList_spoilt {α : Type} {max : Nat} {items : List α} (fewer : items.length ≠ max) :
    Spoilt (some (endList max (some items, []))) (some (endList max (some items, [newline]))) := by
  refine ⟨?_, .inr ⟨items, ?_⟩⟩ <;> simp only [endList, if_neg fewer]
  · rfl
  · simp

/-- The loop of `parse_read_delete` and the tests after it. -/
def keyLine (room : Nat) (stream : List UInt8) : Option (Parsed (List CString)) :=
  (parseKeys room stream).map (endList room)

/-- The loop of `parse_write` and the tests after it. -/
def pairLine (room : Nat) (stream : List UInt8) : Option (Parsed (List (CString × CString))) :=
  (parsePairs room stream).map (endList room)

def prepend {α : Type} (item : α) (parsed : Parsed (List α)) : Parsed (List α) :=
  (parsed.1.map (item :: ·), parsed.2)

theorem endList_prepend {α : Type} (room : Nat) (item : α) (parsed : Parsed (List α)) :
    endList (room + 1) (prepend item parsed) = prepend item (endList room parsed) := by
  obtain ⟨items, rest⟩ := parsed
  cases items with
  | none => rfl
  | some items =>
    simp only [prepend, endList, Option.map_some, List.length_cons, Nat.add_right_cancel_iff]
    split
    · rfl
    · cases rest with
      | nil => rfl
      | cons ch rest =>
        simp only
        split <;> rfl

theorem keyLine_succ (room : Nat) (stream : List UInt8) :
    keyLine (room + 1) stream = (readField stream).bind fun key =>
      if key.value < 0 ∨ key.value = 1 then some (none, cleanup key.rest)
      else if key.value = 2 then some (endList (room + 1) (some [CString.ofBytes key.stored], key.rest))
      else (keyLine room key.rest).map (prepend (CString.ofBytes key.stored)) := by
  rw [keyLine, parseKeys]
  cases readField stream with
  | none => rfl
  | some key =>
    simp only [Option.bind_eq_bind, Option.bind_some]
    split_ifs
    · rfl
    · rfl
    · rw [keyLine, Option.map_map]
      cases parseKeys room key.rest with
      | none => rfl
      | some parsed => exact congrArg some (endList_prepend room _ parsed)

theorem pairLine_succ (room : Nat) (stream : List UInt8) :
    pairLine (room + 1) stream = (parsePair stream).bind fun parsed =>
      match parsed with
      | (none, rest) => some (none, cleanup rest)
      | (some _, []) => some (none, [])
      | (some pair, ch :: rest) =>
          if ch = openParen then (pairLine room rest).map (prepend pair)
          else if ch = closeBracket then some (endList (room + 1) (some [pair], rest))
          else some (none, cleanup rest) := by
  rw [pairLine, parsePairs]
  cases parsePair stream with
  | none => rfl
  | some parsed =>
    obtain ⟨pair, rest⟩ := parsed
    simp only [Option.bind_eq_bind, Option.bind_some]
    cases pair with
    | none => rfl
    | some pair =>
      cases rest with
      | nil => rfl
      | cons ch rest =>
        simp only
        split_ifs
        · rw [pairLine, Option.map_map]
          cases parsePairs room rest with
          | none => rfl
          | some parsed => exact congrArg some (endList_prepend room _ parsed)
        · rfl
        · rfl

theorem Agree.prepend {α : Type} {outcome outcome' : Option (Parsed (List α))} (item : α)
    (agree : Agree outcome outcome') :
    Agree (outcome.map (prepend item)) (outcome'.map (prepend item)) := by
  cases agree with
  | undefined => exact .undefined
  | failed same => exact .failed same
  | returned => exact .returned

theorem Spoilt.prepend {α : Type} {outcome outcome' : Option (Parsed (List α))} (item : α)
    (spoilt : Spoilt outcome outcome') :
    Spoilt (outcome.map (prepend item)) (outcome'.map (prepend item)) := by
  obtain ⟨failed, undefined | ⟨items, returned⟩⟩ := spoilt
  · rw [failed, undefined]
    exact ⟨rfl, .inl rfl⟩
  · rw [failed, returned]
    exact ⟨rfl, .inr ⟨item :: items, rfl⟩⟩

theorem keyLine_agree (room : Nat) (stream : List UInt8) :
    OpenKeys room stream ∨ Agree (keyLine room stream) (keyLine room (stream ++ [newline])) := by
  induction room generalizing stream with
  | zero => exact .inr (.failed (cleanup_append stream))
  | succ room ih =>
    have first := reread stream
    rw [keyLine_succ, keyLine_succ]
    generalize readField stream = read, readField (stream ++ [newline]) = read' at first
    cases first with
    | cut longest => exact .inl (.cut longest)
    | overflow => exact .inr .undefined
    | failed value value' same =>
      simp +decide only [Option.bind_some, value, value', ↓reduceIte]
      exact .inr (.failed same.cleanup)
    | @delimited key rest ch value split item ends =>
      subst split
      rcases ends with ⟨same, same'⟩ | ⟨same, same'⟩ | ⟨same, same'⟩ <;> subst same same'
      · exact (ih rest).imp (.more item) (.prepend _)
      · exact .inr (.failed (cleanup_append rest))
      · rcases endList_agree (room + 1) [CString.ofBytes key] rest with ⟨ended, fewer⟩ | agree
        · subst ended
          cases room with
          | zero => exact absurd rfl fewer
          | succ room => exact .inl (.closed item)
        · exact .inr agree

theorem keyLine_spoilt {room : Nat} (keys : OpenKeys room stream) :
    Spoilt (keyLine room stream) (keyLine room (stream ++ [newline])) := by
  induction keys with
  | cut longest =>
    obtain ⟨failed, undefined⟩ := readField_longest longest
    rw [keyLine_succ, keyLine_succ, failed, undefined]
    exact ⟨rfl, .inl rfl⟩
  | closed last =>
    rw [keyLine_succ, keyLine_succ, List.append_assoc, List.singleton_append,
      readField_item last (.inr (.inr ⟨rfl, rfl⟩)), readField_item last (.inr (.inr ⟨rfl, rfl⟩))]
    exact endList_spoilt (by simp)
  | more item later ih =>
    rw [keyLine_succ, keyLine_succ, List.append_assoc, List.cons_append,
      readField_item item (.inl ⟨rfl, rfl⟩), readField_item item (.inl ⟨rfl, rfl⟩)]
    exact ih.prepend _

theorem pairLine_agree (room : Nat) (stream : List UInt8) :
    OpenPairs room stream ∨ Agree (pairLine room stream) (pairLine room (stream ++ [newline])) := by
  induction room generalizing stream with
  | zero => exact .inr (.failed (cleanup_append stream))
  | succ room ih =>
    have first := rereadPair stream
    rw [pairLine_succ, pairLine_succ]
    generalize parsePair stream = parsed, parsePair (stream ++ [newline]) = parsed' at first
    cases first with
    | cut open' =>
      cases open' with
      | key longest => exact .inl (.cutKey longest)
      | value item longest => exact .inl (.cutValue item longest)
    | overflow => exact .inr .undefined
    | failed same => exact .inr (.failed same.cleanup)
    | @pair key value rest split item item' =>
      subst split
      cases rest with
      | nil => exact .inr (.failed same_nil)
      | cons ch rest =>
        simp only [Option.bind_some, List.cons_append]
        by_cases more : ch = openParen
        · subst more
          exact (ih rest).imp (.more item item') (.prepend _)
        · simp only [if_neg more]
          by_cases last : ch = closeBracket
          · subst last
            rcases endList_agree (room + 1) [(CString.ofBytes key, CString.ofBytes value)] rest with
              ⟨ended, fewer⟩ | agree
            · subst ended
              cases room with
              | zero => exact absurd rfl fewer
              | succ room => exact .inl (.closed item item')
            · exact .inr agree
          · simp only [if_neg last]
            exact .inr (.failed (cleanup_append rest))

theorem pairLine_spoilt {room : Nat} (pairs : OpenPairs room stream) :
    Spoilt (pairLine room stream) (pairLine room (stream ++ [newline])) := by
  induction pairs with
  | cutKey longest =>
    obtain ⟨failed, undefined⟩ := readField_longest longest
    rw [pairLine_succ, pairLine_succ, parsePair, parsePair, failed, undefined]
    exact ⟨rfl, .inl rfl⟩
  | cutValue item longest =>
    obtain ⟨failed, undefined⟩ := readField_longest longest
    rw [pairLine_succ, pairLine_succ, parsePair, parsePair, List.append_assoc, List.cons_append,
      readField_item item (.inl ⟨rfl, rfl⟩), readField_item item (.inl ⟨rfl, rfl⟩)]
    simp only [Option.bind_eq_bind, Option.bind_some, ne_eq, not_true_eq_false, ↓reduceIte, failed, undefined]
    exact ⟨rfl, .inl rfl⟩
  | closed item last =>
    rw [pairLine_succ, pairLine_succ, List.append_assoc, List.cons_append, List.append_assoc,
      parsePair_items item last, List.cons_append, parsePair_items item last]
    exact endList_spoilt (by simp)
  | more item item' later ih =>
    rw [pairLine_succ, pairLine_succ, List.append_assoc, List.cons_append, List.append_assoc, List.cons_append,
      parsePair_items item item', parsePair_items item item']
    exact ih.prepend _

theorem expect_agree {α : Type} {wanted : UInt8} {next : List UInt8 → Option (Parsed α)}
    {Open : List UInt8 → Prop} (other : newline ≠ wanted)
    (agrees : ∀ rest, Open rest ∨ Agree (next rest) (next (rest ++ [newline]))) (stream : List UInt8) :
    (∃ rest, stream = wanted :: rest ∧ Open rest) ∨
      Agree (expect wanted stream next) (expect wanted (stream ++ [newline]) next) := by
  cases stream with
  | nil =>
    simp only [List.nil_append, expect, if_neg other]
    exact .inr (.failed same_nil)
  | cons ch rest =>
    simp only [List.cons_append, expect]
    by_cases found : ch = wanted
    · simp only [if_pos found]
      exact (agrees rest).imp (fun open' => ⟨rest, by rw [found], open'⟩) id
    · simp only [if_neg found]
      exact .inr (.failed (cleanup_append rest))

theorem parseReadDelete_agree (max : Nat) (stream : List UInt8) :
    (∃ rest, stream = openBracket :: rest ∧ OpenKeys max rest) ∨
      Agree (parseReadDelete max stream) (parseReadDelete max (stream ++ [newline])) :=
  expect_agree (by decide) (keyLine_agree max) stream

theorem parseWrite_agree (max : Nat) (stream : List UInt8) :
    (∃ rest, stream = openBracket :: rest ∧ ∃ pairs, rest = openParen :: pairs ∧ OpenPairs max pairs) ∨
      Agree (parseWrite max stream) (parseWrite max (stream ++ [newline])) :=
  expect_agree (by decide) (expect_agree (by decide) (pairLine_agree max)) stream

end Readers

/-! One turn of the loop. -/

section Turn
variable {stack : Nat → UInt8} {stream : List UInt8}

/-- The two calls return the same and leave the same, up to the newline. -/
def Alike {α : Type} (outcome outcome' : Option (Parsed α)) : Prop :=
  outcome = none ∧ outcome' = none ∨
    ∃ result rest rest', outcome = some (result, rest) ∧ outcome' = some (result, rest') ∧ Same rest rest'

theorem alike_of_same {α : Type} {rest rest' : List UInt8} (result : Option α) (same : Same rest rest') :
    Alike (some (result, rest)) (some (result, rest')) :=
  .inr ⟨result, rest, rest', rfl, rfl, same⟩

theorem Agree.alike {α : Type} {outcome outcome' : Option (Parsed α)} (agree : Agree outcome outcome') :
    Alike outcome outcome' := by
  cases agree with
  | undefined => exact .inl ⟨rfl, rfl⟩
  | failed same => exact alike_of_same none same
  | @returned result rest => exact alike_of_same (some result) (same_append rest)

theorem Alike.dispatched {α : Type} {outcome outcome' : Option (Parsed α)} (command : α → JobCommand)
    (alike : Alike outcome outcome') :
    Alike (outcome.map (dispatched command)) (outcome'.map (dispatched command)) := by
  rcases alike with ⟨undefined, undefined'⟩ | ⟨result, rest, rest', returned, returned', same⟩
  · rw [undefined, undefined']
    exact .inl ⟨rfl, rfl⟩
  · rw [returned, returned']
    cases result with
    | none => exact alike_of_same _ same
    | some result => exact alike_of_same _ same

/-- The end of the file after the digits: `next` is NUL, and nothing ends the number. -/
theorem parseWait_eof {digits : List UInt8} (all : ∀ ch ∈ digits, isDigit ch = true) (short : digits.length ≤ 16) :
    parseWait stack digits =
      (uintOf (digits ++ (initialBuf stack).drop digits.length)).map fun value => (value, []) := by
  rw [parseWait, readUint_eof all short]
  cases uintOf (digits ++ (initialBuf stack).drop digits.length) with
  | none => rfl
  | some value => cases value <;> rfl

theorem parseWait_newline {digits : List UInt8} (all : ∀ ch ∈ digits, isDigit ch = true) (short : digits.length < 16) :
    parseWait stack (digits ++ [newline]) = (uintOf (digits ++ [0])).map fun value => (value, []) := by
  rw [parseWait, readUint_stop all (by decide) short, uintOf_terminated all]
  split_ifs <;> rfl

theorem parseWait_alike (stream : List UInt8) :
    ((∀ ch ∈ stream, isDigit ch = true) ∧ stream.length < 16 ∧
        uintOf (stream ++ (initialBuf stack).drop stream.length) ≠ uintOf (stream ++ [0])) ∨
      Alike (parseWait stack stream) (parseWait stack (stream ++ [newline])) := by
  obtain ⟨digits, later, split, all, stop⟩ := digits_split stream
  by_cases short : digits.length < 16
  · cases later with
    | nil =>
      rw [List.append_nil] at split
      subst split
      rw [parseWait_eof all (Nat.le_of_lt short), parseWait_newline all short]
      by_cases changed : uintOf (stream ++ (initialBuf stack).drop stream.length) = uintOf (stream ++ [0])
      · rw [changed]
        cases uintOf (stream ++ [0]) with
        | none => exact .inr (.inl ⟨rfl, rfl⟩)
        | some value => exact .inr (alike_of_same value same_nil)
      · exact .inl ⟨all, short, changed⟩
    | cons ch rest =>
      have read (tail : List UInt8) : readUint stack (digits ++ ch :: tail) = _ :=
        readUint_stop all (stop ch rest rfl) short tail
      subst split
      right
      rw [List.append_assoc, List.cons_append, parseWait, parseWait, read, read]
      simp only [Option.bind_eq_bind, Option.bind_some]
      split
      · exact alike_of_same none (cleanup_append rest)
      · split_ifs
        · exact alike_of_same _ (cleanup_append rest)
        · exact alike_of_same _ (same_append rest)
        · exact alike_of_same none (cleanup_append rest)
  · have long (tail : List UInt8) : readUint stack (digits ++ tail) = none :=
      readUint_long all (Nat.not_lt.mp short) tail
    subst split
    right
    rw [List.append_assoc, parseWait, parseWait, long, long]
    exact .inl ⟨rfl, rfl⟩

/-- One call of `get_next` without and with the newline. -/
inductive Rescan (stream : List UInt8) : Command × List UInt8 → Command × List UInt8 → Prop where
  | keyword {word rest : List UInt8} {command : Command} (named : argumentWord command = some word)
      (split : stream = word ++ rest) : Rescan stream (command, rest) (command, rest ++ [newline])
  | line {rest rest' : List UInt8} {command : Command} (bare : argumentWord command = none)
      (more : command ≠ .eoc) (same : Same rest rest') : Rescan stream (command, rest) (command, rest')

theorem take_newline {word : List UInt8} (inside : newline ∉ word) (stream : List UInt8) :
    (stream ++ [newline]).take word.length = word ↔ stream.take word.length = word := by
  by_cases long : word.length ≤ stream.length
  · rw [List.take_append_of_le_length long]
  · have past : stream.take word.length = stream := List.take_of_length_le (by omega)
    rw [past]
    refine ⟨fun same => ?_, fun same => ?_⟩
    · rw [List.take_of_length_le (by rw [List.length_append, List.length_singleton]; omega)] at same
      exact absurd (same ▸ List.mem_append_right stream (List.mem_singleton_self newline)) inside
    · exact absurd (congrArg List.length same) (by omega)

theorem drop_newline (count : Nat) (stream : List UInt8) :
    Same (stream.drop count) ((stream ++ [newline]).drop count) := by
  by_cases long : count ≤ stream.length
  · rw [List.drop_append_of_le_length long]
    exact same_append _
  · rw [List.drop_of_length_le (by omega),
      List.drop_of_length_le (by rw [List.length_append, List.length_singleton]; omega)]
    exact same_nil

theorem withArguments_rescan {word word' : List UInt8} {first : UInt8} {command : Command}
    (named : argumentWord command = some word) (whole : word = first :: word') (inside : newline ∉ word')
    (stream : List UInt8) : Rescan (first :: stream) (withArguments word' command stream)
      (withArguments word' command (stream ++ [newline])) := by
  have dropped := drop_newline word'.length stream
  unfold withArguments
  by_cases found : stream.take word'.length = word'
  · have long : word'.length ≤ stream.length := by
      have length := congrArg List.length found
      rw [List.length_take] at length
      omega
    rw [if_pos found, if_pos ((take_newline inside stream).mpr found), List.drop_append_of_le_length long]
    refine .keyword named ?_
    rw [whole, List.cons_append]
    conv_lhs => rw [← List.take_append_drop word'.length stream, found]
  · rw [if_neg found, if_neg (fun same => found ((take_newline inside stream).mp same))]
    exact .line rfl (by simp) dropped.cleanup

theorem alone_rescan {word : List UInt8} {first : UInt8} {command : Command}
    (bare : argumentWord command = none) (more : command ≠ .eoc) (inside : newline ∉ word)
    (stream : List UInt8) : Rescan (first :: stream) (alone word command stream)
      (alone word command (stream ++ [newline])) := by
  have dropped := drop_newline word.length stream
  unfold alone
  by_cases found : stream.take word.length = word
  · rw [if_pos found, if_pos ((take_newline inside stream).mpr found)]
    generalize stream.drop word.length = rest, (stream ++ [newline]).drop word.length = rest' at dropped
    rcases dropped with appended | ⟨ended, ended'⟩
    · subst appended
      cases rest with
      | nil => exact .line bare more same_nil
      | cons ch rest =>
        simp only [List.cons_append]
        split
        · exact .line bare more (same_append rest)
        · exact .line rfl (by simp) (cleanup_append rest)
    · subst ended ended'
      exact .line bare more same_nil
  · rw [if_neg found, if_neg (fun same => found ((take_newline inside stream).mp same))]
    exact .line rfl (by simp) dropped.cleanup

theorem waitOrWrite_rescan (stream : List UInt8) :
    Rescan ('W'.toUInt8 :: stream) (waitOrWrite stream) (waitOrWrite (stream ++ [newline])) := by
  have word : newline ∉ text "AIT " := by decide
  have taken : (stream ++ [newline]).take 4 = text "AIT " ↔ stream.take 4 = text "AIT " := take_newline word stream
  unfold waitOrWrite
  by_cases wait : stream.take 4 = text "AIT "
  · have rescan : Rescan ('W'.toUInt8 :: stream) (withArguments (text "AIT ") .cmdWait stream) _ :=
      withArguments_rescan rfl rfl word stream
    have first : withArguments (text "AIT ") .cmdWait stream = (.cmdWait, stream.drop 4) := if_pos wait
    have second : withArguments (text "AIT ") .cmdWait (stream ++ [newline]) =
        (.cmdWait, (stream ++ [newline]).drop 4) := if_pos (taken.mpr wait)
    rw [if_pos wait, if_pos (taken.mpr wait)]
    rwa [first, second] at rescan
  · rw [if_neg wait, if_neg (fun same => wait (taken.mp same))]
    have dropped := drop_newline 4 stream
    cases left : stream.drop 4 with
    | nil =>
      rw [left] at dropped
      rcases dropped with appended | ⟨_, ended⟩
      · have other : ¬(stream ++ [newline]).take 4 ++ [newline] = text "RITE " := by
          intro same
          have last := congrArg List.getLast? same
          rw [List.getLast?_concat] at last
          exact absurd last (by decide)
        rw [appended, List.nil_append]
        simp only [if_neg other]
        exact .line rfl (by simp) same_nil
      · rw [ended]
        exact .line rfl (by simp) same_nil
    | cons ch rest =>
      have long : 4 ≤ stream.length := by
        have length := congrArg List.length left
        rw [List.length_drop, List.length_cons] at length
        omega
      rw [List.drop_append_of_le_length long, List.take_append_of_le_length long, left, List.cons_append]
      simp only
      split
      next found =>
        refine .keyword rfl ?_
        show _ :: stream = _ :: (text "RITE " ++ rest)
        rw [← found, List.append_assoc, List.singleton_append, ← left, List.take_append_drop]
        rfl
      next => exact .line rfl (by simp) (cleanup_append rest)

theorem rescan_ite {condition : Prop} [Decidable condition] {stream : List UInt8}
    {got got' other other' : Command × List UInt8} (yes : condition → Rescan stream got got')
    (no : Rescan stream other other') :
    Rescan stream (if condition then got else other) (if condition then got' else other') := by
  by_cases met : condition
  · rw [if_pos met, if_pos met]
    exact yes met
  · rw [if_neg met, if_neg met]
    exact no

theorem rescan (first : UInt8) (stream : List UInt8) :
    Rescan (first :: stream) (getNext (first :: stream)) (getNext (first :: stream ++ [newline])) := by
  rw [List.cons_append, getNext, getNext]
  apply rescan_ite
  · intro isW
    subst isW
    exact waitOrWrite_rescan stream
  apply rescan_ite
  · intro isR
    subst isR
    exact withArguments_rescan rfl rfl (by decide) stream
  apply rescan_ite
  · intro isD
    subst isD
    exact withArguments_rescan rfl rfl (by decide) stream
  apply rescan_ite
  · exact fun _ => alone_rescan (by decide) (by decide) (by decide) stream
  apply rescan_ite
  · exact fun _ => alone_rescan (by decide) (by decide) (by decide) stream
  apply rescan_ite
  · exact fun _ => alone_rescan (by decide) (by decide) (by decide) stream
  apply rescan_ite
  · exact fun _ => .line rfl (by simp) (cleanup_append stream)
  apply rescan_ite
  · exact fun _ => .line rfl (by simp) (same_append stream)
  · exact .line rfl (by simp) (cleanup_append stream)

theorem nextCommand_alike (first : UInt8) (stream : List UInt8) :
    Unterminated stack (first :: stream) ∨
      Alike (nextCommand stack (first :: stream)) (nextCommand stack (first :: stream ++ [newline])) := by
  have rescan := rescan first stream
  unfold nextCommand
  generalize getNext (first :: stream) = got, getNext (first :: stream ++ [newline]) = got' at rescan
  cases rescan with
  | @keyword word rest command named split =>
    rw [split]
    cases command with
    | cmdWrite =>
      cases named
      rcases parseWrite_agree MAX_WRITE_SIZE rest with ⟨_, rfl, pairs, rfl, unfinished⟩ | agree
      · exact .inl (.write unfinished)
      · exact .inr (agree.alike.dispatched .write)
    | cmdRead =>
      cases named
      rcases parseReadDelete_agree MAX_WRITE_SIZE rest with ⟨keys, rfl, unfinished⟩ | agree
      · exact .inl (.read unfinished)
      · exact .inr (agree.alike.dispatched .read)
    | cmdDelete =>
      cases named
      rcases parseReadDelete_agree MAX_WRITE_SIZE rest with ⟨keys, rfl, unfinished⟩ | agree
      · exact .inl (.delete unfinished)
      · exact .inr (agree.alike.dispatched .delete)
    | cmdWait =>
      cases named
      rcases parseWait_alike rest with ⟨all, short, changed⟩ | alike
      · exact .inl (.wait all short changed)
      · exact .inr (alike.dispatched .wait)
    | cmdShow | cmdBackup | cmdHelp | cmdEmpty | cmdInvalid | eoc => cases named
  | @line rest rest' command bare more same =>
    right
    cases command with
    | cmdShow | cmdBackup | cmdHelp | cmdEmpty | cmdInvalid => exact alike_of_same _ same
    | eoc => exact absurd rfl more
    | cmdWrite | cmdRead | cmdDelete | cmdWait => cases bare

/-- The turn is the last one, with the command `last` or undefined. -/
def Last (outcome : Option (Parsed JobCommand)) (last : Option JobCommand) : Prop :=
  outcome = last.map fun command => (some command, [])

theorem Spoilt.last {α : Type} {outcome outcome' : Option (Parsed (List α))} (spoilt : Spoilt outcome outcome')
    {command : List α → JobCommand} (valid : ∀ items, command items ≠ .invalid ∧ command items ≠ .empty) :
    ∃ last last', last ≠ last' ∧ last ≠ some .empty ∧ last' ≠ some .empty ∧
      Last (outcome.map (dispatched command)) last ∧ Last (outcome'.map (dispatched command)) last' := by
  obtain ⟨failed, undefined | ⟨items, returned⟩⟩ := spoilt
  · rw [failed, undefined]
    exact ⟨some .invalid, none, nofun, nofun, nofun, rfl, rfl⟩
  · obtain ⟨notInvalid, notEmpty⟩ := valid items
    rw [failed, returned]
    exact ⟨some .invalid, some (command items), fun same => notInvalid (Option.some.inj same).symm, nofun,
      fun same => notEmpty (Option.some.inj same), rfl, rfl⟩

def waitCommand (value : Option Nat) : JobCommand := value.elim .invalid .wait

theorem waitCommand_injective {value value' : Option Nat} (same : waitCommand value = waitCommand value') :
    value = value' := by
  cases value with
  | none =>
    cases value' with
    | none => rfl
    | some => cases same
  | some =>
    cases value' with
    | none => cases same
    | some =>
      cases same
      rfl

/-- The newline changes the last command of a file that ends in an unterminated one. -/
theorem unterminated_last (unterminated : Unterminated stack stream) :
    ∃ last last', last ≠ last' ∧ last ≠ some .empty ∧ last' ≠ some .empty ∧
      Last (nextCommand stack stream) last ∧ Last (nextCommand stack (stream ++ [newline])) last' := by
  cases unterminated with
  | write pairs => exact (pairLine_spoilt pairs).last fun _ => ⟨nofun, nofun⟩
  | read keys => exact (keyLine_spoilt keys).last fun _ => ⟨nofun, nofun⟩
  | delete keys => exact (keyLine_spoilt keys).last fun _ => ⟨nofun, nofun⟩
  | @wait digits all short changed =>
    have last (value : Option (Option Nat)) : Last ((value.map fun value => (value, [])).map (dispatched .wait))
        (value.map waitCommand) := by
      cases value with
      | none => rfl
      | some value => cases value <;> rfl
    have working (value : Option (Option Nat)) : value.map waitCommand ≠ some .empty := by
      cases value with
      | none => exact nofun
      | some value => cases value <;> exact nofun
    have spelled (later : List UInt8) :
        nextCommand stack (text "WAIT " ++ later) = (parseWait stack later).map (dispatched .wait) := rfl
    refine ⟨_, _, fun same => changed (Option.map_injective (fun _ _ => waitCommand_injective) same), working _,
      working _, ?_, ?_⟩
    · rw [spelled, parseWait_eof all (Nat.le_of_lt short)]
      exact last _
    · rw [List.append_assoc, spelled, parseWait_newline all short]
      exact last _

end Turn

/-! The whole run. -/

section Run
variable {stack : Nat → UInt8} {file stream rest : List UInt8}

theorem executed_undefined (ran : nextCommand stack stream = none) : executed stack stream = none := by
  rw [executed, commands_undefined ran, Option.map_none]

theorem executed_end (ran : nextCommand stack stream = some (none, rest)) : executed stack stream = some [] := by
  rw [executed, commands_end ran]
  rfl

/-- The commands of a run that starts with this one. -/
def executeFirst (command : JobCommand) (later : List JobCommand) : List JobCommand :=
  if command = .empty then later else command :: later

theorem executeFirst_injective (command : JobCommand) : Function.Injective (executeFirst command) := by
  intro later later' same
  unfold executeFirst at same
  split at same
  · exact same
  · exact List.tail_eq_of_cons_eq same

theorem executed_turn {command : JobCommand} (ran : nextCommand stack stream = some (some command, rest)) :
    executed stack stream = (executed stack rest).map (executeFirst command) := by
  rw [executed, commands_turn ran, executed, Option.map_map, Option.map_map]
  apply congrArg (Option.map · _)
  funext later
  by_cases empty : command = .empty <;> simp [executeFirst, empty]

theorem executed_nil : executed stack [] = some [] := executed_end nextCommand_nil

theorem executed_last {last : Option JobCommand} (working : last ≠ some .empty)
    (ran : Last (nextCommand stack stream) last) : executed stack stream = last.map fun command => [command] := by
  cases last with
  | none => exact executed_undefined ran
  | some command =>
    have other : command ≠ .empty := fun same => working (congrArg some same)
    rw [executed_turn ran, executed_nil, Option.map_some, executeFirst, if_neg other]
    rfl

/-- The newline is not noticed: the loop never comes to an unterminated command. -/
def Unnoticed (stack : Nat → UInt8) (file : List UInt8) : Prop :=
  ∀ stream, Reaches stack file stream → ¬Unterminated stack stream

theorem unnoticed_turn {command : JobCommand} (ran : nextCommand stack file = some (some command, rest))
    (here : ¬Unterminated stack file) : Unnoticed stack file ↔ Unnoticed stack rest := by
  constructor
  · exact fun all stream reached => all stream (reaches_iff.mpr (.inr ⟨command, rest, ran, reached⟩))
  · intro later stream reached
    rcases reaches_iff.mp reached with same | ⟨command', rest', ran', reached⟩
    · exact same ▸ here
    · rw [ran] at ran'
      cases ran'
      exact later stream reached

theorem unnoticed_end (ran : ∀ command rest, nextCommand stack file ≠ some (some command, rest))
    (here : ¬Unterminated stack file) : Unnoticed stack file := by
  intro stream reached
  rcases reaches_iff.mp reached with same | ⟨command, rest, ran', _⟩
  · exact same ▸ here
  · exact absurd ran' (ran command rest)

theorem terminated_nil : ¬Unterminated stack [] := nofun

theorem executed_iff (stack : Nat → UInt8) (file : List UInt8) :
    executed stack (file ++ [newline]) = executed stack file ↔ Unnoticed stack file := by
  induction size : file.length using Nat.strong_induction_on generalizing file with
  | h size ih =>
    subst size
    cases file with
    | nil => exact iff_of_true rfl (unnoticed_end nofun terminated_nil)
    | cons first stream =>
      by_cases unterminated : Unterminated stack (first :: stream)
      · obtain ⟨last, last', differ, working, working', ran, ran'⟩ := unterminated_last unterminated
        rw [executed_last working ran, executed_last working' ran']
        refine iff_of_false (fun same => differ ?_) (fun unnoticed => unnoticed _ .start unterminated)
        exact (Option.map_injective (fun _ _ => List.singleton_inj.mp) same).symm
      · rcases (nextCommand_alike first stream).resolve_left unterminated with
          ⟨undefined, undefined'⟩ | ⟨result, rest, rest', ran, ran', same⟩
        · rw [executed_undefined undefined, executed_undefined undefined']
          exact iff_of_true rfl (unnoticed_end (fun _ _ ran => by rw [undefined] at ran; cases ran) unterminated)
        · cases result with
          | none =>
            rw [executed_end ran, executed_end ran']
            exact iff_of_true rfl (unnoticed_end (fun _ _ other => by rw [ran] at other; cases other) unterminated)
          | some command =>
            rw [executed_turn ran, executed_turn ran', unnoticed_turn ran unterminated]
            have shorter := nextCommand_shorter ran
            rcases same with appended | ⟨ended, ended'⟩
            · rw [appended, ← ih rest.length shorter rest rfl]
              exact (Option.map_injective (executeFirst_injective command)).eq_iff
            · rw [ended, ended']
              exact iff_of_true rfl (unnoticed_end nofun terminated_nil)

theorem executed_isSome_iff :
    (executed stack file).isSome = true ↔ ∀ stream, Reaches stack file stream → ¬Overflows stack stream := by
  rw [executed, Option.isSome_map, BufferBounds.commands_isSome_iff]

theorem perform_empty (forks : Nat → Bool) (fileBackups : Nat) (kvsTable : KvsTable) (commands : List JobCommand) :
    performAll forks fileBackups kvsTable (.empty :: commands) = performAll forks fileBackups kvsTable commands := by
  simp only [performAll, perform, JobCommand.backupsAfter, Option.bind_eq_bind, Option.bind_some]
  cases performAll forks fileBackups kvsTable commands <;> rfl

theorem performAll_working (forks : Nat → Bool) (fileBackups : Nat) (kvsTable : KvsTable) (commands : List JobCommand) :
    performAll forks fileBackups kvsTable (commands.filter (· ≠ .empty)) = performAll forks fileBackups kvsTable commands := by
  induction commands generalizing fileBackups kvsTable with
  | nil => rfl
  | cons command commands ih =>
    by_cases empty : command = .empty
    · rw [empty, perform_empty, ← ih]
      rfl
    · rw [List.filter_cons_of_pos (by simpa using empty)]
      simp only [performAll, ih]

/-- What the run does depends on the commands it executes only. -/
theorem runJob_executed (forks : Nat → Bool) (kvsTable : KvsTable) (file : List UInt8) :
    runJob stack forks kvsTable file = (executed stack file).bind (performAll forks 0 kvsTable) := by
  rw [runJob_eq, executed]
  cases commands stack file with
  | none => rfl
  | some read => exact (performAll_working forks 0 kvsTable read.1).symm

/-- With a newline at its end the file executes the same commands, and so does the same
to the store, to the output and to the clients, exactly when the loop comes neither to an
unterminated command nor to one that makes its parser leave a buffer. -/
theorem final_newline_unnoticed_iff (stack : Nat → UInt8) (file : List UInt8) :
    ((∃ commands, executed stack file = some commands ∧ executed stack (file ++ [newline]) = some commands) ∧
      ∀ forks kvsTable, runJob stack forks kvsTable (file ++ [newline]) = runJob stack forks kvsTable file) ↔
      ∀ stream, Reaches stack file stream → ¬Unterminated stack stream ∧ ¬Overflows stack stream := by
  rw [forall₂_and, ← executed_isSome_iff, Option.isSome_iff_exists]
  constructor
  · rintro ⟨⟨commands, ran, ran'⟩, _⟩
    exact ⟨(executed_iff stack file).mp (ran'.trans ran.symm), commands, ran⟩
  · rintro ⟨unnoticed, commands, ran⟩
    have same := (executed_iff stack file).mpr unnoticed
    refine ⟨⟨commands, ran, same.trans ran⟩, fun forks kvsTable => ?_⟩
    rw [runJob_executed, runJob_executed, same]

/-- `READ [a]` at the end of the file is reported invalid, and with a newline it reads. -/
theorem unterminated_read_noticed : ¬∀ file : List UInt8, file.getLast? ≠ some newline →
    executed (fun _ => 0) (file ++ [newline]) = executed (fun _ => 0) file :=
  fun same => absurd (same (text "READ [a]") (by decide)) (by decide)

end Run

end IstKvs.FinalNewline
