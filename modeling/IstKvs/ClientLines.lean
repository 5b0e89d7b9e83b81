import IstKvs.ArgumentRecovery
import IstKvs.TokenBounds

/-! Whether one turn of the client's loop consumes one line. The reader of the keywords
looks ahead, the list parser takes a line ending for part of a key, and the delay parser
does not look at the byte behind the number. -/

namespace IstKvs.ClientLines
open Lines Readings Operations ClientParser
open JobParser (newline space comma closeParen openBracket closeBracket Item isDigit numeral uintOf initialBuf
  UINT_MAX cleanup)

/-- The first line of the input, without its ending. -/
def firstLine (stream : List UInt8) : List UInt8 := stream.takeWhile (· != newline)

/-- Digits and nothing else behind the keyword, `least` of them or more. -/
def LineOfDigits (least : Nat) (stream : List UInt8) : Prop :=
  ∃ digits, (∀ ch ∈ digits, isDigit ch = true) ∧ least ≤ digits.length ∧
    firstLine stream = text "DELAY " ++ digits

/-- The turn leaves the input behind its first line, and it takes a delay only from a line
of digits. -/
def ConsumesLine (stack : Nat → UInt8) (least : Nat) (stream : List UInt8) : Prop :=
  ∃ turn left, takeTurn stack stream = some (turn, left) ∧ Behind newline stream left ∧
    ∀ delayMs, turn = .delay delayMs → LineOfDigits least stream

/-! The texts that a turn reads before it stops, or before it skips what is left of a line. -/

inductive AcceptedKey : List CString → List UInt8 → Prop where
  | key {key : List UInt8} {ch : UInt8} (item : Item key) (ended : ch = newline ∨ ch = 0) :
      AcceptedKey [CString.ofBytes key] (openBracket :: (key ++ [closeBracket, ch]))

inductive RefusedKey : List UInt8 → List UInt8 → Prop where
  | nothing : RefusedKey [] []
  | bracket {ch : UInt8} {rest : List UInt8} (other : ch ≠ openBracket) : RefusedKey [ch] rest
  | cut {key : List UInt8} (item : Item key) : RefusedKey (openBracket :: key) []
  | key {key rest : List UInt8} {ch : UInt8} (item : Item key) (bad : ch = space ∨ ch = comma ∨ ch = closeParen) :
      RefusedKey (openBracket :: (key ++ [ch])) rest
  | unended {key : List UInt8} (item : Item key) : RefusedKey (openBracket :: (key ++ [closeBracket])) []
  | tail {key rest : List UInt8} {ch : UInt8} (item : Item key) (other : ch ≠ newline ∧ ch ≠ 0) :
      RefusedKey (openBracket :: (key ++ [closeBracket, ch])) rest

/-- The bytes read for a word that they are not; fewer only at the end of the input. -/
def Misread (word ahead rest : List UInt8) : Prop :=
  ahead ≠ word ∧ (ahead.length = word.length ∨ ahead.length < word.length ∧ rest = [])

/-- The keywords that a list follows: the first byte and the word behind it. -/
inductive ListKeyword : UInt8 → List UInt8 → (CString → Turn) → Prop where
  | subscribe : ListKeyword 'S'.toUInt8 (text "UBSCRIBE ") .subscribe
  | unsubscribe : ListKeyword 'U'.toUInt8 (text "NSUBSCRIBE ") .unsubscribe

/-- How a turn ends: it leaves what it has not read, it skips the rest of a line, or it
takes a number, with the byte behind it if there is one. -/
inductive Ending where
  | stops
  | skips
  | takes (digits : List UInt8) (next : Option UInt8)

def Ending.left : Ending → List UInt8 → List UInt8
  | .skips, rest => cleanup rest
  | _, rest => rest

/-- What one turn reads; `rest` is what it has not read when it ends. -/
inductive Reads (stack : Nat → UInt8) : Turn → Ending → List UInt8 → List UInt8 → Prop where
  | endOfInput : Reads stack .endOfInput .stops [] []
  | emptyLine {rest : List UInt8} : Reads stack .empty .stops [newline] rest
  | comment {rest : List UInt8} : Reads stack .empty .skips ['#'.toUInt8] rest
  | unknown {first : UInt8} {rest : List UInt8} (other : first ≠ 'S'.toUInt8 ∧ first ≠ 'U'.toUInt8 ∧
      first ≠ 'D'.toUInt8 ∧ first ≠ '#'.toUInt8 ∧ first ≠ newline) : Reads stack .invalid .skips [first] rest
  | keyword {first : UInt8} {word ahead rest : List UInt8} {turn : CString → Turn}
      (expected : ListKeyword first word turn) (misread : Misread word ahead rest) :
      Reads stack .invalid .skips (first :: ahead) rest
  | neither {ahead rest : List UInt8} (delay : ahead.take 5 ≠ text "ELAY ")
      (misread : Misread (text "ISCONNECT") ahead rest) : Reads stack .invalid .skips ('D'.toUInt8 :: ahead) rest
  | disconnect {rest : List UInt8} : Reads stack .disconnect .stops (text "DISCONNECT" ++ [newline]) rest
  | disconnectCut : Reads stack .disconnect .stops (text "DISCONNECT") []
  | disconnectTail {ch : UInt8} {rest : List UInt8} (other : ch ≠ newline) :
      Reads stack .invalid .skips (text "DISCONNECT" ++ [ch]) rest
  | key {first : UInt8} {word args rest : List UInt8} {turn : CString → Turn} {key : CString}
      (expected : ListKeyword first word turn) (accepted : AcceptedKey [key] args) :
      Reads stack (turn key) .stops (first :: (word ++ args)) rest
  | refused {first : UInt8} {word args rest : List UInt8} {turn : CString → Turn}
      (expected : ListKeyword first word turn) (refused : RefusedKey args rest) :
      Reads stack .invalid .skips (first :: (word ++ args)) rest
  | delay {digits rest : List UInt8} {ch : UInt8} (all : ∀ ch ∈ digits, isDigit ch = true)
      (stop : isDigit ch = false) (short : digits.length < 16) (fits : numeral digits ≤ UINT_MAX) :
      Reads stack (.delay (numeral digits)) (.takes digits (some ch)) (text "DELAY " ++ (digits ++ [ch])) rest
  | tooLarge {digits rest : List UInt8} {ch : UInt8} (all : ∀ ch ∈ digits, isDigit ch = true)
      (stop : isDigit ch = false) (short : digits.length < 16) (large : UINT_MAX < numeral digits) :
      Reads stack .invalid .skips (text "DELAY " ++ (digits ++ [ch])) rest
  | delayCut {digits : List UInt8} {delayMs : Nat} (all : ∀ ch ∈ digits, isDigit ch = true)
      (short : digits.length < 16)
      (number : uintOf (digits ++ (initialBuf stack).drop digits.length) = some (some delayMs)) :
      Reads stack (.delay delayMs) (.takes digits none) (text "DELAY " ++ digits) []
  | tooLargeCut {digits : List UInt8} (all : ∀ ch ∈ digits, isDigit ch = true) (short : digits.length < 16)
      (number : uintOf (digits ++ (initialBuf stack).drop digits.length) = some none) :
      Reads stack .invalid .skips (text "DELAY " ++ digits) []

def IsRead (stack : Nat → UInt8) (stream : List UInt8) (turn : Turn) (left : List UInt8) : Prop :=
  ∃ ending head rest, stream = head ++ rest ∧ Reads stack turn ending head rest ∧ left = ending.left rest

/-- What is read lies in one line and goes to its end. -/
def Tidy (least : Nat) (ending : Ending) (head rest : List UInt8) : Prop :=
  match ending with
  | .stops => (∃ line, newline ∉ line ∧ head = line ++ [newline]) ∨ newline ∉ head ∧ rest = []
  | .skips => newline ∉ head ∨ afterMark newline (head ++ rest) = []
  | .takes digits next => least ≤ digits.length ∧ (next = none ∨ next = some newline)

/-! Lists. -/

section List
variable {stream rest : List UInt8}

theorem parseList_overflow (outside : JobParser.readField stream = none) :
    parseList 1 (openBracket :: stream) = none := by
  rw [parseList, JobParser.expect, if_pos rfl, parseKeys, outside]
  rfl

/-- An item that no closing bracket ends. -/
theorem parseList_unclosed {value : Int} {stored : List UInt8} {terminated : Bool}
    (ran : JobParser.readField stream = some ⟨value, stored, terminated, rest⟩) (other : value ≠ 2) :
    parseList 1 (openBracket :: stream) = some (none, cleanup rest) := by
  have returned : (value < 0 ∨ value = 1) ∨ value = 2 ∨ value = 0 := TokenBounds.value_cases ran
  rw [parseList, JobParser.expect, if_pos rfl, parseKeys, ran]
  simp only [Option.bind_eq_bind, Option.bind_some]
  rcases returned with failed | closed | goesOn
  · rw [if_pos failed]
    rfl
  · exact absurd closed other
  · rw [if_neg (show ¬(value < 0 ∨ value = 1) by omega), if_neg other, goesOn]
    rfl

/-- A closed item; the list is full and must end the line. -/
theorem parseList_closed {key : List UInt8} (item : Item key) (rest : List UInt8) :
    parseList 1 (openBracket :: (key ++ closeBracket :: rest)) =
      some (endList 1 (some ([CString.ofBytes key], 2), rest)) := by
  rw [parseList, JobParser.expect, if_pos rfl, parseKeys, JobParser.readField_item item JobParser.ends_closeBracket]
  rfl

theorem endList_cut (key : CString) : endList 1 (some ([key], 2), []) = (none, cleanup []) := rfl

theorem endList_next (key : CString) (ch : UInt8) (rest : List UInt8) :
    endList 1 (some ([key], 2), ch :: rest) =
      if ch = newline ∨ ch = 0 then (some [key], rest) else (none, cleanup rest) := by
  simp [endList]

theorem parseList_accepts {keys : List CString} {args : List UInt8} (accepted : AcceptedKey keys args)
    (rest : List UInt8) : parseList 1 (args ++ rest) = some (some keys, rest) := by
  cases accepted with
  | @key key ch item ended =>
    have closed := parseList_closed item (ch :: rest)
    rw [endList_next, if_pos ended] at closed
    simpa using closed

theorem parseList_refuses {args : List UInt8} (refused : RefusedKey args rest) :
    parseList 1 (args ++ rest) = some (none, cleanup rest) := by
  cases refused with
  | nothing => rfl
  | bracket other =>
    simp only [parseList, List.singleton_append, JobParser.expect, if_neg other]
  | cut item =>
    rw [List.append_nil, parseList_unclosed (JobParser.readField_cut item) (by decide)]
  | @key key _ ch item bad =>
    have failed : ∃ value terminated, JobParser.readField (key ++ ch :: rest) = some ⟨value, key, terminated, rest⟩ ∧
        value ≠ 2 := by
      rcases bad with same | same | same
      · exact ⟨_, _, same ▸ JobParser.readField_space item rest, by decide⟩
      · exact ⟨_, _, same ▸ JobParser.readField_item item JobParser.ends_comma rest, by decide⟩
      · exact ⟨_, _, same ▸ JobParser.readField_item item JobParser.ends_closeParen rest, by decide⟩
    obtain ⟨value, terminated, ran, other⟩ := failed
    rw [List.cons_append, List.append_assoc, List.singleton_append, parseList_unclosed ran other]
  | unended item =>
    have closed := parseList_closed item []
    rw [endList_cut] at closed
    simpa using closed
  | @tail key _ ch item other =>
    have closed := parseList_closed item (ch :: rest)
    rw [endList_next, if_neg (not_or.mpr other)] at closed
    simpa using closed

theorem reading_refused {consumed : List UInt8} (split : stream = consumed ++ rest)
    (refused : RefusedKey consumed rest) :
    Reading (fun (_ : Unit) => cleanup) AcceptedKey (fun _ => RefusedKey) stream (some (none, cleanup rest)) :=
  @Reading.refused _ _ _ (fun _ => cleanup) AcceptedKey (fun _ => RefusedKey) stream () consumed rest split refused

theorem parseList_reading (stream : List UInt8) :
    Reading (fun (_ : Unit) => cleanup) AcceptedKey (fun _ => RefusedKey) stream (parseList 1 stream) := by
  cases stream with
  | nil => exact reading_refused rfl .nothing
  | cons first later =>
    by_cases bracket : first = openBracket
    · subst bracket
      have field := JobParser.fieldRead later
      generalize outcome : JobParser.readField later = read at field
      cases field with
      | overflow =>
        rw [parseList_overflow outcome]
        exact .undefined
      | cut item =>
        rw [parseList_unclosed outcome (by decide)]
        exact reading_refused (List.append_nil _).symm (.cut item)
      | space item split =>
        rw [parseList_unclosed outcome (by decide)]
        exact reading_refused (by simp [split]) (.key item (.inl rfl))
      | @delimited item rest ch value kept ends split =>
        rcases ends with ⟨same, same'⟩ | ⟨same, same'⟩ | ⟨same, same'⟩ <;> subst same same'
        · rw [parseList_unclosed outcome (by decide)]
          exact reading_refused (by simp [split]) (.key kept (.inr (.inl rfl)))
        · rw [parseList_unclosed outcome (by decide)]
          exact reading_refused (by simp [split]) (.key kept (.inr (.inr rfl)))
        · rw [split, parseList_closed kept]
          cases rest with
          | nil => exact reading_refused (by simp) (.unended kept)
          | cons ch rest =>
            rw [endList_next]
            by_cases ended : ch = newline ∨ ch = 0
            · rw [if_pos ended]
              exact .accepted (by simp) (.key kept ended)
            · rw [if_neg ended]
              exact reading_refused (by simp) (.tail kept (not_or.mp ended))
    · have refused : parseList 1 (first :: later) = some (none, cleanup later) := by
        rw [parseList, JobParser.expect, if_neg bracket]
      rw [refused]
      exact reading_refused List.singleton_append.symm (.bracket bracket)

/-- The two grammars describe `parse_list` for one key; a refusal skips the rest of a line. -/
theorem parseList_describes :
    Describes (fun (_ : Unit) => cleanup) AcceptedKey (fun _ => RefusedKey) (parseList 1) where
  reading := parseList_reading
  accepts := parseList_accepts
  refuses := parseList_refuses

end List

/-! One turn, by what it starts with. -/

section Turn
variable {stack : Nat → UInt8} {stream args rest left : List UInt8} {turn : Turn}

section Keyword
variable {first : UInt8} {word : List UInt8} {turn : CString → Turn}

theorem takeTurn_listKeyword (expected : ListKeyword first word turn) (later : List UInt8) :
    takeTurn stack (first :: later) =
      if later.take word.length = word then (parseList 1 (later.drop word.length)).map (withKey turn)
      else some (.invalid, cleanup (later.drop word.length)) := by
  cases expected with
  | subscribe =>
    have found : getNext ('S'.toUInt8 :: later) = withArguments (text "UBSCRIBE ") .cmdSubscribe later := by
      rw [getNext, if_pos rfl]
    rw [takeTurn, found, withArguments]
    split_ifs <;> rfl
  | unsubscribe =>
    have found : getNext ('U'.toUInt8 :: later) = withArguments (text "NSUBSCRIBE ") .cmdUnsubscribe later := by
      rw [getNext, if_neg (by decide), if_pos rfl]
    rw [takeTurn, found, withArguments]
    split_ifs <;> rfl

theorem takeTurn_keyword (expected : ListKeyword first word turn) (args : List UInt8) :
    takeTurn stack (first :: (word ++ args)) = (parseList 1 args).map (withKey turn) := by
  rw [takeTurn_listKeyword expected, if_pos (List.take_left' rfl), List.drop_left' rfl]

/-- Another word than the one expected. -/
theorem takeTurn_misread (expected : ListKeyword first word turn) {later : List UInt8}
    (other : later.take word.length ≠ word) :
    takeTurn stack (first :: later) = some (.invalid, cleanup (later.drop word.length)) := by
  rw [takeTurn_listKeyword expected, if_neg other]

end Keyword

theorem getNext_delayOrDisconnect (later : List UInt8) :
    getNext ('D'.toUInt8 :: later) = delayOrDisconnect later := by
  rw [getNext, if_neg (by decide), if_neg (by decide), if_pos rfl]

theorem takeTurn_delay (args : List UInt8) :
    takeTurn stack (text "DELAY " ++ args) = (parseDelay stack args).map withDelay := by
  have found : getNext (text "DELAY " ++ args) = (.cmdDelay, args) := by
    have word : (text "ELAY " ++ args).take 5 = text "ELAY " := List.take_left' (by decide)
    have behind : (text "ELAY " ++ args).drop 5 = args := List.drop_left' (by decide)
    show getNext ('D'.toUInt8 :: (text "ELAY " ++ args)) = _
    rw [getNext_delayOrDisconnect, delayOrDisconnect, if_pos word, behind]
  rw [takeTurn, found]

theorem getNext_disconnect (rest : List UInt8) :
    getNext (text "DISCONNECT" ++ rest) = if rest = [] then (.cmdDisconnect, [])
      else if rest.head? = some newline then (.cmdDisconnect, rest.tail)
      else (.cmdInvalid, cleanup rest.tail) := by
  have other : (text "ISCONNECT" ++ rest).take 5 ≠ text "ELAY " := by
    rw [List.take_append_of_le_length (by decide)]
    decide
  have word : (text "ISCONNECT" ++ rest).take 9 = text "ISCONNECT" := List.take_left' (by decide)
  have behind : (text "ISCONNECT" ++ rest).drop 9 = rest := List.drop_left' (by decide)
  show getNext ('D'.toUInt8 :: (text "ISCONNECT" ++ rest)) = _
  rw [getNext_delayOrDisconnect, delayOrDisconnect, if_neg other, if_pos word, behind]
  cases rest with
  | nil => rfl
  | cons ch rest => simp

theorem takeTurn_disconnectCut : takeTurn stack (text "DISCONNECT") = some (.disconnect, []) := by
  have found := getNext_disconnect []
  rw [List.append_nil] at found
  rw [takeTurn, found]
  rfl

theorem takeTurn_disconnect (ch : UInt8) (rest : List UInt8) :
    takeTurn stack (text "DISCONNECT" ++ ch :: rest) =
      some (if ch = newline then (.disconnect, rest) else (.invalid, cleanup rest)) := by
  have found := getNext_disconnect (ch :: rest)
  rw [takeTurn, found]
  by_cases ended : ch = newline <;> simp [ended]

theorem takeTurn_neither {later : List UInt8} (delay : later.take 5 ≠ text "ELAY ")
    (disconnect : later.take 9 ≠ text "ISCONNECT") :
    takeTurn stack ('D'.toUInt8 :: later) = some (.invalid, cleanup (later.drop 9)) := by
  rw [takeTurn, getNext_delayOrDisconnect, delayOrDisconnect, if_neg delay, if_neg disconnect]

end Turn

/-! The number of `DELAY`. -/

section Delay
variable {stack : Nat → UInt8} {digits : List UInt8}

theorem parseDelay_stop (all : ∀ ch ∈ digits, isDigit ch = true) {ch : UInt8} (stop : isDigit ch = false)
    (short : digits.length < 16) (rest : List UInt8) :
    parseDelay stack (digits ++ ch :: rest) =
      some (if UINT_MAX < numeral digits then (none, cleanup rest) else (some (numeral digits), rest)) := by
  rw [parseDelay, JobParser.readUint_stop all stop short]
  simp only [Option.bind_eq_bind, Option.bind_some]
  split_ifs <;> rfl

theorem parseDelay_eof (all : ∀ ch ∈ digits, isDigit ch = true) (short : digits.length < 16) :
    parseDelay stack digits =
      (uintOf (digits ++ (initialBuf stack).drop digits.length)).map fun value => (value, []) := by
  rw [parseDelay, JobParser.readUint_eof all (Nat.le_of_lt short)]
  cases uintOf (digits ++ (initialBuf stack).drop digits.length) with
  | none => rfl
  | some value => cases value <;> rfl

theorem parseDelay_long (all : ∀ ch ∈ digits, isDigit ch = true) (long : 16 ≤ digits.length) (rest : List UInt8) :
    parseDelay stack (digits ++ rest) = none := by
  rw [parseDelay, JobParser.readUint_long all long]
  rfl

end Delay

/-! Every turn is one of the readings, and every reading is a turn. -/

section Reading
variable {stack : Nat → UInt8} {stream head rest left : List UInt8} {turn : Turn} {ending : Ending}

/-- The bytes that are read for a word, when they are not the word. -/
theorem misread_take (word later : List UInt8) (other : later.take word.length ≠ word) :
    Misread word (later.take word.length) (later.drop word.length) := by
  refine ⟨other, ?_⟩
  rcases Nat.lt_or_ge later.length word.length with short | long
  · rw [List.take_of_length_le (Nat.le_of_lt short), List.drop_of_length_le (Nat.le_of_lt short)]
    exact .inr ⟨short, rfl⟩
  · exact .inl (List.length_take_of_le long)

theorem Misread.take {word ahead : List UInt8} (misread : Misread word ahead rest) :
    (ahead ++ rest).take word.length = ahead ∧ (ahead ++ rest).drop word.length = rest := by
  rcases misread.2 with whole | ⟨short, ended⟩
  · exact ⟨List.take_left' whole, List.drop_left' whole⟩
  · subst ended
    rw [List.append_nil]
    exact ⟨List.take_of_length_le (Nat.le_of_lt short), List.drop_of_length_le (Nat.le_of_lt short)⟩

theorem takeTurn_keywordMisread {first : UInt8} {word ahead : List UInt8} {turn : CString → Turn}
    (expected : ListKeyword first word turn) (misread : Misread word ahead rest) :
    takeTurn stack (first :: (ahead ++ rest)) = some (.invalid, cleanup rest) := by
  obtain ⟨taken, behind⟩ := misread.take
  have other := misread.1
  rw [← taken] at other
  rw [takeTurn_misread expected other, behind]

theorem takeTurn_neitherMisread {ahead : List UInt8} (delay : ahead.take 5 ≠ text "ELAY ")
    (misread : Misread (text "ISCONNECT") ahead rest) :
    takeTurn stack ('D'.toUInt8 :: (ahead ++ rest)) = some (.invalid, cleanup rest) := by
  obtain ⟨taken, behind⟩ := misread.take
  have other := misread.1
  have word : (text "ISCONNECT").length = 9 := by decide
  rw [word] at taken behind
  rw [← taken] at other
  have delay' : (ahead ++ rest).take 5 ≠ text "ELAY " := by
    rw [← taken, List.take_take] at delay
    exact delay
  rw [takeTurn_neither delay' other, behind]

theorem takeTurn_of_reads (reads : Reads stack turn ending head rest) :
    takeTurn stack (head ++ rest) = some (turn, ending.left rest) := by
  cases reads with
  | endOfInput => rfl
  | emptyLine => rfl
  | comment => rfl
  | @unknown first _ other =>
    obtain ⟨notS, notU, notD, notComment, notNewline⟩ := other
    have invalid : getNext (first :: rest) = (.cmdInvalid, cleanup rest) := by
      rw [getNext, if_neg notS, if_neg notU, if_neg notD, if_neg notComment, if_neg notNewline]
    rw [List.singleton_append, takeTurn, invalid]
    rfl
  | keyword expected misread => exact takeTurn_keywordMisread expected misread
  | neither delay misread => exact takeTurn_neitherMisread delay misread
  | disconnect =>
    rw [List.append_assoc, List.singleton_append, takeTurn_disconnect, if_pos rfl]
    rfl
  | disconnectCut =>
    rw [List.append_nil, takeTurn_disconnectCut]
    rfl
  | disconnectTail other =>
    rw [List.append_assoc, List.singleton_append, takeTurn_disconnect, if_neg other]
    rfl
  | key expected accepted =>
    rw [List.cons_append, List.append_assoc, takeTurn_keyword expected, parseList_describes.accepts accepted]
    rfl
  | refused expected refused =>
    rw [List.cons_append, List.append_assoc, takeTurn_keyword expected, parseList_refuses refused]
    rfl
  | delay all stop short fits =>
    rw [List.append_assoc, takeTurn_delay, List.append_assoc, List.singleton_append, parseDelay_stop all stop short,
      if_neg (Nat.not_lt.mpr fits)]
    rfl
  | tooLarge all stop short large =>
    rw [List.append_assoc, takeTurn_delay, List.append_assoc, List.singleton_append, parseDelay_stop all stop short,
      if_pos large]
    rfl
  | delayCut all short number =>
    rw [List.append_nil, takeTurn_delay, parseDelay_eof all short, number]
    rfl
  | tooLargeCut all short number =>
    rw [List.append_nil, takeTurn_delay, parseDelay_eof all short, number]
    rfl

theorem isRead_listKeyword {first : UInt8} {word later : List UInt8} {command : CString → Turn}
    (expected : ListKeyword first word command) (ran : takeTurn stack (first :: later) = some (turn, left)) :
    IsRead stack (first :: later) turn left := by
  have split := List.take_append_drop word.length later
  by_cases same : later.take word.length = word
  · rw [same] at split
    generalize later.drop word.length = args at split
    subst split
    rw [takeTurn_keyword expected] at ran
    have reading := parseList_describes.reading args
    generalize parseList 1 args = outcome at reading ran
    cases reading with
    | undefined => cases ran
    | @accepted keys consumed rest split accepted =>
      subst split
      cases accepted with
      | key item ended =>
        cases ran
        exact ⟨.stops, _, left, by simp, .key expected (.key item ended), rfl⟩
    | @refused _ consumed rest split refused =>
      subst split
      cases ran
      exact ⟨.skips, _, rest, by simp, .refused expected refused, rfl⟩
  · rw [takeTurn_misread expected same] at ran
    cases ran
    exact ⟨.skips, first :: later.take word.length, _, by rw [List.cons_append, split],
      .keyword expected (misread_take word later same), rfl⟩

theorem isRead_delay {args : List UInt8} (ran : takeTurn stack (text "DELAY " ++ args) = some (turn, left)) :
    IsRead stack (text "DELAY " ++ args) turn left := by
  rw [takeTurn_delay] at ran
  obtain ⟨digits, later, split, all, stop⟩ := NumberReading.digits_split args
  subst split
  by_cases short : digits.length < 16
  · cases later with
    | nil =>
      rw [List.append_nil, parseDelay_eof all short] at ran
      cases number : uintOf (digits ++ (initialBuf stack).drop digits.length) with
      | none =>
        rw [number] at ran
        cases ran
      | some value =>
        rw [number] at ran
        cases value with
        | none =>
          cases ran
          exact ⟨.skips, _, [], by simp, .tooLargeCut all short number, rfl⟩
        | some delayMs =>
          cases ran
          exact ⟨.takes digits none, _, [], by simp, .delayCut all short number, rfl⟩
    | cons ch rest =>
      have notDigit := stop ch rest rfl
      rw [parseDelay_stop all notDigit short] at ran
      by_cases large : UINT_MAX < numeral digits
      · rw [if_pos large] at ran
        cases ran
        exact ⟨.skips, _, rest, by simp, .tooLarge all notDigit short large, rfl⟩
      · rw [if_neg large] at ran
        cases ran
        exact ⟨.takes digits (some ch), _, left, by simp, .delay all notDigit short (Nat.not_lt.mp large), rfl⟩
  · rw [parseDelay_long all (Nat.not_lt.mp short)] at ran
    cases ran

theorem isRead_disconnect (ran : takeTurn stack (text "DISCONNECT" ++ rest) = some (turn, left)) :
    IsRead stack (text "DISCONNECT" ++ rest) turn left := by
  cases rest with
  | nil =>
    rw [List.append_nil, takeTurn_disconnectCut] at ran
    cases ran
    exact ⟨.stops, _, [], rfl, .disconnectCut, rfl⟩
  | cons ch rest =>
    rw [takeTurn_disconnect] at ran
    by_cases ended : ch = newline
    · rw [if_pos ended] at ran
      cases ran
      subst ended
      exact ⟨.stops, _, left, by simp, .disconnect, rfl⟩
    · rw [if_neg ended] at ran
      cases ran
      exact ⟨.skips, _, rest, by simp, .disconnectTail ended, rfl⟩

theorem isRead_delayOrDisconnect {later : List UInt8}
    (ran : takeTurn stack ('D'.toUInt8 :: later) = some (turn, left)) :
    IsRead stack ('D'.toUInt8 :: later) turn left := by
  by_cases delay : later.take 5 = text "ELAY "
  · have split := List.take_append_drop 5 later
    rw [delay] at split
    rw [← split] at ran ⊢
    exact isRead_delay ran
  · have split := List.take_append_drop 9 later
    by_cases disconnect : later.take 9 = text "ISCONNECT"
    · rw [disconnect] at split
      rw [← split] at ran ⊢
      exact isRead_disconnect ran
    · rw [takeTurn_neither delay disconnect] at ran
      cases ran
      have word : (text "ISCONNECT").length = 9 := by decide
      have misread := misread_take (text "ISCONNECT") later (by rwa [word])
      rw [word] at misread
      have delay' : (later.take 9).take 5 ≠ text "ELAY " := by rwa [List.take_take]
      exact ⟨.skips, 'D'.toUInt8 :: later.take 9, _, by rw [List.cons_append, split], .neither delay' misread, rfl⟩

theorem takeTurn_iff (stack : Nat → UInt8) (stream left : List UInt8) (turn : Turn) :
    takeTurn stack stream = some (turn, left) ↔ IsRead stack stream turn left := by
  constructor
  · intro ran
    cases stream with
    | nil =>
      cases ran
      exact ⟨.stops, [], [], rfl, .endOfInput, rfl⟩
    | cons first rest =>
      by_cases isS : first = 'S'.toUInt8
      · subst isS
        exact isRead_listKeyword .subscribe ran
      · by_cases isU : first = 'U'.toUInt8
        · subst isU
          exact isRead_listKeyword .unsubscribe ran
        · by_cases isD : first = 'D'.toUInt8
          · subst isD
            exact isRead_delayOrDisconnect ran
          · by_cases isComment : first = '#'.toUInt8
            · subst isComment
              cases ran
              exact ⟨.skips, _, rest, List.singleton_append.symm, .comment, rfl⟩
            · by_cases isNewline : first = newline
              · subst isNewline
                cases ran
                exact ⟨.stops, _, left, List.singleton_append.symm, .emptyLine, rfl⟩
              · have reads : Reads stack .invalid .skips [first] rest :=
                  .unknown ⟨isS, isU, isD, isComment, isNewline⟩
                have same := takeTurn_of_reads reads
                rw [List.singleton_append, ran] at same
                cases same
                exact ⟨.skips, _, rest, List.singleton_append.symm, reads, rfl⟩
  · rintro ⟨ending, head, rest, split, reads, same⟩
    rw [split, takeTurn_of_reads reads, same]

end Reading

/-! Which readings consume one line. -/

section Line
variable {stack : Nat → UInt8} {least : Nat} {head rest digits : List UInt8} {turn : Turn} {ending : Ending}

theorem firstLine_plain {line : List UInt8} (plain : newline ∉ line) (rest : List UInt8) :
    firstLine (line ++ rest) = line ++ firstLine rest := by
  apply List.takeWhile_append_of_pos
  intro ch member
  simpa using ne_of_mem_of_not_mem member plain

theorem newline_not_digit (all : ∀ ch ∈ digits, isDigit ch = true) : newline ∉ digits := by
  intro member
  exact absurd (all newline member) (by decide)

theorem behind_skips_iff : Behind newline (head ++ rest) (cleanup rest) ↔
    newline ∉ head ∨ afterMark newline (head ++ rest) = [] := by
  rw [behind_iff, LineRecovery.cleanup_eq]
  exact afterMark_eq_iff head rest

theorem ending_of_delay {delayMs : Nat} (reads : Reads stack (.delay delayMs) ending head rest) :
    ∃ digits next, ending = .takes digits next := by
  generalize same : Turn.delay delayMs = turn at reads
  cases reads with
  | delay | delayCut => exact ⟨_, _, rfl⟩
  | key expected => cases expected <;> cases same
  | _ => cases same

theorem firstLine_nil_iff (stream : List UInt8) : firstLine stream = [] ↔ ∀ ch ∈ stream.head?, ch = newline := by
  cases stream with
  | nil => simp [firstLine]
  | cons ch rest => by_cases ended : ch = newline <;> simp [firstLine, ended]

/-- A delay comes from a line of digits when the byte behind those that were read ends it. -/
theorem lineOfDigits_iff {tail : List UInt8} (all : ∀ ch ∈ digits, isDigit ch = true)
    (stop : ∀ ch ∈ tail.head?, isDigit ch = false) :
    LineOfDigits least (text "DELAY " ++ (digits ++ tail)) ↔
      least ≤ digits.length ∧ ∀ ch ∈ tail.head?, ch = newline := by
  have word : newline ∉ text "DELAY " := by decide
  have line : firstLine (text "DELAY " ++ (digits ++ tail)) = text "DELAY " ++ (digits ++ firstLine tail) := by
    rw [firstLine_plain word, firstLine_plain (newline_not_digit all)]
  rw [LineOfDigits, line, ← firstLine_nil_iff]
  constructor
  · rintro ⟨digits', all', enough, same⟩
    rw [List.append_cancel_left_eq] at same
    have ended : firstLine tail = [] := by
      rw [firstLine_nil_iff]
      intro ch first
      by_contra other
      have member : ch ∈ firstLine tail := by
        cases tail with
        | nil => cases first
        | cons byte rest =>
          cases first
          simp [firstLine, other]
      have digit := all' ch (same ▸ List.mem_append_right digits member)
      rw [stop ch first] at digit
      cases digit
    rw [ended, List.append_nil] at same
    exact ⟨same ▸ enough, ended⟩
  · rintro ⟨enough, ended⟩
    exact ⟨digits, all, enough, by rw [ended, List.append_nil]⟩

theorem tidy_iff (reads : Reads stack turn ending head rest) :
    (Behind newline (head ++ rest) (ending.left rest) ∧
      ∀ delayMs, turn = .delay delayMs → LineOfDigits least (head ++ rest)) ↔ Tidy least ending head rest := by
  have other (noNumber : ∀ digits next, ending ≠ .takes digits next) :
      ∀ delayMs, turn = .delay delayMs → LineOfDigits least (head ++ rest) := by
    intro delayMs same
    subst same
    obtain ⟨digits, next, taken⟩ := ending_of_delay reads
    exact absurd taken (noNumber digits next)
  cases ending with
  | stops => exact (and_iff_left (other (by simp))).trans behind_append_iff
  | skips => exact (and_iff_left (other (by simp))).trans behind_skips_iff
  | takes digits next =>
    have word : newline ∉ text "DELAY " := by decide
    cases reads with
    | @delay _ _ ch all stop short fits =>
      have split : text "DELAY " ++ (digits ++ [ch]) ++ rest = text "DELAY " ++ (digits ++ ch :: rest) := by simp
      have line := @lineOfDigits_iff least digits (ch :: rest) all (by simpa using stop)
      simp only [List.head?_cons, Option.mem_some_iff, forall_eq'] at line
      rw [split, Tidy]
      constructor
      · rintro ⟨_, digitsOnly⟩
        obtain ⟨enough, ended⟩ := line.mp (digitsOnly _ rfl)
        exact ⟨enough, .inr (congrArg some ended)⟩
      · rintro ⟨enough, ended⟩
        have same : ch = newline := by simpa using ended
        refine ⟨.inl ⟨text "DELAY " ++ digits, ?_, ?_⟩, fun _ _ => line.mpr ⟨enough, same⟩⟩
        · exact List.not_mem_append word (newline_not_digit all)
        · rw [same, List.append_assoc]
          rfl
    | delayCut all short number =>
      have line := @lineOfDigits_iff least digits [] all (by simp)
      rw [List.append_nil] at line ⊢
      rw [Tidy]
      constructor
      · rintro ⟨_, digitsOnly⟩
        exact ⟨(line.mp (digitsOnly _ rfl)).1, .inl rfl⟩
      · rintro ⟨enough, _⟩
        refine ⟨.inr ⟨List.not_mem_append word (newline_not_digit all), rfl⟩, fun _ _ => line.mpr ⟨enough, by simp⟩⟩

/-- One turn consumes one line exactly when the text it reads before it stops or skips is
one of the readings and lies in the line up to its end; for a delay the line ends behind
the digits. With `least` 0 the empty argument counts as digits, with 1 it does not. -/
theorem consumes_line_iff (stack : Nat → UInt8) (least : Nat) (stream : List UInt8) :
    ConsumesLine stack least stream ↔ ∃ turn ending head rest,
      stream = head ++ rest ∧ Reads stack turn ending head rest ∧ Tidy least ending head rest := by
  constructor
  · rintro ⟨turn, left, ran, behind, digits⟩
    obtain ⟨ending, head, rest, split, reads, same⟩ := (takeTurn_iff stack stream left turn).mp ran
    subst split same
    exact ⟨turn, ending, head, rest, rfl, reads, (tidy_iff reads).mp ⟨behind, digits⟩⟩
  · rintro ⟨turn, ending, head, rest, split, reads, tidy⟩
    subst split
    exact ⟨turn, ending.left rest, takeTurn_of_reads reads, (tidy_iff reads).mpr tidy⟩

end Line

/-- What follows the number is run as a command, and a newline that a keyword reads ahead
costs the next line. -/
theorem line_not_consumed : ¬ConsumesLine (fun _ => 0) 0 (text "DELAY 5 DISCONNECT\n") ∧
    ¬ConsumesLine (fun _ => 0) 0 (text "S\nDISCONNECT\n") := by
  constructor
  · rintro ⟨turn, left, ran, behind, _⟩
    have taken : takeTurn (fun _ => 0) (text "DELAY 5 DISCONNECT\n") =
        some (.delay 5, text "DISCONNECT\n") := by decide
    rw [taken] at ran
    cases ran
    exact absurd (behind_iff.mp behind) (by decide)
  · rintro ⟨turn, left, ran, behind, _⟩
    have taken : takeTurn (fun _ => 0) (text "S\nDISCONNECT\n") = some (.invalid, []) := by decide
    rw [taken] at ran
    cases ran
    exact absurd (behind_iff.mp behind) (by decide)

end IstKvs.ClientLines
