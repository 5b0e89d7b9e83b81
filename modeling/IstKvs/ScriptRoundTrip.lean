import IstKvs.RunJob
import Mathlib.Data.Nat.Digits.Lemmas

/-! Scripts as they are printed, one command to a line, and what the loop of `run_job`
reads back. The proof follows the script: each line is consumed to its newline, with
no byte of the next one. -/

namespace IstKvs.ScriptRoundTrip
open Operations JobParser RunJob

/-- A key or a value that the list syntax can carry. -/
structure Token where
  text : CString
  fits : text.bytes.length < MAX_STRING_SIZE
  plain : ∀ ch ∈ text.bytes, Plain ch

/-- The arguments of one command: at least one, and fewer than there are rows. -/
structure Batch (α : Type) where
  first : α
  others : List α
  room : (first :: others).length < MAX_WRITE_SIZE

def Batch.items {α : Type} (batch : Batch α) : List α := batch.first :: batch.others

inductive Line where
  | write (pairs : Batch (Token × Token))
  | read (keys : Batch Token)
  | delete (keys : Batch Token)
  | showAll
  | wait (delay : Nat) (bound : delay ≤ UINT_MAX)
  | backup
  | help
  | comment (body : List UInt8) (oneLine : newline ∉ body)
  | blank

def digit (value : Nat) : UInt8 := UInt8.ofNat (48 + value)

/-- The canonical decimal: no leading zero. -/
def decimal (value : Nat) : List UInt8 :=
  if value = 0 then [digit 0] else ((Nat.digits 10 value).reverse).map digit

def renderPair (pair : Token × Token) : List UInt8 :=
  openParen :: (pair.1.text.bytes ++ comma :: (pair.2.text.bytes ++ [closeParen]))

def renderKeys (keys : List Token) : List UInt8 :=
  openBracket :: (List.intercalate [comma] (keys.map fun key => key.text.bytes) ++ [closeBracket])

def render : Line → List UInt8
  | .write pairs => text "WRITE [" ++ pairs.items.flatMap renderPair ++ [closeBracket, newline]
  | .read keys => text "READ " ++ renderKeys keys.items ++ [newline]
  | .delete keys => text "DELETE " ++ renderKeys keys.items ++ [newline]
  | .showAll => text "SHOW\n"
  | .wait delay _ => text "WAIT " ++ decimal delay ++ [newline]
  | .backup => text "BACKUP\n"
  | .help => text "HELP\n"
  | .comment body _ => text "#" ++ body ++ [newline]
  | .blank => [newline]

/-- The command that the line stands for. -/
def Line.command : Line → JobCommand
  | .write pairs => .write (pairs.items.map fun pair => (pair.1.text, pair.2.text))
  | .read keys => .read (keys.items.map Token.text)
  | .delete keys => .delete (keys.items.map Token.text)
  | .showAll => .showAll
  | .wait delay _ => .wait delay
  | .backup => .backup
  | .help => .help
  | .comment _ _ | .blank => .empty

/-! Lists. -/

section Lists
variable {rest : List UInt8}

theorem ofBytes_bytes (s : CString) : CString.ofBytes s.bytes = s := by
  apply CString.ext
  apply List.takeWhile_eq_self_iff.mpr
  intro byte member
  simpa using fun zero : byte = 0 => s.noNul (zero ▸ member)

theorem readField_token (token : Token) {ch : UInt8} {value : Int} (ends : Ends ch value) :
    readField (token.text.bytes ++ ch :: rest) = some ⟨value, token.text.bytes, true, rest⟩ :=
  readField_item ⟨token.fits, token.plain⟩ ends rest

theorem parsePair_render (key value : Token) :
    parsePair (key.text.bytes ++ comma :: (value.text.bytes ++ closeParen :: rest)) =
      some (some (key.text, value.text), rest) := by
  simp only [parsePair, readField_token key ends_comma, readField_token value ends_closeParen, ofBytes_bytes, Option.bind_eq_bind,
    Option.bind_some, ne_eq, not_true_eq_false, ↓reduceIte]

/-- `parse_write` has read the bracket and the first parenthesis before the loop. -/
theorem parsePairs_render (rest : List UInt8) (first : Token × Token) (others : List (Token × Token))
    {room : Nat} (fewer : others.length < room) :
    parsePairs room (first.1.text.bytes ++ comma :: (first.2.text.bytes ++ closeParen ::
        (others.flatMap renderPair ++ closeBracket :: rest))) =
      some (some ((first :: others).map fun pair => (pair.1.text, pair.2.text)), rest) := by
  induction others generalizing first room with
  | nil =>
    obtain ⟨room, rfl⟩ := Nat.exists_eq_succ_of_ne_zero (Nat.ne_of_gt fewer)
    simp +decide [parsePairs, parsePair_render]
  | cons second others ih =>
    obtain ⟨room, rfl⟩ := Nat.exists_eq_succ_of_ne_zero (Nat.ne_of_gt (Nat.zero_lt_of_lt fewer))
    have later := ih second (Nat.lt_of_succ_lt_succ fewer)
    simp only [List.flatMap_cons, renderPair, List.cons_append, List.append_assoc, List.nil_append,
      parsePairs, parsePair_render, Option.bind_eq_bind, Option.bind_some, ↓reduceIte, later]
    rfl

theorem parseKeys_render (rest : List UInt8) (first : Token) (others : List Token) {room : Nat}
    (fewer : others.length < room) :
    parseKeys room (List.intercalate [comma] ((first :: others).map fun key => key.text.bytes) ++
        closeBracket :: rest) = some (some ((first :: others).map Token.text), rest) := by
  induction others generalizing first room with
  | nil =>
    obtain ⟨room, rfl⟩ := Nat.exists_eq_succ_of_ne_zero (Nat.ne_of_gt fewer)
    rw [List.map_singleton, List.intercalate_singleton, parseKeys, readField_token first ends_closeBracket]
    simp [ofBytes_bytes]
  | cons second others ih =>
    obtain ⟨room, rfl⟩ := Nat.exists_eq_succ_of_ne_zero (Nat.ne_of_gt (Nat.zero_lt_of_lt fewer))
    have later := ih second (Nat.lt_of_succ_lt_succ fewer)
    rw [List.map_cons] at later
    rw [List.map_cons, List.map_cons, List.intercalate_cons_cons, List.append_assoc, List.append_assoc,
      List.singleton_append, parseKeys, readField_token first ends_comma]
    simp [later, ofBytes_bytes]

theorem endList_newline {α : Type} {items : List α} {max : Nat} (fewer : items.length < max) :
    endList max (some items, newline :: rest) = (some items, rest) := by
  simp only [endList, if_neg (Nat.ne_of_lt fewer), true_or, ↓reduceIte]

theorem parseWrite_render (pairs : Batch (Token × Token)) :
    parseWrite MAX_WRITE_SIZE (openBracket :: (pairs.items.flatMap renderPair ++ closeBracket :: newline :: rest)) =
      some (some (pairs.items.map fun pair => (pair.1.text, pair.2.text)), rest) := by
  have fewer : pairs.others.length < MAX_WRITE_SIZE := Nat.lt_of_succ_lt pairs.room
  have loop := parsePairs_render (newline :: rest) pairs.first pairs.others fewer
  have room : (pairs.items.map fun pair => (pair.1.text, pair.2.text)).length < MAX_WRITE_SIZE := by
    rw [List.length_map]
    exact pairs.room
  simp only [Batch.items, List.flatMap_cons, renderPair, List.cons_append, List.append_assoc, List.nil_append,
    parseWrite, expect, ↓reduceIte, loop, Option.map_some]
  rw [← Batch.items, endList_newline room]

theorem parseReadDelete_render (keys : Batch Token) :
    parseReadDelete MAX_WRITE_SIZE (renderKeys keys.items ++ newline :: rest) =
      some (some (keys.items.map Token.text), rest) := by
  have fewer : keys.others.length < MAX_WRITE_SIZE := Nat.lt_of_succ_lt keys.room
  have loop := parseKeys_render (newline :: rest) keys.first keys.others fewer
  have room : (keys.items.map Token.text).length < MAX_WRITE_SIZE := by
    rw [List.length_map]
    exact keys.room
  simp only [Batch.items, renderKeys, List.cons_append, List.append_assoc, List.nil_append,
    parseReadDelete, expect, ↓reduceIte, loop, Option.map_some]
  rw [← Batch.items, endList_newline room]

end Lists

/-! Numbers. -/

theorem digit_toNat {value : Nat} (small : value < 10) : (digit value).toNat = 48 + value := by
  rw [digit, UInt8.toNat_ofNat_of_lt']
  show 48 + value < 256
  omega

theorem isDigit_digit {value : Nat} (small : value < 10) : isDigit (digit value) = true := by
  have value' := digit_toNat small
  simp only [isDigit, Bool.and_eq_true, decide_eq_true_eq, UInt8.le_iff_toNat_le, UInt8.reduceToNat]
  omega

theorem numeral_concat (digits : List UInt8) (ch : UInt8) :
    numeral (digits ++ [ch]) = 10 * numeral digits + (ch.toNat - 48) := by
  simp only [numeral, List.foldl_append, List.foldl_cons, List.foldl_nil]

theorem numeral_ofDigits {values : List Nat} (small : ∀ value ∈ values, value < 10) :
    numeral (values.reverse.map digit) = Nat.ofDigits 10 values := by
  induction values with
  | nil => rfl
  | cons value values ih =>
    obtain ⟨here, later⟩ := List.forall_mem_cons.mp small
    rw [List.reverse_cons, List.map_append, List.map_singleton, numeral_concat, ih later,
      digit_toNat here, Nat.ofDigits_cons]
    omega

theorem decimal_digits (value : Nat) : ∀ ch ∈ decimal value, isDigit ch = true := by
  intro ch member
  unfold decimal at member
  split at member
  · rw [List.mem_singleton.mp member]
    decide
  · obtain ⟨small, inside, made⟩ := List.mem_map.mp member
    rw [← made]
    exact isDigit_digit (Nat.digits_lt_base (by decide) (List.mem_reverse.mp inside))

theorem numeral_decimal (value : Nat) : numeral (decimal value) = value := by
  unfold decimal
  split
  next zero =>
    rw [zero]
    rfl
  next =>
    rw [numeral_ofDigits fun small member => Nat.digits_lt_base (by decide) member]
    exact Nat.ofDigits_digits 10 value

/-- A number that fits an unsigned int fits `buf`. -/
theorem decimal_short {value : Nat} (bound : value ≤ UINT_MAX) : (decimal value).length < 16 := by
  unfold decimal
  split
  · decide
  · rw [List.length_map, List.length_reverse]
    have fits : (Nat.digits 10 value).length ≤ 10 :=
      (Nat.digits_length_le_iff (by decide) value).mpr (lt_of_le_of_lt bound (by decide))
    omega

theorem parseWait_render {stack : Nat → UInt8} {delay : Nat} (bound : delay ≤ UINT_MAX) (rest : List UInt8) :
    parseWait stack (decimal delay ++ newline :: rest) = some (some delay, rest) := by
  have read : readUint stack (decimal delay ++ newline :: rest) = _ :=
    readUint_stop (decimal_digits delay) (by decide) (decimal_short bound) rest
  rw [numeral_decimal, if_neg (Nat.not_lt.mpr bound)] at read
  simp +decide only [parseWait, read, Option.bind_eq_bind, Option.bind_some, ↓reduceIte, true_or]

/-! Lines. -/

theorem cleanup_line {body : List UInt8} (oneLine : newline ∉ body) (rest : List UInt8) :
    cleanup (body ++ newline :: rest) = rest := by
  induction body with
  | nil => rfl
  | cons ch body ih =>
    simp only [List.mem_cons, not_or] at oneLine
    rw [List.cons_append, cleanup, if_neg (Ne.symm oneLine.1), ih oneLine.2]

theorem nextCommand_render (stack : Nat → UInt8) (line : Line) (rest : List UInt8) :
    nextCommand stack (render line ++ rest) = some (some line.command, rest) := by
  cases line with
  | write pairs =>
    have got : getNext (render (.write pairs) ++ rest) = (.cmdWrite, openBracket ::
        (pairs.items.flatMap renderPair ++ closeBracket :: newline :: rest)) := by
      simp only [render, List.append_assoc, List.cons_append, List.nil_append]
      rfl
    rw [nextCommand, got]
    simp only [parseWrite_render, Option.map_some]
    rfl
  | read keys =>
    have got : getNext (render (.read keys) ++ rest) =
        (.cmdRead, renderKeys keys.items ++ newline :: rest) := by
      simp only [render, List.append_assoc, List.cons_append, List.nil_append]
      rfl
    rw [nextCommand, got]
    simp only [parseReadDelete_render, Option.map_some]
    rfl
  | delete keys =>
    have got : getNext (render (.delete keys) ++ rest) =
        (.cmdDelete, renderKeys keys.items ++ newline :: rest) := by
      simp only [render, List.append_assoc, List.cons_append, List.nil_append]
      rfl
    rw [nextCommand, got]
    simp only [parseReadDelete_render, Option.map_some]
    rfl
  | wait delay bound =>
    have got : getNext (render (.wait delay bound) ++ rest) =
        (.cmdWait, decimal delay ++ newline :: rest) := by
      simp only [render, List.append_assoc, List.cons_append, List.nil_append]
      rfl
    rw [nextCommand, got]
    simp only [parseWait_render bound, Option.map_some]
    rfl
  | comment body oneLine =>
    have got : getNext (render (.comment body oneLine) ++ rest) =
        (.cmdEmpty, cleanup (body ++ newline :: rest)) := by
      simp only [render, List.append_assoc, List.cons_append, List.nil_append]
      rfl
    rw [nextCommand, got, cleanup_line oneLine]
    rfl
  | showAll | backup | help | blank => rfl

theorem commands_render (stack : Nat → UInt8) (script : List Line) :
    commands stack (script.flatMap render) = some (script.map Line.command, []) := by
  induction script with
  | nil => exact commands_end nextCommand_nil
  | cons line script ih =>
    rw [List.flatMap_cons, commands_turn (nextCommand_render stack line _), ih]
    rfl

/-- The loop of `run_job` reads a printed script back: the same commands with the same
arguments in the same order, and then the end of the commands at the end of the file. -/
theorem commands_of_script (stack : Nat → UInt8) (script : List Line) :
    commands stack (script.flatMap render) = some (script.map Line.command, []) :=
  commands_render stack script

end IstKvs.ScriptRoundTrip
