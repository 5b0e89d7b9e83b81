import IstKvs.Operations

/-! `parser.c` of the server. A stream is the bytes of the job file that are still to
be read; a regular file reads short only at its end. A store outside a buffer has
no meaning here: `none`. -/

namespace IstKvs.JobParser
open Operations

def MAX_WRITE_SIZE : Nat := 256
def UINT_MAX : Nat := 4294967295
def ULONG_MAX : Nat := 18446744073709551615

abbrev newline : UInt8 := 10
abbrev space : UInt8 := 32
abbrev openParen : UInt8 := 40
abbrev closeParen : UInt8 := 41
abbrev comma : UInt8 := 44
abbrev openBracket : UInt8 := 91
abbrev closeBracket : UInt8 := 93

/-- What `read_string` returns, the bytes it stores from `buffer[0]` on, whether the
terminator was stored after them, and what it leaves to read. -/
structure StringRead where
  value : Int
  stored : List UInt8
  terminated : Bool
  rest : List UInt8
  deriving DecidableEq

/-- How many bytes of the buffer were written. -/
def StringRead.size (read : StringRead) : Nat :=
  read.stored.length + if read.terminated then 1 else 0

/-- `read_string`, with the number of turns left: `max - i`. -/
def readString : Nat → List UInt8 → StringRead
  | 0, stream => ⟨-1, [], true, stream⟩
  | _ + 1, [] => ⟨-1, [], false, []⟩
  | turns + 1, ch :: rest =>
      if ch = space then ⟨-1, [], false, rest⟩
      else if ch = comma then ⟨0, [], true, rest⟩
      else if ch = closeParen then ⟨1, [], true, rest⟩
      else if ch = closeBracket then ⟨2, [], true, rest⟩
      else
        let later := readString turns rest
        { later with stored := ch :: later.stored }

/-- `buffer[i] = ch`. -/
def store (buffer : List UInt8) (i : Nat) (ch : UInt8) : Option (List UInt8) :=
  if i < buffer.length then some (buffer.set i ch) else none

def isDigit (ch : UInt8) : Bool := 48 ≤ ch && ch ≤ 57

/-- The loop of `read_uint`: `buf`, what `next` points at, and the bytes left. -/
def readDigits (buf : List UInt8) (i : Nat) : List UInt8 → Option (List UInt8 × UInt8 × List UInt8)
  | [] => some (buf, 0, [])
  | ch :: rest => do
      let buf ← store buf i ch
      if isDigit ch then readDigits buf (i + 1) rest
      else
        let buf ← store buf i 0
        some (buf, ch, rest)

/-- The digits at the head of a buffer. Nothing ends them when the buffer does. -/
def decimalValue (value : Nat) : List UInt8 → Option Nat
  | [] => none
  | ch :: rest => if isDigit ch then decimalValue (10 * value + (ch.toNat - 48)) rest else some value

def isspace (ch : UInt8) : Bool := ch = space || (9 ≤ ch && ch ≤ 13)

def minus : UInt8 := 45
def plus : UInt8 := 43

/-- `strtoul(.., NULL, 10)`: white space, a sign, digits. -/
def strtoul (buffer : List UInt8) : Option Nat :=
  match buffer.dropWhile isspace with
  | [] => none
  | ch :: rest =>
      if ch = minus then
        (decimalValue 0 rest).map fun value =>
          if value ≤ ULONG_MAX then (ULONG_MAX + 1 - value) % (ULONG_MAX + 1) else ULONG_MAX
      else if ch = plus then (decimalValue 0 rest).map (min · ULONG_MAX)
      else (decimalValue 0 (ch :: rest)).map (min · ULONG_MAX)

/-- `char buf[16]` before anything is stored in it. -/
def initialBuf (stack : Nat → UInt8) : List UInt8 := (List.range 16).map stack

/-- The number in `buf`, unless it is too large. -/
def uintOf (buf : List UInt8) : Option (Option Nat) :=
  (strtoul buf).map fun ul => if ul > UINT_MAX then none else some ul

/-- `read_uint`: the number, `next`, and the bytes left. `stack` is what the memory of
`buf` holds before the call. -/
def readUint (stack : Nat → UInt8) (stream : List UInt8) : Option (Option Nat × UInt8 × List UInt8) := do
  let (buf, next, rest) ← readDigits (initialBuf stack) 0 stream
  let value ← uintOf buf
  some (value, next, rest)

def cleanup : List UInt8 → List UInt8
  | [] => []
  | ch :: rest => if ch = newline then rest else cleanup rest

inductive Command where
  | cmdWrite
  | cmdRead
  | cmdDelete
  | cmdShow
  | cmdWait
  | cmdBackup
  | cmdHelp
  | cmdEmpty
  | cmdInvalid
  | eoc
  deriving DecidableEq

/-- A keyword that its arguments follow: `READ ` and `DELETE ` after their first byte. -/
def withArguments (word : List UInt8) (command : Command) (stream : List UInt8) :
    Command × List UInt8 :=
  if stream.take word.length = word then (command, stream.drop word.length)
  else (.cmdInvalid, cleanup (stream.drop word.length))

/-- A keyword that must end the line: `SHOW`, `BACKUP` and `HELP`. -/
def alone (word : List UInt8) (command : Command) (stream : List UInt8) : Command × List UInt8 :=
  if stream.take word.length = word then
    match stream.drop word.length with
    | [] => (command, [])
    | ch :: rest => if ch = newline then (command, rest) else (.cmdInvalid, cleanup rest)
  else (.cmdInvalid, cleanup (stream.drop word.length))

/-- `WAIT ` is tried on four bytes, then `WRITE ` with one byte more. -/
def waitOrWrite (stream : List UInt8) : Command × List UInt8 :=
  if stream.take 4 = text "AIT " then (.cmdWait, stream.drop 4)
  else match stream.drop 4 with
    | [] => (.cmdInvalid, cleanup [])
    | ch :: rest =>
        if stream.take 4 ++ [ch] = text "RITE " then (.cmdWrite, rest) else (.cmdInvalid, cleanup rest)

def getNext : List UInt8 → Command × List UInt8
  | [] => (.eoc, [])
  | first :: rest =>
      if first = 'W'.toUInt8 then waitOrWrite rest
      else if first = 'R'.toUInt8 then withArguments (text "EAD ") .cmdRead rest
      else if first = 'D'.toUInt8 then withArguments (text "ELETE ") .cmdDelete rest
      else if first = 'S'.toUInt8 then alone (text "HOW") .cmdShow rest
      else if first = 'B'.toUInt8 then alone (text "ACKUP") .cmdBackup rest
      else if first = 'H'.toUInt8 then alone (text "ELP") .cmdHelp rest
      else if first = '#'.toUInt8 then (.cmdEmpty, cleanup rest)
      else if first = newline then (.cmdEmpty, rest)
      else (.cmdInvalid, cleanup rest)

/-- What a parser returns and the bytes it leaves. `none` is a failure: 0 for the lists
and -1 for `parse_wait`. -/
abbrev Parsed (α : Type) := Option α × List UInt8

/-- `read_string` into `char[MAX_STRING_SIZE]`. -/
def readField (stream : List UInt8) : Option StringRead :=
  let read := readString MAX_STRING_SIZE stream
  if read.size ≤ MAX_STRING_SIZE then some read else none

def parsePair (stream : List UInt8) : Option (Parsed (CString × CString)) := do
  let key ← readField stream
  if key.value ≠ 0 then some (none, cleanup key.rest)
  else
    let value ← readField key.rest
    if value.value ≠ 1 then some (none, cleanup value.rest)
    else some (some (CString.ofBytes key.stored, CString.ofBytes value.stored), value.rest)

/-- The loop of `parse_write`, with the number of pairs there is room for. -/
def parsePairs : Nat → List UInt8 → Option (Parsed (List (CString × CString)))
  | 0, stream => some (some [], stream)
  | room + 1, stream => do
      match ← parsePair stream with
      | (none, rest) => some (none, cleanup rest)
      | (some _, []) => some (none, cleanup [])
      | (some pair, ch :: rest) =>
          if ch = openParen then
            let (pairs, rest) ← parsePairs room rest
            some (pairs.map (pair :: ·), rest)
          else if ch = closeBracket then some (some [pair], rest)
          else some (none, cleanup rest)

/-- The loop of `parse_read_delete`, with the number of keys there is room for. -/
def parseKeys : Nat → List UInt8 → Option (Parsed (List CString))
  | 0, stream => some (some [], stream)
  | room + 1, stream => do
      let key ← readField stream
      if key.value < 0 ∨ key.value = 1 then some (none, cleanup key.rest)
      else if key.value = 2 then some (some [CString.ofBytes key.stored], key.rest)
      else
        let (keys, rest) ← parseKeys room key.rest
        some (keys.map (CString.ofBytes key.stored :: ·), rest)

/-- `if (read(fd, &ch, 1) != 1 || ch != wanted)`, which gives up. -/
def expect {α : Type} (wanted : UInt8) (stream : List UInt8) (next : List UInt8 → Option (Parsed α)) :
    Option (Parsed α) :=
  match stream with
  | [] => some (none, cleanup [])
  | ch :: rest => if ch = wanted then next rest else some (none, cleanup rest)

/-- The tests after both loops: fewer than `max` items, and the end of the line. -/
def endList {α : Type} (max : Nat) : Parsed (List α) → Parsed (List α)
  | (none, rest) => (none, rest)
  | (some items, stream) =>
      if items.length = max then (none, cleanup stream)
      else match stream with
        | [] => (none, cleanup [])
        | ch :: rest => if ch = newline ∨ ch = 0 then (some items, rest) else (none, cleanup rest)

def parseWrite (maxPairs : Nat) (stream : List UInt8) : Option (Parsed (List (CString × CString))) :=
  expect openBracket stream fun stream => expect openParen stream fun stream =>
    (parsePairs maxPairs stream).map (endList maxPairs)

def parseReadDelete (maxKeys : Nat) (stream : List UInt8) : Option (Parsed (List CString)) :=
  expect openBracket stream fun stream => (parseKeys maxKeys stream).map (endList maxKeys)

/-- `parse_wait` with a null `thread_id`, as it is always called. -/
def parseWait (stack : Nat → UInt8) (stream : List UInt8) : Option (Parsed Nat) := do
  let (value, ch, rest) ← readUint stack stream
  match value with
  | none => some (none, cleanup rest)
  | some delay =>
      if ch = space then some (some delay, cleanup rest)
      else if ch = newline ∨ ch = 0 then some (some delay, rest)
      else some (none, cleanup rest)

end IstKvs.JobParser
