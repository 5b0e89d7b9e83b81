import IstKvs.JobParser

/-! `parser.c` of the client and one turn of the command loop in its `main`. `read_string`,
`read_uint` and `cleanup` are line for line those of the server. -/

namespace IstKvs.ClientParser
open Operations JobParser

inductive Command where
  | cmdDisconnect
  | cmdSubscribe
  | cmdUnsubscribe
  | cmdDelay
  | cmdEmpty
  | cmdInvalid
  | eoc
  deriving DecidableEq

/-- `SUBSCRIBE ` and `UNSUBSCRIBE ` after their first byte. -/
def withArguments (word : List UInt8) (command : Command) (stream : List UInt8) : Command × List UInt8 :=
  if stream.take word.length = word then (command, stream.drop word.length)
  else (.cmdInvalid, cleanup (stream.drop word.length))

/-- `DELAY ` is tried on five bytes, then `DISCONNECT` with four bytes more. -/
def delayOrDisconnect (stream : List UInt8) : Command × List UInt8 :=
  if stream.take 5 = text "ELAY " then (.cmdDelay, stream.drop 5)
  else if stream.take 9 = text "ISCONNECT" then
    match stream.drop 9 with
    | [] => (.cmdDisconnect, [])
    | ch :: rest => if ch = newline then (.cmdDisconnect, rest) else (.cmdInvalid, cleanup rest)
  else (.cmdInvalid, cleanup (stream.drop 9))

def getNext : List UInt8 → Command × List UInt8
  | [] => (.eoc, [])
  | first :: rest =>
      if first = 'S'.toUInt8 then withArguments (text "UBSCRIBE ") .cmdSubscribe rest
      else if first = 'U'.toUInt8 then withArguments (text "NSUBSCRIBE ") .cmdUnsubscribe rest
      else if first = 'D'.toUInt8 then delayOrDisconnect rest
      else if first = '#'.toUInt8 then (.cmdEmpty, cleanup rest)
      else if first = newline then (.cmdEmpty, rest)
      else (.cmdInvalid, cleanup rest)

/-- The loop of `parse_list`, with the number of keys there is room for and `output`. -/
def parseKeys : Nat → Int → List UInt8 → Option (Parsed (List CString × Int))
  | 0, output, stream => some (some ([], output), stream)
  | room + 1, _, stream => do
      let key ← readField stream
      if key.value < 0 ∨ key.value = 1 then some (none, cleanup key.rest)
      else if key.value = 2 then some (some ([CString.ofBytes key.stored], 2), key.rest)
      else
        let (keys, rest) ← parseKeys room key.value key.rest
        some (keys.map fun (keys, output) => (CString.ofBytes key.stored :: keys, output), rest)

/-- The tests after the loop: a list that is full must have been closed. -/
def endList (maxKeys : Nat) : Parsed (List CString × Int) → Parsed (List CString)
  | (none, rest) => (none, rest)
  | (some (keys, output), stream) =>
      if keys.length = maxKeys ∧ output ≠ 2 then (none, cleanup stream)
      else match stream with
        | [] => (none, cleanup [])
        | ch :: rest => if ch = newline ∨ ch = 0 then (some keys, rest) else (none, cleanup rest)

def parseList (maxKeys : Nat) (stream : List UInt8) : Option (Parsed (List CString)) :=
  expect openBracket stream fun stream => (parseKeys maxKeys 2 stream).map (endList maxKeys)

/-- `parse_delay`, which does not look at the byte behind the number. -/
def parseDelay (stack : Nat → UInt8) (stream : List UInt8) : Option (Parsed Nat) := do
  let (value, _, rest) ← readUint stack stream
  match value with
  | none => some (none, cleanup rest)
  | some delay => some (some delay, rest)

/-- What one turn of the loop in `main` goes on to do. -/
inductive Turn where
  | disconnect
  | subscribe (key : CString)
  | unsubscribe (key : CString)
  | delay (delayMs : Nat)
  | invalid
  | empty
  | endOfInput
  deriving DecidableEq

/-- `keys[0]`, unless `parse_list` returned 0. -/
def withKey (turn : CString → Turn) : Parsed (List CString) → Turn × List UInt8
  | (some (key :: _), rest) => (turn key, rest)
  | (_, rest) => (.invalid, rest)

def withDelay : Parsed Nat → Turn × List UInt8
  | (some delayMs, rest) => (.delay delayMs, rest)
  | (none, rest) => (.invalid, rest)

/-- One turn of the loop, and the input it leaves. -/
def takeTurn (stack : Nat → UInt8) (stream : List UInt8) : Option (Turn × List UInt8) :=
  match getNext stream with
  | (.cmdDisconnect, rest) => some (.disconnect, rest)
  | (.cmdSubscribe, rest) => (parseList 1 rest).map (withKey .subscribe)
  | (.cmdUnsubscribe, rest) => (parseList 1 rest).map (withKey .unsubscribe)
  | (.cmdDelay, rest) => (parseDelay stack rest).map withDelay
  | (.cmdInvalid, rest) => some (.invalid, rest)
  | (.cmdEmpty, rest) => some (.empty, rest)
  | (.eoc, rest) => some (.endOfInput, rest)

end IstKvs.ClientParser
