import IstKvs.SessionDialogue
import IstKvs.ClientLines
import IstKvs.JobMeaning

/-! What a client prints for what it is given to read. The bytes of a script on its standard
input go through `parser.c`, the three pipes and `handle_session`, and come back as lines on
its console: those that a list of keys would give. -/

namespace IstKvs.ClientScripts
open Operations JobParser ClientParser ClientLines Dialogue LabelledRuns SessionDialogue
open ScriptRoundTrip (Token decimal decimal_digits decimal_short numeral_decimal cleanup_line ofBytes_bytes)
open ListGrammar (keyA)
open JobMeaning (keyB)

/-! The input. -/

/-- The turns of the loop in `main`, until it returns or there is nothing to read. -/
def turnLoop (stack : Nat → UInt8) : Nat → List UInt8 → Option (List Turn)
  | 0, _ => none
  | turns + 1, stream => do
      let (turn, rest) ← takeTurn stack stream
      if turn = .disconnect ∨ turn = .endOfInput then some [turn]
      else
        let later ← turnLoop stack turns rest
        some (turn :: later)

/-- Each turn but the last reads a byte. -/
def inputTurns (stack : Nat → UInt8) (stream : List UInt8) : Option (List Turn) := turnLoop stack (stream.length + 1) stream

/-- A line of a script, before its DISCONNECT. A line may be misspelled where the client gives
it up at some byte before its end and skips the rest. -/
inductive ScriptLine where
  | subscribe (key : Token)
  | unsubscribe (key : Token)
  | delay (delayMs : Nat) (bound : delayMs ≤ UINT_MAX)
  | comment (body : List UInt8) (oneLine : newline ∉ body)
  | misspelled (ahead body : List UInt8) (givenUp : ∀ stack rest, Reads stack .invalid .skips ahead rest)
      (oneLine : newline ∉ ahead ++ body)
  | blank

def render : ScriptLine → List UInt8
  | .subscribe key => text "SUBSCRIBE [" ++ key.text.bytes ++ [closeBracket, newline]
  | .unsubscribe key => text "UNSUBSCRIBE [" ++ key.text.bytes ++ [closeBracket, newline]
  | .delay delayMs _ => text "DELAY " ++ decimal delayMs ++ [newline]
  | .comment body _ => text "#" ++ body ++ [newline]
  | .misspelled ahead body _ _ => ahead ++ body ++ [newline]
  | .blank => [newline]

def ScriptLine.turn : ScriptLine → Turn
  | .subscribe key => .subscribe key.text
  | .unsubscribe key => .unsubscribe key.text
  | .delay delayMs _ => .delay delayMs
  | .misspelled _ _ _ _ => .invalid
  | .comment _ _ | .blank => .empty

/-- The turns of a script, with the DISCONNECT that ends it. -/
def turnsOf (script : List ScriptLine) : List Turn := script.map ScriptLine.turn ++ [.disconnect]

/-- A printed script with its DISCONNECT, and bytes that are never read. -/
def printed (script : List ScriptLine) (later : List UInt8) : List UInt8 :=
  script.flatMap render ++ (text "DISCONNECT" ++ newline :: later)

section Input
variable {stack : Nat → UInt8}

theorem turnsOf_cons (line : ScriptLine) (script : List ScriptLine) : turnsOf (line :: script) = line.turn :: turnsOf script :=
  rfl

theorem acceptedKey_token (key : Token) :
    AcceptedKey [key.text] (openBracket :: (key.text.bytes ++ [closeBracket, newline])) := by
  have accepted : AcceptedKey [CString.ofBytes key.text.bytes] _ := .key ⟨key.fits, key.plain⟩ (.inl rfl)
  rwa [ofBytes_bytes] at accepted

theorem takeTurn_render (line : ScriptLine) (rest : List UInt8) :
    takeTurn stack (render line ++ rest) = some (line.turn, rest) := by
  cases line with
  | subscribe key =>
    have reads : Reads stack (.subscribe key.text) .stops _ rest := .key .subscribe (acceptedKey_token key)
    exact takeTurn_of_reads reads
  | unsubscribe key =>
    have reads : Reads stack (.unsubscribe key.text) .stops _ rest := .key .unsubscribe (acceptedKey_token key)
    exact takeTurn_of_reads reads
  | delay delayMs bound =>
    have fits : numeral (decimal delayMs) ≤ UINT_MAX := (numeral_decimal delayMs).symm ▸ bound
    have reads : Reads stack _ (.takes _ (some newline)) _ rest :=
      .delay (decimal_digits delayMs) (by decide) (decimal_short bound) fits
    have taken := takeTurn_of_reads reads
    rw [numeral_decimal] at taken
    show takeTurn stack (text "DELAY " ++ decimal delayMs ++ [newline] ++ rest) = _
    rw [List.append_assoc (text "DELAY ")]
    exact taken
  | comment body oneLine =>
    have reads : Reads stack .empty .skips ['#'.toUInt8] (body ++ newline :: rest) := .comment
    have taken := takeTurn_of_reads reads
    rw [Ending.left, cleanup_line oneLine] at taken
    show takeTurn stack (text "#" ++ body ++ [newline] ++ rest) = _
    rw [List.append_assoc, List.append_assoc]
    exact taken
  | misspelled ahead body givenUp oneLine =>
    have taken := takeTurn_of_reads (givenUp stack (body ++ newline :: rest))
    rw [Ending.left, cleanup_line fun inside => oneLine (List.mem_append_right ahead inside)] at taken
    show takeTurn stack (ahead ++ body ++ [newline] ++ rest) = _
    rw [List.append_assoc, List.append_assoc, List.singleton_append]
    exact taken
  | blank => rfl

theorem render_ne_nil (line : ScriptLine) : 0 < (render line).length := by
  cases line <;> simp [render]

/-- The loop reads a printed script back, line for line, and returns at its DISCONNECT. -/
theorem turnLoop_printed (script : List ScriptLine) (later : List UInt8) {turns : Nat} (enough : script.length < turns) :
    turnLoop stack turns (printed script later) = some (turnsOf script) := by
  induction script generalizing turns with
  | nil =>
    cases turns with
    | zero => exact absurd enough (Nat.not_lt_zero _)
    | succ turns =>
      have taken : takeTurn stack (printed [] later) = some (.disconnect, later) := takeTurn_disconnect newline later
      simp [turnLoop, taken, turnsOf]
  | cons line script ih =>
    cases turns with
    | zero => exact absurd enough (Nat.not_lt_zero _)
    | succ turns =>
      have split : printed (line :: script) later = render line ++ printed script later := by
        unfold printed
        rw [List.flatMap_cons, List.append_assoc]
      have goesOn : ¬(line.turn = .disconnect ∨ line.turn = .endOfInput) := by cases line <;> simp [ScriptLine.turn]
      rw [turnLoop, split, takeTurn_render]
      simp only [Option.bind_eq_bind, Option.bind_some, if_neg goesOn, ih (Nat.lt_of_succ_lt_succ enough)]
      rfl

theorem inputTurns_printed (script : List ScriptLine) (later : List UInt8) :
    inputTurns stack (printed script later) = some (turnsOf script) := by
  apply turnLoop_printed
  have longer : script.length ≤ (script.flatMap render).length := by
    induction script with
    | nil => exact le_refl 0
    | cons line script ih =>
      have some := render_ne_nil line
      rw [List.flatMap_cons, List.length_append, List.length_cons]
      omega
  unfold printed
  rw [List.length_append]
  omega

end Input

/-! The console. -/

/-- What the client writes for the rest of a script, if its session keeps these keys. -/
def transcript (keyExists : Nat → CString → Bool) : Nat → List CString → Console → List ScriptLine → Console
  | _, _, console, [] => console.printf (returnedLine 0 "disconnect")
  | count, keys, console, .subscribe key :: script =>
      if keyExists count key.text then
        transcript keyExists (count + 1) (if keys.length < MAX_NUMBER_SUB then keys ++ [key.text] else keys)
          (console.printf (returnedLine 1 "subscribe")) script
      else transcript keyExists (count + 1) keys (console.printf (returnedLine 0 "subscribe")) script
  | count, keys, console, .unsubscribe key :: script =>
      transcript keyExists (count + 1) (keys.erase key.text)
        (console.printf (returnedLine (if key.text ∈ keys then 0 else 1) "unsubscribe")) script
  | count, keys, console, .delay delayMs _ :: script =>
      transcript keyExists count keys (if delayMs > 0 then console.printf (text "Waiting...\n") else console) script
  | count, keys, console, .misspelled _ _ _ _ :: script =>
      transcript keyExists count keys (console.fprintf "Invalid command. See HELP for usage\n") script
  | count, keys, console, .comment _ _ :: script | count, keys, console, .blank :: script =>
      transcript keyExists count keys console script

/-- The console of a client that the server has accepted. -/
def connected : Console := (⟨[], []⟩ : Console).printf (returnedLine 0 "connect")

section Console
variable {keyExists : Nat → CString → Bool}

theorem snprintf_token (key : Token) : CString.snprintf MAX_STRING_SIZE key.text = key.text :=
  CString.snprintf_of_fits key.fits

/-- An answer of 0 or 1 is printed. -/
theorem answered_binary (client : Client) {result : UInt8} (binary : result = 0 ∨ result = 1) (operation : String) :
    client.answered result operation =
      getCommand (client.asked + 1) client.input (client.console.printf (returnedLine result operation)) := by
  apply if_neg
  rintro ⟨notZero, notOne⟩
  exact binary.elim notZero notOne

/-- The answers of the list, heard one after the other, leave the transcript on the console. -/
theorem hear_transcript (script : List ScriptLine) (count : Nat) (keys : List CString) (console : Console) :
    ∃ asked, (answers keyExists count keys (asks (turnsOf script))).2.foldl Client.hear
        (getCommand count (turnsOf script) console) =
      ⟨.exited 0, [], asked, transcript keyExists count keys console script⟩ := by
  induction script generalizing count keys console with
  | nil => exact ⟨count, rfl⟩
  | cons line script ih =>
    cases line with
    | delay | misspelled | comment | blank => exact ih count keys _
    | subscribe key =>
      have goesOn (result : UInt8) (binary : result = 0 ∨ result = 1) :
          Client.hear (getCommand count (.subscribe key.text :: turnsOf script) console) result =
            getCommand (count + 1) (turnsOf script) (console.printf (returnedLine result "subscribe")) :=
        answered_binary _ binary "subscribe"
      simp only [turnsOf_cons, ScriptLine.turn, asks, answers, answer, snprintf_token, transcript]
      cases found : keyExists count key.text with
      | true =>
        simp only [↓reduceIte, List.foldl_cons, goesOn 1 (.inr rfl)]
        exact ih (count + 1) _ _
      | false =>
        simp only [Bool.false_eq_true, ↓reduceIte, List.foldl_cons, goesOn 0 (.inl rfl)]
        exact ih (count + 1) _ _
    | unsubscribe key =>
      have goesOn (result : UInt8) (binary : result = 0 ∨ result = 1) :
          Client.hear (getCommand count (.unsubscribe key.text :: turnsOf script) console) result =
            getCommand (count + 1) (turnsOf script) (console.printf (returnedLine result "unsubscribe")) :=
        answered_binary _ binary "unsubscribe"
      have binary : (if key.text ∈ keys then (0 : UInt8) else 1) = 0 ∨
          (if key.text ∈ keys then (0 : UInt8) else 1) = 1 := by
        split
        · exact .inl rfl
        · exact .inr rfl
      simp only [turnsOf_cons, ScriptLine.turn, asks, answers, answer, snprintf_token, transcript,
        List.foldl_cons, goesOn _ binary]
      exact ih (count + 1) _ _

end Console

/-! Runs. -/

section Runs
variable {setting : Setting} {trace : List (Event SessionPipe UInt8)} {state : State SessionPipe UInt8 Control}

/-- For any script on its standard input, in every interleaving with its session, the client
comes to return 0 from `main` with the transcript of the script on its console. -/
theorem client_transcript (stack : Nat → UInt8) (script : List ScriptLine) (later : List UInt8)
    (read : inputTurns stack (printed script later) = some setting.input)
    (run : Run (machine setting.parties) Always (initial setting.start) trace state) :
    (∃ more last, Run (machine setting.parties) Always state more last ∧ AtRest setting.parties last) ∧
      (AtRest setting.parties state → ∃ client, state.stand .left = .ready (.client client) ∧
        client.pc = .exited 0 ∧ client.console = transcript setting.keyExists 0 [] connected script) := by
  rw [inputTurns_printed] at read
  have input : turnsOf script = setting.input := Option.some.inj read
  have converses := converses_start setting
  refine ⟨run_reaches_rest converses run, ?_⟩
  intro rest
  have active : setting.inLoop.active = true := setting.active
  obtain ⟨_, told⟩ := loop_answers setting setting.input 0 setting.localBuffer (Int.le_refl 0) active
  obtain ⟨asked, heard⟩ := @hear_transcript setting.keyExists script 0 [] connected
  rw [input] at heard
  have whole : setting.told = ⟨.exited 0, [], asked, transcript setting.keyExists 0 [] connected script⟩ := by
    unfold Setting.told
    rw [served_eq]
    exact (congrArg (fun results => List.foldl Client.hear _ (0 :: results)) told).trans heard
  exact ⟨setting.told, run_outcome converses run rest .left, congrArg Client.pc whole, congrArg Client.console whole⟩

end Runs

theorem keyword_givenUp (stack : Nat → UInt8) (rest : List UInt8) : Reads stack .invalid .skips (text "SUBSCRIBES") rest :=
  .keyword .subscribe ⟨(by decide : text "UBSCRIBES" ≠ _), .inl rfl⟩

theorem subscribes_oneLine : newline ∉ text "SUBSCRIBES" ++ text " [a]" := by decide

def shortScript : List ScriptLine :=
  [.subscribe keyA, .misspelled (text "SUBSCRIBES") (text " [a]") keyword_givenUp subscribes_oneLine, .unsubscribe keyB]

theorem client_transcript_of_shortScript : ∃ state : State SessionPipe UInt8 Control, ∃ client : Client,
    state.stand .left = .ready (.client client) ∧ client.pc = .exited 0 ∧
      client.console = transcript shortSession.keyExists 0 [] connected shortScript := by
  obtain ⟨trace, state, run, _, rest⟩ := shortSession_rests
  have read : inputTurns (fun _ => 0) (printed shortScript []) = some shortSession.input := by
    rw [inputTurns_printed]
    rfl
  obtain ⟨_, ends⟩ := client_transcript (fun _ => 0) shortScript [] read run
  exact ⟨state, ends rest⟩

end IstKvs.ClientScripts
