import IstKvs.FinalNewline
import IstKvs.Library.Readings

/-! The texts that the parsers of `parser.c` accept and the texts that they refuse. A
refused text goes up to the byte that shows the fault, and its kind is whether `cleanup`
is called once for it or twice. -/

namespace IstKvs.ParserReadings
open Readings Operations JobParser
open FinalNewline (keyLine pairLine prepend keyLine_succ pairLine_succ)

/-- The calls of `cleanup` after a fault; `twice` is set for a fault inside a pair. -/
def skipLines (twice : Bool) (rest : List UInt8) : List UInt8 :=
  if twice then cleanup (cleanup rest) else cleanup rest

theorem reading_once {α : Type} {Accepted : α → List UInt8 → Prop}
    {Refused : Bool → List UInt8 → List UInt8 → Prop} {stream consumed rest : List UInt8}
    (split : stream = consumed ++ rest) (refused : Refused false consumed rest) :
    Reading skipLines Accepted Refused stream (some (none, cleanup rest)) :=
  .refused split refused

theorem reading_twice {α : Type} {Accepted : α → List UInt8 → Prop}
    {Refused : Bool → List UInt8 → List UInt8 → Prop} {stream consumed rest : List UInt8}
    (split : stream = consumed ++ rest) (refused : Refused true consumed rest) :
    Reading skipLines Accepted Refused stream (some (none, cleanup (cleanup rest))) :=
  .refused split refused

/-! Pairs. -/

/-- A pair as the loop of `parse_write` meets it, behind its first parenthesis. -/
def pairText (key value : List UInt8) : List UInt8 := key ++ comma :: (value ++ [closeParen])

inductive AcceptedPair : CString × CString → List UInt8 → Prop where
  | pair {key value : List UInt8} (item : Item key) (item' : Item value) :
      AcceptedPair (CString.ofBytes key, CString.ofBytes value) (pairText key value)

inductive RefusedPair : Bool → List UInt8 → List UInt8 → Prop where
  | keyCut {key : List UInt8} (item : Item key) : RefusedPair false key []
  | key {key rest : List UInt8} {ch : UInt8} (item : Item key)
      (bad : ch = space ∨ ch = closeParen ∨ ch = closeBracket) : RefusedPair false (key ++ [ch]) rest
  | valueCut {key value : List UInt8} (item : Item key) (item' : Item value) :
      RefusedPair false (key ++ comma :: value) []
  | value {key value rest : List UInt8} {ch : UInt8} (item : Item key) (item' : Item value)
      (bad : ch = space ∨ ch = comma ∨ ch = closeBracket) :
      RefusedPair false (key ++ comma :: (value ++ [ch])) rest

section Pair
variable {stream rest : List UInt8}

/-- What `read_string` returns for a byte that ends an item and is not the one wanted. -/
theorem readField_unwanted {item : List UInt8} (kept : Item item) {ch : UInt8} {wanted : Int}
    (bad : ch = space ∧ wanted ≠ -1 ∨ ∃ value, Ends ch value ∧ value ≠ wanted) (rest : List UInt8) :
    ∃ value terminated, readField (item ++ ch :: rest) = some ⟨value, item, terminated, rest⟩ ∧ value ≠ wanted := by
  rcases bad with ⟨same, other⟩ | ⟨value, ends, other⟩
  · subst same
    exact ⟨_, _, readField_space kept rest, other.symm⟩
  · exact ⟨_, _, readField_item kept ends rest, other⟩

theorem parsePair_key_failed {value : Int} {stored : List UInt8} {terminated : Bool}
    (ran : readField stream = some ⟨value, stored, terminated, rest⟩) (failed : value ≠ 0) :
    parsePair stream = some (none, cleanup rest) := by
  simp only [parsePair, ran, Option.bind_eq_bind, Option.bind_some, ne_eq, failed, not_false_eq_true, ↓reduceIte]

theorem parsePair_key {key : List UInt8} (item : Item key) (later : List UInt8) :
    parsePair (key ++ comma :: later) = (readField later).bind fun value =>
      if value.value ≠ 1 then some (none, cleanup value.rest)
      else some (some (CString.ofBytes key, CString.ofBytes value.stored), value.rest) := by
  simp only [parsePair, readField_item item ends_comma, Option.bind_eq_bind, Option.bind_some, ne_eq,
    not_true_eq_false, ↓reduceIte]

theorem parsePair_accepts {key value : List UInt8} (item : Item key) (item' : Item value) (rest : List UInt8) :
    parsePair (pairText key value ++ rest) = some (some (CString.ofBytes key, CString.ofBytes value), rest) := by
  rw [pairText, List.append_assoc, List.cons_append, List.append_assoc, List.singleton_append,
    parsePair_key item, readField_item item' ends_closeParen]
  rfl

theorem parsePair_refuses {twice : Bool} {consumed : List UInt8} (refused : RefusedPair twice consumed rest) :
    parsePair (consumed ++ rest) = some (none, skipLines twice rest) := by
  cases refused with
  | keyCut item =>
    rw [List.append_nil, parsePair_key_failed (readField_cut item) (by decide)]
    rfl
  | @key key _ ch item bad =>
    have other : ch = space ∧ (0 : Int) ≠ -1 ∨ ∃ value, Ends ch value ∧ value ≠ 0 := by
      rcases bad with same | same | same
      · exact .inl ⟨same, by decide⟩
      · exact .inr ⟨1, same ▸ ends_closeParen, by decide⟩
      · exact .inr ⟨2, same ▸ ends_closeBracket, by decide⟩
    obtain ⟨value, terminated, ran, failed⟩ := readField_unwanted item other rest
    rw [List.append_assoc, List.singleton_append, parsePair_key_failed ran failed]
    rfl
  | valueCut item item' =>
    rw [List.append_nil, parsePair_key item, readField_cut item']
    rfl
  | @value key value _ ch item item' bad =>
    have other : ch = space ∧ (1 : Int) ≠ -1 ∨ ∃ value, Ends ch value ∧ value ≠ 1 := by
      rcases bad with same | same | same
      · exact .inl ⟨same, by decide⟩
      · exact .inr ⟨0, same ▸ ends_comma, by decide⟩
      · exact .inr ⟨2, same ▸ ends_closeBracket, by decide⟩
    obtain ⟨value, terminated, ran, failed⟩ := readField_unwanted item' other rest
    rw [List.append_assoc, List.cons_append, List.append_assoc, List.singleton_append, parsePair_key item, ran,
      Option.bind_some, if_pos failed]
    rfl

theorem parsePair_reading (stream : List UInt8) :
    Reading skipLines AcceptedPair RefusedPair stream (parsePair stream) := by
  have key := fieldRead stream
  generalize outcome : readField stream = read at key
  cases key with
  | overflow =>
    have undefined : parsePair stream = none := by simp [parsePair, outcome]
    rw [undefined]
    exact .undefined
  | cut item =>
    rw [parsePair_key_failed outcome (by decide)]
    exact reading_once (List.append_nil stream).symm (.keyCut item)
  | space item split =>
    rw [parsePair_key_failed outcome (by decide)]
    exact reading_once (split.trans (by simp)) (.key item (.inl rfl))
  | @delimited key later ch value item ends split =>
    rcases ends with ⟨same, same'⟩ | ⟨same, same'⟩ | ⟨same, same'⟩ <;> subst same same'
    · rw [split, parsePair_key item]
      have value := fieldRead later
      generalize readField later = read at value
      cases value with
      | overflow => exact .undefined
      | cut item' => exact reading_once (List.append_nil _).symm (.valueCut item item')
      | space item' split' => exact reading_once (by simp [split']) (.value item item' (.inl rfl))
      | delimited item' ends' split' =>
        rcases ends' with ⟨same, same'⟩ | ⟨same, same'⟩ | ⟨same, same'⟩ <;> subst same same'
        · exact reading_once (by simp [split']) (.value item item' (.inr (.inl rfl)))
        · exact .accepted (by simp [split', pairText]) (.pair item item')
        · exact reading_once (by simp [split']) (.value item item' (.inr (.inr rfl)))
    · rw [parsePair_key_failed outcome (by decide)]
      exact reading_once (split.trans (by simp)) (.key item (.inr (.inl rfl)))
    · rw [parsePair_key_failed outcome (by decide)]
      exact reading_once (split.trans (by simp)) (.key item (.inr (.inr rfl)))

theorem parsePair_describes : Describes skipLines AcceptedPair RefusedPair parsePair where
  reading := parsePair_reading
  accepts := fun accepted rest => by
    cases accepted with
    | pair item item' => exact parsePair_accepts item item' rest
  refuses := parsePair_refuses

end Pair

/-! The end of a list, behind the bracket that closes it. -/

/-- `room` counts the items that there is room for, the last one included. -/
inductive AcceptedEnd : Nat → List UInt8 → Prop where
  | ending {room : Nat} {ch : UInt8} (ends : ch = newline ∨ ch = 0) : AcceptedEnd (room + 2) [ch]

/-- A list that has used all the room is refused, whatever comes next. -/
inductive RefusedEnd : Nat → List UInt8 → List UInt8 → Prop where
  | full {rest : List UInt8} : RefusedEnd 1 [] rest
  | cut {room : Nat} : RefusedEnd (room + 2) [] []
  | other {room : Nat} {rest : List UInt8} {ch : UInt8} (bad : ch ≠ newline ∧ ch ≠ 0) :
      RefusedEnd (room + 2) [ch] rest

section End
variable {α : Type} (item : α)

theorem endList_reading (room : Nat) (stream : List UInt8) :
    Reading skipLines (fun items consumed => items = [item] ∧ AcceptedEnd (room + 1) consumed)
      (fun twice consumed rest => twice = false ∧ RefusedEnd (room + 1) consumed rest) stream
      (some (endList (room + 1) (some [item], stream))) := by
  cases room with
  | zero => exact reading_once rfl ⟨rfl, .full⟩
  | succ room =>
    have fewer : ¬[item].length = room + 2 := by simp
    simp only [endList, if_neg fewer]
    cases stream with
    | nil => exact reading_once rfl ⟨rfl, .cut⟩
    | cons ch rest =>
      simp only
      split
      next ends => exact .accepted rfl ⟨rfl, .ending ends⟩
      next bad => exact reading_once rfl ⟨rfl, .other (not_or.mp bad)⟩

theorem endList_accepts {room : Nat} {consumed : List UInt8} (accepted : AcceptedEnd room consumed)
    (rest : List UInt8) : endList room (some [item], consumed ++ rest) = (some [item], rest) := by
  cases accepted with
  | ending ends => simp [endList, ends]

theorem endList_refuses {room : Nat} {consumed rest : List UInt8} (refused : RefusedEnd room consumed rest) :
    endList room (some [item], consumed ++ rest) = (none, cleanup rest) := by
  cases refused with
  | full => simp [endList]
  | cut => simp [endList]
  | other bad => simp [endList, bad.1, bad.2]

end End

/-! The loop of `parse_read_delete`, with the tests after it. -/

inductive AcceptedKeys : Nat → List CString → List UInt8 → Prop where
  | last {room : Nat} {key ending : List UInt8} (item : Item key) (ends : AcceptedEnd (room + 1) ending) :
      AcceptedKeys (room + 1) [CString.ofBytes key] (key ++ closeBracket :: ending)
  | more {room : Nat} {key consumed : List UInt8} {keys : List CString} (item : Item key)
      (later : AcceptedKeys room keys consumed) :
      AcceptedKeys (room + 1) (CString.ofBytes key :: keys) (key ++ comma :: consumed)

inductive RefusedKeys : Nat → Bool → List UInt8 → List UInt8 → Prop where
  | full {rest : List UInt8} : RefusedKeys 0 false [] rest
  | cut {room : Nat} {key : List UInt8} (item : Item key) : RefusedKeys (room + 1) false key []
  | key {room : Nat} {key rest : List UInt8} {ch : UInt8} (item : Item key)
      (bad : ch = space ∨ ch = closeParen) : RefusedKeys (room + 1) false (key ++ [ch]) rest
  | last {room : Nat} {key ending rest : List UInt8} (item : Item key)
      (bad : RefusedEnd (room + 1) ending rest) :
      RefusedKeys (room + 1) false (key ++ closeBracket :: ending) rest
  | more {room : Nat} {twice : Bool} {key consumed rest : List UInt8} (item : Item key)
      (later : RefusedKeys room twice consumed rest) :
      RefusedKeys (room + 1) twice (key ++ comma :: consumed) rest

section Keys
variable {room : Nat} {stream rest : List UInt8}

theorem keyLine_zero (stream : List UInt8) : keyLine 0 stream = some (none, cleanup stream) := rfl

theorem keyLine_failed {value : Int} {stored : List UInt8} {terminated : Bool}
    (ran : readField stream = some ⟨value, stored, terminated, rest⟩) (failed : value < 0 ∨ value = 1) :
    keyLine (room + 1) stream = some (none, cleanup rest) := by
  rw [keyLine_succ, ran, Option.bind_some, if_pos failed]

theorem keyLine_last {key : List UInt8} (item : Item key) (later : List UInt8) :
    keyLine (room + 1) (key ++ closeBracket :: later) =
      some (endList (room + 1) (some [CString.ofBytes key], later)) := by
  rw [keyLine_succ, readField_item item ends_closeBracket]
  rfl

theorem keyLine_more {key : List UInt8} (item : Item key) (later : List UInt8) :
    keyLine (room + 1) (key ++ comma :: later) =
      (keyLine room later).map (prepend (CString.ofBytes key)) := by
  rw [keyLine_succ, readField_item item ends_comma]
  rfl

theorem keyLine_accepts {keys : List CString} {consumed : List UInt8} (accepted : AcceptedKeys room keys consumed)
    (rest : List UInt8) : keyLine room (consumed ++ rest) = some (some keys, rest) := by
  induction accepted with
  | last item ends => rw [List.append_assoc, List.cons_append, keyLine_last item, endList_accepts _ ends]
  | more item later ih =>
    rw [List.append_assoc, List.cons_append, keyLine_more item, ih]
    rfl

theorem keyLine_refuses {twice : Bool} {consumed : List UInt8} (refused : RefusedKeys room twice consumed rest) :
    keyLine room (consumed ++ rest) = some (none, skipLines twice rest) := by
  induction refused with
  | full => exact keyLine_zero _
  | cut item =>
    rw [List.append_nil, keyLine_failed (readField_cut item) (.inl (by decide))]
    rfl
  | key item bad =>
    rw [List.append_assoc, List.singleton_append]
    rcases bad with same | same <;> subst same
    · exact keyLine_failed (readField_space item _) (.inl (by decide))
    · exact keyLine_failed (readField_item item ends_closeParen _) (.inr rfl)
  | last item bad =>
    rw [List.append_assoc, List.cons_append, keyLine_last item, endList_refuses _ bad]
    rfl
  | more item later ih =>
    rw [List.append_assoc, List.cons_append, keyLine_more item, ih]
    rfl

theorem keyLine_reading (room : Nat) (stream : List UInt8) :
    Reading skipLines (AcceptedKeys room) (RefusedKeys room) stream (keyLine room stream) := by
  induction room generalizing stream with
  | zero => exact reading_once rfl .full
  | succ room ih =>
    have key := fieldRead stream
    generalize outcome : readField stream = read at key
    cases key with
    | overflow =>
      rw [keyLine_succ, outcome]
      exact .undefined
    | cut item =>
      rw [keyLine_failed outcome (.inl (by decide))]
      exact reading_once (List.append_nil stream).symm (.cut item)
    | space item split =>
      rw [keyLine_failed outcome (.inl (by decide))]
      exact reading_once (split.trans (by simp)) (.key item (.inl rfl))
    | @delimited key later ch value item ends split =>
      rcases ends with ⟨same, same'⟩ | ⟨same, same'⟩ | ⟨same, same'⟩ <;> subst same same'
      · rw [split, keyLine_more item]
        have rest := ih later
        generalize keyLine room later = outcome at rest
        cases rest with
        | undefined => exact .undefined
        | accepted split' accepted => exact .accepted (by simp [split']) (.more item accepted)
        | refused split' refused => exact .refused (by simp [split']) (.more item refused)
      · rw [keyLine_failed outcome (.inr rfl)]
        exact reading_once (split.trans (by simp)) (.key item (.inr rfl))
      · rw [split, keyLine_last item]
        have rest := endList_reading (CString.ofBytes key) room later
        generalize some (endList (room + 1) (some [CString.ofBytes key], later)) = outcome at rest
        cases rest with
        | undefined => exact .undefined
        | accepted split' accepted =>
          obtain ⟨same, accepted⟩ := accepted
          subst same
          exact .accepted (by simp [split']) (.last item accepted)
        | refused split' refused =>
          obtain ⟨same, refused⟩ := refused
          subst same
          exact .refused (by simp [split']) (.last item refused)

theorem keyLine_describes (room : Nat) :
    Describes skipLines (AcceptedKeys room) (RefusedKeys room) (keyLine room) where
  reading := keyLine_reading room
  accepts := keyLine_accepts
  refuses := keyLine_refuses

end Keys

/-! The loop of `parse_write`, with the tests after it. -/

inductive AcceptedPairs : Nat → List (CString × CString) → List UInt8 → Prop where
  | last {room : Nat} {pair : CString × CString} {here ending : List UInt8} (accepted : AcceptedPair pair here)
      (ends : AcceptedEnd (room + 1) ending) :
      AcceptedPairs (room + 1) [pair] (here ++ closeBracket :: ending)
  | more {room : Nat} {pair : CString × CString} {pairs : List (CString × CString)} {here consumed : List UInt8}
      (accepted : AcceptedPair pair here) (later : AcceptedPairs room pairs consumed) :
      AcceptedPairs (room + 1) (pair :: pairs) (here ++ openParen :: consumed)

/-- After a pair that is refused both `parse_pair` and `parse_write` skip a line. -/
inductive RefusedPairs : Nat → Bool → List UInt8 → List UInt8 → Prop where
  | full {rest : List UInt8} : RefusedPairs 0 false [] rest
  | pair {room : Nat} {consumed rest : List UInt8} (refused : RefusedPair false consumed rest) :
      RefusedPairs (room + 1) true consumed rest
  | cut {room : Nat} {pair : CString × CString} {here : List UInt8} (accepted : AcceptedPair pair here) :
      RefusedPairs (room + 1) false here []
  | next {room : Nat} {pair : CString × CString} {here rest : List UInt8} {ch : UInt8}
      (accepted : AcceptedPair pair here) (bad : ch ≠ openParen ∧ ch ≠ closeBracket) :
      RefusedPairs (room + 1) false (here ++ [ch]) rest
  | last {room : Nat} {pair : CString × CString} {here ending rest : List UInt8}
      (accepted : AcceptedPair pair here) (bad : RefusedEnd (room + 1) ending rest) :
      RefusedPairs (room + 1) false (here ++ closeBracket :: ending) rest
  | more {room : Nat} {twice : Bool} {pair : CString × CString} {here consumed rest : List UInt8}
      (accepted : AcceptedPair pair here) (later : RefusedPairs room twice consumed rest) :
      RefusedPairs (room + 1) twice (here ++ openParen :: consumed) rest

section Pairs
variable {room : Nat} {stream rest : List UInt8} {pair : CString × CString} {here : List UInt8}

theorem pairLine_zero (stream : List UInt8) : pairLine 0 stream = some (none, cleanup stream) := rfl

theorem pairLine_failed (failed : parsePair stream = some (none, rest)) :
    pairLine (room + 1) stream = some (none, cleanup rest) := by
  rw [pairLine_succ, failed, Option.bind_some]

theorem pairLine_cut (accepted : AcceptedPair pair here) :
    pairLine (room + 1) here = some (none, []) := by
  have first := parsePair_describes.accepts accepted []
  rw [List.append_nil] at first
  rw [pairLine_succ, first, Option.bind_some]

theorem pairLine_pair (accepted : AcceptedPair pair here) (ch : UInt8) (rest : List UInt8) :
    pairLine (room + 1) (here ++ ch :: rest) =
      if ch = openParen then (pairLine room rest).map (prepend pair)
      else if ch = closeBracket then some (endList (room + 1) (some [pair], rest))
      else some (none, cleanup rest) := by
  rw [pairLine_succ, parsePair_describes.accepts accepted, Option.bind_some]

theorem pairLine_more (accepted : AcceptedPair pair here) (rest : List UInt8) :
    pairLine (room + 1) (here ++ openParen :: rest) = (pairLine room rest).map (prepend pair) := by
  rw [pairLine_pair accepted, if_pos rfl]

theorem pairLine_last (accepted : AcceptedPair pair here) (rest : List UInt8) :
    pairLine (room + 1) (here ++ closeBracket :: rest) = some (endList (room + 1) (some [pair], rest)) := by
  rw [pairLine_pair accepted, if_neg (by decide), if_pos rfl]

theorem pairLine_next (accepted : AcceptedPair pair here) {ch : UInt8}
    (bad : ch ≠ openParen ∧ ch ≠ closeBracket) (rest : List UInt8) :
    pairLine (room + 1) (here ++ ch :: rest) = some (none, cleanup rest) := by
  rw [pairLine_pair accepted, if_neg bad.1, if_neg bad.2]

theorem pairLine_accepts {pairs : List (CString × CString)} {consumed : List UInt8}
    (accepted : AcceptedPairs room pairs consumed) (rest : List UInt8) :
    pairLine room (consumed ++ rest) = some (some pairs, rest) := by
  induction accepted with
  | last first ends => rw [List.append_assoc, List.cons_append, pairLine_last first, endList_accepts _ ends]
  | more first later ih =>
    rw [List.append_assoc, List.cons_append, pairLine_more first, ih]
    rfl

theorem pairLine_refuses {twice : Bool} {consumed : List UInt8} (refused : RefusedPairs room twice consumed rest) :
    pairLine room (consumed ++ rest) = some (none, skipLines twice rest) := by
  induction refused with
  | full => exact pairLine_zero _
  | pair refused => exact pairLine_failed (parsePair_refuses refused)
  | cut first =>
    rw [List.append_nil]
    exact pairLine_cut first
  | next first bad =>
    rw [List.append_assoc, List.singleton_append]
    exact pairLine_next first bad _
  | last first bad =>
    rw [List.append_assoc, List.cons_append, pairLine_last first, endList_refuses _ bad]
    rfl
  | more first later ih =>
    rw [List.append_assoc, List.cons_append, pairLine_more first, ih]
    rfl

theorem pairLine_reading (room : Nat) (stream : List UInt8) :
    Reading skipLines (AcceptedPairs room) (RefusedPairs room) stream (pairLine room stream) := by
  induction room generalizing stream with
  | zero => exact reading_once rfl .full
  | succ room ih =>
    have first := parsePair_reading stream
    generalize outcome : parsePair stream = parsed at first
    cases first with
    | undefined =>
      rw [pairLine_succ, outcome]
      exact .undefined
    | @refused twice consumed rest split refused =>
      have once : twice = false := by cases refused <;> rfl
      subst once
      rw [pairLine_failed outcome]
      exact reading_twice split (.pair refused)
    | @accepted pair here later split first =>
      subst split
      cases later with
      | nil =>
        rw [List.append_nil, pairLine_cut first]
        exact reading_once (List.append_nil here).symm (.cut first)
      | cons ch later =>
        by_cases more : ch = openParen
        · subst more
          rw [pairLine_more first]
          have rest := ih later
          generalize pairLine room later = outcome at rest
          cases rest with
          | undefined => exact .undefined
          | accepted split' accepted => exact .accepted (by simp [split']) (.more first accepted)
          | refused split' refused => exact .refused (by simp [split']) (.more first refused)
        · by_cases last : ch = closeBracket
          · subst last
            rw [pairLine_last first]
            have rest := endList_reading pair room later
            generalize some (endList (room + 1) (some [pair], later)) = outcome at rest
            cases rest with
            | undefined => exact .undefined
            | accepted split' accepted =>
              obtain ⟨same, accepted⟩ := accepted
              subst same
              exact .accepted (by simp [split']) (.last first accepted)
            | refused split' refused =>
              obtain ⟨same, refused⟩ := refused
              subst same
              exact .refused (by simp [split']) (.last first refused)
          · rw [pairLine_next first ⟨more, last⟩]
            exact reading_once (by simp) (.next first ⟨more, last⟩)

theorem pairLine_describes (room : Nat) :
    Describes skipLines (AcceptedPairs room) (RefusedPairs room) (pairLine room) where
  reading := pairLine_reading room
  accepts := pairLine_accepts
  refuses := pairLine_refuses

end Pairs

/-! A byte that is expected before the rest. -/

inductive AcceptedAfter {α : Type} (wanted : UInt8) (Accepted : α → List UInt8 → Prop) :
    α → List UInt8 → Prop where
  | after {result : α} {consumed : List UInt8} (later : Accepted result consumed) :
      AcceptedAfter wanted Accepted result (wanted :: consumed)

inductive RefusedAfter (wanted : UInt8) (Refused : Bool → List UInt8 → List UInt8 → Prop) :
    Bool → List UInt8 → List UInt8 → Prop where
  | cut : RefusedAfter wanted Refused false [] []
  | other {ch : UInt8} {rest : List UInt8} (bad : ch ≠ wanted) : RefusedAfter wanted Refused false [ch] rest
  | after {twice : Bool} {consumed rest : List UInt8} (later : Refused twice consumed rest) :
      RefusedAfter wanted Refused twice (wanted :: consumed) rest

theorem expect_describes {α : Type} (wanted : UInt8) {Accepted : α → List UInt8 → Prop}
    {Refused : Bool → List UInt8 → List UInt8 → Prop} {next : List UInt8 → Option (Parsed α)}
    (describes : Describes skipLines Accepted Refused next) :
    Describes skipLines (AcceptedAfter wanted Accepted) (RefusedAfter wanted Refused)
      (fun stream => expect wanted stream next) where
  reading := fun stream => by
    cases stream with
    | nil => exact reading_once rfl .cut
    | cons ch rest =>
      simp only [expect]
      split
      next same =>
        subst same
        have later := describes.reading rest
        generalize next rest = outcome at later
        cases later with
        | undefined => exact .undefined
        | accepted split accepted => exact .accepted (by simp [split]) (.after accepted)
        | refused split refused => exact .refused (by simp [split]) (.after refused)
      next bad => exact reading_once rfl (.other bad)
  accepts := fun accepted rest => by
    cases accepted with
    | after later =>
      rw [List.cons_append, expect, if_pos rfl]
      exact describes.accepts later rest
  refuses := fun refused => by
    cases refused with
    | cut => rfl
    | other bad =>
      rw [List.singleton_append, expect, if_neg bad]
      rfl
    | after later =>
      rw [List.cons_append, expect, if_pos rfl]
      exact describes.refuses later

/-! The three parsers of arguments. -/

def AcceptedWrite (max : Nat) : List (CString × CString) → List UInt8 → Prop :=
  AcceptedAfter openBracket (AcceptedAfter openParen (AcceptedPairs max))

def RefusedWrite (max : Nat) : Bool → List UInt8 → List UInt8 → Prop :=
  RefusedAfter openBracket (RefusedAfter openParen (RefusedPairs max))

def AcceptedReadDelete (max : Nat) : List CString → List UInt8 → Prop :=
  AcceptedAfter openBracket (AcceptedKeys max)

def RefusedReadDelete (max : Nat) : Bool → List UInt8 → List UInt8 → Prop :=
  RefusedAfter openBracket (RefusedKeys max)

theorem parseWrite_describes (max : Nat) :
    Describes skipLines (AcceptedWrite max) (RefusedWrite max) (parseWrite max) :=
  expect_describes openBracket (expect_describes openParen (pairLine_describes max))

theorem parseReadDelete_describes (max : Nat) :
    Describes skipLines (AcceptedReadDelete max) (RefusedReadDelete max) (parseReadDelete max) :=
  expect_describes openBracket (keyLine_describes max)

end IstKvs.ParserReadings
