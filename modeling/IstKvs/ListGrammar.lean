import IstKvs.ParserReadings
import IstKvs.ScriptRoundTrip

/-! Which lists the parsers of `WRITE`, `READ` and `DELETE` accept. The tests after both
loops take a list of as many items as there is room for to be one that does not end. -/

namespace IstKvs.ListGrammar
open Operations JobParser ParserReadings
open ScriptRoundTrip (Token renderPair renderKeys ofBytes_bytes)

/-- The end of a list: its bracket, and the byte that ends the line. -/
def Closing (ending : List UInt8) : Prop := ending = [closeBracket, newline] ∨ ending = [closeBracket, 0]

/-- The stream starts with the list of the keys. -/
def KeyList (keys : List Token) (stream : List UInt8) : Prop :=
  keys ≠ [] ∧ ∃ ending rest, Closing ending ∧
    stream = openBracket :: (List.intercalate [comma] (keys.map fun key => key.text.bytes) ++ ending) ++ rest

/-- The stream starts with the list of the pairs. -/
def PairList (pairs : List (Token × Token)) (stream : List UInt8) : Prop :=
  pairs ≠ [] ∧ ∃ ending rest, Closing ending ∧ stream = openBracket :: (pairs.flatMap renderPair ++ ending) ++ rest

def texts (pair : Token × Token) : CString × CString := (pair.1.text, pair.2.text)

/-- `parse_read_delete` returns exactly the lists of at most `max` keys. -/
def KeysParsed (max : Nat) (stream : List UInt8) : Prop :=
  ∀ keys, (∃ rest, parseReadDelete max stream = some (some keys, rest)) ↔
    ∃ tokens, tokens.length ≤ max ∧ keys = tokens.map Token.text ∧ KeyList tokens stream

/-- `parse_write` returns exactly the lists of at most `max` pairs. -/
def PairsParsed (max : Nat) (stream : List UInt8) : Prop :=
  ∀ pairs, (∃ rest, parseWrite max stream = some (some pairs, rest)) ↔
    ∃ tokens, tokens.length ≤ max ∧ pairs = tokens.map texts ∧ PairList tokens stream

/-- No byte of the list, up to the bracket that closes it, is NUL. -/
def NulFree (stream : List UInt8) : Prop :=
  closeBracket ∈ stream → 0 ∉ stream.takeWhile (· ≠ closeBracket)

instance (stream : List UInt8) : Decidable (NulFree stream) := inferInstanceAs (Decidable (_ → _))

/-! Items without NUL are tokens. -/

theorem takeWhile_front {front : List UInt8} (inside : closeBracket ∉ front) (rest : List UInt8) :
    (front ++ rest).takeWhile (· ≠ closeBracket) = front ++ rest.takeWhile (· ≠ closeBracket) := by
  apply List.takeWhile_append_of_pos
  intro ch member
  exact decide_eq_true fun same => inside (same ▸ member)

theorem nulFree_append {front rest : List UInt8} (inside : closeBracket ∉ front)
    (nulFree : 0 ∉ (front ++ rest).takeWhile (· ≠ closeBracket)) :
    0 ∉ front ∧ 0 ∉ rest.takeWhile (· ≠ closeBracket) := by
  rwa [takeWhile_front inside, List.mem_append, not_or] at nulFree

theorem nulFree_of_split {stream consumed rest : List UInt8} (nulFree : NulFree stream)
    (split : stream = openBracket :: consumed ++ rest) (closed : closeBracket ∈ consumed) :
    0 ∉ consumed.takeWhile (· ≠ closeBracket) := by
  obtain ⟨list, tail, same, inside⟩ := List.eq_append_cons_of_mem closed
  have through (later : List UInt8) : (list ++ closeBracket :: later).takeWhile (· ≠ closeBracket) = list := by
    rw [takeWhile_front inside, List.takeWhile_cons_of_neg (by simp), List.append_nil]
  have front : stream = openBracket :: (list ++ closeBracket :: (tail ++ rest)) := by
    rw [split, same, List.cons_append, List.append_assoc, List.cons_append]
  have free := nulFree (front ▸ by simp)
  rw [front, List.takeWhile_cons_of_pos (by decide), through] at free
  rw [same, through]
  exact fun member => free (List.mem_cons_of_mem _ member)

theorem token_of_item {item : List UInt8} (kept : Item item) (noNul : 0 ∉ item) :
    ∃ token : Token, token.text.bytes = item ∧ CString.ofBytes item = token.text := by
  refine ⟨⟨⟨item, noNul⟩, kept.1, kept.2⟩, rfl, ?_⟩
  exact ofBytes_bytes ⟨item, noNul⟩

theorem closeBracket_not_mem {item : List UInt8} (kept : Item item) : closeBracket ∉ item :=
  fun member => (kept.2 _ member).2.2.2 rfl

theorem item_of_token (token : Token) : Item token.text.bytes := ⟨token.fits, token.plain⟩

theorem pair_of_accepted {pair : CString × CString} {here : List UInt8} (accepted : AcceptedPair pair here)
    (noNul : 0 ∉ here) :
    ∃ tokens : Token × Token, here = pairText tokens.1.text.bytes tokens.2.text.bytes ∧ pair = texts tokens := by
  cases accepted with
  | @pair key value item item' =>
    have parts : 0 ∉ key ∧ 0 ∉ value := by
      rw [pairText] at noNul
      simp only [List.mem_append, List.mem_cons, not_or] at noNul
      exact ⟨noNul.1, noNul.2.2.1⟩
    obtain ⟨first, same, text⟩ := token_of_item item parts.1
    obtain ⟨second, same', text'⟩ := token_of_item item' parts.2
    exact ⟨(first, second), by rw [same, same'], by rw [text, text']; rfl⟩

theorem closeBracket_not_mem_pair {pair : CString × CString} {here : List UInt8} (accepted : AcceptedPair pair here) :
    closeBracket ∉ here := by
  cases accepted with
  | @pair key value item item' =>
    have parts := And.intro (closeBracket_not_mem item) (closeBracket_not_mem item')
    simp only [pairText, List.mem_append, List.mem_cons, List.not_mem_nil, or_false, not_or]
    exact ⟨parts.1, by decide, parts.2, by decide⟩

/-! The loop of `parse_read_delete`. -/

section Keys
variable {room : Nat} {keys : List CString} {consumed : List UInt8}

theorem closing_of_end {ending : List UInt8} (ends : AcceptedEnd room ending) :
    Closing (closeBracket :: ending) ∧ 1 < room := by
  cases ends with
  | ending ends =>
    have closing := ends.imp (congrArg fun ch => [closeBracket, ch]) (congrArg fun ch => [closeBracket, ch])
    exact ⟨closing, by omega⟩

theorem end_of_closing {ending : List UInt8} (closing : Closing ending) (room : Nat) :
    ∃ tail, ending = closeBracket :: tail ∧ AcceptedEnd (room + 2) tail := by
  rcases closing with same | same
  · exact ⟨_, same, .ending (.inl rfl)⟩
  · exact ⟨_, same, .ending (.inr rfl)⟩

theorem closeBracket_mem_keys (accepted : AcceptedKeys room keys consumed) : closeBracket ∈ consumed := by
  induction accepted with
  | last item ends => exact List.mem_append_right _ List.mem_cons_self
  | more item later ih => exact List.mem_append_right _ (List.mem_cons_of_mem _ ih)

theorem intercalate_more (first second : Token) (others : List Token) :
    List.intercalate [comma] ((first :: second :: others).map fun key => key.text.bytes) =
      first.text.bytes ++ comma :: List.intercalate [comma] ((second :: others).map fun key => key.text.bytes) := by
  simp only [List.map_cons, List.intercalate_cons_cons, List.append_assoc, List.singleton_append]

theorem acceptedKeys_fewer (accepted : AcceptedKeys room keys consumed) : keys.length < room := by
  induction accepted with
  | last item ends => exact (closing_of_end ends).2
  | more item later ih => exact Nat.succ_lt_succ ih

theorem tokens_of_acceptedKeys (accepted : AcceptedKeys room keys consumed)
    (nulFree : 0 ∉ consumed.takeWhile (· ≠ closeBracket)) :
    ∃ first others ending, keys = (first :: others).map Token.text ∧ Closing ending ∧
      consumed = List.intercalate [comma] ((first :: others).map fun key => key.text.bytes) ++ ending := by
  induction accepted with
  | @last room key ending item ends =>
    obtain ⟨noNul, _⟩ := nulFree_append (closeBracket_not_mem item) nulFree
    obtain ⟨token, same, text⟩ := token_of_item item noNul
    refine ⟨token, [], closeBracket :: ending, by rw [text]; rfl, (closing_of_end ends).1, ?_⟩
    rw [List.map_singleton, List.intercalate_singleton, same]
  | @more room key consumed keys item later ih =>
    obtain ⟨noNul, nulFree⟩ := nulFree_append (closeBracket_not_mem item) nulFree
    obtain ⟨_, nulFree⟩ := @nulFree_append [comma] _ (by decide) nulFree
    obtain ⟨token, same, text⟩ := token_of_item item noNul
    obtain ⟨first, others, ending, texts, closing, split⟩ := ih nulFree
    refine ⟨token, first :: others, ending, by rw [text, texts]; rfl, closing, ?_⟩
    rw [split, intercalate_more, same, List.append_assoc, List.cons_append]

theorem acceptedKeys_of_tokens (first : Token) (others : List Token) {ending : List UInt8} (closing : Closing ending)
    (fewer : (first :: others).length < room) :
    AcceptedKeys room ((first :: others).map Token.text)
      (List.intercalate [comma] ((first :: others).map fun key => key.text.bytes) ++ ending) := by
  induction others generalizing first room with
  | nil =>
    obtain ⟨room, same⟩ := Nat.exists_eq_add_of_lt fewer
    obtain ⟨tail, split, ends⟩ := end_of_closing closing room
    have accepted := AcceptedKeys.last (item_of_token first) ends
    rw [ofBytes_bytes] at accepted
    rw [List.map_singleton, List.map_singleton, List.intercalate_singleton, split, same]
    rwa [show [first].length + room + 1 = room + 1 + 1 by simp; omega]
  | cons second others ih =>
    obtain ⟨room, same⟩ := Nat.exists_eq_succ_of_ne_zero (Nat.ne_of_gt (Nat.zero_lt_of_lt fewer))
    subst same
    have accepted := AcceptedKeys.more (item_of_token first) (ih second (Nat.lt_of_succ_lt_succ fewer))
    rw [ofBytes_bytes] at accepted
    rwa [intercalate_more, List.append_assoc, List.cons_append]

theorem keys_returned_iff {max : Nat} {stream : List UInt8} (nulFree : NulFree stream) (keys : List CString) :
    (∃ rest, parseReadDelete max stream = some (some keys, rest)) ↔
      ∃ tokens, tokens.length < max ∧ keys = tokens.map Token.text ∧ KeyList tokens stream := by
  simp only [(parseReadDelete_describes max).accepted_iff]
  constructor
  · rintro ⟨rest, _, split, ⟨accepted⟩⟩
    have free := nulFree_of_split nulFree split (closeBracket_mem_keys accepted)
    obtain ⟨first, others, ending, texts, closing, same⟩ := tokens_of_acceptedKeys accepted free
    have fewer := acceptedKeys_fewer accepted
    rw [texts, List.length_map] at fewer
    exact ⟨first :: others, fewer, texts, List.cons_ne_nil first others, ending, rest, closing, by rw [split, same]⟩
  · rintro ⟨tokens, fewer, same, some, ending, rest, closing, split⟩
    obtain ⟨first, others, cons⟩ := List.exists_cons_of_ne_nil some
    subst same cons
    exact ⟨rest, _, split, .after (acceptedKeys_of_tokens first others closing fewer)⟩

end Keys

/-! The loop of `parse_write`. -/

section Pairs
variable {room : Nat} {pairs : List (CString × CString)} {consumed : List UInt8}

theorem closeBracket_mem_pairs (accepted : AcceptedPairs room pairs consumed) : closeBracket ∈ consumed := by
  induction accepted with
  | last first ends => exact List.mem_append_right _ List.mem_cons_self
  | more first later ih => exact List.mem_append_right _ (List.mem_cons_of_mem _ ih)

theorem acceptedPairs_fewer (accepted : AcceptedPairs room pairs consumed) : pairs.length < room := by
  induction accepted with
  | last first ends => exact (closing_of_end ends).2
  | more first later ih => exact Nat.succ_lt_succ ih

theorem tokens_of_acceptedPairs (accepted : AcceptedPairs room pairs consumed)
    (nulFree : 0 ∉ consumed.takeWhile (· ≠ closeBracket)) :
    ∃ first others ending, pairs = (first :: others).map texts ∧ Closing ending ∧
      openParen :: consumed = (first :: others).flatMap renderPair ++ ending := by
  induction accepted with
  | @last room pair here ending first ends =>
    obtain ⟨noNul, _⟩ := nulFree_append (closeBracket_not_mem_pair first) nulFree
    obtain ⟨tokens, same, text⟩ := pair_of_accepted first noNul
    refine ⟨tokens, [], closeBracket :: ending, by rw [text]; rfl, (closing_of_end ends).1, ?_⟩
    rw [same, List.flatMap_singleton]
    rfl
  | @more room pair pairs here consumed first later ih =>
    obtain ⟨noNul, nulFree⟩ := nulFree_append (closeBracket_not_mem_pair first) nulFree
    obtain ⟨_, nulFree⟩ := @nulFree_append [openParen] _ (by decide) nulFree
    obtain ⟨tokens, same, text⟩ := pair_of_accepted first noNul
    obtain ⟨second, others, ending, texts, closing, split⟩ := ih nulFree
    refine ⟨tokens, second :: others, ending, by rw [text, texts]; rfl, closing, ?_⟩
    rw [List.flatMap_cons, List.append_assoc, ← split, same]
    rfl

theorem acceptedPair_of_tokens (tokens : Token × Token) :
    AcceptedPair (texts tokens) (pairText tokens.1.text.bytes tokens.2.text.bytes) := by
  have accepted := AcceptedPair.pair (item_of_token tokens.1) (item_of_token tokens.2)
  rwa [ofBytes_bytes, ofBytes_bytes] at accepted

theorem acceptedPairs_of_tokens (first : Token × Token) (others : List (Token × Token)) {ending : List UInt8}
    (closing : Closing ending) (fewer : (first :: others).length < room) :
    ∃ consumed, openParen :: consumed = (first :: others).flatMap renderPair ++ ending ∧
      AcceptedPairs room ((first :: others).map texts) consumed := by
  induction others generalizing first room with
  | nil =>
    obtain ⟨room, same⟩ := Nat.exists_eq_add_of_lt fewer
    obtain ⟨tail, split, ends⟩ := end_of_closing closing room
    refine ⟨pairText first.1.text.bytes first.2.text.bytes ++ closeBracket :: tail, ?_, ?_⟩
    · rw [split, List.flatMap_singleton]
      rfl
    · rw [same, show [first].length + room + 1 = room + 1 + 1 by simp; omega]
      exact .last (acceptedPair_of_tokens first) ends
  | cons second others ih =>
    obtain ⟨room, same⟩ := Nat.exists_eq_succ_of_ne_zero (Nat.ne_of_gt (Nat.zero_lt_of_lt fewer))
    subst same
    obtain ⟨consumed, split, later⟩ := ih second (Nat.lt_of_succ_lt_succ fewer)
    refine ⟨pairText first.1.text.bytes first.2.text.bytes ++ openParen :: consumed, ?_, ?_⟩
    · rw [List.flatMap_cons, List.append_assoc, ← split]
      rfl
    · exact .more (acceptedPair_of_tokens first) later

theorem pairs_returned_iff {max : Nat} {stream : List UInt8} (nulFree : NulFree stream)
    (pairs : List (CString × CString)) :
    (∃ rest, parseWrite max stream = some (some pairs, rest)) ↔
      ∃ tokens, tokens.length < max ∧ pairs = tokens.map texts ∧ PairList tokens stream := by
  simp only [(parseWrite_describes max).accepted_iff]
  constructor
  · rintro ⟨rest, _, split, ⟨⟨accepted⟩⟩⟩
    have closed := List.mem_cons_of_mem openParen (closeBracket_mem_pairs accepted)
    obtain ⟨_, free⟩ := @nulFree_append [openParen] _ (by decide) (nulFree_of_split nulFree split closed)
    obtain ⟨first, others, ending, texts, closing, same⟩ := tokens_of_acceptedPairs accepted free
    have fewer := acceptedPairs_fewer accepted
    rw [texts, List.length_map] at fewer
    exact ⟨first :: others, fewer, texts, List.cons_ne_nil first others, ending, rest, closing, by rw [split, same]⟩
  · rintro ⟨tokens, fewer, same, some, ending, rest, closing, split⟩
    obtain ⟨first, others, cons⟩ := List.exists_cons_of_ne_nil some
    subst same cons
    obtain ⟨consumed, same, accepted⟩ := acceptedPairs_of_tokens first others closing fewer
    rw [← same] at split
    exact ⟨rest, _, split, .after (.after accepted)⟩

end Pairs

/-! Lists of all lengths up to the maximum. -/

section Lists
variable {max : Nat} {stream : List UInt8}

/-- A list of as many items as there is room for is refused. -/
theorem full_keys_refused {tokens : List Token} (list : KeyList tokens stream) (full : tokens.length = max) :
    ¬KeysParsed max stream := by
  intro parsed
  obtain ⟨rest, returned⟩ := (parsed _).mpr ⟨tokens, full.le, rfl, list⟩
  obtain ⟨_, _, ⟨accepted⟩⟩ := (parseReadDelete_describes max).accepted_iff.mp returned
  have fewer := acceptedKeys_fewer accepted
  rw [List.length_map, full] at fewer
  exact Nat.lt_irrefl max fewer

theorem full_pairs_refused {tokens : List (Token × Token)} (list : PairList tokens stream)
    (full : tokens.length = max) : ¬PairsParsed max stream := by
  intro parsed
  obtain ⟨rest, returned⟩ := (parsed _).mpr ⟨tokens, full.le, rfl, list⟩
  obtain ⟨_, _, ⟨⟨accepted⟩⟩⟩ := (parseWrite_describes max).accepted_iff.mp returned
  have fewer := acceptedPairs_fewer accepted
  rw [List.length_map, full] at fewer
  exact Nat.lt_irrefl max fewer

/-- The list parsers accept exactly their grammar on the streams that do not start with a
list of exactly `max` items. -/
theorem lists_parsed_iff (nulFree : NulFree stream) :
    (PairsParsed max stream ↔ ∀ tokens, PairList tokens stream → tokens.length ≠ max) ∧
    (KeysParsed max stream ↔ ∀ tokens, KeyList tokens stream → tokens.length ≠ max) := by
  constructor
  · constructor
    · exact fun parsed tokens list full => full_pairs_refused list full parsed
    · intro fewer pairs
      rw [pairs_returned_iff nulFree]
      apply exists_congr
      intro tokens
      apply and_congr_left
      intro list
      exact Nat.lt_iff_le_and_ne.trans (and_iff_left (fewer tokens list.2))
  · constructor
    · exact fun parsed tokens list full => full_keys_refused list full parsed
    · intro fewer keys
      rw [keys_returned_iff nulFree]
      apply exists_congr
      intro tokens
      apply and_congr_left
      intro list
      exact Nat.lt_iff_le_and_ne.trans (and_iff_left (fewer tokens list.2))

end Lists

/-- One key, and room for two. -/
theorem lists_parsed_of_one_key :
    (PairsParsed 2 (text "[a]\n") ↔ ∀ tokens, PairList tokens (text "[a]\n") → tokens.length ≠ 2) ∧
    (KeysParsed 2 (text "[a]\n") ↔ ∀ tokens, KeyList tokens (text "[a]\n") → tokens.length ≠ 2) :=
  lists_parsed_iff (by decide)

theorem item_a : Item [97] := by decide

theorem noNul_a : (0 : UInt8) ∉ [97] := by decide

def keyA : Token := ⟨⟨[97], noNul_a⟩, item_a.1, item_a.2⟩

/-- As many keys as `run_job` has rows for. -/
theorem full_list_refused :
    ¬KeysParsed MAX_WRITE_SIZE (renderKeys (List.replicate MAX_WRITE_SIZE keyA) ++ [newline]) := by
  have some : 0 < (List.replicate MAX_WRITE_SIZE keyA).length := by
    rw [List.length_replicate]
    decide
  have list : KeyList (List.replicate MAX_WRITE_SIZE keyA)
      (renderKeys (List.replicate MAX_WRITE_SIZE keyA) ++ [newline]) := by
    refine ⟨List.ne_nil_of_length_pos some, [closeBracket, newline], [], .inl rfl, ?_⟩
    simp [renderKeys]
  exact full_keys_refused list List.length_replicate

end IstKvs.ListGrammar
