import Mathlib.Data.List.Basic

/-! Text in lines. Records that are printed through a buffer that cuts them off, and
readers that stand somewhere in a line and skip to its end. -/

namespace IstKvs.Lines

variable {α β : Type}

/-! Records cut off at a limit. -/

section Cut
variable {limit : Nat} {print : α → List β} {items : List α}

theorem length_flatMap_take_le (limit : Nat) (print : α → List β) (items : List α) :
    (items.flatMap fun item => (print item).take limit).length ≤ (items.flatMap print).length := by
  induction items with
  | nil => exact Nat.le_refl 0
  | cons item items ih =>
    rw [List.flatMap_cons, List.flatMap_cons, List.length_append, List.length_append]
    exact Nat.add_le_add (List.length_take_le' limit (print item)) ih

/-- The records come out whole exactly when each of them fits. -/
theorem flatMap_take_eq_iff :
    (items.flatMap fun item => (print item).take limit) = items.flatMap print ↔
      ∀ item ∈ items, (print item).length ≤ limit := by
  induction items with
  | nil => simp
  | cons item items ih =>
    rw [List.flatMap_cons, List.flatMap_cons, List.forall_mem_cons, ← ih]
    constructor
    · intro same
      have fits : (print item).length ≤ limit := by
        have lengths := congrArg List.length same
        have rest := length_flatMap_take_le limit print items
        rw [List.length_append, List.length_append, List.length_take] at lengths
        omega
      rw [List.take_of_length_le fits] at same
      exact ⟨fits, List.append_cancel_left same⟩
    · rintro ⟨fits, rest⟩
      rw [List.take_of_length_le fits, rest]

end Cut

/-! Words up to a mark. -/

/-- The first mark of a text splits it in one way. -/
theorem split_at_mark {mark : α} {first second rest rest' : List α} (plain : mark ∉ first)
    (plain' : mark ∉ second) (same : first ++ mark :: rest = second ++ mark :: rest') :
    first = second ∧ rest = rest' := by
  induction first generalizing second with
  | nil =>
    cases second with
    | nil => exact ⟨rfl, (List.cons.inj same).2⟩
    | cons other second => exact absurd (List.cons.inj same).1 (List.ne_of_not_mem_cons plain')
  | cons ch first ih =>
    cases second with
    | nil => exact absurd (List.cons.inj same).1.symm (List.ne_of_not_mem_cons plain)
    | cons other second =>
      obtain ⟨here, later⟩ := List.cons.inj same
      obtain ⟨words, rests⟩ := ih (List.not_mem_of_not_mem_cons plain) (List.not_mem_of_not_mem_cons plain') later
      exact ⟨by rw [here, words], rests⟩

/-- The last mark of a text splits it in one way. -/
theorem split_at_last_mark {mark : α} {front front' first second : List α} (plain : mark ∉ first)
    (plain' : mark ∉ second) (same : front ++ mark :: first = front' ++ mark :: second) :
    front = front' ∧ first = second := by
  have backwards := congrArg List.reverse same
  simp only [List.reverse_append, List.reverse_cons, List.append_assoc, List.singleton_append] at backwards
  have parts := split_at_mark (List.mem_reverse.not.mpr plain) (List.mem_reverse.not.mpr plain') backwards
  exact ⟨List.reverse_injective parts.2, List.reverse_injective parts.1⟩

theorem take_append_eq_iff (front first second : List α) (limit : Nat) :
    (front ++ first).take limit = (front ++ second).take limit ↔
      first.take (limit - front.length) = second.take (limit - front.length) := by
  rw [List.take_append, List.take_append, List.append_cancel_left_eq]

/-- Words with one end, cut off at a limit: they look alike when they are the same, or when
the cut leaves no mark. -/
theorem take_marked_eq_iff {mark : α} {first second : List α} (plain : mark ∉ first) (plain' : mark ∉ second)
    (rest : List α) (limit : Nat) :
    (first ++ mark :: rest).take limit = (second ++ mark :: rest).take limit ↔
      first = second ∨ limit ≤ first.length ∧ limit ≤ second.length ∧ first.take limit = second.take limit := by
  have whole {word : List α} (long : limit ≤ word.length) : (word ++ mark :: rest).take limit = word.take limit :=
    List.take_append_of_le_length long
  have marked {word : List α} (short : word.length < limit) :
      ∃ tail, (word ++ mark :: rest).take limit = word ++ mark :: tail := by
    obtain ⟨room, same⟩ := Nat.exists_eq_add_of_lt short
    refine ⟨rest.take room, ?_⟩
    rw [same, Nat.add_assoc, List.take_length_add_append, List.take_succ_cons]
  have unmarked {word other : List α} (none : mark ∉ other) {tail : List α}
      (same : other.take limit = word ++ mark :: tail) : False := by
    have member : mark ∈ other.take limit := same ▸ List.mem_append_right word List.mem_cons_self
    exact none (List.mem_of_mem_take member)
  constructor
  · intro same
    rcases Nat.lt_or_ge first.length limit with short | long
    · obtain ⟨tail, cut⟩ := marked short
      rw [cut] at same
      rcases Nat.lt_or_ge second.length limit with short' | long'
      · obtain ⟨tail', cut'⟩ := marked short'
        rw [cut'] at same
        exact .inl (split_at_mark plain plain' same).1
      · rw [whole long'] at same
        exact (unmarked plain' same.symm).elim
    · rw [whole long] at same
      rcases Nat.lt_or_ge second.length limit with short' | long'
      · obtain ⟨tail', cut'⟩ := marked short'
        rw [cut'] at same
        exact (unmarked plain same).elim
      · rw [whole long'] at same
        exact .inr ⟨long, long', same⟩
  · rintro (same | ⟨long, long', same⟩)
    · rw [same]
    · rw [whole long, whole long', same]

/-! What is left behind the first mark. -/

section Mark
variable [DecidableEq α] {mark : α} {front stream rest : List α}

/-- The text behind the first mark, if there is one. -/
def afterMark (mark : α) : List α → List α
  | [] => []
  | ch :: rest => if ch = mark then rest else afterMark mark rest

/-- `rest` stands exactly behind the first mark of the stream, or at its end. -/
def Behind (mark : α) (stream rest : List α) : Prop :=
  (∃ line, mark ∉ line ∧ stream = line ++ mark :: rest) ∨ mark ∉ stream ∧ rest = []

theorem afterMark_plain (plain : mark ∉ front) (rest : List α) :
    afterMark mark (front ++ rest) = afterMark mark rest := by
  induction front with
  | nil => rfl
  | cons ch front ih =>
    obtain ⟨other, plain⟩ := not_or.mp (List.mem_cons.not.mp plain)
    rw [List.cons_append, afterMark, if_neg (Ne.symm other), ih plain]

theorem afterMark_absent (plain : mark ∉ stream) : afterMark mark stream = [] := by
  have through := afterMark_plain plain []
  rwa [List.append_nil] at through

theorem behind_iff : Behind mark stream rest ↔ rest = afterMark mark stream := by
  constructor
  · rintro (⟨line, plain, split⟩ | ⟨plain, ended⟩)
    · rw [split, afterMark_plain plain, afterMark, if_pos rfl]
    · rw [ended, afterMark_absent plain]
  · intro same
    subst same
    by_cases member : mark ∈ stream
    · obtain ⟨line, later, split, plain⟩ := List.eq_append_cons_of_mem member
      have left : afterMark mark stream = later := by
        rw [split, afterMark_plain plain, afterMark, if_pos rfl]
      exact .inl ⟨line, plain, by rw [left, split]⟩
    · exact .inr ⟨member, afterMark_absent member⟩

omit [DecidableEq α] in
/-- What is behind a front is behind the first mark when the front is a line with its mark,
or there is no mark and nothing left. -/
theorem behind_append_iff : Behind mark (front ++ rest) rest ↔
    (∃ line, mark ∉ line ∧ front = line ++ [mark]) ∨ mark ∉ front ∧ rest = [] := by
  apply or_congr
  · apply exists_congr
    intro line
    rw [← List.singleton_append, ← List.append_assoc, List.append_cancel_right_eq]
  · apply and_congr_left
    intro ended
    rw [ended, List.append_nil]

theorem afterMark_suffix (mark : α) (stream : List α) : afterMark mark stream <:+ stream := by
  rcases behind_iff.mpr (Eq.refl (afterMark mark stream)) with ⟨line, _, split⟩ | ⟨_, ended⟩
  · exact ⟨line ++ [mark], by rw [List.append_assoc]; exact split.symm⟩
  · rw [ended]
    exact List.nil_suffix

theorem afterMark_shorter (mark : α) (stream : List α) :
    stream = [] ∨ (afterMark mark stream).length < stream.length := by
  cases stream with
  | nil => exact .inl rfl
  | cons ch rest =>
    refine .inr (Nat.lt_succ_of_le ?_)
    simp only [afterMark]
    split
    · exact Nat.le_refl _
    · exact (afterMark_suffix mark rest).length_le

/-- Skipping from a later place goes at least as far. -/
theorem afterMark_later (mark : α) (front rest : List α) :
    (afterMark mark rest).length ≤ (afterMark mark (front ++ rest)).length := by
  induction front with
  | nil => exact Nat.le_refl _
  | cons ch front ih =>
    rw [List.cons_append, afterMark]
    split
    · rw [List.length_append]
      exact Nat.le_add_left_of_le (afterMark_suffix mark rest).length_le
    · exact ih

/-- Skipping a line after the mark has been read skips the next one, if there is one. -/
theorem afterMark_eq_iff (front rest : List α) :
    afterMark mark rest = afterMark mark (front ++ rest) ↔
      mark ∉ front ∨ afterMark mark (front ++ rest) = [] := by
  constructor
  · intro same
    by_contra neither
    obtain ⟨member, more⟩ := not_or.mp neither
    obtain ⟨line, later, split, plain⟩ := List.eq_append_cons_of_mem (not_not.mp member)
    have left : afterMark mark (front ++ rest) = later ++ rest := by
      rw [split, List.append_assoc, List.cons_append, afterMark_plain plain, afterMark, if_pos rfl]
    rw [left] at same more
    have lengths := congrArg List.length same
    rw [List.length_append] at lengths
    rcases afterMark_shorter mark rest with ended | shorter
    · subst ended
      rw [← same] at more
      exact more rfl
    · omega
  · rintro (plain | ended)
    · exact (afterMark_plain plain rest).symm
    · have bound := afterMark_later mark front rest
      rw [ended] at bound ⊢
      exact List.eq_nil_of_length_eq_zero (Nat.le_zero.mp bound)

/-- Skipping two lines is skipping one only when nothing is left behind the first. -/
theorem afterMark_twice_iff (front rest : List α) :
    afterMark mark (afterMark mark rest) = afterMark mark (front ++ rest) ↔
      afterMark mark (front ++ rest) = [] := by
  have bound := afterMark_later mark front rest
  constructor
  · intro same
    rcases afterMark_shorter mark (afterMark mark rest) with ended | shorter
    · rw [← same, ended]
      rfl
    · rw [same] at shorter
      omega
  · intro ended
    rw [ended] at bound ⊢
    rw [List.eq_nil_of_length_eq_zero (Nat.le_zero.mp bound)]
    rfl

end Mark

end IstKvs.Lines
