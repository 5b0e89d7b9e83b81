import Mathlib.Data.List.TakeWhile

/-! Terminated strings at fixed offsets of an array that is not cleared before it is
filled. What follows the terminator is whatever the array held. -/

namespace IstKvs.Fields

variable {α : Type}

/-- The array with `data` written from `offset` on. -/
def splice (array : List α) (offset : Nat) (data : List α) : List α :=
  array.take offset ++ data ++ array.drop (offset + data.length)

variable {array data word : List α} {offset place : Nat}

theorem length_splice (inside : offset + data.length ≤ array.length) :
    (splice array offset data).length = array.length := by
  simp only [splice, List.length_append, List.length_take, List.length_drop]
  omega

theorem drop_splice (inside : offset ≤ array.length) :
    (splice array offset data).drop offset = data ++ array.drop (offset + data.length) := by
  unfold splice
  rw [List.append_assoc]
  exact List.drop_left' (List.length_take_of_le inside)

/-- Two writes in a row are one. -/
theorem splice_splice (inside : offset ≤ array.length) (more : List α) :
    splice (splice array offset data) (offset + data.length) more = splice array offset (data ++ more) := by
  have front : (array.take offset ++ data).length = offset + data.length := by
    rw [List.length_append, List.length_take_of_le inside]
  have kept : (splice array offset data).drop (offset + data.length + more.length) =
      array.drop (offset + data.length + more.length) := by
    rw [← List.drop_drop, splice, List.drop_left' front, List.drop_drop]
  have written : (splice array offset data).take (offset + data.length) = array.take offset ++ data := by
    rw [splice, List.take_left' front]
  show (splice array offset data).take _ ++ more ++ (splice array offset data).drop _ = _
  rw [kept, written, splice, List.length_append, Nat.add_assoc]
  simp only [List.append_assoc]

theorem splice_nil (array : List α) (offset : Nat) : splice array offset [] = array := by
  simp [splice]

/-- `word` and its terminator stand in the array from `offset` on. -/
def StartsAt (terminator : α) (array : List α) (offset : Nat) (word : List α) : Prop :=
  ∃ rest, array.drop offset = word ++ terminator :: rest

variable {terminator : α}

theorem startsAt_splice (inside : offset ≤ array.length) :
    StartsAt terminator (splice array offset (word ++ [terminator])) offset word :=
  ⟨array.drop (offset + (word ++ [terminator]).length), by rw [drop_splice inside]; simp⟩

/-- Writing behind the terminator leaves the string as it is. -/
theorem StartsAt.splice_after (starts : StartsAt terminator array offset word)
    (after : offset + word.length < place) (inside : place ≤ array.length) :
    StartsAt terminator (splice array place data) offset word := by
  obtain ⟨rest, found⟩ := starts
  obtain ⟨more, later⟩ := Nat.exists_eq_add_of_lt after
  have kept : (array.take place).drop offset = word ++ terminator :: rest.take more := by
    rw [List.drop_take, found, show place - offset = word.length + (more + 1) by omega,
      List.take_length_add_append, List.take_succ_cons]
  have reached : offset ≤ (array.take place).length := by
    rw [List.length_take]
    omega
  refine ⟨rest.take more ++ (data ++ array.drop (place + data.length)), ?_⟩
  unfold splice
  rw [List.append_assoc, List.drop_append_of_le_length reached, kept]
  simp

theorem StartsAt.lt_length (starts : StartsAt terminator array offset word) : offset < array.length := by
  obtain ⟨rest, found⟩ := starts
  by_contra beyond
  rw [List.drop_of_length_le (Nat.not_lt.mp beyond)] at found
  simp at found

theorem StartsAt.append (starts : StartsAt terminator array offset word) (more : List α) :
    StartsAt terminator (array ++ more) offset word := by
  have inside := starts.lt_length
  obtain ⟨rest, found⟩ := starts
  exact ⟨rest ++ more, by rw [List.drop_append_of_le_length inside.le, found]; simp⟩

theorem splice_first (array : List α) (first : α) : splice array 0 [first] = first :: array.drop 1 := by
  simp [splice]

theorem splice_cons (first : α) (array data : List α) (offset : Nat) :
    splice (first :: array) (offset + 1) data = first :: splice array offset data := by
  simp [splice, Nat.add_right_comm]

section Read
variable [DecidableEq α]

theorem differs_of_plain (plain : terminator ∉ word) : ∀ a ∈ word, (a != terminator) = true := by
  intro a member
  exact bne_iff_ne.mpr (fun same => plain (same ▸ member))

theorem takeWhile_of_terminated (plain : terminator ∉ word) (rest : List α) :
    (word ++ terminator :: rest).takeWhile (· != terminator) = word := by
  rw [List.takeWhile_append_of_pos (differs_of_plain plain)]
  simp

theorem StartsAt.whole (starts : StartsAt terminator array 0 word) (plain : terminator ∉ word) :
    array.takeWhile (· != terminator) = word := by
  obtain ⟨rest, found⟩ := starts
  rw [← List.drop_zero (l := array), found, takeWhile_of_terminated plain]

/-- A read of at least the length of the string finds it, also without its terminator. -/
theorem StartsAt.read (starts : StartsAt terminator array offset word) (plain : terminator ∉ word)
    {count : Nat} (fits : word.length ≤ count) :
    ((array.drop offset).take count).takeWhile (· != terminator) = word := by
  obtain ⟨rest, found⟩ := starts
  obtain ⟨more, same⟩ := Nat.exists_eq_add_of_le fits
  rw [found, same, List.take_length_add_append]
  cases more with
  | zero =>
    rw [List.take_zero, List.append_nil]
    exact List.takeWhile_eq_self_iff.mpr (differs_of_plain plain)
  | succ more => rw [List.take_succ_cons, takeWhile_of_terminated plain]

end Read

end IstKvs.Fields
