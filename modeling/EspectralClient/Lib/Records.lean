/-
Records of a stream that end in a stop, when the stream arrives piece by piece.

- `records`, `remainder`: the complete records, each with its stop, and what is left after the last of them, with `held`
  in front of the first.
- `records_append`, `remainder_append`: reading a stream in two pieces is reading the second with the remainder of the
  first held, so no cut changes the records.
- `records_findIdx`, `records_none`: a piece with a stop completes the held record at the first one; a piece without any
  is held whole.
-/
import Mathlib.Tactic

namespace EspectralClient.Lib

section Records

variable {α : Type*} (stop : α → Bool)

/-- the complete records of a stream, each with its stop, when `held` came before it -/
def records (held : List α) : List α → List (List α)
  | [] => []
  | x :: xs => if stop x then (held ++ [x]) :: records [] xs else records (held ++ [x]) xs

/-- what no stop has completed -/
def remainder (held : List α) : List α → List α
  | [] => held
  | x :: xs => if stop x then remainder [] xs else remainder (held ++ [x]) xs

@[simp] theorem records_nil (held : List α) : records stop held [] = [] := rfl

@[simp] theorem remainder_nil (held : List α) : remainder stop held [] = held := rfl

theorem records_append (held xs ys : List α) :
    records stop held (xs ++ ys) = records stop held xs ++ records stop (remainder stop held xs) ys := by
  induction xs generalizing held with
  | nil => rfl
  | cons x xs ih =>
    simp only [List.cons_append, records, remainder]
    split
    · rw [ih, List.cons_append]
    · exact ih _

theorem remainder_append (held xs ys : List α) :
    remainder stop held (xs ++ ys) = remainder stop (remainder stop held xs) ys := by
  induction xs generalizing held with
  | nil => rfl
  | cons x xs ih =>
    simp only [List.cons_append, remainder]
    split
    · exact ih _
    · exact ih _

variable {stop}

theorem records_none {held xs : List α} (h : xs.findIdx? stop = none) : records stop held xs = [] := by
  induction xs generalizing held with
  | nil => rfl
  | cons x xs ih =>
    have hx := List.findIdx?_eq_none_iff.1 h
    rw [records, if_neg (by simp [hx x List.mem_cons_self])]
    exact ih (List.findIdx?_eq_none_iff.2 fun y hy => hx y (List.mem_cons_of_mem x hy))

theorem remainder_none {held xs : List α} (h : xs.findIdx? stop = none) : remainder stop held xs = held ++ xs := by
  induction xs generalizing held with
  | nil => simp
  | cons x xs ih =>
    have hx := List.findIdx?_eq_none_iff.1 h
    rw [remainder, if_neg (by simp [hx x List.mem_cons_self]),
      ih (List.findIdx?_eq_none_iff.2 fun y hy => hx y (List.mem_cons_of_mem x hy)), List.append_assoc,
      List.singleton_append]

theorem records_findIdx {held xs : List α} {i : ℕ} (h : xs.findIdx? stop = some i) :
    records stop held xs = (held ++ xs.take (i + 1)) :: records stop [] (xs.drop (i + 1)) := by
  induction xs generalizing held i with
  | nil => cases h
  | cons x xs ih =>
    rw [List.findIdx?_cons] at h
    by_cases hx : stop x
    · rw [if_pos hx] at h
      cases h
      rw [records, if_pos hx]
      rfl
    · rw [if_neg hx] at h
      obtain ⟨j, hj, rfl⟩ := Option.map_eq_some_iff.1 h
      rw [records, if_neg hx, ih hj, List.append_assoc]
      rfl

theorem remainder_findIdx {held xs : List α} {i : ℕ} (h : xs.findIdx? stop = some i) :
    remainder stop held xs = remainder stop [] (xs.drop (i + 1)) := by
  induction xs generalizing held i with
  | nil => cases h
  | cons x xs ih =>
    rw [List.findIdx?_cons] at h
    by_cases hx : stop x
    · rw [if_pos hx] at h
      cases h
      rw [remainder, if_pos hx]
      rfl
    · rw [if_neg hx] at h
      obtain ⟨j, hj, rfl⟩ := Option.map_eq_some_iff.1 h
      rw [remainder, if_neg hx]
      exact ih hj

end Records

end EspectralClient.Lib
