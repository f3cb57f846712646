/-
A ring buffer of fixed capacity: a backing array, the place of the oldest element, the place of the next one, and how
many there are. A ring that does not fit its own counters cannot be built.

- `Ring.write`: as many elements as there is room for, in at most two pieces.
- `Ring.read`: up to a number of the oldest elements, in at most two pieces.
- `write_contents`, `read_contents`: the ring is a queue; what is written is appended to its contents, what is read is
  their front.
-/
import Mathlib.Tactic

namespace EspectralClient.Lib

/-- The backing array is indexed below `cap` only (`wrap_lt`). -/
structure Ring (α : Type*) (cap : ℕ) where
  buffer : ℕ → α
  head : ℕ
  tail : ℕ
  count : ℕ
  head_lt : head < cap
  count_le : count ≤ cap
  tail_eq : tail = (head + count) % cap

namespace Ring

variable {α : Type*} {cap : ℕ}

/-- the elements, oldest first -/
def contents (r : Ring α cap) : List α := (List.range r.count).map fun i => r.buffer ((r.head + i) % cap)

/-- the elements from a place on -/
def slice (buffer : ℕ → α) (pos n : ℕ) : List α := (List.range n).map fun i => buffer (pos + i)

/-- the array with the elements copied in from a place on -/
def blit (buffer : ℕ → α) (pos : ℕ) (src : List α) : ℕ → α :=
  fun i => if pos ≤ i then (src[i - pos]?).getD (buffer i) else buffer i

theorem tail_lt (r : Ring α cap) : r.tail < cap := by
  rw [r.tail_eq]
  exact Nat.mod_lt _ (Nat.zero_lt_of_lt r.head_lt)

theorem write_count_le (r : Ring α cap) (len : ℕ) : r.count + min len (cap - r.count) ≤ cap := by
  have hcount := r.count_le
  omega

theorem write_tail_eq (r : Ring α cap) (n : ℕ) : (r.tail + n) % cap = (r.head + (r.count + n)) % cap := by
  rw [r.tail_eq, Nat.mod_add_mod, Nat.add_assoc]

theorem read_head_lt (r : Ring α cap) (n : ℕ) : (r.head + n) % cap < cap :=
  Nat.mod_lt _ (Nat.zero_lt_of_lt r.head_lt)

theorem read_count_le (r : Ring α cap) (n : ℕ) : r.count - n ≤ cap := (Nat.sub_le _ _).trans r.count_le

theorem read_tail_eq (r : Ring α cap) (len : ℕ) :
    r.tail = ((r.head + min len r.count) % cap + (r.count - min len r.count)) % cap := by
  rw [r.tail_eq, Nat.mod_add_mod]
  congr 1
  omega

/-- how many were written, and the ring with them -/
def write (r : Ring α cap) (src : List α) : ℕ × Ring α cap :=
  let n := min src.length (cap - r.count)
  let first := min n (cap - r.tail)
  let buffer := blit r.buffer r.tail (src.take first)
  let buffer := if first < n then blit buffer 0 ((src.take n).drop first) else buffer
  (n, { buffer := buffer, head := r.head, tail := (r.tail + n) % cap, count := r.count + n, head_lt := r.head_lt,
        count_le := r.write_count_le src.length, tail_eq := r.write_tail_eq n })

/-- what was read, and the ring without it -/
def read (r : Ring α cap) (len : ℕ) : List α × Ring α cap :=
  let n := min len r.count
  let first := min n (cap - r.head)
  let front := slice r.buffer r.head first
  (if first < n then front ++ slice r.buffer 0 (n - first) else front,
    { buffer := r.buffer, head := (r.head + n) % cap, tail := r.tail, count := r.count - n,
      head_lt := r.read_head_lt n, count_le := r.read_count_le n, tail_eq := r.read_tail_eq len })

def clear (r : Ring α cap) : Ring α cap :=
  { buffer := r.buffer, head := 0, tail := 0, count := 0, head_lt := Nat.zero_lt_of_lt r.head_lt,
    count_le := Nat.zero_le cap, tail_eq := (Nat.zero_mod cap).symm }

def room (r : Ring α cap) : ℕ := cap - r.count

/-! ## The queue -/

@[simp] theorem contents_length (r : Ring α cap) : r.contents.length = r.count := by
  simp [contents]

@[simp] theorem contents_clear (r : Ring α cap) : r.clear.contents = [] := rfl

theorem contents_eq_nil_iff (r : Ring α cap) : r.contents = [] ↔ r.count = 0 := by
  rw [← List.length_eq_zero_iff, contents_length]

/-- a place and at most one turn further -/
theorem wrap {a b : ℕ} (ha : a < cap) (hb : b ≤ cap) :
    (a + b) % cap = if a + b < cap then a + b else a + b - cap := by
  split_ifs with h
  · exact Nat.mod_eq_of_lt h
  · rw [Nat.mod_eq_sub_mod (by omega), Nat.mod_eq_of_lt (by omega)]

theorem blit_at {buffer : ℕ → α} {pos : ℕ} {src : List α} {k : ℕ} (hk : k < src.length) :
    blit buffer pos src (pos + k) = src[k] := by
  rw [blit, if_pos (Nat.le_add_right _ _), Nat.add_sub_cancel_left, List.getElem?_eq_getElem hk, Option.getD_some]

theorem blit_outside {buffer : ℕ → α} {pos : ℕ} {src : List α} {i : ℕ} (hi : i < pos ∨ pos + src.length ≤ i) :
    blit buffer pos src i = buffer i := by
  rw [blit]
  split_ifs with h
  · rw [List.getElem?_eq_none (by omega), Option.getD_none]
  · rfl

/-- the array after a write -/
def written (r : Ring α cap) (src : List α) : ℕ → α := (r.write src).2.buffer

/-- each written element stands where the tail was, so many places further -/
theorem written_new (r : Ring α cap) {src : List α} {k : ℕ} (hk : k < min src.length (cap - r.count)) :
    r.written src ((r.tail + k) % cap) = src[k] := by
  have htail := r.tail_lt
  simp only [written, write]
  rw [wrap htail (by omega)]
  split_ifs with hsplit hturn hturn
  · rw [blit_outside (by simp; omega)]
    exact (blit_at (by simp; omega)).trans (List.getElem_take ..)
  · have hplace : r.tail + k - cap = 0 + (r.tail + k - cap) := (Nat.zero_add _).symm
    rw [hplace, blit_at (by simp; omega), List.getElem_drop, List.getElem_take]
    congr 1
    omega
  · exact (blit_at (by simp; omega)).trans (List.getElem_take ..)
  · omega

/-- no element of the queue is overwritten -/
theorem written_old (r : Ring α cap) {src : List α} {i : ℕ} (hi : i < r.count) :
    r.written src ((r.head + i) % cap) = r.buffer ((r.head + i) % cap) := by
  have hhead := r.head_lt
  have hcount := r.count_le
  have htail := r.tail_eq
  rw [wrap hhead hcount] at htail
  simp only [written, write]
  rw [wrap hhead (by omega)]
  split_ifs with hsplit hturn hturn
  all_goals
    split_ifs at htail
  all_goals
    first
    | omega
    | rw [blit_outside (by simp; omega), blit_outside (by simp; omega)]
    | rw [blit_outside (by simp; omega)]

theorem write_contents (r : Ring α cap) (src : List α) :
    (r.write src).2.contents = r.contents ++ src.take (min src.length (cap - r.count)) := by
  refine List.ext_getElem (by simp [write]) fun i hi _ => ?_
  have hlen : i < r.count + min src.length (cap - r.count) := by simpa [write] using hi
  have hcell : (r.write src).2.contents[i] = r.written src ((r.head + i) % cap) := by
    simp [contents, written, write]
  rw [hcell]
  by_cases hold : i < r.count
  · rw [written_old r hold, List.getElem_append_left (by simpa using hold)]
    simp [contents]
  · obtain ⟨k, rfl⟩ := Nat.exists_eq_add_of_le (Nat.le_of_not_lt hold)
    have hplace : (r.head + (r.count + k)) % cap = (r.tail + k) % cap := (r.write_tail_eq k).symm
    rw [hplace, written_new r (by omega), List.getElem_append_right (by simp)]
    simp

theorem write_fst (r : Ring α cap) (src : List α) : (r.write src).1 = min src.length r.room := rfl

/-- the ring takes what it says it takes -/
theorem write_append (r : Ring α cap) (src : List α) :
    (r.write src).2.contents ++ src.drop (r.write src).1 = r.contents ++ src := by
  rw [write_contents, write_fst, room, List.append_assoc, List.take_append_drop]

theorem read_front (r : Ring α cap) (len : ℕ) : (r.read len).1 = r.contents.take len := by
  have hhead := r.head_lt
  have hcount := r.count_le
  have htake : r.contents.take len =
      (List.range (min len r.count)).map fun i => r.buffer ((r.head + i) % cap) := by
    rw [contents, ← List.map_take, List.take_range]
  rw [htake]
  simp only [read]
  split_ifs with hsplit
  · have hrange : List.range (min len r.count) = List.range (min (min len r.count) (cap - r.head)) ++
        (List.range (min len r.count - min (min len r.count) (cap - r.head))).map
          (min (min len r.count) (cap - r.head) + ·) := by
      rw [← List.range_add]
      congr 1
      omega
    rw [hrange, List.map_append, List.map_map]
    refine congrArg₂ _ (List.map_congr_left fun i hi => ?_) (List.map_congr_left fun i hi => ?_)
    · rw [List.mem_range] at hi
      rw [Nat.mod_eq_of_lt (by omega)]
    · rw [List.mem_range] at hi
      rw [Function.comp_apply, wrap hhead (by omega), if_neg (by omega)]
      congr 1
      omega
  · have hfirst : min (min len r.count) (cap - r.head) = min len r.count := by omega
    rw [hfirst]
    refine List.map_congr_left fun i hi => ?_
    rw [List.mem_range] at hi
    rw [Nat.mod_eq_of_lt (by omega)]

theorem read_contents (r : Ring α cap) (len : ℕ) : (r.read len).2.contents = r.contents.drop len := by
  refine List.ext_getElem (by simp [read]; omega) fun i hi hi' => ?_
  simp only [contents, read, List.getElem_map, List.getElem_range, List.getElem_drop, Nat.mod_add_mod]
  congr 2
  have : i < r.count - min len r.count := by simpa [read] using hi
  omega

/-- nothing is lost or repeated by a read -/
theorem read_append (r : Ring α cap) (len : ℕ) : (r.read len).1 ++ (r.read len).2.contents = r.contents := by
  rw [read_front, read_contents, List.take_append_drop]

end Ring

end EspectralClient.Lib
