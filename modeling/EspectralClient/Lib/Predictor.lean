/-
Coding by differences: a row of values is sent as its differences from predictions, and a prediction is made of values
that the receiver has already, the one to the left, the one above and the one above to the left. The left one stands some
places back in the row.

- `differences`: the differences of a row.
- `restore`: the receiver's loop, which writes one value after another.
- `restore_differences`: whatever the prediction, the receiver has the row.
-/
import Mathlib.Data.List.GetD
import Mathlib.Tactic

namespace EspectralClient.Lib.Predictor

variable {α : Type*} [AddGroup α]

/-- the value `bpp` places back, or zero -/
def back (bpp : ℕ) (l : List α) (i : ℕ) : α := if bpp ≤ i then l.getD (i - bpp) 0 else 0

/-- the prediction for the place `i` -/
def predicted (pred : α → α → α → α) (bpp : ℕ) (prev row : List α) (i : ℕ) : α :=
  pred (back bpp row i) (prev.getD i 0) (back bpp prev i)

/-- what is sent of a row -/
def differences (pred : α → α → α → α) (bpp : ℕ) (prev row : List α) : List α :=
  (List.range row.length).map fun i => row.getD i 0 - predicted pred bpp prev row i

/-- one turn of the receiver -/
def restoreAt (pred : α → α → α → α) (bpp : ℕ) (prev sent out : List α) (i : ℕ) : List α :=
  out.set i (sent.getD i 0 + predicted pred bpp prev out i)

/-- the receiver's row, from one of the same length -/
def restore (pred : α → α → α → α) (bpp : ℕ) (prev sent out : List α) : List α :=
  (List.range out.length).foldl (restoreAt pred bpp prev sent) out

section Restore

variable (pred : α → α → α → α) (bpp : ℕ) (prev : List α)

@[simp] theorem length_differences (row : List α) : (differences pred bpp prev row).length = row.length := by
  simp [differences]

theorem differences_getD {row : List α} {i : ℕ} (h : i < row.length) :
    (differences pred bpp prev row).getD i 0 = row.getD i 0 - predicted pred bpp prev row i := by
  rw [differences, List.getD_eq_getElem _ _ (by simpa using h)]
  simp

/-- the first `k` values are there -/
structure Begun (row : List α) (k : ℕ) (out : List α) : Prop where
  length_eq : out.length = row.length
  same : ∀ i < k, out.getD i 0 = row.getD i 0

variable {bpp} in
theorem Begun.back {row out : List α} {k : ℕ} (h : Begun row k out) (hbpp : 0 < bpp) :
    back bpp out k = back bpp row k := by
  rw [Predictor.back, Predictor.back]
  split_ifs with hk
  · exact h.same (k - bpp) (by omega)
  · rfl

variable {bpp} in
/-- one turn gets one value more -/
theorem begun_restoreAt (hbpp : 0 < bpp) {row out : List α} {k : ℕ} (h : Begun row k out) (hk : k < row.length) :
    Begun row (k + 1) (restoreAt pred bpp prev (differences pred bpp prev row) out k) where
  length_eq := by rw [restoreAt, List.length_set, h.length_eq]
  same i hi := by
    have hset : (restoreAt pred bpp prev (differences pred bpp prev row) out k).getD i 0 =
        if k = i then row.getD k 0 else out.getD i 0 := by
      rw [restoreAt, differences_getD pred bpp prev hk, predicted, predicted, h.back hbpp, sub_add_cancel]
      simp only [List.getD_eq_getElem?_getD, List.getElem?_set]
      split_ifs with heq hlt
      · rfl
      · exact absurd (h.length_eq ▸ hk) hlt
      · rfl
    rw [hset]
    split_ifs with heq
    · rw [heq]
    · exact h.same i (by omega)

variable {bpp} in
theorem Begun.all {row out : List α} (h : Begun row row.length out) : out = row := by
  refine List.ext_getElem h.length_eq fun i hi hi' => ?_
  have hsame := h.same i hi'
  rwa [List.getD_eq_getElem _ _ hi, List.getD_eq_getElem _ _ hi'] at hsame

variable {bpp} in
/-- **The receiver has the row.** -/
theorem restore_differences (hbpp : 0 < bpp) {row out : List α} (hlength : out.length = row.length) :
    restore pred bpp prev (differences pred bpp prev row) out = row := by
  have hbegun : ∀ k ≤ row.length, Begun row k
      ((List.range k).foldl (restoreAt pred bpp prev (differences pred bpp prev row)) out) := by
    intro k
    induction k with
    | zero => exact fun _ => ⟨hlength, fun i hi => absurd hi (Nat.not_lt_zero i)⟩
    | succ k ih =>
      intro hk
      rw [List.range_succ, List.foldl_append]
      exact begun_restoreAt pred prev hbpp (ih (by omega)) hk
  rw [restore, hlength]
  exact (hbegun row.length le_rfl).all

end Restore

end EspectralClient.Lib.Predictor
