/-
The proleptic Gregorian calendar.

- `Date`: a day that there is; `Date.next`, the day after it; `Date.Before`, the order of days.
- `IsDay`: the date a number of days from a given one, in either direction.
- `isDay_of_next`: a numbering that goes from each date to the next is the calendar's.
- `before_of_next`: it is in order.
- `yearStart`: the days before a year that begins in March, so that a leap day is its last; `yearStart_unique`.
-/
import Mathlib.Tactic

namespace EspectralClient.Lib.Calendar

/-! ## Dates -/

def isLeap (y : ℤ) : Bool := y % 4 = 0 && (y % 100 ≠ 0 || y % 400 = 0)

def monthLength (leap : Bool) (m : ℕ) : ℕ :=
  if m = 2 then if leap then 29 else 28
  else if m = 4 ∨ m = 6 ∨ m = 9 ∨ m = 11 then 30
  else 31

theorem monthLength_pos (leap : Bool) (m : ℕ) : 1 ≤ monthLength leap m := by
  unfold monthLength
  split_ifs <;> decide

/-- a day that there is -/
@[ext]
structure Date where
  year : ℤ
  month : ℕ
  day : ℕ
  month_pos : 1 ≤ month
  month_le : month ≤ 12
  day_pos : 1 ≤ day
  day_le : day ≤ monthLength (isLeap year) month
deriving DecidableEq

/-- the day after -/
def Date.next (D : Date) : Date :=
  if hday : D.day < monthLength (isLeap D.year) D.month then
    ⟨D.year, D.month, D.day + 1, D.month_pos, D.month_le, Nat.le_add_left 1 D.day, hday⟩
  else if hmonth : D.month < 12 then
    ⟨D.year, D.month + 1, 1, Nat.le_add_left 1 D.month, hmonth, le_refl 1, monthLength_pos _ _⟩
  else ⟨D.year + 1, 1, 1, le_refl 1, Nat.le_add_left 1 11, le_refl 1, monthLength_pos _ _⟩

/-- the order of days -/
def Date.Before (D E : Date) : Prop :=
  D.year < E.year ∨ D.year = E.year ∧ (D.month < E.month ∨ D.month = E.month ∧ D.day < E.day)

theorem Date.Before.trans {D E F : Date} (h : D.Before E) (h' : E.Before F) : D.Before F := by
  unfold Before at *
  omega

theorem Date.Before.irrefl (D : Date) : ¬ D.Before D := by
  unfold Before
  omega

theorem Date.before_next (D : Date) : D.Before D.next := by
  unfold next Before
  split_ifs
  · exact Or.inr ⟨rfl, Or.inr ⟨rfl, Nat.lt_succ_self _⟩⟩
  · exact Or.inr ⟨rfl, Or.inl (Nat.lt_succ_self _)⟩
  · exact Or.inl (lt_add_one D.year)

/-! ## Numbered days -/

/-- `D` is `z` days after `epoch`, or as many before it as `z` is below zero -/
def IsDay (epoch : Date) (z : ℤ) (D : Date) : Prop :=
  (∃ n : ℕ, z = n ∧ Date.next^[n] epoch = D) ∨ ∃ n : ℕ, z = -n ∧ Date.next^[n] D = epoch

section Numbered

variable {f : ℤ → Date} {B : ℤ} (hnext : ∀ z, -B ≤ z → z < B → f (z + 1) = (f z).next)

include hnext

theorem iterate_next {z : ℤ} (n : ℕ) (hlow : -B ≤ z) (hhigh : z + n ≤ B) : Date.next^[n] (f z) = f (z + n) := by
  induction n with
  | zero => simp
  | succ n ih =>
    push_cast at hhigh ⊢
    rw [Function.iterate_succ_apply', ih (by omega), ← hnext _ (by omega) (by omega), add_assoc]

/-- **The calendar.** What goes from each date to the next numbers the days from the date at zero. -/
theorem isDay_of_next {z : ℤ} (hlow : -B ≤ z) (hhigh : z ≤ B) : IsDay (f 0) z (f z) := by
  rcases le_total 0 z with hz | hz
  · obtain ⟨n, rfl⟩ := Int.eq_ofNat_of_zero_le hz
    left
    refine ⟨n, rfl, ?_⟩
    rw [iterate_next hnext n (by omega) (by omega), zero_add]
  · obtain ⟨n, hn⟩ := Int.eq_ofNat_of_zero_le (neg_nonneg.2 hz)
    obtain rfl : z = -n := by omega
    right
    refine ⟨n, rfl, ?_⟩
    rw [iterate_next hnext n hlow (by omega), neg_add_cancel]

/-- **Order.** A later number is a later day. -/
theorem before_of_next {a b : ℤ} (ha : -B ≤ a) (hb : b ≤ B) (hab : a < b) : (f a).Before (f b) := by
  obtain ⟨n, rfl⟩ : ∃ n : ℕ, b = a + n + 1 := ⟨(b - a - 1).toNat, by omega⟩
  clear hab
  induction n with
  | zero =>
    push_cast at hb ⊢
    rw [add_zero, hnext a ha (by omega)]
    exact (f a).before_next
  | succ n ih =>
    push_cast at hb ⊢
    have hstep := hnext (a + n + 1) (by omega) (by omega)
    rw [← add_assoc, hstep]
    exact (ih (by omega)).trans (f (a + n + 1)).before_next

end Numbered

/-! ## Years from March -/

/-- the days from the first of March of the year zero to that of a year -/
def yearStart (y : ℤ) : ℤ := 365 * y + y / 4 - y / 100 + y / 400

theorem yearStart_succ (y : ℤ) : yearStart (y + 1) = yearStart y + (if isLeap (y + 1) then 366 else 365) := by
  simp only [yearStart, isLeap, Bool.and_eq_true, Bool.or_eq_true, decide_eq_true_eq, ne_eq]
  split_ifs <;> omega

theorem yearStart_lt {y y' : ℤ} (h : y < y') : yearStart y < yearStart y' := by
  apply strictMono_int_of_lt_succ _ h
  intro y
  rw [yearStart_succ]
  split_ifs <;> omega

theorem yearStart_unique {y y' z : ℤ} (h : yearStart y ≤ z) (h1 : z < yearStart (y + 1)) (h' : yearStart y' ≤ z)
    (h1' : z < yearStart (y' + 1)) : y = y' := by
  rcases lt_trichotomy y y' with hlt | heq | hgt
  · have hle : yearStart (y + 1) ≤ yearStart y' := by
      rcases (Int.add_one_le_iff.2 hlt).lt_or_eq with hlt' | heq
      · exact (yearStart_lt hlt').le
      · rw [heq]
    omega
  · exact heq
  · have hle : yearStart (y' + 1) ≤ yearStart y := by
      rcases (Int.add_one_le_iff.2 hgt).lt_or_eq with hlt' | heq
      · exact (yearStart_lt hlt').le
      · rw [heq]
    omega

end EspectralClient.Lib.Calendar
