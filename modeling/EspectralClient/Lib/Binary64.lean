/-
Doubles, by their values: what a double made from an integer is worth, and what the bits of a double say.

- `ofInt`: an integer rounded to the nearest double, ties to even; every double in this range is again an integer.
- `ofInt_exact`: integers up to `2 ^ 53` in magnitude are doubles.
- `ofInt_eq_one`: no other integer rounds to one.
- `value`: the value of a finite double, from its bits. `round`: the double nearest to a number.
-/
import Mathlib.Tactic
import Mathlib.Data.Int.Log

namespace EspectralClient.Lib.Binary64

/-- a magnitude rounded to a significand of 53 bits -/
def roundMag (a : ℕ) : ℕ :=
  if a ≤ 2 ^ 53 then a
  else
    let unit := 2 ^ (a.log2 - 52)
    let q := a / unit
    let r := a % unit
    if 2 * r < unit ∨ (2 * r = unit ∧ q % 2 = 0) then q * unit else (q + 1) * unit

/-- the value of the double nearest to an integer -/
def ofInt (n : ℤ) : ℤ := if n < 0 then -(roundMag n.natAbs : ℤ) else roundMag n.natAbs

theorem ofInt_exact {n : ℤ} (h : n.natAbs ≤ 2 ^ 53) : ofInt n = n := by
  simp only [ofInt, roundMag, if_pos h]
  split_ifs <;> omega

/-- a magnitude that is rounded has an even result -/
theorem roundMag_even {a : ℕ} (h : 2 ^ 53 < a) : 2 ∣ roundMag a := by
  have hlog : 53 ≤ a.log2 := (Nat.le_log2 (by omega)).2 h.le
  have hunit : 2 ∣ 2 ^ (a.log2 - 52) := dvd_pow_self 2 (by omega)
  simp only [roundMag, if_neg (not_le.2 h)]
  split_ifs
  · exact hunit.mul_left _
  · exact hunit.mul_left _

theorem ofInt_eq_one {n : ℤ} : ofInt n = 1 ↔ n = 1 := by
  constructor
  · intro h
    by_cases hn : n.natAbs ≤ 2 ^ 53
    · rwa [ofInt_exact hn] at h
    · have heven := roundMag_even (not_le.1 hn)
      unfold ofInt at h
      split_ifs at h <;> omega
  · rintro rfl
    exact ofInt_exact (by decide)

/-- the value of a finite double; infinities and NaN have none -/
def value (bits : UInt64) : Option ℚ :=
  let sign : ℚ := if bits.toNat / 2 ^ 63 = 0 then 1 else -1
  let exponent : ℕ := bits.toNat / 2 ^ 52 % 2 ^ 11
  let fraction : ℕ := bits.toNat % 2 ^ 52
  if exponent = 2047 then none
  else if exponent = 0 then some (sign * fraction / 2 ^ 1074)
  else some (sign * (2 ^ 52 + fraction) * 2 ^ exponent / 2 ^ 1075)

/-- a whole number nearest to a magnitude, ties to even -/
def nearest (q : ℚ) : ℤ :=
  if q - ⌊q⌋ < 1 / 2 ∨ (q - ⌊q⌋ = 1 / 2 ∧ ⌊q⌋ % 2 = 0) then ⌊q⌋ else ⌊q⌋ + 1

/-- the value of the double nearest to a number; from `2 ^ 1024` on there is none -/
def round (q : ℚ) : Option ℚ :=
  let unit : ℚ := 2 ^ (max (Int.log 2 |q|) (-1022) - 52)
  let value := nearest (|q| / unit) * unit
  if 2 ^ 1024 ≤ value then none else some (if q < 0 then -value else value)

end EspectralClient.Lib.Binary64
