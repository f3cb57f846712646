/-
Numbers as bytes, the lowest first.

- `ofLe_toLe`: a number that fits its width is read back.
-/
import Mathlib.Tactic

namespace EspectralClient.Lib.LittleEndian

/-- the lowest bytes of a number, as many as asked for -/
def toLe : ℕ → ℕ → List UInt8
  | 0, _ => []
  | k + 1, n => UInt8.ofNat n :: toLe k (n / 256)

def ofLe : List UInt8 → ℕ
  | [] => 0
  | b :: bytes => b.toNat + 256 * ofLe bytes

@[simp] theorem length_toLe (k n : ℕ) : (toLe k n).length = k := by
  induction k generalizing n with
  | zero => rfl
  | succ k ih => rw [toLe, List.length_cons, ih]

theorem ofLe_toLe {k n : ℕ} (h : n < 256 ^ k) : ofLe (toLe k n) = n := by
  induction k generalizing n with
  | zero =>
    rw [pow_zero, Nat.lt_one_iff] at h
    rw [h]
    rfl
  | succ k ih =>
    have hdiv : n / 256 < 256 ^ k := by
      rw [Nat.div_lt_iff_lt_mul (by norm_num), ← pow_succ]
      exact h
    calc ofLe (toLe (k + 1) n) = (UInt8.ofNat n).toNat + 256 * ofLe (toLe k (n / 256)) := rfl
      _ = n % 256 + 256 * (n / 256) := by rw [ih hdiv, UInt8.toNat_ofNat']
      _ = n := Nat.mod_add_div n 256

end EspectralClient.Lib.LittleEndian
