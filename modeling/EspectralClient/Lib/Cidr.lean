/-
Blocks of addresses: the words that share a prefix with a network word, as the interval of integers that they are.

- `prefixMask`: the word with `len` high bits set.
- `masked_eq_iff`: two words agree under a mask exactly when they agree as numbers above the masked-out bits.
- `mem_block_iff`: a word agrees with the network exactly when it lies between the first and the last word of the block.
-/
import Mathlib.Tactic

namespace EspectralClient.Lib.Cidr

variable {w : ℕ}

/-- `len` ones followed by zeros -/
def prefixMask (w len : ℕ) : BitVec w := BitVec.allOnes w <<< (w - len)

theorem prefixMask_zero (w : ℕ) : prefixMask w 0 = 0#w := by
  rw [prefixMask, Nat.sub_zero, BitVec.shiftLeft_eq_zero (Nat.le_refl w)]

theorem prefixMask_full (w : ℕ) : prefixMask w w = BitVec.allOnes w := by
  rw [prefixMask, Nat.sub_self, BitVec.shiftLeft_zero]

theorem getLsbD_prefixMask {len i : ℕ} (hi : i < w) : (prefixMask w len).getLsbD i = decide (w - len ≤ i) := by
  rw [prefixMask, BitVec.getLsbD_shiftLeft, BitVec.getLsbD_allOnes]
  by_cases hle : w - len ≤ i
  · have hlt : i - (w - len) < w := by omega
    simp [hi, hle, hlt, Nat.not_lt.2 hle]
  · simp [hle, Nat.lt_of_not_le hle]

/-- words agree under the mask when their numbers agree above the bits that it leaves out -/
theorem masked_eq_iff (x y : BitVec w) (len : ℕ) :
    x &&& prefixMask w len = y &&& prefixMask w len ↔ x.toNat / 2 ^ (w - len) = y.toNat / 2 ^ (w - len) := by
  have hbit : ∀ (z : BitVec w) (i : ℕ), i < w →
      (z &&& prefixMask w len).getLsbD i = (z.getLsbD i && decide (w - len ≤ i)) := by
    intro z i hi
    rw [BitVec.getLsbD_and, getLsbD_prefixMask hi]
  have hshift : ∀ z : BitVec w, (z >>> (w - len)).toNat = z.toNat / 2 ^ (w - len) := by
    intro z
    rw [BitVec.toNat_ushiftRight, Nat.shiftRight_eq_div_pow]
  rw [← hshift x, ← hshift y, BitVec.toNat_inj]
  constructor
  · intro h
    refine BitVec.eq_of_getLsbD_eq fun i hi => ?_
    rw [BitVec.getLsbD_ushiftRight, BitVec.getLsbD_ushiftRight]
    by_cases hlt : w - len + i < w
    · have hat := congrArg (fun z => BitVec.getLsbD z (w - len + i)) h
      simpa [hbit x _ hlt, hbit y _ hlt] using hat
    · rw [BitVec.getLsbD_of_ge x _ (Nat.le_of_not_lt hlt), BitVec.getLsbD_of_ge y _ (Nat.le_of_not_lt hlt)]
  · intro h
    refine BitVec.eq_of_getLsbD_eq fun i hi => ?_
    rw [hbit x i hi, hbit y i hi]
    by_cases hle : w - len ≤ i
    · have hat := congrArg (fun z => BitVec.getLsbD z (i - (w - len))) h
      simp only [BitVec.getLsbD_ushiftRight] at hat
      rw [Nat.add_sub_cancel' hle] at hat
      rw [hat]
    · simp [hle]

/-- numbers agree above `k` bits when one lies in the block of the other -/
theorem div_eq_iff_between (a n k : ℕ) :
    a / 2 ^ k = n / 2 ^ k ↔ n / 2 ^ k * 2 ^ k ≤ a ∧ a ≤ n / 2 ^ k * 2 ^ k + (2 ^ k - 1) := by
  have hpos : 0 < 2 ^ k := Nat.two_pow_pos k
  rw [Nat.div_eq_iff hpos]
  constructor
  · rintro ⟨hlow, hhigh⟩
    exact ⟨hlow, by omega⟩
  · rintro ⟨hlow, hhigh⟩
    exact ⟨hlow, by omega⟩

/-- **A block is an interval.** -/
theorem mem_block_iff (x net : BitVec w) (len : ℕ) :
    x &&& prefixMask w len = net &&& prefixMask w len ↔
      net.toNat / 2 ^ (w - len) * 2 ^ (w - len) ≤ x.toNat ∧
        x.toNat ≤ net.toNat / 2 ^ (w - len) * 2 ^ (w - len) + (2 ^ (w - len) - 1) :=
  (masked_eq_iff x net len).trans (div_eq_iff_between x.toNat net.toNat (w - len))

/-! ## Words from parts -/

theorem toNat_append_add {m n : ℕ} (x : BitVec m) (y : BitVec n) :
    (x ++ y).toNat = x.toNat * 2 ^ n + y.toNat := by
  rw [BitVec.toNat_append, ← Nat.shiftLeft_add_eq_or_of_lt y.isLt, Nat.shiftLeft_eq]

end EspectralClient.Lib.Cidr
