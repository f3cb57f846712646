/-
Decimals of a fixed width, and texts made of parts of fixed widths.

- `pad`: a number behind zeros; `length_pad`, how long it is.
- `append_lt_append`: two texts whose first parts are as long as each other compare by these, then by the rest.
- `pad_lt_pad`, `pad_inj`: padded numbers compare as the numbers do.
-/
import Mathlib.Data.String.Basic
import Mathlib.Tactic

namespace EspectralClient.Lib.Decimal

/-- a number with zeros before it, at least `w` characters -/
def pad (w n : ℕ) : List Char := (Nat.toDigits 10 n).leftpad w '0'

/-- the last digit and those before it -/
theorem pad_succ {w n : ℕ} (hw : 0 < w) (hn : n < 10 ^ (w + 1)) :
    pad (w + 1) n = pad w (n / 10) ++ [Nat.digitChar (n % 10)] := by
  rcases lt_or_ge n 10 with h | h
  · have hdiv : n / 10 = 0 := Nat.div_eq_of_lt h
    obtain ⟨v, rfl⟩ : ∃ v, w = v + 1 := ⟨w - 1, by omega⟩
    rw [pad, pad, Nat.toDigits_of_lt_base h, hdiv, Nat.toDigits_of_lt_base (by decide), Nat.mod_eq_of_lt h]
    simp only [List.leftpad, List.length_singleton, Nat.add_sub_cancel]
    rw [List.replicate_succ', List.append_assoc]
    simp [Nat.digitChar]
  · rw [pad, pad, Nat.toDigits_of_base_le (by decide) h]
    simp [List.leftpad]

theorem length_pad {w n : ℕ} (hw : 0 < w) (hn : n < 10 ^ w) : (pad w n).length = w := by
  have hdigits : (Nat.toDigits 10 n).length ≤ w := by
    rcases Nat.eq_zero_or_pos n with rfl | hpos
    · exact hw
    · exact (Nat.length_toDigits_le_iff (by decide) hw).2 hn
  simp [pad, List.leftpad, hdigits]

section Order

variable {α : Type*} [LinearOrder α]

theorem append_lt_append {l l' r r' : List α} (h : l.length = l'.length) :
    l ++ r < l' ++ r' ↔ l < l' ∨ l = l' ∧ r < r' := by
  induction l generalizing l' with
  | nil =>
    obtain rfl := List.length_eq_zero_iff.1 h.symm
    simp
  | cons a l ih =>
    cases l' with
    | nil => cases h
    | cons b l' =>
      rw [List.cons_append, List.cons_append, List.cons_lt_cons_iff, List.cons_lt_cons_iff, ih (Nat.succ.inj h),
        List.cons.injEq]
      tauto

end Order

theorem digitChar_lt {a b : ℕ} (ha : a < 10) (hb : b < 10) : Nat.digitChar a < Nat.digitChar b ↔ a < b := by
  interval_cases a <;> interval_cases b <;> decide

theorem digitChar_inj {a b : ℕ} (ha : a < 10) (hb : b < 10) : Nat.digitChar a = Nat.digitChar b ↔ a = b := by
  interval_cases a <;> interval_cases b <;> decide

theorem pad_compare {w a b : ℕ} (hw : 0 < w) (ha : a < 10 ^ w) (hb : b < 10 ^ w) :
    (pad w a < pad w b ↔ a < b) ∧ (pad w a = pad w b ↔ a = b) := by
  induction w, hw using Nat.le_induction generalizing a b with
  | base =>
    have ha' : a < 10 := ha
    have hb' : b < 10 := hb
    simp only [pad, Nat.toDigits_of_lt_base ha', Nat.toDigits_of_lt_base hb', List.leftpad, List.length_singleton,
      Nat.succ_eq_add_one, zero_add, Nat.sub_self, List.replicate_zero, List.nil_append, List.cons.injEq, and_true]
    refine ⟨?_, digitChar_inj ha' hb'⟩
    rw [List.cons_lt_cons_iff, digitChar_lt ha' hb']
    simp
  | succ w hw ih =>
    have hlen : ∀ {n}, n < 10 ^ (w + 1) → n / 10 < 10 ^ w := by
      intro n hn
      rw [pow_succ] at hn
      omega
    obtain ⟨hlt, heq⟩ := ih (hlen ha) (hlen hb)
    have hlength : (pad w (a / 10)).length = (pad w (b / 10)).length := by
      rw [length_pad hw (hlen ha), length_pad hw (hlen hb)]
    have ha' : a % 10 < 10 := Nat.mod_lt a (by decide)
    have hb' : b % 10 < 10 := Nat.mod_lt b (by decide)
    have hlast : [Nat.digitChar (a % 10)] < [Nat.digitChar (b % 10)] ↔ a % 10 < b % 10 := by
      rw [List.cons_lt_cons_iff, digitChar_lt ha' hb']
      simp
    rw [pad_succ hw ha, pad_succ hw hb]
    constructor
    · rw [append_lt_append hlength, hlt, heq, hlast]
      omega
    · constructor
      · intro h
        obtain ⟨hfront, hback⟩ := List.append_inj h hlength
        have hmod := (digitChar_inj ha' hb').1 (List.cons.inj hback).1
        have hdiv := heq.1 hfront
        omega
      · rintro rfl
        rfl

/-- **Padded numbers** compare as the numbers do. -/
theorem pad_lt_pad {w a b : ℕ} (hw : 0 < w) (ha : a < 10 ^ w) (hb : b < 10 ^ w) : pad w a < pad w b ↔ a < b :=
  (pad_compare hw ha hb).1

theorem pad_inj {w a b : ℕ} (hw : 0 < w) (ha : a < 10 ^ w) (hb : b < 10 ^ w) : pad w a = pad w b ↔ a = b :=
  (pad_compare hw ha hb).2

end EspectralClient.Lib.Decimal
