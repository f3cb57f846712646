/-
Lower-case hexadecimal: two digits for each byte.

- `encode_injective`: different bytes have different digits.
- `length_encode`, `encode_digits`: how many digits there are, and that they are `0` to `9` and `a` to `f`.
- `lower_encode`: setting them in lower case leaves them alone.
-/
import EspectralClient.Lib.JavaString

namespace EspectralClient.Lib.Hex

/-- the ASCII code of a digit below 16 -/
def digit (n : ℕ) : UInt8 := if n < 10 then UInt8.ofNat (0x30 + n) else UInt8.ofNat (0x57 + n)

/-- a byte that is a lower-case digit -/
def isDigit (b : UInt8) : Bool := 0x30 ≤ b ∧ b ≤ 0x39 ∨ 0x61 ≤ b ∧ b ≤ 0x66

def encode (bytes : List UInt8) : List UInt8 :=
  bytes.flatMap fun b => [digit (b.toNat / 16), digit (b.toNat % 16)]

/-- `char::to_ascii_lowercase` on a byte -/
def lower (b : UInt8) : UInt8 := if 0x41 ≤ b ∧ b ≤ 0x5a then b + 0x20 else b

/-- `char::to_ascii_uppercase` on a byte -/
def upper (b : UInt8) : UInt8 := if 0x61 ≤ b ∧ b ≤ 0x7a then b - 0x20 else b

theorem digit_injective {m n : ℕ} (hm : m < 16) (hn : n < 16) (h : digit m = digit n) : m = n := by
  revert h
  revert hm
  revert m
  revert hn
  revert n
  decide

theorem isDigit_digit {n : ℕ} (h : n < 16) : isDigit (digit n) = true := by
  revert h
  revert n
  decide

theorem length_encode (bytes : List UInt8) : (encode bytes).length = 2 * bytes.length := by
  induction bytes with
  | nil => rfl
  | cons b bytes ih =>
    rw [encode, List.flatMap_cons, List.length_append]
    rw [encode] at ih
    rw [ih, List.length_cons, List.length_cons, List.length_cons, List.length_nil]
    omega

theorem encode_digits {bytes : List UInt8} {d : UInt8} (h : d ∈ encode bytes) : isDigit d = true := by
  obtain ⟨b, -, hd⟩ := List.mem_flatMap.1 h
  have hb := b.toNat_lt
  simp only [List.mem_cons, List.not_mem_nil, or_false] at hd
  rcases hd with rfl | rfl
  · exact isDigit_digit (by omega)
  · exact isDigit_digit (by omega)

theorem encode_injective : Function.Injective encode := by
  intro a b h
  induction a generalizing b with
  | nil =>
    cases b with
    | nil => rfl
    | cons y b => simp [encode] at h
  | cons x a ih =>
    cases b with
    | nil => simp [encode] at h
    | cons y b =>
      simp only [encode, List.flatMap_cons, List.cons_append, List.nil_append, List.cons.injEq] at h
      obtain ⟨hhigh, hlow, hrest⟩ := h
      have hx := x.toNat_lt
      have hy := y.toNat_lt
      have hdiv := digit_injective (by omega) (by omega) hhigh
      have hmod := digit_injective (by omega) (by omega) hlow
      have hbyte : x = y := UInt8.toNat_inj.1 (by omega)
      rw [hbyte, ih hrest]

/-- a lower-case digit is ASCII, and neither a newline nor a letter in upper case -/
theorem isDigit_bounds {d : UInt8} (h : isDigit d = true) :
    0x30 ≤ d.toNat ∧ d.toNat ≤ 0x39 ∨ 0x61 ≤ d.toNat ∧ d.toNat ≤ 0x66 := by
  simpa [isDigit, UInt8.le_iff_toNat_le] using h

theorem lower_isDigit {d : UInt8} (h : isDigit d = true) : lower d = d := by
  have hbounds := isDigit_bounds h
  apply if_neg
  simp only [UInt8.le_iff_toNat_le, UInt8.reduceToNat]
  omega

theorem map_lower {l : List UInt8} (h : ∀ d ∈ l, isDigit d = true) : l.map lower = l := by
  rw [List.map_congr_left fun d hd => lower_isDigit (h d hd), List.map_id']

theorem lower_encode (bytes : List UInt8) : (encode bytes).map lower = encode bytes :=
  map_lower fun _ hd => encode_digits hd

end EspectralClient.Lib.Hex
