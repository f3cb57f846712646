/-
Base64 with the URL alphabet and without padding, on bytes: three bytes are four characters of six bits each, one byte
over is two characters and two bytes over are three, with the unused low bits zero.

- `encode`, `decode`: the canonical text of a byte string, and the decoder that accepts nothing else.
- `decode_encode`: the decoder inverts the encoder.
- `encode_alphabet`, `encode_length`: a canonical text has only characters of the alphabet, and its length is never one
  more than a multiple of four.
-/
import Mathlib.Tactic

namespace EspectralClient.Lib.Base64

/-- the character of a six-bit number -/
def char (n : ℕ) : UInt8 :=
  if n < 26 then .ofNat (0x41 + n)
  else if n < 52 then .ofNat (0x61 + (n - 26))
  else if n < 62 then .ofNat (0x30 + (n - 52))
  else if n = 62 then 0x2d
  else 0x5f

/-- the six-bit number of a character -/
def index (c : UInt8) : Option ℕ :=
  let n := c.toNat
  if 0x41 ≤ n ∧ n ≤ 0x5a then some (n - 0x41)
  else if 0x61 ≤ n ∧ n ≤ 0x7a then some (n - 0x61 + 26)
  else if 0x30 ≤ n ∧ n ≤ 0x39 then some (n - 0x30 + 52)
  else if n = 0x2d then some 62
  else if n = 0x5f then some 63
  else none

def encode : List UInt8 → List UInt8
  | a :: b :: c :: rest =>
    char (a.toNat / 4) :: char (a.toNat % 4 * 16 + b.toNat / 16) :: char (b.toNat % 16 * 4 + c.toNat / 64) ::
      char (c.toNat % 64) :: encode rest
  | [a, b] => [char (a.toNat / 4), char (a.toNat % 4 * 16 + b.toNat / 16), char (b.toNat % 16 * 4)]
  | [a] => [char (a.toNat / 4), char (a.toNat % 4 * 16)]
  | [] => []

def decode : List UInt8 → Option (List UInt8)
  | w :: x :: y :: z :: rest => do
    let i ← index w
    let j ← index x
    let k ← index y
    let l ← index z
    let bytes ← decode rest
    some (.ofNat (i * 4 + j / 16) :: .ofNat (j % 16 * 16 + k / 4) :: .ofNat (k % 4 * 64 + l) :: bytes)
  | [w, x, y] => do
    let i ← index w
    let j ← index x
    let k ← index y
    if k % 4 = 0 then some [.ofNat (i * 4 + j / 16), .ofNat (j % 16 * 16 + k / 4)] else none
  | [w, x] => do
    let i ← index w
    let j ← index x
    if j % 16 = 0 then some [.ofNat (i * 4 + j / 16)] else none
  | [_] => none
  | [] => some []

theorem index_char {n : ℕ} (h : n < 64) : index (char n) = some n := by
  have hall : ∀ n < 64, index (char n) = some n := by decide
  exact hall n h

theorem ofNat_toNat {a : UInt8} {n : ℕ} (h : n = a.toNat) : UInt8.ofNat n = a := by
  rw [h, UInt8.ofNat_toNat]

/-- **The decoder inverts the encoder.** -/
theorem decode_encode (bytes : List UInt8) : decode (encode bytes) = some bytes := by
  fun_induction encode bytes with
  | case1 a b c rest ih =>
    have ha := a.toNat_lt
    have hb := b.toNat_lt
    have hc := c.toNat_lt
    rw [decode, index_char (by omega), index_char (by omega), index_char (by omega), index_char (by omega), ih]
    simp only [Option.bind_eq_bind, Option.bind_some]
    rw [ofNat_toNat (a := a) (by omega), ofNat_toNat (a := b) (by omega), ofNat_toNat (a := c) (by omega)]
  | case2 a b =>
    have ha := a.toNat_lt
    have hb := b.toNat_lt
    rw [decode, index_char (by omega), index_char (by omega), index_char (by omega)]
    simp only [Option.bind_eq_bind, Option.bind_some]
    rw [if_pos (by omega), ofNat_toNat (a := a) (by omega), ofNat_toNat (a := b) (by omega)]
  | case3 a =>
    have ha := a.toNat_lt
    rw [decode, index_char (by omega), index_char (by omega)]
    simp only [Option.bind_eq_bind, Option.bind_some]
    rw [if_pos (by omega), ofNat_toNat (a := a) (by omega)]
  | case4 => rfl

/-- a letter, a digit, `-` or `_` -/
def inAlphabet (c : UInt8) : Bool := (index c).isSome

theorem encode_alphabet (bytes : List UInt8) : ∀ c ∈ encode bytes, inAlphabet c := by
  have hchar : ∀ n < 64, inAlphabet (char n) := by
    intro n hn
    rw [inAlphabet, index_char hn]
    rfl
  fun_induction encode bytes with
  | case1 a b c rest ih =>
    have ha := a.toNat_lt
    have hb := b.toNat_lt
    have hc := c.toNat_lt
    simp only [List.mem_cons]
    rintro x (rfl | rfl | rfl | rfl | hx)
    · exact hchar _ (by omega)
    · exact hchar _ (by omega)
    · exact hchar _ (by omega)
    · exact hchar _ (by omega)
    · exact ih x hx
  | case2 a b =>
    have ha := a.toNat_lt
    have hb := b.toNat_lt
    simp only [List.mem_cons, List.not_mem_nil, or_false]
    rintro x (rfl | rfl | rfl)
    · exact hchar _ (by omega)
    · exact hchar _ (by omega)
    · exact hchar _ (by omega)
  | case3 a =>
    have ha := a.toNat_lt
    simp only [List.mem_cons, List.not_mem_nil, or_false]
    rintro x (rfl | rfl)
    · exact hchar _ (by omega)
    · exact hchar _ (by omega)
  | case4 => simp

theorem encode_length (bytes : List UInt8) : (encode bytes).length % 4 ≠ 1 := by
  fun_induction encode bytes with
  | case1 a b c rest ih => simp only [List.length_cons]; omega
  | case2 a b => simp
  | case3 a => simp
  | case4 => simp

theorem encode_ne_nil {bytes : List UInt8} (h : bytes ≠ []) : encode bytes ≠ [] := by
  fun_cases encode bytes <;> simp_all

end EspectralClient.Lib.Base64
