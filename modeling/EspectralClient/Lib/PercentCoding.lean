/-
Percent coding of bytes: `%` and two digits stand for a byte.

- `hexValue`, `hexPair`: a hexadecimal digit and two of them; `hexDigit` writes one.
- `decode`: every triple whose two bytes are a pair is its byte, and every other byte is itself; it has the pairs as a
  parameter.
- `decode_encodeBytes`: what is encoded decodes to itself.
- `decode_congr`: what a decoder does with more pairs.
-/
import EspectralClient.Lib.Bytes

namespace EspectralClient.Lib.PercentCoding

/-- `%` -/
def percent : UInt8 := 0x25

/-- a hexadecimal digit of either case -/
def hexValue (b : UInt8) : Option ℕ :=
  if 0x30 ≤ b.toNat ∧ b.toNat ≤ 0x39 then some (b.toNat - 0x30)
  else if 0x41 ≤ b.toNat ∧ b.toNat ≤ 0x46 then some (b.toNat - 0x37)
  else if 0x61 ≤ b.toNat ∧ b.toNat ≤ 0x66 then some (b.toNat - 0x57)
  else none

/-- two hexadecimal digits -/
def hexPair (a b : UInt8) : Option UInt8 :=
  (hexValue a).bind fun m => (hexValue b).map fun n => UInt8.ofNat (16 * m + n)

/-- the pairs that stand for a byte are a parameter -/
def decode (pair : UInt8 → UInt8 → Option UInt8) : List UInt8 → List UInt8
  | [] => []
  | [a] => [a]
  | [a, b] => [a, b]
  | a :: b :: c :: rest =>
    if a = percent then
      match pair b c with
      | some v => v :: decode pair rest
      | none => a :: decode pair (b :: c :: rest)
    else a :: decode pair (b :: c :: rest)

/-- an upper-case digit -/
def hexDigit (n : ℕ) : UInt8 := if n < 10 then UInt8.ofNat (0x30 + n) else UInt8.ofNat (0x37 + n)

/-- a byte as itself where `plain` says so, else as a triple -/
def encodeByte (plain : UInt8 → Bool) (b : UInt8) : List UInt8 :=
  if plain b then [b] else [percent, hexDigit (b.toNat / 16), hexDigit (b.toNat % 16)]

def encodeBytes (plain : UInt8 → Bool) (bytes : List UInt8) : List UInt8 := bytes.flatMap (encodeByte plain)

/-! ## Digits -/

theorem hexValue_lt {b : UInt8} {n : ℕ} (h : hexValue b = some n) : n < 16 := by
  unfold hexValue at h
  split_ifs at h <;> · obtain rfl := Option.some.inj h; omega

/-- a digit is no `%`, no sign and an ASCII byte -/
theorem hexValue_bounds {b : UInt8} {n : ℕ} (h : hexValue b = some n) : 0x30 ≤ b.toNat ∧ b.toNat < 0x80 := by
  unfold hexValue at h
  split_ifs at h <;> omega

theorem hexValue_ne_percent {b : UInt8} {n : ℕ} (h : hexValue b = some n) : b ≠ percent := by
  rintro rfl
  cases h

theorem hexValue_hexDigit {n : ℕ} (h : n < 16) : hexValue (hexDigit n) = some n := by
  interval_cases n <;> decide

theorem hexDigit_bounds {n : ℕ} (h : n < 16) : 0x30 ≤ (hexDigit n).toNat ∧ (hexDigit n).toNat < 0x80 :=
  hexValue_bounds (hexValue_hexDigit h)

theorem hexPair_hexDigit (b : UInt8) : hexPair (hexDigit (b.toNat / 16)) (hexDigit (b.toNat % 16)) = some b := by
  have hb := b.toNat_lt
  rw [hexPair, hexValue_hexDigit (by omega), hexValue_hexDigit (by omega), Option.bind_some, Option.map_some,
    Nat.div_add_mod, UInt8.ofNat_toNat]

theorem hexPair_some {a b v : UInt8} (h : hexPair a b = some v) : ∃ m n, hexValue a = some m ∧ hexValue b = some n := by
  obtain ⟨m, hm, h⟩ := Option.bind_eq_some_iff.1 h
  obtain ⟨n, hn, -⟩ := Option.map_eq_some_iff.1 h
  exact ⟨m, n, hm, hn⟩

/-! ## Decoding -/

section Decode

variable {pair pair' : UInt8 → UInt8 → Option UInt8}

theorem decode_cons_of_ne {a : UInt8} (h : a ≠ percent) (rest : List UInt8) :
    decode pair (a :: rest) = a :: decode pair rest := by
  rcases rest with _ | ⟨b, _ | ⟨c, rest⟩⟩
  · rfl
  · rfl
  · rw [decode, if_neg h]

theorem decode_triple {b c v : UInt8} (h : pair b c = some v) (rest : List UInt8) :
    decode pair (percent :: b :: c :: rest) = v :: decode pair rest := by
  rw [decode, if_pos rfl, h]

theorem decode_no_triple {b c : UInt8} (h : pair b c = none) (rest : List UInt8) :
    decode pair (percent :: b :: c :: rest) = percent :: decode pair (b :: c :: rest) := by
  rw [decode, if_pos rfl, h]

/-- **Encoded bytes decode to themselves**, where the bytes left plain have no `%` and the pairs have all digits. -/
theorem decode_encodeBytes {plain : UInt8 → Bool} (hplain : plain percent = false)
    (hpair : ∀ a b v, hexPair a b = some v → pair a b = some v) (bytes : List UInt8) :
    decode pair (encodeBytes plain bytes) = bytes := by
  induction bytes with
  | nil => rfl
  | cons b bytes ih =>
    rw [encodeBytes, List.flatMap_cons, encodeByte, ← encodeBytes]
    split_ifs with hb
    · have hne : b ≠ percent := by
        rintro rfl
        rw [hplain] at hb
        cases hb
      rw [List.singleton_append, decode_cons_of_ne hne, ih]
    · have htriple := decode_triple (hpair _ _ _ (hexPair_hexDigit b)) (encodeBytes plain bytes)
      rw [ih] at htriple
      exact htriple

/-- two decoders that agree on the pairs of a text -/
theorem decode_congr {bytes : List UInt8}
    (h : ∀ front b c rest, bytes = front ++ percent :: b :: c :: rest → pair b c = pair' b c) :
    decode pair bytes = decode pair' bytes := by
  fun_induction decode pair bytes with
  | case1 | case2 | case3 => rfl
  | case4 b c rest v hv ih =>
    have hpair := h [] b c rest rfl
    rw [decode_triple (hpair ▸ hv), ih]
    intro front b' c' rest' heq
    exact h (percent :: b :: c :: front) b' c' rest' (by rw [heq]; rfl)
  | case5 b c rest hno ih =>
    have hpair := h [] b c rest rfl
    rw [decode_no_triple (hpair ▸ hno), ih]
    intro front b' c' rest' heq
    exact h (percent :: front) b' c' rest' (by rw [heq]; rfl)
  | case6 a b c rest hne ih =>
    rw [decode_cons_of_ne hne, ih]
    intro front b' c' rest' heq
    exact h (a :: front) b' c' rest' (by rw [heq]; rfl)

end Decode

end EspectralClient.Lib.PercentCoding
