/-
UTF-16: a text as the code units of a Java string. A unit sequence is the encoding of a text when its surrogates come in
pairs; a string with any other surrogate has no encoding in UTF-8 either.

- `decode_encode`, `encode_decode`: the two directions.
- `encode_inj`: different texts have different units.
- `encode_ofString`: the literals of a source are encoded unit by unit.
-/
import EspectralClient.Lib.JavaString

namespace EspectralClient.Lib

namespace Utf16

open JavaString

def encodeChar (c : Char) : JavaString :=
  if c.toNat < 0x10000 then [UInt16.ofNat c.toNat]
  else [UInt16.ofNat (0xd800 + (c.toNat - 0x10000) / 0x400), UInt16.ofNat (0xdc00 + (c.toNat - 0x10000) % 0x400)]

def encodeChars (l : List Char) : JavaString := l.flatMap encodeChar

def encode (s : String) : JavaString := encodeChars s.toList

/-- the character of a surrogate pair -/
def pairChar (high low : UInt16) : Char :=
  Char.ofNat (0x10000 + (high.toNat - 0xd800) * 0x400 + (low.toNat - 0xdc00))

/-- `none` where a surrogate has no other half -/
def decodeChars : JavaString → Option (List Char)
  | [] => some []
  | u :: rest =>
    if isHighSurrogate u then
      match rest with
      | [] => none
      | w :: rest' => if isLowSurrogate w then (decodeChars rest').map (pairChar u w :: ·) else none
    else if isLowSurrogate u then none
    else (decodeChars rest).map (Char.ofNat u.toNat :: ·)

def decode (s : JavaString) : Option String := (decodeChars s).map String.ofList

/-- the surrogates come in pairs -/
def isUnicode (s : JavaString) : Bool := (decodeChars s).isSome

/-- `getBytes(UTF_8)`: a surrogate without its other half is written as `?` -/
def utf8Bytes : JavaString → List UInt8
  | [] => []
  | u :: rest =>
    if isHighSurrogate u then
      match rest with
      | [] => [0x3f]
      | w :: rest' =>
        if isLowSurrogate w then String.utf8EncodeChar (pairChar u w) ++ utf8Bytes rest' else 0x3f :: utf8Bytes (w :: rest')
    else if isLowSurrogate u then 0x3f :: utf8Bytes rest
    else String.utf8EncodeChar (Char.ofNat u.toNat) ++ utf8Bytes rest

/-! ## Units and characters -/

theorem isHighSurrogate_iff {u : UInt16} : isHighSurrogate u = true ↔ 0xd800 ≤ u.toNat ∧ u.toNat ≤ 0xdbff := by
  simp [isHighSurrogate, UInt16.le_iff_toNat_le]

theorem isLowSurrogate_iff {u : UInt16} : isLowSurrogate u = true ↔ 0xdc00 ≤ u.toNat ∧ u.toNat ≤ 0xdfff := by
  simp [isLowSurrogate, UInt16.le_iff_toNat_le]

theorem char_valid (c : Char) : c.toNat < 0xd800 ∨ 0xdfff < c.toNat ∧ c.toNat < 0x110000 := c.valid

theorem toNat_ofNat_lt {n : ℕ} (h : n < 0x10000) : (UInt16.ofNat n).toNat = n := by
  rw [UInt16.toNat_ofNat']
  omega

theorem toNat_char {n : ℕ} (h : n.isValidChar) : (Char.ofNat n).toNat = n := by
  rw [Char.ofNat, dif_pos h]
  rfl

/-- a character of one unit, at the head -/
theorem decodeChars_basic {u : UInt16} (hhigh : isHighSurrogate u = false) (hlow : isLowSurrogate u = false)
    (rest : JavaString) : decodeChars (u :: rest) = (decodeChars rest).map (Char.ofNat u.toNat :: ·) := by
  simp [decodeChars.eq_def (u :: rest), hhigh, hlow]

/-- a surrogate pair, at the head -/
theorem decodeChars_pair {u w : UInt16} (hhigh : isHighSurrogate u = true) (hlow : isLowSurrogate w = true)
    (rest : JavaString) : decodeChars (u :: w :: rest) = (decodeChars rest).map (pairChar u w :: ·) := by
  simp [decodeChars.eq_def (u :: w :: rest), hhigh, hlow]

theorem decodeChars_encodeChar (c : Char) (rest : JavaString) :
    decodeChars (encodeChar c ++ rest) = (decodeChars rest).map (c :: ·) := by
  unfold encodeChar
  have hvalid := char_valid c
  split_ifs with h
  · have hunit := toNat_ofNat_lt h
    have hhigh : isHighSurrogate (UInt16.ofNat c.toNat) = false := by
      rw [Bool.eq_false_iff, Ne, isHighSurrogate_iff, hunit]
      omega
    have hlow : isLowSurrogate (UInt16.ofNat c.toNat) = false := by
      rw [Bool.eq_false_iff, Ne, isLowSurrogate_iff, hunit]
      omega
    rw [List.singleton_append, decodeChars_basic hhigh hlow, hunit, Char.ofNat_toNat]
  · have hu := toNat_ofNat_lt (n := 0xd800 + (c.toNat - 0x10000) / 0x400) (by omega)
    have hw := toNat_ofNat_lt (n := 0xdc00 + (c.toNat - 0x10000) % 0x400) (by omega)
    have hhigh : isHighSurrogate (UInt16.ofNat (0xd800 + (c.toNat - 0x10000) / 0x400)) = true := by
      rw [isHighSurrogate_iff, hu]
      omega
    have hlow : isLowSurrogate (UInt16.ofNat (0xdc00 + (c.toNat - 0x10000) % 0x400)) = true := by
      rw [isLowSurrogate_iff, hw]
      omega
    have hpair : pairChar (UInt16.ofNat (0xd800 + (c.toNat - 0x10000) / 0x400))
        (UInt16.ofNat (0xdc00 + (c.toNat - 0x10000) % 0x400)) = c := by
      have hnum : 0x10000 + (0xd800 + (c.toNat - 0x10000) / 0x400 - 0xd800) * 0x400 +
          (0xdc00 + (c.toNat - 0x10000) % 0x400 - 0xdc00) = c.toNat := by omega
      rw [pairChar, hu, hw, hnum, Char.ofNat_toNat]
    rw [List.cons_append, List.singleton_append, decodeChars_pair hhigh hlow, hpair]

theorem decodeChars_encodeChars (l : List Char) : decodeChars (encodeChars l) = some l := by
  induction l with
  | nil => rfl
  | cons c l ih =>
    rw [encodeChars, List.flatMap_cons, decodeChars_encodeChar]
    rw [encodeChars] at ih
    rw [ih]
    rfl

theorem encodeChar_basic {u : UInt16} (hhigh : isHighSurrogate u = false) (hlow : isLowSurrogate u = false) :
    encodeChar (Char.ofNat u.toNat) = [u] := by
  rw [Bool.eq_false_iff, Ne, isHighSurrogate_iff] at hhigh
  rw [Bool.eq_false_iff, Ne, isLowSurrogate_iff] at hlow
  have hlt := u.toNat_lt
  have hchar : (Char.ofNat u.toNat).toNat = u.toNat := by
    apply toNat_char
    unfold Nat.isValidChar
    omega
  rw [encodeChar, hchar, if_pos (by omega), UInt16.ofNat_toNat]

theorem encodeChar_pair {u w : UInt16} (hhigh : isHighSurrogate u = true) (hlow : isLowSurrogate w = true) :
    encodeChar (pairChar u w) = [u, w] := by
  rw [isHighSurrogate_iff] at hhigh
  rw [isLowSurrogate_iff] at hlow
  have hchar : (pairChar u w).toNat = 0x10000 + (u.toNat - 0xd800) * 0x400 + (w.toNat - 0xdc00) := by
    apply toNat_char
    unfold Nat.isValidChar
    omega
  have hu : 0xd800 + ((pairChar u w).toNat - 0x10000) / 0x400 = u.toNat := by omega
  have hw : 0xdc00 + ((pairChar u w).toNat - 0x10000) % 0x400 = w.toNat := by omega
  rw [encodeChar, if_neg (by omega), hu, hw, UInt16.ofNat_toNat, UInt16.ofNat_toNat]

theorem encodeChars_of_decodeChars : ∀ (s : JavaString) (l : List Char), decodeChars s = some l → encodeChars l = s
  | [], l, h => by
    cases h
    rfl
  | u :: rest, l, h => by
    cases hhigh : isHighSurrogate u with
    | true =>
      cases rest with
      | nil => simp [decodeChars.eq_def [u], hhigh] at h
      | cons w rest' =>
        cases hlow : isLowSurrogate w with
        | false => simp [decodeChars.eq_def (u :: w :: rest'), hhigh, hlow] at h
        | true =>
          rw [decodeChars_pair hhigh hlow] at h
          obtain ⟨l', hl', rfl⟩ := Option.map_eq_some_iff.1 h
          have ih := encodeChars_of_decodeChars rest' l' hl'
          rw [encodeChars] at ih ⊢
          rw [List.flatMap_cons, encodeChar_pair hhigh hlow, ih]
          rfl
    | false =>
      cases hlow : isLowSurrogate u with
      | true => simp [decodeChars.eq_def (u :: rest), hhigh, hlow] at h
      | false =>
        rw [decodeChars_basic hhigh hlow] at h
        obtain ⟨l', hl', rfl⟩ := Option.map_eq_some_iff.1 h
        have ih := encodeChars_of_decodeChars rest l' hl'
        rw [encodeChars] at ih ⊢
        rw [List.flatMap_cons, encodeChar_basic hhigh hlow, ih]
        rfl

/-! ## Texts -/

/-- **A text is read back.** -/
@[simp] theorem decode_encode (s : String) : decode (encode s) = some s := by
  rw [decode, encode, decodeChars_encodeChars, Option.map_some, String.ofList_toList]

theorem encode_decode {u : JavaString} {s : String} (h : decode u = some s) : encode s = u := by
  obtain ⟨l, hl, rfl⟩ := Option.map_eq_some_iff.1 h
  rw [encode, String.toList_ofList]
  exact encodeChars_of_decodeChars u l hl

theorem encode_inj {s t : String} : encode s = encode t ↔ s = t := by
  constructor
  · intro h
    have hdecode : decode (encode s) = decode (encode t) := by rw [h]
    simpa using hdecode
  · intro h
    rw [h]

theorem isUnicode_iff {u : JavaString} : isUnicode u = true ↔ ∃ s, encode s = u := by
  constructor
  · intro h
    obtain ⟨l, hl⟩ := Option.isSome_iff_exists.1 h
    exact ⟨String.ofList l, encode_decode (by rw [decode, hl, Option.map_some])⟩
  · rintro ⟨s, rfl⟩
    rw [isUnicode, encode, decodeChars_encodeChars]
    rfl

theorem encode_ofString {s : String} (h : ∀ c ∈ s.toList, c.toNat < 0x10000) : encode s = ofString s := by
  revert h
  rw [encode, encodeChars, ofString]
  induction s.toList with
  | nil => simp
  | cons c l ih =>
    intro h
    obtain ⟨hc, hl⟩ := List.forall_mem_cons.1 h
    rw [List.flatMap_cons, encodeChar, if_pos hc, List.map_cons, List.singleton_append, ih hl]

theorem length_encode (s : String) : (encode s).length = (s.toList.map fun c => if c.toNat < 0x10000 then 1 else 2).sum := by
  rw [encode, encodeChars]
  induction s.toList with
  | nil => rfl
  | cons c l ih =>
    rw [List.flatMap_cons, List.length_append, ih, List.map_cons, List.sum_cons, encodeChar]
    split_ifs <;> rfl

/-- ASCII is written unit by unit -/
theorem utf8Bytes_ascii {s : JavaString} (h : IsAscii s) : utf8Bytes s = s.map UInt16.toUInt8 := by
  induction s with
  | nil => rfl
  | cons u rest ih =>
    have hu : u.toNat < 0x80 := UInt16.lt_iff_toNat_lt.1 (h u List.mem_cons_self)
    have hhigh : isHighSurrogate u = false := by
      rw [Bool.eq_false_iff, Ne, isHighSurrogate_iff]
      omega
    have hlow : isLowSurrogate u = false := by
      rw [Bool.eq_false_iff, Ne, isLowSurrogate_iff]
      omega
    have hchar : (Char.ofNat u.toNat).toNat = u.toNat := by
      apply toNat_char
      unfold Nat.isValidChar
      omega
    have hbyte : String.utf8EncodeChar (Char.ofNat u.toNat) = [u.toUInt8] := by
      have hval : (Char.ofNat u.toNat).val.toNat = u.toNat := hchar
      rw [String.utf8EncodeChar, hval, if_pos (by omega)]
      rfl
    rw [utf8Bytes.eq_def]
    simp only [hhigh, hlow, Bool.false_eq_true, if_false, hbyte, List.singleton_append, List.map_cons]
    rw [ih fun c hc => h c (List.mem_cons_of_mem u hc)]

end Utf16

end EspectralClient.Lib
