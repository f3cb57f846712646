/-
Which bytes a text decoded with replacements comes from.

- `utf8EncodeChar_of_decodeOne`: a character that is no replacement is read from its own bytes.
- `decodeLossy_beginning`: a beginning without the replacement character is read from its own bytes, and the rest from
  the rest.
- `splitOn_utf8Chars`: the bytes of a text, split at an ASCII byte, are the bytes of the pieces of the text.
-/
import EspectralClient.Lib.Bytes
import EspectralClient.Lib.Split

namespace EspectralClient.Lib.Bytes

/-- the bytes of characters -/
def utf8Chars (l : List Char) : List UInt8 := l.flatMap String.utf8EncodeChar

theorem utf8Chars_cons (c : Char) (l : List Char) : utf8Chars (c :: l) = String.utf8EncodeChar c ++ utf8Chars l := rfl

theorem utf8Chars_append (l l' : List Char) : utf8Chars (l ++ l') = utf8Chars l ++ utf8Chars l' := List.flatMap_append

theorem utf8_eq_chars (s : String) : utf8 s = utf8Chars s.toList := rfl

/-! ## From a character to its bytes -/

theorem toNat_ofNat_valid {v : ℕ} (h : v < 0xd800 ∨ 0xdfff < v ∧ v < 0x110000) : (Char.ofNat v).val.toNat = v := by
  have hv : v.isValidChar := h
  rw [Char.ofNat, dif_pos hv]
  rfl

/-- a byte that is not past the end -/
theorem exists_cons {s : List UInt8} (h : safeGet s 0 ≠ 0) : ∃ y rest, s = y :: rest := by
  cases s with
  | nil => exact absurd rfl h
  | cons y rest => exact ⟨y, rest, rfl⟩

theorem safeGet_succ (y : UInt8) (s : List UInt8) (i : ℕ) : safeGet (y :: s) (i + 1) = safeGet s i := rfl

theorem safeGet_zero (y : UInt8) (s : List UInt8) : safeGet (y :: s) 0 = y.toNat := rfl

theorem isCont_iff {y : ℕ} : isCont y = true ↔ 0x80 ≤ y ∧ y ≤ 0xbf := by simp [isCont]

theorem isSecond_bounds {x y : ℕ} (h : isSecond x y = true) : 0x80 ≤ y ∧ y ≤ 0xbf ∧ (x = 0xe0 → 0xa0 ≤ y) ∧
    (x = 0xed → y ≤ 0x9f) ∧ (x = 0xf0 → 0x90 ≤ y) ∧ (x = 0xf4 → y ≤ 0x8f) := by
  unfold isSecond at h
  split_ifs at h <;> simp only [isCont, decide_eq_true_eq] at h <;> omega

theorem eq_ofNat {b : UInt8} {n : ℕ} (h : n % 256 = b.toNat) : UInt8.ofNat n = b := by
  rw [← UInt8.toNat_inj, UInt8.toNat_ofNat', ← h]

/-- the bytes that a character is read from are those it is written as -/
theorem utf8EncodeChar_of_decodeOne {b : UInt8} {s : List UInt8} {c : Char} (h : (decodeOne b s).1 = some c) :
    String.utf8EncodeChar c = b :: s.take (decodeOne b s).2 ∧ (decodeOne b s).2 ≤ s.length := by
  have hb := b.toNat_lt
  unfold decodeOne at h ⊢
  dsimp only at h ⊢
  split_ifs at h ⊢ with h1 h2 h3 h4 h5 h6 h7 h8 h9 h10
  · rw [Option.some_inj] at h
    subst h
    refine ⟨?_, Nat.zero_le _⟩
    have hv := toNat_ofNat_valid (v := b.toNat) (by omega)
    simp only [String.utf8EncodeChar, hv, if_pos (show b.toNat ≤ 127 by omega), List.take_zero]
    rw [eq_ofNat (b := b) (by omega)]
  · rw [Option.some_inj] at h
    subst h
    rw [isCont_iff] at h3
    obtain ⟨y, s, rfl⟩ := exists_cons (show safeGet s 0 ≠ 0 by omega)
    rw [safeGet_zero] at h3 ⊢
    have hv := toNat_ofNat_valid (v := (b.toNat - 0xc0) * 64 + (y.toNat - 0x80)) (by omega)
    refine ⟨?_, by simp⟩
    simp only [String.utf8EncodeChar, hv]
    rw [if_neg (by omega), if_pos (by omega), eq_ofNat (b := b) (by omega), eq_ofNat (b := y) (by omega)]
    rfl
  · rw [Option.some_inj] at h
    subst h
    have h5' := isSecond_bounds h5
    rw [isCont_iff] at h6
    obtain ⟨y, s, rfl⟩ := exists_cons (show safeGet s 0 ≠ 0 by omega)
    rw [safeGet_succ] at h6 ⊢
    obtain ⟨z, s, rfl⟩ := exists_cons (show safeGet s 0 ≠ 0 by omega)
    simp only [safeGet_zero] at h5' h6 ⊢
    have hv := toNat_ofNat_valid (v := (b.toNat - 0xe0) * 4096 + (y.toNat - 0x80) * 64 + (z.toNat - 0x80)) (by omega)
    refine ⟨?_, by simp⟩
    simp only [String.utf8EncodeChar, hv]
    rw [if_neg (by omega), if_neg (by omega), if_pos (by omega), eq_ofNat (b := b) (by omega),
      eq_ofNat (b := y) (by omega), eq_ofNat (b := z) (by omega)]
    rfl
  · rw [Option.some_inj] at h
    subst h
    have h8' := isSecond_bounds h8
    rw [isCont_iff] at h9 h10
    obtain ⟨y, s, rfl⟩ := exists_cons (show safeGet s 0 ≠ 0 by omega)
    rw [safeGet_succ] at h9 h10 ⊢
    rw [safeGet_succ]
    obtain ⟨z, s, rfl⟩ := exists_cons (show safeGet s 0 ≠ 0 by omega)
    rw [safeGet_succ] at h10 ⊢
    obtain ⟨w, s, rfl⟩ := exists_cons (show safeGet s 0 ≠ 0 by omega)
    simp only [safeGet_zero] at h8' h9 h10 ⊢
    have hv := toNat_ofNat_valid (v := (b.toNat - 0xf0) * 262144 + (y.toNat - 0x80) * 4096 + (z.toNat - 0x80) * 64 +
      (w.toNat - 0x80)) (by omega)
    refine ⟨?_, by simp⟩
    simp only [String.utf8EncodeChar, hv]
    rw [if_neg (by omega), if_neg (by omega), if_neg (by omega), eq_ofNat (b := b) (by omega),
      eq_ofNat (b := y) (by omega), eq_ofNat (b := z) (by omega), eq_ofNat (b := w) (by omega)]
    rfl

/-- **A beginning without replacements is read from its own bytes.** -/
theorem decodeLossy_beginning {t l : List Char} (ht : '\uFFFD' ∉ t) {bs : List UInt8} (h : decodeLossy 0 bs = t ++ l) :
    ∃ rest, bs = utf8Chars t ++ rest ∧ decodeLossy 0 rest = l := by
  induction t generalizing bs with
  | nil => exact ⟨bs, rfl, h⟩
  | cons c t ih =>
    rw [List.mem_cons, not_or] at ht
    cases bs with
    | nil => cases h
    | cons b s =>
      rw [decodeLossy, List.cons_append, List.cons.injEq] at h
      obtain ⟨hfirst, hrest⟩ := h
      have hone : (decodeOne b s).1 = some c := by
        cases hdecode : (decodeOne b s).1 with
        | none =>
          rw [hdecode] at hfirst
          exact absurd hfirst ht.1
        | some d =>
          rw [hdecode] at hfirst
          exact congrArg some hfirst
      obtain ⟨hbytes, hlength⟩ := utf8EncodeChar_of_decodeOne hone
      have hskip := decodeLossy_skip (s.take (decodeOne b s).2) (s.drop (decodeOne b s).2)
      rw [List.take_append_drop, List.length_take, min_eq_left hlength, hrest] at hskip
      obtain ⟨rest, hdrop, htail⟩ := ih ht.2 hskip.symm
      refine ⟨rest, ?_, htail⟩
      rw [utf8Chars, List.flatMap_cons, hbytes, List.cons_append, List.cons_append, List.append_assoc]
      rw [← utf8Chars, ← hdrop, List.take_append_drop]

/-! ## Texts in pieces -/

/-- an ASCII byte stands for itself alone -/
theorem ascii_mem_utf8EncodeChar {c : Char} {b : UInt8} (hb : b.toNat < 0x80) (h : b ∈ String.utf8EncodeChar c) :
    c = Char.ofNat b.toNat := by
  have hcode := toNat_ofNat_ascii hb
  unfold String.utf8EncodeChar at h
  dsimp only at h
  split_ifs at h <;>
    simp only [List.mem_cons, List.not_mem_nil, or_false, ← UInt8.toNat_inj, UInt8.toNat_ofNat'] at h
  · have hval : c.toNat = c.val.toNat := rfl
    exact Char.toNat_inj.1 (by omega)
  · omega
  · omega
  · omega

theorem utf8Chars_intercalate (c : Char) (pieces : List (List Char)) :
    utf8Chars ([c].intercalate pieces) = (String.utf8EncodeChar c).intercalate (pieces.map utf8Chars) := by
  induction pieces with
  | nil => rfl
  | cons first rest ih =>
    cases rest with
    | nil => simp [utf8Chars]
    | cons second rest =>
      rw [List.intercalate_cons_cons, List.map_cons, List.map_cons, List.intercalate_cons_cons, ← List.map_cons, ← ih]
      simp [utf8Chars]

/-- the character of an ASCII byte is written as it -/
theorem utf8EncodeChar_ofNat {b : UInt8} (hb : b.toNat < 0x80) : String.utf8EncodeChar (Char.ofNat b.toNat) = [b] := by
  have hval : (Char.ofNat b.toNat).val.toNat = b.toNat := toNat_ofNat_ascii hb
  simp only [String.utf8EncodeChar, hval, if_pos (show b.toNat ≤ 127 by omega)]
  rw [eq_ofNat (b := b) (by omega)]

theorem utf8Chars_asciiText {m : List UInt8} (hm : ∀ b ∈ m, b.toNat < 0x80) : utf8Chars (asciiText m) = m := by
  induction m with
  | nil => rfl
  | cons b m ih =>
    rw [asciiText, List.map_cons, utf8Chars_cons, utf8EncodeChar_ofNat (hm b List.mem_cons_self), ← asciiText,
      ih fun c hc => hm c (List.mem_cons_of_mem b hc)]
    rfl

/-- **A text is split where its bytes are.** -/
theorem splitOn_utf8Chars {b : UInt8} (hb : b.toNat < 0x80) (l : List Char) :
    (utf8Chars l).splitOn b = (l.splitOn (Char.ofNat b.toNat)).map utf8Chars := by
  have hbyte := utf8EncodeChar_ofNat hb
  have hjoin : utf8Chars l = [b].intercalate ((l.splitOn (Char.ofNat b.toNat)).map utf8Chars) := by
    rw [← hbyte, ← utf8Chars_intercalate, List.intercalate_splitOn]
  rw [hjoin, List.splitOn_intercalate]
  · intro piece hpiece hmem
    obtain ⟨chars, hchars, rfl⟩ := List.mem_map.1 hpiece
    obtain ⟨c, hc, hbytes⟩ := List.mem_flatMap.1 hmem
    obtain ⟨-, hne⟩ := Split.mem_splitOn hchars hc
    exact hne (ascii_mem_utf8EncodeChar hb hbytes)
  · simp

end EspectralClient.Lib.Bytes
