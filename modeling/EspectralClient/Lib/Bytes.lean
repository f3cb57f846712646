/-
Byte strings as the formats here use them: numbers of a fixed width and UTF-8 text.

- `toBe`, `fromBe`: fixed-width big-endian numbers, and `fromBe_toBe`, that a number that fits its width reads back.
- `compare_fromBe`: byte strings of one length are in the order of the numbers they spell.
- `toLe`, `fromLe`, `toArray`: little-endian numbers and arrays of a fixed length.
- `utf8`, `fromUtf8Lossy`: the bytes of a text, and the lossy decoder that answers U+FFFD for every maximal invalid
  piece.
- `fromUtf8Lossy_utf8`: the decoder returns every text from its bytes.
- `infix_fromUtf8Lossy`: an ASCII text is in a decoded text where its bytes are in the bytes.
-/
import Mathlib.Tactic

namespace EspectralClient.Lib.Bytes

/-! ## Big-endian numbers -/

/-- the big-endian number a byte string spells -/
def fromBe (bs : List UInt8) : ℕ := bs.foldl (fun n b => n * 256 + b.toNat) 0

/-- the `k` low bytes of `n`, most significant first -/
def toBe : ℕ → ℕ → List UInt8
  | 0, _ => []
  | k + 1, n => .ofNat (n / 256 ^ k) :: toBe k n

@[simp] theorem length_toBe (k n : ℕ) : (toBe k n).length = k := by
  induction k with
  | zero => rfl
  | succ k ih => simp [toBe, ih]

theorem foldl_toBe (k n a : ℕ) :
    (toBe k n).foldl (fun n b => n * 256 + b.toNat) a = a * 256 ^ k + n % 256 ^ k := by
  induction k generalizing a with
  | zero => simp [toBe, Nat.mod_one]
  | succ k ih =>
    rw [toBe, List.foldl_cons, ih, Nat.mod_pow_succ, UInt8.toNat_ofNat']
    ring

theorem fromBe_toBe {k n : ℕ} (h : n < 256 ^ k) : fromBe (toBe k n) = n := by
  rw [fromBe, foldl_toBe, Nat.mod_eq_of_lt h]
  omega

theorem foldl_fromBe (l : List UInt8) (a : ℕ) :
    l.foldl (fun n b => n * 256 + b.toNat) a = a * 256 ^ l.length + fromBe l := by
  unfold fromBe
  induction l generalizing a with
  | nil => simp
  | cons b l ih =>
    rw [List.foldl_cons, ih, List.foldl_cons, ih (0 * 256 + b.toNat), List.length_cons]
    ring

theorem fromBe_append (a b : List UInt8) : fromBe (a ++ b) = fromBe a * 256 ^ b.length + fromBe b := by
  rw [fromBe, List.foldl_append, foldl_fromBe b]
  rfl

theorem fromBe_cons (b : UInt8) (l : List UInt8) : fromBe (b :: l) = b.toNat * 256 ^ l.length + fromBe l := by
  rw [fromBe, List.foldl_cons, foldl_fromBe, Nat.zero_mul, Nat.zero_add]

theorem fromBe_lt (l : List UInt8) : fromBe l < 256 ^ l.length := by
  induction l with
  | nil => simp [fromBe]
  | cons b l ih =>
    have hb : b.toNat < 256 := b.toNat_lt
    rw [fromBe_cons, List.length_cons, pow_succ]
    nlinarith

theorem compare_toNat (x y : UInt8) : compare x y = compare x.toNat y.toNat := by
  change compareOfLessAndEq x y = compareOfLessAndEq x.toNat y.toNat
  simp only [compareOfLessAndEq, UInt8.lt_iff_toNat_lt, ← UInt8.toNat_inj]

theorem compare_digits {x y u v m : ℕ} (hu : u < m) (hv : v < m) :
    compare (x * m + u) (y * m + v) = (compare x y).then (compare u v) := by
  rcases lt_trichotomy x y with hxy | rfl | hxy
  · have hlt : x * m + u < y * m + v := by nlinarith
    rw [compare_lt_iff_lt.2 hxy, compare_lt_iff_lt.2 hlt]
    rfl
  · rcases lt_trichotomy u v with huv | rfl | huv
    · rw [compare_lt_iff_lt.2 huv, compare_lt_iff_lt.2 (by omega), compare_eq_iff_eq.2 rfl]
      rfl
    · rw [compare_eq_iff_eq.2 rfl, compare_eq_iff_eq.2 rfl, compare_eq_iff_eq.2 rfl]
      rfl
    · rw [compare_gt_iff_gt.2 huv, compare_gt_iff_gt.2 (by omega), compare_eq_iff_eq.2 rfl]
      rfl
  · have hgt : y * m + v < x * m + u := by nlinarith
    rw [compare_gt_iff_gt.2 hxy, compare_gt_iff_gt.2 hgt]
    rfl

/-- **Byte order is number order.** Byte strings of one length compare byte by byte as the numbers they spell. -/
theorem compare_fromBe {a b : List UInt8} (h : a.length = b.length) : compare a b = compare (fromBe a) (fromBe b) := by
  induction a generalizing b with
  | nil =>
    cases b with
    | nil => rfl
    | cons y b => simp at h
  | cons x a ih =>
    cases b with
    | nil => simp at h
    | cons y b =>
      have hlen : a.length = b.length := by simpa using h
      have ha := fromBe_lt a
      rw [hlen] at ha
      rw [List.compare_cons_cons, ih hlen, fromBe_cons, fromBe_cons, hlen, compare_toNat,
        compare_digits ha (fromBe_lt b)]

theorem fromBe_inj {a b : List UInt8} (h : a.length = b.length) : fromBe a = fromBe b ↔ a = b := by
  refine ⟨fun heq => ?_, fun heq => heq ▸ rfl⟩
  have hcmp := compare_fromBe h
  rw [compare_eq_iff_eq.2 heq] at hcmp
  exact Std.LawfulEqOrd.eq_of_compare hcmp

/-! ## Little-endian numbers and arrays -/

/-- the little-endian number a byte string spells -/
def fromLe (bs : List UInt8) : ℕ := fromBe bs.reverse

/-- the `k` low bytes of `n`, least significant first -/
def toLe (k n : ℕ) : List UInt8 := (toBe k n).reverse

/-- the first `n` bytes; what is missing is 0 -/
def toArray (n : ℕ) (bs : List UInt8) : Vector UInt8 n := .ofFn fun i => bs.getD i 0

@[simp] theorem length_toLe (k n : ℕ) : (toLe k n).length = k := by simp [toLe]

theorem fromLe_toLe {k n : ℕ} (h : n < 256 ^ k) : fromLe (toLe k n) = n := by
  rw [fromLe, toLe, List.reverse_reverse, fromBe_toBe h]

theorem fromLe_cons (b : UInt8) (l : List UInt8) : fromLe (b :: l) = fromLe l * 256 + b.toNat := by
  rw [fromLe, List.reverse_cons, fromBe_append]
  simp [fromLe, fromBe]

theorem toLe_fromLe {k : ℕ} {bs : List UInt8} (h : bs.length = k) : toLe k (fromLe bs) = bs := by
  have hlen : bs.reverse.length = k := by rw [List.length_reverse, h]
  have hlt := fromBe_lt bs.reverse
  rw [hlen] at hlt
  have hsame : toBe k (fromBe bs.reverse) = bs.reverse :=
    (fromBe_inj (by rw [length_toBe, hlen])).1 (fromBe_toBe hlt)
  unfold toLe fromLe
  rw [hsame, List.reverse_reverse]

theorem fromLe_lt (bs : List UInt8) : fromLe bs < 256 ^ bs.length := by
  have hlt := fromBe_lt bs.reverse
  rwa [List.length_reverse] at hlt

theorem toList_toArray {n : ℕ} {bs : List UInt8} (h : bs.length = n) : (toArray n bs).toList = bs := by
  apply List.ext_getElem
  · simp [h]
  · intro i hi hi'
    simp [toArray, hi']

@[simp] theorem toArray_toList {n : ℕ} (v : Vector UInt8 n) : toArray n v.toList = v := by
  rw [← Vector.toList_inj, toList_toArray v.length_toList]

/-! ## UTF-8 -/

/-- the UTF-8 bytes of a text -/
def utf8 (s : String) : List UInt8 := s.toList.flatMap String.utf8EncodeChar

/-- a continuation byte, `10xxxxxx` -/
def isCont (y : ℕ) : Bool := 0x80 ≤ y ∧ y ≤ 0xbf

/-- a second byte that may follow the lead byte `x` of a three or four byte character: no overlong form, no surrogate,
nothing past U+10FFFF -/
def isSecond (x y : ℕ) : Bool :=
  if x = 0xe0 then 0xa0 ≤ y ∧ y ≤ 0xbf
  else if x = 0xed then 0x80 ≤ y ∧ y ≤ 0x9f
  else if x = 0xf0 then 0x90 ≤ y ∧ y ≤ 0xbf
  else if x = 0xf4 then 0x80 ≤ y ∧ y ≤ 0x8f
  else isCont y

/-- the `i`-th byte, and 0 past the end -/
def safeGet (s : List UInt8) (i : ℕ) : ℕ := (s.getD i 0).toNat

/-- the character that starts with byte `b`, or `none` for an invalid piece, and how many bytes after `b` it takes -/
def decodeOne (b : UInt8) (s : List UInt8) : Option Char × ℕ :=
  let x := b.toNat
  if x < 0x80 then (some (.ofNat x), 0)
  else if 0xc2 ≤ x ∧ x ≤ 0xdf then
    if isCont (safeGet s 0) then (some (.ofNat ((x - 0xc0) * 64 + (safeGet s 0 - 0x80))), 1) else (none, 0)
  else if 0xe0 ≤ x ∧ x ≤ 0xef then
    if isSecond x (safeGet s 0) then
      if isCont (safeGet s 1) then
        (some (.ofNat ((x - 0xe0) * 4096 + (safeGet s 0 - 0x80) * 64 + (safeGet s 1 - 0x80))), 2)
      else (none, 1)
    else (none, 0)
  else if 0xf0 ≤ x ∧ x ≤ 0xf4 then
    if isSecond x (safeGet s 0) then
      if isCont (safeGet s 1) then
        if isCont (safeGet s 2) then
          (some (.ofNat ((x - 0xf0) * 262144 + (safeGet s 0 - 0x80) * 4096 + (safeGet s 1 - 0x80) * 64 +
            (safeGet s 2 - 0x80))), 3)
        else (none, 2)
      else (none, 1)
    else (none, 0)
  else (none, 0)

/-- the characters of a byte string; the counter skips bytes that a character already took -/
def decodeLossy : ℕ → List UInt8 → List Char
  | _, [] => []
  | skip + 1, _ :: s => decodeLossy skip s
  | 0, b :: s => (decodeOne b s).1.getD '\uFFFD' :: decodeLossy (decodeOne b s).2 s

/-- `String::from_utf8_lossy` -/
def fromUtf8Lossy (s : List UInt8) : String := .ofList (decodeLossy 0 s)

@[simp] theorem utf8_empty : utf8 "" = [] := rfl

theorem decodeLossy_skip (s rest : List UInt8) : decodeLossy s.length (s ++ rest) = decodeLossy 0 rest := by
  induction s with
  | nil => rfl
  | cons b s ih => simpa [decodeLossy] using ih

/-- an encoded character decodes to itself, and nothing after it is touched -/
theorem decodeOne_utf8EncodeChar (c : Char) (rest : List UInt8) :
    ∃ b s, String.utf8EncodeChar c = b :: s ∧ decodeOne b (s ++ rest) = (some c, s.length) := by
  have hc : Char.ofNat c.val.toNat = c := Char.ofNat_toNat c
  have hv : c.val.toNat < 0xd800 ∨ 0xdfff < c.val.toNat ∧ c.val.toNat < 0x110000 := c.valid
  unfold String.utf8EncodeChar
  generalize c.val.toNat = v at hc hv
  dsimp only
  split_ifs with h1 h2 h3
  · refine ⟨_, [], rfl, ?_⟩
    have hx : v % 256 = v := by omega
    have hlt : v < 0x80 := by omega
    simp [decodeOne, hx, hlt, hc]
  · refine ⟨_, [_], rfl, ?_⟩
    have hx : (v / 64 % 32 + 192) % 256 = v / 64 + 192 := by omega
    have hy : (v % 64 + 128) % 256 = v % 64 + 128 := by omega
    have hval : v / 64 * 64 + v % 64 = v := by omega
    have hlead : ¬ v / 64 + 192 < 0x80 ∧ 0xc2 ≤ v / 64 + 192 ∧ v / 64 + 192 ≤ 0xdf := by omega
    have hcont : isCont (v % 64 + 128) = true := by simp [isCont]; omega
    simp [decodeOne, safeGet, hx, hy, hval, hlead, hcont, hc]
  · refine ⟨_, [_, _], rfl, ?_⟩
    have hx : (v / 4096 % 16 + 224) % 256 = v / 4096 + 224 := by omega
    have hy : (v / 64 % 64 + 128) % 256 = v / 64 % 64 + 128 := by omega
    have hz : (v % 64 + 128) % 256 = v % 64 + 128 := by omega
    have hval : v / 4096 * 4096 + v / 64 % 64 * 64 + v % 64 = v := by omega
    have hlead : ¬ v / 4096 + 224 < 0x80 ∧ ¬ v / 4096 + 224 ≤ 0xdf ∧ 0xe0 ≤ v / 4096 + 224 ∧
        v / 4096 + 224 ≤ 0xef := by omega
    have hsecond : isSecond (v / 4096 + 224) (v / 64 % 64 + 128) = true := by
      unfold isSecond isCont
      split_ifs <;> simp only [decide_eq_true_eq] <;> omega
    have hcont : isCont (v % 64 + 128) = true := by simp [isCont]; omega
    simp [decodeOne, safeGet, hx, hy, hz, hval, hlead, hsecond, hcont, hc]
  · refine ⟨_, [_, _, _], rfl, ?_⟩
    have hx : (v / 262144 % 8 + 240) % 256 = v / 262144 + 240 := by omega
    have hy : (v / 4096 % 64 + 128) % 256 = v / 4096 % 64 + 128 := by omega
    have hz : (v / 64 % 64 + 128) % 256 = v / 64 % 64 + 128 := by omega
    have hw : (v % 64 + 128) % 256 = v % 64 + 128 := by omega
    have hval : v / 262144 * 262144 + v / 4096 % 64 * 4096 + v / 64 % 64 * 64 + v % 64 = v := by omega
    have hlead : ¬ v / 262144 + 240 < 0x80 ∧ ¬ v / 262144 + 240 ≤ 0xdf ∧ ¬ v / 262144 + 240 ≤ 0xef ∧
        0xf0 ≤ v / 262144 + 240 ∧ v / 262144 + 240 ≤ 0xf4 := by omega
    have hsecond : isSecond (v / 262144 + 240) (v / 4096 % 64 + 128) = true := by
      unfold isSecond isCont
      split_ifs <;> simp only [decide_eq_true_eq] <;> omega
    have hcont : isCont (v / 64 % 64 + 128) = true := by simp [isCont]; omega
    have hcont' : isCont (v % 64 + 128) = true := by simp [isCont]; omega
    simp [decodeOne, safeGet, hx, hy, hz, hw, hval, hlead, hsecond, hcont, hcont', hc]

theorem decodeLossy_char (c : Char) (rest : List UInt8) :
    decodeLossy 0 (String.utf8EncodeChar c ++ rest) = c :: decodeLossy 0 rest := by
  obtain ⟨b, s, he, hd⟩ := decodeOne_utf8EncodeChar c rest
  rw [he, List.cons_append, decodeLossy, hd]
  simp [decodeLossy_skip]

/-- two ASCII bytes are two characters -/
theorem fromUtf8Lossy_pair {c0 c1 : UInt8} (h0 : c0.toNat < 0x80) (h1 : c1.toNat < 0x80) :
    fromUtf8Lossy [c0, c1] = .ofList [.ofNat c0.toNat, .ofNat c1.toNat] := by
  simp [fromUtf8Lossy, decodeLossy, decodeOne, h0, h1]

/-- **Lossless on text.** The lossy decoder returns every text from its bytes. -/
theorem fromUtf8Lossy_utf8 (s : String) : fromUtf8Lossy (utf8 s) = s := by
  have h : ∀ l : List Char, decodeLossy 0 (l.flatMap String.utf8EncodeChar) = l := by
    intro l
    induction l with
    | nil => rfl
    | cons c l ih => rw [List.flatMap_cons, decodeLossy_char, ih]
  rw [fromUtf8Lossy, utf8, h, String.ofList_toList]

theorem utf8_ofList_append (a b : List Char) : utf8 (.ofList (a ++ b)) = utf8 (.ofList a) ++ utf8 (.ofList b) := by
  simp [utf8, List.flatMap_append]

theorem length_utf8_le (s : String) : (utf8 s).length ≤ 4 * s.toList.length := by
  rw [utf8]
  induction s.toList with
  | nil => exact Nat.le_refl 0
  | cons c l ih =>
    have hsize := c.utf8Size_le_four
    rw [List.flatMap_cons, List.length_append, String.length_utf8EncodeChar, List.length_cons]
    omega

/-! ### Pieces of a text -/

/-- an ASCII byte does not continue a character -/
theorem decodeOne_ascii (b : UInt8) (s : List UInt8) {c : UInt8} (hc : c.toNat < 0x80) (rest : List UInt8) :
    decodeOne b (s ++ c :: rest) = decodeOne b s ∧ (decodeOne b s).2 ≤ s.length := by
  have hcont : isCont c.toNat = false := by
    simp only [isCont, decide_eq_false_iff_not]
    omega
  have hsecond : ∀ x, isSecond x c.toNat = false := by
    intro x
    unfold isSecond
    split_ifs <;> simp only [isCont, decide_eq_false_iff_not] <;> omega
  have hcont0 : isCont 0 = false := by decide
  have hsecond0 : ∀ x, isSecond x 0 = false := by
    intro x
    unfold isSecond
    split_ifs <;> simp only [isCont, decide_eq_false_iff_not] <;> omega
  rcases s with _ | ⟨y, _ | ⟨z, _ | ⟨w, s⟩⟩⟩
  · simp only [decodeOne, safeGet, List.nil_append, List.getD_cons_zero, List.getD_nil, UInt8.toNat_zero, hcont, hsecond,
      hcont0, hsecond0, Bool.false_eq_true, if_false]
    split_ifs <;> simp
  · simp only [decodeOne, safeGet, List.cons_append, List.nil_append, List.getD_cons_zero, List.getD_cons_succ,
      List.getD_nil, UInt8.toNat_zero, hcont, hcont0, Bool.false_eq_true, if_false]
    split_ifs <;> simp
  · simp only [decodeOne, safeGet, List.cons_append, List.nil_append, List.getD_cons_zero, List.getD_cons_succ,
      List.getD_nil, UInt8.toNat_zero, hcont, hcont0, Bool.false_eq_true, if_false]
    split_ifs <;> simp
  · simp only [decodeOne, safeGet, List.cons_append, List.getD_cons_zero, List.getD_cons_succ]
    split_ifs <;> simp

theorem decodeLossy_append_ascii {c : UInt8} (hc : c.toNat < 0x80) (rest : List UInt8) :
    ∀ (s : List UInt8) (skip : ℕ), skip ≤ s.length →
      decodeLossy skip (s ++ c :: rest) = decodeLossy skip s ++ .ofNat c.toNat :: decodeLossy 0 rest
  | [], skip, h => by
    have hskip : skip = 0 := Nat.le_zero.1 h
    subst hskip
    simp [decodeLossy, decodeOne, hc]
  | b :: s, 0, _ => by
    obtain ⟨hone, hlength⟩ := decodeOne_ascii b s hc rest
    rw [List.cons_append, decodeLossy, decodeLossy, hone, decodeLossy_append_ascii hc rest s _ hlength, List.cons_append]
  | b :: s, skip + 1, h => by
    rw [List.cons_append, decodeLossy, decodeLossy, decodeLossy_append_ascii hc rest s skip (Nat.le_of_succ_le_succ h)]

/-- **The decoder does not look past an ASCII byte**, so a text may be cut there. -/
theorem fromUtf8Lossy_append_ascii (s : List UInt8) {c : UInt8} (hc : c.toNat < 0x80) (rest : List UInt8) :
    (fromUtf8Lossy (s ++ c :: rest)).toList =
      (fromUtf8Lossy s).toList ++ .ofNat c.toNat :: (fromUtf8Lossy rest).toList := by
  simp only [fromUtf8Lossy, String.toList_ofList]
  exact decodeLossy_append_ascii hc rest s 0 (Nat.zero_le _)

theorem ofNat_eq {v : ℕ} {c : Char} (hc : c ≠ '\x00') (h : Char.ofNat v = c) : v = c.toNat := by
  by_cases hv : v.isValidChar
  · have hcode : (Char.ofNat v).toNat = v := by
      rw [Char.ofNat, dif_pos hv]
      rfl
    rw [← h, hcode]
  · rw [Char.ofNat, dif_neg hv] at h
    exact absurd h.symm hc

theorem isSecond_short {x y : ℕ} (h : isSecond x y = true) : (x = 0xe0 → 0xa0 ≤ y) ∧ (x = 0xf0 → 0x90 ≤ y) := by
  unfold isSecond at h
  split_ifs at h <;> simp only [isCont, decide_eq_true_eq] at h <;> omega

/-- an ASCII character is only read from its own byte: what takes more bytes is a larger one -/
theorem decodeOne_char {b : UInt8} {s : List UInt8} {c : Char} (hc : c ≠ '\x00') (hascii : c.toNat < 0x80)
    (h : (decodeOne b s).1 = some c) : b.toNat = c.toNat := by
  unfold decodeOne at h
  dsimp only at h
  split_ifs at h
  · exact ofNat_eq hc (Option.some.inj h)
  · have hv := ofNat_eq hc (Option.some.inj h)
    omega
  · rename_i hsecond _
    have hv := ofNat_eq hc (Option.some.inj h)
    have hshort := isSecond_short hsecond
    omega
  · rename_i hsecond _ _
    have hv := ofNat_eq hc (Option.some.inj h)
    have hshort := isSecond_short hsecond
    omega

/-- only its own byte is a newline -/
theorem decodeOne_newline {b : UInt8} {s : List UInt8} (h : (decodeOne b s).1 = some '\n') : b = 0x0a :=
  UInt8.toNat_inj.1 (decodeOne_char (by decide) (by decide) h)

/-- a newline is only read from its byte -/
theorem newline_mem_fromUtf8Lossy {s : List UInt8} (h : '\n' ∈ (fromUtf8Lossy s).toList) : 0x0a ∈ s := by
  have hmem : ∀ (s : List UInt8) (skip : ℕ), '\n' ∈ decodeLossy skip s → 0x0a ∈ s := by
    intro s
    induction s with
    | nil =>
      intro skip h
      cases skip <;> simp [decodeLossy] at h
    | cons b s ih =>
      intro skip h
      cases skip with
      | zero =>
        rw [decodeLossy] at h
        rcases List.mem_cons.1 h with h | h
        · cases hone : (decodeOne b s).1 with
          | none =>
            rw [hone] at h
            cases h
          | some c =>
            rw [hone, Option.getD_some] at h
            rw [decodeOne_newline (hone.trans (congrArg some h.symm))]
            exact List.mem_cons_self
        · exact List.mem_cons_of_mem _ (ih _ h)
      | succ skip =>
        rw [decodeLossy] at h
        exact List.mem_cons_of_mem _ (ih _ h)
  rw [fromUtf8Lossy, String.toList_ofList] at h
  exact hmem s 0 h

theorem decodeLossy_cons_ascii {b : UInt8} (hb : b.toNat < 0x80) (s : List UInt8) :
    decodeLossy 0 (b :: s) = .ofNat b.toNat :: decodeLossy 0 s := by
  simp [decodeLossy, decodeOne, hb]

/-- the text of ASCII bytes -/
def asciiText (m : List UInt8) : List Char := m.map fun b => Char.ofNat b.toNat

theorem toNat_ofNat_ascii {b : UInt8} (hb : b.toNat < 0x80) : (Char.ofNat b.toNat).toNat = b.toNat := by
  have hv : b.toNat.isValidChar := .inl (by omega)
  rw [Char.ofNat, dif_pos hv]
  rfl

theorem decodeLossy_ascii_append {m : List UInt8} (hm : ∀ b ∈ m, b.toNat < 0x80) (rest : List UInt8) :
    decodeLossy 0 (m ++ rest) = asciiText m ++ decodeLossy 0 rest := by
  induction m with
  | nil => rfl
  | cons b m ih =>
    rw [List.cons_append, decodeLossy_cons_ascii (hm b List.mem_cons_self), ih fun c hc => hm c (List.mem_cons_of_mem b hc)]
    rfl

theorem prefix_decodeLossy {m : List UInt8} (hm : ∀ b ∈ m, 0 < b.toNat ∧ b.toNat < 0x80) {s : List UInt8}
    (h : asciiText m <+: decodeLossy 0 s) : m <+: s := by
  induction m generalizing s with
  | nil => exact List.nil_prefix
  | cons b m ih =>
    obtain ⟨hpos, hascii⟩ := hm b List.mem_cons_self
    have hcode := toNat_ofNat_ascii hascii
    cases s with
    | nil =>
      rw [asciiText, List.map_cons] at h
      exact absurd (List.prefix_nil.1 h) (List.cons_ne_nil _ _)
    | cons d s =>
      rw [asciiText, List.map_cons, decodeLossy, List.cons_prefix_cons] at h
      obtain ⟨hfirst, hrest⟩ := h
      have hne : Char.ofNat b.toNat ≠ '\x00' := by
        intro hzero
        rw [hzero] at hcode
        have h0 : ('\x00' : Char).toNat = 0 := rfl
        omega
      have hd : d.toNat = b.toNat := by
        cases hone : (decodeOne d s).1 with
        | none =>
          rw [hone] at hfirst
          rw [hfirst, Option.getD_none] at hcode
          have hfffd : ('\uFFFD' : Char).toNat = 0xfffd := rfl
          omega
        | some c =>
          rw [hone, Option.getD_some] at hfirst
          rw [← hfirst] at hone
          rw [decodeOne_char hne (by omega) hone, hcode]
      have hsame : d = b := UInt8.toNat_inj.1 hd
      subst hsame
      have htail : (decodeOne d s).2 = 0 := by simp [decodeOne, hascii]
      rw [htail] at hrest
      rw [List.cons_prefix_cons]
      exact ⟨rfl, ih (fun c hc => hm c (List.mem_cons_of_mem d hc)) hrest⟩

/-- **An ASCII text is read exactly where its bytes are.** -/
theorem infix_fromUtf8Lossy {m : List UInt8} (hne : m ≠ []) (hm : ∀ b ∈ m, 0 < b.toNat ∧ b.toNat < 0x80) (s : List UInt8) :
    asciiText m <:+: (fromUtf8Lossy s).toList ↔ m <:+: s := by
  have hascii : ∀ b ∈ m, b.toNat < 0x80 := fun b hb => (hm b hb).2
  constructor
  · have hall : ∀ (s : List UInt8) (skip : ℕ), asciiText m <:+: decodeLossy skip s → m <:+: s := by
      intro s
      induction s with
      | nil =>
        intro skip h
        cases skip <;>
        · rw [decodeLossy, List.infix_nil] at h
          exact absurd (List.map_eq_nil_iff.1 h) hne
      | cons b s ih =>
        intro skip h
        cases skip with
        | succ skip =>
          rw [decodeLossy] at h
          exact List.infix_cons (ih skip h)
        | zero =>
          have hsplit := h
          rw [decodeLossy, List.infix_cons_iff] at hsplit
          rcases hsplit with hprefix | htail
          · have hwhole : asciiText m <+: decodeLossy 0 (b :: s) := by
              rw [decodeLossy]
              exact hprefix
            exact (prefix_decodeLossy hm hwhole).isInfix
          · exact List.infix_cons (ih _ htail)
    rw [fromUtf8Lossy, String.toList_ofList]
    exact hall s 0
  · rintro ⟨a, b, rfl⟩
    cases m with
    | nil => exact absurd rfl hne
    | cons c m =>
      have hcut := fromUtf8Lossy_append_ascii a (hascii c List.mem_cons_self) (m ++ b)
      have hrest : (fromUtf8Lossy (m ++ b)).toList = asciiText m ++ (fromUtf8Lossy b).toList := by
        simp only [fromUtf8Lossy, String.toList_ofList]
        exact decodeLossy_ascii_append (fun d hd => hascii d (List.mem_cons_of_mem c hd)) b
      rw [List.append_assoc, List.cons_append, hcut, hrest]
      exact ⟨(fromUtf8Lossy a).toList, (fromUtf8Lossy b).toList, by simp [asciiText]⟩

/-- `fs::read_to_string`: the text whose bytes these are -/
def fromUtf8 (s : List UInt8) : Option String := if utf8 (fromUtf8Lossy s) = s then some (fromUtf8Lossy s) else none

@[simp] theorem fromUtf8_utf8 (s : String) : fromUtf8 (utf8 s) = some s := by
  rw [fromUtf8, fromUtf8Lossy_utf8, if_pos rfl]

theorem newline_mem_utf8EncodeChar {c : Char} (h : (0x0a : UInt8) ∈ String.utf8EncodeChar c) : c = '\n' := by
  have hten : (0x0a : UInt8).toNat = 10 := rfl
  unfold String.utf8EncodeChar at h
  dsimp only at h
  split_ifs at h <;>
    simp only [List.mem_cons, List.not_mem_nil, or_false, ← UInt8.toNat_inj, UInt8.toNat_ofNat', hten] at h
  · have hcode : c.toNat = '\n'.toNat := by
      have hnl : '\n'.toNat = 10 := rfl
      have hval : c.toNat = c.val.toNat := rfl
      omega
    exact Char.toNat_inj.1 hcode
  · omega
  · omega
  · omega

theorem newline_mem_utf8 {s : String} (h : (0x0a : UInt8) ∈ utf8 s) : '\n' ∈ s.toList := by
  obtain ⟨c, hc, hmem⟩ := List.mem_flatMap.1 h
  exact newline_mem_utf8EncodeChar hmem ▸ hc

end EspectralClient.Lib.Bytes
