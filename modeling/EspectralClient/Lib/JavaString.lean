/-
Java strings: sequences of UTF-16 code units, with the few operations of `String` and `CharsetEncoder` that code reading
and writing ASCII protocols needs.

- `usAscii`: the US-ASCII encoder, which writes `?` for what it cannot encode.
- `usAscii_ascii`: on ASCII strings it writes each unit as its byte.
- `decimal_digits`, `decimal_value`: a printed number is digits, and the digits have its value.
- `trim_eq_self_iff`: trimming leaves a text whose ends are above a space.
- `indexOf_eq_some`, `lastIndexOf_eq_some`, `indexOfText_eq_some`: an index is a split of the string.
-/
import Mathlib.Tactic
import Mathlib.Data.List.DropRight
import Mathlib.Data.List.TakeWhile

namespace EspectralClient.Lib

abbrev JavaString := List UInt16

namespace JavaString

/-- a literal of the source whose characters are single code units -/
def ofString (s : String) : JavaString := s.toList.map fun c => UInt16.ofNat c.toNat

def IsAscii (s : JavaString) : Prop := ∀ c ∈ s, c < 0x80

instance (s : JavaString) : Decidable (IsAscii s) := List.decidableBAll (fun c => c < 0x80) s

/-- `String.trim`: nothing up to a space is kept at either end -/
def trim (s : JavaString) : JavaString := List.rdropWhile (· ≤ 0x20) (s.dropWhile (· ≤ 0x20))

def isHighSurrogate (c : UInt16) : Bool := 0xd800 ≤ c ∧ c ≤ 0xdbff

def isLowSurrogate (c : UInt16) : Bool := 0xdc00 ≤ c ∧ c ≤ 0xdfff

/-- the US-ASCII encoder with replacement; a surrogate pair is one character, replaced at its first half -/
def encodeAfter (afterHigh : Bool) : JavaString → List UInt8
  | [] => []
  | c :: s =>
    if c < 0x80 then c.toUInt8 :: encodeAfter false s
    else if afterHigh ∧ isLowSurrogate c then encodeAfter false s
    else 0x3f :: encodeAfter (isHighSurrogate c) s

def usAscii (s : JavaString) : List UInt8 := encodeAfter false s

/-- the bytes of a string read one unit a byte -/
def ofBytes (bytes : List UInt8) : JavaString := bytes.map UInt8.toUInt16

/-- a non-negative number in string concatenation -/
def decimal (n : ℕ) : JavaString := (Nat.toDigits 10 n).map fun c => UInt16.ofNat c.toNat

/-- `Integer.toHexString` -/
def hex (n : ℕ) : JavaString := (Nat.toDigits 16 n).map fun c => UInt16.ofNat c.toNat

/-- `indexOf` of a unit; `none` is -1 -/
def indexOf (c : UInt16) (s : JavaString) : Option ℕ := s.idxOf? c

def lastIndexOf (c : UInt16) (s : JavaString) : Option ℕ := (s.reverse.idxOf? c).map fun i => s.length - 1 - i

/-- `indexOf` of a text -/
def indexOfText (sub : JavaString) : JavaString → Option ℕ
  | [] => if sub = [] then some 0 else none
  | c :: s => if sub <+: c :: s then some 0 else (indexOfText sub s).map (· + 1)

/-- lower case of the ASCII units -/
def asciiLower (c : UInt16) : UInt16 := if 0x41 ≤ c ∧ c ≤ 0x5a then c + 0x20 else c

/-- upper case of the ASCII units -/
def asciiUpper (c : UInt16) : UInt16 := if 0x61 ≤ c ∧ c ≤ 0x7a then c - 0x20 else c

/-! ## Encoding ASCII -/

theorem usAscii_ascii {s : JavaString} (h : IsAscii s) : usAscii s = s.map UInt16.toUInt8 := by
  unfold usAscii
  induction s with
  | nil => rfl
  | cons c s ih =>
    rw [encodeAfter, if_pos (h c List.mem_cons_self), ih fun d hd => h d (List.mem_cons_of_mem c hd), List.map_cons]

theorem isAscii_append {s t : JavaString} : IsAscii (s ++ t) ↔ IsAscii s ∧ IsAscii t := by
  simp only [IsAscii, List.mem_append, or_imp, forall_and]

theorem toNat_toUInt8 {c : UInt16} (h : c < 0x80) : c.toUInt8.toNat = c.toNat := by
  have hc : c.toNat < 128 := UInt16.lt_iff_toNat_lt.1 h
  rw [UInt16.toNat_toUInt8]
  omega

/-- encoding keeps the ASCII units apart -/
theorem toUInt8_inj {c d : UInt16} (hc : c < 0x80) (hd : d < 0x80) : c.toUInt8 = d.toUInt8 ↔ c = d := by
  rw [← UInt8.toNat_inj, toNat_toUInt8 hc, toNat_toUInt8 hd, UInt16.toNat_inj]

theorem usAscii_lt {s : JavaString} (h : IsAscii s) : ∀ b ∈ usAscii s, b < 0x80 := by
  rw [usAscii_ascii h]
  intro b hb
  obtain ⟨c, hc, rfl⟩ := List.mem_map.1 hb
  rw [UInt8.lt_iff_toNat_lt, toNat_toUInt8 (h c hc)]
  exact UInt16.lt_iff_toNat_lt.1 (h c hc)

/-! ## Printed numbers -/

theorem decimal_ne_nil (n : ℕ) : decimal n ≠ [] := by
  simp [decimal, Nat.toDigits_ne_nil]

/-- every unit of a printed number is a digit's -/
theorem decimal_digits {n : ℕ} {c : UInt16} (h : c ∈ decimal n) : 0x30 ≤ c.toNat ∧ c.toNat ≤ 0x39 := by
  obtain ⟨ch, hch, rfl⟩ := List.mem_map.1 h
  have hdigit := Nat.isDigit_of_mem_toDigits (by decide) (le_refl 10) hch
  simp only [Char.isDigit, Bool.and_eq_true, decide_eq_true_eq, UInt32.le_iff_toNat_le] at hdigit
  have h1 : 48 ≤ ch.toNat := hdigit.1
  have h2 : ch.toNat ≤ 57 := hdigit.2
  rw [UInt16.toNat_ofNat']
  omega

theorem decimal_isAscii (n : ℕ) : IsAscii (decimal n) := by
  intro c hc
  have hd := decimal_digits hc
  rw [UInt16.lt_iff_toNat_lt]
  exact lt_of_le_of_lt hd.2 (by decide)

theorem decimal_value (n : ℕ) : (decimal n).foldl (fun v c => v * 10 + (c.toNat - 0x30)) 0 = n := by
  have hchars : ∀ (l : List Char) (v : ℕ), (∀ ch ∈ l, ch.isDigit) →
      (l.map fun c => UInt16.ofNat c.toNat).foldl (fun v c => v * 10 + (c.toNat - 0x30)) v =
        Nat.ofDigitChars 10 l v := by
    intro l
    induction l with
    | nil => intro v _; rfl
    | cons ch l ih =>
      intro v hl
      have hdigit := hl ch List.mem_cons_self
      simp only [Char.isDigit, Bool.and_eq_true, decide_eq_true_eq, UInt32.le_iff_toNat_le] at hdigit
      have h2 : ch.toNat ≤ 57 := hdigit.2
      have hunit : (UInt16.ofNat ch.toNat).toNat = ch.toNat := by
        rw [UInt16.toNat_ofNat']
        omega
      have hzero : '0'.toNat = 0x30 := rfl
      rw [List.map_cons, List.foldl_cons, hunit, Nat.ofDigitChars_cons, hzero, Nat.mul_comm]
      exact ih _ fun d hd => hl d (List.mem_cons_of_mem ch hd)
  rw [decimal, hchars _ _ fun ch hch => Nat.isDigit_of_mem_toDigits (by decide) (le_refl 10) hch]
  exact Nat.ofDigitChars_ten_toDigits

theorem digitChar_lower {d : ℕ} (h : d < 16) :
    0x30 ≤ d.digitChar.toNat ∧ d.digitChar.toNat ≤ 0x39 ∨ 0x61 ≤ d.digitChar.toNat ∧ d.digitChar.toNat ≤ 0x66 := by
  revert d
  decide

/-- every unit of a hexadecimal number is a digit's or that of a lower-case letter up to `f` -/
theorem hex_digits {n : ℕ} {c : UInt16} (h : c ∈ hex n) :
    0x30 ≤ c.toNat ∧ c.toNat ≤ 0x39 ∨ 0x61 ≤ c.toNat ∧ c.toNat ≤ 0x66 := by
  have hchar : ∀ (m : ℕ), ∀ ch ∈ Nat.toDigits 16 m,
      0x30 ≤ ch.toNat ∧ ch.toNat ≤ 0x39 ∨ 0x61 ≤ ch.toNat ∧ ch.toNat ≤ 0x66 := by
    intro m
    induction m using Nat.strong_induction_on with
    | _ m ih =>
      intro ch hch
      by_cases hm : m < 16
      · rw [Nat.toDigits_of_lt_base hm, List.mem_singleton] at hch
        exact hch ▸ digitChar_lower hm
      · rw [Nat.toDigits_of_base_le (by decide) (by omega), List.mem_append, List.mem_singleton] at hch
        rcases hch with hch | rfl
        · exact ih (m / 16) (by omega) ch hch
        · exact digitChar_lower (Nat.mod_lt m (by decide))
  obtain ⟨ch, hch, rfl⟩ := List.mem_map.1 h
  have hbounds := hchar n ch hch
  rw [UInt16.toNat_ofNat']
  omega

/-! ## Trimming -/

theorem trim_eq_self {s : JavaString} (h : ∀ c ∈ s, 0x20 < c) : trim s = s := by
  have hdrop : s.dropWhile (· ≤ 0x20) = s := by
    refine List.dropWhile_eq_self_iff.2 fun hl => ?_
    simpa using h _ (List.getElem_mem hl)
  rw [trim, hdrop]
  refine List.rdropWhile_eq_self_iff.2 fun hl => ?_
  simpa using h _ (List.getLast_mem hl)

/-- the first unit of a trimmed text is above a space -/
theorem trim_head {s rest : JavaString} {c : UInt16} (h : trim s = c :: rest) : ¬ c ≤ 0x20 := by
  have hprefix : trim s <+: s.dropWhile (· ≤ 0x20) := List.rdropWhile_prefix _ _
  rw [h] at hprefix
  obtain ⟨tail, htail⟩ := hprefix
  have hne : s.dropWhile (fun d : UInt16 => decide (d ≤ 0x20)) ≠ [] := by
    rw [← htail]
    exact List.cons_ne_nil _ _
  have hnot := List.head_dropWhile_not (fun d : UInt16 => decide (d ≤ 0x20)) hne
  simpa only [← htail, List.cons_append, List.head_cons, decide_eq_false_iff_not] using hnot

/-- a text with a unit above a space is not trimmed away -/
theorem trim_ne_nil {s : JavaString} {c : UInt16} (hc : c ∈ s) (habove : ¬ c ≤ 0x20) : trim s ≠ [] := by
  intro hnil
  rw [trim, List.rdropWhile_eq_nil_iff] at hnil
  rw [← List.takeWhile_append_dropWhile (p := fun d : UInt16 => decide (d ≤ 0x20)) (l := s), List.mem_append] at hc
  rcases hc with hc | hc
  · exact habove (by simpa using List.mem_takeWhile_imp hc)
  · exact habove (by simpa using hnil c hc)

theorem trim_part (s : JavaString) : trim s <:+: s :=
  (List.rdropWhile_prefix _ _).isInfix.trans (List.dropWhile_suffix _).isInfix

theorem length_trim_lt {s : JavaString} (h : trim s ≠ s) : (trim s).length < s.length :=
  lt_of_le_of_ne (trim_part s).length_le fun hlen => h ((trim_part s).sublist.eq_of_length hlen)

theorem trim_eq_self_iff {s : JavaString} :
    trim s = s ↔ (∀ c, s.head? = some c → ¬ c ≤ 0x20) ∧ ∀ c, s.getLast? = some c → ¬ c ≤ 0x20 := by
  constructor
  · intro h
    refine ⟨?_, ?_⟩
    · intro c hc
      obtain ⟨rest, hrest⟩ := List.head?_eq_some_iff.1 hc
      exact trim_head (h.trans hrest)
    · intro c hc hblank
      have hlt : (List.rdropWhile (fun c : UInt16 => c ≤ 0x20) (s.dropWhile fun c => c ≤ 0x20)) = s := h
      obtain ⟨front, rfl⟩ := List.getLast?_eq_some_iff.1 hc
      have hdrop : (front ++ [c]).dropWhile (fun c => c ≤ 0x20) = front ++ [c] := by
        refine (List.dropWhile_suffix _).sublist.eq_of_length (le_antisymm (List.dropWhile_suffix _).length_le ?_)
        conv_lhs => rw [← hlt]
        exact (List.rdropWhile_prefix _ _).length_le
      rw [hdrop, List.rdropWhile_concat_pos _ _ _ (by simpa using hblank)] at hlt
      have hlength := congrArg List.length hlt
      have hle := (List.rdropWhile_prefix (fun c : UInt16 => decide (c ≤ 0x20)) front).length_le
      rw [List.length_append, List.length_singleton] at hlength
      omega
  · rintro ⟨hhead, hlast⟩
    have hdrop : s.dropWhile (fun c => c ≤ 0x20) = s := by
      cases s with
      | nil => rfl
      | cons c s => exact List.dropWhile_cons_of_neg (by simpa using hhead c rfl)
    unfold trim
    rw [hdrop]
    refine List.rdropWhile_eq_self_iff.2 ?_
    intro hne
    simpa using hlast _ (List.getLast?_eq_some_getLast hne)

/-! ## Joined texts -/

theorem mem_intercalate {c d : UInt16} {parts : List JavaString} (h : c ∈ [d].intercalate parts) :
    c = d ∨ ∃ part ∈ parts, c ∈ part := by
  induction parts with
  | nil => simp at h
  | cons part parts ih =>
    cases parts with
    | nil =>
      rw [List.intercalate_singleton] at h
      exact .inr ⟨part, List.mem_cons_self, h⟩
    | cons next parts =>
      rw [List.intercalate_cons_cons, List.append_assoc, List.mem_append, List.mem_append, List.mem_singleton] at h
      rcases h with h | h | h
      · exact .inr ⟨part, List.mem_cons_self, h⟩
      · exact .inl h
      · rcases ih h with h | ⟨p, hp, hc⟩
        · exact .inl h
        · exact .inr ⟨p, List.mem_cons_of_mem _ hp, hc⟩

/-- the separators of joined texts that do not contain it -/
theorem count_intercalate {d : UInt16} {parts : List JavaString} (h : ∀ part ∈ parts, d ∉ part) :
    ([d].intercalate parts).count d = parts.length - 1 := by
  induction parts with
  | nil => rfl
  | cons part parts ih =>
    have hpart : part.count d = 0 := List.count_eq_zero.2 (h part List.mem_cons_self)
    cases parts with
    | nil => rw [List.intercalate_singleton, hpart]; rfl
    | cons next parts =>
      rw [List.intercalate_cons_cons, List.count_append, List.count_append, hpart, List.count_singleton_self,
        ih fun p hp => h p (List.mem_cons_of_mem _ hp)]
      simp only [List.length_cons]
      omega

/-! ## Indices -/

theorem indexOf_eq_some {c : UInt16} {s : JavaString} {i : ℕ} :
    indexOf c s = some i ↔ ∃ a b, s = a ++ c :: b ∧ c ∉ a ∧ a.length = i := by
  induction s generalizing i with
  | nil => simp [indexOf]
  | cons d s ih =>
    rw [indexOf, List.idxOf?_cons]
    constructor
    · intro h
      split_ifs at h with hd
      · cases h
        exact ⟨[], s, by simpa using hd, List.not_mem_nil, rfl⟩
      · obtain ⟨j, hj, rfl⟩ := Option.map_eq_some_iff.1 h
        obtain ⟨a, b, rfl, ha, rfl⟩ := ih.1 hj
        refine ⟨d :: a, b, rfl, ?_, rfl⟩
        rw [List.mem_cons, not_or]
        exact ⟨fun hcd => hd (by simp [hcd]), ha⟩
    · rintro ⟨_ | ⟨e, a⟩, b, hs, ha, rfl⟩
      · cases hs
        simp
      · cases hs
        rw [List.mem_cons, not_or] at ha
        have hne : (d == c) = false := beq_false_of_ne (Ne.symm ha.1)
        rw [hne, if_neg Bool.false_ne_true, Option.map_eq_some_iff]
        exact ⟨a.length, ih.2 ⟨a, b, rfl, ha.2, rfl⟩, rfl⟩

theorem indexOf_eq_none {c : UInt16} {s : JavaString} : indexOf c s = none ↔ c ∉ s := List.idxOf?_eq_none_iff

theorem indexOf_append {c : UInt16} {a : JavaString} (ha : c ∉ a) (b : JavaString) :
    indexOf c (a ++ c :: b) = some a.length :=
  indexOf_eq_some.2 ⟨a, b, rfl, ha, rfl⟩

/-- the first occurrence of a unit splits a text in one way -/
theorem split_inj {c : UInt16} {a a' b b' : JavaString} (ha : c ∉ a) (ha' : c ∉ a') (h : a ++ c :: b = a' ++ c :: b') :
    a = a' ∧ b = b' := by
  have hi := indexOf_append ha b
  rw [h, indexOf_append ha' b', Option.some.injEq] at hi
  obtain ⟨hfst, hsnd⟩ := List.append_inj h hi.symm
  exact ⟨hfst, (List.cons.inj hsnd).2⟩

theorem lastIndexOf_eq_none {c : UInt16} {s : JavaString} : lastIndexOf c s = none ↔ c ∉ s := by
  rw [lastIndexOf, Option.map_eq_none_iff, List.idxOf?_eq_none_iff, List.mem_reverse]

theorem lastIndexOf_eq_some {c : UInt16} {s : JavaString} {i : ℕ} :
    lastIndexOf c s = some i ↔ ∃ a b, s = a ++ c :: b ∧ c ∉ b ∧ a.length = i := by
  rw [lastIndexOf, Option.map_eq_some_iff]
  constructor
  · rintro ⟨j, hj, rfl⟩
    obtain ⟨a, b, hs, ha, rfl⟩ := indexOf_eq_some.1 hj
    have hs' : s = b.reverse ++ c :: a.reverse := by
      rw [← List.reverse_reverse s, hs]
      simp
    refine ⟨b.reverse, a.reverse, hs', by simpa using ha, ?_⟩
    rw [hs']
    simp
  · rintro ⟨a, b, rfl, hb, rfl⟩
    refine ⟨b.length, ?_, ?_⟩
    · refine indexOf_eq_some.2 ⟨b.reverse, a.reverse, by simp, by simpa using hb, by simp⟩
    · simp

/-- a unit that occurs once is where both searches end -/
theorem lastIndexOf_eq_indexOf {c : UInt16} {s : JavaString} {i : ℕ} :
    lastIndexOf c s = some i ∧ indexOf c s = some i ↔ ∃ a b, s = a ++ c :: b ∧ c ∉ a ∧ c ∉ b ∧ a.length = i := by
  rw [lastIndexOf_eq_some, indexOf_eq_some]
  constructor
  · rintro ⟨⟨a, b, rfl, hb, rfl⟩, a', b', hs, ha, hlen⟩
    obtain ⟨rfl, -⟩ := List.append_inj hs hlen.symm
    exact ⟨a, b, rfl, ha, hb, rfl⟩
  · rintro ⟨a, b, rfl, ha, hb, rfl⟩
    exact ⟨⟨a, b, rfl, hb, rfl⟩, a, b, rfl, ha, rfl⟩

theorem indexOfText_eq_none {sub s : JavaString} : indexOfText sub s = none ↔ ¬ sub <:+: s := by
  induction s with
  | nil => simp [indexOfText]
  | cons c s ih =>
    rw [indexOfText, List.infix_cons_iff, not_or, ← ih]
    split_ifs with h <;> simp [h]

/-- the index of the first occurrence: `sub` does not start earlier -/
theorem indexOfText_eq_some {sub s : JavaString} {i : ℕ} (hsub : sub ≠ []) :
    indexOfText sub s = some i ↔ ∃ a b, s = a ++ sub ++ b ∧ ¬ sub <:+: a ++ sub.dropLast ∧ a.length = i := by
  have hshort : ∀ a b : JavaString, a ≠ [] → sub <+: a ++ sub ++ b → sub <:+: a ++ sub.dropLast := by
    intro a b ha hpre
    have hlonger : a ++ sub.dropLast <+: a ++ sub ++ b := by
      rw [List.append_assoc]
      exact List.prefix_append_right_inj a |>.2 ((List.dropLast_prefix sub).trans (List.prefix_append sub b))
    refine (List.prefix_of_prefix_length_le hpre hlonger ?_).isInfix
    have hpos : 0 < a.length := List.length_pos_iff.2 ha
    rw [List.length_append, List.length_dropLast]
    omega
  induction s generalizing i with
  | nil =>
    rw [indexOfText, if_neg hsub]
    constructor
    · intro h
      cases h
    · rintro ⟨a, b, hnil, -⟩
      simp [hsub] at hnil
  | cons c s ih =>
    rw [indexOfText]
    split_ifs with hpre
    · constructor
      · intro h
        cases h
        obtain ⟨b, hb⟩ := hpre
        refine ⟨[], b, by simpa using hb.symm, fun hin => ?_, rfl⟩
        have hle := hin.length_le
        have hpos : 0 < sub.length := List.length_pos_iff.2 hsub
        rw [List.nil_append, List.length_dropLast] at hle
        omega
      · rintro ⟨_ | ⟨d, a⟩, b, hs, hfirst, rfl⟩
        · rfl
        · rw [hs] at hpre
          exact absurd (hshort _ b (List.cons_ne_nil d a) hpre) hfirst
    · rw [Option.map_eq_some_iff]
      constructor
      · rintro ⟨j, hj, rfl⟩
        obtain ⟨a, b, rfl, hfirst, rfl⟩ := ih.1 hj
        refine ⟨c :: a, b, rfl, fun hin => ?_, rfl⟩
        rcases List.infix_cons_iff.1 hin with hp | hp
        · refine hpre (hp.trans ?_)
          rw [List.append_assoc]
          exact List.cons_prefix_cons.2 ⟨rfl, List.prefix_append_right_inj a |>.2
            ((List.dropLast_prefix sub).trans (List.prefix_append sub b))⟩
        · exact hfirst hp
      · rintro ⟨_ | ⟨d, a⟩, b, hs, hfirst, rfl⟩
        · rw [List.nil_append] at hs
          exact absurd ⟨b, hs.symm⟩ hpre
        · cases hs
          exact ⟨a.length, ih.2 ⟨a, b, rfl, fun hin => hfirst (List.infix_cons hin), rfl⟩, rfl⟩

end JavaString

end EspectralClient.Lib
