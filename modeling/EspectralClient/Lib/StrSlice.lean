/-
Texts as characters that are cut and searched by the offsets of their UTF-8 bytes.

- `splitAtByte`, `sliceTo`, `sliceFrom`: a slice stops where its offset is within a character or past the end;
  `splitAtByte_append` cuts at the length of a part.
- `find`: the offset of the first place that passes; `find_some`, `find_none`.
- `byte_at`: the byte at the offset of an ASCII character.
-/
import EspectralClient.Lib.Checked
import EspectralClient.Lib.Utf8Text

namespace EspectralClient.Lib.StrSlice

open Bytes Checked

variable {ε : Type*}

/-- the length in bytes -/
def utf8Len (cs : List Char) : ℕ := (cs.map Char.utf8Size).sum

@[simp] theorem utf8Len_nil : utf8Len [] = 0 := rfl

theorem utf8Len_cons (c : Char) (cs : List Char) : utf8Len (c :: cs) = c.utf8Size + utf8Len cs := by
  simp [utf8Len]

theorem utf8Len_append (cs ds : List Char) : utf8Len (cs ++ ds) = utf8Len cs + utf8Len ds := by
  simp [utf8Len]

/-- the parts before and after an offset -/
def splitAtByte : List Char → ℕ → Except (Stop ε) (List Char × List Char)
  | cs, 0 => .ok ([], cs)
  | [], _ + 1 => .error .outside
  | c :: cs, n + 1 =>
    if c.utf8Size ≤ n + 1 then (splitAtByte cs (n + 1 - c.utf8Size)).map fun parts => (c :: parts.1, parts.2)
    else .error .outside

/-- `&s[..i]` -/
def sliceTo (cs : List Char) (i : ℕ) : Except (Stop ε) (List Char) := (splitAtByte cs i).map Prod.fst

/-- `&s[i..]` -/
def sliceFrom (cs : List Char) (i : ℕ) : Except (Stop ε) (List Char) := (splitAtByte cs i).map Prod.snd

/-- the offset of the first place where what follows passes -/
def find (p : List Char → Bool) : List Char → Option ℕ
  | [] => none
  | c :: cs => if p (c :: cs) then some 0 else (find p cs).map fun i => c.utf8Size + i

/-- **A cut between characters.** -/
theorem splitAtByte_append (cs ds : List Char) :
    splitAtByte (ε := ε) (cs ++ ds) (utf8Len cs) = .ok (cs, ds) := by
  induction cs with
  | nil => cases ds <;> rfl
  | cons c cs ih =>
    have hpos := c.utf8Size_pos
    obtain ⟨n, hn⟩ : ∃ n, utf8Len (c :: cs) = n + 1 := ⟨c.utf8Size + utf8Len cs - 1, by rw [utf8Len_cons]; omega⟩
    have hrest : n + 1 - c.utf8Size = utf8Len cs := by
      rw [← hn, utf8Len_cons]
      omega
    rw [hn, List.cons_append, splitAtByte, if_pos, hrest, ih]
    · rfl
    · rw [← hn, utf8Len_cons]
      omega

theorem sliceTo_append (cs ds : List Char) : sliceTo (ε := ε) (cs ++ ds) (utf8Len cs) = .ok cs := by
  rw [sliceTo, splitAtByte_append]
  rfl

theorem sliceFrom_append (cs ds : List Char) : sliceFrom (ε := ε) (cs ++ ds) (utf8Len cs) = .ok ds := by
  rw [sliceFrom, splitAtByte_append]
  rfl

section Find

variable {p : List Char → Bool}

theorem find_some {cs : List Char} {i : ℕ} (h : find p cs = some i) : ∃ front back, cs = front ++ back ∧
    i = utf8Len front ∧ back ≠ [] ∧ p back = true ∧
      ∀ front' back', front = front' ++ back' → back' ≠ [] → p (back' ++ back) = false := by
  induction cs generalizing i with
  | nil => cases h
  | cons c cs ih =>
    rw [find] at h
    split_ifs at h with hp
    · obtain rfl := Option.some.inj h
      refine ⟨[], c :: cs, rfl, rfl, List.cons_ne_nil c cs, hp, ?_⟩
      intro front' back' heq hne
      exact absurd (List.append_eq_nil_iff.1 heq.symm).2 hne
    · obtain ⟨j, hj, rfl⟩ := Option.map_eq_some_iff.1 h
      obtain ⟨front, back, rfl, rfl, hback, hpass, hfirst⟩ := ih hj
      refine ⟨c :: front, back, rfl, (utf8Len_cons c front).symm, hback, hpass, ?_⟩
      intro front' back' heq hne
      cases front' with
      | nil =>
        rw [List.nil_append] at heq
        rw [← heq, List.cons_append]
        exact Bool.eq_false_iff.2 hp
      | cons d front' => exact hfirst front' back' (List.cons.inj heq).2 hne

theorem find_none {cs : List Char} (h : find p cs = none) {front back : List Char} (heq : cs = front ++ back)
    (hne : back ≠ []) : p back = false := by
  induction cs generalizing front with
  | nil => exact absurd (List.append_eq_nil_iff.1 heq.symm).2 hne
  | cons c cs ih =>
    rw [find] at h
    split_ifs at h with hp
    rw [Option.map_eq_none_iff] at h
    cases front with
    | nil =>
      rw [List.nil_append] at heq
      rw [← heq]
      exact Bool.eq_false_iff.2 hp
    | cons d front => exact ih h (List.cons.inj heq).2

end Find

theorem length_utf8Chars (cs : List Char) : (utf8Chars cs).length = utf8Len cs := by
  induction cs with
  | nil => rfl
  | cons c cs ih => rw [utf8Chars_cons, List.length_append, ih, utf8Len_cons, String.length_utf8EncodeChar]

/-- the byte of an ASCII character is its code -/
theorem byte_at (front : List Char) {c : Char} (hc : c.toNat < 0x80) (back : List Char) :
    index (ε := ε) (utf8Chars (front ++ c :: back)) (utf8Len front) = .ok (UInt8.ofNat c.toNat) := by
  have hone : String.utf8EncodeChar c = [UInt8.ofNat c.toNat] := by
    have hval : c.val.toNat = c.toNat := rfl
    simp only [String.utf8EncodeChar, hval]
    rw [if_pos (by omega)]
  rw [utf8Chars_append, utf8Chars_cons, hone, ← length_utf8Chars]
  simp [index]

end EspectralClient.Lib.StrSlice
