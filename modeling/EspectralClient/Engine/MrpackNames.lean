/-
When an imported modpack gets a usable name.

- `sanitize_valid`: a pack's name is made into a valid instance name, whatever it is.
- `search_ends`, `name_found`: with fewer existing names than numbers, some variant is free, and the search finds one.
- `usable_iff`: the name is usable exactly when it is free as it is, or the first free suffix leaves it within 40
  characters.
- `suffix_too_long`: a taken name of 40 characters.
-/
import EspectralClient.Engine.Mrpack

namespace EspectralClient.Mrpack

open Instances (isValidInstanceName)
open ModsDir (asciiAlphanumeric isWhitespace)

variable (tables : List Char → List Char)

/-! ## What is promised -/

/-- no existing name is the same but for case -/
def Free (existing : List String) (n : String) : Prop := ∀ e ∈ existing, toLowercase tables n ≠ toLowercase tables e

/-- the call answers a valid name that is free -/
def Usable (existing : List String) (answer : Option String) : Prop :=
  ∃ n, answer = some n ∧ isValidInstanceName n = true ∧ Free tables existing n

/-! ## Valid names -/

theorem valid_iff (n : String) :
    isValidInstanceName n = true ↔ 1 ≤ n.toList.length ∧ n.toList.length ≤ 40 ∧ ∀ c ∈ n.toList, nameChar c = true := by
  unfold isValidInstanceName
  rw [Bool.and_eq_true, Bool.and_eq_true, decide_eq_true_iff, decide_eq_true_iff, List.all_eq_true, and_assoc]
  rfl

theorem mem_trimMatches {p : Char → Bool} {cs : List Char} {c : Char} (h : c ∈ trimMatches p cs) : c ∈ cs :=
  (List.dropWhile_suffix p).subset ((List.rdropWhile_prefix p _).subset h)

/-- **Every pack name becomes a valid instance name.** -/
theorem sanitize_valid (name : Option String) : isValidInstanceName (sanitizePackName name) = true := by
  unfold sanitizePackName
  dsimp only
  generalize hkept : ([' '].intercalate (splitWhitespace (name.getD "").toList)).filter nameChar = kept
  generalize hcleaned : trimMatches isWhitespace (trimMatches (fun c => c = '.') kept) = cleaned
  have hchars : ∀ c ∈ cleaned, nameChar c = true := by
    intro c hc
    rw [← hcleaned] at hc
    have hmem := mem_trimMatches (mem_trimMatches hc)
    rw [← hkept] at hmem
    exact (List.mem_filter.1 hmem).2
  have hvalid : ∀ cs : List Char, cs ≠ [] → (∀ c ∈ cs, nameChar c = true) →
      isValidInstanceName (String.ofList (cs.take 40)) = true := by
    intro cs hne hall
    rw [valid_iff, String.toList_ofList, List.length_take]
    have hpos := List.length_pos_iff.2 hne
    exact ⟨by omega, by omega, fun c hc => hall c (List.mem_of_mem_take hc)⟩
  split_ifs with hdots
  · exact hvalid fallbackName (by decide) (List.all_eq_true.1 (by decide))
  · refine hvalid cleaned ?_ hchars
    rintro rfl
    exact hdots rfl

/-- what `Nat.toDigits` writes -/
def decimalDigits : List Char := ['0', '1', '2', '3', '4', '5', '6', '7', '8', '9']

theorem digit_cases {n : ℕ} {c : Char} (h : c ∈ Nat.toDigits 10 n) : c ∈ decimalDigits := by
  have hdigit := Nat.isDigit_of_mem_toDigits (by decide) (le_refl 10) h
  obtain ⟨hlo, hhi⟩ := Char.isDigit_iff_toNat.1 hdigit
  have hall : ∀ m : ℕ, 48 ≤ m → m ≤ 57 → Char.ofNat m ∈ decimalDigits := by
    intro m hm hm'
    interval_cases m <;> decide
  have hmem := hall c.toNat hlo hhi
  rwa [Char.ofNat_toNat] at hmem

theorem digit_nameChar : ∀ c ∈ decimalDigits, nameChar c = true :=
  List.all_eq_true.1 (by decide)

/-- a variant of a valid name is valid as long as it is short enough -/
theorem suffixed_valid {base : String} (h : isValidInstanceName base = true) (i : ℕ) :
    isValidInstanceName (suffixed base i) = true ↔ base.toList.length + 1 + (Nat.toDigits 10 i).length ≤ 40 := by
  obtain ⟨-, -, hchars⟩ := (valid_iff base).1 h
  rw [valid_iff, suffixed, String.toList_ofList, List.length_append, List.length_cons]
  constructor
  · rintro ⟨-, hlength, -⟩
    omega
  · intro hlength
    refine ⟨by omega, by omega, fun c hc => ?_⟩
    rcases List.mem_append.1 hc with hc | hc
    · exact hchars c hc
    · rcases List.mem_cons.1 hc with rfl | hc
      · decide
      · exact digit_nameChar c (digit_cases hc)

/-! ## The search -/

theorem firstFrom_some {p : ℕ → Bool} {left i k : ℕ} (h : firstFrom p left i = some k) :
    i ≤ k ∧ k < i + left ∧ p k = true ∧ ∀ j, i ≤ j → j < k → p j = false := by
  induction left generalizing i with
  | zero => cases h
  | succ left ih =>
    rw [firstFrom] at h
    split_ifs at h with hp
    · cases h
      exact ⟨le_rfl, by omega, hp, fun j hj hlt => by omega⟩
    · obtain ⟨hlo, hhi, hpk, hbefore⟩ := ih h
      refine ⟨by omega, by omega, hpk, fun j hj hlt => ?_⟩
      rcases Nat.eq_or_lt_of_le hj with rfl | hj
      · exact Bool.eq_false_of_not_eq_true hp
      · exact hbefore j hj hlt

theorem firstFrom_none {p : ℕ → Bool} {left i : ℕ} (h : firstFrom p left i = none) :
    ∀ j, i ≤ j → j < i + left → p j = false := by
  induction left generalizing i with
  | zero => exact fun j hj hlt => by omega
  | succ left ih =>
    rw [firstFrom] at h
    split_ifs at h with hp
    intro j hj hlt
    rcases Nat.eq_or_lt_of_le hj with rfl | hj
    · exact Bool.eq_false_of_not_eq_true hp
    · exact ih h j hj (by omega)

theorem free_iff (existing : List String) (n : String) :
    (!(existing.map (toLowercase tables)).contains (toLowercase tables n)) = true ↔ Free tables existing n := by
  rw [Bool.not_eq_true', ← Bool.not_eq_true, List.contains_iff_mem, List.mem_map, Free]
  constructor
  · intro h e he hsame
    exact h ⟨e, he, hsame.symm⟩
  · intro h hmem
    obtain ⟨e, he, hsame⟩ := hmem
    exact h e he hsame.symm

/-- the three ends of the search -/
theorem unique_cases (base : String) (existing : List String) :
    (Free tables existing base ∧ uniqueInstanceName tables base existing = some base) ∨
      (¬ Free tables existing base ∧ ∃ i, 2 ≤ i ∧ i ≤ counterMax ∧ Free tables existing (suffixed base i) ∧
        (∀ j, 2 ≤ j → j < i → ¬ Free tables existing (suffixed base j)) ∧
        uniqueInstanceName tables base existing = some (suffixed base i)) ∨
      (¬ Free tables existing base ∧ (∀ j, 2 ≤ j → j ≤ counterMax → ¬ Free tables existing (suffixed base j)) ∧
        uniqueInstanceName tables base existing = none) := by
  have hmax : counterMax = 2147483647 := rfl
  unfold uniqueInstanceName
  dsimp only
  split_ifs with hfree
  · exact .inl ⟨(free_iff tables existing base).1 hfree, rfl⟩
  · have htaken : ¬ Free tables existing base := fun h => hfree ((free_iff tables existing base).2 h)
    have hno : ∀ j, (!(existing.map (toLowercase tables)).contains (toLowercase tables (suffixed base j))) = false →
        ¬ Free tables existing (suffixed base j) := by
      intro j hj hyes
      rw [(free_iff tables existing (suffixed base j)).2 hyes] at hj
      cases hj
    cases hfirst : firstFrom (fun i => !(existing.map (toLowercase tables)).contains
        (toLowercase tables (suffixed base i))) (counterMax - 1) 2 with
    | some i =>
      obtain ⟨hlo, hhi, hi, hbefore⟩ := firstFrom_some hfirst
      exact .inr (.inl ⟨htaken, i, hlo, by omega, (free_iff tables existing _).1 hi,
        fun j hj hlt => hno j (hbefore j hj hlt), rfl⟩)
    | none =>
      have hall := firstFrom_none hfirst
      exact .inr (.inr ⟨htaken, fun j hj hle => hno j (hall j hj (by omega)), rfl⟩)

theorem nameChar_ascii {c : Char} (h : nameChar c = true) : c.toNat < 128 := by
  simp only [nameChar, asciiAlphanumeric, Bool.or_eq_true, Bool.and_eq_true, decide_eq_true_eq, Char.le_def,
    UInt32.le_iff_toNat_le] at h
  rcases h with (((((⟨-, h⟩ | ⟨-, h⟩) | ⟨-, h⟩) | rfl) | rfl) | rfl) | rfl
  · exact lt_of_le_of_lt h (by decide)
  · exact lt_of_le_of_lt h (by decide)
  · exact lt_of_le_of_lt h (by decide)
  all_goals decide

theorem toLowercase_suffixed {base : String} (h : isValidInstanceName base = true) (i : ℕ) :
    toLowercase tables (suffixed base i) = base.toList.map Char.toLower ++ '-' :: Nat.toDigits 10 i := by
  obtain ⟨-, -, hchars⟩ := (valid_iff base).1 h
  have hdigits : (Nat.toDigits 10 i).map Char.toLower = Nat.toDigits 10 i := by
    have hall : decimalDigits.all (fun c => c.toLower = c) = true := by decide
    have hlower : ∀ c ∈ Nat.toDigits 10 i, c.toLower = c :=
      fun c hc => of_decide_eq_true (List.all_eq_true.1 hall c (digit_cases hc))
    calc (Nat.toDigits 10 i).map Char.toLower
        = (Nat.toDigits 10 i).map id := List.map_congr_left hlower
      _ = Nat.toDigits 10 i := List.map_id _
  have hascii : (suffixed base i).toList.all (fun c => decide (c.toNat < 128)) = true := by
    rw [List.all_eq_true, suffixed, String.toList_ofList]
    intro c hc
    apply decide_eq_true
    rcases List.mem_append.1 hc with hc | hc
    · exact nameChar_ascii (hchars c hc)
    · rcases List.mem_cons.1 hc with rfl | hc
      · decide
      · exact nameChar_ascii (digit_nameChar c (digit_cases hc))
  have hdash : '-'.toLower = '-' := by decide
  rw [toLowercase, if_pos hascii, suffixed, String.toList_ofList, List.map_append, List.map_cons, hdigits, hdash]

theorem toLowercase_suffixed_injective {base : String} (h : isValidInstanceName base = true) {i j : ℕ}
    (hij : toLowercase tables (suffixed base i) = toLowercase tables (suffixed base j)) : i = j := by
  rw [toLowercase_suffixed tables h, toLowercase_suffixed tables h] at hij
  have hdigits := (List.cons.inj (List.append_cancel_left hij)).2
  calc i = Nat.ofDigitChars 10 (Nat.toDigits 10 i) 0 := Nat.ofDigitChars_ten_toDigits.symm
    _ = Nat.ofDigitChars 10 (Nat.toDigits 10 j) 0 := by rw [hdigits]
    _ = j := Nat.ofDigitChars_ten_toDigits

/-- **The search ends**, as long as there are fewer existing names than numbers. -/
theorem search_ends {base : String} (h : isValidInstanceName base = true) {existing : List String}
    (hlength : existing.length + 1 < counterMax) : uniqueInstanceName tables base existing ≠ none := by
  rcases unique_cases tables base existing with ⟨-, hanswer⟩ | ⟨-, i, -, -, -, -, hanswer⟩ | ⟨-, hall, -⟩
  · rw [hanswer]
    exact Option.some_ne_none base
  · rw [hanswer]
    exact Option.some_ne_none _
  · exfalso
    -- one variant more than there are names, all of them taken
    have hnodup : ((List.range (existing.length + 1)).map
        fun i => toLowercase tables (suffixed base (i + 2))).Nodup := by
      apply List.nodup_range.map
      intro i j hij
      have := toLowercase_suffixed_injective tables h hij
      omega
    have hsub : (List.range (existing.length + 1)).map (fun i => toLowercase tables (suffixed base (i + 2))) ⊆
        existing.map (toLowercase tables) := by
      intro x hx
      obtain ⟨i, hi, rfl⟩ := List.mem_map.1 hx
      have hlt := List.mem_range.1 hi
      have htaken := hall (i + 2) (by omega) (by omega)
      unfold Free at htaken
      push Not at htaken
      obtain ⟨e, he, hsame⟩ := htaken
      exact List.mem_map.2 ⟨e, he, hsame.symm⟩
    have hle := (List.subperm_of_subset hnodup hsub).length_le
    rw [List.length_map, List.length_map, List.length_range] at hle
    omega

/-- **A pack always gets a free name**, as long as there are fewer existing names than numbers. -/
theorem name_found (name : Option String) {existing : List String} (hlength : existing.length + 1 < counterMax) :
    ∃ n, uniqueInstanceName tables (sanitizePackName name) existing = some n ∧ Free tables existing n := by
  rcases unique_cases tables (sanitizePackName name) existing with ⟨hfree, h⟩ | ⟨-, i, -, -, hfree, -, h⟩ | ⟨-, -, h⟩
  · exact ⟨_, h, hfree⟩
  · exact ⟨_, h, hfree⟩
  · exact absurd h (search_ends tables (sanitize_valid name) hlength)

theorem name_found_taken : ∃ n, uniqueInstanceName id (sanitizePackName (some "Pack")) ["PACK", "pack-2"] = some n ∧
    Free id ["PACK", "pack-2"] n :=
  name_found id (some "Pack") (by decide)

/-! ## When the name is usable -/

/-- **The name is usable if and only if it is free as it is, or the first free suffix fits.** -/
theorem usable_iff (name : Option String) (existing : List String) :
    Usable tables existing (uniqueInstanceName tables (sanitizePackName name) existing) ↔
      Free tables existing (sanitizePackName name) ∨
        ∃ i, 2 ≤ i ∧ i ≤ counterMax ∧ Free tables existing (suffixed (sanitizePackName name) i) ∧
          (∀ j, 2 ≤ j → j < i → ¬ Free tables existing (suffixed (sanitizePackName name) j)) ∧
          (sanitizePackName name).toList.length + 1 + (Nat.toDigits 10 i).length ≤ 40 := by
  have hvalid := sanitize_valid name
  generalize sanitizePackName name = base at hvalid ⊢
  rcases unique_cases tables base existing with ⟨hfree, hanswer⟩ | ⟨htaken, i, hlo, hhi, hfree, hbefore, hanswer⟩ |
    ⟨htaken, hall, hanswer⟩
  · rw [hanswer]
    exact iff_of_true ⟨base, rfl, hvalid, hfree⟩ (.inl hfree)
  · rw [hanswer]
    constructor
    · rintro ⟨n, hn, hname, -⟩
      cases hn
      exact .inr ⟨i, hlo, hhi, hfree, hbefore, (suffixed_valid hvalid i).1 hname⟩
    · intro h
      rcases h with h | ⟨j, hj, -, hfree', hbefore', hfits⟩
      · exact absurd h htaken
      · have hij : i = j := by
          rcases Nat.lt_trichotomy i j with hlt | heq | hgt
          · exact absurd hfree (hbefore' i hlo hlt)
          · exact heq
          · exact absurd hfree' (hbefore j hj hgt)
        subst hij
        exact ⟨_, rfl, (suffixed_valid hvalid i).2 hfits, hfree⟩
  · rw [hanswer]
    refine iff_of_false ?_ ?_
    · rintro ⟨n, hn, -⟩
      cases hn
    · rintro (h | ⟨i, hlo, hhi, hfree, -⟩)
      · exact htaken h
      · exact hall i hlo hhi hfree

/-- a name of 40 characters -/
def longName : String := String.ofList (List.replicate 40 'a')

/-- the variant of a taken name of 40 characters has 42 -/
theorem suffix_too_long :
    uniqueInstanceName id (sanitizePackName (some longName)) [longName] = some (suffixed longName 2) ∧
      ¬ Usable id [longName] (uniqueInstanceName id (sanitizePackName (some longName)) [longName]) := by
  have hanswer : uniqueInstanceName id (sanitizePackName (some longName)) [longName] = some (suffixed longName 2) := by
    decide
  refine ⟨hanswer, ?_⟩
  rw [hanswer]
  rintro ⟨n, hn, hvalid, -⟩
  cases hn
  revert hvalid
  decide

end EspectralClient.Mrpack
