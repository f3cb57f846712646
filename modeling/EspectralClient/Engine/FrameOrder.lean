/-
The order of frame names (`native/engine/src/backgrounds.rs`, `natural_cmp` and the sort in `frame_sources`).

- `naturalCmp`: runs of digits compared as numbers, other characters one by one.
- `pieces`: a name as its runs, without leading zeros, and its other characters.
- `naturalLoop_eq`: the comparison is the lexicographic one of the pieces.
- `natural_order`: it is a total preorder, equal exactly for equal pieces, and the sort has one result.
- `zeros_dropped`: a run of zeros against no run.
-/
import EspectralClient.Lib.StableSort
import EspectralClient.Engine.Mrpack

namespace EspectralClient.FrameOrder

open Lib
open Mrpack (toLowercase)

/-! ## Model -/

/-- the digits at the start, and what is after them -/
def takeDigits (cs : List Char) : List Char := cs.takeWhile Char.isDigit

def dropDigits (cs : List Char) : List Char := cs.dropWhile Char.isDigit

/-- `trim_start_matches('0')` -/
def trimZeros (cs : List Char) : List Char := cs.dropWhile (· = '0')

theorem length_dropDigits_lt {c : Char} {cs : List Char} (h : c.isDigit) :
    (dropDigits (c :: cs)).length < (c :: cs).length := by
  rw [dropDigits, List.dropWhile_cons_of_pos h, List.length_cons]
  exact Nat.lt_succ_of_le (List.dropWhile_sublist _).length_le

/-- characters compare as their code points -/
def cmpChar (x y : Char) : Ordering := compare x.toNat y.toNat

/-- a digit is one byte, so the length of a run in characters is its length in bytes -/
def cmpRuns (ta tb : List Char) : Ordering := (compare ta.length tb.length).then (List.compareLex cmpChar ta tb)

def naturalLoop : List Char → List Char → Ordering
  | [], [] => .eq
  | [], _ :: _ => .lt
  | _ :: _, [] => .gt
  | x :: a, y :: b =>
    if _hdigits : x.isDigit ∧ y.isDigit then
      let o := cmpRuns (trimZeros (takeDigits (x :: a))) (trimZeros (takeDigits (y :: b)))
      if o ≠ .eq then o else naturalLoop (dropDigits (x :: a)) (dropDigits (y :: b))
    else if x ≠ y then cmpChar x y
    else naturalLoop a b
termination_by a => a.length
decreasing_by
  · exact length_dropDigits_lt _hdigits.1
  · exact Nat.lt_succ_self _

/-- `natural_cmp` -/
def naturalCmp (tables : List Char → List Char) (a b : String) : Ordering :=
  naturalLoop (toLowercase tables a) (toLowercase tables b)

/-- the names of the frames, in the order they play -/
def sortFrames (tables : List Char → List Char) (pngs : List String) : List String :=
  pngs.mergeSort fun a b => (naturalCmp tables a b).isLE

/-! ## Pieces -/

inductive Piece where
  /-- a maximal run of digits, without the zeros it starts with -/
  | run (digits : List Char)
  | other (c : Char)
deriving DecidableEq

def pieces : List Char → List Piece
  | [] => []
  | c :: cs =>
    if _hdigit : c.isDigit then .run (trimZeros (takeDigits (c :: cs))) :: pieces (dropDigits (c :: cs))
    else .other c :: pieces cs
termination_by cs => cs.length
decreasing_by
  · exact length_dropDigits_lt _hdigit
  · exact Nat.lt_succ_self _

/-- a text with the leading zeros of its runs taken out -/
def stripped (cs : List Char) : List Char := (pieces cs).flatMap fun
  | .run digits => digits
  | .other c => [c]

/-- where a piece is in the order: a run is where the digits are, then by its length, then by its digits -/
def Piece.key : Piece → List ℕ
  | .run digits => '0'.toNat :: digits.length :: digits.map Char.toNat
  | .other c => [c.toNat]

/-! ## The comparison -/

/-- the order of lists of keys -/
def cmpKeys : List (List ℕ) → List (List ℕ) → Ordering := List.compareLex (List.compareLex compare)

instance : Std.TransCmp cmpKeys := inferInstanceAs (Std.TransCmp (List.compareLex (List.compareLex compare)))

instance : Std.LawfulEqCmp cmpKeys := inferInstanceAs (Std.LawfulEqCmp (List.compareLex (List.compareLex compare)))

def keys (cs : List Char) : List (List ℕ) := (pieces cs).map Piece.key

theorem compareLex_map_toNat (cs ds : List Char) :
    List.compareLex compare (cs.map Char.toNat) (ds.map Char.toNat) = List.compareLex cmpChar cs ds := by
  induction cs generalizing ds with
  | nil => cases ds <;> rfl
  | cons c cs ih =>
    cases ds with
    | nil => rfl
    | cons d ds =>
      rw [List.map_cons, List.map_cons, List.compareLex_cons_cons, List.compareLex_cons_cons, ih]
      rfl

theorem compare_key_run (s t : List Char) :
    List.compareLex compare (Piece.run s).key (Piece.run t).key = cmpRuns s t := by
  rw [Piece.key, Piece.key, List.compareLex_cons_cons, List.compareLex_cons_cons, compareLex_map_toNat]
  rfl

theorem compare_key_other (x y : Char) :
    List.compareLex compare (Piece.other x).key (Piece.other y).key = cmpChar x y := by
  rw [Piece.key, Piece.key, List.compareLex_cons_cons, cmpChar]
  cases compare x.toNat y.toNat <;> rfl

/-- digits are together among the characters -/
theorem cmpChar_digit {x y : Char} (hx : x.isDigit) (hy : ¬ y.isDigit) :
    compare '0'.toNat y.toNat = cmpChar x y ∧ compare y.toNat '0'.toNat = cmpChar y x ∧ cmpChar x y ≠ .eq ∧
      cmpChar y x ≠ .eq := by
  rw [Char.isDigit_iff_toNat] at hx hy
  have hzero : '0'.toNat = 48 := rfl
  rw [cmpChar, cmpChar, hzero]
  rcases lt_or_ge y.toNat 48 with h | h
  · have hlt : y.toNat < x.toNat := by omega
    rw [Nat.compare_eq_gt.2 h, Nat.compare_eq_lt.2 h, Nat.compare_eq_gt.2 hlt, Nat.compare_eq_lt.2 hlt]
    decide
  · have hlt : x.toNat < y.toNat := by omega
    have h' : 48 < y.toNat := by omega
    rw [Nat.compare_eq_lt.2 h', Nat.compare_eq_gt.2 h', Nat.compare_eq_lt.2 hlt, Nat.compare_eq_gt.2 hlt]
    decide

theorem then_of_ne {o o' : Ordering} (h : o ≠ .eq) : o.then o' = o := by
  cases o with
  | eq => exact absurd rfl h
  | lt | gt => rfl

@[simp] theorem keys_nil : keys [] = [] := by
  rw [keys, pieces, List.map_nil]

theorem keys_digit {c : Char} (cs : List Char) (h : c.isDigit) :
    keys (c :: cs) = (Piece.run (trimZeros (takeDigits (c :: cs)))).key :: keys (dropDigits (c :: cs)) := by
  rw [keys, pieces, dif_pos h, List.map_cons, keys]

theorem keys_other {c : Char} (cs : List Char) (h : ¬ c.isDigit) :
    keys (c :: cs) = (Piece.other c).key :: keys cs := by
  rw [keys, pieces, dif_neg h, List.map_cons, keys]

/-- a text that is not empty has a first key -/
theorem keys_cons (c : Char) (cs : List Char) : ∃ k ks, keys (c :: cs) = k :: ks := by
  by_cases h : c.isDigit
  · exact ⟨_, _, keys_digit cs h⟩
  · exact ⟨_, _, keys_other cs h⟩

theorem cmpKeys_cons (k k' : List ℕ) (ks ks' : List (List ℕ)) :
    cmpKeys (k :: ks) (k' :: ks') = (List.compareLex compare k k').then (cmpKeys ks ks') := List.compareLex_cons_cons

/-- **The comparison** is that of the pieces. -/
theorem naturalLoop_eq (a b : List Char) : naturalLoop a b = cmpKeys (keys a) (keys b) := by
  fun_induction naturalLoop a b with
  | case1 =>
    rw [keys_nil]
    rfl
  | case2 y b =>
    obtain ⟨k, ks, hk⟩ := keys_cons y b
    rw [keys_nil, hk]
    rfl
  | case3 x a =>
    obtain ⟨k, ks, hk⟩ := keys_cons x a
    rw [keys_nil, hk]
    rfl
  | case4 x a y b hdigits o ho =>
    rw [keys_digit a hdigits.1, keys_digit b hdigits.2, cmpKeys_cons, compare_key_run]
    exact (then_of_ne ho).symm
  | case5 x a y b hdigits o ho ih =>
    have heq : o = .eq := not_not.1 ho
    rw [keys_digit a hdigits.1, keys_digit b hdigits.2, cmpKeys_cons, compare_key_run]
    change _ = o.then _
    rw [heq, ih]
    rfl
  | case6 x a y b hdigits hne =>
    by_cases hx : x.isDigit
    · have hy : ¬ y.isDigit := fun hy => hdigits ⟨hx, hy⟩
      obtain ⟨hcmp, -, hne', -⟩ := cmpChar_digit hx hy
      have hkey : List.compareLex compare (Piece.run (trimZeros (takeDigits (x :: a)))).key (Piece.other y).key =
          cmpChar x y := by
        rw [Piece.key, Piece.key, List.compareLex_cons_cons, hcmp, then_of_ne hne']
      rw [keys_digit a hx, keys_other b hy, cmpKeys_cons, hkey, then_of_ne hne']
    · by_cases hy : y.isDigit
      · obtain ⟨-, hcmp, -, hne'⟩ := cmpChar_digit hy hx
        have hkey : List.compareLex compare (Piece.other x).key (Piece.run (trimZeros (takeDigits (y :: b)))).key =
            cmpChar x y := by
          rw [Piece.key, Piece.key, List.compareLex_cons_cons, hcmp, then_of_ne hne']
        rw [keys_other a hx, keys_digit b hy, cmpKeys_cons, hkey, then_of_ne hne']
      · have hne' : cmpChar x y ≠ .eq := by
          intro heq
          exact hne (Char.toNat_inj.1 (Nat.compare_eq_eq.1 heq))
        rw [keys_other a hx, keys_other b hy, cmpKeys_cons, compare_key_other, then_of_ne hne']
  | case7 x a y b hdigits hxy ih =>
    obtain rfl := not_not.1 hxy
    have hx : ¬ x.isDigit := fun hx => hdigits ⟨hx, hx⟩
    have hself : cmpChar x x = .eq := Nat.compare_eq_eq.2 rfl
    rw [keys_other a hx, keys_other b hx, cmpKeys_cons, compare_key_other, hself, ih]
    rfl

theorem key_injective : Function.Injective Piece.key := by
  intro p q h
  cases p with
  | run s =>
    cases q with
    | run t =>
      have hmap := (List.cons.inj (List.cons.inj h).2).2
      rw [List.map_injective_iff.2 (fun _ _ => Char.toNat_inj.1) hmap]
    | other d => cases (List.cons.inj h).2
  | other c =>
    cases q with
    | run t => cases (List.cons.inj h).2
    | other d => rw [Char.toNat_inj.1 (List.cons.inj h).1]

section Order

variable (tables : List Char → List Char) (a b c : String)

theorem naturalCmp_swap : naturalCmp tables a b = (naturalCmp tables b a).swap := by
  unfold naturalCmp
  rw [naturalLoop_eq, naturalLoop_eq]
  have hcmp : Std.OrientedCmp cmpKeys := inferInstance
  exact hcmp.eq_swap

theorem naturalCmp_trans {a b c : String} (hab : (naturalCmp tables a b).isLE) (hbc : (naturalCmp tables b c).isLE) :
    (naturalCmp tables a c).isLE := by
  unfold naturalCmp at *
  rw [naturalLoop_eq] at *
  have hcmp : Std.TransCmp cmpKeys := inferInstance
  exact hcmp.isLE_trans hab hbc

theorem naturalCmp_eq : naturalCmp tables a b = .eq ↔ pieces (toLowercase tables a) = pieces (toLowercase tables b) := by
  unfold naturalCmp
  rw [naturalLoop_eq]
  have hcmp : Std.LawfulEqCmp cmpKeys := inferInstance
  constructor
  · intro h
    exact List.map_injective_iff.2 key_injective (hcmp.eq_of_compare h)
  · intro h
    rw [keys, keys, h]
    exact hcmp.compare_self

end Order

/-- `a` may stand before `b` -/
def before (tables : List Char → List Char) (a b : String) : Bool := (naturalCmp tables a b).isLE

theorem before_total (tables : List Char → List Char) (a b : String) : (before tables a b || before tables b a) = true := by
  unfold before
  rw [naturalCmp_swap tables a b]
  cases naturalCmp tables b a <;> rfl

/-- **Natural order.** It is a total preorder, two names are equal in it exactly when their pieces are, and there is one
stable sort by it, which the frames get. -/
theorem natural_order (tables : List Char → List Char) :
    (∀ a b, naturalCmp tables a b = (naturalCmp tables b a).swap) ∧
    (∀ a b c, (naturalCmp tables a b).isLE → (naturalCmp tables b c).isLE → (naturalCmp tables a c).isLE) ∧
    (∀ a b, naturalCmp tables a b = .eq ↔ pieces (toLowercase tables a) = pieces (toLowercase tables b)) ∧
    ∀ pngs, StableSort (before tables) pngs (sortFrames tables pngs) ∧
      ∀ sorted, StableSort (before tables) pngs sorted → sorted = sortFrames tables pngs := by
  have htotal := before_total tables
  have hrefl : ∀ x, before tables x x = true := by
    intro x
    simpa using htotal x x
  refine ⟨naturalCmp_swap tables, fun _ _ _ => naturalCmp_trans tables, naturalCmp_eq tables, ?_⟩
  have htrans : ∀ x y z, before tables x y = true → before tables y z = true → before tables x z = true :=
    fun _ _ _ => naturalCmp_trans tables
  intro pngs
  have hsort : StableSort (before tables) pngs (sortFrames tables pngs) := mergeSort_stable htrans htotal pngs
  exact ⟨hsort, fun sorted h => h.unique hrefl hsort⟩

/-- **A run of zeros is still a run.** Without their leading zeros `a0b` and `ab` are the same text, but they are not equal
in the order. -/
theorem zeros_dropped : ¬ ∀ (tables : List Char → List Char) (a b : String),
    naturalCmp tables a b = .eq ↔ stripped (toLowercase tables a) = stripped (toLowercase tables b) := by
  intro h
  have hzero : toLowercase id "a0b" = ['a', '0', 'b'] := if_pos (by decide)
  have hnone : toLowercase id "ab" = ['a', 'b'] := if_pos (by decide)
  have hpieces : pieces ['a', '0', 'b'] = [.other 'a', .run [], .other 'b'] := by
    simp [pieces, takeDigits, dropDigits, trimZeros]
  have hpieces' : pieces ['a', 'b'] = [.other 'a', .other 'b'] := by
    simp [pieces]
  have heq := h id "a0b" "ab"
  rw [naturalCmp_eq, stripped, stripped, hzero, hnone, hpieces, hpieces'] at heq
  exact absurd heq (by decide)

end EspectralClient.FrameOrder
