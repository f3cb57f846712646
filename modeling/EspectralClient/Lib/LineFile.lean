/-
Files of lines: every line is followed by a separator that it does not contain. What a reader sees who splits such a file,
and what is left of it when it starts in the middle.

- `joined`: the file of a list of lines.
- `splitOn_joined`: splitting gives the lines back.
- `drop_joined`: a tail of the file, as the line it starts in and the lines after.
- `afterFirst_tail`: what follows the first separator of a tail.
-/
import Mathlib.Tactic

namespace EspectralClient.Lib.LineFile

variable {α : Type*} (sep : α)

/-- each line with its separator -/
def joined (ls : List (List α)) : List α := ls.flatMap (· ++ [sep])

@[simp] theorem joined_nil : joined sep [] = [] := rfl

@[simp] theorem joined_cons (l : List α) (ls : List (List α)) : joined sep (l :: ls) = l ++ sep :: joined sep ls := by
  simp [joined]

theorem joined_concat (ls : List (List α)) (l : List α) : joined sep (ls ++ [l]) = joined sep ls ++ l ++ [sep] := by
  simp [joined]

/-- the lines joined, with one more separator at the end -/
theorem intercalate_concat {ls : List (List α)} (h : ls ≠ []) : [sep].intercalate ls ++ [sep] = joined sep ls := by
  induction ls with
  | nil => exact absurd rfl h
  | cons l ls ih =>
    cases ls with
    | nil => simp
    | cons l' ls =>
      rw [List.intercalate_cons_cons, List.append_assoc, ih (List.cons_ne_nil _ _), joined_cons sep l, List.append_assoc]
      rfl

/-! ## Splitting -/

section Split

variable [DecidableEq α]

/-- **The lines are read back**, with what follows the last separator. -/
theorem splitOn_joined {ls : List (List α)} (h : ∀ l ∈ ls, sep ∉ l) (rest : List α) :
    (joined sep ls ++ rest).splitOn sep = ls ++ rest.splitOn sep := by
  induction ls with
  | nil => rfl
  | cons l ls ih =>
    obtain ⟨hl, hls⟩ := List.forall_mem_cons.1 h
    rw [joined_cons, List.append_assoc, List.cons_append, List.splitOn_append_cons_self_of_not_mem hl, ih hls, List.cons_append]

theorem count_joined {ls : List (List α)} (h : ∀ l ∈ ls, sep ∉ l) : (joined sep ls).count sep = ls.length := by
  induction ls with
  | nil => rfl
  | cons l ls ih =>
    obtain ⟨hl, hls⟩ := List.forall_mem_cons.1 h
    rw [joined_cons, List.count_append, List.count_cons_self, ih hls, List.count_eq_zero.2 hl, List.length_cons]
    omega

end Split

/-! ## Tails -/

/-- a tail of a file: it starts in the line `l`, after its part `a` -/
structure TailOf (ls : List (List α)) (off : ℕ) (before : List (List α)) (l : List α) (after : List (List α))
    (a b : List α) : Prop where
  lines : ls = before ++ l :: after
  line : l = a ++ b
  head : (joined sep ls).take off = joined sep before ++ a
  tail : (joined sep ls).drop off = b ++ sep :: joined sep after

/-- **A tail starts in some line**, at its separator at the latest. -/
theorem drop_joined {ls : List (List α)} {off : ℕ} (h : off < (joined sep ls).length) :
    ∃ before l after a b, TailOf sep ls off before l after a b := by
  induction ls generalizing off with
  | nil => simp at h
  | cons l ls ih =>
    rcases Nat.lt_or_ge l.length off with hoff | hoff
    · obtain ⟨k, rfl⟩ : ∃ k, off = l.length + 1 + k := ⟨off - (l.length + 1), by omega⟩
      have hk : k < (joined sep ls).length := by
        rw [joined_cons, List.length_append, List.length_cons] at h
        omega
      obtain ⟨before, l', after, a, b, htail⟩ := ih hk
      have hsplit : joined sep (l :: ls) = (l ++ [sep]) ++ joined sep ls := by simp
      have hlength : (l ++ [sep]).length = l.length + 1 := by simp
      refine ⟨l :: before, l', after, a, b, ⟨by rw [htail.lines]; rfl, htail.line, ?_, ?_⟩⟩
      · rw [hsplit, ← hlength, List.take_length_add_append, htail.head, joined_cons]
        simp
      · rw [hsplit, ← hlength, List.drop_length_add_append, htail.tail]
    · refine ⟨[], l, ls, l.take off, l.drop off, ⟨rfl, (List.take_append_drop off l).symm, ?_, ?_⟩⟩
      · rw [joined_cons, List.take_append_of_le_length hoff]
        rfl
      · rw [joined_cons, List.drop_append_of_le_length hoff]

section First

variable [DecidableEq α]

/-- what follows the first separator; all of it where there is none -/
def afterFirst (l : List α) : List α := if sep ∈ l then (l.dropWhile (· ≠ sep)).drop 1 else l

theorem afterFirst_tail {b : List α} (h : sep ∉ b) (rest : List α) : afterFirst sep (b ++ sep :: rest) = rest := by
  have hmem : sep ∈ b ++ sep :: rest := by simp
  have hdrop : (b ++ sep :: rest).dropWhile (· ≠ sep) = sep :: rest := by
    rw [List.dropWhile_append_of_pos]
    · simp
    · intro x hx
      simp only [ne_eq, decide_not, Bool.not_eq_true', decide_eq_false_iff_not]
      rintro rfl
      exact h hx
  rw [afterFirst, if_pos hmem, hdrop]
  rfl

end First

/-- the last unit before a tail is a separator when the tail starts with a line -/
theorem TailOf.getLast {ls : List (List α)} {off : ℕ} {before : List (List α)} {l : List α} {after : List (List α)}
    {a b : List α} (htail : TailOf sep ls off before l after a b) (h : ∀ l ∈ ls, sep ∉ l) (hoff : 0 < off)
    (hle : off ≤ (joined sep ls).length) : (joined sep ls)[off - 1]? = some sep ↔ a = [] := by
  have hlast : (joined sep ls)[off - 1]? = (joined sep before ++ a).getLast? := by
    rw [← htail.head, List.getLast?_take, if_neg (by omega)]
    have hsome : off - 1 < (joined sep ls).length := by omega
    rw [List.getElem?_eq_getElem hsome]
    rfl
  have hbefore : ∀ ls' : List (List α), ls' ≠ [] → (joined sep ls').getLast? = some sep := by
    intro ls' hne
    rcases List.eq_nil_or_concat ls' with hnil | ⟨init, last, rfl⟩
    · exact absurd hnil hne
    · rw [List.concat_eq_append, joined_concat, List.getLast?_concat]
  rw [hlast]
  rcases List.eq_nil_or_concat a with rfl | ⟨init, last, rfl⟩
  · rw [List.append_nil]
    refine ⟨fun _ => rfl, fun _ => hbefore before ?_⟩
    rintro rfl
    have hnil := htail.head
    rw [joined_nil, List.append_nil, List.take_eq_nil_iff] at hnil
    rcases hnil with hzero | hnil
    · omega
    · rw [hnil] at hle
      simp at hle
      omega
  · rw [List.concat_eq_append, ← List.append_assoc, List.getLast?_concat]
    constructor
    · intro hsep
      have hmem : sep ∈ l := by
        rw [htail.line, List.concat_eq_append, ← Option.some.inj hsep]
        simp
      exact absurd hmem (h l (by rw [htail.lines]; simp))
    · intro hnil
      simp at hnil

end EspectralClient.Lib.LineFile
