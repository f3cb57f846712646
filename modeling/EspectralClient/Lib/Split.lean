/-
Texts split at a separator, and pieces joined by one.

- `mem_splitOnP`: the pieces hold no separator, and nothing that the text does not.
- `length_splitOn`: there is one piece more than separators.
- `piece_mem_splitOn`: what stands between two separators, or between one and an end, is a piece.
- `Joined.Crosses`: a text starts in one piece and goes on over a separator.
- `Joined.infix_intercalate`: a text is in the joined one exactly when it is in a piece or crosses a separator.
-/
import Mathlib.Tactic

namespace EspectralClient.Lib.Split

variable {α : Type*}

theorem mem_splitOnP {p : α → Bool} {l piece : List α} {a : α} (h : piece ∈ l.splitOnP p) (ha : a ∈ piece) :
    a ∈ l ∧ p a = false := by
  induction l generalizing piece with
  | nil =>
    rw [List.splitOnP_nil, List.mem_singleton] at h
    subst h
    cases ha
  | cons b l ih =>
    rw [List.splitOnP_cons_eq_if_modifyHead] at h
    split_ifs at h with hb
    · rcases List.mem_cons.1 h with rfl | h
      · cases ha
      · obtain ⟨hmem, hp⟩ := ih h ha
        exact ⟨List.mem_cons_of_mem b hmem, hp⟩
    · cases hsplit : l.splitOnP p with
      | nil => exact absurd hsplit (List.splitOnP_ne_nil p l)
      | cons first rest =>
        rw [hsplit, List.modifyHead_cons] at h
        rw [hsplit] at ih
        rcases List.mem_cons.1 h with rfl | h
        · rcases List.mem_cons.1 ha with rfl | ha
          · exact ⟨List.mem_cons_self, Bool.eq_false_of_not_eq_true hb⟩
          · obtain ⟨hmem, hp⟩ := ih List.mem_cons_self ha
            exact ⟨List.mem_cons_of_mem b hmem, hp⟩
        · obtain ⟨hmem, hp⟩ := ih (List.mem_cons_of_mem first h) ha
          exact ⟨List.mem_cons_of_mem b hmem, hp⟩

variable [BEq α] [LawfulBEq α]

theorem mem_splitOn {s a : α} {l piece : List α} (h : piece ∈ l.splitOn s) (ha : a ∈ piece) : a ∈ l ∧ a ≠ s := by
  rw [List.splitOn_eq_splitOnP] at h
  obtain ⟨hmem, hp⟩ := mem_splitOnP h ha
  exact ⟨hmem, by simpa using hp⟩

theorem length_splitOn (s : α) (l : List α) : (l.splitOn s).length = l.count s + 1 := by
  rw [List.splitOn_eq_splitOnP]
  induction l with
  | nil => simp
  | cons a l ih =>
    rw [List.splitOnP_cons_eq_if_modifyHead]
    by_cases ha : a == s
    · rw [if_pos ha, List.length_cons, ih, eq_of_beq ha, List.count_cons_self]
    · rw [if_neg ha, List.length_modifyHead, ih, List.count_cons, if_neg ha, Nat.add_zero]

/-- a piece that a separator or the end follows -/
theorem piece_mem_splitOn_head {s : α} {piece after : List α} (hpiece : s ∉ piece) (hafter : ∀ a ∈ after.head?, a = s) :
    piece ∈ (piece ++ after).splitOn s := by
  cases after with
  | nil =>
    rw [List.append_nil, List.splitOn_eq_singleton hpiece]
    exact List.mem_singleton_self piece
  | cons a after =>
    obtain rfl := hafter a rfl
    rw [List.splitOn_append_cons_self_of_not_mem hpiece]
    exact List.mem_cons_self

/-- **A piece is what stands between separators or ends.** -/
theorem piece_mem_splitOn {s : α} {before piece after : List α} (hpiece : s ∉ piece)
    (hbefore : ∀ a ∈ before.getLast?, a = s) (hafter : ∀ a ∈ after.head?, a = s) :
    piece ∈ (before ++ (piece ++ after)).splitOn s := by
  rcases List.eq_nil_or_concat before with rfl | ⟨first, a, rfl⟩
  · exact piece_mem_splitOn_head hpiece hafter
  · obtain rfl : a = s := hbefore a (by simp)
    rw [List.concat_eq_append, List.append_assoc, List.singleton_append, List.splitOn_append_cons_self]
    exact List.mem_append_right _ (piece_mem_splitOn_head hpiece hafter)

end EspectralClient.Lib.Split

namespace EspectralClient.Lib.Joined

/-! ## Joined pieces -/

variable {α : Type*}

/-- the tail of a piece, a separator, and a beginning of what the pieces after it are joined to -/
def Crosses (s : α) (t : List α) (pieces : List (List α)) : Prop :=
  ∃ before x rest tail head, pieces = before ++ x :: rest ∧ rest ≠ [] ∧ tail <:+ x ∧ head <+: [s].intercalate rest ∧
    t = tail ++ s :: head

/-- a text with no separator in it does not cross one -/
theorem not_crosses {s : α} {t : List α} (h : s ∉ t) (pieces : List (List α)) : ¬ Crosses s t pieces := by
  rintro ⟨_, _, _, tail, head, _, _, _, _, rfl⟩
  exact h (by simp)

theorem crosses_cons {s : α} {t x : List α} {rest : List (List α)} :
    Crosses s t (x :: rest) ↔
      (rest ≠ [] ∧ ∃ tail head, tail <:+ x ∧ head <+: [s].intercalate rest ∧ t = tail ++ s :: head) ∨
        Crosses s t rest := by
  constructor
  · rintro ⟨before, y, after, tail, head, hpieces, hafter, htail, hhead, ht⟩
    cases before with
    | nil =>
      cases hpieces
      exact Or.inl ⟨hafter, tail, head, htail, hhead, ht⟩
    | cons b before =>
      cases hpieces
      exact Or.inr ⟨before, y, after, tail, head, rfl, hafter, htail, hhead, ht⟩
  · rintro (⟨hrest, tail, head, htail, hhead, ht⟩ | ⟨before, y, after, tail, head, rfl, hafter, htail, hhead, ht⟩)
    · exact ⟨[], x, rest, tail, head, rfl, hrest, htail, hhead, ht⟩
    · exact ⟨x :: before, y, after, tail, head, rfl, hafter, htail, hhead, ht⟩

/-- two texts with a separator between them -/
theorem infix_append_cons {s : α} {t x y : List α} (ht : t ≠ []) :
    t <:+: x ++ s :: y ↔ t <:+: x ∨ t <:+: y ∨ ∃ tail head, tail <:+ x ∧ head <+: y ∧ t = tail ++ s :: head := by
  constructor
  · intro h
    rcases List.infix_append_iff.1 h with h | h | ⟨tail, head, rfl, htail, hhead⟩
    · exact Or.inl h
    · rcases List.infix_cons_iff.1 h with h | h
      · rcases List.prefix_cons_iff.1 h with rfl | ⟨head, rfl, hhead⟩
        · exact absurd rfl ht
        · exact Or.inr (Or.inr ⟨[], head, List.nil_suffix, hhead, rfl⟩)
      · exact Or.inr (Or.inl h)
    · rcases List.prefix_cons_iff.1 hhead with rfl | ⟨rest, rfl, hrest⟩
      · exact Or.inl (by simpa using htail.isInfix)
      · exact Or.inr (Or.inr ⟨tail, rest, htail, hrest, rfl⟩)
  · rintro (h | h | ⟨tail, head, ⟨a, rfl⟩, ⟨b, rfl⟩, rfl⟩)
    · exact h.trans (List.infix_append_left ..)
    · exact h.trans ((List.suffix_cons s y).isInfix.trans (List.infix_append_right ..))
    · exact ⟨a, b, by simp⟩

/-- **Where a text is found.** In a piece, or across a separator. -/
theorem infix_intercalate {s : α} {t : List α} (ht : t ≠ []) (pieces : List (List α)) :
    t <:+: [s].intercalate pieces ↔ (∃ x ∈ pieces, t <:+: x) ∨ Crosses s t pieces := by
  induction pieces with
  | nil =>
    have hnone : ¬ Crosses s t [] := by
      rintro ⟨before, x, rest, _, _, hpieces, _⟩
      exact absurd hpieces (by simp)
    simp [ht, hnone]
  | cons x rest ih =>
    rw [crosses_cons]
    cases rest with
    | nil =>
      have hnone : ¬ Crosses s t [] := by
        rintro ⟨before, x, rest, _, _, hpieces, _⟩
        exact absurd hpieces (by simp)
      simp [hnone]
    | cons y rest =>
      have hjoin : [s].intercalate (x :: y :: rest) = x ++ s :: [s].intercalate (y :: rest) := by
        simp [List.intercalate, List.intersperse]
      rw [hjoin, infix_append_cons ht, ih, and_iff_right (List.cons_ne_nil y rest)]
      constructor
      · rintro (h | (⟨z, hz, h⟩ | h) | h)
        · exact Or.inl ⟨x, List.mem_cons_self, h⟩
        · exact Or.inl ⟨z, List.mem_cons_of_mem x hz, h⟩
        · exact Or.inr (Or.inr h)
        · exact Or.inr (Or.inl h)
      · rintro (⟨z, hz, h⟩ | h | h)
        · rcases List.mem_cons.1 hz with rfl | hz
          · exact Or.inl h
          · exact Or.inr (Or.inl (Or.inl ⟨z, hz, h⟩))
        · exact Or.inr (Or.inr h)
        · exact Or.inr (Or.inl (Or.inr h))

end EspectralClient.Lib.Joined
