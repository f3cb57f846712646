/-
One pass over a list that keeps some entries only at their first occurrence.

- `Rule`: what to do with an entry: keep it always, drop it always, or keep it while its key is new.
- `keepFirst`: the pass, from the keys already seen.
- `keepFirst_append`: the pass over a concatenation; `keepFirst_absorb`: a prefix that was already filtered passes
  unchanged, so passes made pair by pair amount to one pass over everything.
- `mem_keepFirst_once`, `keepFirst_once_pairwise`: where every entry is its own key, the entries are kept once each, in the
  order of their first occurrences.
- `foldl_pushFirst`: the loop with a set and an output that programs write is this pass.
- `keepFirst_map`: renaming the keys one to one changes nothing.
-/
import Mathlib.Tactic

namespace EspectralClient.Lib

variable {α κ κ' : Type*}

inductive Rule (κ : Type*) where
  | always
  | never
  | once (k : κ)

namespace Rule

def key? : Rule κ → Option κ
  | once k => some k
  | _ => none

def map (f : κ → κ') : Rule κ → Rule κ'
  | always => always
  | never => never
  | once k => once (f k)

end Rule

/-- the keys that the entries of a list carry -/
def keysOf (rule : α → Rule κ) (l : List α) : List κ := l.filterMap fun a => (rule a).key?

theorem mem_keysOf_cons {rule : α → Rule κ} {a : α} {l : List α} {k : κ} :
    k ∈ keysOf rule (a :: l) ↔ (rule a).key? = some k ∨ k ∈ keysOf rule l := by
  cases h : (rule a).key? <;> simp [keysOf, h, eq_comm]

variable [DecidableEq κ] [DecidableEq κ']

def keepFirst (rule : α → Rule κ) : List κ → List α → List α
  | _, [] => []
  | seen, a :: l =>
    match rule a with
    | .always => a :: keepFirst rule seen l
    | .never => keepFirst rule seen l
    | .once k => if k ∈ seen then keepFirst rule seen l else a :: keepFirst rule (k :: seen) l

variable (rule : α → Rule κ)

@[simp] theorem keepFirst_nil (seen : List κ) : keepFirst rule seen [] = [] := rfl

/-- only which keys were seen counts -/
theorem keepFirst_congr {seen seen' : List κ} (h : ∀ k, k ∈ seen ↔ k ∈ seen') (l : List α) :
    keepFirst rule seen l = keepFirst rule seen' l := by
  induction l generalizing seen seen' with
  | nil => rfl
  | cons a l ih =>
    simp only [keepFirst]
    cases rule a with
    | always => exact congrArg (a :: ·) (ih h)
    | never => exact ih h
    | once k =>
      simp only [h k]
      split_ifs
      · exact ih h
      · exact congrArg (a :: ·) (ih fun k' => by simp [h k'])

theorem keepFirst_append (seen : List κ) (l l' : List α) :
    keepFirst rule seen (l ++ l') = keepFirst rule seen l ++ keepFirst rule (keysOf rule l ++ seen) l' := by
  induction l generalizing seen with
  | nil => rfl
  | cons a l ih =>
    simp only [List.cons_append, keepFirst]
    have hkeys : ∀ k, k ∈ keysOf rule (a :: l) ++ seen ↔ (rule a).key? = some k ∨ k ∈ keysOf rule l ++ seen := by
      simp [mem_keysOf_cons, or_assoc]
    cases hr : rule a with
    | always =>
      rw [ih, List.cons_append]
      exact congrArg (fun r => a :: (_ ++ r)) (keepFirst_congr rule (by simp [hkeys, hr, Rule.key?]) l')
    | never =>
      rw [ih]
      exact congrArg (_ ++ ·) (keepFirst_congr rule (by simp [hkeys, hr, Rule.key?]) l')
    | once k =>
      dsimp only
      split_ifs with hk
      · rw [ih]
        refine congrArg (_ ++ ·) (keepFirst_congr rule ?_ l')
        intro k'
        simp only [hkeys, hr, Rule.key?, Option.some.injEq, List.mem_append]
        constructor
        · exact .inr
        · rintro (rfl | h)
          · exact .inr hk
          · exact h
      · rw [ih, List.cons_append]
        refine congrArg (fun r => a :: (_ ++ r)) (keepFirst_congr rule ?_ l')
        intro k'
        simp only [hkeys, hr, Rule.key?, Option.some.injEq, List.mem_append, List.mem_cons]
        tauto

/-- the pass loses no key -/
theorem mem_keysOf_keepFirst (seen : List κ) (l : List α) (k : κ) :
    k ∈ keysOf rule (keepFirst rule seen l) ++ seen ↔ k ∈ keysOf rule l ++ seen := by
  induction l generalizing seen with
  | nil => rfl
  | cons a l ih =>
    simp only [List.mem_append, keepFirst] at ih ⊢
    cases hr : rule a with
    | always => simpa [mem_keysOf_cons, hr, Rule.key?] using ih seen
    | never => simpa [mem_keysOf_cons, hr, Rule.key?] using ih seen
    | once k' =>
      dsimp only
      split_ifs with hk
      · rw [ih seen, mem_keysOf_cons, hr, Rule.key?, Option.some.injEq]
        constructor
        · rintro (h | h) <;> simp [h]
        · rintro ((rfl | h) | h)
          · exact .inr hk
          · exact .inl h
          · exact .inr h
      · have hcons := ih (k' :: seen)
        simp only [mem_keysOf_cons, hr, Rule.key?, Option.some.injEq, List.mem_cons] at hcons ⊢
        tauto

theorem keepFirst_idem (seen : List κ) (l : List α) :
    keepFirst rule seen (keepFirst rule seen l) = keepFirst rule seen l := by
  induction l generalizing seen with
  | nil => rfl
  | cons a l ih =>
    simp only [keepFirst]
    cases hr : rule a with
    | always => simp [keepFirst, hr, ih]
    | never => exact ih seen
    | once k =>
      dsimp only
      split_ifs with hk
      · exact ih seen
      · simp [keepFirst, hr, hk, ih]

/-! ### Every entry its own key -/

theorem mem_keepFirst_once {seen l : List κ} {k : κ} : k ∈ keepFirst .once seen l ↔ k ∈ l ∧ k ∉ seen := by
  induction l generalizing seen with
  | nil => simp
  | cons a l ih =>
    simp only [keepFirst]
    split_ifs with ha
    · rw [ih, List.mem_cons]
      constructor
      · rintro ⟨hk, hseen⟩
        exact ⟨.inr hk, hseen⟩
      · rintro ⟨rfl | hk, hseen⟩
        · exact absurd ha hseen
        · exact ⟨hk, hseen⟩
    · rw [List.mem_cons, ih, List.mem_cons, List.mem_cons, not_or]
      constructor
      · rintro (rfl | ⟨hk, -, hseen⟩)
        · exact ⟨.inl rfl, ha⟩
        · exact ⟨.inr hk, hseen⟩
      · rintro ⟨rfl | hk, hseen⟩
        · exact .inl rfl
        · by_cases hka : k = a
          · exact .inl hka
          · exact .inr ⟨hk, hka, hseen⟩

/-- what is kept stands in the order of the first occurrences, each once -/
theorem keepFirst_once_pairwise (seen l : List κ) :
    (keepFirst .once seen l).Pairwise fun a b => l.idxOf a < l.idxOf b := by
  induction l generalizing seen with
  | nil => exact List.Pairwise.nil
  | cons a l ih =>
    have hlater : ∀ {seen' : List κ}, a ∈ seen' →
        (keepFirst .once seen' l).Pairwise fun b c => (a :: l).idxOf b < (a :: l).idxOf c := by
      intro seen' ha
      refine (ih seen').imp_of_mem ?_
      intro b c hb hc hlt
      have hne : ∀ {d}, d ∈ keepFirst .once seen' l → a ≠ d := by
        rintro d hd rfl
        exact (mem_keepFirst_once.1 hd).2 ha
      rw [List.idxOf_cons_ne _ (hne hb), List.idxOf_cons_ne _ (hne hc)]
      exact Nat.succ_lt_succ hlt
    simp only [keepFirst]
    split_ifs with ha
    · exact hlater ha
    · refine List.pairwise_cons.2 ⟨?_, hlater List.mem_cons_self⟩
      intro b hb
      have hne : a ≠ b := by
        rintro rfl
        exact (mem_keepFirst_once.1 hb).2 List.mem_cons_self
      rw [List.idxOf_cons_self, List.idxOf_cons_ne _ hne]
      exact Nat.succ_pos _

/-- **Absorption.** Filtering a prefix first changes nothing. -/
theorem keepFirst_absorb (seen : List κ) (l l' : List α) :
    keepFirst rule seen (keepFirst rule seen l ++ l') = keepFirst rule seen (l ++ l') := by
  rw [keepFirst_append, keepFirst_append, keepFirst_idem]
  congr 1
  exact keepFirst_congr rule (mem_keysOf_keepFirst rule seen l) l'

/-- the body of the loop: the set of keys and what was kept so far -/
def pushFirst (st : List κ × List α) (a : α) : List κ × List α :=
  match rule a with
  | .always => (st.1, st.2 ++ [a])
  | .never => st
  | .once k => if k ∈ st.1 then st else (k :: st.1, st.2 ++ [a])

theorem foldl_pushFirst (st : List κ × List α) (l : List α) :
    (l.foldl (pushFirst rule) st).2 = st.2 ++ keepFirst rule st.1 l := by
  induction l generalizing st with
  | nil => simp
  | cons a l ih =>
    rw [List.foldl_cons, ih]
    simp only [pushFirst, keepFirst]
    cases rule a with
    | always => simp
    | never => rfl
    | once k =>
      dsimp only
      split_ifs <;> simp

/-- keys renamed one to one -/
theorem keepFirst_map (f : κ → κ') (seen : List κ) (l : List α)
    (hf : ∀ k ∈ keysOf rule l ++ seen, ∀ k' ∈ keysOf rule l ++ seen, f k = f k' → k = k') :
    keepFirst (fun a => (rule a).map f) (seen.map f) l = keepFirst rule seen l := by
  induction l generalizing seen with
  | nil => rfl
  | cons a l ih =>
    have hrest : ∀ {seen' : List κ}, (∀ k ∈ seen', k ∈ seen ∨ (rule a).key? = some k) →
        ∀ k ∈ keysOf rule l ++ seen', ∀ k' ∈ keysOf rule l ++ seen', f k = f k' → k = k' := by
      intro seen' hseen k hk k' hk'
      have hall : ∀ k ∈ keysOf rule l ++ seen', k ∈ keysOf rule (a :: l) ++ seen := by
        intro k hk
        rw [List.mem_append, mem_keysOf_cons]
        rcases List.mem_append.1 hk with hk | hk
        · exact .inl (.inr hk)
        · rcases hseen k hk with h | h
          · exact .inr h
          · exact .inl (.inl h)
      exact hf k (hall k hk) k' (hall k' hk')
    simp only [keepFirst]
    cases hr : rule a with
    | always => exact congrArg (a :: ·) (ih seen (hrest fun k hk => .inl hk))
    | never => exact ih seen (hrest fun k hk => .inl hk)
    | once k =>
      have hkey : k ∈ keysOf rule (a :: l) ++ seen := by simp [mem_keysOf_cons, hr, Rule.key?]
      have hmem : f k ∈ seen.map f ↔ k ∈ seen := by
        constructor
        · intro h
          obtain ⟨k', hk', hkk⟩ := List.mem_map.1 h
          rwa [← hf k' (List.mem_append_right _ hk') k hkey hkk]
        · exact List.mem_map_of_mem
      simp only [Rule.map, hmem]
      split_ifs
      · exact ih seen (hrest fun k hk => .inl hk)
      · refine congrArg (a :: ·) (ih (k :: seen) (hrest ?_))
        intro k' hk'
        rcases List.mem_cons.1 hk' with rfl | hk'
        · exact .inr (by simp [hr, Rule.key?])
        · exact .inl hk'

end EspectralClient.Lib
