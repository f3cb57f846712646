/-
Binary search on a slice, as the standard library does it: the half that cannot hold the answer is dropped until one
element is left, and that one is compared. The comparison answers for an element where it stands from what is searched.

- `bisect`: the loop; `bisect_spec`: it ends at the last position that is not above, or at the first.
- `binarySearchBy_ok`: on a slice where only one element compares equal, that one is found.
- `partitionPoint_eq`: on a slice where the predicate holds first and fails then, the point where it starts to fail.
- `upperBound`: the other common loop, which keeps two bounds, and where it ends.
-/
import Mathlib.Tactic

namespace EspectralClient.Lib

/-- the loop of `binary_search_by` over `size` elements from `base`, which answers the element that is left -/
def bisect (cmp : ℕ → Ordering) : ℕ → ℕ → ℕ → ℕ
  | 0, base, _ => base
  | fuel + 1, base, size =>
    if size ≤ 1 then base
    else
      let half := size / 2
      let mid := base + half
      bisect cmp fuel (if cmp mid = .gt then base else mid) (size - half)

section Search

variable {α : Type*}

/-- the order of the element at an index; out of the slice is above -/
def orderAt (f : α → Ordering) (l : List α) (i : ℕ) : Ordering := (l[i]?.map f).getD .gt

def binarySearchBy (f : α → Ordering) (l : List α) : Except ℕ ℕ :=
  if l = [] then .error 0
  else
    let base := bisect (orderAt f l) l.length 0 l.length
    match orderAt f l base with
    | .eq => .ok base
    | .lt => .error (base + 1)
    | .gt => .error base

def partitionPoint (p : α → Bool) (l : List α) : ℕ :=
  match binarySearchBy (fun a => if p a then .lt else .gt) l with
  | .ok i => i
  | .error i => i

end Search

/-- only the positions before `k` are not above -/
def Below (cmp : ℕ → Ordering) (k : ℕ) : Prop := ∀ i, cmp i ≠ .gt ↔ i < k

theorem bisect_spec {cmp : ℕ → Ordering} {k : ℕ} (hk : Below cmp k) {fuel base size : ℕ} (hfuel : size ≤ fuel)
    (hsize : 0 < size) (hlo : base = 0 ∨ base < k) (hhi : k ≤ base + size) :
    bisect cmp fuel base size = k - 1 := by
  induction fuel generalizing base size with
  | zero => omega
  | succ fuel ih =>
    unfold bisect
    by_cases hone : size ≤ 1
    · rw [if_pos hone]
      omega
    rw [if_neg hone]
    dsimp only
    by_cases hgt : cmp (base + size / 2) = .gt
    · -- the middle is above: so is everything from it on
      have hmid : ¬ base + size / 2 < k := fun hlt => (hk _).2 hlt hgt
      rw [if_pos hgt]
      exact ih (by omega) (by omega) hlo (by omega)
    · have hmid : base + size / 2 < k := (hk _).1 hgt
      rw [if_neg hgt]
      exact ih (by omega) (by omega) (Or.inr hmid) (by omega)

section Search

variable {α : Type*} {f : α → Ordering} {l : List α} {k : ℕ}

theorem binarySearchBy_spec (hk : Below (orderAt f l) k) (hlen : k ≤ l.length) :
    binarySearchBy f l = if k = 0 then .error 0 else
      match orderAt f l (k - 1) with
      | .eq => .ok (k - 1)
      | _ => .error k := by
  unfold binarySearchBy
  by_cases hnil : l = []
  · have hzero : k = 0 := by
      rw [hnil, List.length_nil] at hlen
      omega
    rw [if_pos hnil, if_pos hzero]
  · have hpos : 0 < l.length := List.length_pos_iff.2 hnil
    rw [if_neg hnil, bisect_spec hk le_rfl hpos (Or.inl rfl) (by omega)]
    dsimp only
    by_cases hzero : k = 0
    · have hgt : orderAt f l (k - 1) = .gt := not_not.1 fun h => absurd ((hk _).1 h) (by omega)
      rw [if_pos hzero, hgt, hzero]
    · have hle : orderAt f l (k - 1) ≠ .gt := (hk _).2 (by omega)
      rw [if_neg hzero]
      cases hord : orderAt f l (k - 1) with
      | gt => exact absurd hord hle
      | eq => rfl
      | lt => dsimp only; rw [Nat.sub_add_cancel (by omega)]

/-- a slice in two parts, the first below or equal and the second above -/
theorem below_append {a b : List α} (ha : ∀ x ∈ a, f x ≠ .gt) (hb : ∀ x ∈ b, f x = .gt) :
    Below (orderAt f (a ++ b)) a.length := by
  intro i
  unfold orderAt
  by_cases hi : i < a.length
  · rw [List.getElem?_append_left hi, List.getElem?_eq_getElem hi]
    exact iff_of_true (ha _ (List.getElem_mem hi)) hi
  · rw [List.getElem?_append_right (by omega)]
    refine iff_of_false ?_ hi
    cases hget : b[i - a.length]? with
    | none => simp
    | some x => simp [hb x (List.mem_of_getElem? hget)]

/-- **The found index.** One element is equal, what stands before it is below and what stands after it is above. -/
theorem binarySearchBy_ok {a b : List α} {x : α} (ha : ∀ y ∈ a, f y = .lt) (hx : f x = .eq) (hb : ∀ y ∈ b, f y = .gt) :
    binarySearchBy f (a ++ x :: b) = .ok a.length := by
  have hfirst : ∀ y ∈ a ++ [x], f y ≠ .gt := by
    intro y hy
    rcases List.mem_append.1 hy with hy | hy
    · rw [ha y hy]; decide
    · rw [List.mem_singleton.1 hy, hx]; decide
  have hbelow := below_append hfirst hb
  rw [List.append_assoc, List.singleton_append, List.length_append, List.length_singleton] at hbelow
  have hat : orderAt f (a ++ x :: b) a.length = .eq := by simp [orderAt, hx]
  rw [binarySearchBy_spec hbelow (by simp), if_neg (by omega), Nat.add_sub_cancel, hat]

/-- **The partition point.** -/
theorem partitionPoint_eq {p : α → Bool} {a b : List α} (ha : ∀ x ∈ a, p x = true) (hb : ∀ x ∈ b, p x = false) :
    partitionPoint p (a ++ b) = a.length := by
  have hbelow := below_append (f := fun x => if p x then .lt else .gt) (a := a) (b := b)
    (fun x hx => by simp [ha x hx]) (fun x hx => by simp [hb x hx])
  unfold partitionPoint
  rw [binarySearchBy_spec hbelow (by simp)]
  by_cases hzero : a.length = 0
  · rw [if_pos hzero, hzero]
  · rw [if_neg hzero]
    have hne : orderAt (fun x => if p x then Ordering.lt else .gt) (a ++ b) (a.length - 1) ≠ .eq := by
      unfold orderAt
      cases (a ++ b)[a.length - 1]? with
      | none => simp
      | some x => cases h : p x <;> simp [h]
    split
    · rename_i i hi
      split at hi
      · rename_i heq
        exact absurd heq hne
      · cases hi
    · rename_i i hi
      split at hi
      · cases hi
      · cases hi; rfl

end Search

/-! ## Between two bounds -/

/-- the loop that halves what lies between two bounds: past the middle when the predicate holds there -/
def upperBound (p : ℕ → Bool) : ℕ → ℕ → ℕ → ℕ
  | 0, lo, _ => lo
  | fuel + 1, lo, hi =>
    if lo < hi then
      let mid := (lo + hi) / 2
      if p mid then upperBound p fuel (mid + 1) hi else upperBound p fuel lo mid
    else lo

theorem upperBound_mem {p : ℕ → Bool} {fuel lo hi : ℕ} (hle : lo ≤ hi) :
    lo ≤ upperBound p fuel lo hi ∧ upperBound p fuel lo hi ≤ hi := by
  induction fuel generalizing lo hi with
  | zero => exact ⟨le_rfl, hle⟩
  | succ fuel ih =>
    unfold upperBound
    by_cases hlt : lo < hi
    · rw [if_pos hlt]
      dsimp only
      by_cases hp : p ((lo + hi) / 2) = true
      · rw [if_pos hp]
        have hright : (lo + hi) / 2 + 1 ≤ hi := by omega
        have h := ih hright
        omega
      · rw [if_neg hp]
        have hleft : lo ≤ (lo + hi) / 2 := by omega
        have h := ih hleft
        omega
    · rw [if_neg hlt]
      exact ⟨le_rfl, hle⟩

/-- **The loop ends where the predicate starts to fail.** -/
theorem upperBound_eq {p : ℕ → Bool} {k fuel lo hi : ℕ} (hfuel : hi - lo ≤ fuel) (hlo : lo ≤ k) (hhi : k ≤ hi)
    (hp : ∀ i < hi, p i = true ↔ i < k) : upperBound p fuel lo hi = k := by
  induction fuel generalizing lo hi with
  | zero =>
    unfold upperBound
    omega
  | succ fuel ih =>
    unfold upperBound
    by_cases hlt : lo < hi
    · rw [if_pos hlt]
      dsimp only
      by_cases hmid : p ((lo + hi) / 2) = true
      · have hk := (hp ((lo + hi) / 2) (by omega)).1 hmid
        rw [if_pos hmid]
        exact ih (by omega) (by omega) hhi hp
      · have hk : ¬ (lo + hi) / 2 < k := fun h => hmid ((hp _ (by omega)).2 h)
        rw [if_neg hmid]
        exact ih (by omega) hlo (by omega) fun i hi => hp i (by omega)
    · rw [if_neg hlt]
      omega

end EspectralClient.Lib
