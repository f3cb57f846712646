/-
What a stable sort by a total preorder yields.

- `StableSort`: a list in order, with the elements of each class in the order they had.
- `StableSort.unique`: there is one such list at most, whatever algorithm makes it.
- `mergeSort_stable`: there is one.
-/
import Mathlib.Tactic

namespace EspectralClient.Lib

variable {α : Type*} {le : α → α → Bool}

/-- neither is before the other -/
def eqv (le : α → α → Bool) (x y : α) : Bool := le x y && le y x

/-- `s` is `l` in order, and what is of one class is in the order it had -/
structure StableSort (le : α → α → Bool) (l s : List α) : Prop where
  sorted : s.Pairwise fun x y => le x y = true
  stable : ∀ x, s.filter (eqv le x) = l.filter (eqv le x)

theorem eqv_self (hrefl : ∀ x, le x x = true) (x : α) : eqv le x x = true := by
  simp [eqv, hrefl]

/-- two sorted lists with the same classes begin with the same element -/
theorem head_unique (hrefl : ∀ x, le x x = true) {x y : α} {s s' : List α}
    (hs : (x :: s).Pairwise fun x y => le x y = true) (hs' : (y :: s').Pairwise fun x y => le x y = true)
    (hclass : ∀ z, (x :: s).filter (eqv le z) = (y :: s').filter (eqv le z)) : x = y := by
  have hmem : ∀ {z : α} {t t' : List α}, t.filter (eqv le z) = t'.filter (eqv le z) → z ∈ t → z ∈ t' := by
    intro z t t' h hz
    have hfilter : z ∈ t.filter (eqv le z) := List.mem_filter.2 ⟨hz, eqv_self hrefl z⟩
    rw [h] at hfilter
    exact (List.mem_filter.1 hfilter).1
  have hxy : le x y = true := by
    rcases List.mem_cons.1 (hmem (hclass y).symm List.mem_cons_self) with rfl | hy
    · exact hrefl y
    · exact (List.pairwise_cons.1 hs).1 y hy
  have hyx : le y x = true := by
    rcases List.mem_cons.1 (hmem (hclass x) List.mem_cons_self) with rfl | hx
    · exact hrefl x
    · exact (List.pairwise_cons.1 hs').1 x hx
  have hfirst := hclass x
  rw [List.filter_cons_of_pos (eqv_self hrefl x), List.filter_cons_of_pos (by simp [eqv, hxy, hyx])] at hfirst
  exact (List.cons.inj hfirst).1

theorem sorted_unique (hrefl : ∀ x, le x x = true) {s s' : List α} (hs : s.Pairwise fun x y => le x y = true)
    (hs' : s'.Pairwise fun x y => le x y = true) (hclass : ∀ z, s.filter (eqv le z) = s'.filter (eqv le z)) :
    s = s' := by
  induction s generalizing s' with
  | nil =>
    cases s' with
    | nil => rfl
    | cons y s' =>
      have hy := hclass y
      rw [List.filter_cons_of_pos (eqv_self hrefl y)] at hy
      cases hy
  | cons x s ih =>
    cases s' with
    | nil =>
      have hx := hclass x
      rw [List.filter_cons_of_pos (eqv_self hrefl x)] at hx
      cases hx
    | cons y s' =>
      obtain rfl := head_unique hrefl hs hs' hclass
      congr 1
      apply ih (List.pairwise_cons.1 hs).2 (List.pairwise_cons.1 hs').2
      intro z
      have hz := hclass z
      rw [List.filter_cons, List.filter_cons] at hz
      split_ifs at hz
      · exact (List.cons.inj hz).2
      · exact hz

/-- **One result.** Two stable sorts of a list are the same list. -/
theorem StableSort.unique (hrefl : ∀ x, le x x = true) {l s s' : List α} (h : StableSort le l s)
    (h' : StableSort le l s') : s = s' :=
  sorted_unique hrefl h.sorted h'.sorted fun z => (h.stable z).trans (h'.stable z).symm

/-- **Merge sort** is a stable sort. -/
theorem mergeSort_stable (htrans : ∀ x y z, le x y = true → le y z = true → le x z = true)
    (htotal : ∀ x y, (le x y || le y x) = true) (l : List α) : StableSort le l (l.mergeSort le) := by
  refine ⟨List.pairwise_mergeSort htrans htotal l, ?_⟩
  intro x
  have hsorted : (l.filter (eqv le x)).Pairwise fun y z => le y z = true := by
    apply List.pairwise_of_forall_mem_list
    intro y hy z hz
    have hy' := (List.mem_filter.1 hy).2
    have hz' := (List.mem_filter.1 hz).2
    simp only [eqv, Bool.and_eq_true] at hy' hz'
    exact htrans y x z hy'.2 hz'.1
  have hsub := (List.sublist_mergeSort htrans htotal hsorted List.filter_sublist).filter (eqv le x)
  rw [List.filter_filter] at hsub
  simp only [Bool.and_self] at hsub
  symm
  apply hsub.eq_of_length
  exact (((List.mergeSort_perm l le).filter _).length_eq).symm

end EspectralClient.Lib
