/-
Labelled closed ranges of numbers, kept in a list: any type whose values have a first and a last number and a label.

- `ascending_of_sorted`: disjoint ranges, sorted by their first number, stand one after another.
- `covering_iff`: in such a list the range before the partition point of the firsts is the only one that can hold a
  number, so looking there finds the range that holds it.
- `merged`: the fold that lets the last range of the list take in the next one when the two join.
- `merged_spec`: over ascending ranges it keeps what each label covers, the order, and leaves no two neighbours of one
  label that touch.
-/
import Mathlib.Data.List.TakeWhile
import EspectralClient.Lib.BinarySearch

namespace EspectralClient.Lib.Ranges

variable {α γ : Type*} (lo hi : α → ℕ) (label : α → γ)

/-- the number is in the range -/
def Has (r : α) (x : ℕ) : Prop := lo r ≤ x ∧ x ≤ hi r

/-- every range ends before the next starts -/
def Ascending (l : List α) : Prop := l.Pairwise fun a b => hi a < lo b

/-- no range is empty -/
def Proper (l : List α) : Prop := ∀ r ∈ l, lo r ≤ hi r

/-- no number is in both -/
def Apart (a b : α) : Prop := ∀ x, ¬ (Has lo hi a x ∧ Has lo hi b x)

/-- the label covers the number -/
def Covers (l : List α) (c : γ) (x : ℕ) : Prop := ∃ r ∈ l, Has lo hi r x ∧ label r = c

/-- neighbours of one label leave a gap -/
def Separate (l : List α) : Prop := l.IsChain fun a b => label a = label b → hi a + 1 < lo b

variable {lo hi label}

theorem ascending_of_sorted {l : List α} (hproper : Proper lo hi l) (hsorted : l.Pairwise fun a b => lo a ≤ lo b)
    (hapart : l.Pairwise (Apart lo hi)) : Ascending lo hi l := by
  refine (hsorted.and hapart).imp_of_mem fun {a b} ha hb hab => ?_
  -- otherwise the first number of the later range is in both
  by_contra hle
  exact hab.2 (lo b) ⟨⟨hab.1, by omega⟩, le_rfl, hproper b hb⟩

/-! ## Looking a number up -/

section Lookup

variable {l : List α} {x : ℕ} {p : α → Bool}

/-- in order of their firsts, the ranges that start up to a number come before the others -/
theorem exists_partition (hlo : l.Pairwise fun a b => lo a ≤ lo b) (hp : ∀ r, p r = true ↔ lo r ≤ x) :
    ∃ a b, l = a ++ b ∧ (∀ y ∈ a, p y = true) ∧ ∀ y ∈ b, p y = false := by
  refine ⟨l.takeWhile p, l.dropWhile p, List.takeWhile_append_dropWhile.symm, fun y hy => List.mem_takeWhile_imp hy,
    fun y hy => ?_⟩
  cases hdrop : l.dropWhile p with
  | nil => rw [hdrop] at hy; cases hy
  | cons d rest =>
    have hd : p d = false := by
      have hne : l.dropWhile p ≠ [] := by rw [hdrop]; simp
      have hnot := List.head_dropWhile_not p hne
      simpa [hdrop] using hnot
    have hdx : ¬ lo d ≤ x := fun hle => by rw [(hp d).2 hle] at hd; cases hd
    have hsub : List.Sublist (d :: rest) l := hdrop ▸ List.dropWhile_sublist p
    rw [hdrop] at hy
    by_contra hpy
    rw [Bool.not_eq_false, hp] at hpy
    rcases List.mem_cons.1 hy with rfl | hy
    · exact hdx hpy
    · exact hdx (((List.pairwise_cons.1 (hlo.sublist hsub)).1 y hy).trans hpy)

/-- **The range before the partition point** of the firsts up to a number is the one that may hold it. -/
theorem covering_iff (hproper : Proper lo hi l) (hasc : Ascending lo hi l) (hp : ∀ r, p r = true ↔ lo r ≤ x) (r : α) :
    (partitionPoint p l ≠ 0 ∧ l[partitionPoint p l - 1]? = some r ∧ x ≤ hi r) ↔ r ∈ l ∧ Has lo hi r x := by
  have hlo : l.Pairwise fun a b => lo a ≤ lo b :=
    hasc.imp_of_mem fun {a b} ha hb hab => by have := hproper a ha; omega
  obtain ⟨a, b, rfl, ha, hb⟩ := exists_partition hlo hp
  rw [partitionPoint_eq ha hb]
  constructor
  · rintro ⟨hpos, hget, hx⟩
    rw [List.getElem?_append_left (by omega)] at hget
    have hmem := List.mem_of_getElem? hget
    exact ⟨List.mem_append_left b hmem, (hp r).1 (ha r hmem), hx⟩
  · rintro ⟨hmem, hrx⟩
    have hra : r ∈ a := by
      rcases List.mem_append.1 hmem with hra | hrb
      · exact hra
      · exact absurd ((hp r).2 hrx.1) (by simp [hb r hrb])
    -- a later one among the firsts up to `x` would start after `r` ends, past `x`
    have hlast : a[a.length - 1]? = some r := by
      obtain ⟨u, v, rfl⟩ := List.append_of_mem hra
      cases v with
      | nil => simp
      | cons y v =>
        exfalso
        have hy : p y = true := ha y (by simp)
        have hasc' := (List.pairwise_append.1 (List.pairwise_append.1 hasc).1).2.1
        have hry := (List.pairwise_cons.1 hasc').1 y List.mem_cons_self
        have := (hp y).1 hy
        have := hrx.2
        omega
    have hpos : a.length ≠ 0 := by
      have := List.length_pos_of_mem hra
      omega
    exact ⟨hpos, by rw [List.getElem?_append_left (by omega)]; exact hlast, hrx.2⟩

end Lookup

/-! ## Merging neighbours -/

/-- the last range kept, which stands first, takes in the next one when they join -/
def mergeStep (joins : α → α → Bool) (extend : α → α → α) : List α → α → List α
  | [], r => [r]
  | prev :: rest, r => if joins prev r then extend prev r :: rest else r :: prev :: rest

def merged (joins : α → α → Bool) (extend : α → α → α) (l : List α) : List α :=
  (l.foldl (mergeStep joins extend) []).reverse

/-- joining is touching under one label, and a range that takes another in spans both -/
structure Joins (lo hi : α → ℕ) (label : α → γ) (joins : α → α → Bool) (extend : α → α → α) : Prop where
  joins_iff : ∀ a b, joins a b = true ↔ label a = label b ∧ lo b ≤ hi a + 1
  lo_extend : ∀ a b, lo (extend a b) = lo a
  hi_extend : ∀ a b, hi a < lo b → lo b ≤ hi b → hi (extend a b) = hi b
  label_extend : ∀ a b, label (extend a b) = label a

theorem length_merged (joins : α → α → Bool) (extend : α → α → α) (l : List α) :
    (merged joins extend l).length ≤ l.length := by
  have hfold : ∀ out : List α, (l.foldl (mergeStep joins extend) out).length ≤ out.length + l.length := by
    induction l with
    | nil => simp
    | cons r l ih =>
      intro out
      have hstep : (mergeStep joins extend out r).length ≤ out.length + 1 := by
        cases out with
        | nil => simp [mergeStep]
        | cons prev rest => by_cases hj : joins prev r = true <;> simp [mergeStep, hj]
      have := ih (mergeStep joins extend out r)
      rw [List.foldl_cons, List.length_cons]
      omega
  have := hfold []
  rwa [List.length_nil, Nat.zero_add, ← List.length_reverse] at this

section Merge

variable {joins : α → α → Bool} {extend : α → α → α}

/-- what the fold has kept, last first, of the ranges it has seen, with the ranges that are left -/
structure Kept (lo hi : α → ℕ) (label : α → γ) (seen left out : List α) : Prop where
  proper : Proper lo hi out
  descending : out.Pairwise fun b a => hi a < lo b
  before : ∀ a ∈ out, ∀ r ∈ left, hi a < lo r
  separate : out.IsChain fun b a => label a = label b → hi a + 1 < lo b
  covers : ∀ c x, Covers lo hi label out c x ↔ Covers lo hi label seen c x

theorem covers_cons {r : α} {l : List α} {c : γ} {x : ℕ} :
    Covers lo hi label (r :: l) c x ↔ Has lo hi r x ∧ label r = c ∨ Covers lo hi label l c x := by
  simp [Covers]

theorem covers_append {l l' : List α} {c : γ} {x : ℕ} :
    Covers lo hi label (l ++ l') c x ↔ Covers lo hi label l c x ∨ Covers lo hi label l' c x := by
  simp [Covers, or_and_right, exists_or]

theorem kept_step (hj : Joins lo hi label joins extend) {seen left out : List α} {r : α}
    (hproper : lo r ≤ hi r) (hnext : ∀ r' ∈ left, hi r < lo r') (h : Kept lo hi label seen (r :: left) out) :
    Kept lo hi label (seen ++ [r]) left (mergeStep joins extend out r) := by
  have hcovers : ∀ c x, Covers lo hi label (seen ++ [r]) c x ↔
      Covers lo hi label out c x ∨ Has lo hi r x ∧ label r = c := by
    intro c x
    rw [covers_append, h.covers c x]
    simp [Covers]
  cases out with
  | nil =>
    refine ⟨?_, by simp [mergeStep], ?_, by simp [mergeStep], ?_⟩
    · simpa [mergeStep, Proper] using hproper
    · simpa [mergeStep] using hnext
    · intro c x
      rw [hcovers]
      simp [mergeStep, Covers]
  | cons prev rest =>
    have hlt : hi prev < lo r := h.before prev List.mem_cons_self r List.mem_cons_self
    obtain ⟨hprev, hrest⟩ := List.pairwise_cons.1 h.descending
    have hchain := h.separate
    by_cases hjoin : joins prev r = true
    · obtain ⟨hlabel, htouch⟩ := (hj.joins_iff prev r).1 hjoin
      have hlo := hj.lo_extend prev r
      have hhi := hj.hi_extend prev r hlt hproper
      have hlab := hj.label_extend prev r
      have hpp := h.proper prev List.mem_cons_self
      rw [show mergeStep joins extend (prev :: rest) r = extend prev r :: rest from if_pos hjoin]
      refine ⟨?_, ?_, ?_, ?_, ?_⟩
      · intro a ha
        rcases List.mem_cons.1 ha with rfl | ha
        · omega
        · exact h.proper a (List.mem_cons_of_mem _ ha)
      · exact List.pairwise_cons.2 ⟨fun a ha => hlo ▸ hprev a ha, hrest⟩
      · intro a ha r' hr'
        rcases List.mem_cons.1 ha with rfl | ha
        · exact hhi ▸ hnext r' hr'
        · exact h.before a (List.mem_cons_of_mem _ ha) r' (List.mem_cons_of_mem _ hr')
      · cases rest with
        | nil => exact List.isChain_singleton _
        | cons a rest =>
          obtain ⟨hgap, hchain⟩ := List.isChain_cons_cons.1 hchain
          exact List.isChain_cons_cons.2 ⟨fun hl => hlo ▸ hgap (hl.trans hlab), hchain⟩
      · intro c x
        rw [hcovers, covers_cons, covers_cons, hlab, ← hlabel]
        -- the two ranges touch, so together they are the range that spans both
        have hspan : Has lo hi (extend prev r) x ↔ Has lo hi prev x ∨ Has lo hi r x := by
          unfold Has
          omega
        rw [hspan]
        tauto
    · rw [show mergeStep joins extend (prev :: rest) r = r :: prev :: rest from if_neg hjoin]
      refine ⟨?_, ?_, ?_, ?_, ?_⟩
      · intro a ha
        rcases List.mem_cons.1 ha with rfl | ha
        · exact hproper
        · exact h.proper a ha
      · exact List.pairwise_cons.2 ⟨fun a ha => h.before a ha r List.mem_cons_self, h.descending⟩
      · intro a ha r' hr'
        rcases List.mem_cons.1 ha with rfl | ha
        · exact hnext r' hr'
        · exact h.before a ha r' (List.mem_cons_of_mem _ hr')
      · refine List.isChain_cons_cons.2 ⟨fun hl => ?_, hchain⟩
        by_contra hle
        exact hjoin ((hj.joins_iff prev r).2 ⟨hl, by omega⟩)
      · intro c x
        rw [hcovers, covers_cons (r := r)]
        tauto

theorem kept_run (hj : Joins lo hi label joins extend) {seen left out : List α} (hproper : Proper lo hi left)
    (hasc : Ascending lo hi left) (h : Kept lo hi label seen left out) :
    Kept lo hi label (seen ++ left) [] (left.foldl (mergeStep joins extend) out) := by
  induction left generalizing seen out with
  | nil => rwa [List.append_nil]
  | cons r left ih =>
    obtain ⟨hnext, hasc⟩ := List.pairwise_cons.1 hasc
    have hr : lo r ≤ hi r := hproper r List.mem_cons_self
    have hrun := ih (fun a ha => hproper a (List.mem_cons_of_mem _ ha)) hasc (kept_step hj hr hnext h)
    rwa [List.append_assoc] at hrun

/-- what merging leaves of ascending ranges -/
structure Merged (lo hi : α → ℕ) (label : α → γ) (l out : List α) : Prop where
  proper : Proper lo hi out
  ascending : Ascending lo hi out
  separate : Separate lo hi label out
  covers : ∀ c x, Covers lo hi label out c x ↔ Covers lo hi label l c x

/-- **Merging neighbours** of ascending ranges keeps what each label covers and their order, and leaves a gap between
neighbours of one label. -/
theorem merged_spec (hj : Joins lo hi label joins extend) {l : List α} (hproper : Proper lo hi l)
    (hasc : Ascending lo hi l) : Merged lo hi label l (merged joins extend l) := by
  have hstart : Kept lo hi label [] l [] :=
    ⟨by simp [Proper], List.Pairwise.nil, by simp, List.isChain_nil, fun _ _ => Iff.rfl⟩
  have hend := kept_run hj hproper hasc hstart
  rw [List.nil_append] at hend
  unfold merged
  refine ⟨fun r hr => hend.proper r (List.mem_reverse.1 hr), List.pairwise_reverse.2 hend.descending,
    List.isChain_reverse.2 hend.separate, fun c x => ?_⟩
  rw [← hend.covers c x]
  simp [Covers]

end Merge

end EspectralClient.Lib.Ranges
