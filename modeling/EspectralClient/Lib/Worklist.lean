/-
A worklist that grows while it is worked through: the items of a state are handled in order, handling one is a run of
operations it gives, and the operations may append items. The walk stops when every item has been handled.

- `drain`: the walk, with fuel; `visits`: the operations it takes, in order.
- `drain_eq_run`: a walk that ends is one run of the machine, over its visits.
- `visits_eq_flatMap`: the visits of a walk that ends are the operations of the items it ends with, each once.
- `visits_owned`: every visit is an operation of an item the state it is taken in already has.
- `drain_total`: where an invariant bounds the number of items, the walk ends within that many turns.
-/
import EspectralClient.Lib.Run

namespace EspectralClient.Lib

namespace Worklist

variable {σ α ω : Type*} (items : σ → List α) (ops : ℕ → α → List ω) (step : σ → ω → σ)

/-- handles the items from the `i`-th on; `none` when the fuel runs out first -/
def drain : ℕ → ℕ → σ → Option σ
  | fuel, i, s =>
    match (items s)[i]? with
    | none => some s
    | some a =>
      match fuel with
      | 0 => none
      | fuel + 1 => drain fuel (i + 1) (run step s (ops i a))

/-- the operations of the walk, in order -/
def visits : ℕ → ℕ → σ → List ω
  | 0, _, _ => []
  | fuel + 1, i, s =>
    match (items s)[i]? with
    | none => []
    | some a => ops i a ++ visits fuel (i + 1) (run step s (ops i a))

/-- the operation belongs to an item of the state -/
def Owned (s : σ) (o : ω) : Prop := ∃ i a, (items s)[i]? = some a ∧ o ∈ ops i a

variable {items ops step}

theorem drain_none {fuel i : ℕ} {s : σ} (h : (items s)[i]? = none) : drain items ops step fuel i s = some s := by
  rw [drain.eq_def]; simp only [h]

theorem drain_some {fuel i : ℕ} {s : σ} {a : α} (h : (items s)[i]? = some a) :
    drain items ops step (fuel + 1) i s = drain items ops step fuel (i + 1) (run step s (ops i a)) := by
  rw [drain.eq_def]; simp only [h]

theorem visits_none {fuel i : ℕ} {s : σ} (h : (items s)[i]? = none) : visits items ops step fuel i s = [] := by
  cases fuel <;> simp only [visits, h]

theorem visits_some {fuel i : ℕ} {s : σ} {a : α} (h : (items s)[i]? = some a) :
    visits items ops step (fuel + 1) i s = ops i a ++ visits items ops step fuel (i + 1) (run step s (ops i a)) := by
  simp only [visits, h]

theorem drain_eq_run {fuel i : ℕ} {s t : σ} (h : drain items ops step fuel i s = some t) :
    t = run step s (visits items ops step fuel i s) := by
  induction fuel generalizing i s with
  | zero =>
    rw [drain.eq_def] at h
    cases ha : (items s)[i]? with
    | none => simp only [ha, Option.some.injEq] at h; simp [visits, h]
    | some a => simp [ha] at h
  | succ fuel ih =>
    cases ha : (items s)[i]? with
    | none => rw [drain_none ha] at h; cases h; simp [visits_none ha]
    | some a => rw [drain_some ha] at h; rw [visits_some ha, run_append]; exact ih h

theorem drain_fuel {fuel i : ℕ} {s t : σ} (h : drain items ops step fuel i s = some t) (more : ℕ) :
    drain items ops step (fuel + more) i s = some t ∧
      visits items ops step (fuel + more) i s = visits items ops step fuel i s := by
  induction fuel generalizing i s with
  | zero =>
    cases ha : (items s)[i]? with
    | none => rw [drain_none ha] at h ⊢; exact ⟨h, by simp [visits_none ha]⟩
    | some a => rw [drain.eq_def] at h; simp [ha] at h
  | succ fuel ih =>
    cases ha : (items s)[i]? with
    | none => rw [drain_none ha] at h ⊢; exact ⟨h, by simp [visits_none ha]⟩
    | some a =>
      rw [drain_some ha] at h
      obtain ⟨hdrain, hvisits⟩ := ih h
      rw [Nat.add_right_comm, drain_some ha, visits_some ha, visits_some ha, hvisits]
      exact ⟨hdrain, rfl⟩

theorem getElem?_of_prefix {l l' : List α} {i : ℕ} {a : α} (hp : l <+: l') (h : l[i]? = some a) : l'[i]? = some a := by
  obtain ⟨r, rfl⟩ := hp
  exact List.getElem?_append_left (List.getElem?_eq_some_iff.1 h).1 ▸ h

section Growing

variable (hgrow : ∀ s o, items s <+: items (step s o))

include hgrow

theorem items_prefix_run (s : σ) (l : List ω) : items s <+: items (run step s l) := by
  induction l generalizing s with
  | nil => exact List.prefix_refl _
  | cons o l ih => exact (hgrow s o).trans (ih (step s o))

theorem visits_eq_flatMap {fuel i : ℕ} {s t : σ} (h : drain items ops step fuel i s = some t) :
    visits items ops step fuel i s = ((items t).zipIdx.drop i).flatMap fun p => ops p.2 p.1 := by
  have hdone : ∀ {s : σ} {i : ℕ}, (items s)[i]? = none → (items s).zipIdx.drop i = [] := by
    intro s i ha
    rw [List.drop_eq_nil_iff, List.length_zipIdx]
    exact List.getElem?_eq_none_iff.1 ha
  induction fuel generalizing i s with
  | zero =>
    cases ha : (items s)[i]? with
    | none => rw [drain_none ha] at h; cases h; simp [visits, hdone ha]
    | some a => rw [drain.eq_def] at h; simp [ha] at h
  | succ fuel ih =>
    cases ha : (items s)[i]? with
    | none => rw [drain_none ha] at h; cases h; simp [visits_none ha, hdone ha]
    | some a =>
      rw [drain_some ha] at h
      have hprefix : items s <+: items t := by
        rw [drain_eq_run h]
        exact (items_prefix_run hgrow s _).trans (items_prefix_run hgrow _ _)
      have hat : (items t).zipIdx[i]? = some (a, i) := by
        simp [List.getElem?_zipIdx, getElem?_of_prefix hprefix ha]
      obtain ⟨hi, hget⟩ := List.getElem?_eq_some_iff.1 hat
      rw [visits_some ha, ih h, List.drop_eq_getElem_cons hi, hget, List.flatMap_cons]

theorem visits_owned (fuel i : ℕ) (s : σ) :
    Meets step (Owned items ops) s (visits items ops step fuel i s) := by
  have hown : ∀ {i a} (l : List ω) (s : σ), (items s)[i]? = some a → (∀ o ∈ l, o ∈ ops i a) →
      Meets step (Owned items ops) s l := by
    intro i a l
    induction l with
    | nil => exact fun _ _ _ => trivial
    | cons o l ih =>
      intro s ha hl
      refine ⟨⟨i, a, ha, hl o List.mem_cons_self⟩, ih _ ?_ fun o' ho' => hl o' (List.mem_cons_of_mem o ho')⟩
      exact getElem?_of_prefix (hgrow s o) ha
  induction fuel generalizing i s with
  | zero => exact trivial
  | succ fuel ih =>
    cases ha : (items s)[i]? with
    | none => rw [visits_none ha]; exact trivial
    | some a =>
      rw [visits_some ha, meets_append]
      exact ⟨hown _ s ha fun o ho => ho, ih _ _⟩

/-- **Termination.** Where an invariant of the steps bounds the number of items, the walk ends within the bound. -/
theorem drain_total {I : σ → Prop} (hstep : ∀ s o, Owned items ops s o → I s → I (step s o)) {bound : ℕ}
    (hbound : ∀ s, I s → (items s).length ≤ bound) {fuel i : ℕ} {s : σ} (hI : I s) (hfuel : bound ≤ fuel + i) :
    ∃ t, drain items ops step fuel i s = some t := by
  induction fuel generalizing i s with
  | zero =>
    have hend : (items s)[i]? = none := List.getElem?_eq_none_iff.2 ((hbound s hI).trans (by omega))
    exact ⟨s, drain_none hend⟩
  | succ fuel ih =>
    cases ha : (items s)[i]? with
    | none => exact ⟨s, drain_none ha⟩
    | some a =>
      rw [drain_some ha]
      refine ih ?_ (by omega)
      have howned : Meets step (Owned items ops) s (visits items ops step 1 i s) := visits_owned hgrow 1 i s
      rw [visits_some ha, meets_append] at howned
      exact run_invariant step hstep howned.1 hI

end Growing

end Worklist

end EspectralClient.Lib
