/-
Runs of a machine given by a total step function: an operation that is not enabled leaves the state alone, so every
list of operations is a run and every interleaving of several parties is some list.

- `run`: the state after a list of operations; `run_append`: runs compose.
- `Meets`: every step of the run, taken from the state it starts in, meets a condition.
- `run_invariant`: what one step that meets the condition preserves, a run whose steps all meet it preserves;
  `run_preserves` is the same without a condition.
- `run_leaves`: what each operation leaves behind and none undoes, a run leaves behind for all its operations.
- `run_monotone_meets`: an invariant that follows a reading, over a run of steps that meet a condition and whose readings
  never go back; `run_monotone` is the same without a condition.
- `safe_iff_meets`: where the condition is exactly what keeps a property across one step, a run has the property in every
  state it reaches exactly when its steps meet the condition.
- `holds_run_iff`: where steps take something away and put it back, what a run ends with.
- `run_related`: what related operations keep between two states, two runs in step keep.
- `run_simulates`: forward simulation, each concrete step matched by a list of abstract ones.
-/
import Mathlib.Tactic

namespace EspectralClient.Lib

section Runs

variable {σ ω : Type*} (step : σ → ω → σ)

/-- the state after the operations, in order -/
def run (s : σ) (ops : List ω) : σ := ops.foldl step s

@[simp] theorem run_nil (s : σ) : run step s [] = s := rfl

@[simp] theorem run_cons (s : σ) (o : ω) (ops : List ω) : run step s (o :: ops) = run step (step s o) ops := rfl

theorem run_append (s : σ) (a b : List ω) : run step s (a ++ b) = run step (run step s a) b := by
  simp [run, List.foldl_append]

/-- every step of the run meets `C` in the state it is taken from -/
def Meets (C : σ → ω → Prop) : σ → List ω → Prop
  | _, [] => True
  | s, o :: ops => C s o ∧ Meets C (step s o) ops

@[simp] theorem meets_nil (C : σ → ω → Prop) (s : σ) : Meets step C s [] := trivial

@[simp] theorem meets_cons (C : σ → ω → Prop) (s : σ) (o : ω) (ops : List ω) :
    Meets step C s (o :: ops) ↔ C s o ∧ Meets step C (step s o) ops := Iff.rfl

instance Meets.decidable (C : σ → ω → Prop) [∀ s o, Decidable (C s o)] :
    ∀ (s : σ) (ops : List ω), Decidable (Meets step C s ops)
  | _, [] => isTrue trivial
  | s, o :: ops => @instDecidableAnd _ _ _ (Meets.decidable C (step s o) ops)

theorem meets_append (C : σ → ω → Prop) (s : σ) (a b : List ω) :
    Meets step C s (a ++ b) ↔ Meets step C s a ∧ Meets step C (run step s a) b := by
  induction a generalizing s with
  | nil => simp
  | cons o a ih => simp only [List.cons_append, meets_cons, run_cons, ih, and_assoc]

theorem meets_of_forall {C : σ → ω → Prop} {ops : List ω} (h : ∀ s, ∀ o ∈ ops, C s o) (s : σ) : Meets step C s ops := by
  induction ops generalizing s with
  | nil => trivial
  | cons o ops ih =>
    refine ⟨h s o List.mem_cons_self, ih ?_ (step s o)⟩
    exact fun s o ho => h s o (List.mem_cons_of_mem _ ho)

theorem meets_and {C D : σ → ω → Prop} {s : σ} {ops : List ω} :
    Meets step (fun s o => C s o ∧ D s o) s ops ↔ Meets step C s ops ∧ Meets step D s ops := by
  induction ops generalizing s with
  | nil => simp
  | cons o ops ih =>
    simp only [meets_cons, ih]
    tauto

theorem run_invariant {C : σ → ω → Prop} {I : σ → Prop} (hstep : ∀ s o, C s o → I s → I (step s o))
    {s : σ} {ops : List ω} (hm : Meets step C s ops) (h : I s) : I (run step s ops) := by
  induction ops generalizing s with
  | nil => exact h
  | cons o ops ih => exact ih hm.2 (hstep s o hm.1 h)

theorem run_preserves {I : σ → Prop} (hstep : ∀ s o, I s → I (step s o)) {s : σ} (ops : List ω)
    (h : I s) : I (run step s ops) := by
  induction ops generalizing s with
  | nil => exact h
  | cons o ops ih => exact ih (hstep s o h)

/-- what an operation leaves behind and every operation keeps, a run leaves behind for each of its operations -/
theorem run_leaves {Done : σ → ω → Prop} (hdone : ∀ s o, Done (step s o) o)
    (hkeep : ∀ s o o', Done s o → Done (step s o') o) (s : σ) {ops : List ω} {o : ω} (ho : o ∈ ops) :
    Done (run step s ops) o := by
  induction ops generalizing s with
  | nil => cases ho
  | cons o' ops ih =>
    rcases List.mem_cons.1 ho with rfl | ho
    · exact run_preserves step (I := fun s => Done s o) (fun s o' h => hkeep s o o' h) ops (hdone s o)
    · exact ih (step s o') ho

/-- An invariant with the latest reading as a parameter: a step that meets the condition, and whose reading, if it takes
one, is not before the last, keeps it at that reading; so a run of such steps whose readings never go back keeps it at some
reading of the run. -/
theorem run_monotone_meets {ρ : Type*} [Preorder ρ] (reading : ω → Option ρ) {C : σ → ω → Prop} {I : ρ → σ → Prop}
    (hstep : ∀ last s o, C s o → (∀ r ∈ reading o, last ≤ r) → I last s → I ((reading o).getD last) (step s o))
    {last : ρ} {s : σ} {ops : List ω} (hm : Meets step C s ops) (hlast : ∀ r ∈ ops.filterMap reading, last ≤ r)
    (hmono : (ops.filterMap reading).Pairwise (· ≤ ·)) (h : I last s) :
    ∃ last', I last' (run step s ops) ∧ (last' = last ∨ last' ∈ ops.filterMap reading) := by
  induction ops generalizing last s with
  | nil => exact ⟨last, h, Or.inl rfl⟩
  | cons o ops ih =>
    obtain ⟨hc, hm⟩ := hm
    cases hr : reading o with
    | none =>
      rw [List.filterMap_cons_none hr] at hlast hmono ⊢
      have hnext := hstep last s o hc (by simp [hr]) h
      rw [hr] at hnext
      exact ih hm hlast hmono hnext
    | some r =>
      rw [List.filterMap_cons_some hr] at hlast hmono ⊢
      obtain ⟨hle, hrest⟩ := List.pairwise_cons.1 hmono
      have hnext := hstep last s o hc (by simpa [hr] using hlast r List.mem_cons_self) h
      rw [hr] at hnext
      obtain ⟨last', hinv, hl⟩ := ih hm hle hrest hnext
      exact ⟨last', hinv, Or.inr (by rcases hl with rfl | hl <;> simp [*])⟩

theorem meets_true (s : σ) (ops : List ω) : Meets step (fun _ _ => True) s ops :=
  meets_of_forall step (fun _ _ _ => trivial) s

theorem run_monotone {ρ : Type*} [Preorder ρ] (reading : ω → Option ρ) {I : ρ → σ → Prop}
    (hstep : ∀ last s o, (∀ r ∈ reading o, last ≤ r) → I last s → I ((reading o).getD last) (step s o))
    {last : ρ} {s : σ} {ops : List ω} (hlast : ∀ r ∈ ops.filterMap reading, last ≤ r)
    (hmono : (ops.filterMap reading).Pairwise (· ≤ ·)) (h : I last s) :
    ∃ last', I last' (run step s ops) ∧ (last' = last ∨ last' ∈ ops.filterMap reading) :=
  run_monotone_meets step reading (fun last s o _ => hstep last s o) (meets_true step s ops) hlast hmono h

/-- **Exact step conditions.** If, from a safe state, a step stays safe exactly when it meets `C`, then all states of a
run are safe exactly when all its steps meet `C`. -/
theorem safe_iff_meets {C : σ → ω → Prop} {Safe : σ → Prop} (hstep : ∀ s o, Safe s → (Safe (step s o) ↔ C s o))
    {s : σ} (hs : Safe s) (ops : List ω) :
    (∀ before, before <+: ops → Safe (run step s before)) ↔ Meets step C s ops := by
  induction ops generalizing s with
  | nil =>
    refine ⟨fun _ => trivial, ?_⟩
    intro _ before hb
    rw [List.prefix_nil.1 hb]
    exact hs
  | cons o ops ih =>
    constructor
    · intro h
      have hso : Safe (step s o) := h [o] (by simp)
      exact ⟨(hstep s o hs).1 hso, (ih hso).1 fun before hb => h (o :: before) (List.cons_prefix_cons.2 ⟨rfl, hb⟩)⟩
    · rintro ⟨hc, hm⟩ before hb
      cases before with
      | nil => exact hs
      | cons o' before =>
        obtain ⟨rfl, hbefore⟩ := List.cons_prefix_cons.1 hb
        exact (ih ((hstep s o' hs).2 hc)).2 hm before hbefore

/-- **Two runs.** What related operations keep between two states, they keep between two runs of them in step. -/
theorem run_related {R : σ → σ → Prop} {Q : ω → ω → Prop}
    (hstep : ∀ s t o p, R s t → Q o p → R (step s o) (step t p)) {s t : σ} {ops ops' : List ω}
    (hops : List.Forall₂ Q ops ops') (h : R s t) : R (run step s ops) (run step t ops') := by
  induction hops generalizing s t with
  | nil => exact h
  | cons hq _ ih => exact ih (hstep _ _ _ _ h hq)

/-! ### What is taken away and put back -/

/-- a step of the run puts it back -/
def PutLater (puts : σ → ω → Prop) : σ → List ω → Prop
  | _, [] => False
  | s, o :: ops => puts s o ∨ PutLater puts (step s o) ops

/-- wherever a step of the run takes it away, that step or a later one puts it back -/
def Restored (takes puts : σ → ω → Prop) : σ → List ω → Prop
  | _, [] => True
  | s, o :: ops => (takes s o → PutLater step puts s (o :: ops)) ∧ Restored takes puts (step s o) ops

/-- **The last step that counts.** Where a step leaves what was there and not taken, and what it puts, a run ends with
what was there or put at some step and put back wherever it was taken. -/
theorem holds_run_iff {holds : σ → Prop} {takes puts : σ → ω → Prop}
    (hstep : ∀ s o, holds (step s o) ↔ holds s ∧ ¬ takes s o ∨ puts s o) (s : σ) (ops : List ω) :
    holds (run step s ops) ↔ (holds s ∨ PutLater step puts s ops) ∧ Restored step takes puts s ops := by
  induction ops generalizing s with
  | nil => simp [PutLater, Restored]
  | cons o ops ih =>
    rw [run_cons, ih, hstep]
    simp only [Restored, PutLater]
    tauto

end Runs

section Simulation

variable {σ ω α β : Type*} (step : σ → ω → σ) (astep : α → β → α)

/-- **Forward simulation.** If every concrete step from related states is matched by some abstract operations, every
concrete run is matched by an abstract run. -/
theorem run_simulates {R : σ → α → Prop} (hstep : ∀ s a o, R s a → ∃ l, R (step s o) (run astep a l))
    {s : σ} {a : α} (ops : List ω) (h : R s a) : ∃ l, R (run step s ops) (run astep a l) := by
  induction ops generalizing s a with
  | nil => exact ⟨[], h⟩
  | cons o ops ih =>
    obtain ⟨l, hl⟩ := hstep s a o h
    obtain ⟨l', hl'⟩ := ih hl
    exact ⟨l ++ l', by rwa [run_append]⟩

end Simulation

end EspectralClient.Lib
