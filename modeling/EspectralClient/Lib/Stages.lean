/-
Stages that run one after the other and stop at the first that refuses, each with what it has changed so far. What the
first refusal leaves behind is what the stages up to it have done.

- `runStages`: the state and the refusal, if any.
- `runStages_keeps`: an invariant of the stages that do not refuse.
- `Stage`: of a stage, in the states it can be reached in, whether it refuses and whether it acts, that is, breaks a
  property that no stage restores.
- `stages_spec`: a run is refused when one of its stages refuses, and leaves the property intact exactly when none up to
  the first refusal acts.
-/
import Mathlib.Tactic

namespace EspectralClient.Lib

variable {σ ε : Type*}

def runStages : List (σ → σ × Option ε) → σ → σ × Option ε
  | [], w => (w, none)
  | f :: fs, w =>
    match (f w).2 with
    | none => runStages fs (f w).1
    | some e => ((f w).1, some e)

/-- what every stage keeps unless it refuses -/
theorem runStages_keeps {P : σ → Prop} {fs : List (σ → σ × Option ε)}
    (h : ∀ f ∈ fs, ∀ w, P w → (f w).2 = none → P (f w).1) {w : σ} (hw : P w) (hnone : (runStages fs w).2 = none) :
    P (runStages fs w).1 := by
  induction fs generalizing w with
  | nil => exact hw
  | cons f fs ih =>
    unfold runStages at hnone ⊢
    cases hf : (f w).2 with
    | some e =>
      rw [hf] at hnone
      cases hnone
    | none =>
      rw [hf] at hnone
      apply ih
      · exact fun g hg => h g (List.mem_cons_of_mem f hg)
      · exact h f List.mem_cons_self w hw hf
      · exact hnone

/-- some stage refuses; each is given by whether it acts and whether it refuses -/
def refused (flags : List (Bool × Bool)) : Bool := flags.any Prod.snd

/-- a stage up to the first refusal acts -/
def acted : List (Bool × Bool) → Bool
  | [] => false
  | (acts, refuses) :: rest => acts || (!refuses && acted rest)

/-- what is known before a stage and, unless it refuses, after it -/
structure Stage (Intact : σ → Prop) (Before After : σ → Prop) (f : σ → σ × Option ε) (acts refuses : Bool) : Prop where
  refuses : ∀ w, Before w → (f w).2.isSome = refuses
  intact : ∀ w, Before w → (Intact (f w).1 ↔ Intact w ∧ acts = false)
  leads : ∀ w, Before w → (f w).2 = none → After (f w).1

inductive Stages (Intact : σ → Prop) : (σ → Prop) → List (σ → σ × Option ε) → List (Bool × Bool) → (σ → Prop) → Prop
  | nil {Before : σ → Prop} : Stages Intact Before [] [] Before
  | cons {Before Next After : σ → Prop} {f : σ → σ × Option ε} {acts refuses : Bool} {fs : List (σ → σ × Option ε)}
      {flags : List (Bool × Bool)} (first : Stage Intact Before Next f acts refuses)
      (rest : Stages Intact Next fs flags After) : Stages Intact Before (f :: fs) ((acts, refuses) :: flags) After

/-- **The first refusal.** -/
theorem stages_spec {Intact Before After : σ → Prop} {fs : List (σ → σ × Option ε)} {flags : List (Bool × Bool)}
    (h : Stages Intact Before fs flags After) {w : σ} (hw : Before w) :
    (runStages fs w).2.isSome = refused flags ∧
      (Intact (runStages fs w).1 ↔ Intact w ∧ acted flags = false) ∧
      ((runStages fs w).2 = none → After (runStages fs w).1) := by
  induction h generalizing w with
  | nil => exact ⟨rfl, ⟨fun hi => ⟨hi, rfl⟩, And.left⟩, fun _ => hw⟩
  | @cons Before Next After f acts refuses fs flags first rest ih =>
    have hrefuses := first.refuses w hw
    have hintact := first.intact w hw
    unfold runStages refused acted
    rw [List.any_cons]
    cases hf : (f w).2 with
    | some e =>
      rw [hf, Option.isSome_some] at hrefuses
      subst hrefuses
      refine ⟨rfl, ?_, fun hnone => by cases hnone⟩
      rw [Bool.not_true, Bool.false_and, Bool.or_false]
      exact hintact
    | none =>
      rw [hf, Option.isSome_none] at hrefuses
      subst hrefuses
      obtain ⟨hsome, hrest, hafter⟩ := ih (first.leads w hw hf)
      refine ⟨hsome, ?_, hafter⟩
      rw [Bool.not_false, Bool.true_and, Bool.or_eq_false_iff]
      calc Intact (runStages fs (f w).1).1
          ↔ Intact (f w).1 ∧ acted flags = false := hrest
        _ ↔ (Intact w ∧ acts = false) ∧ acted flags = false := and_congr_left' hintact
        _ ↔ Intact w ∧ acts = false ∧ acted flags = false := and_assoc

end EspectralClient.Lib
