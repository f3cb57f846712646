/-
A loop that makes a bounded number of attempts: an attempt ends the loop with a result, or leaves a state for the next.

- `retry`: the loop; it answers none when every attempt asked for another.
- `retry_inv`: what an attempt that asks for another keeps, running out of attempts keeps.
- `retry_post`: what an attempt that ends the loop establishes from there, the loop establishes.
-/
import Mathlib.Tactic

namespace EspectralClient.Lib

/-- what one attempt comes to -/
inductive Turn (σ ρ : Type*) where
  | done (r : ρ) (s : σ)
  | again (s : σ)

section Retry

variable {σ ρ : Type*} (attempt : σ → Turn σ ρ)

def retry : ℕ → σ → Option ρ × σ
  | 0, s => (none, s)
  | n + 1, s =>
    match attempt s with
    | .done r s' => (some r, s')
    | .again s' => retry n s'

variable {attempt} {I : σ → Prop} (hagain : ∀ s s', I s → attempt s = .again s' → I s')

include hagain

theorem retry_inv {n : ℕ} {s s' : σ} (h : I s) (hrun : retry attempt n s = (none, s')) : I s' := by
  induction n generalizing s with
  | zero => cases hrun; exact h
  | succ n ih =>
    unfold retry at hrun
    split at hrun
    · cases hrun
    · rename_i next hnext
      exact ih (hagain s next h hnext) hrun

theorem retry_post {Post : ρ → σ → Prop} (hdone : ∀ s r s', I s → attempt s = .done r s' → Post r s') {n : ℕ}
    {s s' : σ} {r : ρ} (h : I s) (hrun : retry attempt n s = (some r, s')) : Post r s' := by
  induction n generalizing s with
  | zero => cases hrun
  | succ n ih =>
    unfold retry at hrun
    split at hrun
    · rename_i r' s'' hr
      cases hrun
      exact hdone s r s' h hr
    · rename_i next hnext
      exact ih (hagain s next h hnext) hrun

end Retry

end EspectralClient.Lib
