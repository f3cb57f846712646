/-
Computations that may fail.

- `bind_ok`: a computation in steps that succeeds is steps that succeed.
- `Ends`: what a computation's failures and its results are, and `Ends.bind`, the rule for two steps.
-/
import Mathlib.Tactic

namespace EspectralClient.Lib.Fallible

variable {ε α β : Type*}

theorem bind_ok {x : Except ε α} {f : α → Except ε β} {b : β} (h : Except.bind x f = .ok b) :
    ∃ a, x = .ok a ∧ f a = .ok b := by
  cases x with
  | error e => cases h
  | ok a => exact ⟨a, rfl, h⟩

/-- it fails only as `E` allows, and its result is as `Q` says -/
def Ends (E : ε → Prop) (Q : α → Prop) : Except ε α → Prop
  | .ok a => Q a
  | .error e => E e

variable {E : ε → Prop} {Q : α → Prop} {R : β → Prop}

/-- **Two steps.** What the first ends with is what the second starts from. -/
theorem Ends.bind {x : Except ε α} {f : α → Except ε β} (hx : Ends E Q x) (hf : ∀ a, Q a → Ends E R (f a)) :
    Ends E R (Except.bind x f) := by
  cases x with
  | error e => exact hx
  | ok a => exact hf a hx

theorem Ends.mono {Q' : α → Prop} {x : Except ε α} (hx : Ends E Q x) (h : ∀ a, Q a → Q' a) : Ends E Q' x := by
  cases x with
  | error e => exact hx
  | ok a => exact h a hx

/-- the result that is promised about is the one that it has -/
theorem Ends.with_result {x : Except ε α} (hx : Ends E Q x) : Ends E (fun a => x = .ok a ∧ Q a) x := by
  cases x with
  | error e => exact hx
  | ok a => exact ⟨rfl, hx⟩

theorem Ends.of_ok {x : Except ε α} {a : α} (hx : Ends E Q x) (h : x = .ok a) : Q a := by
  rw [h] at hx
  exact hx

end EspectralClient.Lib.Fallible
