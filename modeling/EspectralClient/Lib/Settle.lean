/-
Settling rules by one pass: each rule is a step down an order that makes the rule hold, and what holds above holds below.

- `settle_le`, `settle_ok`: one pass over the rules, in any order, ends below where it started, with every rule holding.
- `settle_eq_self`: where every rule holds already, the pass changes nothing, so a settled value is a fixed point.
- `settle_congr`: two kinds of steps that agree below a value settle alike from there.
-/
import Mathlib.Tactic

namespace EspectralClient.Lib

section Settle

variable {α ρ : Type*}

/-- one pass over the rules -/
def settle (step : ρ → α → α) (rules : List ρ) (a : α) : α := rules.foldl (fun a r => step r a) a

variable {step : ρ → α → α}

@[simp] theorem settle_nil (a : α) : settle step [] a = a := rfl

@[simp] theorem settle_cons (r : ρ) (rules : List ρ) (a : α) :
    settle step (r :: rules) a = settle step rules (step r a) := rfl

theorem settle_eq_self {Ok : ρ → α → Prop} (hid : ∀ r a, Ok r a → step r a = a) {rules : List ρ} {a : α}
    (h : ∀ r ∈ rules, Ok r a) : settle step rules a = a := by
  induction rules with
  | nil => rfl
  | cons r rules ih =>
    rw [settle_cons, hid r a (h r List.mem_cons_self)]
    exact ih fun r' hr' => h r' (List.mem_cons_of_mem r hr')

variable [Preorder α] {Ok : ρ → α → Prop}

theorem settle_le (hle : ∀ r a, step r a ≤ a) (rules : List ρ) (a : α) : settle step rules a ≤ a := by
  induction rules generalizing a with
  | nil => exact le_refl a
  | cons r rules ih => exact (ih (step r a)).trans (hle r a)

theorem settle_ok (hle : ∀ r a, step r a ≤ a) (hok : ∀ r a, Ok r (step r a)) (hdown : ∀ r a b, Ok r a → b ≤ a → Ok r b)
    (rules : List ρ) (a : α) : ∀ r ∈ rules, Ok r (settle step rules a) := by
  induction rules generalizing a with
  | nil => exact fun r hr => nomatch hr
  | cons r rules ih =>
    intro r' hr'
    rcases List.mem_cons.1 hr' with rfl | hr'
    · exact hdown r' _ _ (hok r' a) (settle_le hle rules (step r' a))
    · exact ih (step r a) r' hr'

/-- steps that agree on all that is below a value settle alike from it -/
theorem settle_congr {step' : ρ → α → α} (hle : ∀ r a, step r a ≤ a) {rules : List ρ} {a : α}
    (h : ∀ r ∈ rules, ∀ b ≤ a, step' r b = step r b) : settle step' rules a = settle step rules a := by
  induction rules generalizing a with
  | nil => rfl
  | cons r rules ih =>
    rw [settle_cons, settle_cons, h r List.mem_cons_self a (le_refl a)]
    exact ih fun r' hr' b hb => h r' (List.mem_cons_of_mem r hr') b (hb.trans (hle r a))

end Settle

end EspectralClient.Lib
