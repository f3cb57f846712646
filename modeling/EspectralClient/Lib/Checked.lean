/-
Computations on machine numbers and slices that stop where the machine would: a sum or a product past its width, an
index outside of a slice, a loop that does not end, or an error of the program's own.

- `add_ends`, `mul_ends`, `signed_ends`, `index_ends`, `slice_ends`, `store_ends`, `write_ends`: each operation goes on
  where its bound holds.
- `bind_ends`, `ite_ends`: the rules of two steps and of a branch.
- `foldlM_ends`: the rule of a counted loop, by an invariant for each turn.
-/
import Mathlib.Data.List.GetD
import EspectralClient.Lib.Fallible

namespace EspectralClient.Lib.Checked

open Fallible

/-- why a computation stops; `err` is the program's own -/
inductive Stop (ε : Type*) where
  | err (e : ε)
  | overflow
  | outside
  | endless
deriving DecidableEq, Repr

/-- an error of the program -/
def Stop.IsErr {ε : Type*} : Stop ε → Prop
  | .err _ => True
  | _ => False

section Operations

variable {ε : Type*} {α : Type*}

/-- the unsigned sum of a width -/
def add (w a b : ℕ) : Except (Stop ε) ℕ := if a + b < 2 ^ w then .ok (a + b) else .error .overflow

def mul (w a b : ℕ) : Except (Stop ε) ℕ := if a * b < 2 ^ w then .ok (a * b) else .error .overflow

/-- a result of signed arithmetic -/
def signed (w : ℕ) (x : ℤ) : Except (Stop ε) ℤ :=
  if -2 ^ (w - 1) ≤ x ∧ x < 2 ^ (w - 1) then .ok x else .error .overflow

def index (l : List α) (i : ℕ) : Except (Stop ε) α := (l[i]?.map .ok).getD (.error .outside)

/-- the elements from `a` up to `b` -/
def slice (l : List α) (a b : ℕ) : Except (Stop ε) (List α) :=
  if a ≤ b ∧ b ≤ l.length then .ok ((l.take b).drop a) else .error .outside

def store (l : List α) (i : ℕ) (v : α) : Except (Stop ε) (List α) :=
  if i < l.length then .ok (l.set i v) else .error .outside

/-- the elements of one slice into another of the same length -/
def copyFrom (dst src : List α) : Except (Stop ε) (List α) :=
  if dst.length = src.length then .ok src else .error .outside

/-- a slice of the list with new elements in it -/
def write (l : List α) (a b : ℕ) (new : List α) : Except (Stop ε) (List α) :=
  if a ≤ b ∧ b ≤ l.length ∧ new.length = b - a then .ok (l.take a ++ new ++ l.drop b) else .error .outside

end Operations

section Rules

universe u

variable {ε : Type*} {α β : Type u} {E : Stop ε → Prop}

theorem add_ends {w a b : ℕ} (h : a + b < 2 ^ w) : Ends E (fun n => n = a + b) (add w a b) := by
  rw [add, if_pos h]
  exact rfl

theorem mul_ends {w a b : ℕ} (h : a * b < 2 ^ w) : Ends E (fun n => n = a * b) (mul w a b) := by
  rw [mul, if_pos h]
  exact rfl

theorem signed_ends {w : ℕ} {x : ℤ} (hlow : -2 ^ (w - 1) ≤ x) (hhigh : x < 2 ^ (w - 1)) :
    Ends E (fun y => y = x) (signed w x) := by
  rw [signed, if_pos ⟨hlow, hhigh⟩]
  exact rfl

/-- the least number alone has no absolute value -/
theorem signed_abs_ends {w : ℕ} {x : ℤ} (hlow : -2 ^ (w - 1) < x) (hhigh : x < 2 ^ (w - 1)) :
    Ends E (fun y => y = |x|) (signed w |x|) := by
  have hpos : (0 : ℤ) < 2 ^ (w - 1) := by positivity
  exact signed_ends (by linarith [abs_nonneg x]) (abs_lt.2 ⟨hlow, hhigh⟩)

theorem index_ends {l : List α} {i : ℕ} (h : i < l.length) (d : α) : Ends E (fun a => a = l.getD i d) (index l i) := by
  rw [index, List.getElem?_eq_getElem h, List.getD_eq_getElem l d h]
  exact rfl

theorem slice_ends {l : List α} {a b : ℕ} (hab : a ≤ b) (hb : b ≤ l.length) :
    Ends E (fun s => s = (l.take b).drop a) (slice l a b) := by
  rw [slice, if_pos ⟨hab, hb⟩]
  exact rfl

theorem store_ends {l : List α} {i : ℕ} (v : α) (h : i < l.length) :
    Ends E (fun l' => l' = l.set i v) (store l i v) := by
  rw [store, if_pos h]
  exact rfl

theorem copyFrom_ends {dst src : List α} (h : dst.length = src.length) :
    Ends E (fun l => l = src) (copyFrom dst src) := by
  rw [copyFrom, if_pos h]
  exact rfl

theorem write_ends {l new : List α} {a b : ℕ} (hab : a ≤ b) (hb : b ≤ l.length) (hnew : new.length = b - a) :
    Ends E (fun l' => l' = l.take a ++ new ++ l.drop b) (write l a b new) := by
  rw [write, if_pos ⟨hab, hb, hnew⟩]
  exact rfl

/-- the rule of two steps, as `do` writes them -/
theorem bind_ends {Q : α → Prop} {R : β → Prop} {x : Except (Stop ε) α} {f : α → Except (Stop ε) β} (hx : Ends E Q x)
    (hf : ∀ a, Q a → Ends E R (f a)) : Ends E R (x >>= f) :=
  hx.bind hf

theorem ite_ends {Q : α → Prop} {p : Prop} [Decidable p] {x y : Except (Stop ε) α} (hx : p → Ends E Q x)
    (hy : ¬ p → Ends E Q y) : Ends E Q (if p then x else y) := by
  split_ifs with h
  · exact hx h
  · exact hy h

/-- **A counted loop.** What one turn keeps, for its number, the whole loop keeps. -/
theorem foldlM_ends {I : ℕ → β → Prop} {f : β → ℕ → Except (Stop ε) β} {n : ℕ}
    (hstep : ∀ i < n, ∀ b, I i b → Ends E (I (i + 1)) (f b i)) {b : β} (hb : I 0 b) :
    Ends E (I n) ((List.range n).foldlM f b) := by
  induction n with
  | zero => exact hb
  | succ n ih =>
    rw [List.range_succ, List.foldlM_append]
    refine (ih fun i hi => hstep i (by omega)).bind fun b' hb' => ?_
    rw [List.foldlM_cons]
    refine (hstep n (by omega) b' hb').bind fun b'' hb'' => ?_
    exact hb''

end Rules

end EspectralClient.Lib.Checked
